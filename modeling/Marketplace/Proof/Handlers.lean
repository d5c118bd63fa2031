/-
  Every handler meets the specification: its transactions commit exactly the
  atomic events, under the checks the events stand for.
-/
import Marketplace.Proof.Effects

namespace Marketplace

open ReadCommitted

variable {cfg : Config} {R : Regime cfg} {q : Request cfg}
  {log rest : List (Log Event QueryFailedError Call)} {A : Database → Prop}

/-! ## Replies and queries -/

@[simp] theorem unsettled_nil : Unsettled [] := by simp [Unsettled]

@[simp] theorem unsettled_append : Unsettled (log ++ rest) ↔ Unsettled log ∧ Unsettled rest := by
  simp [Unsettled, or_imp, forall_and]

@[simp] theorem unsettled_cons {l : Log Event QueryFailedError Call} :
    Unsettled (l :: log) ↔ (∀ e, .emit e = l → e.settles = false) ∧ Unsettled log := by
  simp [Unsettled, or_imp, forall_and]

theorem query_ok_of {β : Type} {g : Database → β} {k : β → Program} (hlog : Unsettled log)
    (h : ∀ d, R.base d → A d → ∃ B, R.spec.Stable [] B ∧ B d ∧ R.spec.ReqOk q log B (k (g d))) :
    R.spec.ReqOk q log A (query g k) :=
  Spec.ReqOk.select h fun f => show Unsettled (log ++ [.fault f]) by simpa using hlog

theorem query_ok {β : Type} {g : Database → β} {k : β → Program} (hlog : Unsettled log)
    (h : ∀ d, R.base d → A d → R.spec.ReqOk q log (fun _ => True) (k (g d))) :
    R.spec.ReqOk q log A (query g k) :=
  query_ok_of hlog fun d hb hd => ⟨_, .true [], trivial, h d hb hd⟩

theorem unlessRefused_ok {refusal : Option QueryFailedError} {k : Program} (hlog : Unsettled log)
    (hk : R.spec.ReqOk q log A k) : R.spec.ReqOk q log A (unlessRefused refusal k) := by
  cases refusal with
  | none => exact hk
  | some f => exact hlog

theorem getManyAndCount_ok {α : Type} {dto : PaginationQueryDto} {g : Database → List α}
    {k : PaginatedResult α → Program} (hlog : Unsettled log)
    (hk : ∀ p A', R.spec.ReqOk q log A' (k p)) :
    R.spec.ReqOk q log A (dto.getManyAndCount g k) :=
  unlessRefused_ok hlog (query_ok hlog fun _ _ _ => query_ok hlog fun _ _ _ => hk _ _)

/-! ## Notifications of orders -/

/-- The rest of a request is fine whatever has been added to its log, if no other notification is
    saved. -/
def Rest (R : Regime cfg) (q : Request cfg) (log : List (Log Event QueryFailedError Call))
    (k : Program) : Prop :=
  ∀ rest A', Quiet rest → R.spec.ReqOk q (log ++ rest) A' k

theorem Rest.append {k : Program} (h : Rest R q log k) (hr : Quiet rest) :
    Rest R q (log ++ rest) k := fun rest' A' hr' => by
  rw [List.append_assoc]
  exact h _ A' fun n r hm => (List.mem_append.1 hm).elim (hr n r) (hr' n r)

theorem Rest.done {k : Program} (h : Rest R q log k) (A' : Database → Prop) :
    R.spec.ReqOk q log A' k := by
  simpa using h [] A' (by simp [Quiet])

theorem sendToUser_ok (hq : q.notifies = true) {u : String} {id : ℤ} {n : Notification}
    (hn : n.userId = u) {k : Program} (hk : Rest R q log k) :
    R.spec.ReqOk q log A (PushService.sendToUser cfg u id n k) := by
  have fault {log : List (Log Event QueryFailedError Call)} {A'} (h : Rest R q log k)
      (f : QueryFailedError) : R.spec.ReqOk q (log ++ [.fault f]) A' k :=
    h _ A' (by simp [Quiet])
  unfold PushService.sendToUser
  split_ifs
  · exact hk.done _
  refine Spec.ReqOk.select (fun d _ _ => ⟨_, .true [], trivial, ?_⟩) fun f => fault hk f
  cases (d.users.get u).bind User.fcmToken with
  | none => exact hk.done _
  | some token =>
    dsimp only
    split_ifs
    · exact hk.done _
    refine ⟨hq, fun x => ?_⟩
    have hsent : Rest R q (log ++ [.call (.fcm ⟨token, id, n⟩)]) k := hk.append (by simp [Quiet])
    rcases x with _ | (_ | code)
    · exact hsent.done _
    · exact hsent.done _
    dsimp only
    split_ifs
    · refine ⟨.update (.true []) ?_ fun d r _ _ _ hp => ?_, fun f => fault hsent f⟩
      · exact .commit_nil (.true []) (fun _ _ _ => trivial) (by simpa using hsent.done _)
      · refine .commit (.forgetToken u token) (by simp) (by simp [Event.writes])
          (fun d _ hd => ⟨?_, log, _, rfl, hn, rfl⟩) (hsent _ _ (by simp [Quiet]))
        exact .forgetToken hq hd.2 (by simpa using hp) (by simp)
    · exact hsent.done _

theorem Request.notifies_of_announces {x : String × NotificationType} (h : q.announces = some x) :
    q.notifies = true := by
  cases q <;> first | rfl | cases h

theorem notify_ok {o : ℤ} {e : Event} {r : Order} {u : String} {input : CreateNotificationInput}
    {k : Program} (he : OrderEvent o q e) (ho : input.orderId = some o)
    (hq : q.announces = some (u, input.type)) (hu : counterpart r u = some input.userId)
    (hk : ∀ log A', OrderLog q log → R.spec.ReqOk q log A' k) :
    R.spec.ReqOk q [.emit e] (fun d => ∃ r', d.orders.get o = some r' ∧ SameOrder r r')
      (NotificationsService.notify cfg input k) := by
  refine ⟨.insert (stable_order R o r) fun n now _ => ?_,
    fun f => hk _ _ ⟨o, e, _, rfl, he, Or.inl ⟨f, rfl⟩⟩⟩
  have hnotifies := Request.notifies_of_announces hq
  let n' : Notification :=
    ⟨input.userId, input.type, input.title, input.body, input.itemId, input.orderId, false, now⟩
  have hrest (l) (hl : Quiet l) : Rest R q ([.emit e] ++ [.emit (.notify n n')] ++ l) k := by
    intro rest A' hrest
    refine hk _ _ ⟨o, e, _, rfl, he, Or.inr ⟨n, n', l ++ rest, by simp, fun m r hm => ?_⟩⟩
    exact (List.mem_append.1 hm).elim (hl m r) (hrest m r)
  refine .commit (.notify n n') (by simp) rfl (fun d _ hd => ⟨?_, o, e, rfl, he, ho⟩) ?_
  · obtain ⟨⟨r', hr', hs⟩, hn⟩ := hd
    refine .notify hnotifies hn (by simp [Serial.key]) ⟨u, o, r', hq, ho, hr', ?_⟩
    rw [counterpart, hs.sellerId, hs.buyerId]
    exact hu
  · refine ⟨trivial, fun x => ?_⟩
    cases x with
    | done => exact sendToUser_ok (n := n') hnotifies rfl (hrest [.call _] (by simp [Quiet]))
    | rejected => exact (hrest [.call _] (by simp [Quiet])).done _

theorem counterpart_of_buyer {r : Order} {u : String} (h : r.buyerId = u) :
    counterpart r u = some r.sellerId := by
  unfold counterpart
  split_ifs with hs
  · rw [h, hs]
  · rfl

theorem counterpart_of_seller {r : Order} {u : String} (h : r.sellerId = u) :
    counterpart r u = some r.buyerId := if_pos h

section
variable {o : OrderDetail} {e : Event} {u : String} {k : Program}
  (he : OrderEvent o.orderId q e) (hk : ∀ log A', OrderLog q log → R.spec.ReqOk q log A' k)

include he hk

theorem notifyOrderPlaced_ok (hq : q.announces = some (u, .orderPlaced))
    (hu : o.order.buyerId = u) :
    R.spec.ReqOk q [.emit e] (fun d => ∃ r, d.orders.get o.orderId = some r ∧ SameOrder o.order r)
      (NotificationsService.notifyOrderPlaced cfg o k) :=
  notify_ok he rfl hq (counterpart_of_buyer hu) hk

theorem notifyOrderStatusChanged_ok {x : OrderStatus} (hx : o.order.status = x)
    (hne : x ≠ .pending)
    (hq : q.announces = some (u, if x = .completed then .orderCompleted else .orderCancelled))
    (hu : o.order.buyerId = u ∨ o.order.sellerId = u)
    (hc : x = .completed → o.order.sellerId = u) :
    R.spec.ReqOk q [.emit e] (fun d => ∃ r, d.orders.get o.orderId = some r ∧ SameOrder o.order r)
      (NotificationsService.notifyOrderStatusChanged cfg o u k) := by
  unfold NotificationsService.notifyOrderStatusChanged
  rw [hx]
  cases x with
  | pending => exact absurd rfl hne
  | completed => exact notify_ok he rfl hq (counterpart_of_seller (hc rfl)) hk
  | cancelled =>
    refine notify_ok he rfl hq ?_ hk
    by_cases hs : o.order.sellerId = u
    · simp [counterpart_of_seller hs, hs]
    · simp [counterpart_of_buyer (hu.resolve_right hs), Ne.symm hs]

theorem notifyPaymentSlipAttached_ok (hq : q.announces = some (u, .paymentSlipAttached))
    (hu : o.order.buyerId = u) :
    R.spec.ReqOk q [.emit e] (fun d => ∃ r, d.orders.get o.orderId = some r ∧ SameOrder o.order r)
      (NotificationsService.notifyPaymentSlipAttached cfg o k) :=
  notify_ok he rfl hq (counterpart_of_buyer hu) hk

end

/-! ## Reading notifications -/

theorem findMyNotifications_ok {u : String} {dto : ListNotificationsQueryDto}
    (hlog : Unsettled log) :
    R.spec.ReqOk (.findMyNotifications u dto) log A (NotificationsService.findMine u dto) := by
  unfold NotificationsService.findMine
  exact getManyAndCount_ok hlog fun _ _ => trivial

theorem emitRead_ok {u : String} {id : Option ℤ} {k : Program} (hq : q.marks? = some u)
    (hlog : Unsettled log) (hk : ∀ log A', R.spec.ReqOk q log A' k) :
    R.spec.ReqOk q log A (NotificationsService.emitRead u id k) :=
  query_ok hlog fun _ _ _ => ⟨⟨u, hq, rfl, rfl⟩, fun _ => hk _ _⟩

/-- A notification marked as read. -/
abbrev readNotification (_ : ℤ) (n : Notification) : Notification := { n with isRead := true }

/-- A message marked as read. -/
abbrev readMessage (_ : ℤ) (m : Message) : Message := { m with isRead := true }

/-- The writes of marking notifications as read. -/
abbrev notificationWrites : List (Σ _ : ℤ, Notification) → List (Write market) :=
  Spec.writesOf (S := market) Key.notification readNotification

/-- The writes of marking messages as read. -/
abbrev messageWrites : List (Σ _ : ℤ, Message) → List (Write market) :=
  Spec.writesOf (S := market) Key.message readMessage

theorem notification_injective : Function.Injective Key.notification :=
  fun _ _ => Key.notification.inj

theorem message_injective : Function.Injective Key.message := fun _ _ => Key.message.inj

theorem readsNotifications_overlay {u : String} {d : Database} (ks : List (Σ _ : ℤ, Notification))
    (hu : ∀ x ∈ ks, x.2.userId = u) (hd : ∀ x ∈ ks, d.notifications.get x.1 = some x.2) :
    ReadsNotifications u d (overlay (notificationWrites ks) d) where
  frame := by
    clear hu hd
    induction ks generalizing d with
    | nil => exact ⟨_, rfl⟩
    | cons x ks ih => exact ih (d := d.put (.notification x.1) _)
  rows n := by
    rcases Spec.get_overlay_writesOf_cases (S := market) (f := readNotification)
      notification_injective hd n with h | ⟨r, hr, hg, h⟩
    · exact Or.inl h
    · exact Or.inr ⟨r, hg, hu _ hr, h⟩

/-- Marking messages as read takes them off the unread count. -/
theorem unreadCount_overlay {i : ℤ} {peer me : String} {d : Database}
    (ks : List (Σ _ : ℤ, Message)) (hn : (ks.map Sigma.fst).Nodup)
    (hu : ∀ x ∈ ks, ChatsService.unreadFrom i peer me x.2 = true)
    (hd : ∀ x ∈ ks, d.messages.get x.1 = some x.2) :
    ChatsService.unreadCount d me (i, peer) =
      ChatsService.unreadCount (overlay (messageWrites ks) d) me (i, peer) + ks.length := by
  induction ks generalizing d with
  | nil => rfl
  | cons x ks ih =>
    obtain ⟨hx, hn⟩ := List.nodup_cons.1 hn
    have hput := Table.total_put (hd x List.mem_cons_self)
      (fun _ m => if ChatsService.unreadFrom i peer me m = true then 1 else 0) (readMessage x.1 x.2)
    have hread : ChatsService.unreadFrom i peer me (readMessage x.1 x.2) = false := by
      simp [ChatsService.unreadFrom]
    rw [if_pos (hu x List.mem_cons_self), if_neg (by simp [hread])] at hput
    have hrest := ih (d := d.put (.message x.1) (readMessage x.1 x.2)) hn
      (fun y hy => hu y (List.mem_cons_of_mem _ hy)) fun y hy => by
        have hne : y.1 ≠ x.1 := fun e => hx (e ▸ List.mem_map_of_mem hy)
        exact (Table.get_put_ne _ _ hne).trans (hd y (List.mem_cons_of_mem _ hy))
    simp only [ChatsService.unreadCount, Table.length_filter] at hrest ⊢
    rw [List.length_cons, ← Nat.add_assoc, ← add_zero (Table.total _ d.messages), ← hput]
    exact congrArg (· + 1) hrest

theorem readsMessages_overlay {i : ℤ} {peer me : String} {d : Database}
    (ks : List (Σ _ : ℤ, Message)) (hn : (ks.map Sigma.fst).Nodup)
    (hu : ∀ x ∈ ks, ChatsService.unreadFrom i peer me x.2 = true)
    (hd : ∀ x ∈ ks, d.messages.get x.1 = some x.2) :
    ReadsMessages i peer me ks.length d (overlay (messageWrites ks) d) where
  frame := by
    clear hu hd hn
    induction ks generalizing d with
    | nil => exact ⟨_, rfl⟩
    | cons x ks ih => exact ih (d := d.put (.message x.1) _)
  rows n := by
    rcases Spec.get_overlay_writesOf_cases (S := market) (f := readMessage)
      message_injective hd n with h | ⟨m, hm, hg, h⟩
    · exact Or.inl h
    · exact Or.inr ⟨m, hg, hu _ hm, h⟩
  count := unreadCount_overlay ks hn hu hd

theorem markRead_ok {u : String} {id : ℤ} :
    R.spec.ReqOk (.markNotificationRead u id) [] A (NotificationsService.markRead u id) := by
  refine query_ok_of unsettled_nil fun d _ _ => ?_
  cases hn : (d.notifications.get id).filter fun n => n.userId = u with
  | none => exact ⟨_, .true [], trivial, unsettled_nil⟩
  | some n =>
    obtain ⟨hg, hu⟩ := Option.filter_eq_some_iff.1 hn
    refine ⟨_, stable_notification R id u, ⟨n, hg, by simpa using hu⟩, ?_⟩
    dsimp only
    split_ifs
    · trivial
    refine ⟨.update (stable_notification R id u) ?_ fun d r _ hd hr _ => ?_,
      fun f => show Unsettled [.fault f] by simp⟩
    · exact .commit_nil (.true []) (fun _ _ _ => trivial)
        (emitRead_ok rfl unsettled_nil fun _ _ => trivial)
    · have hru : r.userId = u := by
        obtain ⟨r', hr', hu'⟩ := hd
        have hr : d.notifications.get id = some r := hr
        rw [hr'] at hr; cases hr; exact hu'
      refine .commit (.readNotifications u) (by simp) trivial (fun d _ hd => ⟨?_, trivial⟩)
        (emitRead_ok rfl (by simp [Event.settles]) fun _ _ => trivial)
      exact .readNotifications (Or.inl ⟨id, rfl⟩)
        (readsNotifications_overlay [⟨id, r⟩] (by simpa using hru)
          fun x hx => by rw [List.mem_singleton.1 hx]; exact hd.2)

theorem markAllRead_ok {u : String} :
    R.spec.ReqOk (.markAllNotificationsRead u) [] A (NotificationsService.markAllRead u) := by
  have hreply {log : List (Log Event QueryFailedError Call)} {A'} (hlog : Unsettled log) (n : ℕ) :
      R.spec.ReqOk (.markAllNotificationsRead u) log A'
        (if n > 0 then NotificationsService.emitRead u none (answer (.count n))
          else answer (.count n)) := by
    split_ifs
    · exact emitRead_ok rfl hlog fun _ _ => trivial
    · trivial
  refine .any ⟨.select (.true []) fun d _ _ => .updateEach notification_injective
    (by simp) (.true []) (fun held ks hp hn _ => ?_) _, fun f => show Unsettled [.fault f] by simp⟩
  cases ks with
  | nil => exact .commit_nil (.true []) (fun _ _ _ => trivial) (hreply unsettled_nil _)
  | cons x ks =>
    refine .commit (.readNotifications u) (by simp [Spec.writesOf]) trivial
      (fun d _ hd => ⟨?_, trivial⟩) (hreply (by simp [Event.settles]) _)
    refine .readNotifications (Or.inr rfl) (readsNotifications_overlay _ (fun x hx => ?_) hd.2)
    simpa using (Bool.and_eq_true_iff.1 (hp x hx)).1

/-! ## Items -/

theorem findOne_ok {i : ℤ} (hlog : Unsettled log) (h : ∀ log A' r, R.spec.ReqOk q log A' (answer r)) :
    R.spec.ReqOk q log A (ItemsService.findOne i) := by
  refine query_ok hlog fun d _ _ => ?_
  cases d.items.get i with
  | none => exact hlog
  | some item => exact h _ _ _

theorem createItem_ok {u : String} {dto : CreateItemDto cfg} :
    R.spec.ReqOk (.createItem u dto) [] A (ItemsService.create cfg u dto) := by
  unfold ItemsService.create
  cases hp : ItemsService.resolvePrice dto.itemType dto.price with
  | error => exact unsettled_nil
  | ok price =>
    dsimp only
    cases hm : StorageService.assertManagedUrls cfg (dto.images.getD []).eraseDups with
    | error => exact unsettled_nil
    | ok =>
      refine .any ⟨.insert (.true []) fun n now _ => ?_, fun f => show Unsettled [.fault f] by simp⟩
      exact .commit (.listItem n) (by simp) (by simp [Event.writes, Serial.key])
        (fun d _ hd => ⟨.listItem hp hm hd.2, rfl⟩)
        (findOne_ok (by simp [Event.settles]) fun _ _ _ => trivial)

theorem updateItemStatus_ok {i : ℤ} {u : String} {st : ItemStatus} :
    R.spec.ReqOk (.updateItemStatus i u st) [] A (ItemsService.updateStatus i u st) := by
  refine .any ⟨?_, fun f => show Unsettled [.fault f] by simp⟩
  have hfind {log : List (Log Event QueryFailedError Call)} {A'} (hlog : Unsettled log) :
      R.spec.ReqOk (.updateItemStatus i u st) log A' (ItemsService.findOne i) :=
    findOne_ok hlog fun _ _ _ => trivial
  refine .lock (.true []) (fun d _ _ _ => .throw unsettled_nil) fun d item _ _ hitem => ?_
  have hst : R.spec.Stable [Key.item i] fun d => True ∧ Database.get d (.item i) = some item :=
    ((Spec.Stable.true []).mono (List.nil_subset _)).and (.row List.mem_cons_self _)
  dsimp only
  split_ifs with hu hsame
  · exact .throw unsettled_nil
  · exact .commit_nil (.true []) (fun _ _ _ => trivial) (hfind unsettled_nil)
  intro d hb hd
  dsimp only [overlay_nil]
  cases hp : d.orders.rows.any fun x => x.2.itemId = i && x.2.status = .pending with
  | true => exact ⟨_, .true _, trivial, .throw unsettled_nil⟩
  | false =>
    -- no order can become PENDING while the item is locked
    have hno : NoPending i d := by
      intro o r ho hi hs
      rw [List.any_eq_false] at hp
      exact hp (o, r) (Table.mem_rows.2 ho) (by simp [hi, hs])
    refine ⟨_, hst.and (stable_noPending R List.mem_cons_self), ⟨hd, hno⟩, ?_⟩
    refine .update_known item (hst.and (stable_noPending R List.mem_cons_self))
      (fun d _ hd => by exact hd.1.2) rfl ?_
    refine .commit (.setItemStatus i st) (by simp) (by simp [Event.writes])
      (fun d _ hd => ⟨?_, rfl⟩) (hfind (by simp [Event.settles]))
    exact .setItemStatus hd.1.2 (by simpa using hu) hsame hd.2 (by simp)

/-! ## Orders -/

theorem findOneForUser_ok {o : ℤ} {u : String} {k : OrderDetail → Program} (hlog : Unsettled log)
    (hk : ∀ d r, R.base d → A d → d.orders.get o = some r → r.buyerId = u ∨ r.sellerId = u →
      R.spec.ReqOk q log (fun d => ∃ r', d.orders.get o = some r' ∧ SameOrder r r')
        (k (OrdersService.detail d o r))) :
    R.spec.ReqOk q log A (OrdersService.findOneForUser o u k) := by
  refine query_ok_of hlog fun d hb hd => ?_
  cases hr : d.orders.get o with
  | none => exact ⟨_, .true [], trivial, hlog⟩
  | some r =>
    refine ⟨_, stable_order R o r, ⟨r, hr, .refl r⟩, ?_⟩
    simp only [Option.map_some]
    split_ifs with hp
    · exact hlog
    · refine hk d r hb hd hr ?_
      have hp : ¬ (r.buyerId ≠ u ∧ r.sellerId ≠ u) := hp
      tauto

theorem createOrder_ok {u : String} {dto : CreateOrderDto} :
    R.spec.ReqOk (.createOrder u dto) [] A (OrdersService.create cfg u dto) := by
  refine .any ⟨?_, fun f => ?_⟩
  · refine .lock (.true []) (fun d _ _ _ => .throw unsettled_nil) fun d item _ _ hitem => ?_
    have hst : R.spec.Stable [Key.item dto.itemId] fun d =>
        True ∧ Database.get d (.item dto.itemId) = some item :=
      ((Spec.Stable.true []).mono (List.nil_subset _)).and (.row List.mem_cons_self _)
    dsimp only
    split_ifs with hu hav hq
    · exact .throw unsettled_nil
    · exact .throw unsettled_nil
    · exact .throw unsettled_nil
    refine .insert hst fun n now _ => ?_
    refine .update_known item ((hst.mono (List.subset_cons_self _ _)).and
      (.row List.mem_cons_self _))
      (fun d _ hd => ?_) rfl ?_
    · exact (get_overlay_of_ne (S := market) (k := Key.item dto.itemId)
        (by simp [Serial.key])).trans hd.1.2
    refine .commit_of (B := fun d : Database => ∃ r, d.orders.get n = some r ∧ r.buyerId = u)
      (.placeOrder n) (by simp) (by simp [Event.writes, Serial.key]) (fun d _ hd => ⟨?_, rfl⟩) ?_
      (fun d _ _ => ?_) ?_
    · exact .placeOrder hd.1.2 hu (by simpa using hav) (by simpa using hq) hd.2 (by simp)
    · exact stable_orderOf R n fun _ _ hs _ h => hs.buyerId.trans h
    · exact ⟨_, Table.get_put .., rfl⟩
    · refine findOneForUser_ok (by simp [Event.settles]) fun d r _ hd hr _ => ?_
      obtain ⟨r', hr', hbuyer⟩ := hd
      rw [hr] at hr'; cases hr'
      exact notifyOrderPlaced_ok (u := u) rfl (fun _ _ h => h) rfl hbuyer
  · dsimp only
    split_ifs <;> exact show Unsettled [.fault f] by simp

/-- What is known of an order that has been resolved: its status, and that the seller completed it. -/
def Resolved (o : ℤ) (u : String) (x : OrderStatus) (d : Database) : Prop :=
  ∃ r, d.orders.get o = some r ∧ r.status = x ∧ (x = .completed → r.sellerId = u)

theorem stable_resolved {held : List Key} (o : ℤ) (u : String) {x : OrderStatus}
    (hx : x ≠ .pending) : R.spec.Stable held (Resolved o u x) :=
  stable_orderOf R o fun _ _ hs hst h =>
    ⟨(hst (h.1 ▸ hx)).trans h.1, fun hc => hs.sellerId.trans (h.2 hc)⟩

theorem UpdateOrderStatusDto.status_ne (dto : UpdateOrderStatusDto) : dto.status ≠ .pending := by
  rcases dto.status_in with h | h <;> simp [h]

theorem resolveTx_ok {o : ℤ} {u : String} {dto : UpdateOrderStatusDto} {r : Order} {item : Item}
    (hseller : r.sellerId = u ∨ r.buyerId = u) (hpending : r.status = .pending)
    (hauth : dto.status = .completed → r.sellerId = u) {held : List Key}
    (hitem : .item r.itemId ∈ held) {A : Database → Prop}
    (hA : R.spec.Stable held A)
    (hAr : ∀ d, A d → d.orders.get o = some r) (hAi : ∀ d, A d → d.items.get r.itemId = some item)
    {C T} (hC : C (some (.resolveOrder o dto.status)) () (Resolved o u dto.status)) :
    R.spec.TxOk (.updateOrderStatus o u dto) [] C T held A []
      (OrdersService.resolveTx o r.itemId dto.status r item) := by
  unfold OrdersService.resolveTx
  have hcons : ∀ k, R.spec.Stable (k :: held) A := fun k => hA.mono (List.subset_cons_self _ _)
  have hother : ∀ d, A d → ∀ r' : Order,
      Database.get (d.put (.order o) r') (.item r.itemId) = some item :=
    fun d hd r' => hAi d hd
  have hB : R.spec.Stable [] (Resolved o u dto.status) := stable_resolved o u dto.status_ne
  split_ifs with hc hres
  · refine .update_known r hA (fun d _ hd => hAr d hd) rfl ?_
    refine .update_known item (hcons _) (fun d _ hd => hother d hd _) rfl ?_
    rw [hc] at hC hB
    refine .commit_of (.resolveOrder o .completed) (by simp) (by simp [Event.writes])
      (fun d _ hd => ⟨?_, rfl⟩) hB (fun d _ _ => ?_) hC
    · exact .completeOrder hc (hAr d hd) (hAi d hd) (hauth hc) hpending (by simp [hitem]) (by simp)
    · exact ⟨_, Table.get_put .., rfl, fun _ => hauth hc⟩
  all_goals
    have hcan : dto.status = .cancelled := dto.status_in.resolve_left hc
    rw [hcan] at hC hB
    refine .update_known r hA (fun d _ hd => hAr d hd) rfl ?_
  · refine .update_known item (hcons _) (fun d _ hd => hother d hd _) rfl ?_
    refine .commit_of (.resolveOrder o .cancelled) (by simp) (by simp [Event.writes])
      (fun d _ hd => ⟨?_, rfl⟩) hB (fun d _ _ => ⟨_, Table.get_put .., rfl, nofun⟩) hC
    have he : Emits cfg R.base (.updateOrderStatus o u dto) (.resolveOrder o .cancelled)
        (.item r.itemId :: .order o :: held) d (cancelled d o r item) :=
      .cancelOrder hcan (hAr d hd) (hAi d hd) hseller hpending (by simp) (by simp)
    rwa [cancelled, if_pos hres] at he
  · refine .commit_of (.resolveOrder o .cancelled) (by simp) (by simp [Event.writes])
      (fun d _ hd => ⟨?_, rfl⟩) hB (fun d _ _ => ⟨_, Table.get_put .., rfl, nofun⟩) hC
    have he : Emits cfg R.base (.updateOrderStatus o u dto) (.resolveOrder o .cancelled)
        (.order o :: held) d (cancelled d o r item) :=
      .cancelOrder hcan (hAr d hd) (hAi d hd) hseller hpending (by simp [hitem]) (by simp)
    rwa [cancelled, if_neg hres] at he

theorem updateOrderStatus_ok {o : ℤ} {u : String} {dto : UpdateOrderStatusDto} :
    R.spec.ReqOk (.updateOrderStatus o u dto) [] A (OrdersService.updateStatus cfg o u dto) := by
  refine .any ⟨fun d _ _ => ?_, fun f => show Unsettled [.fault f] by simp⟩
  dsimp only [overlay_nil]
  cases hr₀ : d.orders.get o with
  | none => exact ⟨_, .true _, trivial, .throw unsettled_nil⟩
  | some r₀ =>
    refine ⟨_, stable_order R o r₀, ⟨r₀, hr₀, .refl r₀⟩, ?_⟩
    refine .lock (stable_order R o r₀) (fun d _ hd _ => ?_) fun d item _ hd hitem => ?_
    · exact .lock (stable_order R o r₀) (fun _ _ _ _ => .throw unsettled_nil)
        fun _ _ _ _ _ => .throw unsettled_nil
    have hst : R.spec.Stable [Key.item r₀.itemId] fun d =>
        (∃ r, d.orders.get o = some r ∧ SameOrder r₀ r) ∧
          Database.get d (.item r₀.itemId) = some item :=
      (stable_order R o r₀).and (.row List.mem_cons_self _)
    refine .lock hst (fun _ _ _ _ => .throw unsettled_nil) fun d r _ hd hr => ?_
    have hsame : r.itemId = r₀.itemId := by
      obtain ⟨⟨r', hr', hs⟩, -⟩ := hd
      have hr : d.orders.get o = some r := hr
      rw [hr'] at hr; cases hr; exact hs.itemId
    dsimp only
    split_ifs with hparty hpending hseller
    · exact .throw unsettled_nil
    · exact .throw unsettled_nil
    · exact .throw unsettled_nil
    rw [← hsame] at hst ⊢
    refine resolveTx_ok (by tauto) (by simpa using hpending) (by tauto) (by simp)
      ((hst.mono (List.subset_cons_self _ _)).and (.row List.mem_cons_self (some r)))
      (fun d hd => by exact hd.2) (fun d hd => by exact hd.1.2) ?_
    refine findOneForUser_ok (by simp [Event.settles]) fun d r _ hd hr hp => ?_
    obtain ⟨r', hr', hx, hc⟩ := hd
    rw [hr] at hr'; cases hr'
    have he : OrderEvent o (.updateOrderStatus o u dto : Request cfg) (.resolveOrder o dto.status) :=
      ⟨rfl, rfl⟩
    exact notifyOrderStatusChanged_ok (R := R) (o := OrdersService.detail d o r)
      (k := answer (.order (OrdersService.detail d o r))) he (fun _ _ h => h) hx dto.status_ne rfl hp hc

theorem attachPaymentSlip_ok {o : ℤ} {u : String} {dto : AttachPaymentSlipDto cfg} :
    R.spec.ReqOk (.attachPaymentSlip o u dto) [] A
    (OrdersService.attachPaymentSlip cfg o u dto) := by
  unfold OrdersService.attachPaymentSlip
  cases hm : StorageService.assertManagedUrls cfg [dto.paymentSlipUrl] with
  | error => exact unsettled_nil
  | ok =>
    refine query_ok_of unsettled_nil fun d _ _ => ?_
    cases hr₀ : d.orders.get o with
    | none => exact ⟨_, .true [], trivial, unsettled_nil⟩
    | some r₀ =>
      refine ⟨_, stable_order R o r₀, ⟨r₀, hr₀, .refl r₀⟩, ?_⟩
      dsimp only
      split_ifs with hparty hbuyer hpending
      · exact unsettled_nil
      · exact unsettled_nil
      · exact unsettled_nil
      refine ⟨.update_some (stable_order R o r₀) (by simp) ?_ fun d r _ hd hr => ?_,
        fun f => show Unsettled [.fault f] by simp⟩
      · rintro d - ⟨r, hr, -⟩
        exact ⟨r, hr, rfl⟩
      have hsame : r.buyerId = r₀.buyerId := by
        obtain ⟨r', hr', hs⟩ := hd
        have hr : d.orders.get o = some r := hr
        rw [hr'] at hr; cases hr; exact hs.buyerId
      have hru : r.buyerId = u := hsame.trans (by simpa using hbuyer)
      have hurl := (StorageService.assertManagedUrls_ok cfg).1 hm _ (List.mem_singleton_self _)
      refine .commit_of (B := fun d : Database => ∃ r, d.orders.get o = some r ∧ r.buyerId = u)
        (.attachSlip o dto.paymentSlipUrl) (by simp) (by simp [Event.writes])
        (fun d _ hd => ⟨.attachSlip hurl hd.2 hru (by simp), rfl⟩)
        (stable_orderOf R o fun _ _ hs _ h => hs.buyerId.trans h)
        (fun d _ _ => ⟨_, Table.get_put .., hru⟩) ?_
      refine findOneForUser_ok (by simp [Event.settles]) fun d r _ hd hr _ => ?_
      obtain ⟨r', hr', hbuyer⟩ := hd
      rw [hr] at hr'; cases hr'
      have he : OrderEvent o (.attachPaymentSlip o u dto : Request cfg)
          (.attachSlip o dto.paymentSlipUrl) := ⟨rfl, rfl⟩
      exact notifyPaymentSlipAttached_ok he (fun _ _ h => h) rfl hbuyer

theorem findItems_ok {dto : ListItemsQueryDto} :
    R.spec.ReqOk (.findItems dto) [] A (ItemsService.findAll cfg dto) := by
  unfold ItemsService.findAll
  exact getManyAndCount_ok unsettled_nil fun _ _ => trivial

theorem findMyOrders_ok {u : String} {dto : ListOrdersQueryDto} :
    R.spec.ReqOk (.findMyOrders u dto) [] A (OrdersService.findMine u dto) := by
  unfold OrdersService.findMine
  exact getManyAndCount_ok unsettled_nil fun _ _ => trivial

/-! ## Employees -/

theorem getProfile_ok {q : Request cfg} {u : String} {k : Profile → Program}
    (hk : ∀ v, R.spec.ReqOk q [] (fun _ => True) (k v)) :
    R.spec.ReqOk q [] A (UsersService.getProfile u k) := by
  refine query_ok unsettled_nil fun d _ _ => ?_
  cases d.users.get u with
  | none => exact unsettled_nil
  | some r => exact (hk _).mono fun _ _ => trivial

theorem updateProfile_ok {u : String} {dto : UpdateProfileDto cfg} :
    R.spec.ReqOk (.updateProfile u dto) [] A (UsersService.updateProfile cfg u dto) := by
  refine query_ok unsettled_nil fun d₀ hb₀ _ => ?_
  cases hr₀ : d₀.users.get u with
  | none => exact unsettled_nil
  | some r₀ =>
    simp only [Option.map_some]
    cases hm : StorageService.assertManagedUrls cfg (UsersService.checkedUrl cfg dto).toList with
    | error => exact unsettled_nil
    | ok =>
      dsimp only
      have hid : (UsersService.merge cfg (UsersService.profile u r₀) dto).userId = u := rfl
      generalize hv : UsersService.merge cfg (UsersService.profile u r₀) dto = v at hid
      subst hid
      refine query_ok unsettled_nil fun d₁ hb₁ _ => ?_
      cases hr₁ : d₁.users.get v.userId with
      | none => trivial
      | some r₁ =>
        dsimp only [Option.map_some]
        by_cases hsame : UsersService.profile v.userId r₁ = v
        · rw [if_pos hsame]; trivial
        rw [if_neg hsame]
        refine ⟨.update (.true []) ?_ fun d r _ _ _ _ => ?_,
          fun f => show Unsettled [.fault f] by simp⟩
        · exact .commit_nil (.true []) (fun _ _ _ => trivial) trivial
        · refine .commit (.saveProfile v.userId) (by simp) (by simp [Event.writes])
            (fun d _ hd => ⟨?_, trivial⟩) trivial
          have := Emits.saveProfile (L := [Key.user v.userId]) hm hb₀ hr₀ hb₁ hr₁ hd.2
          rwa [savedRow, hv] at this

/-- An employee without a token. -/
abbrev withoutToken (_ : String) (u : User) : User := { u with fcmToken := none }

theorem user_injective : Function.Injective Key.user := fun _ _ => Key.user.inj

theorem claimsToken_overlay {u t : String} {r : User} {d : Database} (ks : List (Σ _ : String, User))
    (ht : ∀ x ∈ ks, x.2.fcmToken = some t)
    (hd : ∀ x ∈ ks, d.users.get x.1 = some x.2) (hr : d.users.get u = some r) :
    ClaimsToken u t d (overlay (S := market)
      (Spec.writesOf (S := market) Key.user withoutToken ks ++
        [⟨.user u, ({ r with fcmToken := some t } : User)⟩]) d) := by
  rw [overlay_append]
  refine ⟨?_, ⟨r, hr, Table.get_put ..⟩, fun v hv => ?_⟩
  · clear ht hd hr
    induction ks generalizing d with
    | nil => exact ⟨_, rfl⟩
    | cons x ks ih => exact ih (d := d.put (.user x.1) _)
  · have hv' : Database.get ((overlay (Spec.writesOf (S := market) Key.user withoutToken ks) d).put
        (.user u) ({ r with fcmToken := some t } : User)) (.user v) =
        Database.get (overlay (Spec.writesOf (S := market) Key.user withoutToken ks) d) (.user v) :=
      Database.get_put_ne _ _ _ _ fun e => hv (Key.user.inj e)
    rcases Spec.get_overlay_writesOf_cases (S := market) (f := withoutToken) user_injective hd v with
      h | ⟨r', hr', hg, h⟩
    · exact Or.inl (hv'.trans h)
    · exact Or.inr ⟨r', hg, ht _ hr', hv'.trans h⟩

theorem updateFcmToken_ok {u : String} {dto : UpdateFcmTokenDto} :
    R.spec.ReqOk (.updateFcmToken u dto) [] A (UsersService.updateFcmToken u dto) := by
  refine .any ⟨fun d _ _ => ?_, fun f => show Unsettled [.fault f] by simp⟩
  dsimp only [overlay_nil]
  cases hu : (d.users.get u).isSome with
  | false => exact ⟨_, .true _, trivial, .throw unsettled_nil⟩
  | true =>
    have hst : R.spec.Stable [] fun d => (d.users.get u).isSome := stable_user R u
    refine ⟨_, hst, hu, .select hst fun d _ _ => ?_⟩
    refine .updateEach user_injective (fun _ _ _ => by simp) hst (fun held ks hp _ hheld => ?_) _
    have hp (x) (hx : x ∈ ks) : x.2.fcmToken = some dto.fcmToken ∧ x.1 ≠ u := by
      simpa using hp x hx
    have hne : ∀ w ∈ Spec.writesOf (S := market) Key.user withoutToken ks, w.1 ≠ Key.user u := by
      intro w hw e
      obtain ⟨x, hx, rfl⟩ := List.mem_map.1 hw
      exact (hp x hx).2 (Key.user.inj e)
    refine .update_some (Spec.Stable.rows hst hheld) hne (fun d _ hd => ?_) fun d r _ _ _ => ?_
    · exact (Option.isSome_iff_exists.1 hd.1).imp fun r hr => ⟨hr, rfl⟩
    · refine .commit (.claimToken u dto.fcmToken) (by simp) (fun w hw n e => ?_)
        (fun d _ hd => ⟨?_, trivial⟩) trivial
      · rcases List.mem_append.1 hw with hw | hw
        · obtain ⟨x, -, rfl⟩ := List.mem_map.1 hw
          cases e
        · rw [List.mem_singleton.1 hw] at e
          cases e
      exact .claimToken (claimsToken_overlay ks (fun x hx => (hp x hx).1) hd.1.2 hd.2)

theorem clearFcmToken_ok {u : String} :
    R.spec.ReqOk (.clearFcmToken u) [] A (UsersService.clearFcmToken u) := by
  refine .any ⟨.update (.true []) ?_ fun d r _ _ hr _ => ?_,
    fun f => show Unsettled [.fault f] by simp⟩
  · exact .commit_nil (.true []) (fun _ _ _ => trivial) trivial
  · exact .commit (.clearToken u) (by simp) (by simp [Event.writes])
      (fun d _ hd => ⟨.clearToken hd.2, trivial⟩) trivial

theorem login_ok {dto : LoginDto cfg} :
    R.spec.ReqOk (.login dto) [] A (AuthService.login cfg dto) := by
  refine query_ok unsettled_nil fun d _ _ => ?_
  cases d.users.get dto.userId with
  | none => exact unsettled_nil
  | some user =>
    dsimp only
    split_ifs
    · trivial
    · exact unsettled_nil

/-! ## Chats -/

theorem resolveConversation_ok {i : ℤ} {me : String} {peer : Option String}
    {k : ResolvedConversation → Program} (hlog : Unsettled log)
    (hk : ∀ s p, Talks cfg R.base me i peer p →
      R.spec.ReqOk q log (TalksOn cfg me i peer p) (k ⟨i, s, p, cfg.encode p⟩)) :
    R.spec.ReqOk q log A (ChatsService.resolveConversation cfg i me peer k) := by
  refine query_ok_of hlog fun d hb _ => ?_
  cases hi : d.items.get i with
  | none => exact ⟨_, .true [], trivial, hlog⟩
  | some item =>
    dsimp only
    cases hp : ChatsService.peerFor item me (PeerTokenService.resolve cfg peer) with
    | error => exact ⟨_, .true [], trivial, hlog⟩
    | ok p =>
      exact ⟨_, stable_talksOn R me i peer p, ⟨item, hi, hp⟩, hk _ _ ⟨d, item, hb, hi, hp⟩⟩

theorem conversation?_of_talksOn {me : String} {dto : ConversationDto} {p : Option String}
    {peer : String} {d : Database} (hp : peerOf cfg dto = .ok p)
    (h : TalksOn cfg me dto.itemId p peer d) :
    conversation? cfg d me dto = some (dto.itemId, peer, me) := by
  obtain ⟨item, hi, hpeer⟩ := h
  simp [conversation?, hp, hi, hpeer, Except.toOption]

/-- What has been added to the log when messages have been marked as read. -/
def marked (i : ℤ) (peer me : String) (count : ℕ) : List (Log Event QueryFailedError Call) :=
  if count = 0 then [] else [.emit (.readMessages i peer me count)]

theorem markAsRead_ok {me peer : String} {i : ℤ} {k : ℕ → Program} (hlog : Unsettled log)
    (hA : R.spec.Stable [] A) (hconv : ∀ d, A d → q.conversation? cfg d = some (i, peer, me))
    (hk : ∀ count A', R.spec.ReqOk q (log ++ marked i peer me count) A' (k count)) :
    R.spec.ReqOk q log A (ChatsService.markAsRead me i peer k) := by
  refine ⟨.select hA fun d _ _ => .updateEach message_injective
    (by simp [ChatsService.unreadFrom]) hA (fun held ks hp hn _ => ?_) _,
    fun f => show Unsettled (log ++ [.fault f]) by simpa using hlog⟩
  cases ks with
  | nil => exact .commit_nil (.true []) (fun _ _ _ => trivial) (hk 0 _)
  | cons x ks =>
    refine .commit (.readMessages i peer me (x :: ks).length) (by simp [Spec.writesOf])
      (by simp [Spec.writesOf, Event.writes]) (fun d _ hd => ⟨?_, trivial⟩) (hk (ks.length + 1) _)
    exact .readMessages (hconv d hd.1) (readsMessages_overlay _ hn hp hd.2)

theorem markChatRead_ok {u : String} {dto : ConversationDto} :
    R.spec.ReqOk (.markChatRead u dto) [] A (ChatsGateway.markRead cfg u dto) := by
  unfold ChatsGateway.markRead
  cases hp : peerOf cfg dto with
  | error => exact unsettled_nil
  | ok peer =>
    refine resolveConversation_ok unsettled_nil fun s p _ => markAsRead_ok unsettled_nil
      (stable_talksOn R _ _ _ _) (fun d hd => conversation?_of_talksOn hp hd) fun count A' => ?_
    have hreply : ReadLog (.markChatRead u dto : Request cfg) dto.itemId p u count
        (if count = 0 then [] else [.emit (.readMessages dto.itemId p u count),
          .call (.socket (.emit [conversationRoom dto.itemId u p, userRoom p, userRoom u] none
            (.messagesRead dto.itemId u count)))]) := by
      unfold ReadLog; split_ifs <;> rfl
    rcases Nat.eq_zero_or_pos count with rfl | hc
    · exact ⟨_, _, _, rfl, hreply⟩
    · simp only [hc.ne', if_false, gt_iff_lt, hc, if_true, marked] at hreply ⊢
      exact ⟨⟨[], p, rfl, rfl, rfl⟩, fun _ => ⟨_, _, _, rfl, hreply⟩⟩

theorem joinChat_ok {client : ChatSocket} {dto : ConversationDto} :
    R.spec.ReqOk (.joinChat client dto) [] A (ChatsGateway.joinChat cfg client dto) := by
  unfold ChatsGateway.joinChat
  cases hp : peerOf cfg dto with
  | error => exact unsettled_nil
  | ok peer =>
    refine resolveConversation_ok unsettled_nil fun s p ht =>
      ⟨Or.inr ⟨dto, peer, p, rfl, hp, ht, rfl⟩, fun _ => ?_⟩
    refine markAsRead_ok (by simp) (stable_talksOn R _ _ _ _)
      (fun d hd => conversation?_of_talksOn hp hd) fun count A' => ?_
    have hreply : ReadLog (.joinChat client dto : Request cfg) dto.itemId p client.userId count
        (if count = 0 then [] else [.emit (.readMessages dto.itemId p client.userId count),
          .call (.socket (.emit [conversationRoom dto.itemId client.userId p, userRoom p] none
            (.messagesRead dto.itemId client.userId count)))]) := by
      unfold ReadLog; split_ifs <;> rfl
    rcases Nat.eq_zero_or_pos count with rfl | hc
    · exact ⟨_, _, _, _, rfl, rfl, hreply⟩
    · simp only [hc.ne', if_false, gt_iff_lt, hc, if_true, marked] at hreply ⊢
      exact ⟨⟨_, p, rfl, rfl, rfl⟩, fun _ => ⟨_, _, _, _, rfl, rfl, hreply⟩⟩

theorem leaveChat_ok {client : ChatSocket} {dto : ConversationDto} :
    R.spec.ReqOk (.leaveChat client dto) [] A (ChatsGateway.leaveChat cfg client dto) := by
  unfold ChatsGateway.leaveChat
  cases peerOf cfg dto with
  | error => exact unsettled_nil
  | ok peer => exact resolveConversation_ok unsettled_nil fun s p _ => ⟨trivial, fun _ => trivial⟩

theorem sendMessage_ok {client : ChatSocket} {dto : SendMessageDto} :
    R.spec.ReqOk (.sendMessage client dto) [] A (ChatsGateway.sendMessage cfg client dto) := by
  unfold ChatsGateway.sendMessage
  dsimp only
  split_ifs
  · exact unsettled_nil
  unfold ChatsService.createMessage
  dsimp only
  split_ifs with hself
  · exact unsettled_nil
  refine resolveConversation_ok unsettled_nil fun s p ht => ?_
  have hst : R.spec.Stable [] (TalksOn cfg client.userId dto.itemId
      (PeerTokenService.resolve cfg (some dto.receiverId)) p) := stable_talksOn R _ _ _ _
  refine query_ok_of unsettled_nil fun d _ hd => ⟨_, hst, hd, ?_⟩
  split_ifs
  · refine ⟨.insert hst fun n now hn => ?_, fun f => show Unsettled [.fault f] by simp⟩
    refine .commit (.sendMessage n ⟨dto.itemId, client.userId, p, dto.messageText, false, now⟩)
      (by simp) (by simp [Event.writes, Serial.key])
      (fun d _ hd => ⟨.sendMessage hself ht hd.1 (by exact_mod_cast hn) hd.2, trivial⟩)
      ⟨⟨client, dto, rfl, rfl, rfl, rfl⟩, fun _ => ?_⟩
    exact ⟨_, _, rfl, rfl⟩
  · exact unsettled_nil

theorem history_ok {u : String} {dto : ChatHistoryQueryDto} :
    R.spec.ReqOk (.history u dto) [] A (ChatsService.getHistory cfg u dto) := by
  unfold ChatsService.getHistory
  cases peerOf cfg dto.toConversationDto with
  | error => exact unsettled_nil
  | ok peer =>
    exact resolveConversation_ok unsettled_nil fun s p _ => query_ok unsettled_nil fun _ _ _ => trivial

/-! ## The application -/

/-- **Every handler meets the specification.** -/
theorem program_ok (q : Request cfg) : R.spec.ReqOk q [] (fun _ => True) (program cfg q) := by
  cases q with
  | createItem => exact createItem_ok
  | updateItemStatus => exact updateItemStatus_ok
  | findItems => exact findItems_ok
  | findItem => exact findOne_ok unsettled_nil fun _ _ _ => trivial
  | createOrder => exact createOrder_ok
  | updateOrderStatus => exact updateOrderStatus_ok
  | attachPaymentSlip => exact attachPaymentSlip_ok
  | findMyOrders => exact findMyOrders_ok
  | findOrder => exact findOneForUser_ok unsettled_nil fun _ _ _ _ _ _ => trivial
  | profile => exact getProfile_ok fun _ => trivial
  | publicProfile => exact getProfile_ok fun _ => trivial
  | updateProfile => exact updateProfile_ok
  | updateFcmToken => exact updateFcmToken_ok
  | clearFcmToken => exact clearFcmToken_ok
  | login => exact login_ok
  | history => exact history_ok
  | conversations => exact unlessRefused_ok unsettled_nil (query_ok unsettled_nil fun _ _ _ => trivial)
  | markChatRead => exact markChatRead_ok
  | connect => exact ⟨trivial, fun _ => ⟨Or.inl rfl, fun _ => trivial⟩⟩
  | disconnect => exact ⟨trivial, fun _ => trivial⟩
  | joinChat => exact joinChat_ok
  | leaveChat => exact leaveChat_ok
  | sendMessage => exact sendMessage_ok
  | findMyNotifications => exact findMyNotifications_ok unsettled_nil
  | countUnread => exact query_ok unsettled_nil fun _ _ _ => trivial
  | markNotificationRead => exact markRead_ok
  | markAllNotificationsRead => exact markAllRead_ok

end Marketplace
