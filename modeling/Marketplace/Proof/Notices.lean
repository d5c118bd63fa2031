/-
  Notifications are true.

  What a notification says of an order, of its item and of its parties is written
  down from what a session has read after it changed the order
  (`Request.Vouches`).  By then the order has its columns for good, so the text
  stays true (`Truthful.kept`), and nobody is told the same thing twice.
-/
import Marketplace.Proof.Rows
import Marketplace.Proof.OrderNotifications
import Marketplace.Lib.Once

namespace Marketplace

open ReadCommitted

variable {cfg : Config} {base : Database → Prop} {q : Request cfg} {e : Event} {L : List Key}
  {d d' d₀ : Database} {o : ℤ} {r : Order} {n : Notification}

/-! ## What a notification says -/

/-- How the texts call an employee and an item. -/
def nameOf (d : Database) (u : String) : String := (d.users.get u).elim u User.fullName

def titleOf (d : Database) (i : ℤ) : String :=
  (d.items.get i).elim ("item #" ++ toString i) Item.title

/-- What a notification says of an order, by its type. -/
def Says (d : Database) (r : Order) (n : Notification) : Prop :=
  match n.type with
  | .orderPlaced => n.userId = r.sellerId ∧ n.title = "New order" ∧
      n.body = some (nameOf d r.buyerId ++ " ordered " ++ toString r.quantity ++ " × " ++
        titleOf d r.itemId)
  | .orderCompleted => r.status = .completed ∧ n.userId = r.buyerId ∧ n.title = "Order completed" ∧
      n.body = some ("Your order for " ++ titleOf d r.itemId ++ " was marked as completed")
  | .orderCancelled => r.status = .cancelled ∧ n.title = "Order cancelled" ∧
      ((n.userId = r.buyerId ∧
          n.body = some ("The seller cancelled the order for " ++ titleOf d r.itemId)) ∨
        (n.userId = r.sellerId ∧
          n.body = some ("The buyer cancelled the order for " ++ titleOf d r.itemId)))
  | .paymentSlipAttached => n.userId = r.sellerId ∧ n.title = "Payment slip received" ∧
      n.body = some (nameOf d r.buyerId ++ " attached a payment slip for " ++ titleOf d r.itemId)

/-- A notification about order `o` says what the database says. -/
def Tells (d : Database) (o : ℤ) (r : Order) (n : Notification) : Prop :=
  d.orders.get o = some r ∧ n.orderId = some o ∧ n.itemId = some r.itemId ∧ Says d r n

/-- A notification is true: it says what has become of its order, and one of a payment slip is about
    an order that has one. -/
def Truthful (d : Database) (n : Notification) : Prop :=
  ∃ o r, Tells d o r n ∧ (n.type = .paymentSlipAttached → r.paymentSlipUrl.isSome)

/-! ## What is read before a notification is saved -/

/-- A notification that is saved tells of an order read before. -/
def Told (l : List Database) : Write market → Prop
  | ⟨.notification _, n⟩ => ∃ d ∈ l, ∃ o r, Tells d o r n
  | _ => True

section
variable {C : List Database → Write market → Prop} {l : List Database} {β : Type}

theorem vouches_fail (e : Thrown) : (fail e).Vouches C l := trivial

theorem vouches_answer (r : Response) : (answer r).Vouches C l := trivial

theorem vouches_query {g : Database → β} {k : β → Program} (h : ∀ d, (k (g d)).Vouches C (l ++ [d])) :
    (query g k).Vouches C l := ⟨h, fun _ _ => trivial⟩

theorem vouches_findOneForUser {u : String} {k : OrderDetail → Program} (h : ∀ d r,
      d.orders.get o = some r → (k (OrdersService.detail d o r)).Vouches C (l ++ [d])) :
    (OrdersService.findOneForUser o u k).Vouches C l := by
  refine vouches_query fun d => ?_
  cases hr : d.orders.get o with
  | none => exact trivial
  | some r =>
    dsimp only [Option.map_some]
    split_ifs
    · exact trivial
    · exact h d r hr

end

section
variable {C : List Database → Write market → Prop} {l : List Database} {k : Program}
  (huser : ∀ l u (r : User), C l ⟨.user u, r⟩) (hk : ∀ l', k.Vouches C l')
include huser hk

theorem vouches_sendToUser (u : String) (m : ℤ) :
    (PushService.sendToUser cfg u m n k).Vouches C l := by
  unfold PushService.sendToUser
  split_ifs
  · exact hk _
  · refine ⟨fun d => ?_, fun l' f => hk _⟩
    dsimp only [Tx.Vouches, ended]
    rw [if_pos rfl]
    cases (d.users.get u).bind User.fcmToken with
    | none => exact hk _
    | some token =>
      dsimp only
      split_ifs
      · exact hk _
      · intro x
        rcases x with _ | _ | code
        · exact hk _
        · exact hk _
        · dsimp only
          split_ifs
          · exact ⟨⟨fun _ _ => huser .., hk _, hk _⟩, fun l' f => hk _⟩
          · exact hk _

theorem vouches_notify {input : CreateNotificationInput}
    (h : ∀ m now, C l ⟨.notification m, (⟨input.userId, input.type, input.title, input.body,
      input.itemId, input.orderId, false, now⟩ : Notification)⟩) :
    (NotificationsService.notify cfg input k).Vouches C l := by
  refine ⟨fun now m => ⟨h m now, fun x => ?_⟩, fun l' f => hk _⟩
  cases x with
  | done => exact vouches_sendToUser huser hk _ _
  | rejected => exact hk _

end

section
variable {l : List Database} {k : Program}

theorem notify_told {input : CreateNotificationInput} (hk : ∀ l', k.Vouches Told l')
    (h : ∀ now, ∃ d ∈ l, ∃ o r, Tells d o r ⟨input.userId, input.type, input.title, input.body,
      input.itemId, input.orderId, false, now⟩) :
    (NotificationsService.notify cfg input k).Vouches Told l :=
  vouches_notify (fun _ _ _ => trivial) hk fun _ now => h now

theorem buyerName_detail : NotificationsService.buyerName (OrdersService.detail d o r) =
    nameOf d r.buyerId := by
  unfold NotificationsService.buyerName nameOf OrdersService.detail
  cases d.users.get r.buyerId <;> rfl

theorem itemTitle_detail : NotificationsService.itemTitle (OrdersService.detail d o r) =
    titleOf d r.itemId := by
  unfold NotificationsService.itemTitle titleOf OrdersService.detail
  cases d.items.get r.itemId <;> rfl

section
variable (hk : ∀ l', k.Vouches Told l') (hd : d ∈ l) (hr : d.orders.get o = some r)
include hk hd hr

theorem notifyOrderPlaced_told :
    (NotificationsService.notifyOrderPlaced cfg (OrdersService.detail d o r) k).Vouches Told l := by
  refine notify_told hk fun now => ⟨d, hd, o, r, hr, rfl, rfl, rfl, rfl, ?_⟩
  rw [buyerName_detail, itemTitle_detail]
  rfl

theorem notifyPaymentSlipAttached_told :
    (NotificationsService.notifyPaymentSlipAttached cfg (OrdersService.detail d o r) k).Vouches Told
      l := by
  refine notify_told hk fun now => ⟨d, hd, o, r, hr, rfl, rfl, rfl, rfl, ?_⟩
  rw [buyerName_detail, itemTitle_detail]

theorem notifyOrderStatusChanged_told (u : String) :
    (NotificationsService.notifyOrderStatusChanged cfg (OrdersService.detail d o r) u k).Vouches Told
      l := by
  unfold NotificationsService.notifyOrderStatusChanged
  cases hs : (OrdersService.detail d o r).order.status with
  | pending => exact hk l
  | completed =>
    refine notify_told hk fun now => ⟨d, hd, o, r, hr, rfl, rfl, hs, rfl, rfl, ?_⟩
    rw [itemTitle_detail]
  | cancelled =>
    refine notify_told hk fun now => ⟨d, hd, o, r, hr, rfl, rfl, hs, rfl, ?_⟩
    rw [itemTitle_detail]
    by_cases hu : u = (OrdersService.detail d o r).order.sellerId
    · simp only [hu, decide_true, if_true]
      exact Or.inl ⟨rfl, rfl⟩
    · simp only [hu, decide_false, Bool.false_eq_true, if_false]
      exact Or.inr ⟨rfl, rfl⟩

end

/-! ## The programs -/

/-- What follows the transaction of an order request: the order is read, the other party notified. -/
theorem createOrder_told (u : String) (dto : CreateOrderDto) :
    (program cfg (.createOrder u dto)).Vouches Told [] := by
  refine ⟨fun item? => ?_, fun l' f => ?_⟩
  · cases item? with
    | none => exact trivial
    | some item =>
      dsimp only
      split_ifs
      · exact trivial
      · exact trivial
      · exact trivial
      · refine fun now m => ⟨trivial, fun _ _ => trivial, ?_, ?_⟩ <;>
          exact vouches_findOneForUser fun d r hr => notifyOrderPlaced_told
            (fun _ => vouches_answer _) (List.mem_append_right _ (List.mem_singleton_self d)) hr
  · dsimp only
    split_ifs <;> exact trivial

theorem updateOrderStatus_told (o : ℤ) (u : String) (dto : UpdateOrderStatusDto) :
    (program cfg (.updateOrderStatus o u dto)).Vouches Told [] := by
  have rest (l : List Database) : (OrdersService.findOneForUser o u fun x =>
      NotificationsService.notifyOrderStatusChanged cfg x u (answer (.order x))).Vouches Told l :=
    vouches_findOneForUser fun d r hr => notifyOrderStatusChanged_told
      (fun _ => vouches_answer _) (List.mem_append_right _ (List.mem_singleton_self d)) hr u
  refine ⟨fun d => ?_, fun l' f => trivial⟩
  rw [if_pos rfl]
  dsimp only
  cases (d.orders.get o).map Order.itemId with
  | none => exact trivial
  | some itemId =>
    intro item? order?
    cases order? with
    | none => exact trivial
    | some order =>
      cases item? with
      | none => exact trivial
      | some item =>
        dsimp only
        split_ifs
        · exact trivial
        · exact trivial
        · exact trivial
        · unfold OrdersService.resolveTx
          split_ifs
          · exact ⟨fun _ _ => trivial, ⟨fun _ _ => trivial, rest _, rest _⟩, fun _ _ => trivial, rest _,
              rest _⟩
          · exact ⟨fun _ _ => trivial, ⟨fun _ _ => trivial, rest _, rest _⟩, fun _ _ => trivial, rest _,
              rest _⟩
          · exact ⟨fun _ _ => trivial, rest _, rest _⟩

theorem attachPaymentSlip_told (o : ℤ) (u : String) (dto : AttachPaymentSlipDto cfg) :
    (program cfg (.attachPaymentSlip o u dto)).Vouches Told [] := by
  simp only [program, OrdersService.attachPaymentSlip]
  cases StorageService.assertManagedUrls cfg [dto.paymentSlipUrl] with
  | error => exact trivial
  | ok =>
    refine vouches_query fun d => ?_
    cases d.orders.get o with
    | none => exact trivial
    | some order =>
      dsimp only
      split_ifs
      · exact trivial
      · exact trivial
      · exact trivial
      · refine ⟨⟨fun _ _ => trivial, ?_, ?_⟩, fun l' f => trivial⟩ <;>
          exact vouches_findOneForUser fun d r hr => notifyPaymentSlipAttached_told
            (fun _ => vouches_answer _) (List.mem_append_right _ (List.mem_singleton_self d)) hr

theorem program_told (hq : q.notifies = true) : (program cfg q).Vouches Told [] := by
  cases q with
  | createOrder u dto => exact createOrder_told u dto
  | updateOrderStatus o u dto => exact updateOrderStatus_told o u dto
  | attachPaymentSlip o u dto => exact attachPaymentSlip_told o u dto
  | _ => cases hq

end

/-! ## What is true stays true -/

theorem Employees.nameOf_eq (h : Employees d₀ d) (u : String) : nameOf d u = nameOf d₀ u := by
  unfold nameOf
  cases hu : d.users.get u with
  | none =>
    have hnone : d₀.users.get u = none := by
      rw [← Option.not_isSome_iff_eq_none]
      intro hsome
      have hkept := h.kept u hsome
      rw [hu] at hkept
      cases hkept
    rw [hnone]
  | some r =>
    obtain ⟨r₀, hr₀, hs, -⟩ := h.rows u r hu
    rw [hr₀]
    exact hs.fullName

section
variable (h : Sane d₀ d) (h' : Sane d₀ d') (hf : Follows d d')
include h h' hf

theorem Tells.kept (ht : Tells d o r n) :
    ∃ r', Tells d' o r' n ∧ (r.paymentSlipUrl.isSome → r'.paymentSlipUrl.isSome) := by
  obtain ⟨hr, horder, hitem, hsays⟩ := ht
  obtain ⟨status, slip, hr', hstatus, hslip⟩ := hf.orders o r hr
  obtain ⟨item, hi, -⟩ := h.agreement.item hr
  obtain ⟨_, _, hi', -⟩ := hf.items r.itemId item hi
  have htitle : titleOf d' r.itemId = titleOf d r.itemId := by
    rw [titleOf, titleOf, hi, hi']
    rfl
  have hname : nameOf d' r.buyerId = nameOf d r.buyerId :=
    (h'.employees.nameOf_eq _).trans (h.employees.nameOf_eq _).symm
  refine ⟨_, ⟨hr', horder, hitem, ?_⟩, hslip⟩
  revert hsays
  unfold Says
  rw [htitle, hname]
  cases n.type with
  | orderPlaced | paymentSlipAttached => exact id
  | orderCompleted | orderCancelled =>
    rintro ⟨hs, hrest⟩
    exact ⟨(hstatus (by rw [hs]; decide)).trans hs, hrest⟩

theorem Truthful.kept (ht : Truthful d n) : Truthful d' n := by
  obtain ⟨o, r, ht, hslip⟩ := ht
  obtain ⟨r', ht', hkept⟩ := ht.kept h h' hf
  exact ⟨o, r', ht', fun hn => hkept (hslip hn)⟩

end

/-- Whether it has been read is not what a notification says. -/
theorem Truthful.read (ht : Truthful d n) (isRead : Bool) : Truthful d { n with isRead } := ht

/-! ## What is announced once -/

/-- What can be announced once about an order: that it has been placed, and that it has been
    resolved. -/
inductive Topic where
  | placed (orderId : ℤ)
  | resolved (orderId : ℤ)

def Event.topic : Event → Option Topic
  | .placeOrder o => some (.placed o)
  | .resolveOrder o _ => some (.resolved o)
  | _ => none

def Notification.topic (n : Notification) : Option Topic :=
  match n.type with
  | .orderPlaced => n.orderId.map .placed
  | .orderCompleted | .orderCancelled => n.orderId.map .resolved
  | .paymentSlipAttached => none

/-- The database shows what has become of an order. -/
def Topic.Marked : Topic → Database → Prop
  | .placed o, d => (d.orders.get o).isSome
  | .resolved o, d => ∃ r, d.orders.get o = some r ∧ r.status ≠ .pending

/-- Nothing is announced twice. -/
def Once (d : Database) : Prop := ∀ n n' r r' t, d.notifications.get n = some r →
  d.notifications.get n' = some r' → r.topic = some t → r'.topic = some t → n = n'

theorem Truthful.marked (ht : Truthful d n) {t : Topic} (h : n.topic = some t) : t.Marked d := by
  obtain ⟨o, r, ⟨hr, ho, -, hsays⟩, -⟩ := ht
  revert hsays h
  unfold Says Notification.topic
  rw [ho]
  cases n.type with
  | orderPlaced =>
    rintro ⟨⟩ -
    exact Option.isSome_iff_exists.2 ⟨r, hr⟩
  | orderCompleted | orderCancelled =>
    rintro ⟨⟩ ⟨hs, -⟩
    exact ⟨r, hr, by rw [hs]; decide⟩
  | paymentSlipAttached => rintro ⟨⟩

theorem Topic.Marked.kept {t : Topic} (h : t.Marked d) (he : Emits cfg base q e L d d') :
    t.Marked d' := by
  cases t with
  | placed o =>
    obtain ⟨r, hr⟩ := Option.isSome_iff_exists.1 h
    obtain ⟨r', hr', -⟩ := he.order_kept hr
    exact Option.isSome_iff_exists.2 ⟨r', hr'⟩
  | resolved o =>
    obtain ⟨r, hr, hs⟩ := h
    rcases he.order_cases hr with h' | ⟨_, _, _, _, hp, _, h'⟩ | ⟨_, _, _, _, _, h'⟩
    · exact ⟨r, h', hs⟩
    · exact absurd hp hs
    · exact ⟨_, h', hs⟩

/-- An order is placed once, and resolved once. -/
theorem Emits.topic (he : Emits cfg base q e L d d') {t : Topic} (h : e.topic = some t) :
    ¬ t.Marked d ∧ t.Marked d' := by
  cases he with
  | placeOrder _ _ _ _ hn =>
    cases h
    refine ⟨fun hm => ?_, Option.isSome_iff_exists.2 ⟨_, Table.get_put ..⟩⟩
    rw [Topic.Marked, hn] at hm
    cases hm
  | completeOrder _ hr _ _ hp =>
    cases h
    refine ⟨?_, _, Table.get_put .., by rintro ⟨⟩⟩
    rintro ⟨r', hr', hs⟩
    rw [hr] at hr'; cases hr'
    exact hs hp
  | cancelOrder _ hr _ _ hp =>
    cases h
    refine ⟨?_, _, by rw [cancelled_orders]; exact Table.get_put .., by rintro ⟨⟩⟩
    rintro ⟨r', hr', hs⟩
    rw [hr] at hr'; cases hr'
    exact hs hp
  | _ => cases h

theorem topic_marks (R : Regime cfg) : R.spec.Marks Event.topic Topic.Marked :=
  ⟨fun he h => (he.1.topic h).2, fun _ he h => h.kept he.1⟩

/-- The order has a payment slip. -/
def HasSlip (o : ℤ) (d : Database) : Prop :=
  ∃ r, d.orders.get o = some r ∧ r.paymentSlipUrl.isSome = true

def Event.slip : Event → Option ℤ
  | .attachSlip o _ => some o
  | _ => none

theorem slip_marks (R : Regime cfg) : R.spec.Marks Event.slip HasSlip := by
  refine ⟨fun ⟨he, _⟩ h => ?_, fun _ ⟨he, _⟩ ⟨r, hr, hslip⟩ => ?_⟩
  · cases he with
    | attachSlip _ hr =>
      cases h
      exact ⟨_, Table.get_put .., rfl⟩
    | _ => cases h
  · rcases he.order_cases hr with h' | ⟨_, _, _, _, _, _, h'⟩ | ⟨_, _, _, _, _, h'⟩
    · exact ⟨_, h', hslip⟩
    · exact ⟨_, h', hslip⟩
    · exact ⟨_, h', rfl⟩

theorem Emits.notification_back (he : Emits cfg base q e L d d') {m : ℤ} {n' : Notification}
    (h : d'.notifications.get m = some n') :
    (∃ n isRead, d.notifications.get m = some n ∧ n' = { n with isRead }) ∨
      q.notifies = true ∧ e = .notify m n' := by
  rcases he.notification_origin h with hsome | hnew
  · obtain ⟨n, hn⟩ := Option.isSome_iff_exists.1 hsome
    rcases he.notification_cases hn with h' | ⟨-, h'⟩
    · rw [h] at h'; cases h'
      exact Or.inl ⟨n', _, hn, rfl⟩
    · rw [h] at h'; cases h'
      exact Or.inl ⟨n, _, hn, rfl⟩
  · exact Or.inr hnew

/-- What a notification is about is the topic of the event before it. -/
theorem topic_of_announces {u : String} (hq : q.announces = some (u, n.type))
    (he : OrderEvent o q e) (ho : n.orderId = some o) :
    (n.type = .paymentSlipAttached → e.slip = some o) ∧ (n.topic.isSome → e.topic = n.topic) := by
  unfold Notification.topic
  rw [ho]
  cases q with
  | createOrder =>
    simp only [Request.announces, Option.some.injEq, Prod.mk.injEq] at hq
    rw [← hq.2]
    cases he
    exact ⟨by rintro ⟨⟩, fun _ => rfl⟩
  | updateOrderStatus _ _ dto =>
    simp only [Request.announces, Option.some.injEq, Prod.mk.injEq] at hq
    rw [← hq.2]
    obtain ⟨rfl, rfl⟩ := he
    split_ifs
    · exact ⟨by rintro ⟨⟩, fun _ => rfl⟩
    · exact ⟨by rintro ⟨⟩, fun _ => rfl⟩
  | attachPaymentSlip =>
    simp only [Request.announces, Option.some.injEq, Prod.mk.injEq] at hq
    rw [← hq.2]
    obtain ⟨rfl, rfl⟩ := he
    exact ⟨fun _ => rfl, by rintro ⟨⟩⟩
  | _ => cases he

/-! ## Along a run -/

section
variable {D : Deployment} {acts as : List (AppAction cfg)} {s s' : AppState cfg}

/-- What is known of the notifications after a run with the history `h`: they are true, none says what
    another one says, and what a session has done and not announced yet has not been announced. -/
structure Announcing (s : AppState cfg) (h : (Regime.sane cfg d₀).spec.History) : Prop where
  truthful : ∀ m n, s.db.notifications.get m = some n → Truthful s.db n
  once : Once s.db
  pending : ∀ i e t, h.of i = [.emit e] → e.topic = some t → ∀ m n,
    s.db.notifications.get m = some n → n.topic ≠ some t

theorem new_tells (hD : Agreement D.db) (hs : D.runs cfg as = some s) {i : ℕ} {st : Stage market}
    (hi : s.sessions[i]? = some (q, st)) {m : ℤ} (hw : ⟨.notification m, n⟩ ∈ st.writes)
    (hq : q.notifies = true) : ∃ o r, Tells s.db o r n := by
  obtain ⟨d₁, hd₁, o, r₁, ht₁⟩ := Deployment.vouched (C := Told) (fun q hq => program_told hq) hq hs hi
    _ hw
  refine ⟨o, ?_⟩
  refine Deployment.read_before (R := .sane cfg D.db) ⟨.refl _, hD⟩ (fun _ _ => trivial)
    (P := fun d => ∃ r, Tells d o r n) hs hd₁ ⟨r₁, ht₁⟩ fun q e L d d' hb he ⟨r, ht⟩ => ?_
  have hb' : Sane D.db d' := (Regime.sane cfg D.db).keeps trivial hb he
  exact (ht.kept hb hb' (he.follows hb)).imp fun _ h => h.1

theorem new_truthful (hD : Agreement D.db) (hs : D.runs cfg as = some s)
    {h : (Regime.sane cfg D.db).spec.History} (hsim : (Regime.sane cfg D.db).spec.Sim D.db s h) {i : ℕ}
    {st : Stage market} (hi : s.sessions[i]? = some (q, st)) {m : ℤ}
    (hw : ⟨.notification m, n⟩ ∈ st.writes) (hq : q.notifies = true) (ha : Announces s.db q n)
    (hc : Caused q (h.of i) (.notify m n)) : Truthful s.db n := by
  obtain ⟨o, r, ht⟩ := new_tells hD hs hi hw hq
  refine ⟨o, r, ht, fun htype => ?_⟩
  obtain ⟨o', e, hlog, he, ho'⟩ := hc
  obtain rfl : o = o' := Option.some.inj (ht.2.1.symm.trans ho')
  obtain ⟨u, -, -, hq', -⟩ := ha
  have hslip : e.slip = some o := (topic_of_announces hq' he ho').1 htype
  obtain ⟨q', hm⟩ := Spec.History.mem_of.1 (show Log.emit e ∈ h.of i by rw [hlog]; simp)
  obtain ⟨r', hr', hsome⟩ := (slip_marks (.sane cfg D.db)).marked hsim.path
    (Spec.History.mem_topics.2 ⟨i, q', e, hm, hslip⟩)
  rw [ht.1] at hr'; cases hr'
  exact hsome

/-- What a session announces has been done by it, and by no other one. -/
theorem Announcing.unannounced {h : (Regime.sane cfg d₀).spec.History} (hI : Announcing s h)
    (hsim : (Regime.sane cfg d₀).spec.Sim d₀ s h) {i : ℕ} {m : ℤ} (hn : Announces s.db q n)
    (hc : Caused q (h.of i) (.notify m n)) {t : Topic} (ht : n.topic = some t) :
    (∀ m' n', s.db.notifications.get m' = some n' → n'.topic ≠ some t) ∧
      ∀ j e, h.of j = [.emit e] → e.topic = some t → j = i := by
  obtain ⟨o, e, hlog, he, ho⟩ := hc
  obtain ⟨u, -, -, hq, -⟩ := hn
  have htopic : e.topic = some t :=
    ((topic_of_announces hq he ho).2 (by rw [ht]; rfl)).trans ht
  refine ⟨hI.pending i e t hlog htopic, fun j e' hlog' ht' => ?_⟩
  obtain ⟨q₁, hm₁⟩ := Spec.History.mem_of.1 (show Log.emit e ∈ h.of i by rw [hlog]; simp)
  obtain ⟨q₂, hm₂⟩ := Spec.History.mem_of.1 (show Log.emit e' ∈ h.of j by rw [hlog']; simp)
  exact ((topic_marks (.sane cfg d₀)).unique (fun he ht => (he.1.topic ht).1) hsim.path hm₂ hm₁ ht'
    htopic).1

theorem Announcing.other {h : (Regime.sane cfg d₀).spec.History} (hI : Announcing s h)
    (hd : s'.db = s.db) {i : ℕ} {x : Log Event QueryFailedError Call} (hx : ∀ e, x ≠ .emit e) :
    Announcing s' (h ++ [(i, q, x)]) := by
  refine ⟨hd ▸ hI.truthful, hd ▸ hI.once, fun j e t hlog ht => ?_⟩
  rcases Spec.History.of_snoc_eq_singleton hlog with ⟨-, -, rfl⟩ | ⟨-, hlog⟩
  · exact absurd rfl (hx e)
  · exact hd ▸ hI.pending j e t hlog ht

/-- **An event keeps notifications true, and lets nothing be announced twice.** -/
theorem Announcing.emit (hD : Agreement D.db) (hs : D.runs cfg as = some s)
    {h : (Regime.sane cfg D.db).spec.History} (hsim : (Regime.sane cfg D.db).spec.Sim D.db s h)
    (hbase : Sane D.db s'.db) {i : ℕ} {st : Stage market} (hi : s.sessions[i]? = some (q, st))
    (hw : e.writes st.writes) (he : Emits cfg (Sane D.db) q e st.locks s.db s'.db)
    (hc : Caused q (h.of i) e) (hI : Announcing s h) : Announcing s' (h ++ [(i, q, .emit e)]) := by
  have hfollows : Follows s.db s'.db := he.follows hsim.base
  -- a notification that is saved is true, and no other one is on its topic
  have new {m : ℤ} {n : Notification} (hq : q.notifies = true) (hn : e = .notify m n) :
      Announces s.db q n ∧ Truthful s.db n ∧ Caused q (h.of i) (.notify m n) := by
    subst hn
    have ha : Announces s.db q n := by
      generalize s'.db = d' at he
      cases he with
      | notify _ _ _ ha => exact ha
    have hmem : (⟨.notification m, n⟩ : Write market) ∈ st.writes := by
      rw [show st.writes = [⟨.notification m, n⟩] from hw]
      exact List.mem_singleton_self _
    exact ⟨ha, new_truthful hD hs hsim hi hmem hq ha hc, hc⟩
  refine ⟨fun m n' hn' => ?_, fun m m' n n' t hn hn' ht ht' => ?_, fun j e₀ t hlog ht m n hn hnt => ?_⟩
  · rcases he.notification_back hn' with ⟨n, isRead, hn, rfl⟩ | ⟨hq, hnew⟩
    · exact ((hI.truthful m n hn).kept hsim.base hbase hfollows).read isRead
    · exact (new hq hnew).2.1.kept hsim.base hbase hfollows
  · rcases he.notification_back hn with ⟨n₀, _, hn₀, rfl⟩ | ⟨hq, hnew⟩ <;>
      rcases he.notification_back hn' with ⟨n₁, _, hn₁, rfl⟩ | ⟨hq', hnew'⟩
    · exact hI.once m m' n₀ n₁ t hn₀ hn₁ ht ht'
    · obtain ⟨ha, -, hc'⟩ := new hq' hnew'
      exact absurd ht ((hI.unannounced hsim ha hc' ht').1 m n₀ hn₀)
    · obtain ⟨ha, -, hc'⟩ := new hq hnew
      exact absurd ht' ((hI.unannounced hsim ha hc' ht).1 m' n₁ hn₁)
    · rw [hnew] at hnew'; cases hnew'
      rfl
  · rcases Spec.History.of_snoc_eq_singleton hlog with ⟨-, -, he₀⟩ | ⟨hij, hlog⟩
    · cases he₀
      rcases he.notification_back hn with ⟨n₀, _, hn₀, rfl⟩ | ⟨-, rfl⟩
      · exact (he.topic ht).1 ((hI.truthful m n₀ hn₀).marked hnt)
      · cases ht
    · rcases he.notification_back hn with ⟨n₀, _, hn₀, rfl⟩ | ⟨hq, hnew⟩
      · exact hI.pending j e₀ t hlog ht m n₀ hn₀ hnt
      · obtain ⟨ha, -, hc'⟩ := new hq hnew
        exact hij ((hI.unannounced hsim ha hc' hnt).2 j e₀ hlog ht).symm

/-- **Notifications stay true.**  If the notifications of a database say what it says, they do so in
    every state a run reaches from it: each notification says of its order, of the item and of the
    parties what the database says, and nobody is told twice that an order has been placed, or that it
    has been resolved. -/
theorem notifications_stay_true (hD : Agreement D.db)
    (htrue : ∀ m n, D.db.notifications.get m = some n → Truthful D.db n) (honce : Once D.db)
    (hrun : D.runs cfg acts = some s) :
    (∀ m n, s.db.notifications.get m = some n → Truthful s.db n) ∧ Once s.db := by
  have hbase : (Regime.sane cfg D.db).base D.db := ⟨.refl _, hD⟩
  obtain ⟨h, -, hI⟩ := (Deployment.start_sim (.sane cfg D.db) hbase).induction
    (fun q _ => program_ok q) (I := fun _ s h => Announcing s h)
    ⟨htrue, honce, fun _ _ _ hlog => by cases hlog⟩
    (fun as a _ s s' h l _ hs hsim _ hsim' hout hI => by
      cases hout with
      | silent _ hd =>
        rw [List.append_nil]
        exact ⟨hd ▸ hI.truthful, hd ▸ hI.once, hd ▸ hI.pending⟩
      | fault _ _ _ _ _ _ hd => exact hI.other hd (by rintro _ ⟨⟩)
      | call _ _ _ _ _ _ _ hd => exact hI.other hd (by rintro _ ⟨⟩)
      | emit i q st e _ hi _ _ hw he => exact hI.emit hD hs hsim hsim'.base hi hw he.1 he.2)
    (fun _ _ => trivial) hrun
  exact ⟨hI.truthful, hI.once⟩

/-- The seller is told of the order. -/
def sampleTold : List (AppAction sample) :=
  perform 0 6 (.createItem "EMP00101" sampleUnit) ++
    perform 1 11 (.createOrder "EMP00102" sampleOrder)

theorem notifications_stay_true_sample : ∃ s n,
    (Deployment.migrated sampleUsers).runs sample sampleTold = some s ∧
    s.db.notifications.get 1 = some n ∧ n.userId = "EMP00101" ∧ Truthful s.db n := by
  obtain ⟨s, hrun, hs⟩ : ∃ s, runs sample sampleUsers sampleTold = some s ∧
      ((s.db.notifications.get 1).any fun n => n.userId = "EMP00101") = true :=
    reaches (by decide +kernel)
  simp only [Option.any_eq_true, decide_eq_true_eq] at hs
  obtain ⟨n, hn, hu⟩ := hs
  exact ⟨s, n, hrun, hn, hu, (notifications_stay_true (D := .migrated sampleUsers)
    (.migrated sampleUsers) (fun m n h => by cases h) (fun m m' n n' t h => by cases h) hrun).1 1 n hn⟩

end

end Marketplace
