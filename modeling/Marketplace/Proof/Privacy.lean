/-
  What an employee is answered does not depend on the orders, messages and
  notifications of others, and does not change them.
-/
import Marketplace.Proof.InboxPages
import Marketplace.Lib.TwoRun

namespace Marketplace

open ReadCommitted

variable {cfg : Config} {d d' : Database} {userId : String}

/-! ## Databases that look alike to an employee -/

/-- The employee is a party of the row; everyone is a party of the employees and the items. -/
def IsParty (userId : String) : (k : Key) → Row k → Prop
  | .user _, _ | .item _, _ => True
  | .order _, o => o.buyerId = userId ∨ o.sellerId = userId
  | .message _, m => m.senderId = userId ∨ m.receiverId = userId
  | .notification _, n => n.userId = userId

/-- The databases have the same rows of which the employee is a party. -/
def Alike (userId : String) (d d' : Database) : Prop :=
  ∀ k r, IsParty userId k r → (d.get k = some r ↔ d'.get k = some r)

namespace Alike

theorem users (h : Alike userId d d') : d.users.get = d'.users.get :=
  funext fun u => Option.ext fun r => h (.user u) r trivial

theorem items (h : Alike userId d d') : d.items.get = d'.items.get :=
  funext fun i => Option.ext fun r => h (.item i) r trivial

theorem put (k : Key) (r : Row k) (h : Alike userId d d') :
    Alike userId (d.put k r) (d'.put k r) := by
  intro k' r' hp
  by_cases hk : k' = k
  · subst hk; rw [Database.get_put, Database.get_put]
  · rw [Database.get_put_ne _ _ _ _ hk, Database.get_put_ne _ _ _ _ hk]; exact h k' r' hp

theorem detail (h : Alike userId d d') : OrdersService.detail d = OrdersService.detail d' := by
  funext orderId o
  simp only [OrdersService.detail, sellerParty, h.users, h.items]

theorem orders (h : Alike userId d d') {p : Order → Bool}
    (hp : ∀ o, p o = true → o.buyerId = userId ∨ o.sellerId = userId) :
    orderBy (newest Order.createdAt) (d.orders.rows.filter fun x => p x.2) =
      orderBy (newest Order.createdAt) (d'.orders.rows.filter fun x => p x.2) :=
  orderBy_congr (Table.filter_perm (fun _ => p) fun n o ho => h (.order n) o (hp o ho))
    (newest_injOn (d.orders.nodup_filter_fst _))

theorem messages_perm (h : Alike userId d d') {p : ℤ → Message → Bool}
    (hp : ∀ n m, p n m = true → m.senderId = userId ∨ m.receiverId = userId) :
    (d.messages.rows.filter fun x => p x.1 x.2).Perm (d'.messages.rows.filter fun x => p x.1 x.2) :=
  Table.filter_perm p fun n m hm => h (.message n) m (hp n m hm)

theorem messages (h : Alike userId d d') {p : ℤ → Message → Bool}
    (hp : ∀ n m, p n m = true → m.senderId = userId ∨ m.receiverId = userId) :
    orderBy (newest Message.createdAt) (d.messages.rows.filter fun x => p x.1 x.2) =
      orderBy (newest Message.createdAt) (d'.messages.rows.filter fun x => p x.1 x.2) :=
  orderBy_congr (h.messages_perm hp)
    (newest_injOn (d.messages.nodup_filter_fst _))

theorem notifications_perm (h : Alike userId d d') {p : Notification → Bool}
    (hp : ∀ n, p n = true → n.userId = userId) :
    (d.notifications.rows.filter fun x => p x.2).Perm
      (d'.notifications.rows.filter fun x => p x.2) :=
  Table.filter_perm (fun _ => p) fun i n hn => h (.notification i) n (hp n hn)

theorem notifications (h : Alike userId d d') {p : Notification → Bool}
    (hp : ∀ n, p n = true → n.userId = userId) :
    orderBy (newest Notification.createdAt) (d.notifications.rows.filter fun x => p x.2) =
      orderBy (newest Notification.createdAt) (d'.notifications.rows.filter fun x => p x.2) :=
  orderBy_congr (h.notifications_perm hp)
    (newest_injOn (d.notifications.nodup_filter_fst _))

/-! ### What the queries select -/

theorem ordersMine (h : Alike userId d d') (dto : ListOrdersQueryDto) :
    OrdersService.mine d userId dto = OrdersService.mine d' userId dto := by
  have hp (o : Order) (ho : OrdersService.isMine userId dto o = true) :
      o.buyerId = userId ∨ o.sellerId = userId := by
    simp only [OrdersService.isMine, Bool.and_eq_true] at ho
    have hrole := ho.1
    split at hrole <;> simp_all
  simp only [OrdersService.mine, h.orders hp, h.detail]

theorem historyRows (h : Alike userId d d') (itemId : ℤ) (peer : String) (beforeId : Option ℤ)
    (limit : ℕ) :
    ChatsService.historyRows d itemId userId peer beforeId limit =
      ChatsService.historyRows d' itemId userId peer beforeId limit := by
  have hp (n : ℤ) (m : Message)
      (hm : ChatsService.inHistory itemId userId peer beforeId (n, m) = true) :
      m.senderId = userId ∨ m.receiverId = userId := by
    simp only [ChatsService.inHistory, Bool.and_eq_true, Bool.or_eq_true, decide_eq_true_eq] at hm
    exact hm.1.2.imp And.left And.right
  exact congrArg (List.take (limit + 1))
    (h.messages (p := fun n m => ChatsService.inHistory itemId userId peer beforeId (n, m)) hp)

theorem unreadFrom_perm (h : Alike userId d d') (itemId : ℤ) (peer : String) :
    (d.messages.rows.filter fun x => ChatsService.unreadFrom itemId peer userId x.2).Perm
      (d'.messages.rows.filter fun x => ChatsService.unreadFrom itemId peer userId x.2) := by
  refine h.messages_perm (p := fun _ => ChatsService.unreadFrom itemId peer userId) fun n m hm => ?_
  simp only [ChatsService.unreadFrom, Bool.and_eq_true, decide_eq_true_eq] at hm
  exact Or.inr hm.1.2

theorem latest (h : Alike userId d d') :
    ChatsService.latest d userId = ChatsService.latest d' userId := by
  have hmine := h.messages (p := fun _ m => m.senderId = userId || m.receiverId = userId)
    fun n m hm => by simpa using hm
  exact congrArg (distinctOn (ChatsService.conversationOf userId)) hmine

theorem summary (h : Alike userId d d') :
    ChatsService.summary cfg d userId = ChatsService.summary cfg d' userId := by
  funext x
  simp only [ChatsService.summary, ChatsService.unreadCount, h.users, h.items,
    (h.unreadFrom_perm _ _).length_eq]

theorem notificationsMine (h : Alike userId d d') (unreadOnly : Bool) :
    NotificationsService.mine d userId unreadOnly =
      NotificationsService.mine d' userId unreadOnly := by
  refine h.notifications (p := fun n => n.userId = userId && (!unreadOnly || !n.isRead))
    fun n hn => ?_
  simp only [Bool.and_eq_true, decide_eq_true_eq] at hn
  exact hn.1

end Alike

/-! ## Requests that are answered the same -/

/-- There is no row under the key, or none of which the employee is a party. -/
def Hidden (userId : String) (k : Key) (d : Database) : Prop :=
  ∀ r, d.get k = some r → ¬ IsParty userId k r

theorem Alike.get_cases (h : Alike userId d d') (k : Key) :
    (∃ r, d.get k = some r ∧ d'.get k = some r) ∨ (Hidden userId k d ∧ Hidden userId k d') := by
  by_cases hd : Hidden userId k d
  · exact Or.inr ⟨hd, fun r hr hp => hd r ((h k r hp).2 hr) hp⟩
  · simp only [Hidden, not_forall, not_not] at hd
    obtain ⟨r, hr, hp⟩ := hd
    exact Or.inl ⟨r, hr, (h k r hp).1 hr⟩

/-- Databases that are alike and have the same row under `k`. -/
def AlikeAt (userId : String) (k : Key) (d d' : Database) : Prop :=
  Alike userId d d' ∧ d.get k = d'.get k

theorem AlikeAt.put (k : Key) (d d' : Database) (k' : Key) (r : Row k')
    (h : AlikeAt userId k d d') :
    AlikeAt userId k (d.put k' r) (d'.put k' r) := by
  refine ⟨h.1.put k' r, ?_⟩
  by_cases hk : k = k'
  · subst hk; rw [Database.get_put, Database.get_put]
  · rw [Database.get_put_ne _ _ _ _ hk, Database.get_put_ne _ _ _ _ hk, h.2]

theorem replies_query {β : Type} {g : Database → β} {k : β → Program} {r : Except Thrown Response}
    (hk : (k (g d)).RepliesOn d r) : (query g k).RepliesOn d r := by
  intro answers now seq
  rw [eval_query]
  exact hk ..

theorem same_answer (r : Response) : (answer r).Same d d' :=
  .of_replies .done .done

theorem same_fail (e : Thrown) : (fail e).Same d d' :=
  .of_replies .done .done

theorem same_query {β : Type} {g : Database → β} {k : β → Program} (hg : g d = g d')
    (hk : ∀ b, (k b).Same d d') :
    (query g k).Same d d' := by
  obtain ⟨r, hr, hr'⟩ := hk (g d)
  exact ⟨r, replies_query hr, replies_query (hg ▸ hr')⟩

theorem same_unlessRefused {refusal : Option QueryFailedError} {k : Program} (hk : k.Same d d') :
    (unlessRefused refusal k).Same d d' := by
  cases refusal with
  | none => exact hk
  | some f => exact same_fail _

theorem same_getManyAndCount {α : Type} (dto : PaginationQueryDto) {select : Database → List α}
    {k : PaginatedResult α → Program} (hg : select d = select d')
    (hk : ∀ page, (k page).Same d d') :
    (dto.getManyAndCount select k).Same d d' :=
  same_unlessRefused (same_query (by rw [hg]) fun _ => same_query (by rw [hg]) fun _ => hk _)

theorem sendToUser_replies {u : String} {n : ℤ} {row : Notification} {k : Program}
    {r : Except Thrown Response} (hk : ∀ d, k.RepliesOn d r) (d : Database) :
    (PushService.sendToUser cfg u n row k).RepliesOn d r := by
  unfold PushService.sendToUser
  split
  · exact hk d
  · refine .tx_any fun d x => ?_
    split
    · split
      · exact hk d
      · refine .call fun x => ?_
        split
        · split
          · exact .tx_any fun d _ => hk d
          · exact hk d
        · exact hk d
    · exact hk d

/-- A notification does not change the reply, whether it is stored or not. -/
theorem notify_replies {input : CreateNotificationInput} {k : Program} {r : Except Thrown Response}
    (hk : ∀ d, k.RepliesOn d r) (d : Database) :
    (NotificationsService.notify cfg input k).RepliesOn d r := by
  refine .tx_any fun d x => ?_
  cases x with
  | error e => exact hk d
  | ok x =>
    refine .call fun a => ?_
    cases a with
    | done => exact sendToUser_replies hk d
    | rejected => exact hk d

theorem emitRead_replies {u : String} {n : Option ℤ} {r : Response} :
    (NotificationsService.emitRead u n (answer r)).RepliesOn d (.ok r) :=
  replies_query (.call fun _ => .done)

/-! ### Orders -/

/-- The answer to whoever has no part in an order. -/
def orderNotFound (orderId : ℤ) : Except Thrown Response :=
  .error (.app (.notFound s!"Order {orderId} not found"))

theorem findOneForUser_hidden {orderId : ℤ} {k : OrderDetail → Program}
    (h : Hidden userId (.order orderId) d) :
    (OrdersService.findOneForUser orderId userId k).RepliesOn d (orderNotFound orderId) := by
  refine replies_query ?_
  cases ho : d.orders.get orderId with
  | none => exact .done
  | some o =>
    have hp : o.buyerId ≠ userId ∧ o.sellerId ≠ userId := not_or.1 (h o ho)
    simp only [Option.map_some, OrdersService.detail, hp, ne_eq, not_false_eq_true, and_self,
      if_true]
    exact .done

theorem same_findOneForUser (h : Alike userId d d') (orderId : ℤ) {k : OrderDetail → Program}
    (hk : ∀ o, (k o).Same d d') :
    (OrdersService.findOneForUser orderId userId k).Same d d' := by
  rcases h.get_cases (.order orderId) with ⟨o, ho, ho'⟩ | ⟨hd, hd'⟩
  · have hget : d.orders.get orderId = d'.orders.get orderId := ho.trans ho'.symm
    refine same_query (by rw [hget, h.detail]) fun o => ?_
    split
    · exact same_fail _
    · split
      · exact same_fail _
      · exact hk _
  · exact .of_replies (findOneForUser_hidden hd) (findOneForUser_hidden hd')

theorem updateStatusTx_reads (orderId : ℤ) (status : OrderStatus) :
    (OrdersService.updateStatusTx orderId userId status).Reads
      (S := market) (AlikeAt userId (.order orderId)) := by
  have horder (d d' : Database) (h : AlikeAt userId (.order orderId) d d') :
      d.orders.get orderId = d'.orders.get orderId := h.2
  have hitem (i : ℤ) (d d' : Database) (h : AlikeAt userId (.order orderId) d d') :
      d.get (.item i) = d'.get (.item i) := congrFun h.1.items i
  refine ⟨fun d d' h => congrArg (Option.map Order.itemId) (horder d d' h), fun itemId? => ?_⟩
  cases itemId? with
  | none => trivial
  | some itemId =>
    refine ⟨hitem itemId, fun item? => ⟨horder, fun order? => ?_⟩⟩
    cases order? with
    | none => trivial
    | some order =>
      cases item? with
      | none => trivial
      | some item =>
        dsimp only
        split_ifs
        · trivial
        · trivial
        · trivial
        · unfold OrdersService.resolveTx
          split_ifs
          · exact ⟨horder, fun _ => ⟨hitem itemId, fun _ => trivial⟩⟩
          · exact ⟨horder, fun _ => ⟨hitem itemId, fun _ => trivial⟩⟩
          · exact ⟨horder, fun _ => trivial⟩

theorem updateStatusTx_hidden {orderId : ℤ} {status : OrderStatus}
    (h : Hidden userId (.order orderId) d)
    (now : ℕ) (seq : Serial → ℕ) :
    (Tx.eval (S := market) d now [] seq (OrdersService.updateStatusTx orderId userId status)).2 =
      .error (.notFound s!"Order {orderId} not found") := by
  simp only [OrdersService.updateStatusTx, Tx.eval, overlay_nil]
  cases ho : d.orders.get orderId with
  | none => rfl
  | some o =>
    have hp : o.sellerId ≠ userId ∧ o.buyerId ≠ userId := (not_or.1 (h o ho)).symm
    simp only [Option.map_some, Tx.eval, overlay_nil, Database.get, ho]
    cases hi : d.items.get o.itemId with
    | none => rfl
    | some i => simp only [hp, ne_eq, not_false_eq_true, and_self, if_true, Tx.eval]

theorem updateStatus_hidden {orderId : ℤ} {dto : UpdateOrderStatusDto}
    (h : Hidden userId (.order orderId) d) :
    (OrdersService.updateStatus cfg orderId userId dto).RepliesOn d (orderNotFound orderId) :=
    .tx_error (updateStatusTx_hidden h) .done

theorem same_statusChanged (o : OrderDetail) (u : String) (r : Response) :
    (NotificationsService.notifyOrderStatusChanged cfg o u (answer r)).Same d d' := by
  unfold NotificationsService.notifyOrderStatusChanged
  dsimp only
  split
  · exact .of_replies (notify_replies (fun _ => .done) _) (notify_replies (fun _ => .done) _)
  · exact .of_replies (notify_replies (fun _ => .done) _) (notify_replies (fun _ => .done) _)
  · exact same_answer _

theorem same_updateStatus (h : Alike userId d d') (orderId : ℤ) (dto : UpdateOrderStatusDto) :
    (OrdersService.updateStatus cfg orderId userId dto).Same d d' := by
  rcases h.get_cases (.order orderId) with ⟨o, ho, ho'⟩ | ⟨hd, hd'⟩
  · refine .tx (AlikeAt.put (.order orderId)) ⟨h, ho.trans ho'.symm⟩
      (updateStatusTx_reads orderId dto.status)
      fun d d' x hx => ?_
    cases x with
    | error e => exact same_fail e
    | ok _ => exact same_findOneForUser hx.1 orderId fun o => same_statusChanged o userId _
  · exact .of_replies (updateStatus_hidden hd) (updateStatus_hidden hd')

theorem attachPaymentSlip_hidden {orderId : ℤ} {dto : AttachPaymentSlipDto cfg}
    (hurl : StorageService.isManagedUrl cfg dto.paymentSlipUrl = true)
    (h : Hidden userId (.order orderId) d) :
    (OrdersService.attachPaymentSlip cfg orderId userId dto).RepliesOn d
      (orderNotFound orderId) := by
  have hok : StorageService.assertManagedUrls cfg [dto.paymentSlipUrl] = .ok () :=
    (StorageService.assertManagedUrls_ok cfg).2 (by simpa using hurl)
  simp only [OrdersService.attachPaymentSlip, hok]
  refine replies_query ?_
  cases ho : d.orders.get orderId with
  | none => exact .done
  | some o =>
    have hp : o.buyerId ≠ userId ∧ o.sellerId ≠ userId := not_or.1 (h o ho)
    simp only [hp, ne_eq, not_false_eq_true, and_self, if_true]
    exact .done

theorem same_attachPaymentSlip (h : Alike userId d d') (orderId : ℤ)
    (dto : AttachPaymentSlipDto cfg) :
    (OrdersService.attachPaymentSlip cfg orderId userId dto).Same d d' := by
  by_cases hurl : StorageService.isManagedUrl cfg dto.paymentSlipUrl = true
  swap
  · unfold OrdersService.attachPaymentSlip
    split
    · exact same_fail _
    · rename_i hok
      exact absurd ((StorageService.assertManagedUrls_ok cfg).1 hok _ List.mem_cons_self) hurl
  rcases h.get_cases (.order orderId) with ⟨o, ho, ho'⟩ | ⟨hd, hd'⟩
  · unfold OrdersService.attachPaymentSlip
    split
    · exact same_fail _
    · refine same_query (ho.trans ho'.symm) fun order? => ?_
      split
      · exact same_fail _
      · split_ifs
        · exact same_fail _
        · exact same_fail _
        · exact same_fail _
        · refine .tx (AlikeAt.put (.order orderId)) ⟨h, ho.trans ho'.symm⟩
            ⟨fun d d' h => h.2, fun _ => trivial⟩ fun d d' x hx => ?_
          cases x with
          | error e => exact same_fail e
          | ok _ =>
            refine same_findOneForUser hx.1 orderId fun o => ?_
            exact .of_replies (notify_replies (fun _ => .done) _)
              (notify_replies (fun _ => .done) _)
  · exact .of_replies (attachPaymentSlip_hidden hurl hd) (attachPaymentSlip_hidden hurl hd')

/-! ### Chats and notifications -/

theorem same_resolveConversation (h : Alike userId d d') {itemId : ℤ} {peer : Option String}
    {k : ResolvedConversation → Program} (hk : ∀ conv, (k conv).Same d d') :
    (ChatsService.resolveConversation cfg itemId userId peer k).Same d d' := by
  refine same_query (congrFun h.items itemId) fun item? => ?_
  split
  · exact same_fail _
  · split
    · exact same_fail _
    · exact hk _

theorem markAsRead_replies {itemId : ℤ} {peer : String} {k : ℕ → Program}
    {r : Except Thrown Response} {n : ℕ}
    (hn : (d.messages.rows.filter fun x =>
      ChatsService.unreadFrom itemId peer userId x.2).length = n)
    (hk : ∀ d, (k n).RepliesOn d r) :
    (ChatsService.markAsRead userId itemId peer k).RepliesOn d r := by
  refine .updateEach (fun _ _ => Key.message.inj) (d.messages.nodup_filter_fst _)
    (fun _ hi => Table.get_of_mem_filter hi) fun d' => ?_
  rw [List.length_map, hn]
  exact hk d'

theorem same_markRead (h : Alike userId d d') (dto : ConversationDto) :
    (ChatsGateway.markRead cfg userId dto).Same d d' := by
  unfold ChatsGateway.markRead
  split
  · exact same_fail _
  · refine same_resolveConversation h fun conv => ?_
    have hreply (n : ℕ) (d : Database) : Req.RepliesOn (S := market) d
        (if n > 0 then ChatsGateway.notifyRead conv.itemId userId conv.peerId n (answer (.count n))
          else answer (.count n)) (.ok (.count n)) := by
      split
      · exact .call fun _ => .done
      · exact .done
    have hlen := (h.unreadFrom_perm conv.itemId conv.peerId).length_eq
    exact .of_replies (markAsRead_replies rfl (hreply _)) (markAsRead_replies hlen.symm (hreply _))

theorem same_history (h : Alike userId d d') (dto : ChatHistoryQueryDto) :
    (ChatsService.getHistory cfg userId dto).Same d d' := by
  unfold ChatsService.getHistory
  split
  · exact same_fail _
  · refine same_resolveConversation h fun conv => ?_
    exact same_query (h.historyRows ..) fun _ => same_answer _

theorem markRead_hidden {n : ℤ} (h : Hidden userId (.notification n) d) :
    (NotificationsService.markRead userId n).RepliesOn d
      (.error (.app (.notFound s!"Notification {n} not found"))) := by
  refine replies_query ?_
  have hnone : ((d.notifications.get n).filter fun r => r.userId = userId) = none := by
    simp only [Option.filter_eq_none_iff, decide_eq_true_eq]
    exact fun r hr => h r hr
  rw [hnone]
  exact .done

theorem same_markNotificationRead (h : Alike userId d d') (n : ℤ) :
    (NotificationsService.markRead userId n).Same d d' := by
  rcases h.get_cases (.notification n) with ⟨r, hr, hr'⟩ | ⟨hd, hd'⟩
  · have hget : d.notifications.get n = d'.notifications.get n := hr.trans hr'.symm
    refine same_query (by rw [hget]) fun row? => ?_
    split
    · exact same_fail _
    · split
      · exact same_answer _
      · refine .tx (AlikeAt.put (.notification n)) ⟨h, hr.trans hr'.symm⟩
          ⟨fun d d' h => h.2, fun _ => trivial⟩ fun d d' x _ => ?_
        cases x with
        | error e => exact same_fail e
        | ok _ => exact .of_replies emitRead_replies emitRead_replies
  · exact .of_replies (markRead_hidden hd) (markRead_hidden hd')

theorem markAllRead_replies {n : ℕ}
    (hn : (d.notifications.rows.filter fun x => x.2.userId = userId && !x.2.isRead).length = n) :
    (NotificationsService.markAllRead userId).RepliesOn d (.ok (.count n)) := by
  refine .updateEach (fun _ _ => Key.notification.inj) (d.notifications.nodup_filter_fst _)
    (fun _ hi => Table.get_of_mem_filter hi) fun d' => ?_
  rw [List.length_map, hn]
  dsimp only
  split
  · exact emitRead_replies
  · exact .done

theorem unread_length (h : Alike userId d d') :
    (d.notifications.rows.filter fun x => x.2.userId = userId && !x.2.isRead).length =
      (d'.notifications.rows.filter fun x => x.2.userId = userId && !x.2.isRead).length := by
  refine (h.notifications_perm (p := fun n => n.userId = userId && !n.isRead)
    fun n hn => ?_).length_eq
  simp only [Bool.and_eq_true, decide_eq_true_eq] at hn
  exact hn.1

/-- The requests on an employee's own orders, chats and notifications. -/
def Request.ownedBy (userId : String) : Request cfg → Prop
  | .findOrder _ u | .findMyOrders u _ | .updateOrderStatus _ u _ | .attachPaymentSlip _ u _
  | .history u _ | .conversations u _ _ | .markChatRead u _
  | .findMyNotifications u _ | .countUnread u | .markNotificationRead u _
  | .markAllNotificationsRead u => u = userId
  | _ => False

/-- An employee's requests are answered the same on databases that are alike. -/
theorem same_program (h : Alike userId d d') {q : Request cfg} (hq : q.ownedBy userId) :
    (program cfg q).Same d d' := by
  cases q with
  | findOrder orderId u =>
    obtain rfl : u = userId := hq
    exact same_findOneForUser h orderId fun _ => same_answer _
  | findMyOrders u dto =>
    obtain rfl : u = userId := hq
    exact same_getManyAndCount _ (h.ordersMine dto) fun _ => same_answer _
  | updateOrderStatus orderId u dto =>
    obtain rfl : u = userId := hq
    exact same_updateStatus h orderId dto
  | attachPaymentSlip orderId u dto =>
    obtain rfl : u = userId := hq
    exact same_attachPaymentSlip h orderId dto
  | history u dto =>
    obtain rfl : u = userId := hq
    exact same_history h dto
  | conversations u dto ties =>
    obtain rfl : u = userId := hq
    exact same_unlessRefused (same_query (by rw [h.latest, h.summary]) fun _ => same_answer _)
  | markChatRead u dto =>
    obtain rfl : u = userId := hq
    exact same_markRead h dto
  | findMyNotifications u dto =>
    obtain rfl : u = userId := hq
    exact same_getManyAndCount _ (h.notificationsMine _) fun _ => same_answer _
  | countUnread u =>
    obtain rfl : u = userId := hq
    exact same_query (unread_length h) fun _ => same_answer _
  | markNotificationRead u n =>
    obtain rfl : u = userId := hq
    exact same_markNotificationRead h n
  | markAllNotificationsRead u =>
    obtain rfl : u = userId := hq
    exact .of_replies (markAllRead_replies rfl) (markAllRead_replies (unread_length h).symm)
  | _ => exact hq.elim

/-! ## The order of ties -/

/-- Replies that are the same, but for the order of the rows of an inbox that the query leaves tied. -/
inductive SameButTied : Except Thrown Response → Except Thrown Response → Prop
  | same (x : Except Thrown Response) : SameButTied x x
  | page {rows rows' : List ConversationSummary} (dto : PaginationQueryDto) (total : ℕ) :
    rows.Perm rows' → (rows.Pairwise fun a b => a.time ≤ b.time) →
    (rows'.Pairwise fun a b => a.time ≤ b.time) →
    SameButTied (.ok (.conversations (paginate (dto.rows rows) total dto.page dto.size)))
      (.ok (.conversations (paginate (dto.rows rows') total dto.page dto.size)))

theorem Alike.inbox_perm (h : Alike userId d d') (ties ties' : ℤ × String → ℕ) :
    (inbox cfg d userId ties).Perm (inbox cfg d' userId ties') := by
  rw [inbox, inbox, h.latest, h.summary]
  exact (perm_orderBy _ _).trans (perm_orderBy _ _).symm

variable (cfg) in
theorem responds_of_inbox_perm {ties ties' : ℤ × String → ℕ}
    (hperm : (inbox cfg d userId ties).Perm (inbox cfg d' userId ties')) (dto : PaginationQueryDto) :
    ∃ r r', Responds cfg d (.conversations userId dto ties) r ∧
      Responds cfg d' (.conversations userId dto ties') r' ∧ SameButTied r r' ∧
      (((inbox cfg d userId ties).map ConversationSummary.lastMessageAt).Nodup → r = r') := by
  cases hf : ChatsService.offsetError dto with
  | some f =>
    exact ⟨_, _, inbox_refused cfg d userId hf ties, inbox_refused cfg d' userId hf ties', .same _,
      fun _ => rfl⟩
  | none =>
    have ho := offsetError_eq_none.1 hf
    have hrows : (dto.rows (inbox cfg d userId ties)).length =
        (dto.rows (inbox cfg d' userId ties')).length := by
      simp only [PaginationQueryDto.rows, List.length_take, List.length_drop, hperm.length_eq]
    refine ⟨_, _, inbox_responds cfg d userId ho ties, inbox_responds cfg d' userId ho ties', ?_,
      fun hn => ?_⟩
    · rw [hrows, hperm.length_eq]
      exact .page dto _ hperm (inbox_sorted ties) (inbox_sorted ties')
    · -- without ties there is one order
      have heq : inbox cfg d userId ties = inbox cfg d' userId ties' := by
        refine hperm.eq_of_pairwise (fun a b ha hb hab hba => ?_) (inbox_sorted ties)
          (inbox_sorted ties')
        exact List.inj_on_of_nodup_map hn ha (hperm.mem_iff.2 hb)
          (OrderDual.toDual.injective (le_antisymm hab hba))
      rw [heq]

/-! ## Rows of others -/

theorem Emits.hidden_kept {base : Database → Prop} {q : Request cfg} {e : Event} {L : List Key}
    (he : Emits cfg base q e L d d') (hq : q.ownedBy userId) {k : Key} {r : Row k}
    (hr : d.get k = some r) (hp : ¬ IsParty userId k r) : d'.get k = some r := by
  cases k with
  | user u => exact absurd trivial hp
  | item i => exact absurd trivial hp
  | order o =>
    rcases he.order_cases hr with h | ⟨u, dto, rfl, -, -, hu, -⟩ | ⟨u, dto, rfl, hu, -, -⟩
    · exact h
    · obtain rfl : u = userId := hq
      exact absurd (hu.elim Or.inr fun h => Or.inl h.2) hp
    · obtain rfl : u = userId := hq
      exact absurd (Or.inl hu) hp
  | message n =>
    rcases he.message_cases hr with h | ⟨-, hconv, -⟩
    · exact h
    rcases Request.conversation?_user hconv with ⟨dto, rfl⟩ | ⟨client, dto, rfl, -⟩
    · exact absurd (Or.inr hq) hp
    · exact hq.elim
  | notification n =>
    rcases he.notification_cases hr with h | ⟨⟨i, rfl⟩ | rfl, -⟩
    · exact h
    · exact absurd hq hp
    · exact absurd hq hp

/-- A step of the system leaves the rows of others as they are, if it is a step of the employee's
    own requests. -/
theorem step_hidden_kept {users : Table String User} {acts : List (AppAction cfg)}
    {s s' : AppState cfg} {a : AppAction cfg} (hrun : runs cfg users acts = some s)
    (hstep : s.step (program cfg) a = some s')
    (hown : ∀ i q st, a = .exec i → s.sessions[i]? = some (q, st) → q.ownedBy userId)
    {k : Key} {r : Row k}
    (hr : s.db.get k = some r) (hp : ¬ IsParty userId k r) : s'.db.get k = some r := by
  rcases step_cases hrun hstep with hdb | ⟨i, q, st, e, ha, hi, -, he⟩
  · rw [hdb, hr]
  · exact he.hidden_kept (hown i q st ha hi) hr hp

/-- **What an employee is answered does not depend on the orders, messages and notifications of
    others, and does not change them.** On databases that are alike, an employee's request is answered
    the same, the inbox up to the order of ties, which each database chooses; an order of others is not
    found, like one that does not exist. -/
theorem row_privacy (userId : String) :
    (∀ (d d' : Database) (q : Request cfg), Alike userId d d' → q.ownedBy userId →
      ∃ r, Responds cfg d q r ∧ Responds cfg d' q r) ∧
    (∀ (d d' : Database) dto (ties ties' : ℤ × String → ℕ), Alike userId d d' →
      ∃ r r', Responds cfg d (.conversations userId dto ties) r ∧
        Responds cfg d' (.conversations userId dto ties') r' ∧ SameButTied r r' ∧
        (((inbox cfg d userId ties).map ConversationSummary.lastMessageAt).Nodup → r = r')) ∧
    (∀ (d : Database) (orderId : ℤ), Hidden userId (.order orderId) d →
      Responds cfg d (.findOrder orderId userId) (orderNotFound orderId) ∧
      (∀ dto, Responds cfg d (.updateOrderStatus orderId userId dto) (orderNotFound orderId)) ∧
      ∀ dto, StorageService.isManagedUrl cfg dto.paymentSlipUrl = true →
        Responds cfg d (.attachPaymentSlip orderId userId dto) (orderNotFound orderId)) ∧
    ∀ users acts (s s' : AppState cfg) a, runs cfg users acts = some s →
      s.step (program cfg) a = some s' →
      (∀ i q st, a = .exec i → s.sessions[i]? = some (q, st) → q.ownedBy userId) →
      ∀ k r, s.db.get k = some r → ¬ IsParty userId k r → s'.db.get k = some r := by
  refine ⟨fun d d' q h hq => same_program h hq,
    fun d d' dto ties ties' h => responds_of_inbox_perm cfg (h.inbox_perm ties ties') dto,
    fun d orderId h => ⟨?_, fun dto => ?_, fun dto hurl => ?_⟩,
    fun users acts s s' a hrun hstep hown k r hr hp => step_hidden_kept hrun hstep hown hr hp⟩
  · exact findOneForUser_hidden h
  · exact updateStatus_hidden h
  · exact attachPaymentSlip_hidden hurl h

/-! ## A third employee -/

def privacyUsers : Table String User := sampleUsers.put "EMP00103" (sampleUser "Third" none)

/-- Two sellers list an item each, the buyer orders the second one. -/
def privacyListed : List (AppAction sample) :=
  perform 0 6 (.createItem "EMP00101" sampleUnit) ++
    perform 1 6 (.createItem "EMP00103" sampleUnit) ++
    perform 2 11 (.createOrder "EMP00102" { sampleOrder with itemId := 2, itemId_min := second_min })

/-- The buyer also orders the first item, its seller is notified, and the buyer writes to them. -/
def privacyOrdered : List (AppAction sample) :=
  privacyListed ++ perform 3 11 (.createOrder "EMP00102" sampleOrder) ++ perform 4 9 sampleMessage

/-- The seller of the first item marks it as reserved. -/
def privacyReserved : List (AppAction sample) :=
  privacyListed ++ perform 3 5 (.updateItemStatus 1 "EMP00101" .reserved)

/-- The third employee is about to mark their notifications as read. -/
def privacyRead : List (AppAction sample) :=
  privacyOrdered ++ perform 5 3 (.markAllNotificationsRead "EMP00103")

/-- The databases list the same rows of which the employee is a party. -/
abbrev SameRows (userId : String) (d d' : Database) : Prop :=
  d.users.rows = d'.users.rows ∧ d.items.rows = d'.items.rows ∧
  (d.orders.rows.filter fun x => x.2.buyerId = userId ∨ x.2.sellerId = userId) =
    (d'.orders.rows.filter fun x => x.2.buyerId = userId ∨ x.2.sellerId = userId) ∧
  (d.messages.rows.filter fun x => x.2.senderId = userId ∨ x.2.receiverId = userId) =
    (d'.messages.rows.filter fun x => x.2.senderId = userId ∨ x.2.receiverId = userId) ∧
  (d.notifications.rows.filter fun x => x.2.userId = userId) =
    d'.notifications.rows.filter fun x => x.2.userId = userId

theorem alike_of_rows (h : SameRows userId d d') : Alike userId d d' := by
  obtain ⟨hu, hi, ho, hm, hn⟩ := h
  have row {κ ρ : Type} [DecidableEq κ] {t t' : Table κ ρ} {p : ρ → Prop} [DecidablePred p]
      (ht : (t.rows.filter fun x => p x.2) = t'.rows.filter fun x => p x.2)
      (k : κ) (r : ρ) (hp : p r) :
      t.get k = some r ↔ t'.get k = some r := by
    have := congrArg (fun l => (k, r) ∈ l) ht
    simpa [Table.mem_rows, hp] using this
  intro k r hp
  cases k with
  | user u => show d.users.get u = _ ↔ d'.users.get u = _; rw [← Table.mem_rows, hu, Table.mem_rows]
  | item i => show d.items.get i = _ ↔ d'.items.get i = _; rw [← Table.mem_rows, hi, Table.mem_rows]
  | order o => exact row (p := fun o : Order => o.buyerId = userId ∨ o.sellerId = userId) ho o r hp
  | message n =>
    exact row (p := fun m : Message => m.senderId = userId ∨ m.receiverId = userId) hm n r hp
  | notification n => exact row (p := fun n : Notification => n.userId = userId) hn n r hp

def privacySlip : AttachPaymentSlipDto sample where
  paymentSlipUrl := "http://localhost:54321/storage/v1/object/public/marketplace/receipt.png"
  url_ok := by decide +kernel

/-- The order of the first item is one of others. -/
def ofOthers (o : Order) : Bool := o.buyerId = "EMP00102" && o.sellerId = "EMP00101"

theorem hidden_ofOthers {o : Order} (h : d.orders.get 2 = some o) (ho : ofOthers o = true) :
    Hidden "EMP00103" (.order 2) d := by
  simp only [ofOthers, Bool.and_eq_true, decide_eq_true_eq] at ho
  rintro r hr (hb | hs)
  · rw [show d.get (.order 2) = some o from h] at hr; cases hr; simp [ho.1] at hb
  · rw [show d.get (.order 2) = some o from h] at hr; cases hr; simp [ho.2] at hs

/-- Whether the buyer ordered the first item and wrote to its seller makes no difference to the third
    employee, who is not shown the order and whose reading of their notifications does not touch it. -/
theorem row_privacy_sample : ∃ s s' t t', runs sample privacyUsers privacyOrdered = some s ∧
    runs sample privacyUsers privacyReserved = some s' ∧
    runs sample privacyUsers privacyRead = some t ∧
    t.step (program sample) (.exec 5) = some t' ∧
    (∃ o, s.db.orders.get 2 = some o) ∧ s'.db.orders.get 2 = none ∧
    (∃ r,
      Responds sample s.db
        (.findMyOrders "EMP00103" ⟨⟨1, 10, by decide, by decide⟩, none, none⟩) r ∧
      Responds sample s'.db
        (.findMyOrders "EMP00103" ⟨⟨1, 10, by decide, by decide⟩, none, none⟩) r) ∧
    (∃ r r',
      Responds sample s.db (.conversations "EMP00103" ⟨1, 10, by decide, by decide⟩ fun _ => 0) r ∧
      Responds sample s'.db (.conversations "EMP00103" ⟨1, 10, by decide, by decide⟩ fun _ => 1) r' ∧
      SameButTied r r') ∧
    Responds sample s.db (.findOrder 2 "EMP00103") (orderNotFound 2) ∧
    Responds sample s'.db (.findOrder 2 "EMP00103") (orderNotFound 2) ∧
    Responds sample s.db (.attachPaymentSlip 2 "EMP00103" privacySlip) (orderNotFound 2) ∧
    t'.db.notifications.get 1 ≠ t.db.notifications.get 1 ∧
    ∃ o, t.db.orders.get 2 = some o ∧ t'.db.orders.get 2 = some o := by
  obtain ⟨s', hs', hnone⟩ : ∃ s', runs sample privacyUsers privacyReserved = some s' ∧
      (s'.db.orders.get 2).isNone = true := reaches (by decide +kernel)
  obtain ⟨s, hs, h⟩ : ∃ s, runs sample privacyUsers privacyOrdered = some s ∧
      ((s.db.orders.get 2).any ofOthers &&
        (runs sample privacyUsers privacyReserved).any
          fun s' => SameRows "EMP00103" s.db s'.db) = true :=
    reaches (by decide +kernel)
  obtain ⟨t, ht, h'⟩ : ∃ t, runs sample privacyUsers privacyRead = some t ∧
      ((t.db.orders.get 2).any ofOthers &&
        (t.step (program sample) (.exec 5)).any (fun t' =>
          t'.db.notifications.get 1 ≠ t.db.notifications.get 1) &&
        t.sessions[5]?.any fun x => match x.1 with
          | .markAllNotificationsRead u => u = "EMP00103"
          | _ => false) = true := reaches (by decide +kernel)
  simp only [hs', Option.any_some, Bool.and_eq_true, Option.any_eq_true, decide_eq_true_eq] at h h'
  obtain ⟨⟨o, ho, hoth⟩, hrows⟩ := h
  obtain ⟨⟨⟨o', ho', hoth'⟩, t', hstep, hne⟩, x, hx, hq⟩ := h'
  have hs₂ : s'.db.orders.get 2 = none := Option.isNone_iff_eq_none.1 hnone
  have hhidden : Hidden "EMP00103" (.order 2) s'.db := fun r hr => by
    rw [show s'.db.get (.order 2) = none from hs₂] at hr; cases hr
  refine ⟨s, s', t, t', hs, hs', ht, hstep, ⟨o, ho⟩, hs₂, ?_, ?_, ?_, ?_, ?_, hne, o', ho', ?_⟩
  · exact (row_privacy "EMP00103").1 _ _ _ (alike_of_rows hrows) rfl
  · obtain ⟨r, r', hr, hr', htied, -⟩ := (row_privacy "EMP00103").2.1 _ _ ⟨1, 10, by decide, by decide⟩
      (fun _ => 0) (fun _ => 1) (alike_of_rows hrows)
    exact ⟨r, r', hr, hr', htied⟩
  · exact ((row_privacy "EMP00103").2.2.1 _ 2 (hidden_ofOthers ho hoth)).1
  · exact ((row_privacy "EMP00103").2.2.1 _ 2 hhidden).1
  · exact ((row_privacy "EMP00103").2.2.1 _ 2 (hidden_ofOthers ho hoth)).2.2 _ (by decide +kernel)
  · refine (row_privacy "EMP00103").2.2.2 _ _ _ _ _ ht hstep ?_ (.order 2) o' ho'
      (hidden_ofOthers ho' hoth' o' ho')
    intro i q st hi hget
    cases hi
    rw [hx, Option.some.injEq] at hget
    subst hget
    dsimp only at hq
    split at hq
    · simpa [Request.ownedBy] using hq
    · cases hq

/-! ## Ties -/

/-- The third employee writes to the seller too. -/
def privacyInbox : List (AppAction sample) :=
  sampleInbox ++ perform 4 9 (.sendMessage ⟨"socket", "EMP00103"⟩ sampleHello)

/-- The buyer has asked about two items at one time, and the databases order the answers in ways of
    their own. -/
theorem row_privacy_counterexample : ∃ s s' ties ties',
    runs sample privacyUsers sampleInbox = some s ∧ runs sample privacyUsers privacyInbox = some s' ∧
    Alike "EMP00102" s.db s'.db ∧
    ¬ ∃ r, Responds sample s.db (.conversations "EMP00102" ⟨1, 10, by decide, by decide⟩ ties) r ∧
      Responds sample s'.db (.conversations "EMP00102" ⟨1, 10, by decide, by decide⟩ ties') r := by
  obtain ⟨s', hs', hids'⟩ : ∃ s', runs sample privacyUsers privacyInbox = some s' ∧
      decide ((inbox sample s'.db "EMP00102" fun c => 2 - c.1.toNat).map (·.itemId) = [2, 1]) = true :=
    reaches (by decide +kernel)
  obtain ⟨s, hs, h⟩ : ∃ s, runs sample privacyUsers sampleInbox = some s ∧
      (decide ((inbox sample s.db "EMP00102" fun c => c.1.toNat).map (·.itemId) = [1, 2]) &&
        (runs sample privacyUsers privacyInbox).any
          fun s' => SameRows "EMP00102" s.db s'.db) = true :=
    reaches (by decide +kernel)
  simp only [hs', Option.any_some, Bool.and_eq_true, decide_eq_true_eq] at h hids'
  obtain ⟨hids, hrows⟩ := h
  refine ⟨s, s', fun c => c.1.toNat, fun c => 2 - c.1.toNat, hs, hs', alike_of_rows hrows, ?_⟩
  rintro ⟨r, hr, hr'⟩
  have heq := (hr.unique (inbox_responds sample s.db "EMP00102" (by decide +kernel) _)).symm.trans
    (hr'.unique (inbox_responds sample s'.db "EMP00102" (by decide +kernel) _))
  injection heq with heq
  injection heq with heq
  have hdata := congrArg (fun p => p.data.map (·.itemId)) heq
  simp only [paginate, PaginationQueryDto.rows, List.map_take, List.map_drop, hids, hids'] at hdata
  exact absurd hdata (by decide +kernel)

end Marketplace
