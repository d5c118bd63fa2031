/-
  What an event can do to each table, and the assertions that no event of
  another request can invalidate.

  The columns of an order other than its status and payment slip never change,
  rows never disappear, and a PENDING order only appears under the lock of its
  item.
-/
import Marketplace.Events
import Marketplace.Lib.Rules

namespace Marketplace

open ReadCommitted

variable {cfg : Config} {base : Database → Prop} {q : Request cfg} {e : Event} {L : List Key}
  {d d' : Database}

/-! ## Cancelling -/

section
variable (d : Database) (o : ℤ) (r : Order) (item : Item)

@[simp] theorem cancelled_users : (cancelled d o r item).users = d.users := by
  unfold cancelled; split_ifs <;> rfl

@[simp] theorem cancelled_orders :
    (cancelled d o r item).orders = d.orders.put o { r with status := .cancelled } := by
  unfold cancelled; split_ifs <;> rfl

@[simp] theorem cancelled_messages : (cancelled d o r item).messages = d.messages := by
  unfold cancelled; split_ifs <;> rfl

@[simp] theorem cancelled_notifications :
    (cancelled d o r item).notifications = d.notifications := by
  unfold cancelled; split_ifs <;> rfl

theorem cancelled_items (i : ℤ) : (cancelled d o r item).items.get i =
    if i = r.itemId ∧ item.status = .reserved then some { item with status := .available }
    else d.items.get i := by
  unfold cancelled
  split_ifs with h₁ h₂ h₂
  · simp [Database.put, h₂.1]
  · simp only [Database.put]; rw [Table.get_put_ne _ _ fun h => h₂ ⟨h, h₁⟩]
  · exact absurd h₂.2 h₁
  · rfl

end

/-! ## Orders -/

/-- The columns of an order that are written once. -/
structure SameOrder (r r' : Order) : Prop where
  itemId : r'.itemId = r.itemId
  buyerId : r'.buyerId = r.buyerId
  sellerId : r'.sellerId = r.sellerId
  quantity : r'.quantity = r.quantity
  totalAmount : r'.totalAmount = r.totalAmount
  createdAt : r'.createdAt = r.createdAt

theorem SameOrder.refl (r : Order) : SameOrder r r := ⟨rfl, rfl, rfl, rfl, rfl, rfl⟩

theorem SameOrder.trans {a b c : Order} (h : SameOrder a b) (h' : SameOrder b c) : SameOrder a c :=
  ⟨h'.1.trans h.1, h'.2.trans h.2, h'.3.trans h.3, h'.4.trans h.4, h'.5.trans h.5, h'.6.trans h.6⟩

/-- What an event does to an order: nothing, or it resolves it, or it attaches a slip. -/
theorem Emits.order_cases (he : Emits cfg base q e L d d') {o : ℤ} {r : Order}
    (h : d.orders.get o = some r) :
    d'.orders.get o = some r ∨
    (∃ userId dto, q = .updateOrderStatus o userId dto ∧ e = .resolveOrder o dto.status ∧
      r.status = .pending ∧ (r.sellerId = userId ∨ dto.status = .cancelled ∧ r.buyerId = userId) ∧
      d'.orders.get o = some { r with status := dto.status }) ∨
    ∃ userId dto, q = .attachPaymentSlip o userId dto ∧ r.buyerId = userId ∧ .order o ∈ L ∧
      d'.orders.get o = some { r with paymentSlipUrl := some dto.paymentSlipUrl } := by
  have other {o' : ℤ} (r₁ : Order) (ho : o ≠ o') : (d.orders.put o' r₁).get o = some r := by
    rw [Table.get_put_ne _ _ ho, h]
  cases he with
  | listItem | setItemStatus | saveProfile | sendMessage | notify | clearToken | forgetToken =>
    exact Or.inl h
  | claimToken hc => obtain ⟨t, rfl⟩ := hc.frame; exact Or.inl h
  | readMessages _ hr => obtain ⟨t, rfl⟩ := hr.frame; exact Or.inl h
  | readNotifications _ hr => obtain ⟨t, rfl⟩ := hr.frame; exact Or.inl h
  | placeOrder _ _ _ _ hn => exact Or.inl (other _ (by rintro rfl; rw [h] at hn; cases hn))
  | @completeOrder o' u dto order item _ _ hc ho hi hu hp hl hl' =>
    by_cases hoo : o = o'
    · subst hoo; rw [h] at ho; cases ho
      exact Or.inr (Or.inl ⟨u, dto, rfl, by rw [hc], hp, Or.inl hu, by simp [Database.put, hc]⟩)
    · exact Or.inl (other _ hoo)
  | @cancelOrder o' u dto order item _ _ hc ho hi hu hp hl hl' =>
    rw [cancelled_orders]
    by_cases hoo : o = o'
    · subst hoo; rw [h] at ho; cases ho
      refine Or.inr (Or.inl ⟨u, dto, rfl, by rw [hc], hp, ?_, by simp [hc]⟩)
      exact hu.imp_right fun hb => ⟨hc, hb⟩
    · exact Or.inl (other _ hoo)
  | @attachSlip o' u dto order _ _ hm ho hu hl =>
    by_cases hoo : o = o'
    · subst hoo; rw [h] at ho; cases ho
      exact Or.inr (Or.inr ⟨u, dto, rfl, hu, hl, by simp [Database.put]⟩)
    · exact Or.inl (other _ hoo)

theorem Emits.order_kept (he : Emits cfg base q e L d d') {o : ℤ} {r : Order}
    (h : d.orders.get o = some r) : ∃ r', d'.orders.get o = some r' ∧ SameOrder r r' := by
  rcases he.order_cases h with h' | ⟨_, _, _, _, _, _, h'⟩ | ⟨_, _, _, _, _, h'⟩ <;>
    exact ⟨_, h', rfl, rfl, rfl, rfl, rfl, rfl⟩

/-- A PENDING order only appears under the lock of its item. -/
theorem Emits.noPending (he : Emits cfg base q e L d d') {i : ℤ} (hi : .item i ∉ L)
    (h : NoPending i d) : NoPending i d' := by
  have put {o' : ℤ} {r₁ : Order} (h₁ : r₁.itemId = i → r₁.status ≠ .pending) :
      ∀ o r, (d.orders.put o' r₁).get o = some r → r.itemId = i → r.status ≠ .pending :=
    Table.forall_put h₁ h
  cases he with
  | listItem | setItemStatus | saveProfile | sendMessage | notify | clearToken | forgetToken => exact h
  | claimToken hc => obtain ⟨t, rfl⟩ := hc.frame; exact h
  | readMessages _ hr => obtain ⟨t, rfl⟩ := hr.frame; exact h
  | readNotifications _ hr => obtain ⟨t, rfl⟩ := hr.frame; exact h
  | placeOrder _ _ _ _ _ hl => exact put fun hni => absurd (hni ▸ hl) hi
  | completeOrder => exact put fun _ => by simp
  | cancelOrder => unfold NoPending; rw [cancelled_orders]; exact put fun _ => by simp
  | attachSlip _ ho => have := h _ _ ho; exact put this

/-! ## Items, messages, notifications, employees -/

theorem Emits.notification_cases (he : Emits cfg base q e L d d') {n : ℤ} {r : Notification}
    (h : d.notifications.get n = some r) :
    d'.notifications.get n = some r ∨
    ((∃ n, q = .markNotificationRead r.userId n) ∨ q = .markAllNotificationsRead r.userId) ∧
      d'.notifications.get n = some { r with isRead := true } := by
  cases he with
  | listItem | setItemStatus | placeOrder | completeOrder | attachSlip | saveProfile | sendMessage
  | clearToken | forgetToken => exact Or.inl h
  | cancelOrder => rw [cancelled_notifications]; exact Or.inl h
  | claimToken hc => obtain ⟨t, rfl⟩ := hc.frame; exact Or.inl h
  | readMessages _ hr => obtain ⟨t, rfl⟩ := hr.frame; exact Or.inl h
  | notify _ hn =>
    refine Or.inl ?_
    simp only [Database.put]
    rw [Table.get_put_ne _ _ (by rintro rfl; rw [h] at hn; cases hn), h]
  | readNotifications hq hr =>
    rcases hr.rows n with hn | ⟨r₀, hn, hu, hn'⟩
    · exact Or.inl (hn.trans h)
    · rw [h] at hn; cases hn; subst hu; exact Or.inr ⟨hq, hn'⟩

theorem Emits.notification_kept (he : Emits cfg base q e L d d') {n : ℤ} {r : Notification}
    (h : d.notifications.get n = some r) :
    ∃ r', d'.notifications.get n = some r' ∧ r'.userId = r.userId := by
  rcases he.notification_cases h with h' | ⟨-, h'⟩
  · exact ⟨r, h', rfl⟩
  · exact ⟨_, h', rfl⟩

theorem unreadFrom_iff {itemId : ℤ} {peerId userId : String} {m : Message} :
    ChatsService.unreadFrom itemId peerId userId m = true ↔
      m.itemId = itemId ∧ m.senderId = peerId ∧ m.receiverId = userId ∧ m.isRead = false := by
  simp [ChatsService.unreadFrom, and_assoc]

theorem Request.conversation?_eq {itemId : ℤ} {peerId userId : String}
    (h : q.conversation? cfg d = some (itemId, peerId, userId)) :
    ∃ dto p item, ((q = .markChatRead userId dto) ∨
        ∃ client, q = .joinChat client dto ∧ client.userId = userId) ∧
      dto.itemId = itemId ∧ peerOf cfg dto = .ok p ∧ d.items.get itemId = some item ∧
      ChatsService.peerFor item userId (PeerTokenService.resolve cfg p) = .ok peerId := by
  have conv {me : String} {dto : ConversationDto}
      (h : Marketplace.conversation? cfg d me dto = some (itemId, peerId, userId)) :
      me = userId ∧ ∃ p item, dto.itemId = itemId ∧ peerOf cfg dto = .ok p ∧
        d.items.get itemId = some item ∧
        ChatsService.peerFor item userId (PeerTokenService.resolve cfg p) = .ok peerId := by
    simp only [Marketplace.conversation?, Option.bind_eq_some_iff, Option.map_eq_some_iff,
      Prod.mk.injEq] at h
    obtain ⟨p, hp, item, hi, peer, hpeer, rfl, rfl, rfl⟩ := h
    cases hp' : peerOf cfg dto with
    | error => rw [hp'] at hp; cases hp
    | ok p' =>
      rw [hp'] at hp; cases hp
      cases hf : ChatsService.peerFor item me (PeerTokenService.resolve cfg p) with
      | error => rw [hf] at hpeer; cases hpeer
      | ok peer' => rw [hf] at hpeer; cases hpeer; exact ⟨rfl, p, item, rfl, rfl, hi, hf⟩
  cases q with
  | markChatRead u dto =>
    obtain ⟨rfl, p, item, h⟩ := conv h
    exact ⟨dto, p, item, Or.inl rfl, h⟩
  | joinChat client dto =>
    obtain ⟨hu, p, item, h⟩ := conv h
    exact ⟨dto, p, item, Or.inr ⟨client, rfl, hu⟩, h⟩
  | _ => cases h

theorem Request.conversation?_user {itemId : ℤ} {peerId userId : String}
    (h : q.conversation? cfg d = some (itemId, peerId, userId)) :
    (∃ dto, q = .markChatRead userId dto) ∨
      ∃ client dto, q = .joinChat client dto ∧ client.userId = userId := by
  obtain ⟨dto, _, _, hq | ⟨client, hq⟩, -⟩ := conversation?_eq h
  · exact Or.inl ⟨dto, hq⟩
  · exact Or.inr ⟨client, dto, hq⟩

theorem Emits.message_cases (he : Emits cfg base q e L d d') {n : ℤ} {m : Message}
    (h : d.messages.get n = some m) :
    d'.messages.get n = some m ∨
    m.isRead = false ∧ q.conversation? cfg d = some (m.itemId, m.senderId, m.receiverId) ∧
      d'.messages.get n = some { m with isRead := true } := by
  cases he with
  | listItem | setItemStatus | placeOrder | completeOrder | attachSlip | saveProfile | notify
  | clearToken | forgetToken => exact Or.inl h
  | cancelOrder => rw [cancelled_messages]; exact Or.inl h
  | claimToken hc => obtain ⟨t, rfl⟩ := hc.frame; exact Or.inl h
  | readNotifications _ hr => obtain ⟨t, rfl⟩ := hr.frame; exact Or.inl h
  | sendMessage _ _ _ _ hn =>
    refine Or.inl ?_
    simp only [Database.put]
    rw [Table.get_put_ne _ _ (by rintro rfl; rw [h] at hn; cases hn), h]
  | readMessages hq hr =>
    rcases hr.rows n with hn | ⟨m₀, hn, hu, hn'⟩
    · exact Or.inl (hn.trans h)
    · rw [h] at hn; cases hn
      obtain ⟨rfl, rfl, rfl, hread⟩ := unreadFrom_iff.1 hu
      exact Or.inr ⟨hread, hq, hn'⟩

theorem Emits.message_kept (he : Emits cfg base q e L d d') {n : ℤ}
    (h : (d.messages.get n).isSome) : (d'.messages.get n).isSome := by
  obtain ⟨m, hm⟩ := Option.isSome_iff_exists.1 h
  rcases he.message_cases hm with h' | ⟨-, -, h'⟩ <;> rw [h'] <;> rfl

theorem Emits.item_kept (he : Emits cfg base q e L d d') {i : ℤ} {item : Item}
    (h : d.items.get i = some item) :
    ∃ item', d'.items.get i = some item' ∧ item'.sellerId = item.sellerId := by
  have put {i' : ℤ} {item₁ : Item} (h₁ : ∀ item₀, d.items.get i' = some item₀ →
      item₁.sellerId = item₀.sellerId) :
      ∃ item', (d.items.put i' item₁).get i = some item' ∧ item'.sellerId = item.sellerId := by
    rw [Table.get_put_eq]
    split_ifs with hi
    · exact ⟨_, rfl, h₁ item (hi ▸ h)⟩
    · exact ⟨item, h, rfl⟩
  have same {i' : ℤ} {item₀ item₁ : Item} (h₀ : d.items.get i' = some item₀)
      (hs : item₁.sellerId = item₀.sellerId) :
      ∃ item', (d.items.put i' item₁).get i = some item' ∧ item'.sellerId = item.sellerId :=
    put fun item₂ h₂ => by rw [h₀] at h₂; cases h₂; exact hs
  cases he with
  | attachSlip | saveProfile | sendMessage | notify | clearToken | forgetToken => exact ⟨item, h, rfl⟩
  | claimToken hc => obtain ⟨t, rfl⟩ := hc.frame; exact ⟨item, h, rfl⟩
  | readMessages _ hr => obtain ⟨t, rfl⟩ := hr.frame; exact ⟨item, h, rfl⟩
  | readNotifications _ hr => obtain ⟨t, rfl⟩ := hr.frame; exact ⟨item, h, rfl⟩
  | listItem _ _ hn => exact put fun item₀ h₀ => by rw [hn] at h₀; cases h₀
  | setItemStatus hi => exact same hi rfl
  | placeOrder hi => exact same hi rfl
  | completeOrder _ _ hi => exact same hi rfl
  | @cancelOrder o u dto order item₀ _ _ _ _ hi =>
    rw [cancelled_items]
    split_ifs with hc
    · rw [hc.1, hi] at h; cases h; exact ⟨_, rfl, rfl⟩
    · exact ⟨item, h, rfl⟩

theorem Emits.forall_items (he : Emits cfg base q e L d d') {P : Item → Prop}
    (h : ∀ i item, d.items.get i = some item → P item)
    (hnew : ∀ sellerId dto price now, q = .createItem sellerId dto →
      ItemsService.resolvePrice dto.itemType dto.price = .ok price →
      P (ItemsService.newItem cfg sellerId dto price (dto.images.getD []).eraseDups now))
    (hkeep : ∀ item status quantity, P item → P { item with status, quantity }) :
    ∀ i item, d'.items.get i = some item → P item := by
  have put {i : ℤ} {item : Item} (hitem : P item) :
      ∀ i' item', (d.items.put i item).get i' = some item' → P item' := Table.forall_put hitem h
  cases he with
  | attachSlip | saveProfile | sendMessage | notify | clearToken | forgetToken => exact h
  | claimToken hc => obtain ⟨t, rfl⟩ := hc.frame; exact h
  | readMessages _ hr => obtain ⟨t, rfl⟩ := hr.frame; exact h
  | readNotifications _ hr => obtain ⟨t, rfl⟩ := hr.frame; exact h
  | listItem hp => exact put (hnew _ _ _ _ rfl hp)
  | @setItemStatus _ _ status item _ _ hi => exact put (hkeep item status item.quantity (h _ _ hi))
  | placeOrder hi => exact put (hkeep _ _ _ (h _ _ hi))
  | completeOrder _ _ hi => exact put (hkeep _ _ _ (h _ _ hi))
  | @cancelOrder _ _ _ _ item _ _ _ _ hi =>
    intro i' item' hi'
    rw [cancelled_items] at hi'
    split_ifs at hi'
    · cases hi'; exact hkeep item _ item.quantity (h _ _ hi)
    · exact h i' item' hi'

theorem ClaimsToken.cases {u t : String} (h : ClaimsToken u t d d') (v : String) :
    d'.users.get v = d.users.get v ∨
      ∃ r, d.users.get v = some r ∧ ∃ t', d'.users.get v = some { r with fcmToken := t' } := by
  by_cases hv : v = u
  · obtain ⟨r, hr, hr'⟩ := h.own
    exact Or.inr ⟨r, hv ▸ hr, _, hv ▸ hr'⟩
  · exact (h.others v hv).imp_right fun ⟨r, hr, _, hr'⟩ => ⟨r, hr, _, hr'⟩

theorem Emits.user_kept (he : Emits cfg base q e L d d') {u : String}
    (h : (d.users.get u).isSome) : (d'.users.get u).isSome := by
  have put {v : String} {r : User} : ((d.users.put v r).get u).isSome := by
    rw [Table.get_put_eq]; split_ifs; exacts [rfl, h]
  cases he with
  | listItem | setItemStatus | placeOrder | completeOrder | attachSlip | sendMessage | notify => exact h
  | cancelOrder => rw [cancelled_users]; exact h
  | readMessages _ hr => obtain ⟨t, rfl⟩ := hr.frame; exact h
  | readNotifications _ hr => obtain ⟨t, rfl⟩ := hr.frame; exact h
  | saveProfile | clearToken | forgetToken => exact put
  | claimToken hc =>
    rcases hc.cases u with h' | ⟨r, -, t, h'⟩
    · rwa [h']
    · rw [h']; rfl

theorem savedRow_phoneNumber {u : String} {dto : UpdateProfileDto cfg} {r₀ r₁ r : User} {p : String}
    (h : (savedRow cfg u dto r₀ r₁ r).phoneNumber = some p) :
    r.phoneNumber = some p ∨ r₀.phoneNumber = some p ∨ dto.phoneNumber = some p := by
  by_cases hsame : (UsersService.merge cfg (UsersService.profile u r₀) dto).phoneNumber =
      r₁.phoneNumber
  · exact Or.inl (by simpa only [savedRow, hsame, if_true] using h)
  · simp only [savedRow, hsame, if_false] at h
    have hp : dto.phoneNumber.or r₀.phoneNumber = some p := h
    cases hdto : dto.phoneNumber with
    | none => rw [hdto, Option.none_or] at hp; exact Or.inr (Or.inl hp)
    | some p' => rw [hdto, Option.some_or] at hp; exact Or.inr (Or.inr hp)

theorem savedRow_qrPaymentUrl {u : String} {dto : UpdateProfileDto cfg} {r₀ r₁ r : User}
    {url : String}
    (h : (savedRow cfg u dto r₀ r₁ r).qrPaymentUrl = some url) :
    r.qrPaymentUrl = some url ∨ r₀.qrPaymentUrl = some url ∨ dto.qrPaymentUrl = .value url := by
  by_cases hsame : (UsersService.merge cfg (UsersService.profile u r₀) dto).qrPaymentUrl =
      r₁.qrPaymentUrl
  · exact Or.inl (by simpa only [savedRow, hsame, if_true] using h)
  · simp only [savedRow, hsame, if_false] at h
    cases hdto : dto.qrPaymentUrl with
    | undefined => exact Or.inr (Or.inl (by
      simpa [UsersService.merge, UsersService.profile, hdto] using h))
    | null => simp [UsersService.merge, hdto] at h
    | value url' =>
      have hurl : url' = url := by simpa [UsersService.merge, hdto] using h
      exact Or.inr (Or.inr (congrArg _ hurl))

/-! ## Stable assertions -/

variable (R : Regime cfg)

/-- The parties of an order and a status other than PENDING are there to stay. -/
theorem stable_orderOf {held : List Key} (o : ℤ) {p : Order → Prop}
    (hp : ∀ r r', SameOrder r r' → (r.status ≠ .pending → r'.status = r.status) → p r → p r') :
    R.spec.Stable held fun d => ∃ r, d.orders.get o = some r ∧ p r := by
  rintro d d' ⟨q, log, e, L, -, -, -, -, he, -⟩ ⟨r, h, hr⟩
  obtain ⟨r', h', hs⟩ := he.order_kept h
  refine ⟨r', h', hp r r' hs (fun hne => ?_) hr⟩
  rcases he.order_cases h with h'' | ⟨_, _, _, _, hpend, _, _⟩ | ⟨_, _, _, _, _, h''⟩
  · rw [h'] at h''; cases h''; rfl
  · exact absurd hpend hne
  · rw [h'] at h''; cases h''; rfl

theorem stable_order {held : List Key} (o : ℤ) (r : Order) :
    R.spec.Stable held fun d => ∃ r', d.orders.get o = some r' ∧ SameOrder r r' :=
  stable_orderOf R o fun _ _ hs _ h => h.trans hs

theorem stable_talksOn {held : List Key} (me : String) (i : ℤ) (withUserId : Option String)
    (peer : String) : R.spec.Stable held (TalksOn cfg me i withUserId peer) := by
  rintro d d' ⟨q, log, e, L, -, -, -, -, he, -⟩ ⟨item, h, hp⟩
  obtain ⟨item', h', hs⟩ := he.item_kept h
  exact ⟨item', h', by simpa only [ChatsService.peerFor, hs] using hp⟩

theorem stable_user {held : List Key} (u : String) :
    R.spec.Stable held fun d => (d.users.get u).isSome := by
  rintro d d' ⟨q, log, e, L, -, -, -, -, he, -⟩ h
  exact he.user_kept h

theorem stable_noPending {held : List Key} {i : ℤ} (hi : .item i ∈ held) :
    R.spec.Stable held (NoPending i) := by
  rintro d d' ⟨q, log, e, L, -, -, hL, -, he, -⟩ h
  exact he.noPending (hL _ hi) h

theorem stable_notification {held : List Key} (n : ℤ) (u : String) :
    R.spec.Stable held fun d => ∃ r, d.notifications.get n = some r ∧ r.userId = u := by
  rintro d d' ⟨q, log, e, L, -, -, -, -, he, -⟩ ⟨r, h, hu⟩
  obtain ⟨r', h', hu'⟩ := he.notification_kept h
  exact ⟨r', h', hu'.trans hu⟩

end Marketplace
