/-
  What becomes of a row, and where a row comes from.

  No request deletes a row, and what a row is about never changes: an item keeps
  its seller, texts and price, an order its parties and amounts, a message and a
  notification all but whether they have been read, an employee the name and the
  department.  That holds although `save` writes back columns it has read before.
-/
import Marketplace.Proof.Agreement
import Marketplace.Proof.Deployment

namespace Marketplace

open ReadCommitted

variable {cfg : Config} {base : Database → Prop} {q : Request cfg} {e : Event} {L : List Key}
  {d d' : Database}

/-! ## Items and orders -/

/-- What an event does to the stock of an item: nothing, or an order on it is completed. -/
theorem Emits.item_row (he : Emits cfg base q e L d d') {i : ℤ} {item : Item}
    (h : d.items.get i = some item) : ∃ status quantity,
      d'.items.get i = some { item with status, quantity } ∧ (quantity = item.quantity ∨
        ∃ o order, d.orders.get o = some order ∧ order.itemId = i ∧
          quantity = max (item.quantity - order.quantity) 0) := by
  have same (hd : d'.items.get i = some item) : ∃ status quantity,
      d'.items.get i = some { item with status, quantity } ∧ (quantity = item.quantity ∨
        ∃ o order, d.orders.get o = some order ∧ order.itemId = i ∧
          quantity = max (item.quantity - order.quantity) 0) := ⟨_, _, hd, Or.inl rfl⟩
  have put {i₁ : ℤ} {item₀ : Item} {st : ItemStatus} (h₀ : d.items.get i₁ = some item₀) :
      ∃ status, (d.items.put i₁ { item₀ with status := st }).get i = some { item with status } := by
    rw [Table.get_put_eq]
    split_ifs with hi
    · rw [hi, h₀] at h; cases h; exact ⟨_, rfl⟩
    · exact ⟨item.status, h⟩
  cases he with
  | attachSlip | saveProfile | sendMessage | notify | clearToken | forgetToken => exact same h
  | claimToken hc => obtain ⟨t, rfl⟩ := hc.frame; exact same h
  | readMessages _ hr => obtain ⟨t, rfl⟩ := hr.frame; exact same h
  | readNotifications _ hr => obtain ⟨t, rfl⟩ := hr.frame; exact same h
  | listItem _ _ hn =>
    refine same ((Table.get_put_ne _ _ ?_).trans h)
    rintro rfl
    rw [h] at hn; cases hn
  | setItemStatus hi =>
    obtain ⟨status, hput⟩ := put hi
    exact ⟨status, item.quantity, hput, Or.inl rfl⟩
  | placeOrder hi =>
    obtain ⟨status, hput⟩ := put hi
    exact ⟨status, item.quantity, hput, Or.inl rfl⟩
  | @completeOrder o _ _ order item₀ _ _ _ ho hi =>
    by_cases hii : i = order.itemId
    · subst hii
      rw [h] at hi; cases hi
      exact ⟨_, _, Table.get_put .., Or.inr ⟨o, order, ho, rfl, rfl⟩⟩
    · exact same ((Table.get_put_ne _ _ hii).trans h)
  | @cancelOrder o _ _ order item₀ _ _ _ _ hi =>
    rw [cancelled_items]
    split_ifs with hc
    · rw [hc.1, hi] at h; cases h
      exact ⟨_, item.quantity, rfl, Or.inl rfl⟩
    · exact ⟨item.status, item.quantity, h, Or.inl rfl⟩

theorem Emits.item_origin (he : Emits cfg base q e L d d') {i : ℤ} {item : Item}
    (h : d'.items.get i = some item) : (d.items.get i).isSome ∨
      ∃ sellerId dto price now, q = .createItem sellerId dto ∧
        ItemsService.resolvePrice dto.itemType dto.price = .ok price ∧
        item = ItemsService.newItem cfg sellerId dto price (dto.images.getD []).eraseDups now := by
  have old {i' : ℤ} {item₀ item₁ : Item} (h₀ : d.items.get i' = some item₀)
      (hput : (d.items.put i' item₁).get i = some item) : (d.items.get i).isSome := by
    rcases Table.get_put_cases hput with ⟨rfl, -⟩ | ⟨-, hi⟩
    · rw [h₀]; rfl
    · rw [hi]; rfl
  have here (h : d.items.get i = some item) : (d.items.get i).isSome := by rw [h]; rfl
  cases he with
  | attachSlip | saveProfile | sendMessage | notify | clearToken | forgetToken => exact Or.inl (here h)
  | claimToken hc => obtain ⟨t, rfl⟩ := hc.frame; exact Or.inl (here h)
  | readMessages _ hr => obtain ⟨t, rfl⟩ := hr.frame; exact Or.inl (here h)
  | readNotifications _ hr => obtain ⟨t, rfl⟩ := hr.frame; exact Or.inl (here h)
  | listItem hp =>
    rcases Table.get_put_cases h with ⟨-, rfl⟩ | ⟨-, hi⟩
    · exact Or.inr ⟨_, _, _, _, rfl, hp, rfl⟩
    · exact Or.inl (here hi)
  | setItemStatus hi => exact Or.inl (old hi h)
  | placeOrder hi => exact Or.inl (old hi h)
  | completeOrder _ _ hi => exact Or.inl (old hi h)
  | cancelOrder _ _ hi =>
    rw [cancelled_items] at h
    split_ifs at h with hc
    · rw [hc.1, hi]; exact Or.inl rfl
    · exact Or.inl (here h)

theorem Emits.order_origin (he : Emits cfg base q e L d d') {o : ℤ} {r : Order}
    (h : d'.orders.get o = some r) : (d.orders.get o).isSome ∨
      ∃ buyerId dto item now, q = .createOrder buyerId dto ∧ d.items.get dto.itemId = some item ∧
        item.sellerId ≠ buyerId ∧
        r = OrdersService.newOrder buyerId dto.itemId item (dto.quantity.getD 1) now := by
  have old {o' : ℤ} {r₀ r₁ : Order} (h₀ : d.orders.get o' = some r₀)
      (hput : (d.orders.put o' r₁).get o = some r) : (d.orders.get o).isSome := by
    rcases Table.get_put_cases hput with ⟨rfl, -⟩ | ⟨-, ho⟩
    · rw [h₀]; rfl
    · rw [ho]; rfl
  have here (h : d.orders.get o = some r) : (d.orders.get o).isSome := by rw [h]; rfl
  cases he with
  | listItem | setItemStatus | saveProfile | sendMessage | notify | clearToken | forgetToken =>
    exact Or.inl (here h)
  | claimToken hc => obtain ⟨t, rfl⟩ := hc.frame; exact Or.inl (here h)
  | readMessages _ hr => obtain ⟨t, rfl⟩ := hr.frame; exact Or.inl (here h)
  | readNotifications _ hr => obtain ⟨t, rfl⟩ := hr.frame; exact Or.inl (here h)
  | placeOrder hi hown =>
    rcases Table.get_put_cases h with ⟨-, rfl⟩ | ⟨-, ho⟩
    · exact Or.inr ⟨_, _, _, _, rfl, hi, hown, rfl⟩
    · exact Or.inl (here ho)
  | completeOrder _ ho => exact Or.inl (old ho h)
  | cancelOrder _ ho => rw [cancelled_orders] at h; exact Or.inl (old ho h)
  | attachSlip _ ho => exact Or.inl (old ho h)

/-! ## Messages and notifications -/

theorem Emits.message_origin (he : Emits cfg base q e L d d') {n : ℤ} {m : Message}
    (h : d'.messages.get n = some m) : (d.messages.get n).isSome ∨
      ∃ client dto, q = .sendMessage client dto ∧ m.senderId = client.userId ∧
        (d.items.get m.itemId).isSome := by
  have here (h : d.messages.get n = some m) : (d.messages.get n).isSome := by rw [h]; rfl
  cases he with
  | listItem | setItemStatus | placeOrder | completeOrder | attachSlip | saveProfile | notify
  | clearToken | forgetToken => exact Or.inl (here h)
  | cancelOrder => rw [cancelled_messages] at h; exact Or.inl (here h)
  | claimToken hc => obtain ⟨t, rfl⟩ := hc.frame; exact Or.inl (here h)
  | readNotifications _ hr => obtain ⟨t, rfl⟩ := hr.frame; exact Or.inl (here h)
  | sendMessage _ _ ht =>
    rcases Table.get_put_cases h with ⟨-, rfl⟩ | ⟨-, hm⟩
    · obtain ⟨item, hi, -⟩ := ht
      exact Or.inr ⟨_, _, rfl, rfl, Option.isSome_iff_exists.2 ⟨item, hi⟩⟩
    · exact Or.inl (here hm)
  | readMessages _ hr =>
    rcases hr.rows n with hn | ⟨m₀, hn, -⟩
    · exact Or.inl (here (hn.symm.trans h))
    · rw [hn]; exact Or.inl rfl

theorem Emits.notification_origin (he : Emits cfg base q e L d d') {n : ℤ} {r : Notification}
    (h : d'.notifications.get n = some r) : (d.notifications.get n).isSome ∨
      q.notifies = true ∧ e = .notify n r := by
  have here (h : d.notifications.get n = some r) : (d.notifications.get n).isSome := by rw [h]; rfl
  cases he with
  | listItem | setItemStatus | placeOrder | completeOrder | attachSlip | saveProfile | sendMessage
  | clearToken | forgetToken => exact Or.inl (here h)
  | cancelOrder => rw [cancelled_notifications] at h; exact Or.inl (here h)
  | claimToken hc => obtain ⟨t, rfl⟩ := hc.frame; exact Or.inl (here h)
  | readMessages _ hr => obtain ⟨t, rfl⟩ := hr.frame; exact Or.inl (here h)
  | notify hq =>
    rcases Table.get_put_cases h with ⟨rfl, rfl⟩ | ⟨-, hn⟩
    · exact Or.inr ⟨hq, rfl⟩
    · exact Or.inl (here hn)
  | readNotifications _ hr =>
    rcases hr.rows n with hn | ⟨r₀, hn, -⟩
    · exact Or.inl (here (hn.symm.trans h))
    · rw [hn]; exact Or.inl rfl

/-! ## Employees -/

/-- The columns of an employee that no request sets. -/
structure SameEmployee (r r' : User) : Prop where
  fullName : r'.fullName = r.fullName
  department : r'.department = r.department
  createdAt : r'.createdAt = r.createdAt

theorem SameEmployee.refl (r : User) : SameEmployee r r := ⟨rfl, rfl, rfl⟩

theorem SameEmployee.trans {a b c : User} (h : SameEmployee a b) (h' : SameEmployee b c) :
    SameEmployee a c := ⟨h'.1.trans h.1, h'.2.trans h.2, h'.3.trans h.3⟩

/-- What an event does to an employee: it sets the token at most, or it saves a profile, which may
    have been read earlier. -/
theorem Emits.user_cases (he : Emits cfg base q e L d d') {u : String} {r' : User}
    (h : d'.users.get u = some r') : ∃ r, d.users.get u = some r ∧
      ((∃ token, r' = { r with fcmToken := token }) ∨
        ∃ dto d₀ d₁ r₀ r₁, q = .updateProfile u dto ∧ base d₀ ∧ d₀.users.get u = some r₀ ∧ base d₁ ∧
          d₁.users.get u = some r₁ ∧ r' = savedRow cfg u dto r₀ r₁ r) := by
  have same (h : d.users.get u = some r') : ∃ r, d.users.get u = some r ∧
      ((∃ token, r' = { r with fcmToken := token }) ∨
        ∃ dto d₀ d₁ r₀ r₁, q = .updateProfile u dto ∧ base d₀ ∧ d₀.users.get u = some r₀ ∧ base d₁ ∧
          d₁.users.get u = some r₁ ∧ r' = savedRow cfg u dto r₀ r₁ r) := ⟨r', h, Or.inl ⟨_, rfl⟩⟩
  have token {v : String} {r₀ : User} {t : Option String} (h₀ : d.users.get v = some r₀)
      (hput : (d.users.put v { r₀ with fcmToken := t }).get u = some r') :
      ∃ r, d.users.get u = some r ∧ ∃ token, r' = { r with fcmToken := token } := by
    rcases Table.get_put_cases hput with ⟨rfl, rfl⟩ | ⟨-, hu⟩
    · exact ⟨r₀, h₀, _, rfl⟩
    · exact ⟨r', hu, _, rfl⟩
  cases he with
  | listItem | setItemStatus | placeOrder | completeOrder | attachSlip | sendMessage | notify =>
    exact same h
  | cancelOrder => rw [cancelled_users] at h; exact same h
  | readMessages _ hr => obtain ⟨t, rfl⟩ := hr.frame; exact same h
  | readNotifications _ hr => obtain ⟨t, rfl⟩ := hr.frame; exact same h
  | saveProfile _ hb₀ h₀ hb₁ h₁ hr =>
    rcases Table.get_put_cases h with ⟨rfl, rfl⟩ | ⟨-, hu⟩
    · exact ⟨_, hr, Or.inr ⟨_, _, _, _, _, rfl, hb₀, h₀, hb₁, h₁, rfl⟩⟩
    · exact same hu
  | clearToken hr =>
    obtain ⟨r, hu, ht⟩ := token hr h
    exact ⟨r, hu, Or.inl ht⟩
  | forgetToken _ hr =>
    obtain ⟨r, hu, ht⟩ := token hr h
    exact ⟨r, hu, Or.inl ht⟩
  | claimToken hc =>
    rcases hc.cases u with hu | ⟨r, hr, t, hu⟩
    · exact same (hu.symm.trans h)
    · rw [h] at hu; cases hu
      exact ⟨r, hr, Or.inl ⟨t, rfl⟩⟩

/-- The employees of a database are those of an earlier one, with the same names and departments; a
    phone number is one of the earlier database, or a request admits it. -/
structure Employees (d₀ d : Database) : Prop where
  rows : ∀ u r, d.users.get u = some r → ∃ r₀, d₀.users.get u = some r₀ ∧ SameEmployee r₀ r ∧
    ∀ p ∈ r.phoneNumber, r₀.phoneNumber = some p ∨ p.length ≤ 25
  kept : ∀ u, (d₀.users.get u).isSome → (d.users.get u).isSome

theorem Employees.refl (d : Database) : Employees d d :=
  ⟨fun _ r h => ⟨r, h, .refl r, fun _ hp => Or.inl hp⟩, fun _ => id⟩

theorem SameEmployee.savedRow {u : String} {dto : UpdateProfileDto cfg} {r r₀ r₁ : User}
    (h₀ : SameEmployee r r₀) : SameEmployee r (Marketplace.savedRow cfg u dto r₀ r₁ r) := by
  refine ⟨?_, ?_, rfl⟩
  · simp only [Marketplace.savedRow, UsersService.merge, UsersService.profile, h₀.fullName, ite_self]
  · simp only [Marketplace.savedRow, UsersService.merge, UsersService.profile, h₀.department, ite_self]

theorem Employees.step {d₀ : Database} (hbase : ∀ d, base d → Employees d₀ d) (h : Employees d₀ d)
    (he : Emits cfg base q e L d d') : Employees d₀ d' := by
  refine ⟨fun u r' hr' => ?_, fun u hu => he.user_kept (h.kept u hu)⟩
  obtain ⟨r, hr, ⟨token, rfl⟩ | ⟨dto, d₁, d₂, r₁, r₂, -, h₁, hr₁, h₂, hr₂, rfl⟩⟩ := he.user_cases hr'
  · obtain ⟨r₀, hr₀, hs, hp⟩ := h.rows u r hr
    exact ⟨r₀, hr₀, ⟨hs.1, hs.2, hs.3⟩, hp⟩
  · obtain ⟨r₀, hr₀, hs, hp⟩ := h.rows u r hr
    obtain ⟨r₀', hr₀', hs₁, hp₁⟩ := (hbase d₁ h₁).rows u r₁ hr₁
    rw [hr₀] at hr₀'; cases hr₀'
    have hsame : SameEmployee r r₁ :=
      ⟨hs₁.1.trans hs.1.symm, hs₁.2.trans hs.2.symm, hs₁.3.trans hs.3.symm⟩
    refine ⟨r₀, hr₀, hs.trans hsame.savedRow, fun p hsaved => ?_⟩
    rcases savedRow_phoneNumber hsaved with hp' | hp' | hp'
    · exact hp p hp'
    · exact hp₁ p hp'
    · obtain ⟨-, hphone, hlen⟩ := dto.phone_ok p hp'
      exact Or.inr (validatedLength_phone hphone ▸ hlen)

/-! ## Along a run -/

/-- What every state of a run from `d₀` satisfies. -/
structure Sane (d₀ d : Database) : Prop where
  employees : Employees d₀ d
  agreement : Agreement d

/-- Any requests, on a database whose orders and items agree. -/
def Regime.sane (cfg : Config) (d₀ : Database) : Regime cfg where
  admitted _ := True
  base := Sane d₀
  keeps _ h he := ⟨h.employees.step (fun _ => Sane.employees) he, h.agreement.step he⟩

/-- What a database holds is still there in a later one: the columns that say what a row is about are
    the same, the stock of an item has not grown, an order that was resolved is, and what has been
    attached or read stays so. -/
structure Follows (d d' : Database) : Prop where
  users : ∀ u r, d.users.get u = some r → ∃ r', d'.users.get u = some r' ∧ SameEmployee r r'
  items : ∀ i item, d.items.get i = some item → ∃ status quantity,
    d'.items.get i = some { item with status, quantity } ∧ quantity ≤ item.quantity
  orders : ∀ o r, d.orders.get o = some r → ∃ status slip,
    d'.orders.get o = some { r with status, paymentSlipUrl := slip } ∧
      (r.status ≠ .pending → status = r.status) ∧ (r.paymentSlipUrl.isSome → slip.isSome)
  messages : ∀ n m, d.messages.get n = some m → ∃ isRead,
    d'.messages.get n = some { m with isRead } ∧ (m.isRead = true → isRead = true)
  notifications : ∀ n r, d.notifications.get n = some r → ∃ isRead,
    d'.notifications.get n = some { r with isRead } ∧ (r.isRead = true → isRead = true)

theorem Follows.refl (d : Database) : Follows d d :=
  ⟨fun _ r h => ⟨r, h, .refl r⟩, fun _ _ h => ⟨_, _, h, le_rfl⟩,
    fun _ _ h => ⟨_, _, h, fun _ => rfl, id⟩, fun _ _ h => ⟨_, h, id⟩, fun _ _ h => ⟨_, h, id⟩⟩

theorem Follows.trans {a b c : Database} (h : Follows a b) (h' : Follows b c) : Follows a c := by
  constructor
  · intro u r hr
    obtain ⟨r₁, hr₁, hs₁⟩ := h.users u r hr
    obtain ⟨r₂, hr₂, hs₂⟩ := h'.users u r₁ hr₁
    exact ⟨r₂, hr₂, hs₁.trans hs₂⟩
  · intro i item hi
    obtain ⟨_, _, hi₁, hq₁⟩ := h.items i item hi
    obtain ⟨_, _, hi₂, hq₂⟩ := h'.items i _ hi₁
    exact ⟨_, _, hi₂, hq₂.trans hq₁⟩
  · intro o r hr
    obtain ⟨_, _, hr₁, hs₁, hp₁⟩ := h.orders o r hr
    obtain ⟨_, _, hr₂, hs₂, hp₂⟩ := h'.orders o _ hr₁
    refine ⟨_, _, hr₂, fun hne => ?_, fun hslip => hp₂ (hp₁ hslip)⟩
    have hs := hs₁ hne
    subst hs
    exact hs₂ hne
  · intro n m hm
    obtain ⟨_, hm₁, hb₁⟩ := h.messages n m hm
    obtain ⟨_, hm₂, hb₂⟩ := h'.messages n _ hm₁
    exact ⟨_, hm₂, fun hb => hb₂ (hb₁ hb)⟩
  · intro n r hr
    obtain ⟨_, hr₁, hb₁⟩ := h.notifications n r hr
    obtain ⟨_, hr₂, hb₂⟩ := h'.notifications n _ hr₁
    exact ⟨_, hr₂, fun hb => hb₂ (hb₁ hb)⟩

theorem Emits.follows {d₀ : Database} (h : Sane d₀ d) (he : Emits cfg (Sane d₀) q e L d d') :
    Follows d d' := by
  have hstep : Employees d₀ d' := h.employees.step (fun _ => Sane.employees) he
  constructor
  · intro u r hr
    obtain ⟨r', hr'⟩ := Option.isSome_iff_exists.1 (he.user_kept (u := u) (by rw [hr]; rfl))
    obtain ⟨r₀, hr₀, hs, -⟩ := h.employees.rows u r hr
    obtain ⟨r₀', hr₀', hs', -⟩ := hstep.rows u r' hr'
    rw [hr₀] at hr₀'; cases hr₀'
    exact ⟨r', hr', hs'.1.trans hs.1.symm, hs'.2.trans hs.2.symm, hs'.3.trans hs.3.symm⟩
  · intro i item hi
    obtain ⟨status, quantity, hi', hq⟩ := he.item_row hi
    refine ⟨status, quantity, hi', ?_⟩
    rcases hq with rfl | ⟨o, order, ho, -, rfl⟩
    · exact le_rfl
    · obtain ⟨-, -, -, -, hone⟩ := h.agreement.item ho
      have hstock := h.agreement.stock hi
      omega
  · intro o r hr
    rcases he.order_cases hr with h' | ⟨_, _, _, _, hp, _, h'⟩ | ⟨_, _, _, _, _, h'⟩
    · exact ⟨_, _, h', fun _ => rfl, id⟩
    · exact ⟨_, _, h', fun hne => absurd hp hne, id⟩
    · exact ⟨_, _, h', fun _ => rfl, fun _ => rfl⟩
  · intro n m hm
    rcases he.message_cases hm with h' | ⟨-, -, h'⟩
    · exact ⟨_, h', id⟩
    · exact ⟨_, h', fun _ => rfl⟩
  · intro n r hr
    rcases he.notification_cases hr with h' | ⟨-, h'⟩
    · exact ⟨_, h', id⟩
    · exact ⟨_, h', fun _ => rfl⟩

section
variable {D : Deployment} {acts as bs : List (AppAction cfg)} {s s' : AppState cfg}

/-- **History is immutable**: between any two states that a run passes through, whatever requests are
    made, in whatever order their statements run, nothing is removed and only the columns that
    requests are there to change have changed. -/
theorem history_immutable (hD : Agreement D.db) (hacts : acts = as ++ bs)
    (hs : D.runs cfg as = some s) (hrun : D.runs cfg acts = some s') : Follows s.db s'.db :=
  Deployment.between (.sane cfg D.db) ⟨.refl _, hD⟩ (fun _ _ => trivial) Follows.refl
    (fun h h' => h.trans h') (fun _ _ _ _ _ hb he => he.follows hb) hacts hs hrun

/-- The orders of the seller are the same before and after the order is completed. -/
theorem history_immutable_sample : ∃ s s' : AppState sample,
    (Deployment.migrated sampleUsers).runs sample sampleOrdered = some s ∧
    (Deployment.migrated sampleUsers).runs sample sampleCompleted = some s' ∧
    Follows s.db s'.db := by
  obtain ⟨s, hs, -⟩ : ∃ s, runs sample sampleUsers sampleOrdered = some s ∧ True := by
    simpa using (reaches (p := fun _ => true) (by decide +kernel) :
      ∃ s, runs sample sampleUsers sampleOrdered = some s ∧ true = true)
  obtain ⟨s', hs', -⟩ : ∃ s, runs sample sampleUsers sampleCompleted = some s ∧ True := by
    simpa using (reaches (p := fun _ => true) (by decide +kernel) :
      ∃ s, runs sample sampleUsers sampleCompleted = some s ∧ true = true)
  exact ⟨s, s', hs, hs', history_immutable (D := .migrated sampleUsers) (.migrated sampleUsers) rfl hs
    hs'⟩

end

end Marketplace
