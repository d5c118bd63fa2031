/-
  Orders and items agree: the invariant behind order placement.
-/
import Marketplace.Proof.Runs

namespace Marketplace

open ReadCommitted

variable {cfg : Config} {base : Database → Prop} {q : Request cfg} {e : Event} {L : List Key}
  {d d' : Database}

/-- Orders and items agree. -/
structure Agreement (d : Database) : Prop where
  /-- an order is on an item of another employee -/
  item : ∀ {o r}, d.orders.get o = some r → ∃ item, d.items.get r.itemId = some item ∧
    r.sellerId = item.sellerId ∧ r.buyerId ≠ item.sellerId ∧ 1 ≤ r.quantity
  /-- a PENDING order reserves its item and is covered by the stock -/
  covered : ∀ {o r item}, d.orders.get o = some r → r.status = .pending →
    d.items.get r.itemId = some item → item.status = .reserved ∧ r.quantity ≤ item.quantity
  /-- an item has at most one PENDING order -/
  unique : ∀ {o o' r r'}, d.orders.get o = some r → d.orders.get o' = some r' →
    r.status = .pending →
    r'.status = .pending → r.itemId = r'.itemId → o = o'
  stock : ∀ {i item}, d.items.get i = some item → 0 ≤ item.quantity

theorem Agreement.migrated (users : Table String User) : Agreement (.migrated users) :=
  ⟨fun h => by simp [Database.migrated] at h, fun h => by simp [Database.migrated] at h,
    fun h => by simp [Database.migrated] at h, fun h => by simp [Database.migrated] at h⟩

theorem Emits.quiet (he : Emits cfg base q e L d d') :
    (d'.items = d.items ∧ d'.orders = d.orders) ∨ e.trades = true := by
  cases he with
  | listItem | setItemStatus | placeOrder | completeOrder | cancelOrder | attachSlip =>
    exact Or.inr rfl
  | saveProfile | sendMessage | notify | clearToken | forgetToken => exact Or.inl ⟨rfl, rfl⟩
  | claimToken hc => obtain ⟨t, rfl⟩ := hc.frame; exact Or.inl ⟨rfl, rfl⟩
  | readMessages _ hr => obtain ⟨t, rfl⟩ := hr.frame; exact Or.inl ⟨rfl, rfl⟩
  | readNotifications _ hr => obtain ⟨t, rfl⟩ := hr.frame; exact Or.inl ⟨rfl, rfl⟩

theorem CreateItemDto.one_le_quantity (dto : CreateItemDto cfg) : 1 ≤ dto.quantity.getD 1 := by
  cases h : dto.quantity with
  | none => decide
  | some n => exact (dto.quantity_ok n h).1

theorem CreateOrderDto.quantity_bounds (dto : CreateOrderDto) :
    1 ≤ dto.quantity.getD 1 ∧ dto.quantity.getD 1 ≤ 100 := by
  cases h : dto.quantity with
  | none => decide
  | some n => exact dto.quantity_range n h

/-! ## Writing one row -/

/-- An item is written: a new one, or over one of the same seller; it is reserved for the PENDING
    orders on it and covers them. -/
theorem Agreement.put_item (h : Agreement d) {i : ℤ} {item : Item}
    (hseller : ∀ item₀, d.items.get i = some item₀ → item.sellerId = item₀.sellerId)
    (hpending : ∀ o r, d.orders.get o = some r → r.itemId = i → r.status = .pending →
      item.status = .reserved ∧ r.quantity ≤ item.quantity)
    (hstock : 0 ≤ item.quantity) : Agreement (d.put (.item i) item) := by
  have hall : ∀ i' item', (d.items.put i item).get i' = some item' → 0 ≤ item'.quantity :=
    Table.forall_put hstock fun _ _ => h.stock
  refine ⟨fun {o r} ho => ?_, fun {o r item'} ho hp hi' => ?_, h.unique, fun hi => hall _ _ hi⟩
  · obtain ⟨item₀, hi₀, hs, hb, hone⟩ := h.item ho
    by_cases hri : r.itemId = i
    · subst hri
      rw [← hseller item₀ hi₀] at hs hb
      exact ⟨item, Table.get_put .., hs, hb, hone⟩
    · exact ⟨item₀, (Table.get_put_ne _ _ hri).trans hi₀, hs, hb, hone⟩
  · have hi' : (d.items.put i item).get r.itemId = some item' := hi'
    by_cases hri : r.itemId = i
    · rw [hri, Table.get_put] at hi'; cases hi'
      exact hpending o r ho hri hp
    · rw [Table.get_put_ne _ _ hri] at hi'
      exact h.covered ho hp hi'

/-- An order is written: if it is PENDING, the item is reserved for it, covers it and has no other
    PENDING order. -/
theorem Agreement.put_order (h : Agreement d) {o : ℤ} {r : Order} {item : Item}
    (hi : d.items.get r.itemId = some item) (hseller : r.sellerId = item.sellerId)
    (hbuyer : r.buyerId ≠ item.sellerId) (hone : 1 ≤ r.quantity)
    (hpending : r.status = .pending → item.status = .reserved ∧ r.quantity ≤ item.quantity ∧
      ∀ o' r', o' ≠ o → d.orders.get o' = some r' → r'.status = .pending → r'.itemId ≠ r.itemId) :
    Agreement (d.put (.order o) r) := by
  refine ⟨fun {o' r'} ho' => ?_, fun {o' r' item'} ho' hp' hi' => ?_,
    fun {o₁ o₂ r₁ r₂} h₁ h₂ hp₁ hp₂ hi₁₂ => ?_, h.stock⟩
  · rcases Table.get_put_cases ho' with ⟨rfl, rfl⟩ | ⟨-, ho'⟩
    · exact ⟨item, hi, hseller, hbuyer, hone⟩
    · exact h.item ho'
  · rcases Table.get_put_cases ho' with ⟨rfl, rfl⟩ | ⟨-, ho'⟩
    · have hi' : d.items.get r'.itemId = some item' := hi'
      rw [hi] at hi'; cases hi'
      obtain ⟨hres, hle, -⟩ := hpending hp'
      exact ⟨hres, hle⟩
    · exact h.covered ho' hp' hi'
  · rcases Table.get_put_cases h₁ with ⟨rfl, rfl⟩ | ⟨hne₁, ho₁⟩ <;>
      rcases Table.get_put_cases h₂ with ⟨rfl, rfl⟩ | ⟨hne₂, ho₂⟩
    · rfl
    · exact absurd hi₁₂.symm ((hpending hp₁).2.2 o₂ r₂ hne₂ ho₂ hp₂)
    · exact absurd hi₁₂ ((hpending hp₂).2.2 o₁ r₁ hne₁ ho₁ hp₁)
    · exact h.unique ho₁ ho₂ hp₁ hp₂ hi₁₂

theorem Agreement.update_order (h : Agreement d) {o : ℤ} {r r' : Order}
    (ho : d.orders.get o = some r)
    (hsame : SameOrder r r') (hp : r'.status = .pending → r.status = .pending) :
    Agreement (d.put (.order o) r') := by
  obtain ⟨item, hi, hs, hb, hone⟩ := h.item ho
  rw [← hsame.itemId] at hi
  rw [← hsame.sellerId] at hs
  rw [← hsame.buyerId] at hb
  rw [← hsame.quantity] at hone
  refine h.put_order hi hs hb hone fun hp' => ?_
  obtain ⟨hres, hle⟩ := h.covered ho (hp hp') (hsame.itemId ▸ hi)
  refine ⟨hres, hsame.quantity ▸ hle, fun o₂ r₂ hne ho₂ hp₂ hri => hne ?_⟩
  exact h.unique ho₂ ho hp₂ (hp hp') (hri.trans hsame.itemId)

/-- Once its PENDING order is resolved, an item has none. -/
theorem Agreement.resolved (h : Agreement d) {o : ℤ} {r r' : Order} (ho : d.orders.get o = some r)
    (hp : r.status = .pending) (hp' : r'.status ≠ .pending) :
    NoPending r.itemId (d.put (.order o) r') := by
  intro o₂ r₂ ho₂ hri hp₂
  rcases Table.get_put_cases ho₂ with ⟨rfl, rfl⟩ | ⟨hne, ho₂⟩
  · exact hp' hp₂
  · exact hne (h.unique ho₂ ho hp₂ hp hri)

theorem Agreement.update_item (h : Agreement d) {i : ℤ} {item₀ item : Item}
    (hi : d.items.get i = some item₀) (hseller : item.sellerId = item₀.sellerId)
    (hno : NoPending i d) (hstock : 0 ≤ item.quantity) : Agreement (d.put (.item i) item) := by
  refine h.put_item (fun item₁ hi₁ => ?_) (fun o r ho hri hp => absurd hp (hno o r ho hri)) hstock
  rw [hi] at hi₁; cases hi₁
  exact hseller

/-- **Every event keeps orders and items in agreement.** -/
theorem Agreement.step (h : Agreement d) (he : Emits cfg base q e L d d') : Agreement d' := by
  rcases he.quiet with ⟨hi, ho⟩ | hq
  · exact ⟨by rw [hi, ho]; exact h.item, by rw [hi, ho]; exact h.covered, by rw [ho]; exact h.unique,
      by rw [hi]; exact h.stock⟩
  cases he with
  | @listItem _ dto _ n _ _ _ _ _ hn =>
    have hone := dto.one_le_quantity
    refine h.put_item (fun item₀ hi => ?_) (fun o r ho hri _ => ?_)
      (by simp [ItemsService.newItem]; omega)
    · rw [hn] at hi; cases hi
    · obtain ⟨item, hi, -⟩ := h.item ho
      rw [hri, hn] at hi; cases hi
  | setItemStatus hi _ _ hno =>
    have hstock := h.stock hi
    exact h.update_item hi rfl hno hstock
  | @placeOrder buyerId dto item n now _ _ hi hu hs hle =>
    -- the item has no PENDING order while it is AVAILABLE, so it can be reserved first
    have hno : NoPending dto.itemId d := by
      rintro o r ho hri hp
      have hres := (h.covered ho hp (hri ▸ hi)).1
      rw [hs] at hres; cases hres
    have hstock := h.stock hi
    have hitem : Agreement (d.put (.item dto.itemId) { item with status := .reserved }) :=
      h.update_item hi rfl hno hstock
    exact hitem.put_order (Table.get_put ..) rfl (Ne.symm hu) dto.quantity_bounds.1 fun _ =>
      ⟨rfl, hle, fun o r _ ho hp hri => hno o r ho hri hp⟩
  | @completeOrder o _ _ r item _ _ _ ho hi _ hp =>
    have horder : Agreement (d.put (.order o) { r with status := .completed }) :=
      h.update_order ho ⟨rfl, rfl, rfl, rfl, rfl, rfl⟩ fun h => nomatch h
    have hno : NoPending r.itemId (d.put (.order o) { r with status := .completed }) :=
      h.resolved ho hp fun h => nomatch h
    exact horder.update_item hi rfl hno (le_max_right _ _)
  | @cancelOrder o _ _ r item _ _ _ ho hi _ hp =>
    have horder : Agreement (d.put (.order o) { r with status := .cancelled }) :=
      h.update_order ho ⟨rfl, rfl, rfl, rfl, rfl, rfl⟩ fun h => nomatch h
    have hno : NoPending r.itemId (d.put (.order o) { r with status := .cancelled }) :=
      h.resolved ho hp fun h => nomatch h
    unfold cancelled
    split_ifs
    · have hstock := h.stock hi
      exact horder.update_item hi rfl hno hstock
    · exact horder
  | attachSlip _ ho => exact h.update_order ho ⟨rfl, rfl, rfl, rfl, rfl, rfl⟩ id
  | _ => cases hq

section
variable {users : Table String User} {acts : List (AppAction cfg)} {s : AppState cfg}

theorem runs_agreement (hrun : runs cfg users acts = some s) : Agreement s.db :=
  runs_always (.migrated users) (fun _ _ _ _ _ he h => h.step he) hrun

/-- **In every reachable state an item has at most one PENDING order**, and if it has one, the item
    is RESERVED for it and covers its quantity. -/
theorem order_item_agreement (hrun : runs cfg users acts = some s) {i : ℤ} {item : Item}
    (hi : s.db.items.get i = some item) :
    (∀ o o' r r', s.db.orders.get o = some r → s.db.orders.get o' = some r' → r.itemId = i →
      r'.itemId = i → r.status = .pending → r'.status = .pending → o = o') ∧
    ∀ o r, s.db.orders.get o = some r → r.itemId = i → r.status = .pending →
      item.status = .reserved ∧ r.sellerId = item.sellerId ∧ r.sellerId ≠ r.buyerId ∧
        1 ≤ r.quantity ∧ r.quantity ≤ item.quantity := by
  have h := runs_agreement hrun
  refine ⟨fun o o' r r' ho ho' hri hri' hp hp' => h.unique ho ho' hp hp' (hri.trans hri'.symm), ?_⟩
  rintro o r ho rfl hp
  obtain ⟨item', hi', hseller, hbuyer, hone⟩ := h.item ho
  rw [hi] at hi'; cases hi'
  obtain ⟨hres, hle⟩ := h.covered ho hp hi
  exact ⟨hres, hseller, fun e => hbuyer (e ▸ hseller), hone, hle⟩

/-- An ordered item is RESERVED for the order. -/
theorem order_item_agreement_sample : ∃ s item r, runs sample sampleUsers sampleOrdered = some s ∧
    s.db.items.get 1 = some item ∧ s.db.orders.get 1 = some r ∧ r.status = .pending ∧
    item.status = .reserved ∧ r.quantity ≤ item.quantity := by
  obtain ⟨s, hrun, hs⟩ : ∃ s, runs sample sampleUsers sampleOrdered = some s ∧
      ((s.db.items.get 1).isSome && (s.db.orders.get 1).any fun r =>
        r.itemId = 1 && r.status = .pending) = true := reaches (by decide +kernel)
  simp only [Bool.and_eq_true, Option.isSome_iff_exists, Option.any_eq_true, decide_eq_true_eq] at hs
  obtain ⟨⟨item, hi⟩, r, hr, hri, hp⟩ := hs
  obtain ⟨hres, -, -, -, hle⟩ := (order_item_agreement hrun hi).2 1 r hr hri hp
  exact ⟨s, item, r, hrun, hi, hr, hp, hres, hle⟩

end

end Marketplace
