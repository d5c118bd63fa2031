/-
  Reservations: while an order is PENDING its item does not change, and when it
  is resolved the item is as before the order, or short of the units sold.
-/
import Marketplace.Proof.LifeCycle
import Marketplace.Proof.Rejections

namespace Marketplace

open ReadCommitted

variable {cfg : Config} {base : Database → Prop} {q : Request cfg} {e : Event} {L : List Key}
  {d d' : Database} {o : ℤ} {r : Order} {i : ℤ} {item : Item}

/-- The row of an item that was `item` when `order` was placed on it, for each status of the
    order. -/
def reservedRow (item : Item) (order : Order) : OrderStatus → Item
  | .pending => { item with status := .reserved }
  | .cancelled => item
  | .completed => { item with
      quantity := item.quantity - order.quantity
      status := if item.quantity - order.quantity = 0 then .sold else .available }

theorem resolvedItem_reservedRow {r' : Order} (ha : item.status = .available)
    (hle : r.quantity ≤ item.quantity) (hsame : SameOrder r r') (x : OrderStatus) :
    resolvedItem (reservedRow item r .pending) r' x = reservedRow item r x := by
  cases x with
  | pending => rfl
  | cancelled => simp only [resolvedItem, reservedRow, ← ha]
  | completed =>
    have hclamp : max (item.quantity - r.quantity) 0 = item.quantity - r.quantity :=
      max_eq_left (by omega)
    simp only [resolvedItem, reservedRow, hsame.quantity, hclamp, Item.mk.injEq, true_and, and_true]
    split_ifs <;> first | rfl | omega

/-- What an event does to an item: nothing, or no PENDING order reserves it, or the event resolves
    its PENDING order. -/
theorem Emits.item_cases (he : Emits cfg base q e L d d') (hi : d.items.get i = some item) :
    d'.items.get i = some item ∨ NoPending i d ∨ item.status = .available ∨
    ∃ o r x, e = .resolveOrder o x ∧ d.orders.get o = some r ∧ r.itemId = i ∧
      r.status = .pending := by
  have put {i₁ : ℤ} {item₁ : Item} (hne : i ≠ i₁) : (d.items.put i₁ item₁).get i = some item :=
    (Table.get_put_ne _ _ hne).trans hi
  rcases he.quiet with ⟨hitems, -⟩ | hq
  · exact Or.inl (by rw [hitems, hi])
  cases he with
  | @listItem _ _ _ n _ _ _ _ _ hn =>
    refine Or.inl (put ?_)
    rintro rfl
    rw [hi] at hn; cases hn
  | @setItemStatus i₁ _ _ _ _ _ _ _ _ hno =>
    rcases eq_or_ne i i₁ with rfl | hne
    · exact Or.inr (Or.inl hno)
    · exact Or.inl (put hne)
  | @placeOrder _ dto item₁ _ _ _ _ hi₁ _ ha =>
    rcases eq_or_ne i dto.itemId with rfl | hne
    · rw [hi] at hi₁; cases hi₁
      exact Or.inr (Or.inr (Or.inl ha))
    · exact Or.inl (put hne)
  | @completeOrder o _ _ r _ _ _ _ ho _ _ hp =>
    rcases eq_or_ne i r.itemId with rfl | hne
    · exact Or.inr (Or.inr (Or.inr ⟨o, r, _, rfl, ho, rfl, hp⟩))
    · exact Or.inl (put hne)
  | @cancelOrder o _ _ r _ _ _ _ ho _ _ hp =>
    rcases eq_or_ne i r.itemId with rfl | hne
    · exact Or.inr (Or.inr (Or.inr ⟨o, r, _, rfl, ho, rfl, hp⟩))
    · refine Or.inl ?_
      rw [cancelled_items, if_neg fun h => hne h.1, hi]
  | attachSlip => exact Or.inl hi
  | _ => cases hq

theorem Emits.resolved_item {x : OrderStatus} (he : Emits cfg base q (.resolveOrder o x) L d d')
    (ho : d.orders.get o = some r) (hi : d.items.get r.itemId = some item)
    (hres : item.status = .reserved) : d'.items.get r.itemId = some (resolvedItem item r x) := by
  cases he with
  | completeOrder _ ho₁ hi₁ =>
    rw [ho] at ho₁; cases ho₁
    rw [hi] at hi₁; cases hi₁
    exact Table.get_put ..
  | cancelOrder _ ho₁ hi₁ =>
    rw [ho] at ho₁; cases ho₁
    rw [hi] at hi₁; cases hi₁
    rw [cancelled_items, if_pos ⟨rfl, hres⟩]
    rfl

/-- **What an event does to the item of a PENDING order**: nothing, unless it resolves the order. -/
theorem Emits.reserved (he : Emits cfg base q e L d d') (hag : Agreement d)
    (ho : d.orders.get o = some r) (hp : r.status = .pending)
    (hi : d.items.get r.itemId = some item) :
    ∃ r', d'.orders.get o = some r' ∧ SameOrder r r' ∧
      d'.items.get r.itemId = some (resolvedItem item r r'.status) := by
  obtain ⟨hres, -⟩ := hag.covered ho hp hi
  obtain ⟨r', ho', hsame⟩ := he.order_kept ho
  refine ⟨r', ho', hsame, ?_⟩
  by_cases hp' : r'.status = .pending
  · rw [hp']
    rcases he.item_cases hi with hi' | hno | ha | ⟨o₁, r₁, x, rfl, ho₁, hri, hp₁⟩
    · exact hi'
    · exact absurd hp (hno o r ho rfl)
    · rw [hres] at ha; cases ha
    · obtain rfl := hag.unique ho ho₁ hp hp₁ hri.symm
      obtain ⟨-, r₂, ho₂, hx, hne⟩ := he.resolved
      rw [ho'] at ho₂; cases ho₂
      exact absurd (hx.symm.trans hp') hne
  · rcases he.order_cases ho with h | ⟨_, dto, -, rfl, -, -, h⟩ | ⟨_, _, _, _, _, h⟩ <;>
      rw [ho'] at h <;> cases h
    · exact absurd hp hp'
    · exact he.resolved_item ho hi hres
    · exact absurd hp hp'

section
variable {users : Table String User} {acts : List (AppAction cfg)} {s s' : AppState cfg}
  {a : AppAction cfg}

/-- In a step from a reachable state the item of a PENDING order stays as it is, unless the order is
    resolved. -/
theorem reserved_step (hrun : runs cfg users acts = some s) (hstep : s.step (program cfg) a = some s')
    (ho : s.db.orders.get o = some r) (hp : r.status = .pending)
    (hi : s.db.items.get r.itemId = some item) :
    ∃ r', s'.db.orders.get o = some r' ∧ SameOrder r r' ∧
      s'.db.items.get r.itemId = some (resolvedItem item r r'.status) := by
  rcases step_cases hrun hstep with hdb | ⟨_, _, _, _, -, -, -, he⟩
  · rw [hdb]
    exact ⟨r, ho, .refl r, by rw [hp]; exact hi⟩
  · exact he.reserved (runs_agreement hrun) ho hp hi

theorem reserved_run (hrun : runs cfg users acts = some s) (bs : List (AppAction cfg))
    (ho : s.db.orders.get o = some r) (hi : s.db.items.get r.itemId = some item) :
    ∀ {s' : AppState cfg},
    s.run (program cfg) bs = some s' → ∃ r', s'.db.orders.get o = some r' ∧ SameOrder r r' ∧
      (r'.status = .pending → s'.db.items.get r.itemId = some item) := by
  induction bs using List.reverseRecOn with
  | nil =>
    rintro s' ⟨⟩
    exact ⟨r, ho, .refl r, fun _ => hi⟩
  | append_singleton bs b ih =>
    intro s' hbs
    obtain ⟨t, ht, hstep⟩ := State.run_snoc.1 hbs
    have hrun' : runs cfg users (acts ++ bs) = some t := by
      rw [runs_append, hrun, Option.bind_some, ht]
    obtain ⟨r₁, ho₁, hsame₁, hi₁⟩ := ih ht
    obtain ⟨r', ho', hsame'⟩ := order_kept_step hrun' hstep ho₁
    refine ⟨r', ho', hsame₁.trans hsame', fun hp' => ?_⟩
    by_cases hp₁ : r₁.status = .pending
    · rw [← hsame₁.itemId] at hi₁ ⊢
      obtain ⟨r₂, ho₂, -, hi₂⟩ := reserved_step hrun' hstep ho₁ hp₁ (hi₁ hp₁)
      rw [ho'] at ho₂; cases ho₂
      rw [hp'] at hi₂
      exact hi₂
    · -- an order that has been resolved is not PENDING again
      have hs' := statusOf_resolved hrun' hstep (statusOf_eq_some.2 ⟨r₁, ho₁, rfl⟩) hp₁
      obtain ⟨r₂, ho₂, hst⟩ := statusOf_eq_some.1 hs'
      rw [ho'] at ho₂; cases ho₂
      exact absurd (hst.symm.trans hp') hp₁

/-- **A reservation is isolated, and cancelling restores the item**: from the step that places an
    order until the order is resolved, its item does not change; then the item is as before the
    order if it is cancelled, and short of the units of the order if it is completed; and the buyer
    can cancel it and the seller resolve it at any time until then. -/
theorem reservation_isolated (hrun : runs cfg users acts = some s)
    (hstep : s.step (program cfg) a = some s') (hn : s.db.orders.get o = none)
    (ho : s'.db.orders.get o = some r) :
    ∃ item, s.db.items.get r.itemId = some item ∧
      ∀ bs t, s'.run (program cfg) bs = some t → statusOf o t = some .pending →
        t.db.items.get r.itemId = s'.db.items.get r.itemId ∧
        (∀ b t' x, t.step (program cfg) b = some t' → statusOf o t' = some x →
          t'.db.items.get r.itemId = some (reservedRow item r x)) ∧
        ∀ userId (dto : UpdateOrderStatusDto) now seq,
          r.sellerId = userId ∨ dto.status = .cancelled ∧ r.buyerId = userId →
          ∃ ws, ((OrdersService.updateStatusTx o userId dto.status).eval t.db now [] seq).2 =
              .ok ((), ws) ∧
            (overlay (S := market) ws t.db).items.get r.itemId =
              some (reservedRow item r dto.status) := by
  have hrun' := runs_snoc hrun hstep
  rcases step_cases hrun hstep with hdb | ⟨_, _, _, _, -, -, -, he⟩
  · rw [hdb, hn] at ho; cases ho
  obtain ⟨-, item, hi, ha, hle, hi'⟩ := he.placed hn ho
  refine ⟨item, hi, fun bs t ht hpt => ?_⟩
  obtain ⟨r₁, ho₁, hsame, hrow⟩ := reserved_run hrun' bs ho hi' ht
  have hp₁ : r₁.status = .pending := by
    obtain ⟨r₂, ho₂, hp₂⟩ := statusOf_eq_some.1 hpt
    rw [ho₁] at ho₂; cases ho₂
    exact hp₂
  have hrt : runs cfg users (acts ++ [a] ++ bs) = some t := by
    rw [runs_append, hrun', Option.bind_some, ht]
  have hit : t.db.items.get r₁.itemId = some (reservedRow item r .pending) :=
    hsame.itemId ▸ hrow hp₁
  refine ⟨(hrow hp₁).trans hi'.symm, fun b t' x hb hx => ?_, fun userId dto now seq hu => ?_⟩
  · obtain ⟨r₂, ho₂, -, hi₂⟩ := reserved_step hrt hb ho₁ hp₁ hit
    obtain ⟨r₃, ho₃, rfl⟩ := statusOf_eq_some.1 hx
    rw [ho₂] at ho₃; cases ho₃
    rw [resolvedItem_reservedRow ha hle hsame, hsame.itemId] at hi₂
    exact hi₂
  · rcases updateStatusTx_eval (runs_agreement hrt) now seq o userId dto with
      ⟨r₂, item₂, ⟨ho₂, -⟩, hi₂, heval, -⟩ | ⟨hno, -⟩
    · rw [ho₁] at ho₂; cases ho₂
      rw [hit] at hi₂; cases hi₂
      refine ⟨_, heval, ?_⟩
      rw [← resolvedItem_reservedRow ha hle hsame dto.status, ← hsame.itemId]
      exact Table.get_put t.db.items _ _
    · refine absurd ⟨ho₁, hp₁, ?_⟩ (hno r₁)
      rw [hsame.sellerId, hsame.buyerId]
      exact hu

/-- The buyer is about to place an order. -/
def sampleOrdering : List (AppAction sample) :=
  perform 0 6 (.createItem "EMP00101" sampleUnit) ++
    perform 1 4 (.createOrder "EMP00102" sampleOrder)

/-- The buyer can cancel the order, and the item is as before it. -/
theorem reservation_isolated_sample : ∃ s s' item ws,
    runs sample sampleUsers sampleOrdering = some s ∧
    s.step (program sample) (.exec 1) = some s' ∧
    s.db.items.get 1 = some item ∧ s'.db.items.get 1 ≠ some item ∧
    ((OrdersService.updateStatusTx 1 "EMP00102" .cancelled).eval s'.db 0 [] s'.seq).2 =
      .ok ((), ws) ∧
    (overlay (S := market) ws s'.db).items.get 1 = some item := by
  obtain ⟨s, hrun, hs⟩ : ∃ s, runs sample sampleUsers sampleOrdering = some s ∧
      ((s.db.orders.get 1).isNone && ((s.db.items.get 1).any fun item => item.status = .available) &&
        (s.step (program sample) (.exec 1)).any fun s' =>
          ((s'.db.orders.get 1).any fun r =>
            r.itemId = 1 && r.buyerId = "EMP00102" && r.status = .pending) &&
          (s'.db.items.get 1).any fun item => item.status = .reserved) = true :=
    reaches (by decide +kernel)
  simp only [Bool.and_eq_true, Option.any_eq_true, Option.isNone_iff_eq_none, decide_eq_true_eq] at hs
  obtain ⟨⟨hn, item₀, hi₀, ha⟩, s', hstep, ⟨r, ho, ⟨hri, hb⟩, hp⟩, item', hi', hres⟩ := hs
  obtain ⟨item, hi, hall⟩ := reservation_isolated hrun hstep hn ho
  obtain ⟨-, -, hcancel⟩ := hall [] s' rfl (statusOf_eq_some.2 ⟨r, ho, hp⟩)
  obtain ⟨ws, heval, hrow⟩ := hcancel "EMP00102" ⟨.cancelled, Or.inr rfl⟩ 0 s'.seq (Or.inr ⟨rfl, hb⟩)
  rw [hri] at hi hrow
  refine ⟨s, s', item, ws, hrun, hstep, hi, fun h => ?_, heval, hrow⟩
  rw [hi] at hi₀; cases hi₀
  rw [hi'] at h; cases h
  rw [ha] at hres; cases hres

end

end Marketplace
