/-
  Anything on sale can be bought, unless a seller gives an item that is sold
  out another status by hand.
-/
import Marketplace.Proof.Agreement
import Marketplace.Lib.Alone

namespace Marketplace

open ReadCommitted

variable {cfg : Config} {base : Database → Prop} {q : Request cfg} {e : Event} {L : List Key}
  {d d' : Database} {i : ℤ} {item : Item}

/-- An order of one unit of `item` by another employee passes the checks of `create`. -/
def CanBeOrdered (i : ℤ) (item : Item) (d : Database) : Prop :=
  ∀ buyerId (dto : CreateOrderDto) now seq, buyerId ≠ item.sellerId → dto.itemId = i →
    dto.quantity.getD 1 = 1 →
      ∃ out, ((OrdersService.createTx buyerId dto).eval d now [] seq).2 = .ok out

/-- What is on sale can be bought. -/
def Buyable (d : Database) : Prop :=
  ∀ i item, d.items.get i = some item → item.status = .available →
    1 ≤ item.quantity ∧ CanBeOrdered i item d

/-- The items without stock have one of the statuses `T`. -/
def SoldOut (T : ItemStatus → Prop) (d : Database) : Prop :=
  ∀ i item, d.items.get i = some item → item.quantity = 0 → T item.status

/-- A manual status change gives an item without stock one of the statuses `T`. -/
def SetsSoldOut (T : ItemStatus → Prop) (q : Request cfg) (_ : List Key) (d : Database) : Prop :=
  ∀ i userId status item, q = .updateItemStatus i userId status → d.items.get i = some item →
    item.quantity = 0 → T status

theorem canBeOrdered (hi : d.items.get i = some item) (ha : item.status = .available)
    (hq : 1 ≤ item.quantity) : CanBeOrdered i item d := by
  rintro buyerId dto now seq hb rfl hone
  have hget : d.get (.item dto.itemId) = some item := hi
  have hle : ¬ dto.quantity.getD 1 > item.quantity := by omega
  simp only [OrdersService.createTx, Tx.eval, overlay_nil, hget, hb.symm, ha, hle, ne_eq,
    not_true_eq_false, if_false]
  -- the statements after the checks do not fail
  split <;> exact ⟨_, rfl⟩

/-- **An event keeps the statuses of items without stock** in `T`, unless it is a manual change to
    another one. -/
theorem SoldOut.step {T : ItemStatus → Prop} (hT : T .sold) (h : SoldOut T d) (hag : Agreement d)
    (hset : SetsSoldOut T q L d) (he : Emits cfg base q e L d d') : SoldOut T d' := by
  have put {i' : ℤ} {item' : Item} (h' : item'.quantity = 0 → T item'.status) :
      ∀ i item, (d.items.put i' item').get i = some item → item.quantity = 0 → T item.status :=
    Table.forall_put h' h
  rcases he.quiet with ⟨hitems, -⟩ | hq
  · unfold SoldOut; rwa [hitems]
  cases he with
  | @listItem _ dto =>
    have := dto.one_le_quantity
    exact put fun hq => by simp only [ItemsService.newItem] at hq; omega
  | @setItemStatus i u status item _ _ hi => exact put fun hq => hset i u status item rfl hi hq
  | @placeOrder _ dto item _ _ _ _ hi _ _ hle =>
    have := dto.quantity_bounds.1
    exact put fun hq => by dsimp only at hq; omega
  | completeOrder =>
    refine put fun hq => ?_
    dsimp only at hq ⊢
    rw [hq]; exact hT
  | @cancelOrder _ _ _ r item _ _ _ ho hi _ hp =>
    -- the order that is cancelled was covered by the stock
    obtain ⟨-, hle⟩ := hag.covered ho hp hi
    obtain ⟨_, -, -, -, hone⟩ := hag.item ho
    intro i item' hi' hq
    rw [cancelled_items] at hi'
    split_ifs at hi'
    · cases hi'; dsimp only at hq; omega
    · exact h i item' hi' hq
  | attachSlip => exact h
  | _ => cases hq

section
variable {users : Table String User} {acts : List (AppAction cfg)} {s : AppState cfg}

/-- The items without stock have the statuses `T` throughout a run iff no manual change gives such an
    item another one. -/
theorem soldOut_iff {T : ItemStatus → Prop} (hT : T .sold) (hrun : runs cfg users acts = some s) :
    Throughout cfg users acts (SoldOut T) ↔ EveryCommit cfg users acts (SetsSoldOut T) := by
  constructor
  · rintro hall as j bs s₀ q st rfl hs₀ hj hc i u status item rfl hi hq
    obtain ⟨s₁, hstep, hs₁⟩ := step_of_run hrun hs₀
    obtain ⟨e, he⟩ := commit_emits hs₀ hj hc hstep
    have hsold := hall (as ++ [.exec j]) bs s₁ (by simp) hs₁ i { item with status }
    -- the only event of the request is the change of the status
    have hd : s₁.db.items.get i = some { item with status } := by
      generalize s₁.db = d at he
      cases he with
      | setItemStatus hi' => rw [hi] at hi'; cases hi'; simp [Database.put]
      | readMessages h => cases h
      | readNotifications h => rcases h with ⟨_, h⟩ | h <;> cases h
      | notify h | forgetToken h => cases h
    exact hsold hd hq
  · intro hC
    refine throughout_of_commits (fun i item hi => by simp [Database.migrated] at hi) hC ?_
    exact fun as s₀ q e L d' hs₀ hset he h => h.step hT (runs_agreement hs₀) hset he

/-- What is on sale can be bought iff no item without stock is on sale. -/
theorem buyable_iff (hag : Agreement d) : Buyable d ↔ SoldOut (· ≠ .available) d := by
  constructor
  · intro h i item hi hq ha
    have := (h i item hi ha).1
    omega
  · intro h i item hi ha
    have hle : 1 ≤ item.quantity := by
      have := hag.stock hi
      by_contra hlt
      exact h i item hi (by omega) ha
    exact ⟨hle, canBeOrdered hi ha hle⟩

/-- **Throughout a run, what is on sale can be bought** iff no seller puts an item without stock on
    sale by hand, **and what is sold out stays SOLD** iff no seller gives it another status. -/
theorem on_sale_iff (hrun : runs cfg users acts = some s) :
    (Throughout cfg users acts (fun d => Buyable d ∧ SoldOut (· = .sold) d) ↔
      EveryCommit cfg users acts (SetsSoldOut (· = .sold))) ∧
    (Throughout cfg users acts Buyable ↔
      EveryCommit cfg users acts (SetsSoldOut (· ≠ .available))) := by
  have hbuy : Throughout cfg users acts Buyable ↔
      Throughout cfg users acts (SoldOut (· ≠ .available)) :=
    forall_congr' fun as => forall_congr' fun bs => forall_congr' fun s => forall_congr' fun _ =>
      forall_congr' fun hs => buyable_iff (runs_agreement hs)
  constructor
  · rw [← soldOut_iff (T := (· = .sold)) rfl hrun]
    constructor
    · exact fun h as bs s hacts hs => (h as bs s hacts hs).2
    · intro h as bs s hacts hs
      have hsold := h as bs s hacts hs
      refine ⟨(buyable_iff (runs_agreement hs)).2 fun i item hi hq => ?_, hsold⟩
      rw [hsold i item hi hq]; decide
  · rw [hbuy, soldOut_iff (T := (· ≠ .available)) (by decide) hrun]

end

/-- The seller puts the item on sale again. -/
def sampleRelist : Request sample := .updateItemStatus 1 "EMP00101" .available

/-- The item and the status of a request that sets one. -/
def setsStatus? : Request sample → Option (ℤ × ItemStatus)
  | .updateItemStatus i _ status => some (i, status)
  | _ => none

/-- The seller takes the item off sale and puts it on sale again, then it is ordered and sold. -/
def sampleOnSale : List (AppAction sample) :=
  perform 0 6 (.createItem "EMP00101" sampleUnit) ++
    perform 1 5 (.updateItemStatus 1 "EMP00101" .sold) ++ perform 2 5 sampleRelist ++
    perform 3 5 (.createOrder "EMP00102" sampleOrder) ++ perform 4 7 sampleComplete

/-- With stock, the item that is put on sale again can be bought. -/
theorem on_sale_iff_sample : ∃ s s' item item', runs sample sampleUsers (sampleOnSale.take 19) = some s ∧
    runs sample sampleUsers sampleOnSale = some s' ∧ s.db.items.get 1 = some item ∧
    item.status = .available ∧ s'.db.items.get 1 = some item' ∧ item'.quantity = 0 ∧
    Throughout sample sampleUsers sampleOnSale fun d => Buyable d ∧ SoldOut (· = .sold) d := by
  obtain ⟨s, hrun, hs⟩ : ∃ s, runs sample sampleUsers (sampleOnSale.take 19) = some s ∧
      ((s.db.items.get 1).any fun item => item.status = .available) = true :=
    reaches (by decide +kernel)
  obtain ⟨s', hrun', hs'⟩ : ∃ s, runs sample sampleUsers sampleOnSale = some s ∧
      ((s.db.items.get 1).any fun item => item.quantity = 0) = true :=
    reaches (by decide +kernel)
  have hcommits : ∀ c ∈ (start sample sampleUsers).commits (program sample) sampleOnSale,
      ∀ x ∈ setsStatus? c.request, ∀ item ∈ c.db.items.get x.1, item.quantity ≠ 0 := by
    decide +kernel
  simp only [Option.any_eq_true, decide_eq_true_eq] at hs hs'
  obtain ⟨item, hi, ha⟩ := hs
  obtain ⟨item', hi', hq⟩ := hs'
  refine ⟨s, s', item, item', hrun, hrun', hi, ha, hi', hq, (on_sale_iff hrun').1.2 ?_⟩
  refine everyCommit_of_commits hrun' ?_
  rintro c hc L i u status item hreq hi hq
  exact absurd hq (hcommits c hc (i, status) (by rw [hreq]; rfl) item hi)

/-- The only unit of an item is sold, then the seller puts the item on sale. -/
def sampleRelisted : List (AppAction sample) :=
  sampleCompleted ++ perform 3 5 sampleRelist

/-- A seller can put an item without stock on sale. -/
theorem on_sale_counterexample : ∃ s, runs sample sampleUsers sampleRelisted = some s ∧
    ¬ Buyable s.db ∧ ¬ SoldOut (· = .sold) s.db := by
  obtain ⟨s, hrun, hs⟩ : ∃ s, runs sample sampleUsers sampleRelisted = some s ∧
      ((s.db.items.get 1).any fun item => item.status = .available && item.quantity = 0) = true :=
    reaches (by decide +kernel)
  simp only [Option.any_eq_true, Bool.and_eq_true, decide_eq_true_eq] at hs
  obtain ⟨item, hi, ha, hq⟩ := hs
  refine ⟨s, hrun, fun h => ?_, fun h => ?_⟩
  · have := (h 1 item hi ha).1
    omega
  · rw [h 1 item hi hq] at ha; cases ha

end Marketplace
