/-
  When the checks of an order suffice for the constraints of its table.
-/
import Marketplace.Schema
import Marketplace.Lib.Constraints
import Marketplace.Proof.Agreement

namespace Marketplace

open ReadCommitted OrdersService

variable {cfg : Config} {d : Database} {n : ℤ} {r : Order}

/-- A new row of the table `orders` satisfies its constraints. -/
structure OrdersRow (d : Database) (n : ℤ) (r : Order) : Prop where
  /-- `integer` with CHECK `quantity > 0` -/
  quantity : 0 < r.quantity ∧ r.quantity < 2 ^ 31
  /-- `numeric(12,2)` with CHECK `total_amount >= 0`, in cents -/
  totalAmount : 0 ≤ r.totalAmount ∧ r.totalAmount < 10 ^ 12
  buyerId : r.buyerId.length ≤ 50 ∧ (d.users.get r.buyerId).isSome
  sellerId : r.sellerId.length ≤ 50 ∧ (d.users.get r.sellerId).isSome
  itemId : (d.items.get r.itemId).isSome
  buyer_not_seller : r.buyerId ≠ r.sellerId
  primaryKey : d.orders.get n = none
  item_pending : r.status = .pending → NoPending r.itemId d

theorem any_pending {i : ℤ} :
    (d.orders.rows.any fun x => x.2.itemId = i && x.2.status = .pending) = true ↔
      ¬ NoPending i d := by
  simp only [List.any_eq_true, Bool.and_eq_true, decide_eq_true_eq, NoPending, not_forall,
    not_not, Prod.exists, Table.mem_rows]
  constructor
  · rintro ⟨o, r, ho, hi, hp⟩
    exact ⟨o, r, ho, hi, hp⟩
  · rintro ⟨o, r, ho, hi, hp⟩
    exact ⟨o, r, ho, hi, hp⟩

theorem ordersViolation_eq_none : ordersViolation d n r = none ↔ OrdersRow d n r := by
  unfold ordersViolation
  split_ifs with hnum hlen hcheck hunique hfk
  · refine iff_of_false not_false fun h => ?_
    have hq := h.quantity
    have ht := h.totalAmount
    omega
  · refine iff_of_false not_false fun h => ?_
    have hb := h.buyerId.1
    have hs := h.sellerId.1
    omega
  · refine iff_of_false not_false fun h => ?_
    rcases hcheck with hq | ht | hb
    · exact absurd h.quantity.1 (Int.not_lt.2 hq)
    · exact absurd h.totalAmount.1 (Int.not_le.2 ht)
    · exact h.buyer_not_seller hb
  · refine iff_of_false not_false fun h => ?_
    rcases hunique with hn | ⟨hp, hany⟩
    · exact hn h.primaryKey
    · exact any_pending.1 hany (h.item_pending hp)
  · refine iff_of_false not_false fun h => ?_
    rcases hfk with hi | hb | hs
    · exact absurd hi (Option.isSome_iff_ne_none.1 h.itemId)
    · exact absurd hb (Option.isSome_iff_ne_none.1 h.buyerId.2)
    · exact absurd hs (Option.isSome_iff_ne_none.1 h.sellerId.2)
  · simp only [not_or, not_and, not_not] at hnum hlen hcheck hunique hfk
    refine iff_of_true rfl ⟨by omega, by omega, ⟨by omega, ?_⟩, ⟨by omega, ?_⟩, ?_, hcheck.2.2,
      hunique.1, fun hp => not_not.1 (mt any_pending.2 (hunique.2 hp))⟩
    · exact Option.isSome_iff_ne_none.2 hfk.2.1
    · exact Option.isSome_iff_ne_none.2 hfk.2.2
    · exact Option.isSome_iff_ne_none.2 hfk.1

/-- The transaction of an order that passes the checks: it inserts the order, if the database takes
    it, and reserves the item. -/
theorem createTx_checked {seq : Serial → ℕ} {buyerId : String} {dto : CreateOrderDto} {item : Item}
    (now : ℕ) (hi : d.items.get dto.itemId = some item) (hown : item.sellerId ≠ buyerId)
    (ha : item.status = .available) (hstock : dto.quantity.getD 1 ≤ item.quantity) :
    (createTx buyerId dto).checked violation d now [] seq =
      match ordersViolation d (seq .orders)
        (newOrder buyerId dto.itemId item (dto.quantity.getD 1) now) with
      | some f => .error (.db f)
      | none => .ok ((seq .orders : ℤ),
          [⟨.order (seq .orders), newOrder buyerId dto.itemId item (dto.quantity.getD 1) now⟩,
            ⟨.item dto.itemId, { item with status := .reserved }⟩]) := by
  have hget : Database.get (overlay (S := market) [] d) (.item dto.itemId) = some item := hi
  have hle : ¬ dto.quantity.getD 1 > item.quantity := Int.not_lt.2 hstock
  unfold createTx
  simp only [Tx.checked, hget]
  rw [if_neg hown, if_neg (not_not.2 ha), if_neg hle]
  simp only [Tx.checked]
  have hcheck : violation (overlay (S := market) [] d) ⟨market.serial .orders (seq .orders),
      newOrder buyerId dto.itemId item (dto.quantity.getD 1) now⟩ =
      ordersViolation d (seq .orders)
        (newOrder buyerId dto.itemId item (dto.quantity.getD 1) now) := rfl
  rw [hcheck]
  cases ordersViolation d (seq .orders)
      (newOrder buyerId dto.itemId item (dto.quantity.getD 1) now) with
  | some f => rfl
  | none =>
    have hget' : Database.get (overlay (S := market) [⟨market.serial .orders (seq .orders),
        newOrder buyerId dto.itemId item (dto.quantity.getD 1) now⟩] d) (.item dto.itemId) =
        some item := hi
    simp only [List.nil_append, hget']
    rfl

/-! ## Runs -/

/-- The price of an item that `CreateItemDto` admits fits `numeric(12,2)`. -/
theorem resolvePrice_range {dto : CreateItemDto cfg} {price : ℤ}
    (h : ItemsService.resolvePrice dto.itemType dto.price = .ok price) :
    0 ≤ price ∧ price ≤ 999999999999 := by
  unfold ItemsService.resolvePrice at h
  split_ifs at h with hfree hzero
  · cases h; exact ⟨le_rfl, by decide⟩
  · cases hp : dto.price with
    | undefined => rw [hp] at h; cases h
    | null => rw [hp] at h; cases h
    | value p =>
      rw [hp] at h
      simp only at h
      split_ifs at h
      cases h
      exact dto.price_ok _ hp

section
variable {users : Table String User} {acts : List (AppAction cfg)} {s : AppState cfg}

theorem runs_employees (hrun : runs cfg users acts = some s) {u : String}
    (h : (users.get u).isSome) : (s.db.users.get u).isSome :=
  runs_always (I := fun d => (d.users.get u).isSome) h (fun _ _ _ _ _ he hu => he.user_kept hu) hrun

theorem runs_prices (hrun : runs cfg users acts = some s) {i : ℤ} {item : Item}
    (hi : s.db.items.get i = some item) : 0 ≤ item.price ∧ item.price ≤ 999999999999 := by
  let I (d : Database) : Prop := ∀ i item, d.items.get i = some item →
    0 ≤ item.price ∧ item.price ≤ 999999999999
  have hI : I s.db := by
    refine runs_always (I := I) (fun i item h => by simp [Database.migrated] at h) ?_ hrun
    intro q e L d d' he hI
    exact he.forall_items hI (fun _ _ _ _ _ hprice => resolvePrice_range hprice) fun _ _ _ h => h
  exact hI i item hi

theorem runs_items (hsellers : ∀ sellerId dto, .submit (.createItem sellerId dto) ∈ acts →
      (users.get sellerId).isSome) (hrun : runs cfg users acts = some s) {i : ℤ} {item : Item}
    (hi : s.db.items.get i = some item) :
    (0 ≤ item.price ∧ item.price ≤ 999999999999) ∧ (users.get item.sellerId).isSome := by
  have h : Throughout cfg users acts fun d => ∀ i item, d.items.get i = some item →
      (users.get item.sellerId).isSome := by
    refine throughout_of_commits (C := fun q _ _ => .submit q ∈ acts)
      (fun i item h => by simp [Database.migrated] at h) ?_ ?_
    · intro as j bs s q st hacts hs hj _
      rw [hacts]
      exact List.mem_append_left _ (submitted hs hj)
    · intro as s q e L d' _ hq he hI
      refine he.forall_items hI (fun sellerId dto price now hcreate _ => ?_) fun _ _ _ h => h
      subst hcreate
      exact hsellers sellerId dto hq
  exact ⟨runs_prices hrun hi, h acts [] s (by simp) hrun i item hi⟩

/-- **When the checks of an order suffice.**  An order that passes the checks of `create`, in any
    reachable state, is committed and satisfies the constraints of its table if and only if its
    total fits `numeric(12,2)`. -/
theorem create_commits_iff (hsellers : ∀ sellerId dto, .submit (.createItem sellerId dto) ∈ acts →
      (users.get sellerId).isSome)
    (hids : ∀ u, (users.get u).isSome → u.length ≤ 50)
    (hrun : runs cfg users acts = some s) {buyerId : String} {dto : CreateOrderDto} {item : Item}
    (hbuyer : (users.get buyerId).isSome) (hi : s.db.items.get dto.itemId = some item)
    (hown : item.sellerId ≠ buyerId) (ha : item.status = .available)
    (hstock : dto.quantity.getD 1 ≤ item.quantity) (now : ℕ) :
    (∃ orderId r writes,
      (createTx buyerId dto).checked violation s.db now [] s.seq = .ok (orderId, writes) ∧
        ⟨.order orderId, r⟩ ∈ writes ∧ OrdersRow s.db orderId r) ↔
      item.price * dto.quantity.getD 1 < 10 ^ 12 := by
  obtain ⟨⟨hprice, -⟩, hseller⟩ := runs_items hsellers hrun hi
  have hag := runs_agreement hrun
  obtain ⟨hone, hmax⟩ := dto.quantity_bounds
  -- every constraint but the size of the total follows from the checks
  have hrow : OrdersRow s.db (s.seq .orders)
      (newOrder buyerId dto.itemId item (dto.quantity.getD 1) now) ↔
      item.price * dto.quantity.getD 1 < 10 ^ 12 := by
    constructor
    · exact fun h => h.totalAmount.2
    · intro htotal
      exact
        { quantity := ⟨hone, lt_of_le_of_lt hmax (by decide)⟩
          totalAmount := ⟨Int.mul_nonneg hprice (le_trans (by decide) hone), htotal⟩
          buyerId := ⟨hids _ hbuyer, runs_employees hrun hbuyer⟩
          sellerId := ⟨hids _ hseller, runs_employees hrun hseller⟩
          itemId := Option.isSome_iff_exists.2 ⟨item, hi⟩
          buyer_not_seller := Ne.symm hown
          primaryKey := by
            obtain ⟨h, hs⟩ := runs_sim_any hrun
            exact (hs.fresh .orders (s.seq .orders) le_rfl).1
          item_pending := fun _ o r ho hri hp => by
            have hri : r.itemId = dto.itemId := hri
            have hres := (hag.covered ho hp (hri ▸ hi)).1
            rw [ha] at hres; cases hres }
  rw [createTx_checked now hi hown ha hstock, ← hrow]
  constructor
  · rintro ⟨orderId, r, writes, hok, hmem, hr⟩
    refine ordersViolation_eq_none.1 ?_
    split at hok
    · cases hok
    · assumption
  · intro h
    rw [ordersViolation_eq_none.2 h]
    exact ⟨_, _, _, rfl, List.mem_cons_self, h⟩

end

/-- Two units of an item at the highest price. -/
def sampleDear : CreateItemDto sample :=
  { sampleItem 2 (by decide) with
    price := .value 999999999999
    price_ok := by rintro p ⟨⟩; decide }

def sampleDearOrder (n : ℤ) (h : 1 ≤ n ∧ n ≤ 100) : CreateOrderDto :=
  ⟨1, some n, sampleOrder.itemId_min, by rintro m ⟨⟩; exact h⟩

theorem sampleDear_listed : ∃ (s : AppState sample) (item : Item),
    runs sample sampleUsers (perform 0 6 (.createItem "EMP00101" sampleDear)) = some s ∧
    s.db.items.get 1 = some item ∧ item.sellerId = "EMP00101" ∧ item.status = .available ∧
    item.quantity = 2 ∧ item.price = 999999999999 := by
  obtain ⟨s, hrun, hs⟩ : ∃ s, runs sample sampleUsers
        (perform 0 6 (.createItem "EMP00101" sampleDear)) = some s ∧
      ((s.db.items.get 1).any fun item => item.sellerId = "EMP00101" && item.status = .available &&
        item.quantity = 2 && item.price = 999999999999) = true := reaches (by decide +kernel)
  simp only [Option.any_eq_true, Bool.and_eq_true, decide_eq_true_eq] at hs
  obtain ⟨item, hi, ⟨⟨hseller, ha⟩, hq⟩, hp⟩ := hs
  exact ⟨s, item, hrun, hi, hseller, ha, hq, hp⟩

/-- One unit at the highest price can be ordered. -/
theorem create_commits_sample : ∃ s : AppState sample,
    runs sample sampleUsers (perform 0 6 (.createItem "EMP00101" sampleDear)) = some s ∧
    ∃ orderId r writes, (createTx "EMP00102" (sampleDearOrder 1 (by decide))).checked violation s.db
        0 [] s.seq = .ok (orderId, writes) ∧
      ⟨.order orderId, r⟩ ∈ writes ∧ OrdersRow s.db orderId r := by
  obtain ⟨s, item, hrun, hi, hseller, ha, hq, hp⟩ := sampleDear_listed
  refine ⟨s, hrun, (create_commits_iff ?_ ?_ hrun (by decide) hi (by rw [hseller]; decide) ha
    (by rw [hq]; decide) 0).2 (by rw [hp]; decide)⟩
  · intro sellerId dto h
    simp only [perform, List.mem_cons, Action.submit.injEq, Request.createItem.injEq,
      List.mem_replicate, reduceCtorEq, and_false, or_false] at h
    rw [h.1]
    decide
  · intro u hu
    simp only [sampleUsers, Table.get_put_eq] at hu
    split_ifs at hu with h₂ h₁
    · rw [h₂]; decide
    · rw [h₁]; decide
    · simp at hu

/-- Two units at the highest price pass the checks, but not the database. -/
theorem create_commits_counterexample : ∃ (s : AppState sample) (item : Item),
    runs sample sampleUsers (perform 0 6 (.createItem "EMP00101" sampleDear)) = some s ∧
    s.db.items.get 1 = some item ∧ item.sellerId ≠ "EMP00102" ∧ item.status = .available ∧
    2 ≤ item.quantity ∧
    (createTx "EMP00102" (sampleDearOrder 2 (by decide))).checked violation s.db 0 [] s.seq =
      .error (.db ⟨some "22003"⟩) := by
  obtain ⟨s, item, hrun, hi, hseller, ha, hq, hp⟩ := sampleDear_listed
  have hown : item.sellerId ≠ "EMP00102" := by rw [hseller]; decide
  refine ⟨s, item, hrun, hi, hown, ha, hq.ge, ?_⟩
  rw [createTx_checked 0 hi hown ha (by rw [hq]; decide)]
  have hover : ordersViolation s.db (s.seq .orders)
      (newOrder "EMP00102" (sampleDearOrder 2 (by decide)).itemId item
        ((sampleDearOrder 2 (by decide)).quantity.getD 1) 0) = some ⟨some "22003"⟩ := by
    refine if_pos (Or.inr (Or.inr (Or.inr ?_)))
    simp only [newOrder, multiplyMoney, sampleDearOrder, Option.getD_some, hp]
    decide
  rw [hover]

end Marketplace
