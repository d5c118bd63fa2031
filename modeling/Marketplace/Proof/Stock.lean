/-
  The stock of an item: what was listed is what is left plus what was sold.
-/
import Marketplace.Proof.Agreement

namespace Marketplace

open ReadCommitted

variable {cfg : Config} {base : Database → Prop} {q : Request cfg} {e : Event} {L : List Key}
  {d d' : Database}

/-- The units of an item an order has taken from the stock. -/
def soldBy (i : ℤ) (r : Order) : ℤ := if r.itemId = i ∧ r.status = .completed then r.quantity else 0

/-- The sum of the quantities of the COMPLETED orders of an item. -/
def sold (i : ℤ) (d : Database) : ℤ := d.orders.total fun _ r => soldBy i r

theorem soldBy_of_ne {i : ℤ} {r : Order} (h : r.status ≠ .completed) : soldBy i r = 0 :=
  if_neg fun hc => h hc.2

/-- Replacing an order exchanges what it has taken. -/
theorem total_soldBy_put {t : Table ℤ Order} {o : ℤ} {r₀ : Order} (h : t.get o = some r₀) (i : ℤ)
    (r : Order) :
    (t.put o r).total (fun _ r => soldBy i r) + soldBy i r₀ =
      t.total (fun _ r => soldBy i r) + soldBy i r :=
  Table.total_put h (fun _ r => soldBy i r) r

/-- No order takes from an item that has not been listed. -/
theorem Agreement.sold_unlisted (h : Agreement d) {i : ℤ} (hi : d.items.get i = none) :
    sold i d = 0 := by
  refine Table.total_eq_zero fun o r ho => if_neg ?_
  rintro ⟨rfl, -⟩
  obtain ⟨item, hitem, -⟩ := h.item ho
  rw [hi] at hitem; cases hitem

/-- The clamp of the completion branch does nothing: the stock covers the order. -/
theorem Agreement.clamp (h : Agreement d) {o : ℤ} {r : Order} {item : Item}
    (ho : d.orders.get o = some r) (hp : r.status = .pending)
    (hi : d.items.get r.itemId = some item) :
    max (item.quantity - r.quantity) 0 = item.quantity - r.quantity :=
  max_eq_left (by have := (h.covered ho hp hi).2; omega)

/-- **No event changes what is left plus what was sold.** -/
theorem Emits.ledger (he : Emits cfg base q e L d d') (h : Agreement d) {i : ℤ} {item : Item}
    (hi : d.items.get i = some item) :
    ∃ item', d'.items.get i = some item' ∧
      item'.quantity + sold i d' = item.quantity + sold i d := by
  rcases he.quiet with ⟨hitems, horders⟩ | hq
  · exact ⟨item, by rw [hitems, hi], by rw [sold, horders, sold]⟩
  cases he with
  | @listItem _ _ _ n _ _ _ _ _ hn =>
    have hne : i ≠ n := by rintro rfl; rw [hi] at hn; cases hn
    exact ⟨item, by simpa [Database.put, hne] using hi, rfl⟩
  | @setItemStatus i' _ _ item₀ _ _ hi₀ =>
    simp only [Database.put, Table.get_put_eq]
    split_ifs with hii
    · subst hii; rw [hi] at hi₀; cases hi₀; exact ⟨_, rfl, rfl⟩
    · exact ⟨item, hi, rfl⟩
  | @placeOrder _ _ item₀ n _ _ _ hi₀ _ _ _ hn =>
    have hsold : ∀ r : Order, r.status ≠ .completed →
        (d.orders.put n r).total (fun _ r => soldBy i r) = sold i d := fun r hr => by
      rw [Table.total_put_new hn, soldBy_of_ne hr, zero_add, sold]
    simp only [sold, Database.put, Table.get_put_eq] at hsold ⊢
    rw [hsold _ (by simp [OrdersService.newOrder])]
    split_ifs with hii
    · subst hii; rw [hi] at hi₀; cases hi₀; exact ⟨_, rfl, rfl⟩
    · exact ⟨item, hi, rfl⟩
  | @completeOrder o _ _ r item₀ _ _ _ ho hi₀ _ hp =>
    have hsold := total_soldBy_put ho i { r with status := .completed }
    rw [soldBy_of_ne (r := r) (by simp [hp])] at hsold
    have hclamp := h.clamp ho hp hi₀
    simp only [sold, Database.put, Table.get_put_eq]
    by_cases hii : i = r.itemId
    · subst hii; rw [hi] at hi₀; cases hi₀
      refine ⟨_, if_pos rfl, ?_⟩
      simp only [soldBy, and_self, if_true] at hsold ⊢
      omega
    · refine ⟨item, by rw [if_neg hii, hi], ?_⟩
      simp only [soldBy, Ne.symm hii, false_and, if_false] at hsold ⊢
      omega
  | @cancelOrder o _ _ r item₀ _ _ _ ho hi₀ _ hp =>
    have hsold := total_soldBy_put ho i { r with status := .cancelled }
    rw [soldBy_of_ne (r := r) (by simp [hp]), soldBy_of_ne (by simp)] at hsold
    simp only [sold, cancelled_orders, cancelled_items]
    split_ifs with hii
    · rw [hii.1, hi₀] at hi; cases hi; exact ⟨_, rfl, by simpa using hsold⟩
    · exact ⟨item, hi, by simpa using hsold⟩
  | @attachSlip o _ dto r _ _ _ ho =>
    have hsold := total_soldBy_put ho i { r with paymentSlipUrl := some dto.paymentSlipUrl }
    exact ⟨item, hi, by simpa [sold, Database.put, soldBy] using hsold⟩
  | _ => cases hq

theorem Emits.listed (he : Emits cfg base q e L d d') {i : ℤ} {item : Item}
    (hi : d.items.get i = none)
    (hi' : d'.items.get i = some item) :
    ∃ sellerId dto, q = .createItem sellerId dto ∧ item.quantity = dto.quantity.getD 1 ∧
      d'.orders = d.orders := by
  have old {i' : ℤ} {r₀ r₁ : Item} (h₀ : d.items.get i' = some r₀)
      (h : (d.items.put i' r₁).get i = some item) : False := by
    rw [Table.get_put_of_none hi h₀] at h; cases h
  rcases he.quiet with ⟨hitems, -⟩ | hq
  · rw [hitems, hi] at hi'; cases hi'
  cases he with
  | @listItem u dto =>
    rcases Table.get_put_cases hi' with ⟨-, rfl⟩ | ⟨-, hi'⟩
    · exact ⟨u, dto, rfl, rfl, rfl⟩
    · rw [hi] at hi'; cases hi'
  | setItemStatus h => exact (old h hi').elim
  | placeOrder h => exact (old h hi').elim
  | completeOrder _ _ h => exact (old h hi').elim
  | cancelOrder _ _ h =>
    rw [cancelled_items] at hi'
    split_ifs at hi' with hii
    · rw [hii.1, h] at hi; cases hi
    · rw [hi] at hi'; cases hi'
  | attachSlip =>
    have hi' : d.items.get i = some item := hi'
    rw [hi] at hi'; cases hi'
  | _ => cases hq

/-- The quantity of an item only changes when a PENDING order on it becomes COMPLETED. -/
theorem Emits.deducts (he : Emits cfg base q e L d d') (h : Agreement d) {i : ℤ} {item item' : Item}
    (hi : d.items.get i = some item) (hi' : d'.items.get i = some item')
    (hne : item'.quantity ≠ item.quantity) :
    ∃ o r, d.orders.get o = some r ∧ r.itemId = i ∧ r.status = .pending ∧
      d'.orders.get o = some { r with status := .completed } ∧
      item'.quantity = item.quantity - r.quantity := by
  -- an item that is written over with its quantity
  have same {i₀ : ℤ} {item₁ : Item}
      (h₁ : ∀ item₀, d.items.get i₀ = some item₀ → item₁.quantity = item₀.quantity)
      (h : (d.items.put i₀ item₁).get i = some item') : False := by
    rcases Table.get_put_cases h with ⟨rfl, rfl⟩ | ⟨-, h⟩
    · exact hne (h₁ item hi)
    · rw [hi] at h; cases h; exact hne rfl
  rcases he.quiet with ⟨hitems, -⟩ | hq
  · rw [hitems, hi] at hi'; cases hi'; exact absurd rfl hne
  cases he with
  | @completeOrder o _ _ r _ _ _ _ ho hi₀ _ hp =>
    have hclamp := h.clamp ho hp hi₀
    rcases Table.get_put_cases hi' with ⟨rfl, rfl⟩ | ⟨-, hi'⟩
    · rw [hi] at hi₀; cases hi₀
      exact ⟨o, r, ho, rfl, hp, by simp [Database.put], hclamp⟩
    · have hi' : d.items.get i = some item' := hi'
      rw [hi] at hi'; cases hi'; exact absurd rfl hne
  | cancelOrder _ _ hi₀ =>
    rw [cancelled_items] at hi'
    split_ifs at hi' with hii
    · rw [hii.1, hi₀] at hi; cases hi; cases hi'; exact absurd rfl hne
    · rw [hi] at hi'; cases hi'; exact absurd rfl hne
  | listItem _ _ hn => exact (same (fun item₀ h => by rw [hn] at h; cases h) hi').elim
  | setItemStatus hi₀ => exact (same (fun _ h => by rw [hi₀] at h; cases h; rfl) hi').elim
  | placeOrder hi₀ => exact (same (fun _ h => by rw [hi₀] at h; cases h; rfl) hi').elim
  | attachSlip =>
    have hi' : d.items.get i = some item' := hi'
    rw [hi] at hi'; cases hi'; exact absurd rfl hne
  | _ => cases hq

section
variable {users : Table String User} {acts : List (AppAction cfg)} {s : AppState cfg}

variable (cfg users acts) in
/-- In the run, a request of `ItemsService.create` lists item `i` with `n` units. -/
def ListedWith (i n : ℤ) : Prop :=
  ∃ as j bs sellerId dto st s₀ s₁ item, acts = as ++ .exec j :: bs ∧ runs cfg users as = some s₀ ∧
    s₀.sessions[j]? = some (.createItem sellerId dto, st) ∧
    s₀.step (program cfg) (.exec j) = some s₁ ∧ s₀.db.items.get i = none ∧
    s₁.db.items.get i = some item ∧ item.quantity = n ∧ dto.quantity.getD 1 = n

theorem ListedWith.snoc {i n : ℤ} (h : ListedWith cfg users acts i n) (a : AppAction cfg) :
    ListedWith cfg users (acts ++ [a]) i n := by
  obtain ⟨as, j, bs, u, dto, st, s₀, s₁, item, rfl, h⟩ := h
  exact ⟨as, j, bs ++ [a], u, dto, st, s₀, s₁, item, by simp, h⟩

/-- What an item was listed with is what is left plus what was sold. -/
theorem listedWith_of_runs (hrun : runs cfg users acts = some s) {i : ℤ} {item : Item}
    (hi : s.db.items.get i = some item) :
    ListedWith cfg users acts i (item.quantity + sold i s.db) := by
  induction acts using List.reverseRecOn generalizing s item with
  | nil => cases hrun; cases hi
  | append_singleton acts a ih =>
    obtain ⟨t, ht, hstep⟩ := State.run_snoc.1 hrun
    have hag := runs_agreement ht
    rcases step_cases ht hstep with hdb | ⟨j, q, st, e, rfl, hj, -, he⟩
    · rw [hdb] at hi ⊢; exact (ih ht hi).snoc a
    cases hit : t.db.items.get i with
    | some item₀ =>
      obtain ⟨item', hi', hledger⟩ := he.ledger hag hit
      rw [hi] at hi'; cases hi'
      rw [hledger]; exact (ih ht hit).snoc _
    | none =>
      obtain ⟨u, dto, rfl, hq, horders⟩ := he.listed hit hi
      -- no order can have been placed on an item that did not exist
      have hsold : sold i s.db = 0 := by rw [sold, horders]; exact hag.sold_unlisted hit
      rw [hsold, add_zero]
      exact ⟨acts, j, [], u, dto, st, t, s, item, rfl, ht, hj, hstep, hit, hi, rfl, hq.symm⟩

theorem resolved_stays (hrun : runs cfg users acts = some s) {bs : List (AppAction cfg)}
    {s' : AppState cfg} (hbs : s.run (program cfg) bs = some s') {o : ℤ} {r : Order}
    (ho : s.db.orders.get o = some r) (hr : r.status ≠ .pending) :
    ∃ r', s'.db.orders.get o = some r' ∧ r'.status = r.status := by
  obtain ⟨h, hs⟩ := runs_sim_any hrun
  refine hs.between (fun q _ => program_ok q)
    (R := fun d d' => ∀ r : Order, d.orders.get o = some r →
    r.status ≠ .pending → ∃ r', d'.orders.get o = some r' ∧ r'.status = r.status)
    (fun d r h _ => ⟨r, h, rfl⟩) (fun h h' r hr hp => ?_) (fun q _ e L _ d d' _ _ _ he r h hp => ?_)
    (fun _ _ => trivial) hbs r ho hr
  · obtain ⟨r₁, hr₁, hs₁⟩ := h r hr hp
    obtain ⟨r₂, hr₂, hs₂⟩ := h' r₁ hr₁ (by rwa [hs₁])
    exact ⟨r₂, hr₂, hs₂.trans hs₁⟩
  · rcases he.1.order_cases h with h' | ⟨_, _, _, _, hp', _⟩ | ⟨_, _, _, _, _, h'⟩
    · exact ⟨_, h', rfl⟩
    · exact absurd hp' hp
    · exact ⟨_, h', rfl⟩

/-- **Stock is conserved**: what an item was listed with is what is left plus what its COMPLETED
    orders took; the clamp of the completion branch never changes the value; and an order is
    deducted at most once, when it goes from PENDING to COMPLETED. -/
theorem stock_conservation (hrun : runs cfg users acts = some s) :
    (∀ i item, s.db.items.get i = some item →
      ListedWith cfg users acts i (item.quantity + sold i s.db)) ∧
    (∀ o r item, s.db.orders.get o = some r → r.status = .pending →
      s.db.items.get r.itemId = some item →
      max (item.quantity - r.quantity) 0 = item.quantity - r.quantity) ∧
    (∀ a s' i item item', s.step (program cfg) a = some s' → s.db.items.get i = some item →
      s'.db.items.get i = some item' → item'.quantity ≠ item.quantity →
      ∃ o r, s.db.orders.get o = some r ∧ r.itemId = i ∧ r.status = .pending ∧
        s'.db.orders.get o = some { r with status := .completed } ∧
        item'.quantity = item.quantity - r.quantity) ∧
    ∀ bs s' o r, s.run (program cfg) bs = some s' → s.db.orders.get o = some r →
      r.status ≠ .pending →
      ∃ r', s'.db.orders.get o = some r' ∧ r'.status = r.status := by
  have hag := runs_agreement hrun
  refine ⟨fun i item hi => listedWith_of_runs hrun hi, fun o r item ho hp hi => hag.clamp ho hp hi,
    fun a s' i item item' hstep hi hi' hne => ?_,
    fun bs s' o r hbs ho hr => resolved_stays hrun hbs ho hr⟩
  rcases step_cases hrun hstep with hdb | ⟨_, _, _, _, -, -, -, he⟩
  · rw [hdb, hi] at hi'; cases hi'; exact absurd rfl hne
  · exact he.deducts hag hi hi' hne

/-- The seller lists three units, the buyer orders one of them, and the seller completes the order. -/
def sampleSold : List (AppAction sample) :=
  perform 0 6 (.createItem "EMP00101" (sampleItem 3 (by decide))) ++
    perform 1 5 (.createOrder "EMP00102" sampleOrder) ++ perform 2 7 sampleComplete

/-- One of three units is sold. -/
theorem stock_conservation_sample : ∃ s item, runs sample sampleUsers sampleSold = some s ∧
    s.db.items.get 1 = some item ∧ item.quantity = 2 ∧
    ListedWith sample sampleUsers sampleSold 1 3 := by
  obtain ⟨s, hrun, hs⟩ : ∃ s, runs sample sampleUsers sampleSold = some s ∧
      (((s.db.items.get 1).any fun item => item.quantity = 2) && sold 1 s.db = 1) = true :=
    reaches (by decide +kernel)
  simp only [Bool.and_eq_true, Option.any_eq_true, decide_eq_true_eq] at hs
  obtain ⟨⟨item, hi, hq⟩, hsold⟩ := hs
  have h := (stock_conservation hrun).1 1 item hi
  rw [hq, hsold] at h
  exact ⟨s, item, hrun, hi, hq, h⟩

end

end Marketplace
