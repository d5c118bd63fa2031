/-
  The life cycle of an order: the statuses it goes through, who moves it on,
  and what never changes.
-/
import Marketplace.Proof.Stock
import Mathlib.Data.List.Destutter

namespace Marketplace

open ReadCommitted

variable {cfg : Config} {base : Database → Prop} {q : Request cfg} {e : Event} {L : List Key}
  {d d' : Database} {users : Table String User} {acts : List (AppAction cfg)} {s s' : AppState cfg}
  {a : AppAction cfg} {o : ℤ}

/-! ## Statuses -/

/-- The committed status of an order. -/
def statusOf (o : ℤ) (s : AppState cfg) : Option OrderStatus := (s.db.orders.get o).map Order.status

/-- The committed statuses of an order in the states a run from `s` passes through. -/
def trail (o : ℤ) (s : AppState cfg) : List (AppAction cfg) → List OrderStatus
  | [] => (statusOf o s).toList
  | a :: as =>
    (statusOf o s).toList ++ ((s.step (program cfg) a).map fun s' => trail o s' as).getD []

/-- The successive committed statuses of an order in a run from `s`. -/
def statuses (o : ℤ) (s : AppState cfg) (acts : List (AppAction cfg)) : List OrderStatus :=
  (trail o s acts).destutter (· ≠ ·)

theorem statusOf_eq_some {x : OrderStatus} :
    statusOf o s = some x ↔ ∃ r, s.db.orders.get o = some r ∧ r.status = x := by
  simp [statusOf, Option.map_eq_some_iff]

theorem statusOf_resolved (hrun : runs cfg users acts = some s)
    (hstep : s.step (program cfg) a = some s')
    {x : OrderStatus} (hs : statusOf o s = some x) (hx : x ≠ .pending) :
    statusOf o s' = some x := by
  obtain ⟨r, ho, rfl⟩ := statusOf_eq_some.1 hs
  have hone : s.run (program cfg) [a] = some s' := by simp [State.run, hstep]
  exact statusOf_eq_some.2 (resolved_stays hrun hone ho hx)

theorem order_kept_step (hrun : runs cfg users acts = some s)
    (hstep : s.step (program cfg) a = some s') {r : Order} (ho : s.db.orders.get o = some r) :
    ∃ r', s'.db.orders.get o = some r' ∧ SameOrder r r' := by
  rcases step_cases hrun hstep with hdb | ⟨_, _, _, _, -, -, -, he⟩
  · exact ⟨r, by rw [hdb, ho], .refl r⟩
  · exact he.order_kept ho

theorem statusOf_pending (hrun : runs cfg users acts = some s)
    (hstep : s.step (program cfg) a = some s')
    (hs : (statusOf o s).isSome) : (statusOf o s').isSome := by
  obtain ⟨x, hx⟩ := Option.isSome_iff_exists.1 hs
  obtain ⟨r, ho, -⟩ := statusOf_eq_some.1 hx
  obtain ⟨r', ho', -⟩ := order_kept_step hrun hstep ho
  simp [statusOf, ho']

/-- An order is placed PENDING on an AVAILABLE item that covers it, and reserves the item. -/
theorem Emits.placed (he : Emits cfg base q e L d d') {r : Order} (hn : d.orders.get o = none)
    (ho : d'.orders.get o = some r) :
    r.status = .pending ∧ ∃ item, d.items.get r.itemId = some item ∧ item.status = .available ∧
      r.quantity ≤ item.quantity ∧
      d'.items.get r.itemId = some { item with status := .reserved } := by
  have put {o' : ℤ} {r₀ r₁ : Order} (h₀ : d.orders.get o' = some r₀)
      (h : (d.orders.put o' r₁).get o = some r) : False := by
    rw [Table.get_put_of_none hn h₀] at h; cases h
  rcases he.quiet with ⟨-, horders⟩ | hq
  · rw [horders, hn] at ho; cases ho
  cases he with
  | listItem | setItemStatus =>
    have ho : d.orders.get o = some r := ho
    rw [hn] at ho; cases ho
  | placeOrder hi _ ha hle =>
    rcases Table.get_put_cases ho with ⟨-, rfl⟩ | ⟨-, ho⟩
    · exact ⟨rfl, _, hi, ha, hle, Table.get_put ..⟩
    · rw [hn] at ho; cases ho
  | completeOrder _ h => exact (put h ho).elim
  | cancelOrder _ h => rw [cancelled_orders] at ho; exact (put h ho).elim
  | attachSlip _ h => exact (put h ho).elim
  | _ => cases hq

theorem statusOf_new (hrun : runs cfg users acts = some s)
    (hstep : s.step (program cfg) a = some s')
    (hs : statusOf o s = none) : statusOf o s' = none ∨ statusOf o s' = some .pending := by
  rcases step_cases hrun hstep with hdb | ⟨_, _, _, _, -, -, -, he⟩
  · left; rwa [statusOf, hdb]
  cases ho : s'.db.orders.get o with
  | none => left; simp [statusOf, ho]
  | some r =>
    have hn : s.db.orders.get o = none := by simpa [statusOf] using hs
    right; simp [statusOf, ho, (he.placed hn ho).1]

theorem trail_eq (o : ℤ) (s : AppState cfg) (acts : List (AppAction cfg)) :
    ∃ l, trail o s acts = (statusOf o s).toList ++ l := by
  cases acts with
  | nil => exact ⟨[], by simp [trail]⟩
  | cons a as => exact ⟨_, rfl⟩

theorem trail_resolved {x : OrderStatus} (hx : x ≠ .pending) (bs : List (AppAction cfg)) :
    ∀ {acts} {s : AppState cfg}, runs cfg users acts = some s → statusOf o s = some x →
      (trail o s bs).destutter' (· ≠ ·) x = [x] := by
  induction bs with
  | nil => intro acts s _ hs; simp [trail, hs]
  | cons a bs ih =>
    intro acts s hrun hs
    simp only [trail, hs, Option.toList_some, List.singleton_append]
    rw [List.destutter'_cons_neg _ (by simp)]
    cases hstep : s.step (program cfg) a with
    | none => simp
    | some s' => exact ih (runs_snoc hrun hstep) (statusOf_resolved hrun hstep hs hx)

theorem trail_pending (bs : List (AppAction cfg)) :
    ∀ {acts} {s : AppState cfg}, runs cfg users acts = some s → statusOf o s = some .pending →
      (trail o s bs).destutter' (· ≠ ·) .pending ∈
        [[.pending], [.pending, .completed], [.pending, OrderStatus.cancelled]] := by
  induction bs with
  | nil => intro acts s _ hs; simp [trail, hs]
  | cons a bs ih =>
    intro acts s hrun hs
    simp only [trail, hs, Option.toList_some, List.singleton_append]
    rw [List.destutter'_cons_neg _ (by simp)]
    cases hstep : s.step (program cfg) a with
    | none => simp
    | some s' =>
      have hrun' := runs_snoc hrun hstep
      obtain ⟨x, hx⟩ := Option.isSome_iff_exists.1
        (statusOf_pending (o := o) hrun hstep (by simp [hs]))
      by_cases hp : x = .pending
      · exact ih hrun' (hp ▸ hx)
      · -- the order has just been resolved
        have hres := trail_resolved hp bs hrun' hx
        obtain ⟨l, hl⟩ := trail_eq o s' bs
        rw [hx, Option.toList_some, List.singleton_append] at hl
        rw [hl, List.destutter'_cons_neg _ (by simp)] at hres
        simp only [Option.map_some, Option.getD_some, hl]
        rw [List.destutter'_cons_pos _ (Ne.symm hp), hres]
        cases x <;> simp_all

theorem statuses_mem (bs : List (AppAction cfg)) : ∀ {acts} {s : AppState cfg},
    runs cfg users acts = some s → statusOf o s = none ∨ statusOf o s = some .pending →
      statuses o s bs ∈ [[], [.pending], [.pending, .completed], [.pending, .cancelled]] := by
  induction bs with
  | nil => rintro acts s - (hs | hs) <;> simp [statuses, trail, hs]
  | cons a bs ih =>
    rintro acts s hrun (hs | hs)
    · simp only [statuses, trail, hs, Option.toList_none, List.nil_append]
      cases hstep : s.step (program cfg) a with
      | none => simp
      | some s' => exact ih (runs_snoc hrun hstep) (statusOf_new hrun hstep hs)
    · have h := trail_pending (a :: bs) hrun hs
      obtain ⟨l, hl⟩ := trail_eq o s (a :: bs)
      rw [hs, Option.toList_some, List.singleton_append] at hl
      rw [hl, List.destutter'_cons_neg _ (by simp)] at h
      rw [statuses, hl, List.destutter_cons']
      exact List.mem_cons_of_mem _ h

/-! ## Who resolves an order -/

theorem Emits.resolved {x : OrderStatus} (he : Emits cfg base q (.resolveOrder o x) L d d') :
    (∃ r, d.orders.get o = some r ∧ r.status = .pending) ∧
      ∃ r', d'.orders.get o = some r' ∧ r'.status = x ∧ x ≠ .pending := by
  cases he with
  | completeOrder _ ho _ _ hp => exact ⟨⟨_, ho, hp⟩, _, Table.get_put .., rfl, by simp⟩
  | cancelOrder _ ho _ _ hp =>
    refine ⟨⟨_, ho, hp⟩, ?_⟩
    rw [cancelled_orders, Table.get_put]
    exact ⟨_, rfl, rfl, by simp⟩

/-- A request of `updateStatus` resolves its order, or leaves orders and items unchanged. -/
theorem Emits.resolves_or {u : String} {dto : UpdateOrderStatusDto}
    (he : Emits cfg base (.updateOrderStatus o u dto) e L d d') :
    (d'.items = d.items ∧ d'.orders = d.orders) ∨ ∃ x, e = .resolveOrder o x := by
  rcases he.quiet with h | hq
  · exact Or.inl h
  cases he with
  | completeOrder | cancelOrder => exact Or.inr ⟨_, rfl⟩
  | _ => cases hq

/-- The status of an order is changed by its seller, or by its buyer who cancels it. -/
theorem Emits.authority (he : Emits cfg base q e L d d') {r r' : Order}
    (ho : d.orders.get o = some r)
    (ho' : d'.orders.get o = some r') (hne : r'.status ≠ r.status) :
    ∃ u dto, q = .updateOrderStatus o u dto ∧ r.status = .pending ∧ r'.status = dto.status ∧
      (r'.status = .completed → u = r.sellerId) ∧
      (r'.status = .cancelled → u = r.buyerId ∨ u = r.sellerId) := by
  rcases he.order_cases ho with h | ⟨u, dto, rfl, -, hp, hu, h⟩ | ⟨_, _, _, _, _, h⟩ <;>
    rw [ho'] at h <;> cases h
  · exact absurd rfl hne
  · refine ⟨u, dto, rfl, hp, rfl, fun hc => ?_, fun _ => ?_⟩
    · rcases hu with hu | ⟨hx, -⟩
      · exact hu.symm
      · rw [hx] at hc; cases hc
    · exact hu.symm.imp (fun h => h.2.symm) Eq.symm
  · exact absurd rfl hne

variable (cfg users acts) in
/-- In a step of session `j` the order stops being PENDING. -/
def Resolves (o : ℤ) (j : ℕ) : Prop :=
  ∃ as bs s₀ s₁ x, acts = as ++ .exec j :: bs ∧ runs cfg users as = some s₀ ∧
    s₀.step (program cfg) (.exec j) = some s₁ ∧ statusOf o s₀ = some .pending ∧
    statusOf o s₁ = some x ∧ x ≠ .pending

theorem resolves_of_emits {as bs : List (AppAction cfg)} {s₀ s₁ : AppState cfg} {j : ℕ}
    {x : OrderStatus} (hacts : acts = as ++ .exec j :: bs) (hs₀ : runs cfg users as = some s₀)
    (hstep : s₀.step (program cfg) (.exec j) = some s₁)
    (he : Emits cfg base q (.resolveOrder o x) L s₀.db s₁.db) : Resolves cfg users acts o j := by
  obtain ⟨hp, r', ho', hx, hne⟩ := he.resolved
  exact ⟨as, bs, s₀, s₁, x, hacts, hs₀, hstep, statusOf_eq_some.2 hp,
    statusOf_eq_some.2 ⟨r', ho', hx⟩,
    hne⟩

theorem not_pending_later {as cs : List (AppAction cfg)} {s₀ s₁ s₂ : AppState cfg} {x : OrderStatus}
    (hs₀ : runs cfg users as = some s₀) (hstep : s₀.step (program cfg) a = some s₁)
    (hx : statusOf o s₁ = some x) (hne : x ≠ .pending)
    (hs₂ : runs cfg users (as ++ a :: cs) = some s₂) :
    statusOf o s₂ ≠ some .pending := by
  have hs₁ := runs_snoc hs₀ hstep
  rw [← List.singleton_append, ← List.append_assoc, runs_append, hs₁, Option.bind_some] at hs₂
  obtain ⟨r, ho, rfl⟩ := statusOf_eq_some.1 hx
  rw [statusOf_eq_some.2 (resolved_stays hs₁ hs₂ ho hne)]
  simpa using hne

/-- **At most one session resolves an order.** -/
theorem Resolves.unique {j j' : ℕ} (h : Resolves cfg users acts o j)
    (h' : Resolves cfg users acts o j') :
    j = j' := by
  obtain ⟨as, bs, s₀, s₁, x, rfl, hs₀, hstep, hp, hx, hne⟩ := h
  obtain ⟨as', bs', s₀', s₁', x', hacts, hs₀', hstep', hp', hx', hne'⟩ := h'
  rcases List.append_eq_append_iff.1 hacts with ⟨c, rfl, hc⟩ | ⟨c, rfl, hc⟩ <;>
    rcases c with _ | ⟨a, c⟩ <;> simp only [List.nil_append, List.cons_append, List.cons.injEq] at hc
  · exact Action.exec.inj hc.1
  · rw [← hc.1] at hs₀'
    exact absurd hp' (not_pending_later hs₀ hstep hx hne hs₀')
  · exact (Action.exec.inj hc.1).symm
  · rw [← hc.1] at hs₀
    exact absurd hp (not_pending_later hs₀' hstep' hx' hne' hs₀)

theorem resolves_of_reply (hrun : runs cfg users acts = some s) {j : ℕ} {u : String}
    {dto : UpdateOrderStatusDto} {st : Stage market} {r : Response}
    (hj : s.sessions[j]? = some (.updateOrderStatus o u dto, st)) (hr : st.reply? = some (.ok r)) :
    Resolves cfg users acts o j := by
  obtain ⟨h, hs, hev⟩ := runs_sim (.any : Regime cfg) trivial (fun _ _ => trivial) hrun
  have hlog : .emit (.resolveOrder o dto.status) ∈ h.of j := by
    obtain ⟨o', e, rest, hlog, ⟨rfl, rfl⟩, -⟩ : OrderLog _ _ := hs.replies hj hr
    rw [hlog]; exact List.mem_cons_self
  obtain ⟨q, hm⟩ := Spec.History.mem_of.1 hlog
  obtain ⟨as, bs, s₀, s₁, st', hacts, hs₀, hstep, -, he⟩ := hev _ _ _ hm
  exact resolves_of_emits hacts hs₀ hstep he

theorem resolves_of_step {as bs : List (AppAction cfg)} {s₀ s₁ : AppState cfg} {j : ℕ} {u : String}
    {dto : UpdateOrderStatusDto} {st : Stage market} (hacts : acts = as ++ .exec j :: bs)
    (hs₀ : runs cfg users as = some s₀) (hstep : s₀.step (program cfg) (.exec j) = some s₁)
    (hj : s₀.sessions[j]? = some (.updateOrderStatus o u dto, st)) :
    (s₁.db.items = s₀.db.items ∧ s₁.db.orders = s₀.db.orders) ∨ Resolves cfg users acts o j := by
  rcases step_cases hs₀ hstep with hdb | ⟨i, q, st', e, ha, hi, -, he⟩
  · exact Or.inl (by rw [hdb]; exact ⟨rfl, rfl⟩)
  cases ha
  rw [hj] at hi; cases hi
  rcases he.resolves_or with h | ⟨x, rfl⟩
  · exact Or.inl h
  · exact Or.inr (resolves_of_emits hacts hs₀ hstep he)

/-- **The life cycle of an order**: its successive statuses; who changes them; of the requests of
    `updateStatus` on it all but one fail and change no order and no item; and the columns that
    never change. -/
theorem order_life_cycle (hrun : runs cfg users acts = some s) (o : ℤ) :
    statuses o (start cfg users) acts ∈
        [[], [.pending], [.pending, .completed], [.pending, .cancelled]] ∧
    (∀ as a bs s₀ s₁ r r', acts = as ++ a :: bs → runs cfg users as = some s₀ →
      s₀.step (program cfg) a = some s₁ → s₀.db.orders.get o = some r →
        s₁.db.orders.get o = some r' →
      r'.status ≠ r.status → ∃ j u dto st, a = .exec j ∧
        s₀.sessions[j]? = some (.updateOrderStatus o u dto, st) ∧ r.status = .pending ∧
        r'.status = dto.status ∧ (r'.status = .completed → u = r.sellerId) ∧
        (r'.status = .cancelled → u = r.buyerId ∨ u = r.sellerId)) ∧
    (∃ winner, ∀ j ≠ winner,
      (∀ u dto st reply, s.sessions[j]? = some (.updateOrderStatus o u dto, st) →
        st.reply? = some reply → ∃ thrown, reply = .error thrown) ∧
      ∀ as bs s₀ s₁ u dto st, acts = as ++ .exec j :: bs → runs cfg users as = some s₀ →
        s₀.step (program cfg) (.exec j) = some s₁ →
        s₀.sessions[j]? = some (.updateOrderStatus o u dto, st) →
        s₁.db.items = s₀.db.items ∧ s₁.db.orders = s₀.db.orders) ∧
    Between cfg users acts fun d d' => ∀ r, d.orders.get o = some r →
      ∃ r', d'.orders.get o = some r' ∧ SameOrder r r' := by
  have hstart : runs cfg users [] = some (start cfg users) := rfl
  refine ⟨statuses_mem acts hstart (Or.inl rfl), ?_, ?_, ?_⟩
  · intro as a bs s₀ s₁ r r' _ hs₀ hstep ho ho' hne
    rcases step_cases hs₀ hstep with hdb | ⟨j, q, st, e, rfl, hj, -, he⟩
    · rw [hdb, ho] at ho'; cases ho'; exact absurd rfl hne
    · obtain ⟨u, dto, rfl, h⟩ := he.authority ho ho' hne
      exact ⟨j, u, dto, st, rfl, hj, h⟩
  · -- the winner is the session that resolves the order, if there is one
    obtain ⟨w, hw⟩ : ∃ w, ∀ j, Resolves cfg users acts o j → j = w := by
      by_cases h : ∃ j, Resolves cfg users acts o j
      · exact ⟨h.choose, fun j hj => hj.unique h.choose_spec⟩
      · exact ⟨0, fun j hj => absurd ⟨j, hj⟩ h⟩
    refine ⟨w, fun j hne => ⟨fun u dto st reply hj hr => ?_,
      fun as bs s₀ s₁ u dto st hacts hs₀ hstep hj => ?_⟩⟩
    · cases reply with
      | error thrown => exact ⟨thrown, rfl⟩
      | ok r => exact absurd (hw j (resolves_of_reply hrun hj hr)) hne
    · rcases resolves_of_step hacts hs₀ hstep hj with h | h
      · exact h
      · exact absurd (hw j h) hne
  · refine between_of_commits (C := fun _ _ _ => True) (fun d r h => ⟨r, h, .refl r⟩) ?_
      (fun _ _ _ _ _ _ _ _ _ _ => trivial) fun as s q e L d' _ _ he r h => he.order_kept h
    intro a b c h h' r hr
    obtain ⟨r₁, hr₁, hs₁⟩ := h r hr
    obtain ⟨r₂, hr₂, hs₂⟩ := h' r₁ hr₁
    exact ⟨r₂, hr₂, hs₁.trans hs₂⟩

/-! ## A race -/

/-- The seller completes the order, and the buyer cancels it. -/
def sampleCancel : Request sample := .updateOrderStatus 1 "EMP00102" ⟨.cancelled, Or.inr rfl⟩

/-- Both requests read the order before the first takes effect. -/
def sampleRace : List (AppAction sample) :=
  sampleOrdered ++ perform 2 2 sampleComplete ++ perform 3 2 sampleCancel ++
    List.replicate 5 (.exec 2) ++ List.replicate 3 (.exec 3)

/-- The order is COMPLETED when both have run. -/
theorem order_life_cycle_sample : ∃ s, runs sample sampleUsers sampleRace = some s ∧
    statusOf 1 s = some .completed ∧
    statuses 1 (start sample sampleUsers) sampleRace ∈
      [[], [.pending], [.pending, .completed], [.pending, .cancelled]] := by
  obtain ⟨s, hrun, hs⟩ : ∃ s, runs sample sampleUsers sampleRace = some s ∧
      (statusOf 1 s = some .completed : Bool) = true := reaches (by decide +kernel)
  exact ⟨s, hrun, by simpa using hs, (order_life_cycle hrun 1).1⟩

end Marketplace
