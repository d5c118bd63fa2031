/-
  ORDER BY and DISTINCT ON over lists of rows.

  Rows are sorted by a key in a linear order.  Where the key tells the rows
  apart, the result depends on the set of rows only (`orderBy_congr`).
-/
import Mathlib.Data.List.Sort
import Mathlib.Data.Prod.Lex
import Mathlib.Data.Int.Order.Basic

variable {α κ K : Type} [LinearOrder K]

/-- ORDER BY `key` -/
def orderBy (key : α → K) (l : List α) : List α := l.insertionSort fun a b => key a ≤ key b

/-- The first row of each group with the same key. -/
def distinctOn [DecidableEq κ] (key : α → κ) : List α → List α
  | [] => []
  | a :: l => a :: (distinctOn key l).filter fun b => key b ≠ key a

/-- ORDER BY time DESC, id DESC -/
abbrev newest {ρ : Type} (time : ρ → ℕ) (x : ℤ × ρ) : ℕᵒᵈ ×ₗ ℤᵒᵈ :=
  toLex (OrderDual.toDual (time x.2), OrderDual.toDual x.1)

theorem perm_orderBy (key : α → K) (l : List α) : (orderBy key l).Perm l :=
  List.perm_insertionSort _ l

@[simp] theorem mem_orderBy {key : α → K} {l : List α} {a : α} : a ∈ orderBy key l ↔ a ∈ l :=
  (perm_orderBy key l).mem_iff

private instance total_key (key : α → K) : Std.Total fun a b => key a ≤ key b :=
  ⟨fun _ _ => le_total _ _⟩

private instance trans_key (key : α → K) : IsTrans α fun a b => key a ≤ key b :=
  ⟨fun _ _ _ => le_trans⟩

theorem pairwise_orderBy (key : α → K) (l : List α) :
    (orderBy key l).Pairwise fun a b => key a ≤ key b :=
  List.pairwise_insertionSort _ l

/-- The result depends on the rows only, if the key tells them apart. -/
theorem orderBy_congr {key : α → K} {l l' : List α} (h : l.Perm l')
    (hk : ∀ a ∈ l, ∀ b ∈ l, key a = key b → a = b) : orderBy key l = orderBy key l' := by
  refine List.Perm.eq_of_pairwise (fun a b ha hb hab hba => ?_) (pairwise_orderBy key l)
    (pairwise_orderBy key l') ((perm_orderBy key l).trans (h.trans (perm_orderBy key l').symm))
  exact hk a (mem_orderBy.1 ha) b (h.mem_iff.2 (mem_orderBy.1 hb)) (le_antisymm hab hba)

/-- Selecting rows before or after sorting is the same. -/
theorem orderBy_filter {key : α → K} {l : List α} (hk : ∀ a ∈ l, ∀ b ∈ l, key a = key b → a = b)
    (p : α → Bool) : orderBy key (l.filter p) = (orderBy key l).filter p := by
  refine List.Perm.eq_of_pairwise (fun a b ha hb hab hba => ?_) (pairwise_orderBy key _)
    ((pairwise_orderBy key l).sublist List.filter_sublist)
    ((perm_orderBy key _).trans ((perm_orderBy key l).filter p).symm)
  exact hk a (List.mem_of_mem_filter (mem_orderBy.1 ha)) b
    (mem_orderBy.1 (List.mem_of_mem_filter hb))
    (le_antisymm hab hba)

theorem pairwise_lt_orderBy {key : α → K} {l : List α} (hl : l.Nodup)
    (hk : ∀ a ∈ l, ∀ b ∈ l, key a = key b → a = b) :
    (orderBy key l).Pairwise fun a b => key a < key b := by
  have hn : (orderBy key l).Nodup := (perm_orderBy key l).nodup_iff.2 hl
  refine (List.Pairwise.and (pairwise_orderBy key l) hn).imp_of_mem fun ha hb h => ?_
  exact lt_of_le_of_ne h.1 fun e => h.2 (hk _ (mem_orderBy.1 ha) _ (mem_orderBy.1 hb) e)

theorem newest_inj {ρ : Type} {time : ρ → ℕ} {a b : ℤ × ρ} (h : newest time a = newest time b) :
    a.1 = b.1 := by
  have := congrArg (fun k => (ofLex k).2) h
  simpa using this

theorem newest_lt {ρ : Type} {time : ρ → ℕ} {a b : ℤ × ρ} :
    newest time a < newest time b ↔ time b.2 < time a.2 ∨ time a.2 = time b.2 ∧ b.1 < a.1 := by
  simp [Prod.Lex.toLex_lt_toLex]

theorem newest_le {ρ : Type} {time : ρ → ℕ} {a b : ℤ × ρ} :
    newest time a ≤ newest time b ↔ time b.2 < time a.2 ∨ time b.2 = time a.2 ∧ b.1 ≤ a.1 := by
  simp [Prod.Lex.toLex_le_toLex, eq_comm]

theorem newest_injOn {ρ : Type} {time : ρ → ℕ} {l : List (ℤ × ρ)} (hl : (l.map Prod.fst).Nodup) :
    ∀ a ∈ l, ∀ b ∈ l, newest time a = newest time b → a = b :=
  fun _ ha _ hb h => List.inj_on_of_nodup_map hl ha hb (newest_inj h)

/-- Every row has one of its group among the first rows. -/
theorem exists_mem_distinctOn [DecidableEq κ] {key : α → κ} {l : List α} {a : α} (h : a ∈ l) :
    ∃ b ∈ distinctOn key l, key b = key a := by
  induction l with
  | nil => cases h
  | cons c l ih =>
    by_cases hk : key a = key c
    · exact ⟨c, List.mem_cons_self, hk.symm⟩
    · rcases List.mem_cons.1 h with rfl | h
      · exact absurd rfl hk
      · obtain ⟨b, hb, hba⟩ := ih h
        refine ⟨b, List.mem_cons_of_mem _ (List.mem_filter.2 ⟨hb, ?_⟩), hba⟩
        simpa [hba] using hk

section
variable [DecidableEq κ] {key : α → κ} {l : List α} {a : α}

theorem nodup_distinctOn (key : α → κ) (l : List α) : ((distinctOn key l).map key).Nodup := by
  induction l with
  | nil => exact List.nodup_nil
  | cons b l ih =>
    refine List.nodup_cons.2 ⟨fun h => ?_, (List.filter_sublist.map key).nodup ih⟩
    obtain ⟨c, hc, hk⟩ := List.mem_map.1 h
    simpa [hk] using (List.mem_filter.1 hc).2

theorem mem_distinctOn {ord : α → K} (hl : l.Pairwise fun a b => ord a < ord b) :
    a ∈ distinctOn key l ↔ a ∈ l ∧ ∀ b ∈ l, key b = key a → ord a ≤ ord b := by
  induction l with
  | nil => simp [distinctOn]
  | cons c l ih =>
    obtain ⟨hc, hl⟩ := List.pairwise_cons.1 hl
    rw [distinctOn, List.mem_cons, List.mem_filter, ih hl, List.mem_cons]
    constructor
    · rintro (rfl | ⟨⟨ha, hmin⟩, hk⟩)
      · refine ⟨Or.inl rfl, fun b hb _ => ?_⟩
        rcases List.mem_cons.1 hb with rfl | hb
        · exact le_rfl
        · exact (hc b hb).le
      · refine ⟨Or.inr ha, fun b hb hb' => ?_⟩
        rcases List.mem_cons.1 hb with rfl | hb
        · simp [hb'] at hk
        · exact hmin b hb hb'
    · rintro ⟨rfl | ha, hmin⟩
      · exact Or.inl rfl
      · refine Or.inr ⟨⟨ha, fun b hb => hmin b (List.mem_cons_of_mem _ hb)⟩, ?_⟩
        -- a row of the group of the first one comes after it
        have hne : key a ≠ key c := fun h =>
          absurd (hmin c List.mem_cons_self h.symm) (not_le.2 (hc a ha))
        simpa using hne

end
