/-
  Tables with a primary key: finite maps whose rows can be listed and summed.

  The carrier is Mathlib's `AList`, so the uniqueness of the keys is part of
  the type.  Storage order carries no meaning: two tables that agree on the
  rows a query selects return them up to a permutation (`filter_perm`).
-/
import Mathlib.Data.List.AList
import Mathlib.Algebra.BigOperators.Group.List.Basic

/-- A table: rows of type `ρ` under a primary key of type `κ`. -/
structure Table (κ ρ : Type) where
  map : AList fun _ : κ => ρ

namespace Table

variable {κ ρ : Type}

/-- The table without rows. -/
def empty : Table κ ρ := ⟨∅⟩

/-- The rows with their keys, in storage order. -/
def rows (t : Table κ ρ) : List (κ × ρ) := t.map.entries.map fun e => (e.1, e.2)

theorem nodup_fst (t : Table κ ρ) : (t.rows.map Prod.fst).Nodup := by
  have h : t.rows.map Prod.fst = t.map.keys := by
    simp [rows, AList.keys, List.keys, Function.comp_def]
  rw [h]; exact t.map.keys_nodup

theorem nodup_rows (t : Table κ ρ) : t.rows.Nodup := t.nodup_fst.of_map _

variable [DecidableEq κ]

/-- The row under a key. -/
def get (t : Table κ ρ) (k : κ) : Option ρ := t.map.lookup k

/-- Insert a row, or replace the one under the same key. -/
def put (t : Table κ ρ) (k : κ) (r : ρ) : Table κ ρ := ⟨t.map.insert k r⟩

@[simp] theorem get_empty (k : κ) : (empty : Table κ ρ).get k = none := AList.lookup_empty k

@[simp] theorem get_put (t : Table κ ρ) (k : κ) (r : ρ) : (t.put k r).get k = some r :=
  AList.lookup_insert t.map

@[simp] theorem get_put_ne (t : Table κ ρ) {k k' : κ} (r : ρ) (h : k' ≠ k) :
    (t.put k r).get k' = t.get k' := AList.lookup_insert_ne h

theorem get_put_eq (t : Table κ ρ) (k : κ) (r : ρ) (k' : κ) :
    (t.put k r).get k' = if k' = k then some r else t.get k' := by
  split_ifs with h
  · rw [h, get_put]
  · rw [get_put_ne _ _ h]

theorem get_put_cases {t : Table κ ρ} {k k' : κ} {r r' : ρ} (h : (t.put k r).get k' = some r') :
    (k' = k ∧ r' = r) ∨ (k' ≠ k ∧ t.get k' = some r') := by
  rw [get_put_eq] at h
  split_ifs at h with hk
  · cases h; exact Or.inl ⟨hk, rfl⟩
  · exact Or.inr ⟨hk, h⟩

theorem get_put_of_none {t : Table κ ρ} {k k' : κ} {r₀ r : ρ} (hk : t.get k = none)
    (hk' : t.get k' = some r₀) : (t.put k' r).get k = none := by
  have hne : k ≠ k' := by rintro rfl; rw [hk] at hk'; cases hk'
  rw [get_put_ne _ _ hne, hk]

theorem forall_put {t : Table κ ρ} {P : κ → ρ → Prop} {k : κ} {r : ρ} (hr : P k r)
    (h : ∀ k' r', t.get k' = some r' → P k' r') (k' : κ) (r' : ρ)
    (hget : (t.put k r).get k' = some r') : P k' r' := by
  rcases get_put_cases hget with ⟨rfl, rfl⟩ | ⟨-, hget⟩
  · exact hr
  · exact h k' r' hget

theorem mem_rows {t : Table κ ρ} {k : κ} {r : ρ} : (k, r) ∈ t.rows ↔ t.get k = some r := by
  rw [get, ← Option.mem_def, AList.mem_lookup_iff]
  simp only [rows, List.mem_map, Prod.mk.injEq]
  constructor
  · rintro ⟨⟨k', r'⟩, h, rfl, rfl⟩; exact h
  · intro h; exact ⟨⟨k, r⟩, h, rfl, rfl⟩

omit [DecidableEq κ] in
theorem nodup_filter_fst (t : Table κ ρ) (p : κ × ρ → Bool) :
    ((t.rows.filter p).map Prod.fst).Nodup := (List.filter_sublist.map Prod.fst).nodup t.nodup_fst

theorem get_of_mem_filter {t : Table κ ρ} {p : κ × ρ → Bool} {k : κ}
    (h : k ∈ (t.rows.filter p).map Prod.fst) : ∃ r, t.get k = some r ∧ p (k, r) = true := by
  obtain ⟨⟨_, r⟩, hr, rfl⟩ := List.mem_map.1 h
  obtain ⟨hr, hp⟩ := List.mem_filter.1 hr
  exact ⟨r, mem_rows.1 hr, hp⟩

theorem rows_put (t : Table κ ρ) (k : κ) (r : ρ) :
    (t.put k r).rows = (k, r) :: t.rows.filter fun e => e.1 ≠ k := by
  simp only [rows, put, AList.entries_insert, List.map_cons, List.cons.injEq, true_and]
  have h := t.map.nodupKeys
  generalize t.map.entries = l at h
  induction l with
  | nil => rfl
  | cons e l ih =>
    obtain ⟨hn, hl⟩ := List.nodupKeys_cons.1 h
    by_cases hk : k = e.1
    · subst hk
      rw [List.kerase_cons_eq rfl, List.map_cons, List.filter_cons_of_neg (by simp),
        List.filter_eq_self.2]
      rintro ⟨k', r'⟩ hm
      obtain ⟨e', he', heq⟩ := List.mem_map.1 hm
      simp only [decide_eq_true_eq]
      rintro rfl
      exact hn (List.mem_map.2 ⟨e', he', congrArg Prod.fst heq⟩)
    · rw [List.kerase_cons_ne hk, List.map_cons, List.map_cons,
        List.filter_cons_of_pos (by simpa using Ne.symm hk), ih hl]

theorem rows_put_new {t : Table κ ρ} {k : κ} (h : t.get k = none) (r : ρ) :
    (t.put k r).rows = (k, r) :: t.rows := by
  rw [rows_put, List.filter_eq_self.2]
  rintro ⟨k', r'⟩ hm
  have := mem_rows.1 hm
  simp only [decide_eq_true_eq]
  rintro rfl
  rw [h] at this; cases this

/-! ## Totals -/

section
variable {M : Type} [AddCommMonoid M]

omit [DecidableEq κ] in
/-- The sum of a quantity over the rows. -/
def total (f : κ → ρ → M) (t : Table κ ρ) : M := (t.rows.map fun e => f e.1 e.2).sum

theorem total_eq_zero {t : Table κ ρ} {f : κ → ρ → M} (h : ∀ k r, t.get k = some r → f k r = 0) :
    total f t = 0 := by
  refine List.sum_eq_zero fun x hx => ?_
  obtain ⟨⟨k, r⟩, he, rfl⟩ := List.mem_map.1 hx
  exact h k r (mem_rows.1 he)

omit [DecidableEq κ] in
theorem length_filter (t : Table κ ρ) (p : ρ → Bool) :
    (t.rows.filter fun e => p e.2).length = total (fun _ r => if p r then 1 else 0) t := by
  unfold total
  induction t.rows with
  | nil => rfl
  | cons e l ih => cases hp : p e.2 <;> simp [hp, ih, Nat.add_comm]

theorem total_put_new {t : Table κ ρ} {k : κ} (h : t.get k = none) (f : κ → ρ → M) (r : ρ) :
    total f (t.put k r) = f k r + total f t := by
  simp [total, rows_put_new h]

private theorem sum_filter_ne {l : List (κ × ρ)} {k : κ} {r : ρ} (hn : (l.map Prod.fst).Nodup)
    (hm : (k, r) ∈ l) (f : κ → ρ → M) :
    f k r + ((l.filter fun e => e.1 ≠ k).map fun e => f e.1 e.2).sum =
      (l.map fun e => f e.1 e.2).sum := by
  induction l with
  | nil => simp at hm
  | cons e l ih =>
    rw [List.map_cons] at hn
    obtain ⟨hn, hl⟩ := List.nodup_cons.1 hn
    rcases List.mem_cons.1 hm with rfl | hm
    · rw [List.filter_cons_of_neg (by simp), List.filter_eq_self.2]
      · simp
      · intro e he
        simp only [decide_eq_true_eq]
        intro hk; exact hn (List.mem_map.2 ⟨e, he, hk⟩)
    · have hk : e.1 ≠ k := by rintro rfl; exact hn (List.mem_map.2 ⟨_, hm, rfl⟩)
      rw [List.filter_cons_of_pos (by simpa using hk)]
      have := ih hl hm
      simp only [List.map_cons, List.sum_cons] at this ⊢
      rw [add_left_comm, this]

/-- Replacing the row under `k` exchanges its contribution to the total. -/
theorem total_put {t : Table κ ρ} {k : κ} {r₀ : ρ} (h : t.get k = some r₀) (f : κ → ρ → M)
    (r : ρ) : total f (t.put k r) + f k r₀ = total f t + f k r := by
  have := sum_filter_ne t.nodup_fst (mem_rows.2 h) f
  simp only [total, rows_put, List.map_cons, List.sum_cons]
  rw [← this, add_comm (f k r₀), add_assoc, add_comm (f k r)]

end

/-! ## Selections that agree -/

/-- Two tables that agree on the rows a selection takes from either return them up to storage
    order. -/
theorem filter_perm {t t' : Table κ ρ} (p : κ → ρ → Bool)
    (h : ∀ k r, p k r = true → (t.get k = some r ↔ t'.get k = some r)) :
    (t.rows.filter fun e => p e.1 e.2).Perm (t'.rows.filter fun e => p e.1 e.2) := by
  rw [List.perm_ext_iff_of_nodup (t.nodup_rows.filter _) (t'.nodup_rows.filter _)]
  rintro ⟨k, r⟩
  simp only [List.mem_filter, mem_rows]
  exact and_congr_left fun hp => h k r hp

theorem mem_filter_fst {t : Table κ ρ} {p : ρ → Bool} {k : κ} :
    k ∈ (t.rows.filter fun e => p e.2).map Prod.fst ↔ (t.get k).any p = true := by
  simp [mem_rows, Option.any_eq_true]

/-- A table has no more rows with a property than another one, if they are under keys of such rows
    there. -/
theorem length_filter_le {t t' : Table κ ρ} {p : ρ → Bool}
    (h : ∀ k, (t.get k).any p = true → (t'.get k).any p = true) :
    (t.rows.filter fun e => p e.2).length ≤ (t'.rows.filter fun e => p e.2).length := by
  have hsub := List.subperm_of_subset (t.nodup_filter_fst fun e => p e.2) fun k hk =>
    mem_filter_fst.2 (h k (mem_filter_fst.1 hk))
  simpa using hsub.length_le

theorem length_filter_congr {t t' : Table κ ρ} {p : ρ → Bool}
    (h : ∀ k, (t.get k).any p = (t'.get k).any p) :
    (t.rows.filter fun e => p e.2).length = (t'.rows.filter fun e => p e.2).length :=
  le_antisymm (length_filter_le fun k hk => h k ▸ hk) (length_filter_le fun k hk => (h k).symm ▸ hk)

end Table
