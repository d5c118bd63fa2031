/-
  Maps that list their entries in the order in which the keys were added, as
  the `Map` of JavaScript does: setting a key that is there keeps its place.
-/
import Mathlib.Data.List.Nodup

/-- The entries of a map, the oldest first; no key occurs twice. -/
structure InsertionMap (κ ν : Type) where
  entries : List (κ × ν)
  nodup : (entries.map Prod.fst).Nodup

namespace InsertionMap

variable {κ ν : Type} [DecidableEq κ]

def empty : InsertionMap κ ν := ⟨[], List.nodup_nil⟩

/-- The value of a key. -/
def get (m : InsertionMap κ ν) (k : κ) : Option ν :=
  (m.entries.find? fun e => e.1 = k).map Prod.snd

def size (m : InsertionMap κ ν) : ℕ := m.entries.length

/-- The key that was added first. -/
def oldest (m : InsertionMap κ ν) : Option κ := m.entries.head?.map Prod.fst

/-- The map without a key. -/
def delete (m : InsertionMap κ ν) (k : κ) : InsertionMap κ ν where
  entries := m.entries.filter fun e => e.1 ≠ k
  nodup := (List.filter_sublist.map Prod.fst).nodup m.nodup

/-- The map with a value for a key, at the place of the key or at the end. -/
def set (m : InsertionMap κ ν) (k : κ) (v : ν) : InsertionMap κ ν :=
  if h : k ∈ m.entries.map Prod.fst then
    { entries := m.entries.map fun e => if e.1 = k then (k, v) else e
      nodup := by
        have hfst : (m.entries.map fun e => if e.1 = k then (k, v) else e).map Prod.fst =
            m.entries.map Prod.fst := by
          rw [List.map_map]
          refine List.map_congr_left fun e _ => ?_
          by_cases he : e.1 = k <;> simp [he]
        rw [hfst]
        exact m.nodup }
  else
    { entries := m.entries ++ [(k, v)]
      nodup := by
        rw [List.map_append]
        exact m.nodup.append (List.nodup_singleton k) (by simpa using h) }

theorem get_eq_none {m : InsertionMap κ ν} {k : κ} :
    m.get k = none ↔ ∀ e ∈ m.entries, e.1 ≠ k := by
  simp [get]

@[simp] theorem get_delete_self (m : InsertionMap κ ν) (k : κ) : (m.delete k).get k = none := by
  simp [get_eq_none, delete]

theorem get_delete_ne (m : InsertionMap κ ν) {k k' : κ} (h : k' ≠ k) :
    (m.delete k).get k' = m.get k' := by
  simp only [get, delete]
  congr 1
  induction m.entries with
  | nil => rfl
  | cons e l ih =>
    by_cases hk : e.1 = k
    · rw [List.filter_cons_of_neg (by simpa using hk), List.find?_cons_of_neg (by simp [hk, h.symm]), ih]
    · rw [List.filter_cons_of_pos (by simpa using hk), List.find?_cons, List.find?_cons, ih]

theorem get_of_get_delete {m : InsertionMap κ ν} {k k' : κ} {v : ν} (h : (m.delete k').get k = some v) :
    m.get k = some v := by
  by_cases hk : k = k'
  · subst hk
    rw [get_delete_self] at h
    cases h
  · rwa [get_delete_ne m hk] at h

@[simp] theorem get_set_self (m : InsertionMap κ ν) (k : κ) (v : ν) : (m.set k v).get k = some v := by
  unfold set
  split_ifs with h
  · simp only [get]
    obtain ⟨e, he, hk⟩ := List.mem_map.1 h
    generalize m.entries = l at he
    induction l with
    | nil => cases he
    | cons e' l ih =>
      by_cases hk' : e'.1 = k
      · simp [hk']
      · rcases List.mem_cons.1 he with rfl | he
        · exact absurd hk hk'
        · simpa [hk'] using ih he
  · have hnone : m.get k = none :=
      get_eq_none.2 fun e he hk => h (List.mem_map.2 ⟨e, he, hk⟩)
    have hfind : m.entries.find? (fun e => e.1 = k) = none := by simpa [get] using hnone
    simp [get, hfind]

theorem get_set_ne (m : InsertionMap κ ν) {k k' : κ} (v : ν) (h : k' ≠ k) :
    (m.set k v).get k' = m.get k' := by
  unfold set
  split_ifs with hk
  · simp only [get]
    induction m.entries with
    | nil => rfl
    | cons e l ih =>
      by_cases he : e.1 = k
      · simpa [he, h.symm] using ih
      · by_cases he' : e.1 = k'
        · simp [he', h]
        · simpa [he, he'] using ih
  · simp [get, List.find?_append, h.symm]

/-! ## Sizes -/

theorem size_delete_le (m : InsertionMap κ ν) (k : κ) : (m.delete k).size ≤ m.size :=
  List.length_filter_le ..

theorem size_delete_oldest {m : InsertionMap κ ν} {k : κ} (h : m.oldest = some k) :
    (m.delete k).size < m.size := by
  obtain ⟨e, he, rfl⟩ := Option.map_eq_some_iff.1 h
  refine List.length_filter_lt_length_iff_exists.2 ⟨e, List.mem_of_mem_head? he, ?_⟩
  simp

omit [DecidableEq κ] in
theorem oldest_eq_none {m : InsertionMap κ ν} : m.oldest = none ↔ m.size = 0 := by
  rw [oldest, Option.map_eq_none_iff, List.head?_eq_none_iff, size, List.length_eq_zero_iff]

theorem size_set_le (m : InsertionMap κ ν) (k : κ) (v : ν) : (m.set k v).size ≤ m.size + 1 := by
  unfold set
  split_ifs
  · simp [size]
  · simp [size]

end InsertionMap
