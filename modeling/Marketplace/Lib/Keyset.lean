/-
  Keyset pagination.

  The rows of a query are read page by page: a page is the first `n` rows
  whose key is below the cursor, and the cursor of the next page is the key of
  the last row of this one.  The rows need not be sorted by the key: reading
  always ends (`Reads.exists`), and it returns the rows as they are iff they
  are `Aligned`, that is, every page boundary splits them by their keys.
-/
import Mathlib.Data.List.Basic
import Mathlib.Data.List.Nodup
import Mathlib.Order.Lattice
import Mathlib.Tactic.Common

namespace Keyset

variable {α K : Type} [LinearOrder K] (key : α → K) (n : ℕ)

/-- The rows whose key is below the cursor. -/
def beyond (cursor : Option K) (l : List α) : List α := l.filter fun x => cursor.all (key x < ·)

/-- Reading `l` from a cursor gives these pages. -/
inductive Reads (l : List α) : Option K → List (List α) → Prop
  | last {c} : (beyond key c l).length ≤ n → Reads l c [(beyond key c l).take n]
  | more {c x ps} : n < (beyond key c l).length → ((beyond key c l).take n).getLast? = some x →
      Reads l (some (key x)) ps → Reads l c ((beyond key c l).take n :: ps)

/-- Every page boundary splits the rows by their keys. -/
def Aligned (l : List α) : Prop :=
  ∀ k x, 0 < k → k * n < l.length → l[k * n - 1]? = some x →
    (∀ y ∈ l.take (k * n - 1), key x < key y) ∧ ∀ y ∈ l.drop (k * n), key y < key x

variable {key n} {l : List α}

@[simp] theorem beyond_none : beyond key none l = l := by simp [beyond]

theorem mem_beyond {c : Option K} {x : α} :
    x ∈ beyond key c l ↔ x ∈ l ∧ ∀ k ∈ c, key x < k := by
  cases c <;> simp [beyond]

/-- From the key of a row that is below the cursor, the rows below both. -/
theorem beyond_beyond {c : Option K} {x : α} (hx : x ∈ beyond key c l) :
    beyond key (some (key x)) l = (beyond key c l).filter (key · < key x) := by
  rw [beyond, beyond, List.filter_filter]
  refine List.filter_congr fun y _ => ?_
  obtain ⟨-, hc⟩ := mem_beyond.1 hx
  cases c with
  | none => simp
  | some k =>
    have : key y < key x → key y < k := fun h => h.trans (hc k rfl)
    simpa using this

theorem getLast?_take (hn : 0 < n) (hl : n < l.length) : (l.take n).getLast? = l[n - 1]? := by
  rw [List.getLast?_eq_getElem?, List.length_take, Nat.min_eq_left (by omega),
    List.getElem?_take_of_lt (by omega)]

theorem mem_of_getLast?_take {x : α} (h : (l.take n).getLast? = some x) : x ∈ l :=
  List.mem_of_mem_take (List.mem_of_getLast? h)

/-- **Reading ends.** -/
theorem Reads.exists (hn : 0 < n) (l : List α) : ∀ c, ∃ ps, Reads key n l c ps := by
  suffices H : ∀ m c, (beyond key c l).length = m → ∃ ps, Reads key n l c ps from fun c => H _ c rfl
  intro m
  induction m using Nat.strongRecOn with
  | _ m ih =>
    intro c hm
    by_cases hlen : (beyond key c l).length ≤ n
    · exact ⟨_, .last hlen⟩
    obtain ⟨x, hx⟩ : ∃ x, ((beyond key c l).take n).getLast? = some x := by
      rw [getLast?_take hn (by omega)]
      exact ⟨_, List.getElem?_eq_getElem (by omega)⟩
    have hmem := mem_of_getLast?_take hx
    -- the last row of the page is not beyond the next cursor
    have hlt : (beyond key (some (key x)) l).length < m := by
      rw [beyond_beyond hmem, ← hm]
      exact List.length_filter_lt_length_iff_exists.2 ⟨x, hmem, by simp⟩
    obtain ⟨ps, hps⟩ := ih _ hlt _ rfl
    exact ⟨_, .more (by omega) hx hps⟩

theorem Reads.unique {c : Option K} {ps ps' : List (List α)} (h : Reads key n l c ps)
    (h' : Reads key n l c ps') : ps = ps' := by
  induction h generalizing ps' with
  | last hlen =>
    cases h' with
    | last => rfl
    | more hlt => omega
  | more hlt hx _ ih =>
    cases h' with
    | last => omega
    | more _ hx' h' =>
      rw [hx] at hx'; cases hx'
      rw [ih h']

theorem Reads.subset {c : Option K} {ps : List (List α)} (h : Reads key n l c ps) :
    ps.flatten ⊆ beyond key c l := by
  induction h with
  | last => simpa using List.take_subset _ _
  | more _ hx _ ih =>
    intro y hy
    rw [List.flatten_cons, List.mem_append] at hy
    rcases hy with hy | hy
    · exact List.mem_of_mem_take hy
    · have hy := ih hy
      rw [beyond_beyond (mem_of_getLast?_take hx)] at hy
      exact List.mem_of_mem_filter hy

theorem Reads.head? (hn : 0 < n) {c : Option K} {ps : List (List α)} (h : Reads key n l c ps) :
    ps.flatten.head? = (beyond key c l).head? := by
  have htake : ∀ l : List α, (l.take n).head? = l.head? := fun l => by
    rw [List.head?_take, if_neg (by omega)]
  cases h with
  | last => simp [htake]
  | more hlt hx h =>
    rw [List.flatten_cons, List.head?_append, htake]
    cases hb : beyond key c l with
    | nil => rw [hb] at hlt; simp at hlt
    | cons => simp

theorem aligned_iff (hn : 0 < n) (hl : n < l.length) {x : α} (hx : l[n - 1]? = some x) :
    Aligned key n l ↔ ((∀ y ∈ l.take (n - 1), key x < key y) ∧ ∀ y ∈ l.drop n, key y < key x) ∧
      Aligned key n (l.drop n) := by
  have hmul (k : ℕ) : (k + 1) * n = n + k * n := by rw [Nat.add_mul, Nat.one_mul, Nat.add_comm]
  constructor
  · intro h
    refine ⟨by simpa using h 1 x Nat.one_pos (by omega) (by simpa using hx),
      fun k z hk hkn hz => ?_⟩
    have hpos : 0 < k * n := Nat.mul_pos hk hn
    rw [List.length_drop] at hkn
    rw [List.getElem?_drop, ← Nat.add_sub_assoc hpos, ← hmul] at hz
    obtain ⟨hgt, hlt⟩ := h (k + 1) z (by omega) (by rw [hmul]; omega) hz
    refine ⟨fun y hy => hgt y ?_, fun y hy => hlt y ?_⟩
    · rw [List.take_drop] at hy
      have := List.mem_of_mem_drop hy
      rwa [hmul, Nat.add_sub_assoc hpos]
    · rwa [hmul, ← List.drop_drop]
  · rintro ⟨⟨hgt, hlt⟩, h⟩ k z hk hkn hz
    obtain ⟨k, rfl⟩ : ∃ j, k = j + 1 := ⟨k - 1, by omega⟩
    rcases Nat.eq_zero_or_pos k with rfl | hk
    · rw [Nat.zero_add, Nat.one_mul, hx] at hz; cases hz
      simpa using ⟨hgt, hlt⟩
    have hpos : 0 < k * n := Nat.mul_pos hk hn
    rw [hmul] at hkn
    rw [hmul, Nat.add_sub_assoc hpos] at hz ⊢
    have hz' : (l.drop n)[k * n - 1]? = some z := by rwa [List.getElem?_drop]
    obtain ⟨hgt', hlt'⟩ := h k z hk (by rw [List.length_drop]; omega) hz'
    refine ⟨fun y hy => ?_, fun y hy => hlt' y (by rwa [List.drop_drop])⟩
    have hzx : key z < key x := hlt z (List.mem_of_getElem? hz')
    rw [List.take_add, List.mem_append] at hy
    rcases hy with hy | hy
    · -- a row of the first page
      rw [show n = n - 1 + 1 by omega, List.take_add_one, hx, List.mem_append] at hy
      rcases hy with hy | hy
      · exact hzx.trans (hgt y hy)
      · simp only [Option.toList_some, List.mem_singleton] at hy
        subst hy; exact hzx
    · exact hgt' y hy

/-- The rows below the key of the row `x` that ends the first page: those of the first page, and the
    rest. -/
theorem filter_eq (l : List α) (x : α) : l.filter (key · < key x) =
    (l.take n).filter (key · < key x) ++ (l.drop n).filter (key · < key x) := by
  rw [← List.filter_append, List.take_append_drop]

/-- Rows that are sorted by the key are aligned. -/
theorem aligned_of_pairwise (hn : 0 < n) (h : l.Pairwise fun x y => key y < key x) :
    Aligned key n l := by
  intro k x hk _ hx
  have hget := List.pairwise_iff_getElem.1 h
  have hpos : 0 < k * n := Nat.mul_pos hk hn
  obtain ⟨hlt, rfl⟩ := List.getElem?_eq_some_iff.1 hx
  constructor
  · intro y hy
    obtain ⟨i, hi, rfl⟩ := List.mem_take_iff_getElem.1 hy
    exact hget i _ _ hlt (by omega)
  · intro y hy
    obtain ⟨i, hi, rfl⟩ := List.mem_drop_iff_getElem.1 hy
    exact hget _ (k * n + i) hlt _ (by omega)

omit [LinearOrder K] in
theorem key_ne_of_mem_take (hl : (l.map key).Nodup) {x y : α} (hx : l[n - 1]? = some x)
    (hy : y ∈ l.take (n - 1)) : key y ≠ key x := by
  intro he
  obtain ⟨i, hi⟩ := List.mem_iff_getElem?.1 hy
  rw [List.getElem?_take] at hi
  split_ifs at hi with hlt
  have hmap : (l.map key)[i]? = (l.map key)[n - 1]? := by
    rw [List.getElem?_map, List.getElem?_map, hi, hx, Option.map_some, Option.map_some, he]
  have hlen : i < (l.map key).length := by
    rw [List.length_map]; exact (List.getElem?_eq_some_iff.1 hi).1
  have := (List.getElem?_inj hlen hl).1 hmap
  omega

/-- A boundary that splits the rows. -/
theorem filter_eq_drop (hl : n < l.length) {x : α} (hx : l[n - 1]? = some x)
    (hgt : ∀ y ∈ l.take (n - 1), key x < key y) (hlt : ∀ y ∈ l.drop n, key y < key x) :
    l.filter (key · < key x) = l.drop n := by
  rw [filter_eq (n := n), List.filter_eq_nil_iff.2, List.nil_append, List.filter_eq_self.2]
  · simpa using hlt
  · intro y hy
    rcases Nat.eq_zero_or_pos n with rfl | hn
    · simp at hy
    rw [show n = n - 1 + 1 by omega, List.take_add_one, hx, List.mem_append] at hy
    rcases hy with hy | hy
    · simpa using (hgt y hy).le
    · simp only [Option.toList_some, List.mem_singleton] at hy
      simp [hy]

/-- **Reading returns the rows as they are iff every page boundary splits them.** -/
theorem Reads.flatten_iff (hn : 0 < n) (hl : (l.map key).Nodup) {c : Option K} {ps : List (List α)}
    (h : Reads key n l c ps) : ps.flatten = beyond key c l ↔ Aligned key n (beyond key c l) := by
  induction h with
  | @last c hlen =>
    have htake : (beyond key c l).take n = beyond key c l := List.take_of_length_le hlen
    simp only [List.flatten_cons, List.flatten_nil, List.append_nil, htake, true_iff]
    intro k x hk hkn
    have : n ≤ k * n := Nat.le_mul_of_pos_left n hk
    omega
  | @more c x ps hlt hx h ih =>
    have hnodup : ((beyond key c l).map key).Nodup := (List.filter_sublist.map key).nodup hl
    have hmem := mem_of_getLast?_take hx
    rw [beyond_beyond hmem] at ih
    rw [getLast?_take hn hlt] at hx
    have hsub := h.subset
    have hhead := h.head? hn
    rw [beyond_beyond hmem] at hsub hhead
    generalize beyond key c l = rows at *
    have hsplit : ((rows.take n :: ps).flatten = rows ↔ ps.flatten = rows.drop n) := by
      rw [List.flatten_cons]
      nth_rewrite 2 [← List.take_append_drop n rows]
      exact List.append_right_inj _
    rw [hsplit, aligned_iff hn hlt hx]
    constructor
    · intro hps
      have hlow : ∀ y ∈ rows.drop n, key y < key x := fun y hy => by
        simpa using (List.mem_filter.1 (hsub (hps ▸ hy))).2
      -- the next page would start with a row of this one
      have hdrop : (rows.drop n).filter (key · < key x) = rows.drop n :=
        List.filter_eq_self.2 (by simpa using hlow)
      have hnil : (rows.take n).filter (key · < key x) = [] := by
        rw [hps, filter_eq (n := n), hdrop] at hhead
        cases hf : (rows.take n).filter (key · < key x) with
        | nil => rfl
        | cons y t =>
          have hy : y ∈ rows.take n :=
            List.mem_of_mem_filter (by rw [hf]; exact List.mem_cons_self)
          rw [hf] at hhead
          have hy' : y ∈ rows.drop n := List.mem_of_mem_head? (by rw [hhead]; simp)
          exact absurd hy' fun hy' => List.disjoint_take_drop hnodup.of_map (Nat.le_refl n) hy hy'
      have hgt : ∀ y ∈ rows.take (n - 1), key x < key y := fun y hy => by
        have hy' : y ∈ rows.take n := List.take_subset_take_left _ (Nat.sub_le n 1) hy
        have hnot : ¬ key y < key x := by simpa using List.filter_eq_nil_iff.1 hnil y hy'
        exact lt_of_le_of_ne (not_lt.1 hnot) (key_ne_of_mem_take hnodup hx hy).symm
      rw [filter_eq_drop hlt hx hgt hlow] at ih
      exact ⟨⟨hgt, hlow⟩, ih.1 hps⟩
    · rintro ⟨⟨hgt, hlow⟩, haligned⟩
      rw [filter_eq_drop hlt hx hgt hlow] at ih
      exact ih.2 haligned

end Keyset
