/-
  A store in which every entry that is added has one owner.

  Owners add entries under keys that are free, give up the entries they have, or
  leave them behind; what was in the store before belongs to nobody and stays.
-/
import Mathlib.Data.List.Perm.Basic
import Mathlib.Logic.Function.Basic

variable {K V : Type}

/-- In the store, the owner `i` has the entries `owned[i]`; all other entries are those of `base`. -/
structure Owners (base store : K → Option V) (owned : List (List (K × V))) : Prop where
  held : ∀ (i : ℕ) l, owned[i]? = some l → ∀ x ∈ l, base x.1 = none ∧ store x.1 = some x.2
  nodup : ∀ (i : ℕ) l, owned[i]? = some l → (l.map Prod.fst).Nodup
  apart : ∀ (i j : ℕ) l l', owned[i]? = some l → owned[j]? = some l' → ∀ k, k ∈ l.map Prod.fst →
    k ∈ l'.map Prod.fst → i = j
  frame : ∀ k, (∀ l ∈ owned, k ∉ l.map Prod.fst) → store k = base k

namespace Owners

variable {base store : K → Option V} {owned : List (List (K × V))} {i : ℕ} {l l' : List (K × V)}

theorem init (base : K → Option V) : Owners base base [] :=
  ⟨by simp, by simp, by simp, fun _ _ => rfl⟩

theorem kept (h : Owners base store owned) {k : K} {v : V} (hk : base k = some v) :
    store k = some v := by
  rw [h.frame k fun l hl hmem => ?_, hk]
  obtain ⟨x, hx, rfl⟩ := List.mem_map.1 hmem
  obtain ⟨i, hi⟩ := List.mem_iff_getElem?.1 hl
  rw [(h.held i l hi x hx).1] at hk
  cases hk

theorem join (h : Owners base store owned) : Owners base store (owned ++ [[]]) := by
  have old {i : ℕ} {l : List (K × V)} (hi : (owned ++ [[]])[i]? = some l) :
      owned[i]? = some l ∨ l = [] := by
    rw [List.getElem?_append] at hi
    split_ifs at hi
    · exact Or.inl hi
    · exact Or.inr (List.mem_singleton.1 (List.mem_of_getElem? hi))
  refine ⟨fun i l hi => ?_, fun i l hi => ?_, fun i j l l' hi hj k hk hk' => ?_, fun k hk => ?_⟩
  · rcases old hi with hi | rfl
    · exact h.held i l hi
    · simp
  · rcases old hi with hi | rfl
    · exact h.nodup i l hi
    · simp
  · rcases old hi with hi | rfl
    · rcases old hj with hj | rfl
      · exact h.apart i j l l' hi hj k hk hk'
      · cases hk'
    · cases hk
  · exact h.frame k fun l hl => hk l (List.mem_append_left _ hl)

theorem set_same (hi : owned[i]? = some l) : owned.set i l = owned := by
  obtain ⟨hlt, rfl⟩ := List.getElem?_eq_some_iff.1 hi
  exact List.set_getElem_self hlt

theorem set_cases {j : ℕ} {m : List (K × V)} (hj : (owned.set i l')[j]? = some m) :
    (j = i ∧ m = l') ∨ (j ≠ i ∧ owned[j]? = some m) := by
  by_cases hij : i = j
  · subst hij
    rw [List.getElem?_set_self'] at hj
    obtain ⟨x, -, rfl⟩ := Option.map_eq_some_iff.1 hj
    exact Or.inl ⟨rfl, rfl⟩
  · rw [List.getElem?_set_ne hij] at hj
    exact Or.inr ⟨Ne.symm hij, hj⟩

/-- The entries of the owners, when `i` has the entries `l'` instead of `l` and the stores change
    nowhere else. -/
theorem exchange (h : Owners base store owned) (hi : owned[i]? = some l) {base' store' : K → Option V}
    (hheld : ∀ x ∈ l', base' x.1 = none ∧ store' x.1 = some x.2) (hnodup : (l'.map Prod.fst).Nodup)
    (hfree : ∀ k ∈ l'.map Prod.fst, k ∈ l.map Prod.fst ∨ store k = none)
    (hsame : ∀ k, k ∉ l.map Prod.fst → k ∉ l'.map Prod.fst → base' k = base k ∧ store' k = store k)
    (hgone : ∀ k ∈ l.map Prod.fst, k ∉ l'.map Prod.fst → store' k = base' k) :
    Owners base' store' (owned.set i l') := by
  have other {j : ℕ} {m : List (K × V)} (hji : j ≠ i) (hj : owned[j]? = some m) {k : K}
      (hk : k ∈ m.map Prod.fst) : k ∉ l.map Prod.fst ∧ k ∉ l'.map Prod.fst := by
    have hl : k ∉ l.map Prod.fst := fun hk' => hji (h.apart j i m l hj hi k hk hk')
    refine ⟨hl, fun hk' => ?_⟩
    obtain ⟨x, hx, rfl⟩ := List.mem_map.1 hk
    rcases hfree _ hk' with h' | h'
    · exact hl h'
    · rw [(h.held j m hj x hx).2] at h'
      cases h'
  refine ⟨fun j m hj => ?_, fun j m hj => ?_, fun j j' m m' hj hj' k hk hk' => ?_, fun k hk => ?_⟩
  · rcases set_cases hj with ⟨-, rfl⟩ | ⟨hji, hj⟩
    · exact hheld
    · intro x hx
      obtain ⟨hl, hl'⟩ := other hji hj (List.mem_map_of_mem hx)
      obtain ⟨hb, hs⟩ := hsame _ hl hl'
      rw [hb, hs]
      exact h.held j m hj x hx
  · rcases set_cases hj with ⟨-, rfl⟩ | ⟨-, hj⟩
    · exact hnodup
    · exact h.nodup j m hj
  · rcases set_cases hj with ⟨hji, hm⟩ | ⟨hji, hm⟩ <;>
      rcases set_cases hj' with ⟨hji', hm'⟩ | ⟨hji', hm'⟩
    · rw [hji, hji']
    · exact absurd (hm ▸ hk) (other hji' hm' hk').2
    · exact absurd (hm' ▸ hk') (other hji hm hk).2
    · exact h.apart j j' m m' hm hm' k hk hk'
  · have hlt : i < owned.length := (List.getElem?_eq_some_iff.1 hi).1
    have hl' : k ∉ l'.map Prod.fst := hk l' (List.mem_set hlt l')
    by_cases hl : k ∈ l.map Prod.fst
    · exact hgone k hl hl'
    · obtain ⟨hb, hs⟩ := hsame k hl hl'
      rw [hb, hs]
      refine h.frame k fun m hm hkm => ?_
      obtain ⟨j, hj⟩ := List.mem_iff_getElem?.1 hm
      by_cases hji : j = i
      · subst hji
        rw [hi] at hj; cases hj
        exact hl hkm
      · refine hk m (List.mem_iff_getElem?.2 ⟨j, ?_⟩) hkm
        rw [List.getElem?_set_ne (Ne.symm hji), hj]

variable [DecidableEq K]

theorem put (h : Owners base store owned) (hi : owned[i]? = some l) {k : K} {v : V}
    (hk : store k = none) (hl' : l'.Perm ((k, v) :: l)) :
    Owners base (Function.update store k (some v)) (owned.set i l') := by
  have hbase : base k = none := by
    cases hb : base k with
    | none => rfl
    | some v' => rw [h.kept hb] at hk; cases hk
  have hnew : k ∉ l.map Prod.fst := by
    intro hmem
    obtain ⟨x, hx, rfl⟩ := List.mem_map.1 hmem
    rw [(h.held i l hi x hx).2] at hk
    cases hk
  have hkeys : ∀ k', k' ∈ l'.map Prod.fst ↔ k' = k ∨ k' ∈ l.map Prod.fst := fun k' => by
    rw [(hl'.map Prod.fst).mem_iff, List.map_cons, List.mem_cons]
  refine h.exchange hi (fun x hx => ?_) ?_ (fun k' hk' => ?_) (fun k' _ hk' => ?_) fun k' hk' hk'' => ?_
  · rcases List.mem_cons.1 (hl'.mem_iff.1 hx) with rfl | hx
    · exact ⟨hbase, Function.update_self ..⟩
    · obtain ⟨hb, hs⟩ := h.held i l hi x hx
      have hne : x.1 ≠ k := by
        rintro rfl
        exact hnew (List.mem_map_of_mem hx)
      exact ⟨hb, (Function.update_of_ne hne ..).trans hs⟩
  · rw [(hl'.map Prod.fst).nodup_iff, List.map_cons]
    exact List.nodup_cons.2 ⟨hnew, h.nodup i l hi⟩
  · rcases (hkeys k').1 hk' with rfl | hk'
    · exact Or.inr hk
    · exact Or.inl hk'
  · exact ⟨rfl, Function.update_of_ne (fun he => hk' ((hkeys k').2 (Or.inl he))) _ _⟩
  · exact absurd ((hkeys k').2 (Or.inr hk')) hk''

theorem clear (h : Owners base store owned) (hi : owned[i]? = some l) {keys : List K}
    (hkeys : ∀ k, k ∈ keys ↔ k ∈ l.map Prod.fst) :
    Owners base (fun k => if k ∈ keys then none else store k) (owned.set i []) := by
  refine h.exchange hi (by simp) (by simp) (by simp) (fun k hk _ => ⟨rfl, if_neg (mt (hkeys k).1 hk)⟩)
    fun k hk _ => ?_
  obtain ⟨x, hx, rfl⟩ := List.mem_map.1 hk
  rw [if_pos ((hkeys _).2 hk), (h.held i l hi x hx).1]

theorem abandon (h : Owners base store owned) (hi : owned[i]? = some l) :
    Owners (fun k => if k ∈ l.map Prod.fst then store k else base k) store (owned.set i []) :=
  h.exchange hi (by simp) (by simp) (by simp) (fun _ hk _ => ⟨if_neg hk, rfl⟩)
    fun _ hk _ => (if_pos hk).symm

end Owners
