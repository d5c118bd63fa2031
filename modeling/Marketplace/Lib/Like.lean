/-
  SQL LIKE: `%` stands for any sequence of characters, `_` for any one, and a
  backslash for the character after it.

  A pattern that `Spells` a text has no wildcards but escaped ones: it matches
  the text and nothing else, character by character, up to `fold`.
-/
import Mathlib.Data.List.Infix

/-- `s LIKE pattern`, with the characters compared after `fold`; nothing is like a pattern that ends in a
    dangling escape. -/
def like (fold : Char → Char) : List Char → List Char → Bool
  | [], s => s.isEmpty
  | '%' :: p, s => s.tails.any (like fold p)
  | '_' :: p, s =>
    match s with
    | [] => false
    | _ :: s => like fold p s
  | ['\\'], _ => false
  | '\\' :: c :: p, s =>
    match s with
    | [] => false
    | x :: s => fold x = fold c && like fold p s
  | c :: p, s =>
    match s with
    | [] => false
    | x :: s => fold x = fold c && like fold p s

/-- The pattern ends in a backslash that has no character to escape. -/
def dangling : List Char → Bool
  | [] => false
  | ['\\'] => true
  | '\\' :: _ :: p => dangling p
  | _ :: p => dangling p

/-- The characters that a pattern has to escape. -/
def isMeta (c : Char) : Bool := c = '\\' || c = '%' || c = '_'

/-- The pattern stands for the characters of a text, one after the other. -/
inductive Spells : List Char → List Char → Prop
  | nil : Spells [] []
  | plain {c p q} : isMeta c = false → Spells p q → Spells (c :: p) (c :: q)
  | escaped {c p q} : Spells p q → Spells ('\\' :: c :: p) (c :: q)

variable {fold : Char → Char} {p q p' s : List Char} {c : Char}

theorem like_percent : like fold ('%' :: p) s = true ↔ ∃ t, t <:+ s ∧ like fold p t = true := by
  rw [like, List.any_eq_true]
  simp only [List.mem_tails]

theorem like_any : like fold ['%'] s = true := like_percent.2 ⟨[], List.nil_suffix, rfl⟩

theorem like_escaped : like fold ('\\' :: c :: p) s = true ↔
    ∃ x t, s = x :: t ∧ fold x = fold c ∧ like fold p t = true := by
  cases s with
  | nil => simp [like]
  | cons x t => simp [like]

theorem like_plain (hc : isMeta c = false) : like fold (c :: p) s = true ↔
    ∃ x t, s = x :: t ∧ fold x = fold c ∧ like fold p t = true := by
  simp only [isMeta, Bool.or_eq_false_iff, decide_eq_false_iff_not] at hc
  obtain ⟨⟨hb, hp⟩, hu⟩ := hc
  cases s with
  | nil =>
    rw [like]
    · simp
    all_goals simp [hb, hp, hu]
  | cons x t =>
    rw [like]
    · simp
    all_goals simp [hb, hp, hu]

/-- **What a spelled text is like** begins with the text, up to `fold`. -/
theorem Spells.like_append (h : Spells p q) : like fold (p ++ p') s = true ↔
    ∃ u t, s = u ++ t ∧ u.map fold = q.map fold ∧ like fold p' t = true := by
  -- the first character of a text that is not empty, and the rest
  have cons {c : Char} {p q : List Char}
      (ih : ∀ s, like fold (p ++ p') s = true ↔
        ∃ u t, s = u ++ t ∧ u.map fold = q.map fold ∧ like fold p' t = true) (s : List Char) :
      (∃ x t, s = x :: t ∧ fold x = fold c ∧ like fold (p ++ p') t = true) ↔
        ∃ u t, s = u ++ t ∧ u.map fold = (c :: q).map fold ∧ like fold p' t = true := by
    constructor
    · rintro ⟨x, t, rfl, hx, ht⟩
      obtain ⟨u, t, rfl, hu, ht⟩ := (ih t).1 ht
      refine ⟨x :: u, t, rfl, ?_, ht⟩
      rw [List.map_cons, List.map_cons, hx, hu]
    · rintro ⟨u, t, rfl, hu, ht⟩
      cases u with
      | nil => cases hu
      | cons x u =>
        rw [List.map_cons, List.map_cons, List.cons.injEq] at hu
        exact ⟨x, u ++ t, rfl, hu.1, (ih _).2 ⟨u, t, rfl, hu.2, ht⟩⟩
  induction h generalizing s with
  | nil =>
    constructor
    · intro h
      exact ⟨[], s, rfl, rfl, h⟩
    · rintro ⟨u, t, rfl, hu, ht⟩
      cases List.map_eq_nil_iff.1 hu
      exact ht
  | plain hc _ ih =>
    rw [List.cons_append, like_plain hc]
    exact cons (fun s => ih) s
  | escaped _ ih =>
    rw [List.cons_append, List.cons_append, like_escaped]
    exact cons (fun s => ih) s

/-- **Between two wildcards for any sequence, a spelled text is looked for** in every place. -/
theorem Spells.like_contains (h : Spells p q) :
    like fold ('%' :: (p ++ ['%'])) s = true ↔ q.map fold <:+: s.map fold := by
  rw [like_percent]
  constructor
  · rintro ⟨t, ⟨a, rfl⟩, ht⟩
    obtain ⟨u, b, rfl, hu, -⟩ := h.like_append.1 ht
    refine ⟨a.map fold, b.map fold, ?_⟩
    rw [← hu, List.map_append, List.map_append, List.append_assoc]
  · rintro ⟨a, b, hs⟩
    obtain ⟨l, b, rfl, hl, rfl⟩ := List.map_eq_append_iff.1 hs.symm
    obtain ⟨a, u, rfl, rfl, hu⟩ := List.map_eq_append_iff.1 hl
    refine ⟨u ++ b, ⟨a, (List.append_assoc ..).symm⟩, ?_⟩
    exact h.like_append.2 ⟨u, b, rfl, hu, like_any⟩

theorem dangling_cons (hc : c ≠ '\\') : dangling (c :: p) = dangling p := by
  simp [dangling, hc]

/-- What follows a spelled text decides whether the pattern is malformed. -/
theorem Spells.dangling_append (h : Spells p q) : dangling (p ++ p') = dangling p' := by
  induction h with
  | nil => rfl
  | @plain c _ _ hc _ ih =>
    have hb : c ≠ '\\' := by
      rintro rfl
      cases hc
    rw [List.cons_append, dangling_cons hb, ih]
  | escaped _ ih => rw [List.cons_append, List.cons_append, dangling, ih]
