/-
  Splitting a list at runs of separators.

  `split_strip_iff` says which lists have two given words in front, once the
  separators at both ends are removed.
-/
import Mathlib.Data.List.DropRight

namespace Words

variable {α : Type} (sep : α → Bool)

/-- The pieces between the maximal runs of separators; before a run at the start, and after one at
    the end, there is an empty piece. -/
def split : List α → List (List α)
  | [] => [[]]
  | a :: l =>
    if sep a then
      -- a run ends where the next element is no separator
      if l.head?.any sep then split l else [] :: split l
    else (split l).modifyHead (a :: ·)

/-- The list without the separators at both ends. -/
def strip (l : List α) : List α := (l.dropWhile sep).rdropWhile sep

variable {sep} {l w gap t tail : List α}

theorem head?_dropWhile (p : α → Bool) (l : List α) {a : α} (h : (l.dropWhile p).head? = some a) :
    p a = false := by
  have hne : l.dropWhile p ≠ [] := by
    intro hnil
    rw [hnil] at h; cases h
  have hnot := List.head_dropWhile_not p hne
  rw [List.head?_eq_some_head hne] at h
  cases h
  exact hnot

theorem takeWhile_self {p : α → Bool} (h : ∀ a ∈ w, p a = true) (hl : ∀ a ∈ l.head?, p a = false) :
    (w ++ l).takeWhile p = w := by
  rw [List.takeWhile_append_of_pos h]
  cases l with
  | nil => simp
  | cons a l => rw [List.takeWhile_cons_of_neg (by simp [hl a rfl]), List.append_nil]

theorem dropWhile_self {p : α → Bool} (h : ∀ a ∈ w, p a = true) (hl : ∀ a ∈ l.head?, p a = false) :
    (w ++ l).dropWhile p = l := by
  rw [List.dropWhile_append_of_pos h]
  cases l with
  | nil => rfl
  | cons a l => rw [List.dropWhile_cons_of_neg (by simp [hl a rfl])]

/-- The first piece ends at the first separator; what is after its run is split in turn. -/
theorem split_eq (l : List α) : split sep l = l.takeWhile (!sep ·) ::
    (if l.dropWhile (!sep ·) = [] then [] else split sep ((l.dropWhile (!sep ·)).dropWhile sep)) := by
  induction l with
  | nil => rfl
  | cons a l ih =>
    cases ha : sep a with
    | true =>
      rw [split, if_pos ha, List.takeWhile_cons_of_neg (by simp [ha]),
        List.dropWhile_cons_of_neg (by simp [ha]), if_neg (List.cons_ne_nil _ _),
        List.dropWhile_cons_of_pos ha]
      cases l with
      | nil => rfl
      | cons b l =>
        cases hb : sep b with
        | true =>
          rw [List.head?_cons, Option.any_some, if_pos hb, ih,
            List.takeWhile_cons_of_neg (by simp [hb]), List.dropWhile_cons_of_neg (by simp [hb]),
            if_neg (List.cons_ne_nil _ _)]
        | false =>
          rw [List.head?_cons, Option.any_some, hb, if_neg Bool.false_ne_true,
            List.dropWhile_cons_of_neg (by simp [hb])]
    | false =>
      rw [split, ha, if_neg Bool.false_ne_true, ih, List.takeWhile_cons_of_pos (by simp [ha]),
        List.dropWhile_cons_of_pos (by simp [ha])]
      rfl

theorem rdropWhile_append {last : α} (h : w.getLast? = some last) (hlast : sep last = false)
    (tail : List α) : (w ++ tail).rdropWhile sep = w ++ tail.rdropWhile sep := by
  induction tail using List.reverseRecOn with
  | nil =>
    rw [List.append_nil, List.rdropWhile_nil, List.append_nil, List.rdropWhile_eq_self_iff]
    intro hne
    rw [List.getLast?_eq_some_getLast hne] at h
    cases h
    rw [hlast]
    exact Bool.false_ne_true
  | append_singleton tail a ih =>
    rw [← List.append_assoc, List.rdropWhile_concat, List.rdropWhile_concat]
    split_ifs
    · exact ih
    · rw [List.append_assoc]

/-- The list, without separators at its ends, begins with the words `w` and `t`. -/
structure Begins (sep : α → Bool) (l w t : List α) : Prop where
  split : ∃ pre gap tail, l = pre ++ (w ++ (gap ++ (t ++ tail))) ∧ (∀ a ∈ pre, sep a = true) ∧
    (gap ≠ [] ∧ ∀ a ∈ gap, sep a = true) ∧ ∀ a ∈ tail.head?, sep a = true
  fst : w ≠ [] ∧ ∀ a ∈ w, sep a = false
  snd : t ≠ [] ∧ ∀ a ∈ t, sep a = false

/-- The first two pieces are words of the list. -/
theorem begins_of_split {rest : List (List α)} (hw : w ≠ []) (ht : t ≠ [])
    (h : split sep (strip sep l) = w :: t :: rest) : Begins sep l w t := by
  rw [split_eq] at h
  obtain ⟨hwords, h⟩ := List.cons_eq_cons.1 h
  split_ifs at h with hnil
  rw [split_eq] at h
  obtain ⟨hwords', -⟩ := List.cons_eq_cons.1 h
  -- the list, cut where the pieces end
  let core := strip sep l
  let after := core.dropWhile (!sep ·)
  let tail := (after.dropWhile sep).dropWhile (!sep ·)
  let post := (l.dropWhile sep).rtakeWhile sep
  have hcore : core = w ++ (after.takeWhile sep ++ (t ++ tail)) := by
    rw [← hwords, ← hwords', List.takeWhile_append_dropWhile, List.takeWhile_append_dropWhile,
      List.takeWhile_append_dropWhile]
  have hl : l = l.takeWhile sep ++ (core ++ post) := by
    rw [show core ++ post = l.dropWhile sep from List.rdropWhile_append_rtakeWhile ..,
      List.takeWhile_append_dropWhile]
  have hpost : ∀ a ∈ post, sep a = true := fun a ha => List.mem_rtakeWhile_imp ha
  refine ⟨⟨l.takeWhile sep, after.takeWhile sep, tail ++ post, ?_,
    fun a ha => List.mem_takeWhile_imp ha, ⟨?_, fun a ha => List.mem_takeWhile_imp ha⟩,
    fun a ha => ?_⟩, ⟨hw, fun a ha => ?_⟩, ht, fun a ha => ?_⟩
  · conv_lhs => rw [hl, hcore]
    simp only [List.append_assoc]
  · intro hgap
    obtain ⟨b, hb⟩ : ∃ b, after.head? = some b :=
      Option.ne_none_iff_exists'.1 fun h => hnil (List.head?_eq_none_iff.1 h)
    have hsep : sep b = true := by simpa using head?_dropWhile _ _ hb
    rw [List.head?_eq_some_iff] at hb
    obtain ⟨ys, hys⟩ := hb
    rw [hys, List.takeWhile_cons_of_pos hsep] at hgap
    cases hgap
  · rw [Option.mem_def, List.head?_append, Option.or_eq_some_iff] at ha
    rcases ha with ha | ⟨-, ha⟩
    · simpa using head?_dropWhile _ _ ha
    · exact hpost a (List.mem_of_head? ha)
  · rw [← hwords] at ha
    simpa using List.mem_takeWhile_imp ha
  · rw [← hwords'] at ha
    simpa using List.mem_takeWhile_imp ha

theorem head?_append_of {p : α → Prop} {u v : List α} (hu : u ≠ []) (h : ∀ a ∈ u, p a) :
    ∀ a ∈ (u ++ v).head?, p a := by
  intro a ha
  rw [Option.mem_def, List.head?_append_of_ne_nil _ hu] at ha
  exact h a (List.mem_of_head? ha)

theorem Begins.strip (h : Begins sep l w t) : ∃ gap tail, strip sep l = w ++ (gap ++ (t ++ tail)) ∧
    (gap ≠ [] ∧ ∀ a ∈ gap, sep a = true) ∧ ∀ a ∈ tail.head?, sep a = true := by
  obtain ⟨⟨pre, gap, tail, rfl, hpre, hgap, htail⟩, ⟨hw, hwords⟩, ht, hwords'⟩ := h
  refine ⟨gap, tail.rdropWhile sep, ?_, hgap, fun a ha => htail a ?_⟩
  · have hfront : (pre ++ (w ++ (gap ++ (t ++ tail)))).dropWhile sep = w ++ (gap ++ (t ++ tail)) :=
      dropWhile_self hpre (head?_append_of hw hwords)
    obtain ⟨b, hb⟩ : ∃ b, t.getLast? = some b :=
      Option.ne_none_iff_exists'.1 fun h => ht (List.getLast?_eq_none_iff.1 h)
    have hend : (w ++ (gap ++ t)).getLast? = some b := by
      rw [List.getLast?_append, List.getLast?_append, hb]; rfl
    have hback := rdropWhile_append hend (hwords' b (List.mem_of_getLast? hb)) tail
    rw [Words.strip, hfront]
    simpa only [List.append_assoc] using hback
  · obtain ⟨post, hpost⟩ : tail.rdropWhile sep <+: tail := List.rdropWhile_prefix ..
    rw [Option.mem_def] at ha ⊢
    rw [← hpost, List.head?_append, ha, Option.some_or]

/-- **The first two words of a list.** -/
theorem split_strip_iff (hw : w ≠ []) (ht : t ≠ []) :
    (∃ rest, split sep (strip sep l) = w :: t :: rest) ↔ Begins sep l w t := by
  constructor
  · rintro ⟨rest, h⟩
    exact begins_of_split hw ht h
  · intro h
    obtain ⟨gap, tail, hstrip, ⟨hgap, hgaps⟩, htail⟩ := h.strip
    have hwords : ∀ a ∈ w, (!sep a) = true := fun a ha => by rw [h.fst.2 a ha]; rfl
    have hwords' : ∀ a ∈ t, (!sep a) = true := fun a ha => by rw [h.snd.2 a ha]; rfl
    have hstop : ∀ a ∈ (gap ++ (t ++ tail)).head?, (!sep a) = false := by
      intro a ha
      rw [head?_append_of hgap hgaps a ha]; rfl
    have hstop' : ∀ a ∈ tail.head?, (!sep a) = false := fun a ha => by rw [htail a ha]; rfl
    rw [hstrip, split_eq, takeWhile_self hwords hstop, dropWhile_self hwords hstop,
      if_neg (by simp [hgap]), dropWhile_self hgaps (head?_append_of ht h.snd.2), split_eq,
      takeWhile_self hwords' hstop']
    exact ⟨_, rfl⟩

end Words
