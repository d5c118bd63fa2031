/-
  Steps taken one after another.

  `Turns.sim` carries a list of steps to another relation, `Turns.insert` makes
  up for a step that comes too late by taking it earlier, when it could be
  taken: it has to be moved back over steps that do not interfere with it.
-/
import Mathlib.Data.List.Basic

/-- The steps `l`, taken one after another, lead from `s` to `t`. -/
inductive Turns {α σ : Type*} (step : α → σ → σ → Prop) (s : σ) : List α → σ → Prop
  | nil : Turns step s [] s
  | snoc {l a t u} : Turns step s l t → step a t u → Turns step s (l ++ [a]) u

namespace Turns

variable {α σ τ : Type*} {step : α → σ → σ → Prop} {s t u u' : σ} {l : List α} {a : α}

theorem sim {step' : α → τ → τ → Prop} {R : σ → τ → Prop}
    (hstep : ∀ a s t s', step a s t → R s s' → ∃ t', step' a s' t' ∧ R t t')
    (h : Turns step s l t) {s' : τ} (hR : R s s') : ∃ t', Turns step' s' l t' ∧ R t t' := by
  induction h with
  | nil => exact ⟨s', .nil, hR⟩
  | snoc _ hst ih =>
    obtain ⟨t', ht', hRt⟩ := ih
    obtain ⟨u', hu', hRu⟩ := hstep _ _ _ _ hst hRt
    exact ⟨u', ht'.snoc hu', hRu⟩

/-- **A step that comes too late**: its effect is that of `a` taken earlier.  It could be taken at first
    and cannot now, and the steps since do to the one store what they do to the other. -/
theorem insert {Early : σ → Prop} {Late : σ → σ → Prop}
    (hstep : ∀ t t', Early t → Late t t' → step a t t')
    (hmove : ∀ b t u u', step b t u → ¬ Early u → Late u u' → ∃ t', Late t t' ∧ step b t' u')
    (h : Turns step s l u) (hs : Early s) (hu : ¬ Early u) (hlate : Late u u') :
    ∃ l₁ l₂, l = l₁ ++ l₂ ∧ Turns step s (l₁ ++ a :: l₂) u' := by
  induction h generalizing u' with
  | nil => exact absurd hs hu
  | @snoc l b t u ht hst ih =>
    obtain ⟨t', hlate', hst'⟩ := hmove b t u u' hst hu hlate
    by_cases hearly : Early t
    · refine ⟨l, [b], rfl, ?_⟩
      have h := (ht.snoc (hstep t t' hearly hlate')).snoc hst'
      rwa [List.append_assoc] at h
    · obtain ⟨l₁, l₂, rfl, h⟩ := ih hearly hlate'
      refine ⟨l₁, l₂ ++ [b], List.append_assoc .., ?_⟩
      have h := h.snoc hst'
      rwa [List.append_assoc, List.cons_append] at h

end Turns
