/-
  Tasks that run side by side over one store.

  Each settles once, in any order, with a result of its own; `allSettled` waits
  for all of them and gives the results in the order of the tasks.
-/
import Mathlib.Data.List.Nodup
import Mathlib.Data.List.Range

namespace AllSettled

variable {T A S R : Type} {run : T → A → S → S × R} {tasks : List T} {s s' : S}

/-- The store, with the results of the tasks that have settled. -/
structure State (S R : Type) where
  store : S
  results : List (Option R)

/-- Every task has been started, none has settled. -/
def start (tasks : List T) (s : S) : State S R := ⟨s, tasks.map fun _ => none⟩

/-- The task `i` settles, given the answer `a`; a task settles once. -/
def State.settle (run : T → A → S → S × R) (tasks : List T) (p : State S R) (e : ℕ × A) :
    Option (State S R) :=
  match tasks[e.1]?, p.results[e.1]? with
  | some t, some none =>
    let r := run t e.2 p.store
    some ⟨r.1, p.results.set e.1 (some r.2)⟩
  | _, _ => none

/-- The results, when every task has settled. -/
def State.outcome (p : State S R) : Option (S × List R) := (p.results.mapM id).map (p.store, ·)

/-- The tasks settle in the order of the list. -/
def allSettled (run : T → A → S → S × R) (tasks : List T) (s : S) (es : List (ℕ × A)) :
    Option (S × List R) :=
  (es.foldlM (State.settle run tasks) (start tasks s)).bind State.outcome

theorem settle_eq_some {p p' : State S R} {e : ℕ × A} (h : p.settle run tasks e = some p') :
    ∃ t, tasks[e.1]? = some t ∧ p.results[e.1]? = some none ∧
      p' = ⟨(run t e.2 p.store).1, p.results.set e.1 (some (run t e.2 p.store).2)⟩ := by
  unfold State.settle at h
  split at h
  · rename_i t ht hr
    exact ⟨t, ht, hr, (Option.some.inj h).symm⟩
  · cases h

theorem mapM_id_eq_some {l : List (Option R)} {rs : List R} :
    l.mapM id = some rs ↔ l = rs.map some := by
  induction l generalizing rs with
  | nil => cases rs <;> simp
  | cons o l ih =>
    rw [List.mapM_cons]
    simp only [id_eq, Option.bind_eq_bind, Option.bind_eq_some_iff, Option.pure_def,
      Option.some.injEq]
    constructor
    · rintro ⟨r, rfl, rs', hl, rfl⟩
      rw [ih.1 hl, List.map_cons]
    · intro h
      cases rs with
      | nil => cases h
      | cons r rs' =>
        obtain ⟨rfl, hl⟩ := List.cons.inj h
        exact ⟨r, rfl, rs', ih.2 hl, rfl⟩

theorem exists_map_some {l : List (Option R)} (h : none ∉ l) : ∃ rs : List R, l = rs.map some := by
  induction l with
  | nil => exact ⟨[], rfl⟩
  | cons o l ih =>
    obtain ⟨ho, hl⟩ := not_or.1 (mt List.mem_cons.2 h)
    obtain ⟨r, rfl⟩ := Option.ne_none_iff_exists'.1 (Ne.symm ho)
    obtain ⟨rs, rfl⟩ := ih hl
    exact ⟨r :: rs, rfl⟩

/-- **What every settlement preserves holds once all tasks have settled.** -/
theorem allSettled_induction {P : State S R → Prop} (h₀ : P (start tasks s))
    (hstep : ∀ (p : State S R) (i : ℕ) (t : T) (a : A), P p → tasks[i]? = some t →
      p.results[i]? = some none →
      P ⟨(run t a p.store).1, p.results.set i (some (run t a p.store).2)⟩)
    {es : List (ℕ × A)} {rs : List R} (h : allSettled run tasks s es = some (s', rs)) :
    P ⟨s', rs.map some⟩ := by
  obtain ⟨p, hp, hout⟩ := Option.bind_eq_some_iff.1 h
  have hP : P p := by
    clear h hout
    generalize start tasks s = q at h₀ hp
    induction es generalizing q with
    | nil => cases hp; exact h₀
    | cons e es ih =>
      rw [List.foldlM_cons] at hp
      obtain ⟨q', hq, hp⟩ := Option.bind_eq_some_iff.1 hp
      obtain ⟨t, ht, hr, rfl⟩ := settle_eq_some hq
      exact ih _ (hstep q e.1 t e.2 h₀ ht hr) hp
  unfold State.outcome at hout
  obtain ⟨l, hl, hrs⟩ := Option.map_eq_some_iff.1 hout
  cases hrs
  rw [← mapM_id_eq_some.1 hl]
  exact hP

theorem allSettled_length {es : List (ℕ × A)} {rs : List R}
    (h : allSettled run tasks s es = some (s', rs)) : rs.length = tasks.length := by
  have hlen : (rs.map some).length = tasks.length := by
    refine @allSettled_induction _ _ _ _ run tasks s s' (fun p => p.results.length = tasks.length)
      (List.length_map _) (fun p i t a hp _ _ => ?_) es rs h
    rw [List.length_set]
    exact hp
  rwa [List.length_map] at hlen

/-- When each task settles exactly once, in whatever order, all of them settle. -/
theorem exists_allSettled {es : List (ℕ × A)}
    (hes : (es.map Prod.fst).Perm (List.range tasks.length)) :
    ∃ s' rs, allSettled run tasks s es = some (s', rs) := by
  -- the tasks yet to settle are those of the remaining events
  suffices h : ∀ (es : List (ℕ × A)) (p : State S R), (es.map Prod.fst).Nodup →
      p.results.length = tasks.length →
      (∀ i, i < tasks.length → (p.results[i]? = some none ↔ i ∈ es.map Prod.fst)) →
      (∀ e ∈ es, e.1 < tasks.length) →
      ∃ s' rs, ((es.foldlM (State.settle run tasks) p).bind State.outcome) = some (s', rs) by
    refine h es (start tasks s) ?_ (by simp [start]) (fun i hi => ?_) fun e he => ?_
    · exact hes.nodup_iff.2 List.nodup_range
    · simp [start, hes.mem_iff, hi]
    · exact List.mem_range.1 (hes.mem_iff.1 (List.mem_map_of_mem he))
  intro es
  induction es with
  | nil =>
    intro p _ hlen hset _
    have hall : none ∉ p.results := by
      intro hnone
      obtain ⟨i, hi, hget⟩ := List.mem_iff_getElem.1 hnone
      have := (hset i (hlen ▸ hi)).1 (by rw [List.getElem?_eq_getElem hi, hget])
      cases this
    obtain ⟨rs, hrs⟩ := exists_map_some hall
    exact ⟨p.store, rs, by simp [State.outcome, mapM_id_eq_some.2 hrs]⟩
  | cons e es ih =>
    intro p hnd hlen hset hlt
    have hi := hlt e (by simp)
    have hr : p.results[e.1]? = some none := (hset e.1 hi).2 (by simp)
    have hnd' := List.nodup_cons.1 hnd
    rw [List.foldlM_cons]
    simp only [State.settle, List.getElem?_eq_getElem hi, hr, Option.bind_eq_bind,
      Option.bind_some]
    refine ih _ hnd'.2 (by simpa using hlen) (fun j hj => ?_) fun e' he' => hlt e' (by simp [he'])
    by_cases hij : e.1 = j
    · subst hij
      simp [hlen, hi, hnd'.1]
    · rw [List.getElem?_set_ne hij, hset j hj]
      simp [Ne.symm hij]

end AllSettled
