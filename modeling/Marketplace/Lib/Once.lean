/-
  What events leave behind.

  An event may have a topic, and a topic may leave a mark in the store that no
  event removes (`Marks`): then the store shows which topics a history has had
  (`Marks.marked`).  If moreover an event needs a store without the mark of its
  topic, a history has at most one event of each topic (`Marks.nodup`).
-/
import Marketplace.Lib.Simulation

/-- What a list of distinct images comes from is distinct. -/
theorem List.Nodup.filterMap_inj {α β : Type*} {f : α → Option β} {l : List α}
    (h : (l.filterMap f).Nodup) {x y : α} (hx : x ∈ l) (hy : y ∈ l) {b : β} (hxb : f x = some b)
    (hyb : f y = some b) : x = y := by
  induction l with
  | nil => cases hx
  | cons a l ih =>
    have later {z : α} (hz : z ∈ l) (hzb : f z = some b) : b ∈ l.filterMap f :=
      List.mem_filterMap.2 ⟨z, hz, hzb⟩
    rcases List.mem_cons.1 hx with rfl | hx' <;> rcases List.mem_cons.1 hy with rfl | hy'
    · rfl
    · rw [List.filterMap_cons_some hxb] at h
      exact absurd (later hy' hyb) (List.nodup_cons.1 h).1
    · rw [List.filterMap_cons_some hyb] at h
      exact absurd (later hx' hxb) (List.nodup_cons.1 h).1
    · refine ih ?_ hx' hy'
      exact h.sublist ((List.sublist_cons_self a l).filterMap f)

namespace ReadCommitted.Spec

variable {S : Sig} {Q T : Type} (P : Spec S Q)

/-- An event leaves the mark of its topic in the store, for good. -/
structure Marks (topic : P.Event → Option T) (Marked : T → S.Db → Prop) : Prop where
  after : ∀ {q log e L d d' t}, P.emits q log e L d d' → topic e = some t → Marked t d'
  kept : ∀ {q log e L d d' t}, P.base d → P.emits q log e L d d' → Marked t d → Marked t d'

variable {P}

/-- The topics of the events of a history. -/
def History.topics (topic : P.Event → Option T) (h : P.History) : List T :=
  h.filterMap fun x => x.2.2.event?.bind topic

theorem History.mem_topics {topic : P.Event → Option T} {h : P.History} {t : T} :
    t ∈ h.topics topic ↔ ∃ i q e, (i, q, .emit e) ∈ h ∧ topic e = some t := by
  simp only [topics, List.mem_filterMap]
  constructor
  · rintro ⟨⟨i, q, x⟩, hm, hx⟩
    cases x with
    | emit e => exact ⟨i, q, e, hm, hx⟩
    | fault | call => cases hx
  · rintro ⟨i, q, e, hm, he⟩
    exact ⟨(i, q, .emit e), hm, he⟩

variable {topic : P.Event → Option T} {Marked : T → S.Db → Prop} {d₀ d : S.Db} {h : P.History}

theorem History.topics_emit (i : ℕ) (q : Q) (e : P.Event) :
    History.topics topic (h ++ [(i, q, Log.emit e)]) = h.topics topic ++ (topic e).toList := by
  rw [topics, List.filterMap_append]
  cases ht : topic e <;> simp [ht, Log.event?, topics]

theorem History.topics_other (i : ℕ) (q : Q) {x : Log P.Event S.Fault S.Call} (hx : x.event? = none) :
    History.topics topic (h ++ [(i, q, x)]) = h.topics topic := by
  simp [topics, List.filterMap_append, hx]

/-- A session that has gone through one thing has just done so, or another one has moved on. -/
theorem History.of_snoc_eq_singleton {i j : ℕ} {q : Q} {x y : Log P.Event S.Fault S.Call}
    (hl : History.of (h ++ [(i, q, x)]) j = [y]) :
    (i = j ∧ h.of j = [] ∧ x = y) ∨ (i ≠ j ∧ h.of j = [y]) := by
  rw [History.of_append] at hl
  by_cases hij : i = j
  · subst hij
    rw [History.of_cons_self] at hl
    have hlen := congrArg List.length hl
    simp only [List.length_append, List.length_cons, List.length_nil] at hlen
    have hnil : h.of i = [] := List.length_eq_zero_iff.1 (by omega)
    rw [hnil] at hl
    cases hl
    exact Or.inl ⟨rfl, hnil, rfl⟩
  · have hnil : History.of [(i, q, x)] j = [] := History.of_ne hij q [x]
    rw [hnil, List.append_nil] at hl
    exact Or.inr ⟨hij, hl⟩

/-- What a history is about can be seen in the store. -/
theorem Marks.marked (hM : P.Marks topic Marked) (hp : P.Path d₀ h d) {t : T}
    (ht : t ∈ h.topics topic) : Marked t d := by
  induction hp with
  | nil => cases ht
  | fault _ ih | call _ _ _ ih =>
    rw [History.topics_other _ _ rfl] at ht
    exact ih ht
  | emit _ _ hb he ih =>
    rw [History.topics_emit, List.mem_append, Option.mem_toList] at ht
    rcases ht with ht | ht
    · exact hM.kept hb he (ih ht)
    · exact hM.after he ht

section
variable (hM : P.Marks topic Marked) (hbefore : ∀ {q log e L d d' t}, P.emits q log e L d d' →
  topic e = some t → ¬ Marked t d)
include hM hbefore

/-- **An event of a topic happens at most once.** -/
theorem Marks.nodup (hp : P.Path d₀ h d) : (h.topics topic).Nodup := by
  induction hp with
  | nil => exact List.nodup_nil
  | fault _ ih | call _ _ _ ih => rwa [History.topics_other _ _ rfl]
  | @emit h d d' i q e L hp _ _ he ih =>
    rw [History.topics_emit]
    cases ht : topic e with
    | none => rwa [Option.toList_none, List.append_nil]
    | some t =>
      refine List.nodup_append.2 ⟨ih, List.nodup_singleton t, ?_⟩
      rintro t₁ ht₁ t₂ ht₂ rfl
      rw [List.mem_singleton.1 ht₂] at ht₁
      exact hbefore he ht (hM.marked hp ht₁)

/-- Two events of one topic are one. -/
theorem Marks.unique (hp : P.Path d₀ h d) {i j : ℕ} {q q' : Q} {e e' : P.Event} {t : T}
    (hi : (i, q, .emit e) ∈ h) (hj : (j, q', .emit e') ∈ h) (ht : topic e = some t)
    (ht' : topic e' = some t) : i = j ∧ e = e' := by
  have heq := (hM.nodup hbefore hp).filterMap_inj (b := t) hi hj ht ht'
  cases heq
  exact ⟨rfl, rfl⟩

end

end ReadCommitted.Spec
