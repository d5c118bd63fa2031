/-
  Unique indexes.

  READ COMMITTED and row locks do not keep two sessions from writing the same
  value under two keys.  A unique index does: a row version with a new value is
  admitted only if no other row has the value, neither a committed one nor one
  the same transaction has written, and no other session has written it and
  not committed yet.  A statement whose row version is not admitted has to wait
  for that session, or fails.

  In every run an index admits, the committed store keeps the values unique
  (`UniqueIndex.Ok`), and so does what each session sees.
-/
import Marketplace.Lib.Simulation

namespace ReadCommitted

variable {S : Sig} {Q V : Type}

/-! ## The writes of the sessions -/

/-- What a step does to the writes of a session: nothing, or it ends the transaction, or it adds a
    row version. -/
theorem Stage.Next.writes {d d' : S.Db} {st st' : Stage S} (h : st.Next d d' st') :
    (st'.writes = st.writes ∧ d' = d) ∨
    (st'.writes = [] ∧ (d' = d ∨ d' = overlay st.writes d)) ∨
    ∃ w, st'.writes = st.writes ++ [w] ∧ d' = d := by
  cases h with
  | start | call | answer => exact Or.inl ⟨rfl, rfl⟩
  | select | lock | lockNone | updateNone => exact Or.inl ⟨rfl, rfl⟩
  | fault | throw => exact Or.inr (Or.inl ⟨rfl, Or.inl rfl⟩)
  | commit => exact Or.inr (Or.inl ⟨rfl, Or.inr rfl⟩)
  | update | insert => exact Or.inr (Or.inr ⟨_, rfl, rfl⟩)

namespace State

variable {prog : Q → Req S} {s s' : State S Q} {a : Action S Q} {i j : ℕ}

theorem step_writes (h : s.step prog a = some s') :
    ((∀ j, s'.writesOf j = s.writesOf j) ∧ s'.db = s.db) ∨
    ∃ i, a.session? = some i ∧ (∀ j ≠ i, s'.writesOf j = s.writesOf j) ∧
      ((s'.writesOf i = [] ∧ (s'.db = s.db ∨ s'.db = overlay (s.writesOf i) s.db)) ∨
        ∃ w, s'.writesOf i = s.writesOf i ++ [w] ∧ s'.db = s.db) := by
  rcases step_cases h with ⟨q, -, rfl⟩ | ⟨-, rfl⟩ | ⟨i, q, st, st', ha, hm⟩
  · refine Or.inl ⟨fun j => ?_, rfl⟩
    simp only [writesOf, List.getElem?_append]
    split_ifs with hlt
    · rfl
    · rw [List.getElem?_eq_none (Nat.le_of_not_lt hlt)]
      cases hj : [(q, Stage.idle (prog q))][j - s.sessions.length]? with
      | none => rfl
      | some p =>
        obtain ⟨-, rfl⟩ := List.mem_singleton.1 (List.mem_of_getElem? hj)
        rfl
  · exact Or.inl ⟨fun _ => rfl, rfl⟩
  · have hi := writesOf_eq hm.session
    have hi' : s'.writesOf i = st'.writes := by
      rw [writesOf, hm.sessions, Spec.sessions_set_self hm.session]
      rfl
    have hj : ∀ j ≠ i, s'.writesOf j = s.writesOf j := fun j hj => by
      simp only [writesOf, hm.sessions, List.getElem?_set_ne (Ne.symm hj)]
    rcases hm.next.writes with ⟨hw, hd⟩ | ⟨hw, hd⟩ | ⟨w, hw, hd⟩
    · refine Or.inl ⟨fun j => ?_, hd⟩
      by_cases hji : j = i
      · rw [hji, hi', hi, hw]
      · exact hj j hji
    · exact Or.inr ⟨i, ha, hj, Or.inl ⟨hi'.trans hw, by rwa [hi]⟩⟩
    · exact Or.inr ⟨i, ha, hj, Or.inr ⟨w, by rw [hi', hi, hw], hd⟩⟩

/-- No two sessions have written the same row. -/
def Exclusive (s : State S Q) : Prop :=
  ∀ i j, i ≠ j → ∀ k ∈ (s.writesOf i).map Sigma.fst, k ∉ (s.writesOf j).map Sigma.fst

end State

/-- Locks keep sessions from writing the same row. -/
theorem Spec.Sim.exclusive {P : Spec S Q} {d₀ : S.Db} {s : State S Q} {h : P.History}
    (hs : P.Sim d₀ s h) : s.Exclusive := by
  intro i j hij k hk hk'
  obtain ⟨w, hw, rfl⟩ := List.mem_map.1 hk
  obtain ⟨w', hw', hk'⟩ := List.mem_map.1 hk'
  exact hs.guarded i j hij w' hw' (hk' ▸ hs.locked hw)

/-! ## Indexes -/

/-- A unique index: the value of a row, and the rows of a store that have a value. -/
structure UniqueIndex (S : Sig) (V : Type) where
  val : (k : S.Key) → S.Row k → Option V
  holders : S.Db → V → List S.Key
  mem_holders : ∀ {d v k}, k ∈ holders d v ↔ (S.get d k).bind (val k) = some v

namespace UniqueIndex
variable (I : UniqueIndex S V)

/-- The row under `k` has the value `v`. -/
abbrev Holds (d : S.Db) (k : S.Key) (v : V) : Prop := (S.get d k).bind (I.val k) = some v

/-- No two rows have the same value. -/
def Unique (d : S.Db) : Prop := ∀ k k' v, I.Holds d k v → I.Holds d k' v → k = k'

section
variable [DecidableEq V]

/-- The row version `w` of session `i` enters the index: its value is not new, or no other row and no
    other session has it. -/
def enters (s : State S Q) (i : ℕ) (w : Write S) : Bool :=
  (I.val w.1 w.2).all fun v =>
    (S.get (overlay (s.writesOf i) s.db) w.1).bind (I.val w.1) = some v ||
      (((I.holders (overlay (s.writesOf i) s.db) v).all fun k => k = w.1) &&
        (List.range s.sessions.length).all fun j =>
          j = i || (s.writesOf j).all fun w' => I.val w'.1 w'.2 ≠ some v)

/-- The row versions an action writes between `s` and `s'` enter the index. -/
def admits (s s' : State S Q) (a : Action S Q) : Bool :=
  a.session?.all fun i => ((s'.writesOf i).drop (s.writesOf i).length).all fun w => I.enters s i w

/-- The state after the actions, if they are all possible and the index admits them. -/
def run (prog : Q → Req S) (s : State S Q) : List (Action S Q) → Option (State S Q)
  | [] => some s
  | a :: as => (s.step prog a).bind fun s' => if I.admits s s' a then run prog s' as else none

end

variable {I} {d d' : S.Db} {ws ws' : List (Write S)} {k k' : S.Key} {v : V}

theorem holds_of_mem (hk : k ∈ ws.map Sigma.fst) :
    I.Holds (overlay ws d) k v ↔ I.Holds (overlay ws d') k v := by
  rw [Holds, Holds, (get_overlay_of_mem hk d d').1]

theorem holds_of_not_mem (hk : k ∉ ws.map Sigma.fst) :
    I.Holds (overlay ws d) k v ↔ I.Holds d k v := by
  rw [Holds, Holds, get_overlay_of_not_mem hk]

theorem holds_put {r : S.Row k} :
    I.Holds (S.put d k r) k' v ↔ k' = k ∧ I.val k r = some v ∨ k' ≠ k ∧ I.Holds d k' v := by
  by_cases hk : k' = k
  · subst hk
    simp [Holds, S.get_put]
  · simp [Holds, S.get_put_ne _ _ _ _ hk, hk]

variable {s s' : State S Q} {i j : ℕ} {w : Write S} {prog : Q → Req S} {a : Action S Q}

theorem enters_iff [DecidableEq V] (h : I.enters s i w = true) (hv : I.val w.1 w.2 = some v) :
    I.Holds (overlay (s.writesOf i) s.db) w.1 v ∨
    (∀ k, I.Holds (overlay (s.writesOf i) s.db) k v → k = w.1) ∧
      ∀ j ≠ i, ∀ w' ∈ s.writesOf j, I.val w'.1 w'.2 ≠ some v := by
  simp only [enters, hv, Option.all_some, Bool.or_eq_true, Bool.and_eq_true, List.all_eq_true,
    decide_eq_true_eq, List.mem_range] at h
  refine h.imp_right fun ⟨hk, hj⟩ => ⟨fun k hk' => hk k (I.mem_holders.2 hk'), fun j hji w' hw => ?_⟩
  have hlt : j < s.sessions.length := by
    by_contra hge
    simp [State.writesOf, List.getElem?_eq_none (Nat.le_of_not_lt hge)] at hw
  exact (hj j hlt).resolve_left hji w' hw

/-! ## What an index keeps -/

variable (I) in
/-- What every session sees has unique values, and no two sessions have written the same value. -/
structure Ok (s : State S Q) : Prop where
  own : ∀ i, I.Unique (overlay (s.writesOf i) s.db)
  apart : ∀ i j, i ≠ j → ∀ k ∈ (s.writesOf i).map Sigma.fst, ∀ k' ∈ (s.writesOf j).map Sigma.fst,
    ∀ v, I.Holds (overlay (s.writesOf i) s.db) k v → ¬ I.Holds (overlay (s.writesOf j) s.db) k' v

theorem Ok.unique (h : I.Ok s) : I.Unique s.db := by
  have := h.own s.sessions.length
  rwa [State.writesOf, List.getElem?_eq_none (Nat.le_refl _)] at this

theorem Ok.init {seq : S.Tab → ℕ} (h : I.Unique d) : I.Ok (State.init d seq : State S Q) :=
  ⟨fun _ => h, fun _ _ _ _ hk => by cases hk⟩

/-- A session that ends its transaction leaves the written values of the others apart. -/
theorem Ok.apart_ended (h : I.Ok s) (hi : s'.writesOf i = [])
    (hj : ∀ j ≠ i, s'.writesOf j = s.writesOf j) (a b : ℕ) (hab : a ≠ b) :
    ∀ k ∈ (s'.writesOf a).map Sigma.fst, ∀ k' ∈ (s'.writesOf b).map Sigma.fst,
      ∀ v, I.Holds (overlay (s'.writesOf a) s'.db) k v →
        ¬ I.Holds (overlay (s'.writesOf b) s'.db) k' v := by
  intro k hk k' hk' v
  by_cases ha : a = i
  · rw [ha, hi] at hk; cases hk
  by_cases hb : b = i
  · rw [hb, hi] at hk'; cases hk'
  rw [hj a ha] at hk ⊢
  rw [hj b hb] at hk' ⊢
  rw [holds_of_mem hk, holds_of_mem hk']
  exact h.apart a b hab k hk k' hk' v

theorem Ok.rollback (h : I.Ok s) (hi : s'.writesOf i = []) (hd : s'.db = s.db)
    (hj : ∀ j ≠ i, s'.writesOf j = s.writesOf j) : I.Ok s' where
  own j := by
    rw [hd]
    by_cases hji : j = i
    · rw [hji, hi]; exact h.unique
    · rw [hj j hji]; exact h.own j
  apart := h.apart_ended hi hj

/-- A commit publishes the values of its session; no other session has written one of them. -/
theorem Ok.commit (h : I.Ok s) (hi : s'.writesOf i = [])
    (hd : s'.db = overlay (s.writesOf i) s.db) (hj : ∀ j ≠ i, s'.writesOf j = s.writesOf j) :
    I.Ok s' where
  own j := by
    rw [hd]
    by_cases hji : j = i
    · rw [hji, hi]; exact h.own i
    rw [hj j hji]
    -- a value is one the session has written, or one of the commit below
    have cases' {k v} (hk : I.Holds (overlay (s.writesOf j) (overlay (s.writesOf i) s.db)) k v) :
        k ∈ (s.writesOf j).map Sigma.fst ∧ I.Holds (overlay (s.writesOf j) s.db) k v ∨
        k ∉ (s.writesOf j).map Sigma.fst ∧ I.Holds (overlay (s.writesOf i) s.db) k v := by
      by_cases hm : k ∈ (s.writesOf j).map Sigma.fst
      · exact Or.inl ⟨hm, (holds_of_mem hm).1 hk⟩
      · exact Or.inr ⟨hm, (holds_of_not_mem hm).1 hk⟩
    have mixed {k k' v} (hm : k ∈ (s.writesOf j).map Sigma.fst)
        (hk : I.Holds (overlay (s.writesOf j) s.db) k v) (hm' : k' ∉ (s.writesOf j).map Sigma.fst)
        (hk' : I.Holds (overlay (s.writesOf i) s.db) k' v) : k = k' := by
      by_cases hmi : k' ∈ (s.writesOf i).map Sigma.fst
      · exact absurd hk' (h.apart j i hji k hm k' hmi v hk)
      · refine h.own j k k' v hk ((holds_of_not_mem hm').2 ?_)
        exact (holds_of_not_mem hmi).1 hk'
    intro k k' v hk hk'
    rcases cases' hk with ⟨hm, hk⟩ | ⟨hm, hk⟩ <;> rcases cases' hk' with ⟨hm', hk'⟩ | ⟨hm', hk'⟩
    · exact h.own j k k' v hk hk'
    · exact mixed hm hk hm' hk'
    · exact (mixed hm' hk' hm hk).symm
    · exact h.own i k k' v hk hk'
  apart := h.apart_ended hi hj

theorem Ok.write [DecidableEq V] (h : I.Ok s) (hex : s'.Exclusive) (hw : I.enters s i w = true)
    (hi : s'.writesOf i = s.writesOf i ++ [w]) (hd : s'.db = s.db)
    (hj : ∀ j ≠ i, s'.writesOf j = s.writesOf j) : I.Ok s' := by
  have hput : overlay (s'.writesOf i) s'.db = S.put (overlay (s.writesOf i) s.db) w.1 w.2 := by
    rw [hi, hd, overlay_append]; rfl
  have apart (j) (hji : j ≠ i) (k) (hk : k ∈ (s'.writesOf i).map Sigma.fst) (k')
      (hk' : k' ∈ (s'.writesOf j).map Sigma.fst) (v) (hv : I.Holds (overlay (s'.writesOf i) s'.db) k v)
      (hv' : I.Holds (overlay (s'.writesOf j) s'.db) k' v) : False := by
    have hne := hex i j (Ne.symm hji)
    have hkey := hne k hk
    have hkk' : k ≠ k' := fun e => hkey (e ▸ hk')
    rw [hj j hji] at hk' hv' hkey
    rw [hd] at hv'
    -- the value was there before: in the session, or committed
    have old (hv : I.Holds (overlay (s.writesOf i) s.db) k v) : False := by
      by_cases hm : k ∈ (s.writesOf i).map Sigma.fst
      · exact h.apart i j (Ne.symm hji) k hm k' hk' v hv hv'
      · refine hkk' (h.own j k k' v ((holds_of_not_mem hkey).2 ?_) hv')
        exact (holds_of_not_mem hm).1 hv
    rw [hput, holds_put] at hv
    rcases hv with ⟨rfl, hv⟩ | ⟨-, hv⟩
    · rcases enters_iff hw hv with hold | ⟨-, hnew⟩
      · exact old hold
      · obtain ⟨-, r, hr, hm⟩ := get_overlay_of_mem hk' s.db s.db
        rw [Holds, hr] at hv'
        exact hnew j hji _ hm hv'
    · exact old hv
  refine ⟨fun j => ?_, fun j l hjl k hk k' hk' v hv hv' => ?_⟩
  · by_cases hji : j = i
    · rw [hji, hput]
      intro k k' v hk hk'
      rw [holds_put] at hk hk'
      have other {k} (hv : I.val w.1 w.2 = some v) (hne : k ≠ w.1)
          (hk : I.Holds (overlay (s.writesOf i) s.db) k v) : False := by
        rcases enters_iff hw hv with hold | ⟨hnew, -⟩
        · exact hne (h.own i _ _ v hk hold)
        · exact hne (hnew k hk)
      rcases hk with ⟨rfl, hv⟩ | ⟨hne, hk⟩ <;> rcases hk' with ⟨rfl, hv'⟩ | ⟨hne', hk'⟩
      · rfl
      · exact (other hv hne' hk').elim
      · exact (other hv' hne hk).elim
      · exact h.own i k k' v hk hk'
    · rw [hj j hji, hd]; exact h.own j
  · by_cases hji : j = i
    · subst hji
      exact apart l (Ne.symm hjl) k hk k' hk' v hv hv'
    by_cases hli : l = i
    · subst hli
      exact apart j hjl k' hk' k hk v hv' hv
    rw [hj j hji] at hk hv
    rw [hj l hli] at hk' hv'
    rw [hd] at hv hv'
    exact h.apart j l hjl k hk k' hk' v hv hv'

/-- **A step the index admits keeps the values unique.** -/
theorem Ok.step [DecidableEq V] (h : I.Ok s) (hex : s'.Exclusive) (hs : s.step prog a = some s')
    (ha : I.admits s s' a = true) : I.Ok s' := by
  rcases State.step_writes hs with ⟨hj, hd⟩ | ⟨i, hi, hj, ⟨hnil, hd | hd⟩ | ⟨w, hw, hd⟩⟩
  · exact ⟨fun j => by rw [hj, hd]; exact h.own j, fun j l hjl => by
      rw [hj, hj, hd]; exact h.apart j l hjl⟩
  · exact h.rollback hnil hd hj
  · exact h.commit hnil hd hj
  · refine h.write hex ?_ hw hd hj
    simpa [admits, hi, hw] using ha

/-! ## Runs -/

section
variable [DecidableEq V] {s₀ : State S Q} {acts as : List (Action S Q)}

theorem run_snoc : I.run prog s (as ++ [a]) = some s' ↔
    ∃ t, I.run prog s as = some t ∧ t.step prog a = some s' ∧ I.admits t s' a = true := by
  induction as generalizing s with
  | nil => simp [run, Option.bind_eq_some_iff]
  | cons b as ih =>
    simp only [List.cons_append, run, Option.bind_eq_some_iff, Option.ite_none_right_eq_some, ih]
    constructor
    · rintro ⟨t, hb, hadm, u, hu⟩
      exact ⟨u, ⟨t, hb, hadm, hu.1⟩, hu.2⟩
    · rintro ⟨u, ⟨t, hb, hadm, hu⟩, hs⟩
      exact ⟨t, hb, hadm, u, hu, hs⟩

theorem run_induction {J : List (Action S Q) → State S Q → Prop} (h₀ : J [] s₀)
    (hstep : ∀ as a s s', I.run prog s₀ as = some s → s.step prog a = some s' →
      I.admits s s' a = true → J as s → J (as ++ [a]) s') (hrun : I.run prog s₀ acts = some s) :
    J acts s := by
  induction acts using List.reverseRecOn generalizing s with
  | nil => cases hrun; exact h₀
  | append_singleton as a ih =>
    obtain ⟨t, ht, hta, hadm⟩ := run_snoc.1 hrun
    exact hstep as a t s ht hta hadm (ih ht)

theorem run_of_run (hrun : I.run prog s₀ acts = some s) : s₀.run prog acts = some s :=
  run_induction (J := fun as s => s₀.run prog as = some s) rfl
    (fun _ _ s _ _ hs _ h => State.run_snoc.2 ⟨s, h, hs⟩) hrun

/-- **In every run the index admits the values are unique**, in the committed store and in what each
    session sees. -/
theorem Ok.run (hex : ∀ as s, s₀.run prog as = some s → s.Exclusive) (h₀ : I.Ok s₀)
    (hrun : I.run prog s₀ acts = some s) : I.Ok s :=
  run_induction (J := fun _ s => I.Ok s) h₀ (fun _ _ s _ hs hst hadm h =>
    h.step (hex _ _ (State.run_snoc.2 ⟨s, run_of_run hs, hst⟩)) hst hadm) hrun

end

end UniqueIndex

end ReadCommitted
