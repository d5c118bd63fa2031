/-
  Parts of a request that may fail without consequences.

  A detour is a program in which a request may wander, but after which it gives
  a reply that is fixed when the detour begins.  If the detours write nothing
  the other parts of the requests read (`Core`), then what fails in them does
  not matter: every run is matched by a run with the same steps outside of the
  detours in which no detour is disturbed, and the two agree on the core of the
  store and on all replies (`Detours.undisturbed_run`).
-/
import Marketplace.Lib.Simulation
import Marketplace.Lib.TwoRun

namespace ReadCommitted

variable {S : Sig} {Q : Type}

/-- The stages of a session from the program `p` on, before it goes on at `k`. -/
inductive Stage.Within (p k : Req S) : Stage S → Prop
  | enter : Within p k (.idle p)
  | next {d d' st st'} : Within p k st → st.Next d d' st' → st' ≠ .idle k → Within p k st'

/-! ## The core of a store -/

/-- What two stores have in common, the rows and the sequences that belong to it. -/
structure Core (S : Sig) where
  Same : S.Db → S.Db → Prop
  equiv : Equivalence Same
  put : ∀ d d' k r, Same d d' → Same (S.put d k r) (S.put d' k r)
  row : S.Key → Prop
  get : ∀ {k d d'}, row k → Same d d' → S.get d k = S.get d' k
  tab : S.Tab → Prop
  serial : ∀ {t}, tab t → ∀ n, row (S.serial t n)
  comm : ∀ {k k'} (d r r'), row k → ¬ row k' →
    Same (S.put (S.put d k r) k' r') (S.put (S.put d k' r') k r)

namespace Core
variable (C : Core S) {d d' : S.Db} {ws ws' : List (Write S)}

theorem overlay (h : C.Same d d') (ws : List (Write S)) :
    C.Same (overlay ws d) (ReadCommitted.overlay ws d') := overlay_related C.put h ws

/-- Writes outside of the core commute with a write to it. -/
theorem overlay_put {k : S.Key} (r : S.Row k) (hk : C.row k) (hws : ∀ w ∈ ws, ¬ C.row w.1)
    (d : S.Db) : C.Same (ReadCommitted.overlay ws (S.put d k r))
      (S.put (ReadCommitted.overlay ws d) k r) := by
  induction ws generalizing d with
  | nil => exact C.equiv.refl _
  | cons w ws ih =>
    have hcomm := C.overlay (C.comm d r w.2 hk (hws w List.mem_cons_self)) ws
    exact C.equiv.trans hcomm (ih (fun w' hw => hws w' (List.mem_cons_of_mem _ hw)) _)

/-- Writes that do not change the core do not change it after writes to it either. -/
theorem light_overlay (hws : ∀ w ∈ ws, C.row w.1) (hws' : ∀ w ∈ ws', ¬ C.row w.1)
    (h : C.Same d (ReadCommitted.overlay ws' d)) :
    C.Same (ReadCommitted.overlay ws d) (ReadCommitted.overlay ws' (ReadCommitted.overlay ws d)) := by
  induction ws generalizing d with
  | nil => exact h
  | cons w ws ih =>
    refine ih (fun w' hw => hws w' (List.mem_cons_of_mem _ hw)) ?_
    exact C.equiv.trans (C.put _ _ _ _ h)
      (C.equiv.symm (C.overlay_put w.2 (hws w List.mem_cons_self) hws' d))

end Core

/-- The transaction reads and writes the core only. -/
def Tx.Oblivious (C : Core S) {β : Type} : Tx S β → Prop
  | .commit _ => True
  | .throw _ => True
  | .select g c => (∀ d d', C.Same d d' → g d = g d') ∧ ∀ x, (c x).Oblivious C
  | .lock key c => C.row key ∧ ∀ r, (c r).Oblivious C
  | .update key _ _ c => C.row key ∧ ∀ n, (c n).Oblivious C
  | .insert t _ c => C.tab t ∧ ∀ n r, (c n r).Oblivious C

/-- The transaction does not change the core. -/
def Tx.Harmless (C : Core S) {β : Type} : Tx S β → Prop
  | .commit _ => True
  | .throw _ => True
  | .select _ c => ∀ x, (c x).Harmless C
  | .lock _ c => ∀ r, (c r).Harmless C
  | .update key p f c =>
    (¬ C.row key ∧ ∀ d r, S.get d key = some r → p r = true → C.Same d (S.put d key (f r))) ∧
      ∀ n, (c n).Harmless C
  | .insert t row c =>
    (∀ d now n, ¬ C.row (S.serial t n) ∧ C.Same d (S.put d (S.serial t n) (row now n))) ∧
      ∀ n r, (c n r).Harmless C

/-- The program does not change the core, and ends with the reply `r`. -/
def Req.Tail (C : Core S) (r : S.Reply) : Req S → Prop
  | .done r' => r' = r
  | .tx body k => body.Harmless C ∧ ∀ x, (k x).Tail C r
  | .call _ k => ∀ x, (k x).Tail C r

/-- The session does not change the core any more, and ends with the reply `r`. -/
def Stage.Tail (C : Core S) (r : S.Reply) : Stage S → Prop
  | .idle p => p.Tail C r
  | .active _ ws _ body k => (∀ w ∈ ws, ¬ C.row w.1) ∧ body.Harmless C ∧ ∀ x, (k x).Tail C r
  | .waiting k => ∀ x, (k x).Tail C r

theorem Stage.Tail.next {C : Core S} {r : S.Reply} {d d' : S.Db} {st st' : Stage S}
    (h : st.Tail C r) (hn : st.Next d d' st') : st'.Tail C r := by
  cases hn with
  | start => exact ⟨by simp, h⟩
  | call => exact h
  | answer x => exact h x
  | fault f => exact h.2.2 _
  | commit => exact h.2.2 _
  | throw => exact h.2.2 _
  | select | lock | lockNone => exact ⟨h.1, h.2.1 _, h.2.2⟩
  | updateNone => exact ⟨h.1, h.2.1.2 _, h.2.2⟩
  | update =>
    refine ⟨fun w hw => ?_, h.2.1.2 _, h.2.2⟩
    rcases List.mem_append.1 hw with hw | hw
    · exact h.1 w hw
    · rw [List.mem_singleton.1 hw]; exact h.2.1.1.1
  | insert n =>
    refine ⟨fun w hw => ?_, h.2.1.2 _ _, h.2.2⟩
    rcases List.mem_append.1 hw with hw | hw
    · exact h.1 w hw
    · rw [List.mem_singleton.1 hw]; exact (h.2.1.1 d 0 n).1

/-- Its uncommitted writes do not change the core, so its commit does not. -/
theorem Stage.Tail.light {C : Core S} {r : S.Reply} {d d' : S.Db} {st st' : Stage S}
    (h : st.Tail C r) (hn : st.Next d d' st') (hl : C.Same d (overlay st.writes d)) :
    C.Same d d' ∧ C.Same d' (overlay st'.writes d') := by
  have same : C.Same d d := C.equiv.refl d
  cases hn with
  | commit => exact ⟨hl, C.equiv.refl _⟩
  | update hg hp =>
    refine ⟨same, ?_⟩
    simp only [Stage.writes, overlay_append]
    exact C.equiv.trans hl (h.2.1.1.2 _ _ hg hp)
  | insert n =>
    refine ⟨same, ?_⟩
    simp only [Stage.writes, overlay_append]
    exact C.equiv.trans hl (h.2.1.1 _ _ n).2
  | start | call | answer | fault | throw => exact ⟨same, same⟩
  | select | lock | lockNone | updateNone => exact ⟨same, hl⟩

/-! ## Detours -/

/-- Detours, with the replies after them, and the replies that report a failure. -/
structure Detours (S : Sig) where
  core : Core S
  prog : Req S → S.Reply → Prop
  failed : S.Reply → Prop
  tail : ∀ {p r}, prog p r → p.Tail core r
  ne_done : ∀ {p r}, prog p r → ∀ r', p ≠ .done r'
  good : ∀ {p r}, prog p r → ¬ failed r
  /-- the database can fail a statement -/
  fault : S.Fault

namespace Detours
variable (D : Detours S)

/-- The session is on a detour. -/
def On (st : Stage S) : Prop := ∃ p r, D.prog p r ∧ st.Within p (.done r)

/-- The program reads and writes the core only, up to a detour, and a statement the database fails
    ends it with a failure. -/
inductive Main : Req S → Prop
  | done (r) : Main (.done r)
  | tx {β} {body : Tx S β} {k} : body.Oblivious D.core →
    (∀ f, ∃ r, D.failed r ∧ k (.error (.db f)) = .done r) → (∀ x, Main (k x)) → Main (.tx body k)
  | detour {p r} : D.prog p r → Main p

/-- The session is not on a detour. -/
inductive Before : Stage S → Prop
  | done (r) : Before (.idle (.done r))
  | start {β} {body : Tx S β} {k} : body.Oblivious D.core →
    (∀ f, ∃ r, D.failed r ∧ k (.error (.db f)) = .done r) → (∀ x, D.Main (k x)) →
    Before (.idle (.tx body k))
  | active {β now ws locks} {body : Tx S β} {k} : (∀ w ∈ ws, D.core.row w.1) →
    body.Oblivious D.core → (∀ f, ∃ r, D.failed r ∧ k (.error (.db f)) = .done r) →
    (∀ x, D.Main (k x)) → Before (.active now ws locks body k)

variable {D}

theorem Main.stage {p : Req S} (h : D.Main p) :
    D.Before (.idle p) ∨ ∃ r, D.prog p r := by
  cases h with
  | done r => exact Or.inl (.done r)
  | tx ho hf hk => exact Or.inl (.start ho hf hk)
  | detour hp => exact Or.inr ⟨_, hp⟩

theorem tail_of_within {p : Req S} {r : S.Reply} (hp : D.prog p r) {st : Stage S}
    (h : st.Within p (.done r)) : st.Tail D.core r := by
  induction h with
  | enter => exact D.tail hp
  | next _ hn _ ih => exact ih.next hn

theorem On.ne_done {st : Stage S} (h : D.On st) (r' : S.Reply) : st ≠ .idle (.done r') := by
  obtain ⟨p, r, hp, h⟩ := h
  rintro rfl
  cases h with
  | enter => exact D.ne_done hp r' rfl
  | next h hn hne =>
    obtain rfl : r' = r := (tail_of_within hp h).next hn
    exact hne rfl

theorem Before.not_on {st : Stage S} (h : D.Before st) : ¬ D.On st := by
  intro hon
  have hne := hon.ne_done
  obtain ⟨p, r, hp, hw⟩ := hon
  have ht := tail_of_within hp hw
  -- a failed statement ends a detour with the good reply
  have good {β : Type} {k : Except (Failure S.Fault S.Error) β → Req S}
      (hf : ∀ f, ∃ r, D.failed r ∧ k (.error (.db f)) = .done r) (hk : ∀ x, (k x).Tail D.core r) :
      False := by
    obtain ⟨r', hr', hkr⟩ := hf D.fault
    have := hk (.error (.db D.fault))
    rw [hkr] at this
    exact D.good hp ((show r' = r from this) ▸ hr')
  cases h with
  | done r' => exact hne r' rfl
  | start _ hf => exact good hf ht.2
  | active _ _ hf => exact good hf ht.2.2

theorem Before.next {st st' : Stage S} {d d' : S.Db} (h : D.Before st) (hn : st.Next d d' st') :
    D.Before st' ∨ ∃ p r, D.prog p r ∧ st' = .idle p := by
  have idle {p : Req S} (hp : D.Main p) :
      D.Before (.idle p) ∨ ∃ p' r, D.prog p' r ∧ Stage.idle p = .idle p' :=
    hp.stage.imp_right fun ⟨r, hr⟩ => ⟨p, r, hr, rfl⟩
  cases h with
  | done => cases hn
  | start ho hf hk =>
    cases hn
    exact Or.inl (.active (by simp) ho hf hk)
  | active hw ho hf hk =>
    cases hn with
    | fault | commit | throw => exact idle (hk _)
    | select | lock | lockNone | updateNone => exact Or.inl (.active hw (ho.2 _) hf hk)
    | update =>
      refine Or.inl (.active (fun w hm => ?_) (ho.2 _) hf hk)
      rcases List.mem_append.1 hm with hm | hm
      · exact hw w hm
      · rw [List.mem_singleton.1 hm]; exact ho.1
    | insert n =>
      refine Or.inl (.active (fun w hm => ?_) (ho.2 _ _) hf hk)
      rcases List.mem_append.1 hm with hm | hm
      · exact hw w hm
      · rw [List.mem_singleton.1 hm]; exact D.core.serial ho.1 n

theorem within_next {p : Req S} {r : S.Reply} {st st' : Stage S} {d d' : S.Db}
    (h : st.Within p (.done r)) (hn : st.Next d d' st') :
    st'.Within p (.done r) ∨ st' = .idle (.done r) := by
  by_cases hst : st' = .idle (.done r)
  · exact Or.inr hst
  · exact Or.inl (h.next hn hst)

theorem before_or_on {prog : Q → Req S} {acts : List (Action S Q)} {s : State S Q} {d₀ : S.Db}
    {seq : S.Tab → ℕ} {A : Q → Prop} (hprog : ∀ q, A q → D.Main (prog q))
    (hrun : (State.init d₀ seq).run prog acts = some s) {i : ℕ} {q : Q} {st : Stage S}
    (hi : s.sessions[i]? = some (q, st)) (hq : A q) : D.Before st ∨ D.On st := by
  refine State.run_stages (J := fun q st => A q → D.Before st ∨ D.On st) (fun q _ hq => ?_)
    (fun q d st d' st' h hn hq => ?_) hrun hi hq
  · exact (hprog q hq).stage.imp_right fun ⟨r, hr⟩ => ⟨_, r, hr, .enter⟩
  · rcases h hq with h | ⟨p, r, hp, h⟩
    · exact (h.next hn).imp_right fun ⟨p, r, hp, he⟩ => ⟨p, r, hp, he ▸ .enter⟩
    · rcases within_next h hn with h | rfl
      · exact Or.inr ⟨p, r, hp, h⟩
      · exact Or.inl (.done r)

end Detours

/-! ## Runs without disturbance -/

namespace State
variable (N : Stage S → Prop) (prog : Q → Req S) (fails : Action S Q → Prop)

/-- The action is one of a session at a stage in `N`. -/
def At (s : State S Q) (a : Action S Q) : Prop :=
  ∃ i q st, a.session? = some i ∧ s.sessions[i]? = some (q, st) ∧ N st

open Classical in
/-- The actions of a run that are not taken at a stage in `N`. -/
noncomputable def outside (s : State S Q) : List (Action S Q) → List (Action S Q)
  | [] => []
  | a :: as => (if s.At N a then [] else [a]) ++ (s.step prog a).elim [] fun s' => s'.outside as

/-- No action that is taken at a stage in `N` is one of `fails`. -/
def Undisturbed (s : State S Q) : List (Action S Q) → Prop
  | [] => True
  | a :: as => (s.At N a → ¬ fails a) ∧ ∀ s', s.step prog a = some s' → s'.Undisturbed as

variable {N prog fails} {s s' : State S Q} {a : Action S Q} {acts as bs : List (Action S Q)}

theorem outside_append (h : s.run prog as = some s') :
    s.outside N prog (as ++ bs) = s.outside N prog as ++ s'.outside N prog bs := by
  induction as generalizing s with
  | nil => cases h; rfl
  | cons a as ih =>
    obtain ⟨t, ht, h⟩ := Option.bind_eq_some_iff.1 h
    simp only [List.cons_append, outside, ht, Option.elim_some, ih h, List.append_assoc]

theorem undisturbed_append (h : s.run prog as = some s') (has : s.Undisturbed N prog fails as)
    (hbs : s'.Undisturbed N prog fails bs) : s.Undisturbed N prog fails (as ++ bs) := by
  induction as generalizing s with
  | nil => cases h; exact hbs
  | cons a as ih =>
    obtain ⟨t, ht, h⟩ := Option.bind_eq_some_iff.1 h
    refine ⟨has.1, fun t' ht' => ?_⟩
    rw [ht] at ht'; cases ht'
    exact ih h (has.2 t ht)

theorem outside_of_at (h : s.At N a) : s.outside N prog [a] = [] := by
  simp only [outside, h, if_true, List.nil_append]
  cases s.step prog a <;> rfl

theorem outside_of_not_at (h : ¬ s.At N a) : s.outside N prog [a] = [a] := by
  simp only [outside, h, if_false]
  cases s.step prog a <;> simp

theorem undisturbed_of_not_at (h : ¬ s.At N a) : s.Undisturbed N prog fails [a] :=
  ⟨fun h' => absurd h' h, fun _ _ => trivial⟩

end State

/-! ## The undisturbed run -/

namespace Detours
variable (D : Detours S) (prog : Q → Req S) (fails : Action S Q → Prop)

/-- Session `i` can finish a detour without disturbance, at once. -/
def Finishes (s : State S Q) (i : ℕ) (q : Q) (r : S.Reply) : Prop :=
  ∃ acts t, s.run prog acts = some t ∧ s.outside D.On prog acts = [] ∧
    s.Undisturbed D.On prog fails acts ∧ t.sessions = s.sessions.set i (q, .idle (.done r)) ∧
    D.core.Same s.db t.db ∧ t.clock = s.clock ∧ ∀ x, D.core.tab x → t.seq x = s.seq x

/-- Every detour can be finished. -/
def Completes : Prop :=
  ∀ (s : State S Q) (i : ℕ) q p r, D.prog p r → s.sessions[i]? = some (q, .idle p) →
    D.Finishes prog fails s i q r

/-- A session of the undisturbed run waits before a detour until the other one has finished it. -/
def Pair (st st' : Stage S) : Prop :=
  (D.Before st ∧ st' = st) ∨ ∃ p r, D.prog p r ∧ st.Within p (.done r) ∧ st' = .idle p

/-- A state and the one of the undisturbed run. -/
structure Rel (s s' : State S Q) : Prop where
  same : D.core.Same s.db s'.db
  clock : s'.clock = s.clock
  seq : ∀ t, D.core.tab t → s'.seq t = s.seq t
  length : s'.sessions.length = s.sessions.length
  stages : ∀ (i : ℕ) q st, s.sessions[i]? = some (q, st) →
    ∃ st', s'.sessions[i]? = some (q, st') ∧ D.Pair st st'
  light : ∀ (i : ℕ) q st, s.sessions[i]? = some (q, st) → D.On st →
    D.core.Same s.db (overlay st.writes s.db)

variable {D prog fails} {s s' t t' : State S Q} {i : ℕ} {q : Q} {r : S.Reply}

theorem Rel.free (h : D.Rel s s') {key : S.Key} (hf : s.free i key = true) :
    s'.free i key = true := by
  rw [State.free_iff] at hf ⊢
  intro j x hj hne
  have hlt := (List.getElem?_eq_some_iff.1 hj).1
  rw [h.length] at hlt
  obtain ⟨st', hj', hp⟩ := h.stages j _ _ (List.getElem?_eq_getElem hlt)
  rw [hj] at hj'; cases hj'
  rcases hp with ⟨-, rfl⟩ | ⟨p, r, -, -, rfl⟩
  · exact hf j _ (List.getElem?_eq_getElem hlt) hne
  · simp [Stage.locks]

theorem on_idle {p : Req S} {r : S.Reply} (hp : D.prog p r) : D.On (.idle p) := ⟨p, r, hp, .enter⟩

theorem Pair.of_main {p : Req S} (h : D.Main p) : D.Pair (.idle p) (.idle p) :=
  h.stage.imp (fun h => ⟨h, rfl⟩) fun ⟨r, hr⟩ => ⟨p, r, hr, .enter, rfl⟩

/-- Session `i` goes on at `st` on the left, at `st'` on the right. -/
theorem Rel.goto (h : D.Rel s s') {st₀ st₀' st st' : Stage S}
    (hi : s.sessions[i]? = some (q, st₀)) (hi' : s'.sessions[i]? = some (q, st₀'))
    (hpair : D.Pair st st') (hsame : D.core.Same t.db t'.db) (hclock : t.clock = s.clock)
    (hclock' : t'.clock = s'.clock) (hseq : ∀ x, D.core.tab x → t'.seq x = t.seq x)
    (hset : t.sessions = s.sessions.set i (q, st)) (hset' : t'.sessions = s'.sessions.set i (q, st'))
    (hlight : D.On st → D.core.Same t.db (overlay st.writes t.db))
    (hothers : ∀ (j : ℕ) q' st'', j ≠ i → s.sessions[j]? = some (q', st'') → D.On st'' →
      D.core.Same t.db (overlay st''.writes t.db)) : D.Rel t t' where
  same := hsame
  clock := by rw [hclock', hclock, h.clock]
  seq := hseq
  length := by rw [hset, hset', List.length_set, List.length_set, h.length]
  stages j q' st'' hj := by
    rw [hset] at hj
    rw [hset']
    rcases Spec.sessions_set hj with ⟨rfl, he⟩ | ⟨hne, hj⟩
    · cases he
      exact ⟨st', Spec.sessions_set_self hi', hpair⟩
    · rw [List.getElem?_set_ne hne.symm]
      exact h.stages j q' st'' hj
  light j q' st'' hj := by
    rw [hset] at hj
    rcases Spec.sessions_set hj with ⟨rfl, he⟩ | ⟨hne, hj⟩
    · cases he; exact hlight
    · exact hothers j q' st'' hne hj

theorem On.writes {st : Stage S} (h : D.On st) : ∀ w ∈ st.writes, ¬ D.core.row w.1 := by
  obtain ⟨p, r, hp, hw⟩ := h
  have ht := tail_of_within hp hw
  cases st with
  | active => exact ht.1
  | idle | waiting => simp [Stage.writes]

theorem Rel.both (h : D.Rel s s') {st st₁ : Stage S} (hi : s.sessions[i]? = some (q, st))
    (hi' : s'.sessions[i]? = some (q, st)) (hb : D.Before st) (hn : st.Next s.db t.db st₁)
    (hw : ∀ w ∈ st.writes, D.core.row w.1) (hclock : t.clock = s.clock)
    (hset : t.sessions = s.sessions.set i (q, st₁)) (hsame : D.core.Same t.db t'.db)
    (hclock' : t'.clock = s'.clock) (hseq : ∀ x, D.core.tab x → t'.seq x = t.seq x)
    (hset' : t'.sessions = s'.sessions.set i (q, st₁)) : D.Rel t t' := by
  have hnext := hb.next hn
  refine h.goto hi hi' ?_ hsame hclock hclock' hseq hset hset' (fun hon => ?_)
    fun j q' st'' hne hj hon => ?_
  · rcases hnext with hb | ⟨p, r, hp, rfl⟩
    · exact Or.inl ⟨hb, rfl⟩
    · exact Or.inr ⟨p, r, hp, .enter, rfl⟩
  · rcases hnext with hb | ⟨p, r, -, rfl⟩
    · exact absurd hon hb.not_on
    · exact D.core.equiv.refl _
  · rcases hn.db with hd | hd
    · rw [hd]; exact h.light j q' st'' hj hon
    · rw [hd]; exact D.core.light_overlay hw hon.writes (h.light j q' st'' hj hon)

theorem Rel.session (h : D.Rel s s') {st : Stage S} (hi : s.sessions[i]? = some (q, st))
    (hb : D.Before st) : s'.sessions[i]? = some (q, st) := by
  obtain ⟨st', hi', ⟨-, rfl⟩ | ⟨p, r, hp, hw, -⟩⟩ := h.stages i q st hi
  · exact hi'
  · exact absurd ⟨p, r, hp, hw⟩ hb.not_on

theorem Rel.stmt (h : D.Rel s s') {now : ℕ} {ws : List (Write S)} {locks : List S.Key} {β : Type}
    {k : Except (Failure S.Fault S.Error) β → Req S} {body : Tx S β}
    (hi : s.sessions[i]? = some (q, .active now ws locks body k))
    (hb : D.Before (.active now ws locks body k))
    (hs : s.stmt i q now ws locks k body = some t) :
    ∃ t', s'.stmt i q now ws locks k body = some t' ∧ D.Rel t t' := by
  have hi' := h.session hi hb
  obtain ⟨hw, ho⟩ : (∀ w ∈ ws, D.core.row w.1) ∧ body.Oblivious D.core := by
    cases hb with
    | active hw ho => exact ⟨hw, ho⟩
  have hsame := D.core.overlay h.same ws
  have both {st₁ : Stage S} {seq seq' : S.Tab → ℕ} {d d' : S.Db}
      (hn : (Stage.active now ws locks body k).Next s.db d st₁) (hd : D.core.Same d d')
      (hseq : ∀ x, D.core.tab x → seq' x = seq x) :
      D.Rel ({ s with db := d, seq := seq }.goto i q st₁)
        ({ s' with db := d', seq := seq' }.goto i q st₁) :=
    h.both hi hi' hb hn hw rfl rfl hd rfl hseq rfl
  cases body with
  | commit a => cases hs; exact ⟨_, rfl, both .commit hsame h.seq⟩
  | throw x => cases hs; exact ⟨_, rfl, both .throw h.same h.seq⟩
  | select g c =>
    cases hs
    have hg : g (overlay ws s'.db) = g (overlay ws s.db) := (ho.1 _ _ hsame).symm
    refine ⟨_, rfl, ?_⟩
    rw [hg]
    exact both .select h.same h.seq
  | lock key c =>
    have hget := D.core.get ho.1 hsame
    simp only [State.stmt] at hs ⊢
    rw [← hget]
    cases hg : S.get (overlay ws s.db) key with
    | none =>
      rw [hg] at hs
      cases hs
      exact ⟨_, rfl, both (.lockNone hg) h.same h.seq⟩
    | some r =>
      simp only [hg, Option.ite_none_right_eq_some, Option.some.injEq] at hs ⊢
      obtain ⟨hf, rfl⟩ := hs
      exact ⟨_, ⟨h.free hf, rfl⟩, both (.lock hg) h.same h.seq⟩
  | update key p f c =>
    have hget := D.core.get ho.1 hsame
    simp only [State.stmt] at hs ⊢
    rw [← hget]
    cases hg : S.get (overlay ws s.db) key with
    | none =>
      rw [hg] at hs
      cases hs
      exact ⟨_, rfl, both (.updateNone (by simp [hg])) h.same h.seq⟩
    | some r =>
      simp only [hg, Option.ite_none_right_eq_some] at hs ⊢
      obtain ⟨hf, hs⟩ := hs
      cases hp : p r with
      | true =>
        simp only [hp, if_true, Option.some.injEq] at hs ⊢
        subst hs
        exact ⟨_, ⟨h.free hf, rfl⟩, both (.update hg hp) h.same h.seq⟩
      | false =>
        simp only [hp, Bool.false_eq_true, if_false, Option.some.injEq] at hs ⊢
        subst hs
        exact ⟨_, ⟨h.free hf, rfl⟩, both (.updateNone (by simp [hg, hp])) h.same h.seq⟩
  | insert x row c =>
    cases hs
    -- both draw the same number
    have hs' := congrArg (fun n : ℕ => (some
      ({ s' with seq := Function.update s'.seq x (n + 1) }.goto i q
        (.active now (ws ++ [(⟨S.serial x n, row now n⟩ : Write S)]) (S.serial x n :: locks)
          (c n (row now n)) k)) : Option (State S Q))) (h.seq x ho.1)
    refine ⟨_, hs', both (.insert _) h.same fun y hy => ?_⟩
    by_cases hxy : y = x
    · subst hxy; simp
    · simp [hxy, h.seq y hy]

theorem Rel.main (h : D.Rel s s') {a : Action S Q} {st : Stage S} (ha : a.session? = some i)
    (hi : s.sessions[i]? = some (q, st)) (hb : D.Before st) (hs : s.step prog a = some t) :
    ∃ t', s'.step prog a = some t' ∧ D.Rel t t' := by
  have hi' := h.session hi hb
  cases a with
  | submit | tick => cases ha
  | exec j =>
    cases ha
    simp only [State.step, hi] at hs
    simp only [State.step, hi']
    cases hb with
    | done => cases hs
    | start ho hf hk =>
      cases hs
      rw [h.clock]
      exact ⟨_, rfl, h.both hi hi' (.start ho hf hk) .start (by simp [Stage.writes]) rfl rfl h.same rfl
        h.seq rfl⟩
    | active hw ho hf hk => exact h.stmt hi (.active hw ho hf hk) hs
  | fault j f =>
    cases ha
    simp only [State.step, hi] at hs
    simp only [State.step, hi']
    cases hb with
    | done | start => cases hs
    | active hw ho hf hk =>
      cases hs
      exact ⟨_, rfl, h.both hi hi' (.active hw ho hf hk) (.fault f) hw rfl rfl h.same rfl h.seq rfl⟩
  | answer j x =>
    cases ha
    simp only [State.step, hi] at hs
    cases hb <;> cases hs

theorem set_self {α : Type*} {l : List α} {x : α} (h : l[i]? = some x) : l.set i x = l := by
  obtain ⟨hlt, rfl⟩ := List.getElem?_eq_some_iff.1 h
  exact List.set_getElem_self hlt

/-- A step on a detour draws no number of the core. -/
theorem seq_of_tail {a : Action S Q} {st : Stage S} (ha : a.session? = some i)
    (hi : s.sessions[i]? = some (q, st)) (ht : st.Tail D.core r) (hs : s.step prog a = some t)
    {x : S.Tab} (hx : D.core.tab x) : t.seq x = s.seq x := by
  cases a with
  | submit | tick => cases ha
  | fault | answer =>
    cases ha
    simp only [State.step, hi] at hs
    cases st <;> cases hs
    rfl
  | exec j =>
    cases ha
    simp only [State.step, hi] at hs
    cases st with
    | waiting => cases hs
    | idle p => cases p <;> cases hs <;> rfl
    | active now ws locks body k =>
      cases body with
      | commit | throw | select => cases hs; rfl
      | insert y row c =>
        cases hs
        -- it is a sequence outside of the core
        have hne : x ≠ y := by
          rintro rfl
          exact (ht.2.1.1 s.db now 0).1 (D.core.serial hx 0)
        simp [State.goto, hne]
      | lock key c =>
        simp only [State.stmt] at hs
        split at hs
        · cases hs; rfl
        · split_ifs at hs
          cases hs
          rfl
      | update key p f c =>
        simp only [State.stmt] at hs
        split at hs
        · cases hs; rfl
        · split_ifs at hs <;> cases hs <;> rfl

/-! ## Finishing a detour -/

theorem Finishes.done (hi : s.sessions[i]? = some (q, .idle (.done r))) :
    D.Finishes prog fails s i q r :=
  ⟨[], s, rfl, rfl, trivial, (set_self hi).symm, D.core.equiv.refl _, rfl, fun _ _ => rfl⟩

theorem Finishes.cons {p : Req S} {a : Action S Q} {st st₁ : Stage S} (hp : D.prog p r)
    (hi : s.sessions[i]? = some (q, st)) (hw : st.Within p (.done r))
    (hl : D.core.Same s.db (overlay st.writes s.db)) (ha : a.session? = some i) (hf : ¬ fails a)
    (hs : s.step prog a = some t) (hi' : t.sessions[i]? = some (q, st₁))
    (h : (st₁.Within p (.done r) ∨ st₁ = .idle (.done r)) →
      D.core.Same t.db (overlay st₁.writes t.db) → D.Finishes prog fails t i q r) :
    D.Finishes prog fails s i q r := by
  have ht := tail_of_within hp hw
  have hon : s.At D.On a := ⟨i, q, st, ha, hi, p, r, hp, hw⟩
  obtain ⟨_, rfl, -⟩ | ⟨rfl, -⟩ | ⟨j, q', st', st'', hj, hm⟩ := State.step_cases hs
  · cases ha
  · cases ha
  rw [ha] at hj; cases hj
  have he := hm.session.symm.trans hi
  simp only [Option.some.injEq, Prod.mk.injEq] at he
  obtain ⟨rfl, rfl⟩ := he
  rw [hm.sessions, Spec.sessions_set_self hi] at hi'
  cases hi'
  obtain ⟨hsame, hlight⟩ := ht.light hm.next hl
  obtain ⟨acts, u, hrun, hout, hund, hset, hsame', hclock, hseq⟩ :=
    h (within_next hw hm.next) hlight
  have hstep : s.run prog [a] = some t := by simp [State.run, hs]
  refine ⟨a :: acts, u, by simp [State.run, hs, hrun], ?_, ⟨fun _ => hf, fun t' ht' => ?_⟩, ?_,
    D.core.equiv.trans hsame hsame', hclock.trans hm.clock,
    fun x hx => (hseq x hx).trans (seq_of_tail ha hi ht hs hx)⟩
  · rw [← List.singleton_append, State.outside_append hstep, State.outside_of_at hon, hout]
    rfl
  · rw [hs] at ht'; cases ht'; exact hund
  · rw [hset, hm.sessions, List.set_set]

end Detours

/-- The transaction never waits for a lock. -/
def Tx.Smooth {β : Type} : Tx S β → Prop
  | .commit _ => True
  | .throw _ => True
  | .select _ c => ∀ x, (c x).Smooth
  | .lock .. => False
  | .update .. => False
  | .insert _ _ c => ∀ n r, (c n r).Smooth

/-- The program never waits for a lock, if the database fails no statement and the calls have answers
    in `ok`. -/
inductive Req.Smooth (ok : S.Answer → Prop) : Req S → Prop
  | done (r) : Smooth ok (.done r)
  | tx {β} {body : Tx S β} {k} : body.Smooth → (∀ x, (∀ f, x ≠ .error (.db f)) → Smooth ok (k x)) →
    Smooth ok (.tx body k)
  | call {c k} (x) : ok x → Smooth ok (k x) → Smooth ok (.call c k)

/-- The action fails: a statement of the database, or a call whose answer is not in `ok`. -/
def Action.Fails (ok : S.Answer → Prop) : Action S Q → Prop
  | .fault _ _ => True
  | .answer _ x => ¬ ok x
  | _ => False

namespace Detours
variable {D : Detours S} {prog : Q → Req S} {ok : S.Answer → Prop} {s : State S Q} {i : ℕ} {q : Q}
  {r : S.Reply} {p p' : Req S}

theorem Finishes.tx (hp : D.prog p r) {β : Type}
    {k : Except (Failure S.Fault S.Error) β → Req S}
    (hk : ∀ x, (∀ f, x ≠ .error (.db f)) → ∀ s : State S Q, s.sessions[i]? = some (q, .idle (k x)) →
      ((Stage.idle (k x)).Within p (.done r) ∨ Stage.idle (k x) = .idle (.done r)) →
      D.Finishes prog (Action.Fails ok) s i q r) {body : Tx S β} (hb : body.Smooth) {now : ℕ} :
    ∀ {s : State S Q} {ws : List (Write S)} {locks : List S.Key},
      s.sessions[i]? = some (q, .active now ws locks body k) →
      (Stage.active now ws locks body k).Within p (.done r) →
      D.core.Same s.db (overlay ws s.db) → D.Finishes prog (Action.Fails ok) s i q r := by
  induction body with
  | commit a =>
    intro s ws locks hi hw hl
    refine .cons (a := .exec i) hp hi hw hl rfl id (by simp only [State.step, hi]; rfl)
      (Spec.sessions_set_self hi) fun h _ => hk _ (by simp) _ (Spec.sessions_set_self hi) h
  | throw e =>
    intro s ws locks hi hw hl
    refine .cons (a := .exec i) hp hi hw hl rfl id (by simp only [State.step, hi]; rfl)
      (Spec.sessions_set_self hi) fun h _ => hk _ (by simp) _ (Spec.sessions_set_self hi) h
  | select g c ih =>
    intro s ws locks hi hw hl
    refine .cons (a := .exec i) hp hi hw hl rfl id (by simp only [State.step, hi]; rfl)
      (Spec.sessions_set_self hi) fun h hl => ?_
    exact ih _ (hb _) (Spec.sessions_set_self hi) (h.resolve_right (by simp)) hl
  | lock | update => exact hb.elim
  | insert t row c ih =>
    intro s ws locks hi hw hl
    refine .cons (a := .exec i) hp hi hw hl rfl id (by simp only [State.step, hi]; rfl)
      (Spec.sessions_set_self hi) fun h hl => ?_
    exact ih _ _ (hb _ _) (Spec.sessions_set_self hi) (h.resolve_right (by simp)) hl

/-- A detour that never waits can be finished. -/
theorem Finishes.of_smooth (hp : D.prog p r) (hs : p'.Smooth ok) :
    ∀ {s : State S Q}, s.sessions[i]? = some (q, .idle p') →
      ((Stage.idle p').Within p (.done r) ∨ Stage.idle p' = .idle (.done r)) →
      D.Finishes prog (Action.Fails ok) s i q r := by
  induction hs with
  | done r' =>
    rintro s hi (h | h)
    · exact absurd rfl (On.ne_done ⟨p, r, hp, h⟩ r')
    · cases h; exact .done hi
  | tx hb _ ih =>
    rintro s hi (hw | h)
    · refine .cons (a := .exec i) hp hi hw (D.core.equiv.refl _) rfl id
        (by simp only [State.step, hi]; rfl) (Spec.sessions_set_self hi) fun h hl => ?_
      exact .tx hp (fun x hx s => ih x hx) hb (Spec.sessions_set_self hi)
        (h.resolve_right (by simp)) hl
    · cases h
  | @call c k x hx _ ih =>
    rintro s hi (hw | h)
    · refine .cons (a := .exec i) hp hi hw (D.core.equiv.refl _) rfl id
        (by simp only [State.step, hi]; rfl) (Spec.sessions_set_self hi) fun h hl => ?_
      have hi₁ := Spec.sessions_set_self (x := (q, .waiting k)) hi
      refine .cons (a := .answer i x) hp hi₁ (h.resolve_right (by simp)) hl rfl (by simpa [Action.Fails])
        (by simp only [State.step, State.goto, hi₁]; rfl) (Spec.sessions_set_self hi₁) fun h _ => ?_
      exact ih (Spec.sessions_set_self hi₁) h
    · cases h

theorem completes_of_smooth (h : ∀ p r, D.prog p r → p.Smooth ok) :
    D.Completes prog (Action.Fails ok) :=
  fun _ _ _ _ _ hp hi => .of_smooth hp (h _ _ hp) hi (Or.inl .enter)

variable {fails : Action S Q → Prop} {s' t t' : State S Q}

/-! ## Matching a run -/

theorem Rel.on (hc : D.Completes prog fails) (h : D.Rel s s') {a : Action S Q} {st st₁ : Stage S}
    (ha : a.session? = some i) (hs : s.step prog a = some t) (hm : s.Moves i q st t st₁)
    (hon : D.On st) :
    ∃ acts t', s'.run prog acts = some t' ∧ D.Rel t t' ∧ s'.outside D.On prog acts = [] ∧
      s'.Undisturbed D.On prog fails acts := by
  obtain ⟨st', hi', ⟨hb, -⟩ | ⟨p, r, hp, hw, rfl⟩⟩ := h.stages i q st hm.session
  · exact absurd hon hb.not_on
  have hseq {x : S.Tab} (hx : D.core.tab x) : t.seq x = s.seq x :=
    seq_of_tail ha hm.session (tail_of_within hp hw) hs hx
  obtain ⟨hsame, hlight⟩ := (tail_of_within hp hw).light hm.next (h.light i q st hm.session hon)
  have hothers (j : ℕ) (q' : Q) (st'' : Stage S) (_ : j ≠ i) (hj : s.sessions[j]? = some (q', st''))
      (hon' : D.On st'') : D.core.Same t.db (overlay st''.writes t.db) :=
    D.core.equiv.trans (D.core.equiv.symm hsame)
      (D.core.equiv.trans (h.light j q' st'' hj hon') (D.core.overlay hsame _))
  have hdb : D.core.Same t.db s'.db := D.core.equiv.trans (D.core.equiv.symm hsame) h.same
  rcases within_next hw hm.next with hw | rfl
  · -- it goes on: the other side waits
    refine ⟨[], s', rfl, ?_, rfl, trivial⟩
    exact h.goto hm.session hi' (Or.inr ⟨p, r, hp, hw, rfl⟩) hdb hm.clock rfl
      (fun x hx => (h.seq x hx).trans (hseq hx).symm) hm.sessions
      (set_self hi').symm (fun _ => hlight) hothers
  · -- it ends: the other side takes the detour now
    obtain ⟨acts, t', hrun, hout, hund, hset, hsame', hclock, hseq'⟩ := hc s' i q p r hp hi'
    refine ⟨acts, t', hrun, ?_, hout, hund⟩
    exact h.goto hm.session hi' (Or.inl ⟨.done r, rfl⟩) (D.core.equiv.trans hdb hsame') hm.clock hclock
      (fun x hx => ((hseq' x hx).trans (h.seq x hx)).trans (hseq hx).symm) hm.sessions hset
      (fun _ => hlight) hothers

theorem Rel.submit (h : D.Rel s s') (hq : D.Main (prog q)) :
    D.Rel { s with sessions := s.sessions ++ [(q, .idle (prog q))] }
      { s' with sessions := s'.sessions ++ [(q, .idle (prog q))] } := by
  refine ⟨h.same, h.clock, h.seq, by simp [h.length], fun j q' st hj => ?_, fun j q' st hj hon => ?_⟩
  · rw [List.getElem?_append] at hj ⊢
    rw [h.length]
    split_ifs at hj ⊢ with hlt
    · exact h.stages j q' st hj
    · obtain ⟨hlen, he⟩ := List.getElem?_eq_some_iff.1 hj
      simp only [List.getElem_singleton] at he
      cases he
      exact ⟨_, hj, .of_main hq⟩
  · rw [List.getElem?_append] at hj
    split_ifs at hj with hlt
    · exact h.light j q' st hj hon
    · obtain ⟨hlen, he⟩ := List.getElem?_eq_some_iff.1 hj
      simp only [List.getElem_singleton] at he
      cases he
      exact D.core.equiv.refl _

/-- **One step** of a run is matched by steps of the undisturbed run. -/
theorem Rel.step (hc : D.Completes prog fails) (h : D.Rel s s') {a : Action S Q}
    (ha : ∀ q, a = .submit q → D.Main (prog q)) (hs : s.step prog a = some t) :
    ∃ acts t', s'.run prog acts = some t' ∧ D.Rel t t' ∧
      s'.outside D.On prog acts = s.outside D.On prog [a] ∧ s'.Undisturbed D.On prog fails acts := by
  -- the same action on both sides, outside of the detours
  have both (h₁ : ¬ s.At D.On a) (h₂ : ¬ s'.At D.On a) {t' : State S Q}
      (hs' : s'.step prog a = some t') (hrel : D.Rel t t') :
      ∃ acts t', s'.run prog acts = some t' ∧ D.Rel t t' ∧
        s'.outside D.On prog acts = s.outside D.On prog [a] ∧
        s'.Undisturbed D.On prog fails acts :=
    ⟨[a], t', by simp [State.run, hs'], hrel, by
      rw [State.outside_of_not_at h₁, State.outside_of_not_at h₂], State.undisturbed_of_not_at h₂⟩
  have nobody {u : State S Q} (hn : a.session? = none) : ¬ u.At D.On a := by
    rintro ⟨i, -, -, hi, -⟩
    rw [hn] at hi; cases hi
  rcases State.step_cases hs with ⟨q, rfl, rfl⟩ | ⟨rfl, rfl⟩ | ⟨i, q, st, st₁, hi, hm⟩
  · exact both (nobody rfl) (nobody rfl) rfl (h.submit (ha q rfl))
  · refine both (nobody rfl) (nobody rfl) rfl ⟨h.same, ?_, h.seq, h.length, h.stages, h.light⟩
    exact congrArg (· + 1) h.clock
  · obtain ⟨st', hi', ⟨hb, rfl⟩ | ⟨p, r, hp, hw, rfl⟩⟩ := h.stages i q st hm.session
    · have hnot {u : State S Q} (hu : u.sessions[i]? = some (q, st')) : ¬ u.At D.On a := by
        rintro ⟨j, q', st'', hj, hu', hon⟩
        rw [hi] at hj; cases hj
        rw [hu] at hu'; cases hu'
        exact hb.not_on hon
      obtain ⟨t', hs', hrel⟩ := h.main hi hm.session hb hs
      exact both (hnot hm.session) (hnot hi') hs' hrel
    · have hon : D.On st := ⟨p, r, hp, hw⟩
      obtain ⟨acts, t', hrun, hrel, hout, hund⟩ := h.on hc hi hs hm hon
      refine ⟨acts, t', hrun, hrel, ?_, hund⟩
      rw [hout, State.outside_of_at ⟨i, q, st, hi, hm.session, hon⟩]

/-- **Failures on detours have no consequences**: every run is matched by one with the same steps
    outside of the detours, and undisturbed on them, after which the core of the store and all replies
    are the same. -/
theorem undisturbed_run (hc : D.Completes prog fails) {d₀ : S.Db} {seq : S.Tab → ℕ}
    {acts : List (Action S Q)} (ha : ∀ q, .submit q ∈ acts → D.Main (prog q))
    (hrun : (State.init d₀ seq).run prog acts = some s) :
    ∃ acts' s', (State.init d₀ seq).run prog acts' = some s' ∧
      (State.init d₀ seq).outside D.On prog acts' = (State.init d₀ seq).outside D.On prog acts ∧
      (State.init d₀ seq).Undisturbed D.On prog fails acts' ∧ D.core.Same s.db s'.db ∧
      ∀ i : ℕ, s'.sessions[i]?.map (fun x => (x.1, x.2.reply?)) =
        s.sessions[i]?.map fun x => (x.1, x.2.reply?) := by
  obtain ⟨acts', s', hrun', hrel, hout, hund⟩ : ∃ acts' s',
      (State.init d₀ seq).run prog acts' = some s' ∧ D.Rel s s' ∧
      (State.init d₀ seq).outside D.On prog acts' = (State.init d₀ seq).outside D.On prog acts ∧
      (State.init d₀ seq).Undisturbed D.On prog fails acts' := by
    refine State.run_induction (I := fun as s => as ⊆ acts → ∃ acts' s',
      (State.init d₀ seq).run prog acts' = some s' ∧ D.Rel s s' ∧
      (State.init d₀ seq).outside D.On prog acts' = (State.init d₀ seq).outside D.On prog as ∧
      (State.init d₀ seq).Undisturbed D.On prog fails acts') ?_ (fun as a s t hrs hs ih hsub => ?_)
      hrun (List.Subset.refl _)
    · refine fun _ => ⟨[], State.init d₀ seq, rfl, ⟨D.core.equiv.refl _, rfl, fun _ _ => rfl, rfl, ?_, ?_⟩,
        rfl, trivial⟩ <;> simp [State.init]
    · obtain ⟨hsub, hmem⟩ := List.append_subset.1 hsub
      obtain ⟨acts', s', hrun', hrel, hout, hund⟩ := ih hsub
      obtain ⟨acts₁, t', hrun₁, hrel₁, hout₁, hund₁⟩ := hrel.step hc
        (fun q he => ha q (he ▸ hmem (List.mem_singleton_self _))) hs
      refine ⟨acts' ++ acts₁, t', ?_, hrel₁, ?_, State.undisturbed_append hrun' hund hund₁⟩
      · rw [State.run_append, hrun', Option.bind_some, hrun₁]
      · rw [State.outside_append hrun', State.outside_append hrs, hout, hout₁]
  refine ⟨acts', s', hrun', hout, hund, hrel.same, fun i => ?_⟩
  cases hi : s.sessions[i]? with
  | none =>
    rw [List.getElem?_eq_none_iff, ← hrel.length, ← List.getElem?_eq_none_iff] at hi
    rw [hi]
  | some x =>
    obtain ⟨st', hi', ⟨-, rfl⟩ | ⟨p, r, hp, hw, rfl⟩⟩ := hrel.stages i _ _ hi
    · rw [hi']
    · have hreply {st : Stage S} (hon : D.On st) : st.reply? = none := by
        cases h : st.reply? with
        | none => rfl
        | some r' =>
          refine absurd ?_ (hon.ne_done r')
          cases st with
          | idle p => cases p <;> cases h; rfl
          | active | waiting => cases h
      rw [hi', Option.map_some, Option.map_some, hreply (on_idle hp), hreply ⟨p, r, hp, hw⟩]

end Detours

end ReadCommitted
