/-
  What one step does to one session, and the commits of a run.

  `Stage.Next` is the step of a single session on the committed store: the
  steps of the system are steps of one session (`State.step_cases`), so an
  invariant of the sessions is checked against `Next` alone.  A `Commit`
  records what is published when a transaction with writes ends, and
  `State.commits` lists the commits of a run in their order.
-/
import Marketplace.Lib.Interference
import Mathlib.Data.List.Induction

namespace ReadCommitted

variable {S : Sig} {Q : Type}

/-! ## The steps of a session -/

/-- One step of a session, with the committed store before and after it. -/
inductive Stage.Next : S.Db → Stage S → S.Db → Stage S → Prop
  | start {d β} {body : Tx S β} {k now} :
    Next d (.idle (.tx body k)) d (.active now [] [] body k)
  | call {d c k} : Next d (.idle (.call c k)) d (.waiting k)
  | answer {d k} (x) : Next d (.waiting k) d (.idle (k x))
  | fault {d β now ws locks} {body : Tx S β} {k} (f) :
    Next d (.active now ws locks body k) d (.idle (k (.error (.db f))))
  | commit {d β now ws locks} {a : β} {k} :
    Next d (.active now ws locks (.commit a) k) (overlay ws d) (.idle (k (.ok a)))
  | throw {d β now ws locks x} {k : Except (Failure S.Fault S.Error) β → Req S} :
    Next d (.active now ws locks (.throw x) k) d (.idle (k (.error (.app x))))
  | select {d β γ now ws locks} {g : S.Db → γ} {c : γ → Tx S β} {k} :
    Next d (.active now ws locks (.select g c) k) d (.active now ws locks (c (g (overlay ws d))) k)
  | lock {d β now ws locks key} {c : Option (S.Row key) → Tx S β} {k r} :
    S.get (overlay ws d) key = some r →
    Next d (.active now ws locks (.lock key c) k) d (.active now ws (key :: locks) (c (some r)) k)
  | lockNone {d β now ws locks key} {c : Option (S.Row key) → Tx S β} {k} :
    S.get (overlay ws d) key = none →
    Next d (.active now ws locks (.lock key c) k) d (.active now ws locks (c none) k)
  | update {d β now ws locks key p f} {c : ℕ → Tx S β} {k r} :
    S.get (overlay ws d) key = some r → p r = true →
    Next d (.active now ws locks (.update key p f c) k) d
      (.active now (ws ++ [⟨key, f r⟩]) (key :: locks) (c 1) k)
  | updateNone {d β now ws locks key p f} {c : ℕ → Tx S β} {k} :
    (∀ r, S.get (overlay ws d) key = some r → p r = false) →
    Next d (.active now ws locks (.update key p f c) k) d (.active now ws locks (c 0) k)
  | insert {d β now ws locks t row} {c : (n : ℕ) → S.Row (S.serial t n) → Tx S β} {k} (n) :
    Next d (.active now ws locks (.insert t row c) k) d
      (.active now (ws ++ [⟨S.serial t n, row now n⟩]) (S.serial t n :: locks)
        (c n (row now n)) k)

/-- A step of a session publishes its writes, if it commits, and else changes nothing. -/
theorem Stage.Next.db {d d' : S.Db} {st st' : Stage S} (h : st.Next d d' st') :
    d' = d ∨ d' = overlay st.writes d := by
  cases h with
  | commit => exact Or.inr rfl
  | _ => exact Or.inl rfl

/-- If it publishes any, it commits. -/
theorem Stage.Next.commit_or {d d' : S.Db} {st st' : Stage S} (h : st.Next d d' st') :
    d' = d ∨ st.commits = true ∧ d' = overlay st.writes d := by
  cases h with
  | @commit _ _ ws =>
    cases ws with
    | nil => exact Or.inl rfl
    | cons => exact Or.inr ⟨rfl, rfl⟩
  | _ => exact Or.inl rfl

theorem Stage.Next.reply {d d' : S.Db} {st st' : Stage S} (h : st.Next d d' st') :
    st.reply? = none := by
  cases h <;> rfl

/-- The session an action belongs to. -/
def Action.session? : Action S Q → Option ℕ
  | .exec i | .fault i _ | .answer i _ => some i
  | .submit _ | .tick => none

/-- The request an action makes. -/
def Action.request? : Action S Q → Option Q
  | .submit q => some q
  | .exec _ | .fault .. | .answer .. | .tick => none

namespace State

/-- The uncommitted writes of session `i`. -/
def writesOf (s : State S Q) (i : ℕ) : List (Write S) := s.sessions[i]?.elim [] (·.2.writes)

/-- The row locks of session `i`. -/
def locksOf (s : State S Q) (i : ℕ) : List S.Key := s.sessions[i]?.elim [] (·.2.locks)

/-- No session has written a row that another one has locked. -/
def Guarded (s : State S Q) : Prop := ∀ i j, i ≠ j → ∀ w ∈ s.writesOf j, w.1 ∉ s.locksOf i

variable {prog : Q → Req S} {s s' s₀ : State S Q} {a : Action S Q} {acts as : List (Action S Q)}

theorem writesOf_eq {i : ℕ} {q : Q} {st : Stage S} (h : s.sessions[i]? = some (q, st)) :
    s.writesOf i = st.writes := by simp [writesOf, h]

theorem locksOf_eq {i : ℕ} {q : Q} {st : Stage S} (h : s.sessions[i]? = some (q, st)) :
    s.locksOf i = st.locks := by simp [locksOf, h]

theorem mem_writesOf {i : ℕ} {w : Write S} :
    w ∈ s.writesOf i ↔ ∃ p, s.sessions[i]? = some p ∧ w ∈ p.2.writes := by
  cases h : s.sessions[i]? <;> simp [writesOf, h]

theorem mem_locksOf {i : ℕ} {key : S.Key} :
    key ∈ s.locksOf i ↔ ∃ p, s.sessions[i]? = some p ∧ key ∈ p.2.locks := by
  cases h : s.sessions[i]? <;> simp [locksOf, h]

/-- Session `i` takes one step. -/
structure Moves (s : State S Q) (i : ℕ) (q : Q) (st : Stage S) (s' : State S Q) (st' : Stage S) :
    Prop where
  session : s.sessions[i]? = some (q, st)
  next : st.Next s.db s'.db st'
  sessions : s'.sessions = s.sessions.set i (q, st')
  clock : s'.clock = s.clock

theorem stmt_moves {i : ℕ} {q : Q} {now : ℕ} {ws : List (Write S)} {locks : List S.Key} {β : Type}
    {k : Except (Failure S.Fault S.Error) β → Req S} {body : Tx S β}
    (hi : s.sessions[i]? = some (q, .active now ws locks body k))
    (h : s.stmt i q now ws locks k body = some s') :
    ∃ st', s.Moves i q (.active now ws locks body k) s' st' := by
  cases body with
  | commit a => cases h; exact ⟨_, hi, .commit, rfl, rfl⟩
  | throw x => cases h; exact ⟨_, hi, .throw, rfl, rfl⟩
  | select g c => cases h; exact ⟨_, hi, .select, rfl, rfl⟩
  | lock key c =>
    simp only [stmt] at h
    cases hg : S.get (overlay ws s.db) key with
    | none =>
      simp only [hg, Option.some.injEq] at h
      subst h
      exact ⟨_, hi, .lockNone hg, rfl, rfl⟩
    | some r =>
      simp only [hg, Option.ite_none_right_eq_some, Option.some.injEq] at h
      obtain ⟨-, rfl⟩ := h
      exact ⟨_, hi, .lock hg, rfl, rfl⟩
  | update key p f c =>
    simp only [stmt] at h
    cases hg : S.get (overlay ws s.db) key with
    | none =>
      simp only [hg, Option.some.injEq] at h
      subst h
      exact ⟨_, hi, .updateNone (by simp [hg]), rfl, rfl⟩
    | some r =>
      simp only [hg, Option.ite_none_right_eq_some] at h
      obtain ⟨-, h⟩ := h
      cases hp : p r with
      | true =>
        simp only [hp, if_true, Option.some.injEq] at h
        subst h
        exact ⟨_, hi, .update hg hp, rfl, rfl⟩
      | false =>
        simp only [hp, Bool.false_eq_true, if_false, Option.some.injEq] at h
        subst h
        exact ⟨_, hi, .updateNone (by simp [hg, hp]), rfl, rfl⟩
  | insert t row c => cases h; exact ⟨_, hi, .insert _, rfl, rfl⟩

theorem stmt_calls {i : ℕ} {q : Q} {now : ℕ} {ws : List (Write S)} {locks : List S.Key} {β : Type}
    {k : Except (Failure S.Fault S.Error) β → Req S} {body : Tx S β}
    (h : s.stmt i q now ws locks k body = some s') : s'.calls = s.calls := by
  cases body with
  | commit | throw | select | insert => cases h; rfl
  | lock key c =>
    simp only [stmt] at h
    split at h
    · cases h; rfl
    · obtain ⟨-, h⟩ := Option.ite_none_right_eq_some.1 h
      cases h; rfl
  | update key p f c =>
    simp only [stmt] at h
    split at h
    · cases h; rfl
    · obtain ⟨-, h⟩ := Option.ite_none_right_eq_some.1 h
      split_ifs at h <;> cases h <;> rfl

/-- **What one step does**: a new session, a step of one session, or time passes. -/
theorem step_cases (h : s.step prog a = some s') :
    (∃ q, a = .submit q ∧ s' = { s with sessions := s.sessions ++ [(q, .idle (prog q))] }) ∨
    (a = .tick ∧ s' = { s with clock := s.clock + 1 }) ∨
    ∃ i q st st', a.session? = some i ∧ s.Moves i q st s' st' := by
  cases a with
  | submit q => cases h; exact Or.inl ⟨q, rfl, rfl⟩
  | tick => cases h; exact Or.inr (Or.inl ⟨rfl, rfl⟩)
  | exec i =>
    simp only [step] at h
    split at h
    · rename_i hi; cases h; exact Or.inr (Or.inr ⟨i, _, _, _, rfl, hi, .start, rfl, rfl⟩)
    · rename_i hi; cases h; exact Or.inr (Or.inr ⟨i, _, _, _, rfl, hi, .call, rfl, rfl⟩)
    · rename_i hi
      obtain ⟨st', hm⟩ := stmt_moves hi h
      exact Or.inr (Or.inr ⟨i, _, _, st', rfl, hm⟩)
    · cases h
  | fault i f =>
    simp only [step] at h
    split at h
    · rename_i hi; cases h; exact Or.inr (Or.inr ⟨i, _, _, _, rfl, hi, .fault f, rfl, rfl⟩)
    · cases h
  | answer i x =>
    simp only [step] at h
    split at h
    · rename_i hi; cases h; exact Or.inr (Or.inr ⟨i, _, _, _, rfl, hi, .answer x, rfl, rfl⟩)
    · cases h

theorem session_cases (h : s.step prog a = some s') {j : ℕ} {q : Q} {st' : Stage S}
    (hj : s'.sessions[j]? = some (q, st')) :
    (∃ st, s.Moves j q st s' st') ∨ s.sessions[j]? = some (q, st') ∨
      (a = .submit q ∧ st' = .idle (prog q) ∧ j = s.sessions.length) := by
  rcases step_cases h with ⟨q', rfl, rfl⟩ | ⟨-, rfl⟩ | ⟨i, q', st, st'', -, hm⟩
  · rw [List.getElem?_append] at hj
    split_ifs at hj with hlt
    · exact Or.inr (Or.inl hj)
    · obtain ⟨hlen, he⟩ := List.getElem?_eq_some_iff.1 hj
      simp only [List.length_singleton, Nat.lt_one_iff] at hlen
      simp only [List.getElem_singleton, Prod.mk.injEq] at he
      obtain ⟨rfl, rfl⟩ := he
      exact Or.inr (Or.inr ⟨rfl, rfl, by omega⟩)
  · exact Or.inr (Or.inl hj)
  · rw [hm.sessions, List.getElem?_set] at hj
    split_ifs at hj with hij
    · cases hj; subst hij; exact Or.inl ⟨st, hm⟩
    · exact Or.inr (Or.inl hj)

theorem session_kept (h : s.step prog a = some s') {j : ℕ} {q : Q} {st : Stage S}
    (hj : s.sessions[j]? = some (q, st)) : ∃ st', s'.sessions[j]? = some (q, st') := by
  have hlt := (List.getElem?_eq_some_iff.1 hj).1
  rcases step_cases h with ⟨q', -, rfl⟩ | ⟨-, rfl⟩ | ⟨i, q', st₁, st', -, hm⟩
  · exact ⟨st, by rw [List.getElem?_append_left hlt]; exact hj⟩
  · exact ⟨st, hj⟩
  · rw [hm.sessions]
    by_cases hij : i = j
    · subst hij
      rw [hm.session] at hj
      cases hj
      exact ⟨st', List.getElem?_set_self hlt⟩
    · exact ⟨st, by rw [List.getElem?_set_ne hij]; exact hj⟩

theorem run_induction {I : List (Action S Q) → State S Q → Prop} (h₀ : I [] s₀)
    (hstep : ∀ as a s s', s₀.run prog as = some s → s.step prog a = some s' → I as s →
      I (as ++ [a]) s') (hrun : s₀.run prog acts = some s) : I acts s := by
  induction acts using List.reverseRecOn generalizing s with
  | nil => cases hrun; exact h₀
  | append_singleton as a ih =>
    obtain ⟨t, ht, hta⟩ := run_snoc.1 hrun
    exact hstep as a t s ht hta (ih ht)

/-- There is one session for each request that has been made, in their order. -/
theorem requests_run {d₀ : S.Db} {seq : S.Tab → ℕ}
    (hrun : (State.init d₀ seq).run prog acts = some s) :
    s.sessions.map Prod.fst = acts.filterMap Action.request? := by
  refine run_induction (I := fun as s => s.sessions.map Prod.fst =
    as.filterMap Action.request?) rfl (fun as a s s' _ hs ih => ?_) hrun
  rw [List.filterMap_append, ← ih]
  rcases step_cases hs with ⟨q, rfl, rfl⟩ | ⟨rfl, rfl⟩ | ⟨i, q, st, st', ha, hm⟩
  · simp [Action.request?]
  · simp [Action.request?]
  · have hnone : a.request? = none := by cases a <;> first | rfl | cases ha
    have hi : (s.sessions.map Prod.fst)[i]? = some q := by simp [hm.session]
    obtain ⟨hlt, hq⟩ := List.getElem?_eq_some_iff.1 hi
    rw [hm.sessions, List.map_set]
    simp only [List.filterMap_cons, hnone, List.filterMap_nil, List.append_nil]
    rw [← hq, List.set_getElem_self]

/-- **An invariant of the sessions**: it holds when a request is made, and a step of its session
    keeps it. -/
theorem run_stages {J : Q → Stage S → Prop} {d₀ : S.Db} {seq : S.Tab → ℕ}
    (h₀ : ∀ q, .submit q ∈ acts → J q (.idle (prog q)))
    (hnext : ∀ q d st d' st', J q st → st.Next d d' st' → J q st')
    (hrun : (State.init d₀ seq).run prog acts = some s) {i : ℕ} {q : Q} {st : Stage S}
    (hi : s.sessions[i]? = some (q, st)) : J q st := by
  refine run_induction
    (I := fun as s => as ⊆ acts → ∀ (i : ℕ) q st, s.sessions[i]? = some (q, st) → J q st)
    (by simp [State.init]) (fun as a s s' _ hs ih hsub i q st hi => ?_) hrun
    (List.Subset.refl _) i q st hi
  obtain ⟨hsub, ha⟩ := List.append_subset.1 hsub
  rcases session_cases hs hi with ⟨st₀, hm⟩ | hi | ⟨rfl, rfl, -⟩
  · exact hnext q _ st₀ _ st (ih hsub i q st₀ hm.session) hm.next
  · exact ih hsub i q st hi
  · exact h₀ q (ha (List.mem_singleton_self _))

theorem step_calls (h : s.step prog a = some s') :
    s'.calls = s.calls ∨ ∃ i q c k, a = .exec i ∧ s.sessions[i]? = some (q, .idle (.call c k)) ∧
      s'.sessions = s.sessions.set i (q, .waiting k) ∧ s'.calls = s.calls ++ [(i, c)] := by
  cases a with
  | submit | tick => cases h; exact Or.inl rfl
  | fault i f | answer i x =>
    simp only [step] at h
    split at h
    · cases h; exact Or.inl rfl
    · cases h
  | exec i =>
    simp only [step] at h
    split at h
    · cases h; exact Or.inl rfl
    · rename_i q c k hi
      cases h
      exact Or.inr ⟨i, q, c, k, rfl, hi, rfl, rfl⟩
    · rename_i body k hi
      exact Or.inl (stmt_calls h)
    · cases h

theorem replied_step (h : s.step prog a = some s') {i : ℕ} {q : Q} {st : Stage S}
    (hi : s.sessions[i]? = some (q, st)) (hr : st.reply? ≠ none) :
    s'.sessions[i]? = some (q, st) := by
  rcases step_cases h with ⟨q', -, rfl⟩ | ⟨-, rfl⟩ | ⟨j, q', st₁, st', -, hm⟩
  · rw [List.getElem?_append_left (List.getElem?_eq_some_iff.1 hi).1]; exact hi
  · exact hi
  · rw [hm.sessions, List.getElem?_set_ne, hi]
    rintro rfl
    have := hm.session.symm.trans hi
    simp only [Option.some.injEq, Prod.mk.injEq] at this
    exact hr (this.2 ▸ hm.next.reply)

theorem session_run (hrun : s₀.run prog acts = some s) {i : ℕ} {q : Q} {st : Stage S}
    (hi : s₀.sessions[i]? = some (q, st)) : ∃ st', s.sessions[i]? = some (q, st') :=
  run_induction (I := fun _ s => ∃ st', s.sessions[i]? = some (q, st')) ⟨st, hi⟩
    (fun _ _ _ _ _ hs ih => ih.elim fun _ hi => session_kept hs hi) hrun

/-- The calls of a run are those before it, and calls of sessions that have not replied before. -/
theorem run_calls (hrun : s₀.run prog acts = some s) : ∃ l, s.calls = s₀.calls ++ l ∧
    ∀ x ∈ l, ∀ q st, s₀.sessions[x.1]? = some (q, st) → st.reply? = none := by
  suffices h : (∃ l, s.calls = s₀.calls ++ l ∧
      ∀ x ∈ l, ∀ q st, s₀.sessions[x.1]? = some (q, st) → st.reply? = none) ∧
      ∀ (i : ℕ) q st, s₀.sessions[i]? = some (q, st) → st.reply? ≠ none →
        s.sessions[i]? = some (q, st) from h.1
  refine run_induction (I := fun _ s => (∃ l, s.calls = s₀.calls ++ l ∧
      ∀ x ∈ l, ∀ q st, s₀.sessions[x.1]? = some (q, st) → st.reply? = none) ∧
      ∀ (i : ℕ) q st, s₀.sessions[i]? = some (q, st) → st.reply? ≠ none →
        s.sessions[i]? = some (q, st)) ⟨⟨[], by simp, by simp⟩, fun _ _ _ hi _ => hi⟩
    (fun as a s s' _ hs ih => ?_) hrun
  obtain ⟨⟨l, hl, hnew⟩, hold⟩ := ih
  refine ⟨?_, fun i q st hi hr => replied_step hs (hold i q st hi hr) hr⟩
  rcases step_calls hs with hcalls | ⟨i, q, c, k, -, hi, -, hcalls⟩
  · exact ⟨l, hcalls ▸ hl, hnew⟩
  · refine ⟨l ++ [(i, c)], by rw [hcalls, hl, List.append_assoc], fun x hx q₀ st hx₀ => ?_⟩
    rcases List.mem_append.1 hx with hx | hx
    · exact hnew x hx q₀ st hx₀
    · cases List.mem_singleton.1 hx
      by_contra hr
      cases (hold i q₀ st hx₀ hr).symm.trans hi
      exact hr rfl

end State

/-! ## Commits -/

variable (S Q) in
/-- What a session publishes: its request, the writes, the store they are published to, and the
    calls the session has made before. -/
structure Commit where
  session : ℕ
  request : Q
  writes : List (Write S)
  db : S.Db
  calls : List S.Call

namespace State

/-- The calls session `i` has made. -/
def callsOf (s : State S Q) (i : ℕ) : List S.Call :=
  s.calls.filterMap fun x => if x.1 = i then some x.2 else none

/-- The last call of a session, among those of all sessions. -/
theorem callsOf_split {s : State S Q} {i : ℕ} {l : List S.Call} {c : S.Call}
    (h : s.callsOf i = l ++ [c]) : ∃ before after, s.calls = before ++ (i, c) :: after ∧
      (∀ c', (i, c') ∈ before → c' ∈ l) ∧ ∀ c', (i, c') ∉ after := by
  obtain ⟨l₁, l₂, hl, h₁, h₂⟩ := List.filterMap_eq_append_iff.1 h
  obtain ⟨l₃, x, l₄, rfl, h₃, hx, h₄⟩ := List.filterMap_eq_cons_iff.1 h₂
  split_ifs at hx with hi
  obtain ⟨rfl, rfl⟩ : x.1 = i ∧ x.2 = c := ⟨hi, Option.some.inj hx⟩
  refine ⟨l₁ ++ l₃, l₄, by rw [hl, List.append_assoc], fun c' hc => ?_, fun c' hc => ?_⟩
  · rcases List.mem_append.1 hc with hc | hc
    · exact h₁ ▸ List.mem_filterMap.2 ⟨_, hc, if_pos rfl⟩
    · exact absurd (h₃ _ hc) (by simp)
  · exact absurd (List.filterMap_eq_nil_iff.1 h₄ _ hc) (by simp)

/-- What an action publishes. -/
def commit? (s : State S Q) : Action S Q → Option (Commit S Q)
  | .exec i =>
    match s.sessions[i]? with
    | some (q, st) => if st.commits then some ⟨i, q, st.writes, s.db, s.callsOf i⟩ else none
    | none => none
  | _ => none

variable (prog : Q → Req S) in
/-- The commits of a run, in their order. -/
def commits (s : State S Q) : List (Action S Q) → List (Commit S Q)
  | [] => []
  | a :: as => (s.commit? a).toList ++ ((s.step prog a).elim [] fun s' => s'.commits as)

variable {prog : Q → Req S} {s s' s₀ : State S Q} {a : Action S Q} {acts as : List (Action S Q)}

theorem commit?_eq {i : ℕ} {q : Q} {st : Stage S} (hi : s.sessions[i]? = some (q, st))
    (hc : st.commits = true) :
    s.commit? (.exec i) = some ⟨i, q, st.writes, s.db, s.callsOf i⟩ := by
  simp [commit?, hi, hc]

theorem commit?_eq_none {i : ℕ} {q : Q} {st : Stage S} (hi : s.sessions[i]? = some (q, st))
    (hc : st.commits = false) : s.commit? (.exec i) = none := by
  simp [commit?, hi, hc]

theorem step_db (h : s.step prog a = some s') :
    s'.db = s.db ∨ ∃ c, s.commit? a = some c ∧ c.db = s.db ∧ s'.db = overlay c.writes s.db := by
  cases a with
  | submit | tick => cases h; exact Or.inl rfl
  | fault i f | answer i x =>
    simp only [step] at h
    split at h
    · cases h; exact Or.inl rfl
    · cases h
  | exec i =>
    rcases step_cases h with ⟨q, ha, -⟩ | ⟨ha, -⟩ | ⟨j, q, st, st', ha, hm⟩
    · cases ha
    · cases ha
    cases ha
    rcases hm.next.commit_or with hd | ⟨hc, hd⟩
    · exact Or.inl hd
    · exact Or.inr ⟨_, commit?_eq hm.session hc, rfl, hd⟩

theorem commit?_step {c : Commit S Q} (h : s.step prog a = some s') (hc : s.commit? a = some c) :
    c.db = s.db ∧ s'.db = overlay c.writes c.db := by
  cases a with
  | exec i =>
    simp only [commit?] at hc
    split at hc
    · rename_i q st hi
      obtain ⟨hcom, hc⟩ := Option.ite_none_right_eq_some.1 hc
      cases hc
      unfold Stage.commits at hcom
      split at hcom
      · simp only [step, hi, stmt, Option.some.injEq] at h
        subst h
        exact ⟨rfl, rfl⟩
      · cases hcom
    · cases hc
  | submit | fault | answer | tick => cases hc

theorem commit?_session {c : Commit S Q} (h : s.commit? a = some c) :
    ∃ st, s.sessions[c.session]? = some (c.request, st) := by
  cases a with
  | exec i =>
    simp only [commit?] at h
    split at h
    · rename_i q st hi
      split_ifs at h
      cases h
      exact ⟨st, hi⟩
    · cases h
  | submit | fault | answer | tick => cases h

theorem commits_append {bs : List (Action S Q)} (hrun : s₀.run prog as = some s) :
    s₀.commits prog (as ++ bs) = s₀.commits prog as ++ s.commits prog bs := by
  induction as generalizing s₀ with
  | nil => cases hrun; rfl
  | cons b as ih =>
    obtain ⟨t, ht, hrun⟩ := Option.bind_eq_some_iff.1 hrun
    simp [commits, ht, ih hrun]

theorem commits_snoc (hrun : s₀.run prog as = some s) :
    s₀.commits prog (as ++ [a]) = s₀.commits prog as ++ (s.commit? a).toList := by
  rw [commits_append hrun]
  cases h : s.step prog a <;> simp [commits, h]

/-- A session that has written nothing publishes nothing. -/
theorem commit?_untouched {i : ℕ} {q : Q} {st : Stage S} (hi : s.sessions[i]? = some (q, st))
    (hw : st.writes = []) : s.commit? (.exec i) = none := by
  refine commit?_eq_none hi ?_
  cases st with
  | idle | waiting => rfl
  | active now ws locks tx k =>
    obtain rfl : ws = [] := hw
    cases tx <;> rfl

/-- What every commit of a run keeps is true in the end. -/
theorem run_keeps {P : S.Db → Prop} (hrun : s₀.run prog acts = some s) (h₀ : P s₀.db)
    (hkeep : ∀ c ∈ s₀.commits prog acts, P c.db → P (overlay c.writes c.db)) : P s.db := by
  refine run_induction (I := fun as s =>
    (∀ c ∈ s₀.commits prog as, P c.db → P (overlay c.writes c.db)) → P s.db) (fun _ => h₀)
    (fun as a s s' hs hst ih hkeep => ?_) hrun hkeep
  rw [commits_snoc hs] at hkeep
  have hold := ih fun c hc => hkeep c (List.mem_append_left _ hc)
  rcases step_db hst with hd | ⟨c, hc, hcd, hd⟩
  · rwa [hd]
  · rw [hd, ← hcd]
    exact hkeep c (List.mem_append_right _ (Option.mem_toList.2 hc)) (hcd ▸ hold)

theorem mem_commits (hrun : s₀.run prog acts = some s) {c : Commit S Q} :
    c ∈ s₀.commits prog acts ↔
      ∃ as a bs t, acts = as ++ a :: bs ∧ s₀.run prog as = some t ∧ t.commit? a = some c := by
  refine run_induction (I := fun acts _ => c ∈ s₀.commits prog acts ↔
    ∃ as a bs t, acts = as ++ a :: bs ∧ s₀.run prog as = some t ∧ t.commit? a = some c)
    (by simp [commits]) (fun acts a s s' hs _ ih => ?_) hrun
  rw [commits_snoc hs, List.mem_append, ih, Option.mem_toList]
  constructor
  · rintro (⟨as, b, bs, t, rfl, ht, hc⟩ | hc)
    · exact ⟨as, b, bs ++ [a], t, by simp, ht, hc⟩
    · exact ⟨acts, a, [], s, rfl, hs, hc⟩
  · rintro ⟨as, b, bs, t, he, ht, hc⟩
    rcases List.eq_nil_or_concat bs with rfl | ⟨bs, b', rfl⟩
    · obtain ⟨rfl, hab⟩ := List.append_inj' he rfl
      cases hab
      rw [hs] at ht; cases ht
      exact Or.inr hc
    · rw [List.concat_eq_append, ← List.cons_append, ← List.append_assoc] at he
      exact Or.inl ⟨as, b, bs, t, (List.append_inj' he rfl).1, ht, hc⟩

end State

end ReadCommitted
