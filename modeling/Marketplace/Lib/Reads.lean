/-
  What a session has read.

  `State.reads` lists the committed stores on which a session has issued its
  SELECTs (outside of transactions in which it has written before).  An
  invariant that ties a session to what it has read, and to the committed
  store, is kept in a run if the steps of the session keep it, and what other
  sessions publish, which are not rows it has locked, does not break it
  (`State.run_reads`).

  `Req.Cites` says of a request that each of its calls is justified by what it
  has read before; `State.run_cites` carries this over to runs.  What was true
  of the store a session has read last still is when no commit since has
  changed it (`State.since_read`).
-/
import Marketplace.Lib.Simulation

namespace ReadCommitted

variable {S : Sig} {Q : Type}

/-- The committed store, if the next statement of a session is a SELECT and sees nothing else. -/
def Stage.select? (d : S.Db) : Stage S → Option S.Db
  | .active _ ws _ (.select _ _) _ => if ws.isEmpty then some d else none
  | _ => none

theorem Stage.Next.db_of_select {d d' x : S.Db} {st st' : Stage S} (h : st.Next d d' st')
    (hx : st.select? d = some x) : x = d ∧ d' = d := by
  cases st with
  | idle | waiting => cases hx
  | active now ws locks body k =>
    cases body with
    | select g c =>
      obtain ⟨-, hx⟩ := Option.ite_none_right_eq_some.1 hx
      cases hx
      cases h <;> exact ⟨rfl, rfl⟩
    | commit | throw | lock | update | insert => cases hx

theorem isSome_overlay {d : S.Db} {k : S.Key} (h : (S.get d k).isSome) (ws : List (Write S)) :
    (S.get (overlay ws d) k).isSome := by
  by_cases hk : k ∈ ws.map Sigma.fst
  · obtain ⟨-, r, hr, -⟩ := get_overlay_of_mem hk d d
    rw [hr]; rfl
  · rwa [get_overlay_of_not_mem hk]

namespace State

/-- The store on which an action of session `i` issues a SELECT. -/
def read? (s : State S Q) (i : ℕ) (a : Action S Q) : Option S.Db :=
  if a.session? = some i then s.sessions[i]?.bind fun p => p.2.select? s.db else none

variable (prog : Q → Req S) in
/-- The committed stores on which session `i` has issued its SELECTs, in their order. -/
def reads (s : State S Q) (i : ℕ) : List (Action S Q) → List S.Db
  | [] => []
  | a :: as => (s.read? i a).toList ++ ((s.step prog a).elim [] fun s' => s'.reads i as)

variable {prog : Q → Req S} {s s' s₀ : State S Q} {a : Action S Q} {acts as : List (Action S Q)}
  {i : ℕ}

theorem reads_append {bs : List (Action S Q)} (hrun : s₀.run prog as = some s) :
    s₀.reads prog i (as ++ bs) = s₀.reads prog i as ++ s.reads prog i bs := by
  induction as generalizing s₀ with
  | nil => cases hrun; rfl
  | cons b as ih =>
    obtain ⟨t, ht, hrun⟩ := Option.bind_eq_some_iff.1 hrun
    simp [reads, ht, ih hrun]

theorem reads_snoc (hrun : s₀.run prog as = some s) :
    s₀.reads prog i (as ++ [a]) = s₀.reads prog i as ++ (s.read? i a).toList := by
  rw [reads_append hrun]
  cases h : s.step prog a <;> simp [reads, h]

theorem reads_eq_nil {d₀ : S.Db} {seq : S.Tab → ℕ}
    (hrun : (State.init d₀ seq).run prog acts = some s) (hi : s.sessions[i]? = none) :
    (State.init d₀ seq).reads prog i acts = [] := by
  refine run_induction (I := fun as s => s.sessions[i]? = none →
    (State.init d₀ seq).reads prog i as = []) (fun _ => rfl) (fun as a s s' hs hst ih hi => ?_) hrun hi
  have hold : s.sessions[i]? = none := by
    cases hq : s.sessions[i]? with
    | none => rfl
    | some p =>
      obtain ⟨st, hst⟩ := session_kept hst hq
      rw [hst] at hi; cases hi
  rw [reads_snoc hs, ih hold]
  simp [read?, hold]

/-- **An invariant of the sessions, of what they have read and of the committed store**: it holds when
    a request is made, a step of its session keeps it, and so does a commit of rows its session has
    not locked. -/
theorem run_reads {J : Q → List S.Db → S.Db → Stage S → Prop} {d₀ : S.Db} {seq : S.Tab → ℕ}
    (h₀ : ∀ q d, J q [] d (.idle (prog q)))
    (hnext : ∀ q l d st d' st', J q l d st → st.Next d d' st' →
      J q (l ++ (st.select? d).toList) d' st')
    (hrely : ∀ q l d st ws, J q l d st → (∀ w ∈ ws, w.1 ∉ st.locks) → J q l (overlay ws d) st)
    (hguard : ∀ as s, (State.init d₀ seq).run prog as = some s → s.Guarded)
    (hrun : (State.init d₀ seq).run prog acts = some s) {q : Q} {st : Stage S}
    (hi : s.sessions[i]? = some (q, st)) : J q ((State.init d₀ seq).reads prog i acts) s.db st := by
  refine run_induction (I := fun as s => ∀ q st, s.sessions[i]? = some (q, st) →
    J q ((State.init d₀ seq).reads prog i as) s.db st) (by simp [State.init])
    (fun as a s s' hs hst ih q st hi => ?_) hrun q st hi
  rw [reads_snoc hs]
  rcases step_cases hst with ⟨q', rfl, rfl⟩ | ⟨rfl, rfl⟩ | ⟨j, q', st₁, st₂, ha, hm⟩
  · rw [show s.read? i (.submit q') = none from rfl, Option.toList_none, List.append_nil]
    rw [List.getElem?_append] at hi
    split_ifs at hi with hlt
    · exact ih q st hi
    · obtain ⟨hlen, he⟩ := List.getElem?_eq_some_iff.1 hi
      simp only [List.length_singleton, Nat.lt_one_iff] at hlen
      simp only [List.getElem_singleton, Prod.mk.injEq] at he
      obtain ⟨rfl, rfl⟩ := he
      rw [reads_eq_nil hs (List.getElem?_eq_none (Nat.le_of_not_lt hlt))]
      exact h₀ _ _
  · rw [show s.read? i .tick = none from rfl, Option.toList_none, List.append_nil]
    exact ih q st hi
  · rw [read?, ha]
    by_cases hij : j = i
    · subst hij
      rw [hm.sessions, Spec.sessions_set_self hm.session] at hi
      cases hi
      rw [if_pos rfl, hm.session]
      exact hnext _ _ _ _ _ _ (ih q st₁ hm.session) hm.next
    · rw [if_neg fun e => hij (Option.some.inj e), Option.toList_none, List.append_nil]
      rw [hm.sessions, List.getElem?_set_ne hij] at hi
      have hJ := ih q st hi
      rcases hm.next.db with hd | hd
      · rwa [hd]
      · rw [hd]
        refine hrely _ _ _ _ _ hJ fun w hw => ?_
        rw [← locksOf_eq hi]
        exact hguard as s hs i j (Ne.symm hij) w (by rwa [writesOf_eq hm.session])

end State

/-! ## Calls that are justified by what has been read -/

/-- The transaction ends with `P`, of the stores it has read, the number of rows it has written and
    its value; the stores `l` have been read and `n` rows written before. -/
def Tx.Ends {β : Type} (P : List S.Db → ℕ → Except S.Error β → Prop) (l : List S.Db) (n : ℕ) :
    Tx S β → Prop
  | .commit a => P l n (.ok a)
  | .throw e => P l 0 (.error e)
  | .select g c => ∀ d, (c (g d)).Ends P (if n = 0 then l ++ [d] else l) n
  | .lock _ c => ∀ r, (c r).Ends P l n
  | .update _ _ _ c => (c 0).Ends P l n ∧ (c 1).Ends P l (n + 1)
  | .insert _ row c => ∀ now m, (c m (row now m)).Ends P l (n + 1)

theorem Tx.Ends.of_forall {β : Type} {P : List S.Db → ℕ → Except S.Error β → Prop}
    (h : ∀ l n x, P l n x) (body : Tx S β) (l : List S.Db) (n : ℕ) : body.Ends P l n := by
  induction body generalizing l n with
  | commit => exact h ..
  | throw => exact h ..
  | select g c ih => exact fun d => ih _ _ _
  | lock key c ih => exact fun r => ih _ _ _
  | update key p f c ih => exact ⟨ih _ _ _, ih _ _ _⟩
  | insert t row c ih => exact fun now m => ih _ _ _ _

/-- How a transaction has ended, as the code after it sees it. -/
abbrev ended {β : Type} : Except S.Error β → Except (Failure S.Fault S.Error) β
  | .ok a => .ok a
  | .error e => .error (.app e)

section
variable (C : List S.Db → S.Call → Prop)

/-- After it has read the stores `l`, the request makes calls for which `C` holds of what has been read
    by then. -/
def Req.Cites (l : List S.Db) : Req S → Prop
  | .done _ => True
  | .tx body k => body.Ends (fun l _ x => (k (ended x)).Cites l) l 0 ∧
      ∀ l' f, (k (.error (.db f))).Cites (l ++ l')
  | .call c k => C l c ∧ ∀ x, (k x).Cites l

def Stage.Cites (l : List S.Db) : Stage S → Prop
  | .idle p => p.Cites C l
  | .active _ ws _ body k => body.Ends (fun l _ x => (k (ended x)).Cites C l) l ws.length ∧
      ∀ l' f, (k (.error (.db f))).Cites C (l ++ l')
  | .waiting k => ∀ x, (k x).Cites C l

variable {C}

theorem Req.Cites.tx {β : Type} {body : Tx S β} {l : List S.Db}
    {k : Except (Failure S.Fault S.Error) β → Req S} (hk : ∀ l x, (k x).Cites C l) :
    (Req.tx body k).Cites C l := ⟨.of_forall (fun _ _ _ => hk ..) .., fun _ _ => hk ..⟩

theorem Stage.Cites.append_nil {l : List S.Db} {st : Stage S} (h : st.Cites C l) :
    st.Cites C (l ++ []) := by rwa [List.append_nil]

theorem Stage.Cites.next {l : List S.Db} {d d' : S.Db} {st st' : Stage S} (h : st.Cites C l)
    (hn : st.Next d d' st') : st'.Cites C (l ++ (st.select? d).toList) := by
  cases hn with
  | start => exact append_nil h
  | call => exact append_nil h.2
  | answer x => exact append_nil (h x)
  | fault f => exact h.2 _ f
  | commit => exact append_nil h.1
  | throw => exact append_nil h.1
  | @select _ _ now ws =>
    cases ws with
    | nil => exact ⟨h.1 d, fun l' f => by rw [List.append_assoc]; exact h.2 _ f⟩
    | cons w ws => exact append_nil ⟨h.1 _, h.2⟩
  | lock => exact append_nil ⟨h.1 _, h.2⟩
  | lockNone => exact append_nil ⟨h.1 _, h.2⟩
  | update =>
    refine append_nil ⟨?_, h.2⟩
    rw [List.length_append]
    exact h.1.2
  | updateNone => exact append_nil ⟨h.1.1, h.2⟩
  | @insert _ now _ _ _ _ _ _ n =>
    refine append_nil ⟨?_, h.2⟩
    rw [List.length_append]
    exact h.1 now n

/-- A call is the last thing the request does. -/
def Req.CallsLast : Req S → Prop
  | .done _ => True
  | .tx _ k => ∀ x, (k x).CallsLast
  | .call _ k => ∀ x, ∃ r, k x = .done r

def Stage.CallsLast : Stage S → Prop
  | .idle p => p.CallsLast
  | .active _ _ _ _ k => ∀ x, (k x).CallsLast
  | .waiting k => ∀ x, ∃ r, k x = .done r

theorem Stage.CallsLast.next {d d' : S.Db} {st st' : Stage S} (h : st.CallsLast)
    (hn : st.Next d d' st') : st'.CallsLast := by
  cases hn with
  | answer x => obtain ⟨r, hr⟩ := h x; exact hr ▸ trivial
  | fault | commit | throw => exact h _
  | start | call | select | lock | lockNone | update | updateNone | insert => exact h

/-- The session has made its call. -/
def Stage.HasCalled : Stage S → Prop
  | .idle p => ∃ r, p = .done r
  | .active .. => False
  | .waiting k => ∀ x, ∃ r, k x = .done r

theorem Stage.HasCalled.next {d d' : S.Db} {st st' : Stage S} (h : st.HasCalled)
    (hn : st.Next d d' st') : st'.HasCalled := by
  cases hn with
  | start | call => obtain ⟨r, hr⟩ := h; cases hr
  | answer x => exact h x
  | fault | commit | throw | select | lock | lockNone | update | updateNone | insert => exact h.elim

theorem Stage.HasCalled.select {d : S.Db} {st : Stage S} (h : st.HasCalled) :
    st.select? d = none := by
  cases st with
  | idle | waiting => rfl
  | active => exact h.elim

end

namespace State

variable {prog : Q → Req S} {s s' s₀ : State S Q} {a : Action S Q} {acts as : List (Action S Q)}
  {i : ℕ}

/-- **The calls of a run are justified by what the sessions have read.** -/
theorem run_cites {C : List S.Db → S.Call → Prop} {A : Q → Prop}
    (hprog : ∀ q, A q → (prog q).Cites C []) {d₀ : S.Db} {seq : S.Tab → ℕ}
    (hguard : ∀ as s, (State.init d₀ seq).run prog as = some s → s.Guarded)
    (hrun : (State.init d₀ seq).run prog acts = some s) {q : Q} {st : Stage S} (hq : A q)
    (hi : s.sessions[i]? = some (q, st)) :
    st.Cites C ((State.init d₀ seq).reads prog i acts) :=
  run_reads (J := fun q l _ st => A q → st.Cites C l) (fun q _ hq => hprog q hq)
    (fun _ _ _ _ _ _ h hn hq => (h hq).next hn) (fun _ _ _ _ _ h _ => h) hguard hrun hi hq

/-- **A call that has been made** was the last thing its session did, and is justified by all it has
    read. -/
theorem run_called {C : List S.Db → S.Call → Prop} {A : Q → Prop}
    (hcites : ∀ q, A q → (prog q).Cites C []) (hlast : ∀ q, A q → (prog q).CallsLast) {d₀ : S.Db}
    {seq : S.Tab → ℕ} (hguard : ∀ as s, (State.init d₀ seq).run prog as = some s → s.Guarded)
    (hrun : (State.init d₀ seq).run prog acts = some s) {c : S.Call} (hc : (i, c) ∈ s.calls) :
    ∃ q st, s.sessions[i]? = some (q, st) ∧
      (A q → st.HasCalled ∧ C ((State.init d₀ seq).reads prog i acts) c) := by
  refine run_induction (I := fun as s => ∀ i c, (i, c) ∈ s.calls →
    ∃ q st, s.sessions[i]? = some (q, st) ∧
      (A q → st.HasCalled ∧ C ((State.init d₀ seq).reads prog i as) c)) (by simp [State.init])
    (fun as a s s' hs hst ih i c hc => ?_) hrun i c hc
  rw [reads_snoc hs]
  have old (hc : (i, c) ∈ s.calls) : ∃ q st, s'.sessions[i]? = some (q, st) ∧
      (A q → st.HasCalled ∧
        C ((State.init d₀ seq).reads prog i as ++ (s.read? i a).toList) c) := by
    obtain ⟨q, st, hi, h⟩ := ih i c hc
    rcases step_cases hst with ⟨q', rfl, rfl⟩ | ⟨rfl, rfl⟩ | ⟨j, q', st₁, st₂, ha, hm⟩
    · refine ⟨q, st, ?_, fun hq => by simpa [read?, Action.session?] using h hq⟩
      rw [List.getElem?_append_left (List.getElem?_eq_some_iff.1 hi).1]
      exact hi
    · exact ⟨q, st, hi, fun hq => by simpa [read?, Action.session?] using h hq⟩
    · by_cases hij : j = i
      · subst hij
        cases hm.session.symm.trans hi
        refine ⟨q, st₂, by rw [hm.sessions, Spec.sessions_set_self hm.session], fun hq => ?_⟩
        obtain ⟨hcalled, hC⟩ := h hq
        have hr : s.read? j a = none := by
          rw [read?, if_pos ha, hi]
          exact hcalled.select
        rw [hr, Option.toList_none, List.append_nil]
        exact ⟨hcalled.next hm.next, hC⟩
      · refine ⟨q, st, by rw [hm.sessions, List.getElem?_set_ne hij]; exact hi, fun hq => ?_⟩
        rw [read?, ha, if_neg fun e => hij (Option.some.inj e), Option.toList_none, List.append_nil]
        exact h hq
  rcases step_calls hst with hcalls | ⟨j, q, c', k, rfl, hj, hsess, hcalls⟩
  · exact old (hcalls ▸ hc)
  · rw [hcalls, List.mem_append] at hc
    rcases hc with hc | hc
    · exact old hc
    · cases List.mem_singleton.1 hc
      refine ⟨q, .waiting k, by rw [hsess, Spec.sessions_set_self hj], fun hq => ?_⟩
      have hr : s.read? i (.exec i) = none := by simp [read?, Action.session?, hj, Stage.select?]
      rw [hr, Option.toList_none, List.append_nil]
      have hl : (Stage.idle (.call c k)).CallsLast := run_stages
        (J := fun q st => A q → st.CallsLast) (fun q _ hq => hlast q hq)
        (fun _ _ _ _ _ h hn hq => (h hq).next hn) hs hj hq
      exact ⟨hl, (run_cites hcites hguard hs hq hj).1⟩

/-- **What was true of the store a session has read last** still is, if the commits since then have
    kept it. -/
theorem since_read {P : S.Db → Prop} {d : S.Db} (hrun : s₀.run prog acts = some s)
    (hlast : (s₀.reads prog i acts).getLast? = some d) (hP : P d)
    (hkeep : ∀ as b bs t c, acts = as ++ b :: bs → s₀.run prog as = some t → t.commit? b = some c →
      s₀.reads prog i as = s₀.reads prog i acts → P c.db → P (overlay c.writes c.db)) : P s.db := by
  refine run_induction (I := fun acts s =>
    (s₀.reads prog i acts).getLast? = some d → (∀ as b bs t c, acts = as ++ b :: bs →
      s₀.run prog as = some t → t.commit? b = some c →
      s₀.reads prog i as = s₀.reads prog i acts → P c.db → P (overlay c.writes c.db)) → P s.db)
    (by simp [reads]) (fun as a s s' hs hst ih hlast hkeep => ?_) hrun hlast hkeep
  rw [reads_snoc hs] at hlast
  cases hr : s.read? i a with
  | some x =>
    -- it reads now
    obtain ⟨ha, hx⟩ := Option.ite_none_right_eq_some.1 hr
    obtain ⟨⟨q, st⟩, hi, hx⟩ := Option.bind_eq_some_iff.1 hx
    rcases step_cases hst with ⟨q', rfl, rfl⟩ | ⟨rfl, rfl⟩ | ⟨j, q', st₁, st₂, ha', hm⟩
    · cases ha
    · cases ha
    cases ha.symm.trans ha'
    cases hm.session.symm.trans hi
    obtain ⟨rfl, hd⟩ := hm.next.db_of_select hx
    rw [hr] at hlast
    simp only [Option.toList_some, List.getLast?_append, List.getLast?_singleton, Option.some_or,
      Option.some.injEq] at hlast
    rw [hd, hlast]
    exact hP
  | none =>
    rw [hr, Option.toList_none, List.append_nil] at hlast
    have hreads : s₀.reads prog i (as ++ [a]) = s₀.reads prog i as := by
      rw [reads_snoc hs, hr, Option.toList_none, List.append_nil]
    have hold := ih hlast fun as₁ b bs t c hacts ht hc hl =>
      hkeep as₁ b (bs ++ [a]) t c (by simp [hacts]) ht hc (hl.trans hreads.symm)
    rcases step_db hst with hd | ⟨c, hc, hcd, hd⟩
    · rwa [hd]
    · rw [hd, ← hcd]
      exact hkeep as a [] s c rfl hs hc hreads.symm (hcd ▸ hold)

end State

end ReadCommitted
