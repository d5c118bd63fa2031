/-
  Replies that are justified by what a session has read, and by how the database
  has failed it.

  `Req.Replies` says this of a request; `State.run_replies` carries it over to
  runs.
-/
import Marketplace.Lib.Reads

namespace ReadCommitted

variable {S : Sig} {Q : Type}

section
variable {β : Type} {P P' : List S.Db → ℕ → Except S.Error β → Prop}

theorem Tx.Ends.mono (h : ∀ l n x, P l n x → P' l n x) {body : Tx S β} :
    ∀ {l : List S.Db} {n : ℕ}, body.Ends P l n → body.Ends P' l n := by
  induction body with
  | commit | throw => exact h _ _ _
  | select g c ih => exact fun hb d => ih _ (hb d)
  | lock key c ih => exact fun hb r => ih _ (hb r)
  | update key p f c ih => exact fun hb => ⟨ih _ hb.1, ih _ hb.2⟩
  | insert t row c ih => exact fun hb now m => ih _ _ (hb now m)

theorem Tx.Ends.updateEach {ι : Type} {key : ι → S.Key} {p : (i : ι) → S.Row (key i) → Bool}
    {f : (i : ι) → S.Row (key i) → S.Row (key i)} {k : ℕ → Tx S β} {l : List S.Db}
    (hk : ∀ c n, (k c).Ends P l n) (is : List ι) (c n : ℕ) :
    (Tx.updateEach key p f k is c).Ends P l n := by
  induction is generalizing c n with
  | nil => exact hk c n
  | cons i is ih => exact ⟨ih _ _, ih _ _⟩

end

section
variable (P : List S.Db → List S.Fault → S.Reply → Prop)

/-- When it ends, `P` holds of what the request has read, of the failures of its statements, and of
    its reply; it has read the stores `l` and seen the failures `fs` before. -/
def Req.Replies : List S.Db → List S.Fault → Req S → Prop
  | l, fs, .done r => P l fs r
  | l, fs, .tx body k => body.Ends (fun l _ x => (k (ended x)).Replies l fs) l 0 ∧
      ∀ l' f, (k (.error (.db f))).Replies (l ++ l') (fs ++ [f])
  | l, fs, .call _ k => ∀ x, (k x).Replies l fs

def Stage.Replies (l : List S.Db) (fs : List S.Fault) : Stage S → Prop
  | .idle p => p.Replies P l fs
  | .active _ ws _ body k => body.Ends (fun l _ x => (k (ended x)).Replies P l fs) l ws.length ∧
      ∀ l' f, (k (.error (.db f))).Replies P (l ++ l') (fs ++ [f])
  | .waiting k => ∀ x, (k x).Replies P l fs

variable {P}

theorem Stage.Replies.append_nil {l : List S.Db} {fs : List S.Fault} {st : Stage S}
    (h : st.Replies P l fs) : st.Replies P (l ++ []) fs := by rwa [List.append_nil]

end

theorem Stage.reply?_eq_some {st : Stage S} {r : S.Reply} :
    st.reply? = some r ↔ st = .idle (.done r) := by
  constructor
  · intro h
    unfold Stage.reply? at h
    split at h
    · cases h; rfl
    · cases h
  · rintro rfl
    rfl

/-- The failure of a statement of session `i`. -/
def Action.fault? (i : ℕ) : Action S Q → Option S.Fault
  | .fault j f => if j = i then some f else none
  | .submit _ | .exec _ | .answer .. | .tick => none

/-- How the database has failed session `i`, in the order of the failures. -/
def faults (i : ℕ) (acts : List (Action S Q)) : List S.Fault := acts.filterMap (Action.fault? i)

theorem mem_faults {i : ℕ} {acts : List (Action S Q)} {f : S.Fault} :
    f ∈ faults i acts ↔ .fault i f ∈ acts := by
  constructor
  · intro h
    obtain ⟨a, ha, hf⟩ := List.mem_filterMap.1 h
    cases a with
    | fault j g =>
      obtain ⟨rfl, hg⟩ := Option.ite_none_right_eq_some.1 hf
      cases hg
      exact ha
    | submit | exec | answer | tick => cases hf
  · intro h
    exact List.mem_filterMap.2 ⟨_, h, if_pos rfl⟩

namespace State

variable {prog : Q → Req S} {s s' s₀ : State S Q} {a : Action S Q} {acts as : List (Action S Q)}
  {i : ℕ} {P : List S.Db → List S.Fault → S.Reply → Prop}

theorem stmt_replies {q : Q} {now : ℕ} {ws : List (Write S)} {locks : List S.Key} {β : Type}
    {k : Except (Failure S.Fault S.Error) β → Req S} {body : Tx S β} {l : List S.Db}
    {fs : List S.Fault} (hr : (Stage.active now ws locks body k).Replies P l fs)
    (h : s.stmt i q now ws locks k body = some s') : ∃ st', s'.sessions = s.sessions.set i (q, st') ∧
      st'.Replies P (l ++ ((Stage.active now ws locks body k).select? s.db).toList) fs := by
  obtain ⟨hbody, hf⟩ := hr
  cases body with
  | commit a => cases h; exact ⟨_, rfl, .append_nil hbody⟩
  | throw x => cases h; exact ⟨_, rfl, .append_nil hbody⟩
  | select g c =>
    cases h
    refine ⟨_, rfl, ?_⟩
    cases ws with
    | nil => exact ⟨hbody s.db, fun l' f => by rw [List.append_assoc]; exact hf _ f⟩
    | cons w ws => exact .append_nil ⟨hbody _, hf⟩
  | lock key c =>
    simp only [stmt] at h
    cases hg : S.get (overlay ws s.db) key with
    | none =>
      simp only [hg, Option.some.injEq] at h
      subst h
      exact ⟨_, rfl, .append_nil ⟨hbody _, hf⟩⟩
    | some r =>
      simp only [hg, Option.ite_none_right_eq_some, Option.some.injEq] at h
      obtain ⟨-, rfl⟩ := h
      exact ⟨_, rfl, .append_nil ⟨hbody _, hf⟩⟩
  | update key p f c =>
    simp only [stmt] at h
    cases hg : S.get (overlay ws s.db) key with
    | none =>
      simp only [hg, Option.some.injEq] at h
      subst h
      exact ⟨_, rfl, .append_nil ⟨hbody.1, hf⟩⟩
    | some r =>
      simp only [hg, Option.ite_none_right_eq_some] at h
      obtain ⟨-, h⟩ := h
      split_ifs at h
      · cases h
        refine ⟨_, rfl, .append_nil ⟨?_, hf⟩⟩
        rw [List.length_append]
        exact hbody.2
      · cases h
        exact ⟨_, rfl, .append_nil ⟨hbody.1, hf⟩⟩
  | insert t row c =>
    cases h
    refine ⟨_, rfl, .append_nil ⟨?_, hf⟩⟩
    rw [List.length_append]
    exact hbody now _

theorem step_replies {q : Q} {st : Stage S} {l : List S.Db} {fs : List S.Fault}
    (ha : a.session? = some i) (hi : s.sessions[i]? = some (q, st)) (hr : st.Replies P l fs)
    (h : s.step prog a = some s') : ∃ st', s'.sessions = s.sessions.set i (q, st') ∧
      st'.Replies P (l ++ (s.read? i a).toList) (fs ++ (a.fault? i).toList) := by
  have hread : s.read? i a = st.select? s.db := by rw [read?, if_pos ha, hi]; rfl
  rw [hread]
  cases a with
  | submit | tick => cases ha
  | exec j =>
    cases ha
    rw [show (Action.exec i : Action S Q).fault? i = none from rfl, Option.toList_none, List.append_nil]
    simp only [step, hi] at h
    cases st with
    | idle p =>
      cases p with
      | done => cases h
      | tx => cases h; exact ⟨_, rfl, .append_nil hr⟩
      | call => cases h; exact ⟨_, rfl, .append_nil hr⟩
    | active now ws locks body k => exact stmt_replies hr h
    | waiting => cases h
  | fault j f =>
    cases ha
    rw [show (Action.fault i f : Action S Q).fault? i = some f from if_pos rfl, Option.toList_some]
    simp only [step, hi] at h
    cases st with
    | active => cases h; exact ⟨_, rfl, hr.2 _ f⟩
    | idle | waiting => cases h
  | answer j x =>
    cases ha
    rw [show (Action.answer i x : Action S Q).fault? i = none from rfl, Option.toList_none,
      List.append_nil]
    simp only [step, hi] at h
    cases st with
    | waiting => cases h; exact ⟨_, rfl, .append_nil (hr x)⟩
    | idle | active => cases h

theorem faults_eq_nil {d₀ : S.Db} {seq : S.Tab → ℕ}
    (hrun : (State.init d₀ seq).run prog acts = some s) (hi : s.sessions[i]? = none) :
    faults i acts = [] := by
  refine run_induction (I := fun as s => s.sessions[i]? = none → faults i as = []) (fun _ => rfl)
    (fun as a s s' hs hst ih hi => ?_) hrun hi
  have hold : s.sessions[i]? = none := by
    cases hq : s.sessions[i]? with
    | none => rfl
    | some p =>
      obtain ⟨st, hst⟩ := session_kept hst hq
      rw [hst] at hi; cases hi
  have hnone : a.fault? i = none := by
    cases a with
    | fault j f =>
      refine if_neg fun hij => ?_
      subst hij
      simp only [step, hold] at hst
      cases hst
    | submit | exec | answer | tick => rfl
  rw [faults, List.filterMap_append, ← faults, ih hold, List.filterMap_cons_none hnone]
  rfl

/-- **The replies of a run are justified** by what their sessions have read, and by how the database
    has failed them. -/
theorem run_replies {A : Q → Prop} (hprog : ∀ q, A q → (prog q).Replies P [] []) {d₀ : S.Db}
    {seq : S.Tab → ℕ} (hrun : (State.init d₀ seq).run prog acts = some s) {q : Q} {st : Stage S}
    (hq : A q) (hi : s.sessions[i]? = some (q, st)) :
    st.Replies P ((State.init d₀ seq).reads prog i acts) (faults i acts) := by
  refine run_induction (I := fun as s => ∀ q st, s.sessions[i]? = some (q, st) → A q →
    st.Replies P ((State.init d₀ seq).reads prog i as) (faults i as)) (by simp [State.init])
    (fun as a s s' hs hst ih q st hi hq => ?_) hrun q st hi hq
  have hfaults : faults i (as ++ [a]) = faults i as ++ (a.fault? i).toList := by
    rw [faults, List.filterMap_append, ← faults]
    cases h : a.fault? i <;> simp [h]
  rw [reads_snoc hs, hfaults]
  have same (hread : s.read? i a = none) (hfault : a.fault? i = none)
      (hold : s.sessions[i]? = some (q, st)) : st.Replies P
        ((State.init d₀ seq).reads prog i as ++ (s.read? i a).toList)
        (faults i as ++ (a.fault? i).toList) := by
    rw [hread, hfault, Option.toList_none, Option.toList_none, List.append_nil, List.append_nil]
    exact ih q st hold hq
  rcases step_cases hst with ⟨q', rfl, rfl⟩ | ⟨rfl, rfl⟩ | ⟨j, q', st₁, st₂, ha, hm⟩
  · rw [List.getElem?_append] at hi
    split_ifs at hi with hlt
    · exact same rfl rfl hi
    · obtain ⟨hlen, he⟩ := List.getElem?_eq_some_iff.1 hi
      simp only [List.length_singleton, Nat.lt_one_iff] at hlen
      simp only [List.getElem_singleton, Prod.mk.injEq] at he
      obtain ⟨rfl, rfl⟩ := he
      have hnone : s.sessions[i]? = none := List.getElem?_eq_none (Nat.le_of_not_lt hlt)
      rw [reads_eq_nil hs hnone, faults_eq_nil hs hnone]
      exact hprog _ hq
  · exact same rfl rfl hi
  · by_cases hij : j = i
    · subst hij
      rw [hm.sessions, Spec.sessions_set_self hm.session] at hi
      cases hi
      obtain ⟨st', hsess, hr⟩ := step_replies ha hm.session (ih q st₁ hm.session hq) hst
      have hst' : s'.sessions[j]? = some (q, st') := by
        rw [hsess, Spec.sessions_set_self hm.session]
      rw [hm.sessions, Spec.sessions_set_self hm.session] at hst'
      cases hst'
      exact hr
    · rw [hm.sessions, List.getElem?_set_ne hij] at hi
      refine same ?_ ?_ hi
      · rw [read?, ha, if_neg fun e => hij (Option.some.inj e)]
      · cases a with
        | fault k f => cases ha; exact if_neg hij
        | submit | exec | answer | tick => rfl

theorem run_reply {A : Q → Prop} (hprog : ∀ q, A q → (prog q).Replies P [] []) {d₀ : S.Db}
    {seq : S.Tab → ℕ} (hrun : (State.init d₀ seq).run prog acts = some s) {q : Q} {r : S.Reply}
    (hq : A q) (hi : s.sessions[i]? = some (q, .idle (.done r))) :
    P ((State.init d₀ seq).reads prog i acts) (faults i acts) r := by
  have h : (Stage.idle (.done r)).Replies P ((State.init d₀ seq).reads prog i acts) (faults i acts) :=
    run_replies hprog hrun hq hi
  exact h

end State

end ReadCommitted
