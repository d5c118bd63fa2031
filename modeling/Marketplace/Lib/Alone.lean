/-
  A request that runs alone.

  `Req.eval` computes what a request does when no other session holds a lock
  or takes a step and the database fails no statement; `run_alone` shows that
  the interleaved system does just that under the schedule that only lets
  this session run.
-/
import Marketplace.Lib.Interference

namespace ReadCommitted

variable {S : Sig} {Q : Type}

/-- The outcome of a transaction: the sequences, and its value with its writes. -/
def Tx.eval {α : Type} (d : S.Db) (now : ℕ) : List (Write S) → (S.Tab → ℕ) → Tx S α →
    (S.Tab → ℕ) × Except S.Error (α × List (Write S))
  | ws, seq, .commit a => (seq, .ok (a, ws))
  | _, seq, .throw e => (seq, .error e)
  | ws, seq, .select q k => (k (q (overlay ws d))).eval d now ws seq
  | ws, seq, .lock key k => (k (S.get (overlay ws d) key)).eval d now ws seq
  | ws, seq, .update key p f k =>
    match S.get (overlay ws d) key with
    | none => (k 0).eval d now ws seq
    | some r => if p r then (k 1).eval d now (ws ++ [⟨key, f r⟩]) seq else (k 0).eval d now ws seq
  | ws, seq, .insert t row k =>
    (k (seq t) (row now (seq t))).eval d now (ws ++ [⟨S.serial t (seq t), row now (seq t)⟩])
      (Function.update seq t (seq t + 1))

/-- The outcome of a request: the store, the sequences and the reply. -/
def Req.eval (answers : S.Call → S.Answer) (now : ℕ) : S.Db → (S.Tab → ℕ) → Req S →
    S.Db × (S.Tab → ℕ) × S.Reply
  | d, seq, .done r => (d, seq, r)
  | d, seq, .tx body k =>
    let out := body.eval d now [] seq
    match out.2 with
    | .ok (a, ws) => (k (.ok a)).eval answers now (overlay ws d) out.1
    | .error e => (k (.error (.app e))).eval answers now d out.1
  | d, seq, .call c k => (k (answers c)).eval answers now d seq

namespace State

variable {prog : Q → Req S} {s : State S Q} {i : ℕ} {q : Q}

/-- No other session holds a lock. -/
def Alone (s : State S Q) (i : ℕ) : Prop := ∀ key, s.free i key = true

theorem Alone.of_set {s' : State S Q} (h : s.Alone i) {x : Q × Stage S}
    (hs : s'.sessions = s.sessions.set i x) : s'.Alone i := by
  intro key
  rw [free_iff, hs]
  intro j p hj hji
  rw [List.getElem?_set_ne (Ne.symm hji)] at hj
  exact free_iff.1 (h key) j p hj hji

theorem alone_append (hfree : ∀ p ∈ s.sessions, p.2.locks = []) (x : Q × Stage S) :
    Alone { s with sessions := s.sessions ++ [x] } s.sessions.length := by
  intro key
  rw [free_iff]
  intro j p hj hne
  rw [List.getElem?_append] at hj
  split_ifs at hj with hlt
  · rw [hfree p (List.mem_of_getElem? hj)]
    exact List.not_mem_nil
  · have hj₁ := (List.getElem?_eq_some_iff.1 hj).1
    simp only [List.length_singleton] at hj₁
    omega

/-- Actions that satisfy `P` take `s` to `s'`, where session `i` is at `st` and the others are where they
    were. -/
def Goes (P : Action S Q → Prop) (prog : Q → Req S) (i : ℕ) (q : Q) (s : State S Q) (st : Stage S)
    (s' : State S Q) : Prop :=
  ∃ acts, (∀ a ∈ acts, P a) ∧ s.run prog acts = some s' ∧
    s'.sessions = s.sessions.set i (q, st) ∧ s'.clock = s.clock

section
variable {P : Action S Q → Prop} {s₁ s' : State S Q} {st₁ st : Stage S}

theorem Goes.refl (hi : s.sessions[i]? = some (q, st)) : Goes P prog i q s st s := by
  refine ⟨[], by simp, rfl, ?_, rfl⟩
  obtain ⟨hlt, hget⟩ := List.getElem?_eq_some_iff.1 hi
  exact (hget ▸ List.set_getElem_self hlt).symm

theorem Goes.one {a : Action S Q} (ha : P a) (hstep : s.step prog a = some s')
    (hset : s'.sessions = s.sessions.set i (q, st)) (hclock : s'.clock = s.clock) :
    Goes P prog i q s st s' :=
  ⟨[a], by simpa using ha, by simp [run, hstep], hset, hclock⟩

theorem Goes.cons {a : Action S Q} (ha : P a) (hstep : s.step prog a = some s₁)
    (hset : s₁.sessions = s.sessions.set i (q, st₁)) (hclock : s₁.clock = s.clock)
    (h : Goes P prog i q s₁ st s') : Goes P prog i q s st s' := by
  obtain ⟨acts, hacts, hrun, hs', hc⟩ := h
  refine ⟨a :: acts, ?_, by simp [run, hstep, hrun], ?_, hc.trans hclock⟩
  · simpa using ⟨ha, hacts⟩
  · rw [hs', hset, List.set_set]

theorem Goes.trans (h₁ : Goes P prog i q s st₁ s₁) (h : Goes P prog i q s₁ st s') :
    Goes P prog i q s st s' := by
  obtain ⟨acts₁, hacts₁, hrun₁, hs₁, hc₁⟩ := h₁
  obtain ⟨acts, hacts, hrun, hs', hc⟩ := h
  refine ⟨acts₁ ++ acts, fun a ha => ?_, by simp [run_append, hrun₁, hrun], ?_, hc.trans hc₁⟩
  · exact (List.mem_append.1 ha).elim (hacts₁ a) (hacts a)
  · rw [hs', hs₁, List.set_set]

theorem Goes.alone (h : Goes P prog i q s st₁ s₁) (hal : s.Alone i) : s₁.Alone i := by
  obtain ⟨_, _, _, hs₁, _⟩ := h
  exact hal.of_set hs₁

end

/-- Session `i` alone takes `s` to `s'`, where it is at `st`. -/
def Solo (prog : Q → Req S) (i : ℕ) (q : Q) (s : State S Q) (st : Stage S)
    (s' : State S Q) : Prop :=
  ∃ acts, (∀ a ∈ acts, a = .exec i ∨ ∃ x, a = .answer i x) ∧ s.run prog acts = some s' ∧
    s'.sessions = s.sessions.set i (q, st) ∧ s'.clock = s.clock

theorem Solo.cons {a : Action S Q} {s₁ s' : State S Q} {st₁ st : Stage S}
    (ha : a = .exec i ∨ ∃ x, a = .answer i x) (hstep : s.step prog a = some s₁)
    (hset : s₁.sessions = s.sessions.set i (q, st₁)) (hclock : s₁.clock = s.clock)
    (h : Solo prog i q s₁ st s') : Solo prog i q s st s' :=
  Goes.cons ha hstep hset hclock h

/-- The transaction `body` of session `i` alone ends as computed. -/
def TxAlone (prog : Q → Req S) (i : ℕ) (q : Q) {β : Type}
    (k : Except (Failure S.Fault S.Error) β → Req S)
    (s : State S Q) (now : ℕ) (ws : List (Write S)) (body : Tx S β) : Prop :=
  ∃ s', s'.seq = (body.eval s.db now ws s.seq).1 ∧
    match (body.eval s.db now ws s.seq).2 with
    | .ok (a, ws') => s'.db = overlay ws' s.db ∧ Solo prog i q s (.idle (k (.ok a))) s'
    | .error e => s'.db = s.db ∧ Solo prog i q s (.idle (k (.error (.app e)))) s'

theorem getElem?_set_same {s : State S Q} {p : Q × Stage S} (h : s.sessions[i]? = some p)
    (st : Stage S) :
    (s.sessions.set i (q, st))[i]? = some (q, st) :=
  List.getElem?_set_self (List.getElem?_eq_some_iff.1 h).1

theorem TxAlone.cons {β : Type} {k : Except (Failure S.Fault S.Error) β → Req S} {now : ℕ}
    {ws : List (Write S)} {locks : List S.Key} {body : Tx S β} (hal : s.Alone i)
    (hi : s.sessions[i]? = some (q, .active now ws locks body k)) (seq₁ : S.Tab → ℕ)
    (ws₁ : List (Write S)) (locks₁ : List S.Key) (body₁ : Tx S β)
    (hstmt : s.stmt i q now ws locks k body =
      some ({ s with seq := seq₁ }.goto i q (.active now ws₁ locks₁ body₁ k)))
    (heval : body.eval s.db now ws s.seq = body₁.eval s.db now ws₁ seq₁)
    (ih : ∀ (s : State S Q) (ws : List (Write S)) (locks : List S.Key), s.Alone i →
      s.sessions[i]? = some (q, .active now ws locks body₁ k) → TxAlone prog i q k s now ws body₁) :
    TxAlone prog i q k s now ws body := by
  have hstep : s.step prog (.exec i) = s.stmt i q now ws locks k body := by simp only [step, hi]
  obtain ⟨s', hseq, hs'⟩ := ih ({ s with seq := seq₁ }.goto i q (.active now ws₁ locks₁ body₁ k)) ws₁
    locks₁ (hal.of_set rfl) (getElem?_set_same hi _)
  refine ⟨s', by rw [heval]; exact hseq, ?_⟩
  rw [heval]
  simp only [goto] at hs'
  split <;> rename_i h <;> rw [h] at hs' <;>
    exact ⟨hs'.1, hs'.2.cons (Or.inl rfl) (hstep.trans hstmt) rfl rfl⟩

theorem tx_alone {β : Type} {k : Except (Failure S.Fault S.Error) β → Req S} {now : ℕ}
    (body : Tx S β) :
    ∀ (s : State S Q) (ws : List (Write S)) (locks : List S.Key), s.Alone i →
      s.sessions[i]? = some (q, .active now ws locks body k) →
        TxAlone prog i q k s now ws body := by
  induction body with
  | commit a =>
    intro s ws locks _ hi
    refine ⟨{ s with db := overlay ws s.db }.goto i q (.idle (k (.ok a))), rfl, rfl, ?_⟩
    exact Goes.one (Or.inl rfl) (by simp only [step, hi, stmt]) rfl rfl
  | throw e =>
    intro s ws locks _ hi
    refine ⟨s.goto i q (.idle (k (.error (.app e)))), rfl, rfl, ?_⟩
    exact Goes.one (Or.inl rfl) (by simp only [step, hi, stmt]) rfl rfl
  | select g c ih =>
    intro s ws locks hal hi
    exact .cons hal hi s.seq ws locks (c (g (overlay ws s.db))) rfl rfl (ih _)
  | lock key c ih =>
    intro s ws locks hal hi
    cases hg : S.get (overlay ws s.db) key with
    | none =>
      exact .cons hal hi s.seq ws locks (c none) (by rw [stmt, hg]) (by rw [Tx.eval, hg]) (ih _)
    | some r =>
      exact .cons hal hi s.seq ws (key :: locks) (c (some r))
        (by simp only [stmt, hg, hal key, if_true])
        (by rw [Tx.eval, hg]) (ih _)
  | update key p f c ih =>
    intro s ws locks hal hi
    cases hg : S.get (overlay ws s.db) key with
    | none =>
      exact .cons hal hi s.seq ws locks (c 0) (by rw [stmt, hg]) (by simp [Tx.eval, hg]) (ih _)
    | some r =>
      by_cases hp : p r = true
      · exact .cons hal hi s.seq (ws ++ [⟨key, f r⟩]) (key :: locks) (c 1)
          (by simp only [stmt, hg, hal key, hp, if_true]) (by simp [Tx.eval, hg, hp]) (ih _)
      · exact .cons hal hi s.seq ws locks (c 0) (by simp only [stmt, hg, hal key, hp, if_true]; rfl)
          (by simp [Tx.eval, hg, hp]) (ih _)
  | insert t row c ih =>
    intro s ws locks hal hi
    exact .cons hal hi _ _ (S.serial t (s.seq t) :: locks) (c (s.seq t) (row now (s.seq t))) rfl rfl
      (ih _ _)

/-- The request `p` of session `i` alone ends as computed. -/
def ReqAlone (prog : Q → Req S) (answers : S.Call → S.Answer) (i : ℕ) (q : Q) (s : State S Q)
    (p : Req S) : Prop :=
  ∃ s', Solo prog i q s (.idle (.done (p.eval answers s.clock s.db s.seq).2.2)) s' ∧
    s'.db = (p.eval answers s.clock s.db s.seq).1 ∧ s'.seq = (p.eval answers s.clock s.db s.seq).2.1

theorem ReqAlone.cons {answers : S.Call → S.Answer} {p p₁ : Req S} {s₁ : State S Q}
    (hal : s.Alone i)
    (hi : s.sessions[i]? = some (q, .idle p)) (h : Solo prog i q s (.idle p₁) s₁)
    (heval : p.eval answers s.clock s.db s.seq = p₁.eval answers s.clock s₁.db s₁.seq)
    (ih : ∀ s : State S Q, s.Alone i → s.sessions[i]? = some (q, .idle p₁) →
      ReqAlone prog answers i q s p₁) : ReqAlone prog answers i q s p := by
  obtain ⟨_, _, _, hset, hclock⟩ := id h
  obtain ⟨s', hs', hdb, hseq⟩ := ih s₁ (Goes.alone h hal) (by rw [hset]; exact getElem?_set_same hi _)
  rw [hclock, ← heval] at hs' hdb hseq
  exact ⟨s', Goes.trans h hs', hdb, hseq⟩

/-- **A request that runs alone ends as computed.** -/
theorem run_alone {answers : S.Call → S.Answer} (p : Req S) : ∀ s : State S Q, s.Alone i →
    s.sessions[i]? = some (q, .idle p) → ReqAlone prog answers i q s p := by
  induction p with
  | done r =>
    intro s _ hi
    exact ⟨s, Goes.refl hi, rfl, rfl⟩
  | tx body k ih =>
    intro s hal hi
    have hbegin : s.step prog (.exec i) = some (s.goto i q (.active s.clock [] [] body k)) := by
      simp only [step, hi]
    have htx : TxAlone prog i q k (s.goto i q (.active s.clock [] [] body k)) s.clock [] body :=
      tx_alone body _ [] [] (hal.of_set rfl) (getElem?_set_same hi _)
    obtain ⟨s₁, hseq, hs₁⟩ := htx
    simp only [goto] at hseq hs₁
    split at hs₁ <;> rename_i he
    · refine .cons hal hi (hs₁.2.cons (Or.inl rfl) hbegin rfl rfl) ?_ (ih _)
      simp only [Req.eval, he, hs₁.1, hseq]
    · refine .cons hal hi (hs₁.2.cons (Or.inl rfl) hbegin rfl rfl) ?_ (ih _)
      simp only [Req.eval, he, hs₁.1, hseq]
  | call c k ih =>
    intro s hal hi
    let s₁ := { s with calls := s.calls ++ [(i, c)] }
    have hcall : s.step prog (.exec i) = some (s₁.goto i q (.waiting k)) := by
      simp only [step, hi, s₁]
    have hanswer : (s₁.goto i q (.waiting k)).step prog (.answer i (answers c)) =
        some ((s₁.goto i q (.waiting k)).goto i q (.idle (k (answers c)))) := by
      have : (s₁.goto i q (.waiting k)).sessions[i]? = some (q, .waiting k) :=
        getElem?_set_same hi _
      simp only [step, this]
    have hsolo : Solo prog i q s (.idle (k (answers c)))
        ((s₁.goto i q (.waiting k)).goto i q (.idle (k (answers c)))) :=
      .cons (Or.inl rfl) hcall rfl rfl (Goes.one (Or.inr ⟨_, rfl⟩) hanswer rfl rfl)
    exact .cons hal hi hsolo rfl (ih _)

end State

end ReadCommitted
