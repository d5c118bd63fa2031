/-
  A request that runs alone, while the database fails some of its statements.

  `Req.failing` computes what the request does then; `run_failing` shows that
  the interleaved system does just that under the schedule that only lets this
  session run.
-/
import Marketplace.Lib.Alone

namespace ReadCommitted

variable {S : Sig} {Q : Type}

section
variable (fails : ℕ → Option S.Fault)

/-- The outcome of a transaction, when `c` statements of the request have been made before it and
    `fails` tells which statement fails: the number of statements made, the sequences, and the
    value of the transaction with its writes. -/
def Tx.failing {α : Type} (d : S.Db) (now : ℕ) : ℕ → List (Write S) → (S.Tab → ℕ) → Tx S α →
    ℕ × (S.Tab → ℕ) × Except (Failure S.Fault S.Error) (α × List (Write S))
  | c, _, seq, .throw e => (c, seq, .error (.app e))
  | c, ws, seq, .commit a =>
    match fails c with
    | some f => (c + 1, seq, .error (.db f))
    | none => (c + 1, seq, .ok (a, ws))
  | c, ws, seq, .select q k =>
    match fails c with
    | some f => (c + 1, seq, .error (.db f))
    | none => (k (q (overlay ws d))).failing d now (c + 1) ws seq
  | c, ws, seq, .lock key k =>
    match fails c with
    | some f => (c + 1, seq, .error (.db f))
    | none => (k (S.get (overlay ws d) key)).failing d now (c + 1) ws seq
  | c, ws, seq, .update key p f k =>
    match fails c with
    | some f => (c + 1, seq, .error (.db f))
    | none =>
      match S.get (overlay ws d) key with
      | none => (k 0).failing d now (c + 1) ws seq
      | some r =>
        if p r then (k 1).failing d now (c + 1) (ws ++ [⟨key, f r⟩]) seq
        else (k 0).failing d now (c + 1) ws seq
  | c, ws, seq, .insert t row k =>
    match fails c with
    | some f => (c + 1, seq, .error (.db f))
    | none => (k (seq t) (row now (seq t))).failing d now (c + 1)
        (ws ++ [⟨S.serial t (seq t), row now (seq t)⟩]) (Function.update seq t (seq t + 1))

/-- The outcome of a request: the store, the sequences and the reply. -/
def Req.failing (answers : S.Call → S.Answer) (now : ℕ) :
    ℕ → S.Db → (S.Tab → ℕ) → Req S → S.Db × (S.Tab → ℕ) × S.Reply
  | _, d, seq, .done r => (d, seq, r)
  | c, d, seq, .tx body k =>
    let out := body.failing fails d now c [] seq
    match out.2.2 with
    | .ok (a, ws) => (k (.ok a)).failing answers now out.1 (overlay ws d) out.2.1
    | .error e => (k (.error e)).failing answers now out.1 d out.2.1
  | c, d, seq, .call x k => (k (answers x)).failing answers now c d seq

end

/-! ## Transactions that do not fail -/

/-- How many statements a transaction makes that runs alone, if none of them fails. -/
def Tx.steps {α : Type} (d : S.Db) (now : ℕ) : List (Write S) → (S.Tab → ℕ) → Tx S α → ℕ
  | _, _, .throw _ => 0
  | _, _, .commit _ => 1
  | ws, seq, .select q k => (k (q (overlay ws d))).steps d now ws seq + 1
  | ws, seq, .lock key k => (k (S.get (overlay ws d) key)).steps d now ws seq + 1
  | ws, seq, .update key p f k =>
    match S.get (overlay ws d) key with
    | none => (k 0).steps d now ws seq + 1
    | some r =>
      if p r then (k 1).steps d now (ws ++ [⟨key, f r⟩]) seq + 1 else (k 0).steps d now ws seq + 1
  | ws, seq, .insert t row k =>
    (k (seq t) (row now (seq t))).steps d now (ws ++ [⟨S.serial t (seq t), row now (seq t)⟩])
      (Function.update seq t (seq t + 1)) + 1

/-- None of the `n` statements from `c` on fails. -/
def NoneFails (fails : ℕ → Option S.Fault) (c n : ℕ) : Prop :=
  ∀ i, c ≤ i → i < c + n → fails i = none

theorem NoneFails.succ {fails : ℕ → Option S.Fault} {c n : ℕ} :
    NoneFails fails c (n + 1) ↔ fails c = none ∧ NoneFails fails (c + 1) n := by
  constructor
  · intro h
    exact ⟨h c (Nat.le_refl c) (by omega), fun i hc hi => h i (by omega) (by omega)⟩
  · rintro ⟨h₀, h⟩ i hc hi
    by_cases hic : i = c
    · rw [hic, h₀]
    · exact h i (by omega) (by omega)

theorem NoneFails.add {fails : ℕ → Option S.Fault} {c n m : ℕ} :
    NoneFails fails c (n + m) ↔ NoneFails fails c n ∧ NoneFails fails (c + n) m := by
  constructor
  · exact fun h => ⟨fun i hc hi => h i hc (by omega), fun i hc hi => h i (by omega) (by omega)⟩
  · rintro ⟨h₁, h₂⟩ i hc hi
    by_cases hin : i < c + n
    · exact h₁ i hc hin
    · exact h₂ i (by omega) (by omega)

/-- What an application's failure is among all failures. -/
def liftError {E F α : Type} : Except E α → Except (Failure F E) α
  | .ok a => .ok a
  | .error e => .error (.app e)

/-- No statement of the transaction fails and it ends as it does alone, or one fails and the
    transaction is rolled back. -/
def Tx.EndsOr {α : Type} (fails : ℕ → Option S.Fault) (d : S.Db) (now c : ℕ) (ws : List (Write S))
    (seq : S.Tab → ℕ) (body : Tx S α) : Prop :=
  (NoneFails fails c (body.steps d now ws seq) ∧ body.failing fails d now c ws seq =
    (c + body.steps d now ws seq, (body.eval d now ws seq).1, liftError (body.eval d now ws seq).2)) ∨
  (¬ NoneFails fails c (body.steps d now ws seq) ∧
    ∃ f, (body.failing fails d now c ws seq).2.2 = .error (.db f))

section
variable {α : Type} {fails : ℕ → Option S.Fault} {d : S.Db} {now : ℕ}

theorem Tx.EndsOr.cons {body body₁ : Tx S α} {c : ℕ} {ws : List (Write S)} {seq : S.Tab → ℕ}
    (ws₁ : List (Write S)) (seq₁ : S.Tab → ℕ)
    (hfail : ∀ f, fails c = some f →
      body.failing fails d now c ws seq = (c + 1, seq, .error (.db f)))
    (hnone : fails c = none → body.failing fails d now c ws seq =
      body₁.failing fails d now (c + 1) ws₁ seq₁)
    (hsteps : body.steps d now ws seq = body₁.steps d now ws₁ seq₁ + 1)
    (heval : body.eval d now ws seq = body₁.eval d now ws₁ seq₁)
    (ih : ∀ c ws seq, body₁.EndsOr fails d now c ws seq) : body.EndsOr fails d now c ws seq := by
  unfold EndsOr
  rw [hsteps, heval, NoneFails.succ]
  cases hf : fails c with
  | some f => exact Or.inr ⟨nofun, f, by rw [hfail f hf]⟩
  | none =>
    rw [hnone hf]
    rcases ih (c + 1) ws₁ seq₁ with ⟨hn, hout⟩ | ⟨hn, hout⟩
    · exact Or.inl ⟨⟨rfl, hn⟩, by rw [hout, Nat.add_right_comm, Nat.add_assoc]⟩
    · exact Or.inr ⟨fun h => hn h.2, hout⟩

/-- **A transaction either ends as it does alone, or it is rolled back** with the failure of one of
    its statements. -/
theorem Tx.failing_cases (fails : ℕ → Option S.Fault) (body : Tx S α) :
    ∀ (c : ℕ) (ws : List (Write S)) (seq : S.Tab → ℕ), body.EndsOr fails d now c ws seq := by
  induction body with
  | throw e =>
    intro c ws seq
    exact Or.inl ⟨fun i hc hi => absurd hi (Nat.not_lt.2 hc), rfl⟩
  | commit a =>
    intro c ws seq
    cases hf : fails c with
    | some f =>
      refine Or.inr ⟨fun h => ?_, f, by simp only [failing, hf]⟩
      have hnone := h c (Nat.le_refl c) (Nat.lt_succ_self c)
      rw [hf] at hnone; cases hnone
    | none =>
      refine Or.inl ⟨fun i hc hi => ?_, by simp only [failing, hf]; rfl⟩
      obtain rfl : i = c := Nat.le_antisymm (Nat.lt_succ_iff.1 hi) hc
      exact hf
  | select g k ih =>
    intro c ws seq
    exact .cons ws seq (fun f hf => by simp only [failing, hf])
      (fun hf => by simp only [failing, hf]) rfl rfl (ih _)
  | lock key k ih =>
    intro c ws seq
    exact .cons ws seq (fun f hf => by simp only [failing, hf])
      (fun hf => by simp only [failing, hf]) rfl rfl (ih _)
  | update key p g k ih =>
    intro c ws seq
    cases hg : S.get (overlay ws d) key with
    | none =>
      exact .cons ws seq (fun f hf => by simp only [failing, hf])
        (fun hf => by simp only [failing, hf, hg]) (by simp only [steps, hg])
        (by simp only [eval, hg]) (ih 0)
    | some r =>
      cases hp : p r with
      | true =>
        exact .cons (ws ++ [⟨key, g r⟩]) seq (fun f hf => by simp only [failing, hf])
          (fun hf => by simp only [failing, hf, hg, hp, if_true])
          (by simp only [steps, hg, hp, if_true]) (by simp only [eval, hg, hp, if_true]) (ih 1)
      | false =>
        exact .cons ws seq (fun f hf => by simp only [failing, hf])
          (fun hf => by simp only [failing, hf, hg, hp, Bool.false_eq_true, if_false])
          (by simp only [steps, hg, hp, Bool.false_eq_true, if_false])
          (by simp only [eval, hg, hp, Bool.false_eq_true, if_false]) (ih 0)
  | insert t row k ih =>
    intro c ws seq
    exact .cons _ _ (fun f hf => by simp only [failing, hf])
      (fun hf => by simp only [failing, hf]) rfl rfl (ih _ _)

end

namespace State

variable {fails : ℕ → Option S.Fault} {prog : Q → Req S} {s : State S Q} {i : ℕ} {q : Q}

/-- Session `i` alone takes `s` to `s'`, where it is at `st`; statements of it may fail. -/
def SoloFailing (prog : Q → Req S) (i : ℕ) (q : Q) (s : State S Q) (st : Stage S)
    (s' : State S Q) : Prop :=
  ∃ acts, (∀ a ∈ acts, a = .exec i ∨ (∃ f, a = .fault i f) ∨ ∃ x, a = .answer i x) ∧
    s.run prog acts = some s' ∧ s'.sessions = s.sessions.set i (q, st) ∧ s'.clock = s.clock

theorem SoloFailing.cons {a : Action S Q} {s₁ s' : State S Q} {st₁ st : Stage S}
    (ha : a = .exec i ∨ (∃ f, a = .fault i f) ∨ ∃ x, a = .answer i x)
    (hstep : s.step prog a = some s₁) (hset : s₁.sessions = s.sessions.set i (q, st₁))
    (hclock : s₁.clock = s.clock) (h : SoloFailing prog i q s₁ st s') :
    SoloFailing prog i q s st s' :=
  Goes.cons ha hstep hset hclock h

theorem SoloFailing.one {a : Action S Q} {s' : State S Q} {st : Stage S}
    (ha : a = .exec i ∨ (∃ f, a = .fault i f) ∨ ∃ x, a = .answer i x)
    (hstep : s.step prog a = some s') (hset : s'.sessions = s.sessions.set i (q, st))
    (hclock : s'.clock = s.clock) : SoloFailing prog i q s st s' :=
  Goes.one ha hstep hset hclock

/-- The transaction `body` of session `i` alone ends as computed. -/
def TxFails (fails : ℕ → Option S.Fault) (prog : Q → Req S) (i : ℕ) (q : Q) {β : Type}
    (k : Except (Failure S.Fault S.Error) β → Req S) (s : State S Q) (now c : ℕ)
    (ws : List (Write S)) (body : Tx S β) : Prop :=
  ∃ s', s'.seq = (body.failing fails s.db now c ws s.seq).2.1 ∧
    match (body.failing fails s.db now c ws s.seq).2.2 with
    | .ok (a, ws') => s'.db = overlay ws' s.db ∧ SoloFailing prog i q s (.idle (k (.ok a))) s'
    | .error e => s'.db = s.db ∧ SoloFailing prog i q s (.idle (k (.error e))) s'

section
variable {β : Type} {k : Except (Failure S.Fault S.Error) β → Req S} {now c : ℕ}
  {ws : List (Write S)} {locks : List S.Key} {body : Tx S β}

theorem TxFails.fail (f : S.Fault) (hi : s.sessions[i]? = some (q, .active now ws locks body k))
    (heval : body.failing fails s.db now c ws s.seq = (c + 1, s.seq, .error (.db f))) :
    TxFails fails prog i q k s now c ws body := by
  have hstep : s.step prog (.fault i f) = some (s.goto i q (.idle (k (.error (.db f))))) := by
    simp only [step, hi]
  refine ⟨s.goto i q (.idle (k (.error (.db f)))), ?_⟩
  rw [heval]
  exact ⟨rfl, rfl, .one (Or.inr (Or.inl ⟨f, rfl⟩)) hstep rfl rfl⟩

theorem TxFails.cons (hal : s.Alone i)
    (hi : s.sessions[i]? = some (q, .active now ws locks body k)) (seq₁ : S.Tab → ℕ)
    (ws₁ : List (Write S)) (locks₁ : List S.Key) (body₁ : Tx S β)
    (hstmt : s.stmt i q now ws locks k body =
      some ({ s with seq := seq₁ }.goto i q (.active now ws₁ locks₁ body₁ k)))
    (heval : body.failing fails s.db now c ws s.seq =
      body₁.failing fails s.db now (c + 1) ws₁ seq₁)
    (ih : ∀ (s : State S Q) (c : ℕ) (ws : List (Write S)) (locks : List S.Key), s.Alone i →
      s.sessions[i]? = some (q, .active now ws locks body₁ k) →
        TxFails fails prog i q k s now c ws body₁) :
    TxFails fails prog i q k s now c ws body := by
  have hstep : s.step prog (.exec i) = s.stmt i q now ws locks k body := by simp only [step, hi]
  obtain ⟨s', hseq, hs'⟩ := ih ({ s with seq := seq₁ }.goto i q (.active now ws₁ locks₁ body₁ k))
    (c + 1) ws₁ locks₁ (hal.of_set rfl) (getElem?_set_same hi _)
  refine ⟨s', by rw [heval]; exact hseq, ?_⟩
  rw [heval]
  simp only [goto] at hs'
  split <;> rename_i h <;> rw [h] at hs' <;>
    exact ⟨hs'.1, hs'.2.cons (Or.inl rfl) (hstep.trans hstmt) rfl rfl⟩

end

theorem tx_failing {β : Type} {k : Except (Failure S.Fault S.Error) β → Req S} {now : ℕ}
    (body : Tx S β) :
    ∀ (s : State S Q) (c : ℕ) (ws : List (Write S)) (locks : List S.Key), s.Alone i →
      s.sessions[i]? = some (q, .active now ws locks body k) →
        TxFails fails prog i q k s now c ws body := by
  induction body with
  | throw e =>
    intro s c ws locks _ hi
    have hstep : s.step prog (.exec i) = some (s.goto i q (.idle (k (.error (.app e))))) := by
      simp only [step, hi, stmt]
    exact ⟨s.goto i q (.idle (k (.error (.app e)))), rfl, rfl, .one (Or.inl rfl) hstep rfl rfl⟩
  | commit a =>
    intro s c ws locks _ hi
    cases hf : fails c with
    | some f => exact .fail f hi (by simp only [Tx.failing, hf])
    | none =>
      have hstep : s.step prog (.exec i) =
          some ({ s with db := overlay ws s.db }.goto i q (.idle (k (.ok a)))) := by
        simp only [step, hi, stmt]
      refine ⟨{ s with db := overlay ws s.db }.goto i q (.idle (k (.ok a))), ?_⟩
      simp only [Tx.failing, hf]
      exact ⟨rfl, rfl, .one (Or.inl rfl) hstep rfl rfl⟩
  | select g b ih =>
    intro s c ws locks hal hi
    cases hf : fails c with
    | some f => exact .fail f hi (by simp only [Tx.failing, hf])
    | none =>
      exact .cons hal hi s.seq ws locks (b (g (overlay ws s.db))) rfl (by simp only [Tx.failing, hf])
        (ih _)
  | lock key b ih =>
    intro s c ws locks hal hi
    cases hf : fails c with
    | some f => exact .fail f hi (by simp only [Tx.failing, hf])
    | none =>
      cases hg : S.get (overlay ws s.db) key with
      | none =>
        exact .cons hal hi s.seq ws locks (b none) (by rw [stmt, hg])
          (by simp only [Tx.failing, hf, hg]) (ih _)
      | some r =>
        exact .cons hal hi s.seq ws (key :: locks) (b (some r))
          (by simp only [stmt, hg, hal key, if_true]) (by simp only [Tx.failing, hf, hg]) (ih _)
  | update key p g b ih =>
    intro s c ws locks hal hi
    cases hf : fails c with
    | some f => exact .fail f hi (by simp only [Tx.failing, hf])
    | none =>
      cases hg : S.get (overlay ws s.db) key with
      | none =>
        exact .cons hal hi s.seq ws locks (b 0) (by rw [stmt, hg])
          (by simp only [Tx.failing, hf, hg]) (ih _)
      | some r =>
        by_cases hp : p r = true
        · exact .cons hal hi s.seq (ws ++ [⟨key, g r⟩]) (key :: locks) (b 1)
            (by simp only [stmt, hg, hal key, hp, if_true])
            (by simp only [Tx.failing, hf, hg, hp, if_true]) (ih _)
        · exact .cons hal hi s.seq ws locks (b 0)
            (by simp only [stmt, hg, hal key, hp, if_true]; rfl)
            (by simp only [Tx.failing, hf, hg, hp]; rfl) (ih _)
  | insert t row b ih =>
    intro s c ws locks hal hi
    cases hf : fails c with
    | some f => exact .fail f hi (by simp only [Tx.failing, hf])
    | none =>
      exact .cons hal hi _ _ (S.serial t (s.seq t) :: locks) (b (s.seq t) (row now (s.seq t))) rfl
        (by simp only [Tx.failing, hf]) (ih _ _)

/-- The request `p` of session `i` alone ends as computed. -/
def ReqFails (fails : ℕ → Option S.Fault) (prog : Q → Req S) (answers : S.Call → S.Answer) (i : ℕ)
    (q : Q) (c : ℕ) (s : State S Q) (p : Req S) : Prop :=
  ∃ s', SoloFailing prog i q s
      (.idle (.done (p.failing fails answers s.clock c s.db s.seq).2.2)) s' ∧
    s'.db = (p.failing fails answers s.clock c s.db s.seq).1 ∧
    s'.seq = (p.failing fails answers s.clock c s.db s.seq).2.1

theorem ReqFails.cons {answers : S.Call → S.Answer} {p p₁ : Req S} {s₁ : State S Q} {c : ℕ}
    (c₁ : ℕ) (hal : s.Alone i) (hi : s.sessions[i]? = some (q, .idle p))
    (h : SoloFailing prog i q s (.idle p₁) s₁)
    (heval : p.failing fails answers s.clock c s.db s.seq =
      p₁.failing fails answers s.clock c₁ s₁.db s₁.seq)
    (ih : ∀ (c : ℕ) (s : State S Q), s.Alone i → s.sessions[i]? = some (q, .idle p₁) →
      ReqFails fails prog answers i q c s p₁) : ReqFails fails prog answers i q c s p := by
  obtain ⟨_, _, _, hset, hclock⟩ := id h
  obtain ⟨s', hs', hdb, hseq⟩ := ih c₁ s₁ (hal.of_set hset)
    (by rw [hset]; exact getElem?_set_same hi _)
  rw [hclock, ← heval] at hs' hdb hseq
  exact ⟨s', Goes.trans h hs', hdb, hseq⟩

/-- **A request that runs alone ends as computed**, whichever of its statements fail. -/
theorem run_failing {answers : S.Call → S.Answer} (p : Req S) : ∀ (c : ℕ) (s : State S Q),
    s.Alone i → s.sessions[i]? = some (q, .idle p) → ReqFails fails prog answers i q c s p := by
  induction p with
  | done r =>
    intro c s _ hi
    exact ⟨s, Goes.refl hi, rfl, rfl⟩
  | tx body k ih =>
    intro c s hal hi
    have hbegin : s.step prog (.exec i) = some (s.goto i q (.active s.clock [] [] body k)) := by
      simp only [step, hi]
    have htx : TxFails fails prog i q k (s.goto i q (.active s.clock [] [] body k)) s.clock c []
        body := tx_failing body _ c [] [] (hal.of_set rfl) (getElem?_set_same hi _)
    obtain ⟨s₁, hseq, hs₁⟩ := htx
    simp only [goto] at hseq hs₁
    split at hs₁ <;> rename_i he <;>
      exact .cons (body.failing fails s.db s.clock c [] s.seq).1 hal hi
        (hs₁.2.cons (Or.inl rfl) hbegin rfl rfl) (by simp only [Req.failing, he, hs₁.1, hseq]) (ih _)
  | call x k ih =>
    intro c s hal hi
    let s₁ := { s with calls := s.calls ++ [(i, x)] }
    have hcall : s.step prog (.exec i) = some (s₁.goto i q (.waiting k)) := by
      simp only [step, hi, s₁]
    have hwait : (s₁.goto i q (.waiting k)).sessions[i]? = some (q, .waiting k) :=
      getElem?_set_same hi _
    have hanswer : (s₁.goto i q (.waiting k)).step prog (.answer i (answers x)) =
        some ((s₁.goto i q (.waiting k)).goto i q (.idle (k (answers x)))) := by
      simp only [step, hwait]
    have hsolo : SoloFailing prog i q s (.idle (k (answers x)))
        ((s₁.goto i q (.waiting k)).goto i q (.idle (k (answers x)))) :=
      .cons (Or.inl rfl) hcall rfl rfl (.one (Or.inr (Or.inr ⟨_, rfl⟩)) hanswer rfl rfl)
    exact .cons c hal hi hsolo rfl (ih _)

end State

end ReadCommitted
