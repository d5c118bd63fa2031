/-
  Assertions about sessions that survive interference.

  A `Spec` says what the commits of a system may do (`emits`, with the locks
  held at the commit), which calls its requests make and how they reply.  An
  assertion of a session is `Stable` if no commit of a session that holds none
  of its locks can invalidate it; a row that is locked keeps its value, and a
  protocol fact ("no row of this kind is added without that lock") is stable
  if `emits` says so.  `TxOk` and `ReqOk` check a request against the `Spec`
  statement by statement, with a stable assertion at every statement.

  `Sim` relates a state of the interleaved system to a history of atomic
  events: if every request is `ReqOk`, every step of the system either leaves
  the committed store alone or is one event of the session that made it
  (`Sim.step`).  So a run refines a path of the atomic events (`Path`), and
  what a session replied is justified by its own events (`Sim.replies`).
-/
import Marketplace.Lib.ReadCommitted
import Mathlib.Data.List.Induction
import Mathlib.Data.List.Nodup
import Mathlib.Tactic.Common

namespace ReadCommitted

variable {S : Sig} {Q : Type}

/-! ## The overlay, locks and runs -/

@[simp] theorem overlay_nil (d : S.Db) : overlay [] d = d := rfl

theorem overlay_append (ws ws' : List (Write S)) (d : S.Db) :
    overlay (ws ++ ws') d = overlay ws' (overlay ws d) := List.foldl_append ..

theorem get_overlay_of_ne {k : S.Key} : ∀ {ws : List (Write S)} {d : S.Db},
    (∀ w ∈ ws, w.1 ≠ k) → S.get (overlay ws d) k = S.get d k
  | [], _, _ => rfl
  | w :: ws, d, h => by
    have hw : k ≠ w.1 := fun e => h w (by simp) e.symm
    rw [show overlay (w :: ws) d = overlay ws (S.put d w.1 w.2) from rfl,
      get_overlay_of_ne fun w' hw' => h w' (by simp [hw']), S.get_put_ne _ _ _ _ hw]

/-- A key that is written has the row that was written last, whatever is below. -/
theorem get_overlay_of_mem {ws : List (Write S)} {k : S.Key} (hk : k ∈ ws.map Sigma.fst)
    (d d' : S.Db) : S.get (overlay ws d) k = S.get (overlay ws d') k ∧
      ∃ r, S.get (overlay ws d) k = some r ∧ (⟨k, r⟩ : Write S) ∈ ws := by
  induction ws using List.reverseRecOn with
  | nil => simp at hk
  | append_singleton ws w ih =>
    simp only [overlay_append]
    change S.get (S.put (overlay ws d) w.1 w.2) k = S.get (S.put (overlay ws d') w.1 w.2) k ∧
      ∃ r, S.get (S.put (overlay ws d) w.1 w.2) k = some r ∧ _
    by_cases hw : k = w.1
    · subst hw
      exact ⟨by rw [S.get_put, S.get_put], w.2, S.get_put .., by simp⟩
    · obtain ⟨he, r, hr, hm⟩ := ih (by simpa [hw] using hk)
      rw [S.get_put_ne _ _ _ _ hw, S.get_put_ne _ _ _ _ hw]
      exact ⟨he, r, hr, List.mem_append_left _ hm⟩

theorem get_overlay_of_not_mem {ws : List (Write S)} {k : S.Key} (hk : k ∉ ws.map Sigma.fst)
    (d : S.Db) : S.get (overlay ws d) k = S.get d k :=
  get_overlay_of_ne fun w hw e => hk (List.mem_map.2 ⟨w, hw, e⟩)

theorem get_overlay_of_locked {locks : List S.Key} {ws : List (Write S)} {k : S.Key}
    (hw : ∀ w ∈ ws, w.1 ∈ locks) (hk : k ∉ locks) (d : S.Db) :
    S.get (overlay ws d) k = S.get d k :=
  get_overlay_of_ne fun w hm e => hk (e ▸ hw w hm)

namespace State

theorem free_iff {s : State S Q} {i : ℕ} {key : S.Key} :
    s.free i key = true ↔
      ∀ j p, s.sessions[j]? = some p → j ≠ i → key ∉ p.2.locks := by
  simp only [free, List.all_eq_true, Bool.or_eq_true, decide_eq_true_eq]
  constructor
  · intro h j p hj hne
    rcases h (p, j) (List.mem_zipIdx_iff_getElem?.2 hj) with h | h
    · exact absurd h hne
    · exact h
  · rintro h ⟨p, j⟩ hm
    have hj := List.mem_zipIdx_iff_getElem?.1 hm
    by_cases hji : j = i
    · exact Or.inl hji
    · exact Or.inr (h j p hj hji)

theorem run_append (prog : Q → Req S) (as bs : List (Action S Q)) (s : State S Q) :
    s.run prog (as ++ bs) = (s.run prog as).bind fun s' => s'.run prog bs := by
  induction as generalizing s with
  | nil => rfl
  | cons a as ih =>
    simp only [List.cons_append, run]
    cases s.step prog a with
    | none => rfl
    | some s' => exact ih s'

theorem run_snoc {prog : Q → Req S} {as : List (Action S Q)} {a : Action S Q} {s s' : State S Q} :
    s.run prog (as ++ [a]) = some s' ↔ ∃ t, s.run prog as = some t ∧ t.step prog a = some s' := by
  simp [run_append, Option.bind_eq_some_iff, run]

end State

/-! ## Specifications and stable assertions -/

/-- What a session has gone through: its events, the statements the database failed, and the calls
    it made. -/
inductive Log (E F C : Type) where
  | emit (e : E)
  | fault (f : F)
  | call (c : C)

/-- The event of a log entry. -/
def Log.event? {E F C : Type} : Log E F C → Option E
  | .emit e => some e
  | _ => none

/-- The call of a log entry. -/
def Log.call? {E F C : Type} : Log E F C → Option C
  | .call c => some c
  | _ => none

/-- What the requests of a system may do. -/
structure Spec (S : Sig) (Q : Type) where
  Event : Type
  /-- the requests that may be submitted -/
  admitted : Q → Prop
  /-- an invariant of the committed store -/
  base : S.Db → Prop
  /-- the first numbers of the sequences -/
  first : S.Tab → ℕ
  /-- the effect on the committed store of the event `e` of a request after what it has gone through,
      while it holds the locks `L` -/
  emits : Q → List (Log Event S.Fault S.Call) → Event → List S.Key → S.Db → S.Db → Prop
  /-- the row versions an event consists of -/
  writes : Event → List (Write S) → Prop
  /-- the calls a request may make after what it has gone through -/
  calls : Q → List (Log Event S.Fault S.Call) → S.Call → Prop
  /-- the replies it may give -/
  replies : Q → List (Log Event S.Fault S.Call) → S.Reply → Prop
  base_emits : ∀ {q log e L d d'}, admitted q → base d → emits q log e L d d' → base d'

namespace Spec
variable (P : Spec S Q)

/-- What a session of the system has gone through. -/
abbrev Trace := List (Log P.Event S.Fault S.Call)

/-- What the commit of another session can do to the store while the rows `held` are locked. -/
def Rely (held : List S.Key) (d d' : S.Db) : Prop :=
  ∃ q log e L, P.admitted q ∧ P.base d ∧ (∀ k ∈ held, k ∉ L) ∧
    (∀ k, k ∉ L → S.get d' k = S.get d k) ∧ P.emits q log e L d d'

/-- An assertion no other session can invalidate while the rows `held` are locked. -/
def Stable (held : List S.Key) (A : S.Db → Prop) : Prop :=
  ∀ d d', P.Rely held d d' → A d → A d'

variable {P}

theorem Rely.mono {held held' : List S.Key} {d d' : S.Db} (h : P.Rely held' d d')
    (hs : held ⊆ held') : P.Rely held d d' := by
  obtain ⟨q, log, e, L, hq, hb, hL, hf, he⟩ := h
  exact ⟨q, log, e, L, hq, hb, fun k hk => hL k (hs hk), hf, he⟩

theorem Stable.mono {held held' : List S.Key} {A : S.Db → Prop} (h : P.Stable held A)
    (hs : held ⊆ held') : P.Stable held' A :=
  fun d d' hr => h d d' (hr.mono hs)

theorem Stable.and {held : List S.Key} {A B : S.Db → Prop} (hA : P.Stable held A)
    (hB : P.Stable held B) : P.Stable held fun d => A d ∧ B d :=
  fun d d' hr h => ⟨hA d d' hr h.1, hB d d' hr h.2⟩

theorem Stable.true (held : List S.Key) : P.Stable held fun _ => True := fun _ _ _ h => h

theorem Stable.row {held : List S.Key} {k : S.Key} (hk : k ∈ held) (o : Option (S.Row k)) :
    P.Stable held fun d => S.get d k = o := by
  rintro d d' ⟨q, log, e, L, -, -, hL, hf, -⟩ h
  rw [hf k (hL k hk), h]

/-! ## Checking a request -/

variable (P) in
/-- The transaction of a request that has gone through `log` meets the specification from a state in
    which it holds the locks `held`, the assertion `A` is true of the committed store, and `ws` has
    been written. -/
def TxOk (q : Q) (log : P.Trace) {β : Type} (onCommit : Option P.Event → β → (S.Db → Prop) → Prop)
    (onThrow : S.Error → (S.Db → Prop) → Prop) :
    List S.Key → (S.Db → Prop) → List (Write S) → Tx S β → Prop
  | held, A, ws, .commit a =>
    ∃ e A', P.Stable [] A' ∧ (∀ d, P.base d → A d → A' (overlay ws d)) ∧
      (match e with
       | none => ws = []
       | some e => ws ≠ [] ∧ P.writes e ws ∧
           ∀ d, P.base d → A d → P.emits q log e held d (overlay ws d)) ∧
      onCommit e a A'
  | _, A, _, .throw x => ∃ A', P.Stable [] A' ∧ (∀ d, P.base d → A d → A' d) ∧ onThrow x A'
  | held, A, ws, .select g c => ∀ d, P.base d → A d →
    ∃ A', P.Stable held A' ∧ A' d ∧ TxOk q log onCommit onThrow held A' ws (c (g (overlay ws d)))
  | held, A, ws, .lock key c => ∀ d, P.base d → A d →
    match S.get (overlay ws d) key with
    | none => ∃ A', P.Stable held A' ∧ A' d ∧ TxOk q log onCommit onThrow held A' ws (c none)
    | some r => ∃ A', P.Stable (key :: held) A' ∧ A' d ∧
        TxOk q log onCommit onThrow (key :: held) A' ws (c (some r))
  | held, A, ws, .update key p f c => ∀ d, P.base d → A d →
    match S.get (overlay ws d) key with
    | none => ∃ A', P.Stable held A' ∧ A' d ∧ TxOk q log onCommit onThrow held A' ws (c 0)
    | some r =>
      if p r then ∃ A', P.Stable (key :: held) A' ∧ A' d ∧
        TxOk q log onCommit onThrow (key :: held) A' (ws ++ [⟨key, f r⟩]) (c 1)
      else ∃ A', P.Stable held A' ∧ A' d ∧ TxOk q log onCommit onThrow held A' ws (c 0)
  | held, A, ws, .insert t row c => ∀ d n now, P.base d → A d → P.first t ≤ n →
    S.get d (S.serial t n) = none → ∃ A', P.Stable (S.serial t n :: held) A' ∧ A' d ∧
      TxOk q log onCommit onThrow (S.serial t n :: held) A' (ws ++ [⟨S.serial t n, row now n⟩])
        (c n (row now n))

variable (P) in
/-- The request meets the specification after `log`, when `A` is true of the committed store. -/
def ReqOk (q : Q) : P.Trace → (S.Db → Prop) → Req S → Prop
  | log, _, .done r => P.replies q log r
  | log, A, .tx body k =>
    P.TxOk q log (fun e a A' => ReqOk q (log ++ e.toList.map .emit) A' (k (.ok a)))
      (fun x A' => ReqOk q log A' (k (.error (.app x)))) [] A [] body ∧
    ∀ f, ReqOk q (log ++ [.fault f]) A (k (.error (.db f)))
  | log, A, .call c k => P.calls q log c ∧ ∀ x, ReqOk q (log ++ [.call c]) A (k x)

variable (P) in
/-- The rest of a session meets the specification when `d` is the committed store. -/
def StageOk (q : Q) (log : P.Trace) (d : S.Db) : Stage S → Prop
  | .idle p => ∃ A, P.Stable [] A ∧ A d ∧ P.ReqOk q log A p
  | .active _ ws locks body k =>
    (∃ A, P.Stable locks A ∧ A d ∧
      P.TxOk q log (fun e a A' => P.ReqOk q (log ++ e.toList.map .emit) A' (k (.ok a)))
        (fun x A' => P.ReqOk q log A' (k (.error (.app x)))) locks A ws body) ∧
    ∃ A, P.Stable [] A ∧ A d ∧ ∀ f, P.ReqOk q (log ++ [.fault f]) A (k (.error (.db f)))
  | .waiting k => ∃ A, P.Stable [] A ∧ A d ∧ ∀ x, P.ReqOk q log A (k x)

/-- What a session knows survives the commits of the others. -/
theorem StageOk.rely {q : Q} {log : P.Trace} {d d' : S.Db} {st : Stage S}
    (h : P.StageOk q log d st) (hr : P.Rely st.locks d d') : P.StageOk q log d' st := by
  have hr₀ : P.Rely [] d d' := hr.mono (List.nil_subset _)
  cases st with
  | idle p => obtain ⟨A, hA, hd, hp⟩ := h; exact ⟨A, hA, hA d d' hr₀ hd, hp⟩
  | waiting k => obtain ⟨A, hA, hd, hp⟩ := h; exact ⟨A, hA, hA d d' hr₀ hd, hp⟩
  | active now ws locks body k =>
    obtain ⟨⟨A, hA, hd, hp⟩, B, hB, hd', hf⟩ := h
    exact ⟨⟨A, hA, hA d d' hr hd, hp⟩, B, hB, hB d d' hr₀ hd', hf⟩

end Spec

end ReadCommitted
