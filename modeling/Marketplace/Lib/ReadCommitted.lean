/-
  Sessions over a keyed store under READ COMMITTED with row locks.

  A request is a tree of transactions and of calls to the outside (`Req`), a
  transaction a tree of statements (`Tx`): an unlocked SELECT, a SELECT ... FOR
  UPDATE of one row, an UPDATE of one row, an INSERT under the next number of
  a sequence.  A statement outside of a transaction is a transaction of its
  own.  Sessions run their requests interleaved, one statement at a time:

  * a statement sees the rows committed when it runs, and the session's own
    uncommitted writes;
  * FOR UPDATE, UPDATE and INSERT lock their row until the transaction ends; a
    row locked by another session blocks them, and they then read the row as
    it is when the lock is free;
  * COMMIT publishes the writes at once, ROLLBACK forgets them; the database
    can fail any statement, which rolls the transaction back;
  * a number drawn from a sequence is never drawn again.

  Code between two statements runs with the statement before it.
-/
import Mathlib.Data.List.Basic
import Mathlib.Logic.Function.Basic

namespace ReadCommitted

/-- What the sessions share: a store with typed rows under keys, sequences for the tables with a
    serial key, and the types of what a request exchanges with its surroundings. -/
structure Sig where
  Db : Type
  Key : Type
  Row : Key → Type
  /-- tables with a serial key -/
  Tab : Type
  get : Db → (k : Key) → Option (Row k)
  put : Db → (k : Key) → Row k → Db
  serial : Tab → ℕ → Key
  decKey : DecidableEq Key
  decTab : DecidableEq Tab
  get_put : ∀ d k r, get (put d k r) k = some r
  get_put_ne : ∀ d k r k', k' ≠ k → get (put d k r) k' = get d k'
  serial_inj : ∀ {t n t' n'}, serial t n = serial t' n' → t = t' ∧ n = n'
  /-- why the database can fail a statement -/
  Fault : Type
  /-- what a request throws -/
  Error : Type
  /-- calls outside of the database, and their answers -/
  Call : Type
  Answer : Type
  Reply : Type

instance (S : Sig) : DecidableEq S.Key := S.decKey
instance (S : Sig) : DecidableEq S.Tab := S.decTab

/-- Why a transaction ended without a commit. -/
inductive Failure (F E : Type) where
  | db (f : F)
  | app (e : E)
  deriving DecidableEq

section
variable (S : Sig)

/-- An uncommitted row version. -/
abbrev Write := Σ k : S.Key, S.Row k

/-- A transaction: its statements, each with the code that runs on its result. -/
inductive Tx (α : Type) : Type 1
  /-- COMMIT, with the value of the transaction's body -/
  | commit (a : α)
  /-- ROLLBACK -/
  | throw (e : S.Error)
  /-- SELECT without a lock -/
  | select {β : Type} (q : S.Db → β) (k : β → Tx α)
  /-- SELECT ... FOR UPDATE of the row under `key` -/
  | lock (key : S.Key) (k : Option (S.Row key) → Tx α)
  /-- UPDATE of the row under `key` if it (still) satisfies `p`, with the number of rows updated -/
  | update (key : S.Key) (p : S.Row key → Bool) (f : S.Row key → S.Row key) (k : ℕ → Tx α)
  /-- INSERT ... RETURNING of a row under the next number of the sequence of `t`; the row may use
      the start time of the transaction -/
  | insert (t : S.Tab) (row : ℕ → (n : ℕ) → S.Row (S.serial t n))
      (k : (n : ℕ) → S.Row (S.serial t n) → Tx α)

/-- A request: transactions and outside calls, then a reply. -/
inductive Req : Type 1
  | done (r : S.Reply)
  | tx {β : Type} (body : Tx S β) (k : Except (Failure S.Fault S.Error) β → Req)
  | call (c : S.Call) (k : S.Answer → Req)

/-- Where a session is in its request. -/
inductive Stage : Type 1
  /-- between two transactions -/
  | idle (p : Req S)
  /-- in a transaction started at `now`, with its uncommitted writes (oldest first) and row locks -/
  | active {β : Type} (now : ℕ) (ws : List (Write S)) (locks : List S.Key) (body : Tx S β)
      (k : Except (Failure S.Fault S.Error) β → Req S)
  /-- waiting for the answer to a call -/
  | waiting (k : S.Answer → Req S)

end

section
variable {S : Sig}

/-- An UPDATE of the rows found under several keys, one after another, each if it (still) satisfies
    its condition; `n` rows have been updated before. -/
def Tx.updateEach {ι α : Type} (key : ι → S.Key) (p : (i : ι) → S.Row (key i) → Bool)
    (f : (i : ι) → S.Row (key i) → S.Row (key i)) (k : ℕ → Tx S α) : List ι → ℕ → Tx S α
  | [], n => k n
  | i :: is, n => .update (key i) (p i) (f i) fun c => updateEach key p f k is (n + c)

/-- The store with the writes of a transaction on top. -/
def overlay (ws : List (Write S)) (d : S.Db) : S.Db := ws.foldl (fun d w => S.put d w.1 w.2) d

/-- The row locks of a session. -/
def Stage.locks : Stage S → List S.Key
  | active _ _ locks _ _ => locks
  | _ => []

/-- The uncommitted writes of a session. -/
def Stage.writes : Stage S → List (Write S)
  | active _ ws _ _ _ => ws
  | _ => []

/-- The session is about to commit writes. -/
def Stage.commits : Stage S → Bool
  | active _ ws _ (.commit _) _ => !ws.isEmpty
  | _ => false

/-- The reply of a session that has finished. -/
def Stage.reply? : Stage S → Option S.Reply
  | idle (.done r) => some r
  | _ => none

variable {Q : Type}

variable (S Q) in
/-- The committed store, the sequences, the clock, the sessions with their requests, and the calls
    made so far. -/
structure State where
  db : S.Db
  seq : S.Tab → ℕ
  clock : ℕ
  sessions : List (Q × Stage S)
  calls : List (ℕ × S.Call)

variable (S Q) in
/-- What can happen next: a new request, the next statement of a session, a failure of that
    statement, the answer to a call, the passing of time. -/
inductive Action where
  | submit (q : Q)
  | exec (i : ℕ)
  | fault (i : ℕ) (f : S.Fault)
  | answer (i : ℕ) (x : S.Answer)
  | tick

namespace State

/-- The state before the first request. -/
def init (d : S.Db) (seq : S.Tab → ℕ) : State S Q := ⟨d, seq, 0, [], []⟩

/-- Session `i` goes on at `st`. -/
def goto (s : State S Q) (i : ℕ) (q : Q) (st : Stage S) : State S Q :=
  { s with sessions := s.sessions.set i (q, st) }

/-- No session other than `i` holds a lock on `key`. -/
def free (s : State S Q) (i : ℕ) (key : S.Key) : Bool :=
  s.sessions.zipIdx.all fun p => p.2 = i || key ∉ p.1.2.locks

/-- The next statement of the transaction of session `i`; `none` if it has to wait for a lock. -/
def stmt (s : State S Q) (i : ℕ) (q : Q) (now : ℕ) (ws : List (Write S)) (locks : List S.Key)
    {β : Type} (k : Except (Failure S.Fault S.Error) β → Req S) : Tx S β → Option (State S Q)
  | .commit a => some ({ s with db := overlay ws s.db }.goto i q (.idle (k (.ok a))))
  | .throw e => some (s.goto i q (.idle (k (.error (.app e)))))
  | .select g c => some (s.goto i q (.active now ws locks (c (g (overlay ws s.db))) k))
  | .lock key c =>
    match S.get (overlay ws s.db) key with
    | none => some (s.goto i q (.active now ws locks (c none) k))
    | some r =>
      if s.free i key then some (s.goto i q (.active now ws (key :: locks) (c (some r)) k))
      else none
  | .update key p f c =>
    match S.get (overlay ws s.db) key with
    | none => some (s.goto i q (.active now ws locks (c 0) k))
    | some r =>
      if s.free i key then
        if p r then
          some (s.goto i q (.active now (ws ++ [⟨key, f r⟩]) (key :: locks) (c 1) k))
        else some (s.goto i q (.active now ws locks (c 0) k))
      else none
  | .insert t row c =>
    let n := s.seq t
    some ({ s with seq := Function.update s.seq t (n + 1) }.goto i q
      (.active now (ws ++ [(⟨S.serial t n, row now n⟩ : Write S)]) (S.serial t n :: locks)
        (c n (row now n)) k))

variable (prog : Q → Req S)

/-- One step of the system; `none` if the action is not possible. -/
def step (s : State S Q) : Action S Q → Option (State S Q)
  | .submit q => some { s with sessions := s.sessions ++ [(q, .idle (prog q))] }
  | .exec i =>
    match s.sessions[i]? with
    | some (q, .idle (.tx body k)) => some (s.goto i q (.active s.clock [] [] body k))
    | some (q, .idle (.call c k)) =>
      some ({ s with calls := s.calls ++ [(i, c)] }.goto i q (.waiting k))
    | some (q, .active now ws locks body k) => s.stmt i q now ws locks k body
    | _ => none
  | .fault i f =>
    match s.sessions[i]? with
    | some (q, .active _ _ _ _ k) => some (s.goto i q (.idle (k (.error (.db f)))))
    | _ => none
  | .answer i x =>
    match s.sessions[i]? with
    | some (q, .waiting k) => some (s.goto i q (.idle (k x)))
    | _ => none
  | .tick => some { s with clock := s.clock + 1 }

/-- The state after the actions, if they are all possible. -/
def run (s : State S Q) : List (Action S Q) → Option (State S Q)
  | [] => some s
  | a :: as => (s.step prog a).bind fun s' => s'.run as

end State

end

end ReadCommitted
