/-
  Deadlocks.

  A session waits for another one if its next statement needs a row the other
  has locked, or would give a row a value of a unique index that the other has
  written, or has written over, and not committed yet (`WaitsFor`).

  A lock order gives every key a rank.  A transaction follows it if it takes
  the rows it does not hold yet in increasing rank (`Tx.Follows`).  If all
  sessions do, the sessions never wait for each other in a cycle
  (`LockOrder.no_cycle`), and while a transaction is open one of them can go on
  (`LockOrder.progress`).
-/
import Marketplace.Lib.UniqueIndex
import Mathlib.Data.Fintype.EquivFin
import Mathlib.Order.WellFounded

namespace ReadCommitted

variable {S : Sig} {Q V : Type}

/-! ## Waiting -/

/-- The session is in a transaction. -/
def Stage.isActive : Stage S → Bool
  | .active .. => true
  | _ => false

namespace State

/-- Session `i` is in a transaction. -/
def InTransaction (s : State S Q) (i : ℕ) : Prop :=
  ∃ p, s.sessions[i]? = some p ∧ p.2.isActive = true

/-- The next statement of session `i` locks the row under `key`. -/
inductive Needs (s : State S Q) (i : ℕ) : S.Key → Prop
  | lock {q β now ws locks key r} {c : Option (S.Row key) → Tx S β} {k} :
    s.sessions[i]? = some (q, .active now ws locks (.lock key c) k) →
    S.get (overlay ws s.db) key = some r → s.Needs i key
  | update {q β now ws locks key p f r} {c : ℕ → Tx S β} {k} :
    s.sessions[i]? = some (q, .active now ws locks (.update key p f c) k) →
    S.get (overlay ws s.db) key = some r → s.Needs i key

/-- The next statement of session `i` writes a row version. -/
inductive Writes (s : State S Q) (i : ℕ) : Write S → Prop
  | update {q β now ws locks key p f r} {c : ℕ → Tx S β} {k} :
    s.sessions[i]? = some (q, .active now ws locks (.update key p f c) k) →
    S.get (overlay ws s.db) key = some r → p r = true → s.Writes i ⟨key, f r⟩
  | insert {q β now ws locks t row} {c : (n : ℕ) → S.Row (S.serial t n) → Tx S β} {k} :
    s.sessions[i]? = some (q, .active now ws locks (.insert t row c) k) →
    s.Writes i ⟨S.serial t (s.seq t), row now (s.seq t)⟩

/-- **Session `i` waits for session `j`**: for a row, or for a value of the index. -/
inductive WaitsFor (I : UniqueIndex S V) (s : State S Q) (i j : ℕ) : Prop
  | row {key} : j ≠ i → s.Needs i key → key ∈ s.locksOf j → WaitsFor I s i j
  | value {w w' v} : j ≠ i → s.Writes i w → I.val w.1 w.2 = some v →
    -- a row that keeps its value does not enter the index again
    ¬ I.Holds (overlay (s.writesOf i) s.db) w.1 v →
    w' ∈ s.writesOf j → I.val w'.1 w'.2 = some v ∨ I.Holds s.db w'.1 v → WaitsFor I s i j

end State

/-! ## Lock orders -/

/-- Ranks of the keys.  The rows that can have a value of the index have all the same rank. -/
structure LockOrder (S : Sig) (V : Type) where
  index : UniqueIndex S V
  rank : S.Key → ℕ
  rank_eq : ∀ {k k' r r' v v'}, index.val k r = some v → index.val k' r' = some v' → rank k = rank k'

section
variable (O : LockOrder S V)

/-- The key comes after those that are held. -/
def LockOrder.Above (held : List S.Key) (key : S.Key) : Prop := ∀ k ∈ held, O.rank k < O.rank key

/-- A transaction that holds the rows `held` takes the others in the order, and changes the value of
    a row only to take it out of the index. -/
def Tx.Follows {β : Type} (held : List S.Key) : Tx S β → Prop
  | .commit _ => True
  | .throw _ => True
  | .select _ c => ∀ x, (c x).Follows held
  | .lock key c => (key ∈ held ∨ O.Above held key) ∧ (c none).Follows held ∧
      ∀ r, (c (some r)).Follows (key :: held)
  | .update key p f c => (key ∈ held ∨ O.Above held key) ∧
      (∀ r, p r = true → O.index.val key (f r) = none ∨ O.index.val key (f r) = O.index.val key r) ∧
      (c 0).Follows held ∧ (c 1).Follows (key :: held)
  | .insert t _ c => ∀ n, O.Above held (S.serial t n) ∧ ∀ r, (c n r).Follows (S.serial t n :: held)

def Req.Follows : Req S → Prop
  | .done _ => True
  | .tx body k => body.Follows O [] ∧ ∀ x, (k x).Follows
  | .call _ k => ∀ x, (k x).Follows

def Stage.Follows : Stage S → Prop
  | .idle p => p.Follows O
  | .active _ _ locks body k => body.Follows O locks ∧ ∀ x, (k x).Follows O
  | .waiting k => ∀ x, (k x).Follows O

variable {O}

theorem Stage.Follows.next {d d' : S.Db} {st st' : Stage S} (h : st.Follows O)
    (hn : st.Next d d' st') : st'.Follows O := by
  cases hn with
  | start => exact h
  | call => exact h
  | answer x => exact h x
  | fault f => exact h.2 _
  | commit => exact h.2 _
  | throw => exact h.2 _
  | select => exact ⟨h.1 _, h.2⟩
  | lock => exact ⟨h.1.2.2 _, h.2⟩
  | lockNone => exact ⟨h.1.2.1, h.2⟩
  | update => exact ⟨h.1.2.2.2, h.2⟩
  | updateNone => exact ⟨h.1.2.2.1, h.2⟩
  | insert n => exact ⟨(h.1 n).2 _, h.2⟩

end

/-! ## Sessions that follow an order -/

section
variable {O : LockOrder S V} {prog : Q → Req S} {s : State S Q} {i j : ℕ} {key : S.Key} {w : Write S}

theorem State.inTransaction_of_mem (h : key ∈ s.locksOf i) : s.InTransaction i := by
  obtain ⟨⟨q, st⟩, hi, hk⟩ := State.mem_locksOf.1 h
  cases st with
  | active => exact ⟨_, hi, rfl⟩
  | idle | waiting => cases hk

/-- What makes the argument go through: the sessions follow the order, a row has one lock, and what is
    written is locked. -/
structure LockOrder.Ok (O : LockOrder S V) (s : State S Q) : Prop where
  follows : ∀ (i : ℕ) q st, s.sessions[i]? = some (q, st) → st.Follows O
  disjoint : ∀ i j, i ≠ j → ∀ k ∈ s.locksOf i, k ∉ s.locksOf j
  owned : ∀ i, ∀ w ∈ s.writesOf i, w.1 ∈ s.locksOf i

variable (O s i) in
/-- The session waits for a key of rank `n`, which is more than that of all it holds. -/
def LockOrder.Wants (n : ℕ) : Prop := s.InTransaction i ∧ ∀ k ∈ s.locksOf i, O.rank k < n

namespace LockOrder.Ok

theorem needs (h : O.Ok s) (hn : s.Needs i key) :
    key ∈ s.locksOf i ∨ O.Wants s i (O.rank key) := by
  cases hn with
  | lock hi _ | update hi _ =>
    have hl := State.locksOf_eq hi
    rcases (h.follows i _ _ hi).1.1 with hf | hf
    · exact Or.inl (hl ▸ hf)
    · exact Or.inr ⟨⟨_, hi, rfl⟩, hl ▸ hf⟩

/-- A row version that is written keeps the value, has none, or is new and comes after the rows that
    are held. -/
theorem writes (h : O.Ok s) (hw : s.Writes i w) {v : V} (hv : O.index.val w.1 w.2 = some v)
    (hn : ¬ O.index.Holds (overlay (s.writesOf i) s.db) w.1 v) : O.Wants s i (O.rank w.1) := by
  cases hw with
  | update hi hg hp =>
    have hf := (h.follows i _ _ hi).1.2.1 _ hp
    rcases hf with hf | hf
    · rw [hf] at hv; cases hv
    · rw [State.writesOf_eq hi] at hn
      exact absurd ((congrArg (Option.bind · _) hg).trans (hf.symm.trans hv)) hn
  | insert hi =>
    have hl := State.locksOf_eq hi
    exact ⟨⟨_, hi, rfl⟩, hl ▸ ((h.follows i _ _ hi).1 _).1⟩

/-- **A session that waits** wants a key, and the other one holds a key of at least that rank. -/
theorem waitsFor (h : O.Ok s) (hw : s.WaitsFor O.index i j) :
    ∃ n, O.Wants s i n ∧ ∃ k ∈ s.locksOf j, n ≤ O.rank k := by
  cases hw with
  | @row key hji hn hk =>
    rcases h.needs hn with hi | hi
    · exact absurd hi (h.disjoint j i hji key hk)
    · exact ⟨_, hi, key, hk, Nat.le_refl _⟩
  | @value w w' v hji hw hv hn hw' hv' =>
    refine ⟨_, h.writes hw hv hn, w'.1, h.owned j w' hw', ?_⟩
    rcases hv' with hv' | hv'
    · exact (O.rank_eq hv hv').le
    · obtain ⟨r, -, hr⟩ := Option.bind_eq_some_iff.1 hv'
      exact (O.rank_eq hv hr).le

/-- Along a chain of waiting sessions the ranks increase. -/
theorem chain (h : O.Ok s) (hw : Relation.TransGen (s.WaitsFor O.index) i j) :
    ∃ n, O.Wants s i n ∧ ∃ k ∈ s.locksOf j, n ≤ O.rank k := by
  induction hw with
  | single hw => exact h.waitsFor hw
  | tail _ hw ih =>
    obtain ⟨n, hi, k, hk, hnk⟩ := ih
    obtain ⟨n', hj, k', hk', hnk'⟩ := h.waitsFor hw
    exact ⟨n, hi, k', hk', (hnk.trans (hj.2 k hk).le).trans hnk'⟩

/-- **No cycle**: no session waits for itself, directly or through others. -/
theorem no_cycle (h : O.Ok s) (i : ℕ) : ¬ Relation.TransGen (s.WaitsFor O.index) i i := by
  intro hw
  obtain ⟨n, hi, k, hk, hnk⟩ := h.chain hw
  exact absurd (hi.2 k hk) (Nat.not_lt.2 hnk)

theorem inTransaction (h : O.Ok s) (hw : s.WaitsFor O.index i j) : s.InTransaction j := by
  obtain ⟨-, -, k, hk, -⟩ := h.waitsFor hw
  exact State.inTransaction_of_mem hk

end LockOrder.Ok

theorem State.waits_of_blocked {I : UniqueIndex S V} (hi : s.InTransaction i)
    (hs : s.step prog (.exec i) = none) : ∃ j, s.WaitsFor I i j := by
  obtain ⟨⟨q, st⟩, hi, ha⟩ := hi
  have blocked {key : S.Key} (hn : s.Needs i key) (hf : ¬ s.free i key = true) :
      ∃ j, s.WaitsFor I i j := by
    rw [State.free_iff] at hf
    push Not at hf
    obtain ⟨j, p, hj, hji, hk⟩ := hf
    exact ⟨j, .row hji hn (State.mem_locksOf.2 ⟨p, hj, hk⟩)⟩
  cases st with
  | idle | waiting => cases ha
  | active now ws locks body k =>
    simp only [State.step, hi] at hs
    cases body with
    | commit | throw | select | insert => cases hs
    | lock key c =>
      simp only [State.stmt] at hs
      cases hg : S.get (overlay ws s.db) key with
      | none => simp [hg] at hs
      | some r =>
        simp only [hg, ite_eq_right_iff, reduceCtorEq, imp_false] at hs
        exact blocked (.lock hi hg) hs
    | update key p f c =>
      simp only [State.stmt] at hs
      cases hg : S.get (overlay ws s.db) key with
      | none => simp [hg] at hs
      | some r =>
        refine blocked (.update hi hg) fun hf => ?_
        simp only [hg, hf, if_true] at hs
        split_ifs at hs

/-- **Progress**: while a transaction is open, one of the sessions in a transaction waits for nobody,
    and its next statement is possible. -/
theorem LockOrder.Ok.progress (h : O.Ok s) (hi : s.InTransaction i) :
    ∃ j, s.InTransaction j ∧ (∀ l, ¬ s.WaitsFor O.index j l) ∧
      (s.step prog (.exec j)).isSome = true := by
  have lt {j : ℕ} (hj : s.InTransaction j) : j < s.sessions.length := by
    obtain ⟨p, hj, -⟩ := hj
    exact (List.getElem?_eq_some_iff.1 hj).1
  -- a session at the end of a chain of waiting sessions
  let r (a b : Fin s.sessions.length) : Prop := Relation.TransGen (s.WaitsFor O.index) b a
  have : IsTrans _ r := ⟨fun _ _ _ hab hbc => hbc.trans hab⟩
  have : Std.Irrefl r := ⟨fun a => h.no_cycle a⟩
  obtain ⟨j, hj, hlast⟩ := (Finite.wellFounded_of_trans_of_irrefl r).has_min
    {j | s.InTransaction j} ⟨⟨i, lt hi⟩, hi⟩
  have hfree (l : ℕ) : ¬ s.WaitsFor O.index j l := fun hl =>
    hlast ⟨l, lt (h.inTransaction hl)⟩ (h.inTransaction hl) (.single hl)
  refine ⟨j, hj, hfree, ?_⟩
  by_contra hs
  obtain ⟨l, hl⟩ := State.waits_of_blocked (I := O.index) hj (Option.not_isSome_iff_eq_none.1 hs)
  exact hfree l hl

/-- **In every run of requests that follow the order** no two sessions hold or write a row at the same
    time, and all follow the order. -/
theorem Spec.Sim.follows {P : Spec S Q} {d₀ d : S.Db} {h : P.History} {seq : S.Tab → ℕ}
    {acts : List (Action S Q)} (hs : P.Sim d₀ s h) (hrun : (State.init d seq).run prog acts = some s)
    (hprog : ∀ q, .submit q ∈ acts → (prog q).Follows O) : O.Ok s where
  follows _ _ _ hi := State.run_stages (J := fun _ st => st.Follows O) hprog
    (fun _ _ _ _ _ h hn => h.next hn) hrun hi
  disjoint _ _ hij _ hk := hs.locks_disjoint hij hk
  owned _ _ hw := hs.locked hw

end

end ReadCommitted
