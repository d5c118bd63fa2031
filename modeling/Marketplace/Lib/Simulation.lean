/-
  The interleaved system refines its atomic events.

  If every admitted request meets the specification (`ReqOk`), a state reached
  by a run is related by `Sim` to a history: the events, failures and calls of
  the sessions, in the order in which they took effect.  The committed store
  is the result of the events alone (`Path`), and every session is justified
  by its part of the history.
-/
import Marketplace.Lib.Stages

namespace ReadCommitted

variable {S : Sig} {Q : Type}

namespace Spec
variable (P : Spec S Q)

/-- A history: who, for which request, did what. -/
abbrev History := List (ℕ × Q × Log P.Event S.Fault S.Call)

variable {P} in
/-- The part of session `i`. -/
def History.of (h : P.History) (i : ℕ) : P.Trace :=
  h.filterMap fun x => if x.1 = i then some x.2.2 else none

variable {P} in
/-- The calls, with the sessions that made them. -/
def History.calls (h : P.History) : List (ℕ × S.Call) :=
  h.filterMap fun
    | (i, _, .call c) => some (i, c)
    | _ => none

/-- The store after the events of a history, taken one after another. -/
inductive Path (d₀ : S.Db) : P.History → S.Db → Prop
  | nil : Path d₀ [] d₀
  | fault {h d i q f} : Path d₀ h d → Path d₀ (h ++ [(i, q, .fault f)]) d
  | call {h d i q c} : Path d₀ h d → P.admitted q → P.calls q (h.of i) c →
      Path d₀ (h ++ [(i, q, .call c)]) d
  | emit {h d d' i q e L} : Path d₀ h d → P.admitted q → P.base d → P.emits q (h.of i) e L d d' →
      Path d₀ (h ++ [(i, q, .emit e)]) d'

/-- The state `s` of the interleaved system is justified by the history `h`. -/
structure Sim (d₀ : S.Db) (s : State S Q) (h : P.History) : Prop where
  base : P.base s.db
  path : P.Path d₀ h s.db
  known : ∀ x ∈ h, ∃ st, s.sessions[x.1]? = some (x.2.1, st)
  admitted : ∀ (i : ℕ) q st, s.sessions[i]? = some (q, st) → P.admitted q
  stages : ∀ (i : ℕ) q st, s.sessions[i]? = some (q, st) → P.StageOk q (h.of i) s.db st
  disjoint : ∀ (i j : ℕ) p p', s.sessions[i]? = some p → s.sessions[j]? = some p' → i ≠ j →
    ∀ k ∈ p.2.locks, k ∉ p'.2.locks
  owned : ∀ (i : ℕ) p, s.sessions[i]? = some p → ∀ w ∈ p.2.writes, w.1 ∈ p.2.locks
  fresh : ∀ t n, s.seq t ≤ n → S.get s.db (S.serial t n) = none ∧
    ∀ (i : ℕ) p, s.sessions[i]? = some p → S.serial t n ∉ p.2.locks
  calls : s.calls = h.calls
  seq : ∀ t, P.first t ≤ s.seq t

variable {P}

@[simp] theorem History.of_append (h h' : P.History) (i : ℕ) :
    History.of (h ++ h') i = h.of i ++ History.of h' i := List.filterMap_append ..

@[simp] theorem History.calls_append (h h' : P.History) :
    History.calls (h ++ h') = h.calls ++ History.calls h' := List.filterMap_append ..

theorem History.mem_of {h : P.History} {i : ℕ} {l : Log P.Event S.Fault S.Call} :
    l ∈ h.of i ↔ ∃ q, (i, q, l) ∈ h := by
  simp only [History.of, List.mem_filterMap]
  constructor
  · rintro ⟨⟨j, q, l'⟩, hm, hl⟩
    by_cases hj : j = i
    · simp only [hj, if_true, Option.some.injEq] at hl
      exact ⟨q, hl ▸ hj ▸ hm⟩
    · simp [hj] at hl
  · rintro ⟨q, hm⟩
    exact ⟨_, hm, by simp⟩

theorem History.mem_calls {h : P.History} {i : ℕ} {c : S.Call} :
    (i, c) ∈ h.calls ↔ ∃ q, (i, q, .call c) ∈ h := by
  simp only [History.calls, List.mem_filterMap]
  constructor
  · rintro ⟨⟨j, q, l⟩, hm, hl⟩
    cases l with
    | emit | fault => cases hl
    | call c' => cases hl; exact ⟨q, hm⟩
  · rintro ⟨q, hm⟩
    exact ⟨_, hm, rfl⟩

theorem History.of_cons_self (h : P.History) (i : ℕ) (q : Q) (l : Log P.Event S.Fault S.Call) :
    History.of ((i, q, l) :: h) i = l :: h.of i := by
  simp [History.of]

@[simp] theorem History.of_self (i : ℕ) (q : Q) (l : P.Trace) :
    History.of (l.map fun x => (i, q, x)) i = l := by
  induction l with
  | nil => rfl
  | cons x l ih => simp [History.of]

theorem History.of_ne {i j : ℕ} (hij : i ≠ j) (q : Q) (l : P.Trace) :
    History.of (l.map fun x => (i, q, x)) j = [] := by
  induction l with
  | nil => rfl
  | cons x l ih => simp [History.of, hij]

theorem sessions_set {α : Type*} {l : List α} {i j : ℕ} {x y : α} (h : (l.set i x)[j]? = some y) :
    (j = i ∧ y = x) ∨ (j ≠ i ∧ l[j]? = some y) := by
  rw [List.getElem?_set] at h
  split_ifs at h with h₁ h₂
  · exact Or.inl ⟨h₁.symm, (Option.some.inj h).symm⟩
  · exact Or.inr ⟨Ne.symm h₁, h⟩

theorem sessions_set_self {α : Type*} {l : List α} {i : ℕ} {x y : α} (h : l[i]? = some y) :
    (l.set i x)[i]? = some x := by
  rw [List.getElem?_set_self]
  exact (List.getElem?_eq_some_iff.1 h).1

/-- The lock and freshness part of `Sim` when session `i` goes on at `st'`. -/
structure Moves (s : State S Q) (i : ℕ) (d' : S.Db) (seq' : S.Tab → ℕ) (st' : Stage S) : Prop where
  locks : ∀ k ∈ st'.locks, ∀ (j : ℕ) p, s.sessions[j]? = some p → j ≠ i → k ∉ p.2.locks
  owned : ∀ w ∈ st'.writes, w.1 ∈ st'.locks
  seq : ∀ t, s.seq t ≤ seq' t
  fresh : ∀ t n, seq' t ≤ n → S.get d' (S.serial t n) = none ∧ S.serial t n ∉ st'.locks

/-- **Session `i` moves on** and the history grows by its log entries `l`: the relation is kept if
    the rest of the session is justified and the others survive the change of the store. -/
theorem Sim.move {d₀ : S.Db} {s : State S Q} {h : P.History} (hs : P.Sim d₀ s h) {i : ℕ} {q : Q}
    {st : Stage S} (hi : s.sessions[i]? = some (q, st)) (st' : Stage S) {d' : S.Db}
    {seq' : S.Tab → ℕ} (l : P.Trace) (hbase : P.base d')
    (hpath : P.Path d₀ (h ++ l.map fun x => (i, q, x)) d')
    (hst : P.StageOk q (h.of i ++ l) d' st')
    (hothers : ∀ (j : ℕ) q' st'', j ≠ i → s.sessions[j]? = some (q', st'') →
      P.StageOk q' (h.of j) d' st'')
    (hm : Moves s i d' seq' st') :
    P.Sim d₀ { s with db := d', seq := seq', sessions := s.sessions.set i (q, st'),
                      calls := s.calls ++ History.calls (l.map fun x => (i, q, x)) }
      (h ++ l.map fun x => (i, q, x)) where
  base := hbase
  path := hpath
  known x hx := by
    have hset := sessions_set_self (x := (q, st')) hi
    rcases List.mem_append.1 hx with hx | hx
    · obtain ⟨st₁, h₁⟩ := hs.known x hx
      by_cases hxi : x.1 = i
      · have hq : x.2.1 = q := by rw [hxi, hi] at h₁; simp at h₁; exact h₁.1.symm
        exact ⟨st', by rw [hxi, hq]; exact hset⟩
      · exact ⟨st₁, by simpa [List.getElem?_set_ne (Ne.symm hxi)] using h₁⟩
    · obtain ⟨y, -, rfl⟩ := List.mem_map.1 hx
      exact ⟨st', hset⟩
  admitted j q' st'' hj := by
    rcases sessions_set hj with ⟨rfl, he⟩ | ⟨-, hj⟩
    · cases he; exact hs.admitted _ _ _ hi
    · exact hs.admitted _ _ _ hj
  stages j q' st'' hj := by
    rcases sessions_set hj with ⟨rfl, he⟩ | ⟨hne, hj⟩
    · cases he; simpa using hst
    · rw [History.of_append, History.of_ne (Ne.symm hne), List.append_nil]
      exact hothers j q' st'' hne hj
  disjoint j j' p p' hj hj' hne := by
    rcases sessions_set hj with ⟨hji, he⟩ | ⟨hji, h₁⟩ <;>
      rcases sessions_set hj' with ⟨hji', he'⟩ | ⟨hji', h₂⟩
    · exact absurd (hji.trans hji'.symm) hne
    · subst he; exact fun k hk => hm.locks k hk j' p' h₂ hji'
    · subst he'; exact fun k hk hk' => hm.locks k hk' j p h₁ hji hk
    · exact hs.disjoint j j' p p' h₁ h₂ hne
  owned j p hj := by
    rcases sessions_set hj with ⟨rfl, rfl⟩ | ⟨-, hj⟩
    · exact hm.owned
    · exact hs.owned j p hj
  fresh t n hn := by
    refine ⟨(hm.fresh t n hn).1, fun j p hj => ?_⟩
    rcases sessions_set hj with ⟨rfl, rfl⟩ | ⟨-, hj⟩
    · exact (hm.fresh t n hn).2
    · exact (hs.fresh t n (Nat.le_trans (hm.seq t) hn)).2 j p hj
  calls := by rw [History.calls_append, ← hs.calls]
  seq t := Nat.le_trans (hs.seq t) (hm.seq t)

theorem Sim.silent {d₀ : S.Db} {s : State S Q} {h : P.History} (hs : P.Sim d₀ s h) {i : ℕ} {q : Q}
    {st st' : Stage S} (hi : s.sessions[i]? = some (q, st))
    (hst : P.StageOk q (h.of i) s.db st') (hm : Moves s i s.db s.seq st') :
    P.Sim d₀ (s.goto i q st') h := by
  have := hs.move hi _ [] hs.base (by simpa using hs.path) (by simpa using hst)
    (fun j q' st'' _ hj => hs.stages j q' st'' hj) hm
  simpa [State.goto, History.calls] using this

/-- A move that only takes the lock on `key`, which no other session holds. -/
theorem Sim.moves {d₀ : S.Db} {s : State S Q} {h : P.History} (hs : P.Sim d₀ s h) {i : ℕ} {q : Q}
    {st st' : Stage S} (hi : s.sessions[i]? = some (q, st)) (hw : ∀ w ∈ st'.writes, w.1 ∈ st'.locks)
    (hl : ∀ k ∈ st'.locks, k ∈ st.locks ∨
      (s.free i k = true ∧ ∃ r, S.get (overlay st.writes s.db) k = some r)) :
    Moves s i s.db s.seq st' where
  locks k hk j p hj hji := by
    rcases hl k hk with hk | ⟨hf, -⟩
    · exact hs.disjoint i j _ p hi hj (Ne.symm hji) k hk
    · exact State.free_iff.1 hf j p hj hji
  owned := hw
  seq _ := Nat.le_refl _
  fresh t n hn := by
    obtain ⟨hg, hf⟩ := hs.fresh t n hn
    refine ⟨hg, fun hk => ?_⟩
    rcases hl _ hk with hk | ⟨-, r, hr⟩
    · exact hf i _ hi hk
    · rw [get_overlay_of_locked (hs.owned i _ hi) (hf i _ hi), hg] at hr; cases hr

/-- What one step adds to the history, with its effect on the committed store: nothing, a failed
    statement, a call, or one event of the session that took it. -/
inductive Outcome (s : State S Q) (h : P.History) (a : Action S Q) (s' : State S Q) :
    P.History → Prop
  | silent : s.commit? a = none → s'.db = s.db → Outcome s h a s' []
  | fault (i f q st) : a = .fault i f → s.sessions[i]? = some (q, st) → s'.db = s.db →
      Outcome s h a s' [(i, q, .fault f)]
  | call (i q st c) : a = .exec i → s.sessions[i]? = some (q, st) → st.commits = false →
      s'.db = s.db → P.calls q (h.of i) c → Outcome s h a s' [(i, q, .call c)]
  | emit (i q st e) : a = .exec i → s.sessions[i]? = some (q, st) → st.commits = true →
      s'.db = overlay st.writes s.db → P.writes e st.writes →
      P.emits q (h.of i) e st.locks s.db s'.db → Outcome s h a s' [(i, q, .emit e)]

/-- The history goes on with `l`. -/
def Refines (d₀ : S.Db) (s : State S Q) (h : P.History) (a : Action S Q) (s' : State S Q) : Prop :=
  ∃ l, P.Sim d₀ s' (h ++ l) ∧ P.Outcome s h a s' l

theorem Refines.silent {d₀ : S.Db} {s s' : State S Q} {h : P.History} {a : Action S Q}
    (hc : s.commit? a = none) (hdb : s'.db = s.db) (hs : P.Sim d₀ s' h) :
    P.Refines d₀ s h a s' := ⟨[], by rwa [List.append_nil], .silent hc hdb⟩

theorem Sim.submit {d₀ : S.Db} {s : State S Q} {h : P.History} (hs : P.Sim d₀ s h) {q : Q}
    {p : Req S} (hq : P.admitted q) (hp : P.ReqOk q [] (fun _ => True) p) :
    P.Sim d₀ { s with sessions := s.sessions ++ [(q, .idle p)] } h := by
  have hsplit : ∀ {j : ℕ} {x}, (s.sessions ++ [(q, .idle p)])[j]? = some x →
      s.sessions[j]? = some x ∨ (j = s.sessions.length ∧ x = (q, .idle p)) := by
    intro j x hj
    rw [List.getElem?_append] at hj
    split_ifs at hj with hlt
    · exact Or.inl hj
    · obtain ⟨h₁, h₂⟩ := List.getElem?_eq_some_iff.1 hj
      simp only [List.length_singleton] at h₁
      simp only [List.getElem_singleton] at h₂
      exact Or.inr ⟨by omega, h₂.symm⟩
  have hold : ∀ {j : ℕ} {x}, s.sessions[j]? = some x →
    (s.sessions ++ [(q, .idle p)])[j]? = some x :=
    fun hj => by rw [List.getElem?_append_left (List.getElem?_eq_some_iff.1 hj).1]; exact hj
  have hlast : h.of s.sessions.length = [] := by
    rw [History.of, List.filterMap_eq_nil_iff]
    intro x hx
    obtain ⟨st, hst⟩ := hs.known x hx
    have := (List.getElem?_eq_some_iff.1 hst).1
    simp only [ite_eq_right_iff, reduceCtorEq, imp_false]
    omega
  refine ⟨hs.base, hs.path, fun x hx => ?_, fun j q' st hj => ?_, fun j q' st hj => ?_,
    fun j j' x x' hj hj' hne => ?_, fun j x hj => ?_, fun t n hn => ?_, hs.calls, hs.seq⟩
  · obtain ⟨st, hst⟩ := hs.known x hx; exact ⟨st, hold hst⟩
  · rcases hsplit hj with hj | ⟨-, he⟩
    · exact hs.admitted j q' st hj
    · cases he; exact hq
  · rcases hsplit hj with hj | ⟨rfl, he⟩
    · exact hs.stages j q' st hj
    · cases he; rw [hlast]; exact ⟨_, Stable.true [], trivial, hp⟩
  · rcases hsplit hj with hj | ⟨rfl, rfl⟩
    · rcases hsplit hj' with hj' | ⟨rfl, rfl⟩
      · exact hs.disjoint j j' x x' hj hj' hne
      · simp [Stage.locks]
    · simp [Stage.locks]
  · rcases hsplit hj with hj | ⟨rfl, rfl⟩
    · exact hs.owned j x hj
    · simp [Stage.writes]
  · refine ⟨(hs.fresh t n hn).1, fun j x hj => ?_⟩
    rcases hsplit hj with hj | ⟨rfl, rfl⟩
    · exact (hs.fresh t n hn).2 j x hj
    · simp [Stage.locks]

section
variable {d₀ : S.Db} {s s' : State S Q} {h : P.History} {i : ℕ} {q : Q} {now : ℕ}
  {ws ws' : List (Write S)} {locks : List S.Key} {β : Type}
  {k : Except (Failure S.Fault S.Error) β → Req S} {body body' : Tx S β}

theorem Sim.keep (hs : P.Sim d₀ s h) (hi : s.sessions[i]? = some (q, .active now ws locks body k))
    (hst : P.StageOk q (h.of i) s.db (.active now ws locks body' k)) :
    P.Sim d₀ (s.goto i q (.active now ws locks body' k)) h :=
  hs.silent hi hst (hs.moves hi (hs.owned i _ hi) fun _ hk => Or.inl hk)

theorem Sim.take {key : S.Key} {r : S.Row key} (hs : P.Sim d₀ s h)
    (hi : s.sessions[i]? = some (q, .active now ws locks body k))
    (hg : S.get (overlay ws s.db) key = some r) (hfree : s.free i key = true)
    (hws : ∀ w ∈ ws', w ∈ ws ∨ w.1 = key)
    (hst : P.StageOk q (h.of i) s.db (.active now ws' (key :: locks) body' k)) :
    P.Sim d₀ (s.goto i q (.active now ws' (key :: locks) body' k)) h := by
  refine hs.silent hi hst (hs.moves hi (fun w hw => ?_) fun k hk => ?_)
  · rcases hws w hw with hw | hw
    · exact List.mem_cons_of_mem _ (hs.owned i _ hi w hw)
    · exact hw ▸ List.mem_cons_self
  · rcases List.mem_cons.1 hk with rfl | hk
    · exact Or.inr ⟨hfree, r, hg⟩
    · exact Or.inl hk

/-- An INSERT takes the lock on a key that no session has. -/
theorem Sim.inserted {t : S.Tab} {row : S.Row (S.serial t (s.seq t))} (hs : P.Sim d₀ s h)
    (hi : s.sessions[i]? = some (q, .active now ws locks body k)) :
    Moves s i s.db (Function.update s.seq t (s.seq t + 1))
      (.active now (ws ++ [⟨S.serial t (s.seq t), row⟩]) (S.serial t (s.seq t) :: locks) body' k) where
  locks key hkey j p hj hji := by
    rcases List.mem_cons.1 hkey with rfl | hkey
    · exact (hs.fresh t (s.seq t) (Nat.le_refl _)).2 j p hj
    · exact hs.disjoint i j _ p hi hj (Ne.symm hji) key hkey
  owned w hw := by
    rcases List.mem_append.1 hw with hw | hw
    · exact List.mem_cons_of_mem _ (hs.owned i _ hi w hw)
    · rw [List.mem_singleton.1 hw]; exact List.mem_cons_self
  seq t' := by
    by_cases ht : t' = t
    · subst ht; simp
    · simp [ht]
  fresh t' n hn := by
    have hn' : s.seq t' ≤ n := by
      by_cases ht : t' = t
      · subst ht; rw [Function.update_self] at hn; omega
      · simpa [ht] using hn
    refine ⟨(hs.fresh t' n hn').1, fun hk => ?_⟩
    rcases List.mem_cons.1 hk with he | hk
    · obtain ⟨rfl, rfl⟩ := S.serial_inj he
      rw [Function.update_self] at hn; omega
    · exact (hs.fresh t' n hn').2 i _ hi hk

theorem Sim.publish {a : β} {e : P.Event} (hs : P.Sim d₀ s h)
    (hi : s.sessions[i]? = some (q, .active now ws locks (.commit a) k)) (hne : ws ≠ [])
    (hw : P.writes e ws) (hem : P.emits q (h.of i) e locks s.db (overlay ws s.db))
    (hst : P.StageOk q (h.of i ++ [.emit e]) (overlay ws s.db) (.idle (k (.ok a)))) :
    P.Refines d₀ s h (.exec i) ({ s with db := overlay ws s.db }.goto i q (.idle (k (.ok a)))) := by
  have hadm := hs.admitted i q _ hi
  have hframe : ∀ key, key ∉ locks → S.get (overlay ws s.db) key = S.get s.db key :=
    fun key hkey => get_overlay_of_locked (hs.owned i _ hi) hkey _
  have hm : Moves s i (overlay ws s.db) s.seq (.idle (k (.ok a))) :=
    ⟨by simp [Stage.locks], by simp [Stage.writes], fun _ => Nat.le_refl _, fun t n hn =>
      ⟨by rw [hframe _ ((hs.fresh t n hn).2 i _ hi)]; exact (hs.fresh t n hn).1,
        by simp [Stage.locks]⟩⟩
  have hsim := hs.move hi (.idle (k (.ok a))) [.emit e] (P.base_emits hadm hs.base hem)
    (.emit hs.path hadm hs.base hem) hst
    (fun j q' st'' hji hj => (hs.stages j q' st'' hj).rely
      ⟨q, h.of i, e, locks, hadm, hs.base, fun key hkey =>
        hs.disjoint j i _ _ hj hi hji key hkey, hframe, hem⟩) hm
  refine ⟨_, ?_, .emit i q _ e rfl hi (by simp [Stage.commits, hne]) rfl hw hem⟩
  simpa [State.goto, History.calls] using hsim

/-- **A statement** of a justified transaction. -/
theorem Sim.stmt (hs : P.Sim d₀ s h)
    (hi : s.sessions[i]? = some (q, .active now ws locks body k))
    (hstep : s.stmt i q now ws locks k body = some s') : P.Refines d₀ s h (.exec i) s' := by
  obtain ⟨⟨A, hA, hd, hp⟩, hB⟩ := hs.stages i q _ hi
  have silent (hc : (Stage.active now ws locks body k).commits = false) (hdb : s'.db = s.db)
      (hs' : P.Sim d₀ s' h) : P.Refines d₀ s h (.exec i) s' :=
    .silent (State.commit?_eq_none hi hc) hdb hs'
  cases body with
  | commit a =>
    simp only [State.stmt, Option.some.injEq] at hstep
    subst hstep
    obtain ⟨e, A', hA', hpost, he, hk⟩ := hp
    cases e with
    | none =>
      subst he
      refine silent rfl rfl (hs.silent hi ?_
        (hs.moves hi (by simp [Stage.writes]) (by simp [Stage.locks])))
      exact ⟨A', hA', hpost _ hs.base hd, by simpa using hk⟩
    | some e =>
      exact hs.publish hi he.1 he.2.1 (he.2.2 _ hs.base hd)
        ⟨A', hA', hpost _ hs.base hd, by simpa using hk⟩
  | throw x =>
    simp only [State.stmt, Option.some.injEq] at hstep
    subst hstep
    obtain ⟨A', hA', hpost, hk⟩ := hp
    refine silent rfl rfl (hs.silent hi ?_
      (hs.moves hi (by simp [Stage.writes]) (by simp [Stage.locks])))
    exact ⟨A', hA', hpost _ hs.base hd, hk⟩
  | select g c =>
    simp only [State.stmt, Option.some.injEq] at hstep
    subst hstep
    exact silent rfl rfl (hs.keep hi ⟨hp _ hs.base hd, hB⟩)
  | lock key c =>
    have hp := hp _ hs.base hd
    simp only [State.stmt] at hstep
    cases hg : S.get (overlay ws s.db) key with
    | none =>
      simp only [hg, Option.some.injEq] at hstep hp
      subst hstep
      exact silent rfl rfl (hs.keep hi ⟨hp, hB⟩)
    | some r =>
      simp only [hg, Option.ite_none_right_eq_some, Option.some.injEq] at hstep hp
      obtain ⟨hfree, rfl⟩ := hstep
      exact silent rfl rfl (hs.take hi hg hfree (fun w hw => Or.inl hw) ⟨hp, hB⟩)
  | update key p f c =>
    have hp := hp _ hs.base hd
    simp only [State.stmt] at hstep
    cases hg : S.get (overlay ws s.db) key with
    | none =>
      simp only [hg, Option.some.injEq] at hstep hp
      subst hstep
      exact silent rfl rfl (hs.keep hi ⟨hp, hB⟩)
    | some r =>
      simp only [hg, Option.ite_none_right_eq_some] at hstep hp
      obtain ⟨hfree, hstep⟩ := hstep
      by_cases hpr : p r = true
      · simp only [hpr, if_true, Option.some.injEq] at hstep hp
        subst hstep
        refine silent rfl rfl (hs.take hi hg hfree (fun w hw => ?_) ⟨hp, hB⟩)
        rcases List.mem_append.1 hw with hw | hw
        · exact Or.inl hw
        · rw [List.mem_singleton.1 hw]; exact Or.inr rfl
      · simp only [hpr, Bool.false_eq_true, if_false, Option.some.injEq] at hstep hp
        subst hstep
        exact silent rfl rfl (hs.keep hi ⟨hp, hB⟩)
  | insert t row c =>
    simp only [State.stmt, Option.some.injEq] at hstep
    subst hstep
    have hp := hp _ (s.seq t) now hs.base hd (hs.seq t) (hs.fresh t (s.seq t) (Nat.le_refl _)).1
    have hsim := hs.move hi _ [] hs.base (by simpa using hs.path) (by simpa using ⟨hp, hB⟩)
      (fun j q' st'' _ hj => hs.stages j q' st'' hj) (hs.inserted hi)
    exact silent rfl rfl (by simpa [State.goto, History.calls] using hsim)

end

/-- **Every step of the system refines an atomic event** of the session that took it, or leaves
    the committed store alone. -/
theorem Sim.step {prog : Q → Req S} (hprog : ∀ q, P.admitted q →
    P.ReqOk q [] (fun _ => True) (prog q))
    {d₀ : S.Db} {s s' : State S Q} {h : P.History} {a : Action S Q} (hs : P.Sim d₀ s h)
    (ha : ∀ q, a = .submit q → P.admitted q) (hstep : s.step prog a = some s') :
    P.Refines d₀ s h a s' := by
  cases a with
  | submit q =>
    simp only [State.step, Option.some.injEq] at hstep
    subst hstep
    exact .silent rfl rfl (hs.submit (ha q rfl) (hprog q (ha q rfl)))
  | exec i =>
    simp only [State.step] at hstep
    split at hstep
    · rename_i q β body k hi
      simp only [Option.some.injEq] at hstep
      subst hstep
      obtain ⟨A, hA, hd, hp, hf⟩ := hs.stages i q _ hi
      exact .silent (State.commit?_eq_none hi rfl) rfl (hs.silent hi ⟨⟨A, hA, hd, hp⟩, A, hA, hd, hf⟩
        (hs.moves hi (by simp [Stage.writes]) (by simp [Stage.locks])))
    · rename_i q c k hi
      simp only [Option.some.injEq] at hstep
      subst hstep
      obtain ⟨A, hA, hd, hc, hk⟩ := hs.stages i q _ hi
      have := hs.move hi (.waiting k) [.call c] hs.base
        (.call hs.path (hs.admitted i q _ hi) hc) ⟨A, hA, hd, hk⟩
        (fun j q' st'' _ hj => hs.stages j q' st'' hj)
        (hs.moves hi (by simp [Stage.writes]) (by simp [Stage.locks]))
      exact ⟨_, by simpa [State.goto, History.calls] using this, .call i q _ c rfl hi rfl rfl hc⟩
    · rename_i q β now ws locks body k hi
      exact hs.stmt hi hstep
    · cases hstep
  | fault i f =>
    simp only [State.step] at hstep
    split at hstep
    · rename_i q β now ws locks body k hi
      simp only [Option.some.injEq] at hstep
      subst hstep
      obtain ⟨-, A, hA, hd, hf⟩ := hs.stages i q _ hi
      have := hs.move hi (.idle (k (.error (.db f)))) [.fault f] hs.base
        (.fault hs.path) ⟨A, hA, hd, hf f⟩ (fun j q' st'' _ hj => hs.stages j q' st'' hj)
        (hs.moves hi (by simp [Stage.writes]) (by simp [Stage.locks]))
      exact ⟨_, by simpa [State.goto, History.calls] using this, .fault i f q _ rfl hi rfl⟩
    · cases hstep
  | answer i x =>
    simp only [State.step] at hstep
    split at hstep
    · rename_i q k hi
      simp only [Option.some.injEq] at hstep
      subst hstep
      obtain ⟨A, hA, hd, hk⟩ := hs.stages i q _ hi
      exact .silent rfl rfl (hs.silent hi ⟨A, hA, hd, hk x⟩
        (hs.moves hi (by simp [Stage.writes]) (by simp [Stage.locks])))
    · cases hstep
  | tick =>
    simp only [State.step, Option.some.injEq] at hstep
    subst hstep
    exact .silent rfl rfl ⟨hs.base, hs.path, hs.known, hs.admitted, hs.stages, hs.disjoint, hs.owned,
      hs.fresh, hs.calls, hs.seq⟩

/-- A session that is about to commit writes causes an event. -/
theorem Sim.commit {prog : Q → Req S} {d₀ : S.Db} {s s' : State S Q} {h : P.History} {i : ℕ} {q : Q}
    {st : Stage S} (hs : P.Sim d₀ s h) (hi : s.sessions[i]? = some (q, st)) (hc : st.commits = true)
    (hstep : s.step prog (.exec i) = some s') :
    ∃ e, P.emits q (h.of i) e st.locks s.db s'.db := by
  match st with
  | .active now ws locks (.commit a) k =>
    simp only [State.step, hi, State.stmt, Option.some.injEq] at hstep
    subst hstep
    obtain ⟨⟨A, -, hd, e, -, -, -, he, -⟩, -⟩ := hs.stages i q _ hi
    cases e with
    | none => simp [Stage.commits, he] at hc
    | some e => exact ⟨e, he.2.2 _ hs.base hd⟩

theorem Sim.init {d₀ : S.Db} {seq : S.Tab → ℕ} (hb : P.base d₀) (hseq : ∀ t, P.first t ≤ seq t)
    (hf : ∀ t n, seq t ≤ n → S.get d₀ (S.serial t n) = none) :
    P.Sim d₀ (State.init d₀ seq : State S Q) [] where
  base := hb
  path := .nil
  known := by simp
  admitted := by simp [State.init]
  stages := by simp [State.init]
  disjoint := by simp [State.init]
  owned := by simp [State.init]
  fresh t n hn := ⟨hf t n hn, by simp [State.init]⟩
  calls := rfl
  seq := hseq

/-- **Every run refines a history of atomic events**, and what each step keeps along the run and its
    history holds at the end. -/
theorem Sim.induction {prog : Q → Req S} (hprog : ∀ q, P.admitted q →
    P.ReqOk q [] (fun _ => True) (prog q)) {d₀ : S.Db} {s₀ s : State S Q} (hs₀ : P.Sim d₀ s₀ [])
    {acts : List (Action S Q)} {I : List (Action S Q) → State S Q → P.History → Prop}
    (h₀ : I [] s₀ [])
    (hstep : ∀ as a bs s s' h l, acts = as ++ a :: bs → s₀.run prog as = some s → P.Sim d₀ s h →
      s.step prog a = some s' → P.Sim d₀ s' (h ++ l) → P.Outcome s h a s' l → I as s h →
      I (as ++ [a]) s' (h ++ l))
    (ha : ∀ q, .submit q ∈ acts → P.admitted q) (hrun : s₀.run prog acts = some s) :
    ∃ h, P.Sim d₀ s h ∧ I acts s h := by
  refine State.run_induction
    (I := fun as s => as <+: acts → ∃ h, P.Sim d₀ s h ∧ I as s h)
    (fun _ => ⟨[], hs₀, h₀⟩) (fun as a s s' hs hst ih hpre => ?_) hrun (List.prefix_refl _)
  obtain ⟨bs, rfl⟩ := hpre
  obtain ⟨h, hsim, hI⟩ := ih ⟨a :: bs, by simp⟩
  obtain ⟨l, hsim', hout⟩ := hsim.step hprog (fun q e => ha q (by simp [e])) hst
  exact ⟨h ++ l, hsim', hstep as a bs s s' h l (by simp) hs hsim hst hsim' hout hI⟩

theorem Sim.run {prog : Q → Req S} (hprog : ∀ q, P.admitted q →
    P.ReqOk q [] (fun _ => True) (prog q)) {d₀ : S.Db} {s₀ s : State S Q} (hs₀ : P.Sim d₀ s₀ [])
    {acts : List (Action S Q)} (ha : ∀ q, .submit q ∈ acts → P.admitted q)
    (hrun : s₀.run prog acts = some s) :
    ∃ h, P.Sim d₀ s h ∧ ∀ i q e, (i, q, .emit e) ∈ h → ∃ as bs s₁ s₂ st log,
      acts = as ++ .exec i :: bs ∧ s₀.run prog as = some s₁ ∧ s₁.step prog (.exec i) = some s₂ ∧
      s₁.sessions[i]? = some (q, st) ∧ P.emits q log e st.locks s₁.db s₂.db := by
  refine hs₀.induction hprog (I := fun _ _ h => ∀ i q e, (i, q, .emit e) ∈ h →
    ∃ as bs s₁ s₂ st log, acts = as ++ .exec i :: bs ∧ s₀.run prog as = some s₁ ∧
      s₁.step prog (.exec i) = some s₂ ∧ s₁.sessions[i]? = some (q, st) ∧
      P.emits q log e st.locks s₁.db s₂.db) (by simp) ?_ ha hrun
  intro as a bs s s' h l hacts hs _ hst _ hout ih i q e hm
  rcases List.mem_append.1 hm with hm | hm
  · exact ih i q e hm
  cases hout with
  | silent | fault | call => simp at hm
  | emit j q' st e' ha hj _ _ _ he =>
    cases List.mem_singleton.1 hm
    exact ⟨as, bs, s, s', st, _, ha ▸ hacts, hs, ha ▸ hst, hj, he⟩

/-- **A reply is justified by what its session has gone through.** -/
theorem Sim.replies {d₀ : S.Db} {s : State S Q} {h : P.History} (hs : P.Sim d₀ s h) {i : ℕ} {q : Q}
    {st : Stage S} {r : S.Reply} (hi : s.sessions[i]? = some (q, st)) (hr : st.reply? = some r) :
    P.replies q (h.of i) r := by
  obtain ⟨p, rfl⟩ : ∃ p, st = .idle p := by
    cases st with
    | idle p => exact ⟨p, rfl⟩
    | active | waiting => simp [Stage.reply?] at hr
  cases p with
  | done r' =>
    simp only [Stage.reply?, Option.some.injEq] at hr
    subst hr
    obtain ⟨A, -, -, h⟩ := hs.stages i q _ hi
    exact h
  | tx | call => simp [Stage.reply?] at hr

/-- A call is justified by what its session has gone through before. -/
theorem Path.call_split {d₀ d : S.Db} {h₁ h₂ : P.History} {i : ℕ} {q : Q} {c : S.Call}
    (hp : P.Path d₀ (h₁ ++ (i, q, .call c) :: h₂) d) : P.admitted q ∧ P.calls q (h₁.of i) c := by
  generalize hh : h₁ ++ (i, q, .call c) :: h₂ = h at hp
  induction hp generalizing h₂ with
  | nil => simp at hh
  | fault _ ih | emit _ _ _ _ ih =>
    rcases h₂.eq_nil_or_concat with rfl | ⟨h₃, y, rfl⟩
    · cases List.append_inj_right' hh rfl
    · rw [List.concat_eq_append, ← List.cons_append, ← List.append_assoc] at hh
      exact ih (List.append_inj_left' hh rfl)
  | call _ hq hc ih =>
    rcases h₂.eq_nil_or_concat with rfl | ⟨h₃, y, rfl⟩
    · cases List.append_inj_right' hh rfl
      rw [List.append_inj_left' hh rfl]
      exact ⟨hq, hc⟩
    · rw [List.concat_eq_append, ← List.cons_append, ← List.append_assoc] at hh
      exact ih (List.append_inj_left' hh rfl)

/-! ## Locks -/

section
variable {d₀ : S.Db} {s : State S Q} {h : P.History} {i j : ℕ}

theorem Sim.locked (hs : P.Sim d₀ s h) {w : Write S} (hw : w ∈ s.writesOf i) :
    w.1 ∈ s.locksOf i := by
  obtain ⟨p, hi, hw⟩ := State.mem_writesOf.1 hw
  exact State.mem_locksOf.2 ⟨p, hi, hs.owned i p hi w hw⟩

theorem Sim.locks_disjoint (hs : P.Sim d₀ s h) (hij : i ≠ j) {k : S.Key} (hi : k ∈ s.locksOf i) :
    k ∉ s.locksOf j := by
  intro hj
  obtain ⟨p, hi, hp⟩ := State.mem_locksOf.1 hi
  obtain ⟨p', hj, hp'⟩ := State.mem_locksOf.1 hj
  exact hs.disjoint i j p p' hi hj hij k hp hp'

theorem Sim.guarded (hs : P.Sim d₀ s h) : s.Guarded :=
  fun _ _ hij _ hw hi => hs.locks_disjoint hij hi (hs.locked hw)

end

/-! ## The commits of a run -/

theorem Sim.callsOf {d₀ : S.Db} {s : State S Q} {h : P.History} (hs : P.Sim d₀ s h) (i : ℕ) :
    s.callsOf i = (h.of i).filterMap Log.call? := by
  rw [State.callsOf, hs.calls, History.calls, History.of, List.filterMap_filterMap,
    List.filterMap_filterMap]
  congr 1
  funext ⟨j, q, l⟩
  by_cases hj : j = i <;> cases l <;> simp [hj, Log.call?]

variable (P) in
/-- A commit publishes the event `e`. -/
def Publishes (c : Commit S Q) (e : P.Event) : Prop :=
  P.admitted c.request ∧ P.base c.db ∧ P.writes e c.writes ∧ ∃ log L,
    c.calls = log.filterMap Log.call? ∧ P.emits c.request log e L c.db (overlay c.writes c.db)

theorem Outcome.commit {d₀ : S.Db} {s s' : State S Q} {h l : P.History} {a : Action S Q}
    (hs : P.Sim d₀ s h) (hout : P.Outcome s h a s' l) :
    (s.commit? a = none ∧ s'.db = s.db ∧ ∀ i q e, (i, q, .emit e) ∉ l) ∨
    ∃ c e, s.commit? a = some c ∧ c.db = s.db ∧ s'.db = overlay c.writes s.db ∧
      l = [(c.session, c.request, .emit e)] ∧ P.Publishes c e := by
  cases hout with
  | silent hc hd => exact Or.inl ⟨hc, hd, by simp⟩
  | fault i f q st ha _ hd => exact Or.inl ⟨by rw [ha]; rfl, hd, by simp⟩
  | call i q st c ha hi hc hd => exact Or.inl ⟨by rw [ha, State.commit?_eq_none hi hc], hd, by simp⟩
  | emit i q st e ha hi hc hd hw he =>
    refine Or.inr ⟨_, e, by rw [ha, State.commit?_eq hi hc], rfl, hd, rfl, hs.admitted i q st hi,
      hs.base, hw, h.of i, st.locks, hs.callsOf i, ?_⟩
    rwa [hd] at he

/-- What a step commits is what it adds to the events of the history, session by session. -/
theorem Outcome.publishes {d₀ : S.Db} {s s' : State S Q} {h l : P.History} {a : Action S Q}
    (hs : P.Sim d₀ s h) (hout : P.Outcome s h a s' l) (i : ℕ) :
    List.Forall₂ P.Publishes ((s.commit? a).toList.filter fun c => c.session = i)
      ((History.of l i).filterMap Log.event?) := by
  rcases hout.commit hs with ⟨hc, -, hl⟩ | ⟨c, e, hc, -, -, rfl, hpub⟩
  · -- the step adds no event
    have hnone : (History.of l i).filterMap Log.event? = [] := by
      rw [List.filterMap_eq_nil_iff]
      intro x hx
      obtain ⟨q, hm⟩ := History.mem_of.1 hx
      cases x with
      | emit e => exact absurd hm (hl i q e)
      | fault | call => rfl
    simp [hc, hnone]
  · by_cases hci : c.session = i
    · simpa [hc, hci, History.of, Log.event?] using hpub
    · simp [hc, hci, History.of]

/-- **The commits of a run are the events of its history**, session by session. -/
theorem Sim.commits {prog : Q → Req S} (hprog : ∀ q, P.admitted q →
    P.ReqOk q [] (fun _ => True) (prog q)) {d₀ : S.Db} {s₀ s : State S Q} (hs₀ : P.Sim d₀ s₀ [])
    {acts : List (Action S Q)} (ha : ∀ q, .submit q ∈ acts → P.admitted q)
    (hrun : s₀.run prog acts = some s) :
    ∃ h, P.Sim d₀ s h ∧ ∀ i, List.Forall₂ P.Publishes
      ((s₀.commits prog acts).filter fun c => c.session = i) ((h.of i).filterMap Log.event?) := by
  refine hs₀.induction hprog (I := fun as _ h => ∀ i, List.Forall₂ P.Publishes
    ((s₀.commits prog as).filter fun c => c.session = i) ((h.of i).filterMap Log.event?))
    (fun i => .nil) (fun as a _ s s' h l _ hs hsim _ _ hout ih i => ?_) ha hrun
  rw [State.commits_snoc hs, List.filter_append, History.of_append, List.filterMap_append]
  exact List.rel_append (ih i) (hout.publishes hsim i)

theorem Sim.publishes {prog : Q → Req S} (hprog : ∀ q, P.admitted q →
    P.ReqOk q [] (fun _ => True) (prog q)) {d₀ : S.Db} {s₀ s : State S Q} (hs₀ : P.Sim d₀ s₀ [])
    {acts : List (Action S Q)} (ha : ∀ q, .submit q ∈ acts → P.admitted q)
    (hrun : s₀.run prog acts = some s) {c : Commit S Q} (hc : c ∈ s₀.commits prog acts) :
    ∃ e, P.Publishes c e := by
  refine (hs₀.induction hprog (I := fun as _ _ => ∀ c ∈ s₀.commits prog as, ∃ e, P.Publishes c e)
    (by simp [State.commits]) (fun as a _ s s' h l _ hs hsim _ _ hout ih c hc => ?_) ha hrun).elim
      fun _ h => h.2 c hc
  rw [State.commits_snoc hs, List.mem_append] at hc
  rcases hc with hc | hc
  · exact ih c hc
  · rcases hout.commit hsim with ⟨hnone, -⟩ | ⟨c', e, hc', -, -, -, hpub⟩
    · simp [hnone] at hc
    · rw [hc', Option.toList_some, List.mem_singleton] at hc
      exact ⟨e, hc ▸ hpub⟩

/-! ## Invariants over a run -/

/-- What holds at first and is kept by every event holds along a path. -/
theorem Path.always {d₀ d : S.Db} {h : P.History} {I : S.Db → Prop} (h₀ : I d₀)
    (hkeep : ∀ q log e L d d', P.admitted q → P.base d → P.emits q log e L d d' → I d → I d')
    (hp : P.Path d₀ h d) : I d := by
  induction hp with
  | nil => exact h₀
  | fault _ ih | call _ _ _ ih => exact ih
  | emit _ hq hb he ih => exact hkeep _ _ _ _ _ _ hq hb he ih

/-- A transitive relation between the stores before and after an event relates the ends of a run. -/
theorem Sim.between {prog : Q → Req S}
    (hprog : ∀ q, P.admitted q → P.ReqOk q [] (fun _ => True) (prog q)) {d₀ : S.Db}
    {R : S.Db → S.Db → Prop} (hrefl : ∀ d, R d d) (htrans : ∀ {a b c}, R a b → R b c → R a c)
    (hstep : ∀ q log e L h d d', P.admitted q → P.base d → P.Path d₀ h d →
      P.emits q log e L d d' → R d d')
    {acts : List (Action S Q)} {s s' : State S Q} {h : P.History} (hs : P.Sim d₀ s h)
    (ha : ∀ q, .submit q ∈ acts → P.admitted q) (hrun : s.run prog acts = some s') :
    R s.db s'.db := by
  induction acts generalizing s h with
  | nil =>
    simp only [State.run, Option.some.injEq] at hrun
    subst hrun; exact hrefl _
  | cons a acts ih =>
    simp only [State.run, Option.bind_eq_some_iff] at hrun
    obtain ⟨t, ht, hrun⟩ := hrun
    have ha' : ∀ q, .submit q ∈ acts → P.admitted q := fun q hq => ha q (List.mem_cons_of_mem _ hq)
    obtain ⟨l, hs', hout⟩ := hs.step hprog (fun q e => ha q (by simp [e])) ht
    cases hout with
    | silent _ hd | fault _ _ _ _ _ _ hd | call _ _ _ _ _ _ _ hd => exact hd ▸ ih hs' ha' hrun
    | emit i q st e _ hi _ _ _ he =>
      exact htrans (hstep q _ e _ h _ _ (hs.admitted i q st hi) hs.base hs.path he) (ih hs' ha' hrun)

end Spec

end ReadCommitted
