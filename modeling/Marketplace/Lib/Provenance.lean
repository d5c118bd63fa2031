/-
  Rows that are justified by what has been read.

  `Req.Vouches` says of a request that it writes a row only if that is justified
  by the stores it has read before; `State.run_vouches` carries this over to
  runs.  What a session has read are stores of the run (`State.mem_reads`).
-/
import Marketplace.Lib.Reads

namespace ReadCommitted

variable {S : Sig} {Q : Type}

section
variable (C : List S.Db → Write S → Prop)

/-- `C` holds of what has been read and of each row the transaction writes, and `K` of what has been
    read and of its value when it ends; the stores `l` have been read and `n` rows written before. -/
def Tx.Vouches {β : Type} (K : List S.Db → Except S.Error β → Prop) :
    List S.Db → ℕ → Tx S β → Prop
  | l, _, .commit a => K l (.ok a)
  | l, _, .throw e => K l (.error e)
  | l, n, .select g c => ∀ d, (c (g d)).Vouches K (if n = 0 then l ++ [d] else l) n
  | l, n, .lock _ c => ∀ r, (c r).Vouches K l n
  | l, n, .update key p f c => (∀ r, p r = true → C l ⟨key, f r⟩) ∧ (c 0).Vouches K l n ∧
      (c 1).Vouches K l (n + 1)
  | l, n, .insert t row c => ∀ now m, C l ⟨S.serial t m, row now m⟩ ∧
      (c m (row now m)).Vouches K l (n + 1)

/-- After it has read the stores `l`, the request writes rows for which `C` holds of what has been
    read by then. -/
def Req.Vouches : List S.Db → Req S → Prop
  | _, .done _ => True
  | l, .tx body k => body.Vouches C (fun l x => (k (ended x)).Vouches l) l 0 ∧
      ∀ l' f, (k (.error (.db f))).Vouches (l ++ l')
  | l, .call _ k => ∀ x, (k x).Vouches l

def Stage.Vouches (l : List S.Db) : Stage S → Prop
  | .idle p => p.Vouches C l
  | .active _ ws _ body k => (∀ w ∈ ws, C l w) ∧
      body.Vouches C (fun l x => (k (ended x)).Vouches C l) l ws.length ∧
      ∀ l' f, (k (.error (.db f))).Vouches C (l ++ l')
  | .waiting k => ∀ x, (k x).Vouches C l

variable {C}

theorem Stage.Vouches.append_nil {l : List S.Db} {st : Stage S} (h : st.Vouches C l) :
    st.Vouches C (l ++ []) := by rwa [List.append_nil]

theorem Stage.Vouches.next {l : List S.Db} {d d' : S.Db} {st st' : Stage S} (h : st.Vouches C l)
    (hn : st.Next d d' st') : st'.Vouches C (l ++ (st.select? d).toList) := by
  have snoc {ws : List (Write S)} {w : Write S} (hws : ∀ w ∈ ws, C l w) (hw : C l w) :
      ∀ w' ∈ ws ++ [w], C l w' := by
    intro w' hw'
    rcases List.mem_append.1 hw' with hw' | hw'
    · exact hws w' hw'
    · rwa [List.mem_singleton.1 hw']
  cases hn with
  | start => exact append_nil ⟨by simp, h⟩
  | call => exact append_nil h
  | answer x => exact append_nil (h x)
  | fault f => exact h.2.2 _ f
  | commit => exact append_nil h.2.1
  | throw => exact append_nil h.2.1
  | @select _ _ now ws =>
    obtain ⟨hws, hbody, hf⟩ := h
    cases ws with
    | nil => exact ⟨by simp, hbody d, fun l' f => by rw [List.append_assoc]; exact hf _ f⟩
    | cons w ws => exact append_nil ⟨hws, hbody _, hf⟩
  | lock => exact append_nil ⟨h.1, h.2.1 _, h.2.2⟩
  | lockNone => exact append_nil ⟨h.1, h.2.1 _, h.2.2⟩
  | update _ hp =>
    obtain ⟨hws, hbody, hf⟩ := h
    refine append_nil ⟨snoc hws (hbody.1 _ hp), ?_, hf⟩
    rw [List.length_append]
    exact hbody.2.2
  | updateNone => exact append_nil ⟨h.1, h.2.1.2.1, h.2.2⟩
  | @insert _ now _ _ _ _ _ _ n =>
    obtain ⟨hws, hbody, hf⟩ := h
    refine append_nil ⟨snoc hws (hbody now n).1, ?_, hf⟩
    rw [List.length_append]
    exact (hbody now n).2

end

namespace State

variable {prog : Q → Req S} {s s₀ : State S Q} {acts : List (Action S Q)} {i : ℕ}

/-- **The rows a session writes are justified by what it has read.** -/
theorem run_vouches {C : List S.Db → Write S → Prop} {A : Q → Prop}
    (hprog : ∀ q, A q → (prog q).Vouches C []) {d₀ : S.Db} {seq : S.Tab → ℕ}
    (hguard : ∀ as s, (State.init d₀ seq).run prog as = some s → s.Guarded)
    (hrun : (State.init d₀ seq).run prog acts = some s) {q : Q} {st : Stage S} (hq : A q)
    (hi : s.sessions[i]? = some (q, st)) :
    st.Vouches C ((State.init d₀ seq).reads prog i acts) :=
  run_reads (J := fun q l _ st => A q → st.Vouches C l) (fun q _ hq => hprog q hq)
    (fun _ _ _ _ _ _ h hn hq => (h hq).next hn) (fun _ _ _ _ _ h _ => h) hguard hrun hi hq

/-- **New rows have the keys of their sequences**: a session writes to rows that are there, or it
    inserts them. -/
theorem writes_serial {d₀ : S.Db} {seq : S.Tab → ℕ}
    (hguard : ∀ as s, (State.init d₀ seq).run prog as = some s → s.Guarded)
    (hrun : (State.init d₀ seq).run prog acts = some s) {q : Q} {st : Stage S}
    (hi : s.sessions[i]? = some (q, st)) :
    ∀ w ∈ st.writes, (S.get s.db w.1).isSome ∨ ∃ t n, w.1 = S.serial t n := by
  refine run_reads (J := fun _ _ d st => ∀ w ∈ st.writes, (S.get d w.1).isSome ∨
    ∃ t n, w.1 = S.serial t n) (fun _ _ => by simp [Stage.writes]) (fun q l d st d' st' h hn => ?_)
    (fun q l d st ws h _ w hw => (h w hw).imp_left fun h => isSome_overlay h ws) hguard hrun hi
  have snoc {ws : List (Write S)} {x : Write S}
      (hws : ∀ w ∈ ws, (S.get d w.1).isSome ∨ ∃ t n, w.1 = S.serial t n)
      (hx : (S.get d x.1).isSome ∨ ∃ t n, x.1 = S.serial t n) :
      ∀ w ∈ ws ++ [x], (S.get d w.1).isSome ∨ ∃ t n, w.1 = S.serial t n := by
    intro w hw
    rcases List.mem_append.1 hw with hw | hw
    · exact hws w hw
    · rwa [List.mem_singleton.1 hw]
  cases hn with
  | start | call | answer | fault | commit | throw => simp [Stage.writes]
  | select | lock | lockNone | updateNone => exact h
  | insert n => exact snoc h (Or.inr ⟨_, n, rfl⟩)
  | @update _ _ ws _ key _ _ _ _ _ hr _ =>
    refine snoc h ?_
    -- the row is in the store, or the transaction has written it before
    by_cases hk : key ∈ ws.map Sigma.fst
    · obtain ⟨w, hw, hkey⟩ := List.mem_map.1 hk
      exact hkey ▸ h w hw
    · rw [get_overlay_of_not_mem hk] at hr
      exact Or.inl (Option.isSome_iff_exists.2 ⟨_, hr⟩)

/-- What a session has read is a committed store the run has passed through. -/
theorem mem_reads {d : S.Db} (hrun : s₀.run prog acts = some s) (hd : d ∈ s₀.reads prog i acts) :
    ∃ as bs t, acts = as ++ bs ∧ s₀.run prog as = some t ∧ t.db = d := by
  refine run_induction (I := fun acts _ => d ∈ s₀.reads prog i acts →
    ∃ as bs t, acts = as ++ bs ∧ s₀.run prog as = some t ∧ t.db = d) (by simp [reads])
    (fun as a s s' hs hst ih hd => ?_) hrun hd
  rw [reads_snoc hs, List.mem_append, Option.mem_toList] at hd
  rcases hd with hd | hd
  · obtain ⟨as₁, bs, t, rfl, ht, hdb⟩ := ih hd
    exact ⟨as₁, bs ++ [a], t, by simp, ht, hdb⟩
  · obtain ⟨-, hx⟩ := Option.ite_none_right_eq_some.1 hd
    obtain ⟨⟨q, st⟩, -, hx⟩ := Option.bind_eq_some_iff.1 hx
    refine ⟨as, [a], s, rfl, hs, ?_⟩
    cases st with
    | idle | waiting => cases hx
    | active now ws locks body k =>
      cases body with
      | select g c =>
        obtain ⟨-, hx⟩ := Option.ite_none_right_eq_some.1 hx
        exact Option.some.inj hx
      | commit | throw | lock | update | insert => cases hx

end State

end ReadCommitted
