/-
  Runs of the application from a database that holds data already.
-/
import Marketplace.Deployment
import Marketplace.Proof.Runs
import Marketplace.Lib.Provenance

namespace Marketplace.Deployment

open ReadCommitted

variable {cfg : Config} {D : Deployment} {acts as bs : List (AppAction cfg)} {s s' : AppState cfg}
  {i : ℕ} {q : Request cfg} {st : Stage market} {e : Event}

theorem start_sim (R : Regime cfg) (hbase : R.base D.db) : R.spec.Sim D.db (D.start cfg) [] :=
  Spec.Sim.init hbase D.seq_pos D.fresh

theorem runs_sim (hrun : D.runs cfg acts = some s) :
    ∃ h, (Regime.any : Regime cfg).spec.Sim D.db s h :=
  ((start_sim .any trivial).run (fun q _ => program_ok q) (fun _ _ => trivial) hrun).imp
    fun _ h => h.1

theorem runs_guarded (hrun : D.runs cfg acts = some s) : s.Guarded := by
  obtain ⟨h, hs⟩ := runs_sim hrun
  exact hs.guarded

theorem submitted (hrun : D.runs cfg acts = some s) (hi : s.sessions[i]? = some (q, st)) :
    .submit q ∈ acts := by
  have hq : q ∈ acts.filterMap Action.request? := by
    rw [← State.requests_run hrun]
    exact List.mem_map.2 ⟨_, List.mem_of_getElem? hi, rfl⟩
  obtain ⟨a, ha, haq⟩ := List.mem_filterMap.1 hq
  cases a with
  | submit q' => cases haq; exact ha
  | exec | fault | answer | tick => cases haq

/-! ## Invariants -/

section
variable (R : Regime cfg) (hbase : R.base D.db) (hadm : ∀ q, .submit q ∈ acts → R.admitted q)
include hbase hadm

theorem base_holds (hrun : D.runs cfg acts = some s) : R.base s.db := by
  obtain ⟨h, hs, -⟩ := (start_sim R hbase).run (fun q _ => program_ok q) hadm hrun
  exact hs.base

theorem between {P : Database → Database → Prop} (hrefl : ∀ d, P d d)
    (htrans : ∀ {a b c}, P a b → P b c → P a c)
    (hstep : ∀ q e L d d', R.base d → Emits cfg R.base q e L d d' → P d d')
    (hacts : acts = as ++ bs) (hs : D.runs cfg as = some s) (hrun : D.runs cfg acts = some s') :
    P s.db s'.db := by
  subst hacts
  obtain ⟨h, hsim, -⟩ := (start_sim R hbase).run (fun q _ => program_ok q)
    (fun q hq => hadm q (List.mem_append_left _ hq)) hs
  have hs : (D.start cfg).run (program cfg) as = some s := hs
  rw [Deployment.runs, State.run_append, hs] at hrun
  exact hsim.between (fun q _ => program_ok q) hrefl htrans
    (fun q _ e L _ d d' _ hb _ he => hstep q e L d d' hb he.1)
    (fun q hq => hadm q (List.mem_append_right _ hq)) hrun

end

theorem always {I : Database → Prop} (h₀ : I D.db)
    (hkeep : ∀ q e L d d', Emits cfg (fun _ => True) q e L d d' → I d → I d')
    (hrun : D.runs cfg acts = some s) : I s.db := by
  obtain ⟨h, hs⟩ := runs_sim hrun
  refine hs.path.always h₀ fun q _ e L d d' _ _ he => ?_
  exact hkeep q e L d d' he.1

variable (R : Regime cfg)

variable (D acts) in
/-- In the run, session `i` commits after the actions `as`: the event it takes part in, and the states
    before and after. -/
structure Commits (as : List (AppAction cfg)) (i : ℕ) (q : Request cfg) (st : Stage market)
    (e : Event) (s s' : AppState cfg) : Prop where
  after : ∃ bs, acts = as ++ .exec i :: bs
  run : D.runs cfg as = some s
  session : s.sessions[i]? = some (q, st)
  db : s'.db = overlay st.writes s.db
  base : R.base s.db
  emits : Emits cfg R.base q e st.locks s.db s'.db

variable {R}

theorem Commits.submitted (h : D.Commits acts R as i q st e s s') : .submit q ∈ acts := by
  obtain ⟨bs, rfl⟩ := h.after
  exact List.mem_append_left _ (Deployment.submitted h.run h.session)

theorem commits_keep (hbase : R.base D.db) (hadm : ∀ q, .submit q ∈ acts → R.admitted q)
    {I : Database → Prop} (h₀ : I D.db)
    (hkeep : ∀ as i q st e s s', D.Commits acts R as i q st e s s' → I s.db → I s'.db)
    (hrun : D.runs cfg acts = some s) : I s.db := by
  refine ((start_sim R hbase).induction (fun q _ => program_ok q) (I := fun _ s _ => I s.db) h₀
    (fun as a bs s s' h l hacts hs hsim _ _ hout ih => ?_) hadm hrun).elim fun _ h => h.2
  cases hout with
  | silent _ hd | fault _ _ _ _ _ _ hd | call _ _ _ _ _ _ _ hd => rwa [hd]
  | emit i q st e ha hi _ hd _ he =>
    exact hkeep as i q st e s s' ⟨⟨bs, ha ▸ hacts⟩, hs, hi, hd, hsim.base, he.1⟩ ih

section
variable {C : List Database → Write market → Prop} {A : Request cfg → Prop}
  (hprog : ∀ q, A q → (program cfg q).Vouches C []) (hq : A q)
include hprog hq

theorem vouched (hrun : D.runs cfg as = some s) (hi : s.sessions[i]? = some (q, st)) :
    ∀ w ∈ st.writes, C ((D.start cfg).reads (program cfg) i as) w := by
  have hv := State.run_vouches hprog (fun _ _ => runs_guarded) hrun hq hi
  cases st with
  | idle | waiting => simp [Stage.writes]
  | active now ws locks body k => exact hv.1

theorem Commits.vouched (h : D.Commits acts R as i q st e s s') :
    ∀ w ∈ st.writes, C ((D.start cfg).reads (program cfg) i as) w :=
  Deployment.vouched hprog hq h.run h.session

end

section
variable (hbase : R.base D.db) (hadm : ∀ q, .submit q ∈ acts → R.admitted q) {d : Database}
include hbase hadm

/-- What was true of a database that a session has read is still true, if every event keeps it. -/
theorem read_before {P : Database → Prop} (hrun : D.runs cfg acts = some s)
    (hd : d ∈ (D.start cfg).reads (program cfg) i acts) (hP : P d)
    (hkeep : ∀ q e L d d', R.base d → Emits cfg R.base q e L d d' → P d → P d') : P s.db := by
  obtain ⟨as₁, bs, t, hacts, ht, rfl⟩ := State.mem_reads hrun hd
  exact between R hbase hadm (P := fun d d' => P d → P d') (fun _ => id) (fun h h' => h' ∘ h)
    hkeep hacts ht hrun hP

end

end Marketplace.Deployment
