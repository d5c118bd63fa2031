/-
  The responses to requests that run alone, and the steps of their
  computation.
-/
import Marketplace.Proof.Runs

namespace Marketplace

open ReadCommitted UsersService

variable {cfg : Config} {s : AppState cfg} {d : Database}

/-! ## Computing a response -/

section
variable {answers : Call → Answer} {now : ℕ} {seq : Serial → ℕ}

@[simp] theorem eval_query {β : Type} (g : Database → β) (k : β → Program) :
    Req.eval (S := market) answers now d seq (query g k) = (k (g d)).eval answers now d seq := by
  simp only [query, Req.eval, Tx.eval, overlay_nil]

theorem eval_update {key : Key} {p : Row key → Bool} {f : Row key → Row key}
    {k : Except Thrown ℕ → Program} {r : Row key} (hget : d.get key = some r) (hp : p r = true) :
    Req.eval (S := market) answers now d seq (.tx (.update key p f .commit) k) =
      (k (.ok 1)).eval answers now (d.put key (f r)) seq := by
  simp only [Req.eval, Tx.eval, overlay_nil, hget, hp, if_true, List.nil_append]
  rfl

end

theorem Responds.unique {q : Request cfg} {r r' : Except Thrown Response} (h : Responds cfg d q r)
    (h' : Responds cfg d q r') : r = r' :=
  (h (fun _ => .done) 0 fun _ => 0).symm.trans (h' _ _ _)

/-- A request that is made when no session holds a lock can run as computed. -/
theorem submit_alone (answers : Call → Answer) (q : Request cfg)
    (hfree : ∀ p ∈ s.sessions, p.2.locks = []) :
    ∃ acts s', (∀ q', .submit q' ∉ acts) ∧ s.run (program cfg) (.submit q :: acts) = some s' ∧
      s'.db = ((program cfg q).eval answers s.clock s.db s.seq).1 ∧
      s'.sessions[s.sessions.length]? =
        some (q, .idle (.done ((program cfg q).eval answers s.clock s.db s.seq).2.2)) := by
  let s₁ : AppState cfg := { s with sessions := s.sessions ++ [(q, .idle (program cfg q))] }
  have hlast : s₁.sessions[s.sessions.length]? = some (q, .idle (program cfg q)) := by simp [s₁]
  have halone : State.ReqAlone (program cfg) answers s.sessions.length q s₁ (program cfg q) :=
    State.run_alone (program cfg q) s₁ (State.alone_append hfree _) hlast
  obtain ⟨s', ⟨acts, hacts, hrun, hset, -⟩, hdb, -⟩ := halone
  refine ⟨acts, s', fun q' hq' => ?_, by simpa [State.run, State.step] using hrun, hdb, ?_⟩
  · rcases hacts _ hq' with h | ⟨x, h⟩ <;> cases h
  · rw [hset]; exact State.getElem?_set_same hlast _

theorem Responds.run {q : Request cfg} {r : Except Thrown Response} (h : Responds cfg s.db q r)
    (hfree : ∀ p ∈ s.sessions, p.2.locks = []) :
    ∃ acts s' st, s.run (program cfg) (.submit q :: acts) = some s' ∧
      s'.sessions[s.sessions.length]? = some (q, st) ∧ st.reply? = some r := by
  obtain ⟨acts, s', -, hrun, -, hget⟩ := submit_alone (fun _ => .done) q hfree
  exact ⟨acts, s', _, hrun, hget, congrArg some (h _ _ _)⟩

/-! ## Updating a profile -/

section
variable {u : String} {patch : UpdateProfileDto cfg} {r : User}

variable (d u patch) in
/-- The database after a request of `updateProfile` alone. -/
def patched (answers : Call → Answer) (now : ℕ) (seq : Serial → ℕ) : Database :=
  (Req.eval (S := market) answers now d seq (updateProfile cfg u patch)).1

/-- A profile update alone stores the merged profile, and changes no other employee. -/
theorem patched_users (answers : Call → Answer) (now : ℕ) (seq : Serial → ℕ)
    (hu : d.users.get u = some r)
    (hurl : StorageService.assertManagedUrls cfg (checkedUrl cfg patch).toList = .ok ()) :
    (∃ r', (patched d u patch answers now seq).users.get u = some r' ∧
      profile u r' = merge cfg (profile u r) patch) ∧
    ∀ v ≠ u, (patched d u patch answers now seq).users.get v = d.users.get v := by
  have hget : d.get (.user (merge cfg (profile u r) patch).userId) = some r := hu
  have hid : (merge cfg (profile u r) patch).userId = u := rfl
  simp only [patched, updateProfile, eval_query, hu, Option.map_some, hurl, save, hid]
  by_cases hsame : profile u r = merge cfg (profile u r) patch
  · rw [if_pos hsame]
    exact ⟨⟨r, hu, hsame⟩, fun v _ => rfl⟩
  · rw [if_neg hsame, eval_update hget rfl]
    refine ⟨⟨_, Table.get_put .., ?_⟩, fun v hv => Table.get_put_ne _ _ hv⟩
    -- a column that is not written already has the merged value
    have keep {α : Type} [DecidableEq α] (x y : α) : (if x = y then y else x) = x := by
      split_ifs with h
      · exact h.symm
      · rfl
    refine Profile.mk.injEq .. |>.mpr ⟨rfl, ?_, ?_, ?_, ?_, rfl⟩ <;> exact keep _ _

end

end Marketplace
