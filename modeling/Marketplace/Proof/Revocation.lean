/-
  Revocation: after a call has found the account deleted, an identity of it can
  come back only through a call that has read the row before.
-/
import Marketplace.Proof.IdentityCache

namespace Marketplace.Identity

open UsersService

variable {s s' : State} {acts : List Action} {u : String} {n : ℕ}

/-- Storing the identity of somebody else adds no identity. -/
theorem get_resolveRow_of_none {cache : IdentityCache} (h : cache.get u = none) {now : ℕ}
    {userId : String} {row : Option User} (hrow : userId = u → row = none) :
    (resolveRow cache now userId row).1.get u = none := by
  refine Option.eq_none_iff_forall_ne_some.2 fun e he => ?_
  rcases get_resolveRow he with he | ⟨hu, r, hr, -⟩
  · rw [h] at he; cases he
  · rw [hrow hu.symm] at hr; cases hr

/-- The account is gone and nothing can bring an identity back: none is cached, no call holds the row,
    and no call after the first `n` has returned one. -/
structure Revoked (u : String) (n : ℕ) (s : State) : Prop where
  gone : s.accounts u = none
  cache : s.cache.get u = none
  calls : ∀ (i : ℕ) row, s.calls[i]? ≠ some (u, Phase.answered (some row))
  started : n ≤ s.calls.length
  returned : ∀ (i : ℕ) user, n ≤ i → s.calls[i]? ≠ some (u, Phase.returned (some user))

/-- The action does not create the account again. -/
def Action.recreates (u : String) : Action → Bool
  | .account userId row => userId = u && row.isSome
  | _ => false

theorem Revoked.goto (h : Revoked u n s) {i : ℕ} {userId : String} {phase : Phase} (phase' : Phase)
    (hi : s.calls[i]? = some (userId, phase)) (ha : userId = u → ∀ row, phase' ≠ .answered (some row))
    (hr : userId = u → ∀ user, phase' ≠ .returned (some user)) :
    Revoked u n { s with calls := s.calls.set i (userId, phase') } where
  gone := h.gone
  cache := h.cache
  calls j row hj := by
    rw [List.getElem?_set] at hj
    split_ifs at hj
    · cases hj; exact ha rfl row rfl
    · exact h.calls j row hj
  started := by rw [List.length_set]; exact h.started
  returned j user hn hj := by
    rw [List.getElem?_set] at hj
    split_ifs at hj
    · cases hj; exact hr rfl user rfl
    · exact h.returned j user hn hj

theorem Revoked.started_with (h : Revoked u n s) {userId : String} {phase : Phase}
    (hphase : userId = u → phase = .reading) :
    Revoked u n { s with calls := s.calls ++ [(userId, phase)] } where
  gone := h.gone
  cache := h.cache
  calls i row hi := by
    rw [List.getElem?_append] at hi
    split_ifs at hi with hlt
    · exact h.calls i row hi
    · cases List.mem_singleton.1 (List.mem_of_getElem? hi)
      cases hphase rfl
  started := by rw [List.length_append]; exact h.started.trans (Nat.le_add_right ..)
  returned i user hn hi := by
    rw [List.getElem?_append] at hi
    split_ifs at hi with hlt
    · exact h.returned i user hn hi
    · cases List.mem_singleton.1 (List.mem_of_getElem? hi)
      cases hphase rfl

theorem Revoked.step (h : Revoked u n s) {a : Action} (ha : a.recreates u = false)
    (hstep : s.step a = some s') : Revoked u n s' := by
  cases State.step_next hstep with
  | hit hc =>
    refine h.started_with ?_
    rintro rfl
    simp [cachedIdentity, h.cache] at hc
  | miss => exact h.started_with fun _ => rfl
  | read hi =>
    refine h.goto _ hi ?_ (by simp)
    rintro rfl row
    simp [h.gone]
  | @resume i userId row hi =>
    have hrow : userId = u → row = none := by
      rintro rfl
      cases row with
      | none => rfl
      | some row => exact absurd hi (h.calls i row)
    have hkept := h.goto (.returned (resolveRow s.cache s.now userId row).2) hi
      (by simp) fun hu user => by simp [hrow hu, resolveRow]
    exact { hkept with cache := get_resolveRow_of_none h.cache hrow }
  | fail hi => exact h.goto _ hi (by simp) (by simp)
  | @account userId row =>
    refine { h with gone := ?_ }
    by_cases hu : userId = u
    · subst hu
      simpa [Action.recreates] using ha
    · simpa [Function.update_of_ne (Ne.symm hu)] using h.gone
  | tick => exact { h with }

theorem Revoked.run (h : Revoked u n s) (ha : ∀ a ∈ acts, a.recreates u = false)
    (hrun : s.run acts = some s') : Revoked u n s' := by
  induction acts generalizing s with
  | nil => cases hrun; exact h
  | cons a acts ih =>
    obtain ⟨t, ht, hrun⟩ := Option.bind_eq_some_iff.1 hrun
    exact ih (h.step (ha a List.mem_cons_self) ht) (fun a ha' => ha a (List.mem_cons_of_mem _ ha')) hrun

/-- After `s`, while the account is not created again, no call for `u` that starts returns an identity. -/
def Final (u : String) (s : State) : Prop :=
  ∀ acts s', (∀ a ∈ acts, a.recreates u = false) → s.run acts = some s' →
    ∀ (i : ℕ) user, s.calls.length ≤ i → s'.calls[i]? ≠ some (u, Phase.returned (some user))

/-- A call that holds the row stores it, and the next one returns it. -/
theorem not_final {i : ℕ} {row : User} (hi : s.calls[i]? = some (u, .answered (some row))) :
    ¬ Final u s := by
  intro h
  let user : AuthUser := ⟨u, row.fullName, row.department⟩
  let cache := (resolveRow s.cache s.now u (some row)).1
  let calls := s.calls.set i (u, .returned (some user))
  have hcached : cachedIdentity cache s.now u = some user := by
    simp [cache, user, resolveRow, cachedIdentity, IDENTITY_CACHE_TTL_MS]
  have hres : s.step (.resume i) = some { s with cache, calls } := by
    simp only [State.step, hi]; rfl
  have hcall : ({ s with cache, calls } : State).step (.call u) =
      some { s with cache, calls := calls ++ [(u, .returned (some user))] } := by
    simp only [State.step, hcached]
  have hrun : s.run [.resume i, .call u] =
      some { s with cache, calls := calls ++ [(u, .returned (some user))] } := by
    rw [State.run, hres, Option.bind_some, State.run, hcall, Option.bind_some, State.run]
  refine h _ _ (by simp [Action.recreates]) hrun s.calls.length user le_rfl ?_
  have hlen : calls.length = s.calls.length := List.length_set
  simp [← hlen]

/-- **Revocation is final** once a call has found the account deleted, if and only if no other call for
    the employee has read the row before and is still to go on with it. -/
theorem revocation_final_iff {s₀ : State} {i : ℕ} (hi : s₀.calls[i]? = some (u, .answered none))
    (hstep : s₀.step (.resume i) = some s) (hgone : s.accounts u = none) :
    Final u s ↔ ∀ (j : ℕ) row, s.calls[j]? ≠ some (u, .answered (some row)) := by
  constructor
  · intro h j row hj
    exact not_final hj h
  · intro hno acts s' ha hrun j user hj
    have hcache : s.cache.get u = none := by
      simp only [State.step, hi, Option.some.injEq] at hstep
      subst hstep
      exact InsertionMap.get_delete_self s₀.cache u
    have hs : Revoked u s.calls.length s :=
      ⟨hgone, hcache, hno, le_rfl, fun k user hk h => by
        rw [List.getElem?_eq_none hk] at h; cases h⟩
    exact (hs.run ha hrun).returned j user hj

/-! ## A deleted account -/

/-- Of three calls one returns before the account is deleted, one finds it gone, and one has not read it
    yet. -/
def sampleDeleted : List Action :=
  [.call "EMP00101", .call "EMP00101", .call "EMP00101", .read 0, .resume 0, .account "EMP00101" none,
    .read 1]

/-- One call reads the row, the account is deleted, another call finds it gone. -/
def sampleSlow : List Action :=
  [.call "EMP00101", .read 0, .account "EMP00101" none, .call "EMP00101", .read 1]

/-- Though a call has returned the identity and another one is still to read the account, no later call
    returns it. -/
theorem revocation_final_sample : ∃ s₀ s, (State.init sampleAccounts).run sampleDeleted = some s₀ ∧
    s₀.step (.resume 1) = some s ∧ s.calls = [("EMP00101", .returned (some ⟨"EMP00101", "Seller", none⟩)),
      ("EMP00101", .returned none), ("EMP00101", .reading)] ∧ Final "EMP00101" s := by
  obtain ⟨s₀, hrun, h⟩ : ∃ s₀, (State.init sampleAccounts).run sampleDeleted = some s₀ ∧
      (s₀.calls[1]? = some ("EMP00101", .answered none) && (s₀.step (.resume 1)).any fun s =>
        s.calls = [("EMP00101", .returned (some ⟨"EMP00101", "Seller", none⟩)),
          ("EMP00101", .returned none), ("EMP00101", .reading)] && s.accounts "EMP00101" = none) = true :=
    (Option.any_eq_true ..).1 (by decide +kernel)
  simp only [Bool.and_eq_true, decide_eq_true_eq, Option.any_eq_true] at h
  obtain ⟨hi, s, hstep, hcalls, hgone⟩ := h
  refine ⟨s₀, s, hrun, hstep, hcalls, (revocation_final_iff hi hstep hgone).2 fun j row hj => ?_⟩
  have hmem := List.mem_of_getElem? hj
  simp [hcalls] at hmem

/-- A call has been told that the account is gone, and the next one returns its identity. -/
theorem revocation_counterexample : ∃ s s',
    (State.init sampleAccounts).run (sampleSlow ++ [.resume 1]) = some s ∧
    s.calls[1]? = some ("EMP00101", .returned none) ∧ s.accounts "EMP00101" = none ∧
    s.run [.resume 0, .call "EMP00101"] = some s' ∧ s.calls.length = 2 ∧
    s'.calls[2]? = some ("EMP00101", .returned (some ⟨"EMP00101", "Seller", none⟩)) := by
  obtain ⟨s, hrun, h⟩ : ∃ s, (State.init sampleAccounts).run (sampleSlow ++ [.resume 1]) = some s ∧
      (s.calls[1]? = some ("EMP00101", .returned none) && s.accounts "EMP00101" = none &&
        s.calls.length = 2 && (s.run [.resume 0, .call "EMP00101"]).any fun s' =>
          s'.calls[2]? = some ("EMP00101", .returned (some ⟨"EMP00101", "Seller", none⟩))) = true :=
    (Option.any_eq_true ..).1 (by decide +kernel)
  simp only [Bool.and_eq_true, decide_eq_true_eq, Option.any_eq_true] at h
  obtain ⟨⟨⟨hnull, hgone⟩, hlen⟩, s', hrun', hback⟩ := h
  exact ⟨s, s', hrun, hnull, hgone, hrun', hlen, hback⟩

end Marketplace.Identity
