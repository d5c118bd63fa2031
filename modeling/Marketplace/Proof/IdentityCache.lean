/-
  The identity cache: its size, and where the identities in it, and those that
  calls return, come from.

  Calls of `resolveTokenSubject` interleave in any way.  `Next` says what one
  step does; `Traced` is the invariant of a run, which traces every identity
  back to the call that has read it.
-/
import Marketplace.Identity

namespace Marketplace.Identity

open UsersService

/-! ## Steps -/

/-- One step. -/
inductive Next (s : State) : Action → State → Prop
  | hit {u user} : cachedIdentity s.cache s.now u = some user →
    Next s (.call u) { s with calls := s.calls ++ [(u, .returned (some user))] }
  | miss {u} : cachedIdentity s.cache s.now u = none →
    Next s (.call u) { s with calls := s.calls ++ [(u, .reading)] }
  | read {i u} : s.calls[i]? = some (u, .reading) →
    Next s (.read i) { s with calls := s.calls.set i (u, .answered (s.accounts u)) }
  | resume {i u row} : s.calls[i]? = some (u, .answered row) →
    Next s (.resume i)
      { s with
        cache := (resolveRow s.cache s.now u row).1
        calls := s.calls.set i (u, .returned (resolveRow s.cache s.now u row).2) }
  | fail {i u} : s.calls[i]? = some (u, .reading) →
    Next s (.fail i) { s with calls := s.calls.set i (u, .failed) }
  | account {u row} : Next s (.account u row) { s with accounts := Function.update s.accounts u row }
  | tick : Next s .tick { s with now := s.now + 1 }

variable {s₀ s s' t : State} {acts acts' as : List Action} {a : Action} {u k : String} {i j : ℕ}

theorem State.step_next (h : s.step a = some s') : Next s a s' := by
  cases a with
  | call u =>
    cases h
    cases hc : cachedIdentity s.cache s.now u with
    | none => exact .miss hc
    | some user => exact .hit hc
  | read i =>
    simp only [State.step] at h
    split at h
    · rename_i u hi
      cases h
      exact .read hi
    · cases h
  | resume i =>
    simp only [State.step] at h
    split at h
    · rename_i u row hi
      cases h
      exact .resume hi
    · cases h
  | fail i =>
    simp only [State.step] at h
    split at h
    · rename_i u hi
      cases h
      exact .fail hi
    · cases h
  | account u row => cases h; exact .account
  | tick => cases h; exact .tick

theorem State.run_snoc : s.run (acts ++ [a]) = some s' ↔
    ∃ t, s.run acts = some t ∧ t.step a = some s' := by
  induction acts generalizing s with
  | nil => simp [State.run]
  | cons b acts ih =>
    simp only [List.cons_append, State.run, Option.bind_eq_some_iff, ih]
    constructor
    · rintro ⟨t, ht, t', hrun, hstep⟩
      exact ⟨t', ⟨t, ht, hrun⟩, hstep⟩
    · rintro ⟨t', ⟨t, ht, hrun⟩, hstep⟩
      exact ⟨t, ht, t', hrun, hstep⟩

/-! ## The cache -/

theorem cachedIdentity_eq_some {cache : IdentityCache} {now : ℕ} {user : AuthUser} :
    cachedIdentity cache now u = some user ↔
      ∃ e, cache.get u = some e ∧ now < e.expiresAt ∧ e.user = user := by
  unfold cachedIdentity
  rw [Option.bind_eq_some_iff]
  refine exists_congr fun e => and_congr_right fun _ => ?_
  split_ifs with h
  · simp [h]
  · simp [h]

theorem get_of_get_makeRoom {cache : IdentityCache} {e : CachedIdentity}
    (h : (makeRoom cache).get k = some e) : cache.get k = some e := by
  unfold makeRoom at h
  split_ifs at h
  · split at h
    · exact InsertionMap.get_of_get_delete h
    · exact h
  · exact h

theorem size_makeRoom {cache : IdentityCache} (h : cache.size ≤ IDENTITY_CACHE_MAX_ENTRIES) :
    (makeRoom cache).size < IDENTITY_CACHE_MAX_ENTRIES := by
  unfold makeRoom
  split_ifs with hfull
  · split
    · rename_i oldestKey hold
      exact (InsertionMap.size_delete_oldest hold).trans_le h
    · rename_i hnone
      rw [InsertionMap.oldest_eq_none.1 hnone]
      decide
  · exact not_le.1 hfull

theorem get_resolveRow {cache : IdentityCache} {now : ℕ} {row : Option User} {e : CachedIdentity}
    (h : (resolveRow cache now u row).1.get k = some e) : cache.get k = some e ∨
      k = u ∧ ∃ r, row = some r ∧ e = ⟨⟨u, r.fullName, r.department⟩, now + IDENTITY_CACHE_TTL_MS⟩ := by
  cases row with
  | none => exact Or.inl (InsertionMap.get_of_get_delete h)
  | some r =>
    by_cases hk : k = u
    · subst hk
      rw [resolveRow, InsertionMap.get_set_self] at h
      exact Or.inr ⟨rfl, r, rfl, (Option.some.inj h).symm⟩
    · rw [resolveRow, InsertionMap.get_set_ne _ _ hk] at h
      exact Or.inl (get_of_get_makeRoom h)

theorem size_resolveRow {cache : IdentityCache} (h : cache.size ≤ IDENTITY_CACHE_MAX_ENTRIES)
    (now : ℕ) (row : Option User) :
    (resolveRow cache now u row).1.size ≤ IDENTITY_CACHE_MAX_ENTRIES := by
  cases row with
  | none => exact (InsertionMap.size_delete_le ..).trans h
  | some r => exact (InsertionMap.size_set_le ..).trans (size_makeRoom h)

/-! ## Where identities come from -/

/-- In the course of a run, the database reads a row for the call `i`, which is for `u`. -/
def ReadBy (s₀ : State) (acts : List Action) (i : ℕ) (u : String) (row : User) : Prop :=
  ∃ as t, as ++ [.read i] <+: acts ∧ s₀.run as = some t ∧ t.calls[i]? = some (u, .reading) ∧
    t.accounts u = some row

/-- In the course of a run, at the time `τ`, the call `i` gets the row that has been read for it; it
    stores `e` under `u` and returns the identity in it. -/
def Stores (s₀ : State) (acts : List Action) (i : ℕ) (u : String) (e : CachedIdentity) (τ : ℕ) : Prop :=
  ∃ as t t' row, ReadBy s₀ as i u row ∧ e.user = ⟨u, row.fullName, row.department⟩ ∧
    as ++ [.resume i] <+: acts ∧ s₀.run as = some t ∧ t.now = τ ∧ t.step (.resume i) = some t' ∧
    t'.cache.get u = some e ∧ t'.calls[i]? = some (u, .returned (some e.user))

/-- In the course of a run, the call `i`, for `u`, returns an identity that an earlier call has stored
    less than a minute before. -/
def Hits (s₀ : State) (acts : List Action) (i : ℕ) (u : String) (user : AuthUser) : Prop :=
  ∃ as t j e τ, as ++ [.call u] <+: acts ∧ s₀.run as = some t ∧ t.calls.length = i ∧ j < i ∧
    Stores s₀ as j u e τ ∧ e.user = user ∧ t.now < τ + IDENTITY_CACHE_TTL_MS

theorem ReadBy.mono {row : User} (h : ReadBy s₀ acts i u row) (hacts : acts <+: acts') :
    ReadBy s₀ acts' i u row := by
  obtain ⟨as, t, hpre, h⟩ := h
  exact ⟨as, t, hpre.trans hacts, h⟩

theorem Stores.mono {e : CachedIdentity} {τ : ℕ} (h : Stores s₀ acts i u e τ)
    (hacts : acts <+: acts') : Stores s₀ acts' i u e τ := by
  obtain ⟨as, t, t', row, hread, he, hpre, h⟩ := h
  exact ⟨as, t, t', row, hread, he, hpre.trans hacts, h⟩

theorem Stores.userId {e : CachedIdentity} {τ : ℕ} (h : Stores s₀ acts i u e τ) :
    e.user.userId = u := by
  obtain ⟨as, t, t', row, -, he, -⟩ := h
  rw [he]

theorem Hits.mono {user : AuthUser} (h : Hits s₀ acts i u user) (hacts : acts <+: acts') :
    Hits s₀ acts' i u user := by
  obtain ⟨as, t, j, e, τ, hpre, h⟩ := h
  exact ⟨as, t, j, e, τ, hpre.trans hacts, h⟩

/-- What a call has comes from the database, or from the cache. -/
def Justified (s₀ : State) (acts : List Action) (i : ℕ) (u : String) : Phase → Prop
  | .answered (some row) => ReadBy s₀ acts i u row
  | .returned (some user) => (∃ e τ, Stores s₀ acts i u e τ ∧ e.user = user) ∨ Hits s₀ acts i u user
  | _ => True

theorem Justified.mono {phase : Phase} (h : Justified s₀ acts i u phase) (hacts : acts <+: acts') :
    Justified s₀ acts' i u phase := by
  cases phase with
  | answered row =>
    cases row with
    | none => trivial
    | some row => exact ReadBy.mono h hacts
  | returned user =>
    cases user with
    | none => trivial
    | some user =>
      rcases h with ⟨e, τ, hs, he⟩ | hhit
      · exact Or.inl ⟨e, τ, hs.mono hacts, he⟩
      · exact Or.inr (hhit.mono hacts)
  | reading => trivial
  | failed => trivial

/-! ## The invariant -/

/-- The cache is bounded, each of its entries has been stored by a call, a minute before it expires, and
    each call is justified. -/
structure Traced (s₀ : State) (acts : List Action) (s : State) : Prop where
  size : s.cache.size ≤ IDENTITY_CACHE_MAX_ENTRIES
  entry : ∀ k e, s.cache.get k = some e → ∃ i τ, Stores s₀ acts i k e τ ∧ i < s.calls.length ∧
    τ ≤ s.now ∧ e.expiresAt = τ + IDENTITY_CACHE_TTL_MS
  call : ∀ i u phase, s.calls[i]? = some (u, phase) → Justified s₀ acts i u phase

theorem Traced.call_mono (h : Traced s₀ acts s) (hacts : acts <+: acts') (j : ℕ) (v : String)
    (phase : Phase) (hj : s.calls[j]? = some (v, phase)) : Justified s₀ acts' j v phase :=
  (h.call j v phase hj).mono hacts

theorem Traced.call_set (h : Traced s₀ acts s) {phase : Phase} (hacts : acts <+: acts')
    (hphase : Justified s₀ acts' i u phase) (j : ℕ) (v : String) (phase' : Phase)
    (hj : (s.calls.set i (u, phase))[j]? = some (v, phase')) : Justified s₀ acts' j v phase' := by
  rw [List.getElem?_set] at hj
  split_ifs at hj with hij
  · subst hij; cases hj; exact hphase
  · exact h.call_mono hacts j v phase' hj

theorem Traced.call_append (h : Traced s₀ acts s) {phase : Phase} (hacts : acts <+: acts')
    (hphase : Justified s₀ acts' s.calls.length u phase) (j : ℕ) (v : String) (phase' : Phase)
    (hj : (s.calls ++ [(u, phase)])[j]? = some (v, phase')) : Justified s₀ acts' j v phase' := by
  rw [List.getElem?_append] at hj
  split_ifs at hj with hlt
  · exact h.call_mono hacts j v phase' hj
  · have hlen : j - s.calls.length = 0 := by
      have := (List.getElem?_eq_some_iff.1 hj).1
      simp only [List.length_singleton] at this
      omega
    obtain rfl : j = s.calls.length := by omega
    rw [hlen] at hj
    cases hj
    exact hphase

theorem Traced.entry_mono (h : Traced s₀ acts s) (hacts : acts <+: acts') {n now : ℕ}
    (hn : s.calls.length ≤ n) (hnow : s.now ≤ now) (k : String) (e : CachedIdentity)
    (hk : s.cache.get k = some e) : ∃ i τ, Stores s₀ acts' i k e τ ∧ i < n ∧ τ ≤ now ∧
      e.expiresAt = τ + IDENTITY_CACHE_TTL_MS := by
  obtain ⟨i, τ, hs, hi, hτ, he⟩ := h.entry k e hk
  exact ⟨i, τ, hs.mono hacts, hi.trans_le hn, hτ.trans hnow, he⟩

/-- A call that gets its row stores an entry. -/
theorem Traced.stores (h : Traced s₀ acts s) (hrun : s₀.run acts = some s) {row : User}
    (hi : s.calls[i]? = some (u, .answered (some row))) :
    Stores s₀ (acts ++ [.resume i]) i u
      ⟨⟨u, row.fullName, row.department⟩, s.now + IDENTITY_CACHE_TTL_MS⟩ s.now := by
  have hlt : i < s.calls.length := (List.getElem?_eq_some_iff.1 hi).1
  have hread : ReadBy s₀ acts i u row := h.call i u _ hi
  have hstep : s.step (.resume i) = some
      { s with
        cache := (resolveRow s.cache s.now u (some row)).1
        calls := s.calls.set i (u, .returned (resolveRow s.cache s.now u (some row)).2) } := by
    simp only [State.step, hi]
  refine ⟨acts, s, _, row, hread, rfl, List.prefix_rfl, hrun, rfl, hstep, ?_, ?_⟩
  · exact InsertionMap.get_set_self ..
  · exact List.getElem?_set_self hlt

theorem Traced.step (h : Traced s₀ acts s) (hrun : s₀.run acts = some s) (hstep : s.step a = some s') :
    Traced s₀ (acts ++ [a]) s' := by
  have hacts : acts <+: acts ++ [a] := List.prefix_append ..
  cases State.step_next hstep with
  | @hit u user hc =>
    refine ⟨h.size, h.entry_mono hacts (by simp) le_rfl, h.call_append hacts (Or.inr ?_)⟩
    obtain ⟨e, hk, hlt, he⟩ := cachedIdentity_eq_some.1 hc
    obtain ⟨j, τ, hs, hj, -, hexp⟩ := h.entry u e hk
    exact ⟨acts, s, j, e, τ, List.prefix_rfl, hrun, rfl, hj, hs, he, hexp ▸ hlt⟩
  | miss => exact ⟨h.size, h.entry_mono hacts (by simp) le_rfl, h.call_append hacts trivial⟩
  | @read i u hi =>
    refine ⟨h.size, h.entry_mono hacts (by simp) le_rfl, h.call_set hacts ?_⟩
    cases hrow : s.accounts u with
    | none => trivial
    | some row => exact ⟨acts, s, List.prefix_rfl, hrun, hi, hrow⟩
  | @resume i u row hi =>
    have hlt : i < s.calls.length := (List.getElem?_eq_some_iff.1 hi).1
    refine ⟨size_resolveRow h.size _ _, fun k e hk => ?_, h.call_set hacts ?_⟩
    · rw [List.length_set]
      rcases get_resolveRow hk with hk | ⟨rfl, r, rfl, rfl⟩
      · exact h.entry_mono hacts le_rfl le_rfl k e hk
      · exact ⟨i, s.now, h.stores hrun hi, hlt, le_rfl, rfl⟩
    · cases row with
      | none => trivial
      | some row => exact Or.inl ⟨_, _, h.stores hrun hi, rfl⟩
  | fail => exact ⟨h.size, h.entry_mono hacts (by simp) le_rfl, h.call_set hacts trivial⟩
  | account => exact ⟨h.size, h.entry_mono hacts le_rfl le_rfl, h.call_mono hacts⟩
  | tick => exact ⟨h.size, h.entry_mono hacts le_rfl (Nat.le_succ _), h.call_mono hacts⟩

theorem traced_init (accounts : String → Option User) :
    Traced (State.init accounts) [] (State.init accounts) where
  size := Nat.zero_le _
  entry k e hk := by cases hk
  call i u phase hi := by cases hi

theorem traced_run {accounts : String → Option User} (hrun : (State.init accounts).run acts = some s) :
    Traced (State.init accounts) acts s := by
  induction acts using List.reverseRecOn generalizing s with
  | nil => cases hrun; exact traced_init accounts
  | append_singleton acts a ih =>
    obtain ⟨t, ht, hstep⟩ := State.run_snoc.1 hrun
    exact (ih ht).step ht hstep

/-- **The identity cache is bounded and fresh**, in whatever order the calls run.  An entry is of the
    employee whose id is its key, and expires a minute after it has been stored, at the latest; a call
    returns what it has read in the database, or what an earlier call has read and stored less than a
    minute before. -/
theorem identity_cache (accounts : String → Option User)
    (hrun : (State.init accounts).run acts = some s) :
    s.cache.size ≤ 5000 ∧
    (∀ k e, s.cache.get k = some e → e.user.userId = k ∧
      ∃ i τ, Stores (.init accounts) acts i k e τ ∧ τ ≤ s.now ∧ e.expiresAt ≤ τ + 60 * 1000) ∧
    ∀ (i : ℕ) u user, s.calls[i]? = some (u, Phase.returned (some user)) → user.userId = u ∧
      ((∃ e τ, Stores (.init accounts) acts i u e τ ∧ e.user = user) ∨
        Hits (.init accounts) acts i u user) := by
  have h := traced_run hrun
  refine ⟨h.size, fun k e hk => ?_, fun i u user hi => ?_⟩
  · obtain ⟨i, τ, hs, -, hτ, he⟩ := h.entry k e hk
    exact ⟨hs.userId, i, τ, hs, hτ, he.le⟩
  · have hcall : Justified (.init accounts) acts i u (.returned (some user)) := h.call i u _ hi
    refine ⟨?_, hcall⟩
    rcases hcall with ⟨e, τ, hs, rfl⟩ | ⟨_, _, _, e, τ, _, _, _, _, hs, rfl, _⟩
    · exact hs.userId
    · exact hs.userId

def sampleAccounts (u : String) : Option User :=
  if u = "EMP00101" then some ⟨"Seller", none, some "020 5555 0101", none, none, 0⟩ else none

/-- The second call comes when the first one has stored the identity. -/
def sampleHit : List Action := [.call "EMP00101", .read 0, .resume 0, .tick, .call "EMP00101"]

/-- Both calls return the identity, and it is of the employee. -/
theorem identity_cache_sample : ∃ s, (State.init sampleAccounts).run sampleHit = some s ∧
    s.calls.length = 2 ∧ s.cache.size ≤ 5000 ∧
    ∀ (i : ℕ) u user, s.calls[i]? = some (u, Phase.returned (some user)) → user.userId = u := by
  obtain ⟨s, hrun, hlen⟩ : ∃ s, (State.init sampleAccounts).run sampleHit = some s ∧
      decide (s.calls.length = 2) = true :=
    (Option.any_eq_true ..).1 (by decide)
  obtain ⟨hsize, -, hcalls⟩ := identity_cache sampleAccounts hrun
  exact ⟨s, hrun, of_decide_eq_true hlen, hsize, fun i u user hi => (hcalls i u user hi).1⟩

end Marketplace.Identity
