/-
  Badges: the unread count of an event is counted before, and another request
  can mark notifications as read in between.
-/
import Marketplace.Proof.OrderNotifications
import Marketplace.Proof.RoomNames

namespace Marketplace

open ReadCommitted

variable {cfg : Config} {base : Database → Prop} {q : Request cfg} {e : Event} {L : List Key}
  {d d' : Database}

/-- How many notifications an employee has not read. -/
def unreadOf (u : String) (d : Database) : ℕ :=
  (d.notifications.rows.filter fun x => x.2.userId = u && !x.2.isRead).length

/-! ## What a commit does to the count -/

/-- Notifications that are not new do not become unread. -/
theorem Emits.unreadOf_le (he : Emits cfg base q e L d d') {u : String}
    (hnew : ∀ n r, e = .notify n r → r.userId ≠ u) : unreadOf u d' ≤ unreadOf u d := by
  have other (h : d'.notifications = d.notifications) : unreadOf u d' ≤ unreadOf u d := by
    rw [unreadOf, h]; rfl
  cases he with
  | listItem | setItemStatus | placeOrder | completeOrder | attachSlip | saveProfile | sendMessage
  | clearToken | forgetToken => exact other rfl
  | cancelOrder => exact other (by simp)
  | claimToken hc => obtain ⟨t, rfl⟩ := hc.frame; exact other rfl
  | readMessages _ hr => obtain ⟨t, rfl⟩ := hr.frame; exact other rfl
  | @notify _ n r _ _ _ hn =>
    have hrows : (d.put (.notification n) r).notifications.rows = (n, r) :: d.notifications.rows :=
      Table.rows_put_new hn r
    simp [unreadOf, hrows, hnew n r rfl]
  | readNotifications _ hr =>
    refine Table.length_filter_le (p := fun x : Notification => x.userId = u && !x.isRead) fun n hn => ?_
    rcases hr.rows n with h | ⟨r, -, -, h⟩
    · rwa [← h]
    · simp [h] at hn

/-- A commit that adds no notification of the employee leaves them no more to read. -/
theorem unreadOf_commit {R : Regime cfg} {c : Commit market (Request cfg)} {u : String}
    (hc : R.spec.Publishes c e) (hnew : ∀ x ∈ added c, x.2.userId ≠ u) :
    unreadOf u (overlay c.writes c.db) ≤ unreadOf u c.db := by
  have hn : ∀ n r, e = .notify n r → r.userId ≠ u := by
    rintro n r rfl
    exact hnew (n, r) (by rw [added_of_notify hc]; exact List.mem_singleton_self _)
  obtain ⟨-, -, -, log, L, -, he, -⟩ := hc
  exact Emits.unreadOf_le he hn

/-! ## The count of an event -/

/-- The count of an event is of what the session has read last. -/
def Counted (l : List Database) : Call → Prop
  | .socket (.emit rooms _ (.notificationsRead _ n)) =>
    ∃ u d, rooms = [userRoom u] ∧ l.getLast? = some d ∧ n = unreadOf u d
  | _ => True

section
variable {l : List Database}

theorem cites_emitRead (u : String) (id : Option ℤ) (r : Response) :
    (NotificationsService.emitRead u id (answer r)).Cites Counted l :=
  ⟨fun d => ⟨⟨u, d, rfl, by simp, rfl⟩, fun _ => trivial⟩, fun _ _ => trivial⟩

theorem counted_program {u : String} (hq : q.marks? = some u) :
    (program cfg q).Cites Counted l := by
  cases q with
  | markNotificationRead v id =>
    refine .tx fun l x => ?_
    match x with
    | .error _ => trivial
    | .ok none => trivial
    | .ok (some n) =>
      dsimp only
      split_ifs
      · trivial
      · refine .tx fun l x => ?_
        cases x with
        | error => trivial
        | ok => exact cites_emitRead ..
  | markAllNotificationsRead v =>
    refine .tx fun l x => ?_
    cases x with
    | error => trivial
    | ok count =>
      dsimp only
      split_ifs
      · exact cites_emitRead ..
      · trivial
  | _ => cases hq

theorem callsLast_emitRead (u : String) (id : Option ℤ) (r : Response) :
    (NotificationsService.emitRead u id (answer r)).CallsLast := by
  intro x
  cases x with
  | ok n => exact fun _ => ⟨_, rfl⟩
  | error => trivial

theorem callsLast_program {u : String} (hq : q.marks? = some u) : (program cfg q).CallsLast := by
  cases q with
  | markNotificationRead v id =>
    intro x
    match x with
    | .error _ => trivial
    | .ok none => trivial
    | .ok (some n) =>
      dsimp only
      split_ifs
      · trivial
      · intro x
        cases x with
        | error => trivial
        | ok => exact callsLast_emitRead _ _ _
  | markAllNotificationsRead v =>
    intro x
    cases x with
    | error => trivial
    | ok count =>
      dsimp only
      split_ifs
      · exact callsLast_emitRead _ _ _
      · trivial
  | _ => cases hq

end

/-! ## Runs -/

/-- The session and the count of an event about the notifications of `u`. -/
def badge? (u : String) : ℕ × Call → Option (ℕ × ℕ)
  | (j, .socket (.emit rooms _ (.notificationsRead _ n))) =>
    if rooms = [userRoom u] then some (j, n) else none
  | _ => none

/-- The last event of a run from `s₀` to `s` about the notifications of `u`. -/
def lastBadge (u : String) (s₀ s : AppState cfg) : Option (ℕ × ℕ) :=
  ((s.calls.drop s₀.calls.length).filterMap (badge? u)).getLast?

theorem badge?_eq_some {u : String} {x : ℕ × Call} {j n : ℕ} (h : badge? u x = some (j, n)) :
    ∃ rooms except id, x = (j, .socket (.emit rooms except (.notificationsRead id n))) ∧
      rooms = [userRoom u] := by
  unfold badge? at h
  split at h
  · obtain ⟨hr, h⟩ := Option.ite_none_right_eq_some.1 h
    cases h
    exact ⟨_, _, _, rfl, hr⟩
  · cases h

section
variable {users : Table String User} {pre acts : List (AppAction cfg)} {s₀ s : AppState cfg}
  {u : String} {j n : ℕ}

/-- The requests that mark the notifications of `u` as read are finished. -/
def MarksDone (u : String) (s : AppState cfg) : Prop :=
  ∀ (i : ℕ) q st, s.sessions[i]? = some (q, st) → q.marks? = some u → st.reply? ≠ none

/-- The count of the last event is the one its session has read last, during the run. -/
theorem counted_last (hpre : runs cfg users pre = some s₀) (hdone : MarksDone u s₀)
    (hrun : s₀.run (program cfg) acts = some s) (hlast : lastBadge u s₀ s = some (j, n)) :
    ∃ d, (s₀.reads (program cfg) j acts).getLast? = some d ∧ n = unreadOf u d := by
  have hall : runs cfg users (pre ++ acts) = some s := by rw [runs_append, hpre]; exact hrun
  -- the call
  obtain ⟨l, hl, hnew⟩ := State.run_calls hrun
  rw [lastBadge, hl, List.drop_left] at hlast
  obtain ⟨x, hx, hbadge⟩ := List.mem_filterMap.1 (List.mem_of_getLast? hlast)
  obtain ⟨rooms, except, id, rfl, hrooms⟩ := badge?_eq_some hbadge
  have hmem : (j, Call.socket (.emit rooms except (.notificationsRead id n))) ∈ s.calls :=
    hl ▸ List.mem_append_right _ hx
  obtain ⟨q, st, log, hj, v, hq, hv, -⟩ := runs_called hall hmem
  obtain rfl : u = v := userRoom_inj (List.singleton_inj.1 (hrooms.symm.trans hv))
  -- its session is new
  have hnone : s₀.sessions[j]? = none := by
    by_contra h
    obtain ⟨⟨q₀, st₀⟩, h₀⟩ := Option.ne_none_iff_exists'.1 h
    obtain ⟨st', hj'⟩ := State.session_run hrun h₀
    cases hj'.symm.trans hj
    exact hdone j q st₀ h₀ hq (hnew _ hx q st₀ h₀)
  obtain ⟨q', st', hj', hcalled⟩ := State.run_called
    (A := fun q : Request cfg => q.marks?.isSome = true) (C := Counted)
    (fun q hq => (Option.isSome_iff_exists.1 hq).elim fun _ => counted_program)
    (fun q hq => (Option.isSome_iff_exists.1 hq).elim fun _ => callsLast_program)
    (fun _ _ => runs_guarded) hall hmem
  cases hj'.symm.trans hj
  obtain ⟨-, v, d, hv', hd, hn⟩ := hcalled (by rw [hq]; rfl)
  obtain rfl : u = v := userRoom_inj (List.singleton_inj.1 (hrooms.symm.trans hv'))
  have hnil : (start cfg users).reads (program cfg) j pre = [] := State.reads_eq_nil hpre hnone
  have hd : ((start cfg users).reads (program cfg) j (pre ++ acts)).getLast? = some d := hd
  rw [State.reads_append hpre, hnil, List.nil_append] at hd
  exact ⟨d, hd, hn⟩

/-- No commit after the last SELECT of session `j` changes how many notifications `u` has not read. -/
def CountKept (s₀ : AppState cfg) (acts : List (AppAction cfg)) (u : String) (j : ℕ) : Prop :=
  ∀ as b bs t c, acts = as ++ b :: bs → s₀.run (program cfg) as = some t → t.commit? b = some c →
    s₀.reads (program cfg) j as = s₀.reads (program cfg) j acts →
    unreadOf u (overlay c.writes c.db) = unreadOf u c.db

/-- **Badges converge** in a run that creates no notification of the employee if and only if nothing is
    marked as read between the count of the last event and the end. -/
theorem badges_converge_iff (hpre : runs cfg users pre = some s₀) (hdone : MarksDone u s₀)
    (hrun : s₀.run (program cfg) acts = some s)
    (hnew : ∀ c ∈ s₀.commits (program cfg) acts, ∀ x ∈ added c, x.2.userId ≠ u)
    (hlast : lastBadge u s₀ s = some (j, n)) :
    n = unreadOf u s.db ↔ CountKept s₀ acts u j := by
  obtain ⟨d, hd, rfl⟩ := counted_last hpre hdone hrun hlast
  have hmono : ∀ c ∈ s₀.commits (program cfg) acts,
      unreadOf u (overlay c.writes c.db) ≤ unreadOf u c.db := by
    intro c hc
    have hall : runs cfg users (pre ++ acts) = some s := by rw [runs_append, hpre]; exact hrun
    have hmem : c ∈ (start cfg users).commits (program cfg) (pre ++ acts) := by
      rw [State.commits_append hpre]; exact List.mem_append_right _ hc
    obtain ⟨e, he⟩ := (start_sim .any trivial).publishes
      (fun q _ => program_ok q) (fun _ _ => trivial) hall hmem
    exact unreadOf_commit he (hnew c hc)
  constructor
  · intro heq as b bs t c hacts ht hc hreads
    -- the number falls from the count to the one in the end
    have hsub : ∀ as' b' bs' t' c', as = as' ++ b' :: bs' → s₀.run (program cfg) as' = some t' →
        t'.commit? b' = some c' → c' ∈ s₀.commits (program cfg) acts := fun as' b' bs' t' c' h ht' hc' =>
      (State.mem_commits hrun).2 ⟨as', b', bs' ++ b :: bs, t', by simp [hacts, h], ht', hc'⟩
    have hle : unreadOf u t.db ≤ unreadOf u d :=
      State.since_read (S := market) (P := fun d' => unreadOf u d' ≤ unreadOf u d) ht
        (hreads ▸ hd) le_rfl fun as' b' bs' t' c' h ht' hc' _ hle =>
        (hmono c' (hsub as' b' bs' t' c' h ht' hc')).trans hle
    have hmem := (State.mem_commits hrun).2 ⟨as, b, bs, t, hacts, ht, hc⟩
    rw [hacts, State.run_append, ht, Option.bind_some, State.run,
      Option.bind_eq_some_iff] at hrun
    obtain ⟨t', hstep, hrest⟩ := hrun
    obtain ⟨hcd, hdb⟩ := State.commit?_step hstep hc
    have hend : unreadOf u s.db ≤ unreadOf u t'.db := by
      refine State.run_keeps (S := market) (P := fun d' => unreadOf u d' ≤ unreadOf u t'.db) hrest
        le_rfl fun c' hc' hle => (hmono c' ?_).trans hle
      rw [hacts, State.commits_append ht]
      exact List.mem_append_right _ (List.mem_append_right _ (by rw [hstep]; exact hc'))
    have := hmono c hmem
    rw [hdb] at hend
    rw [hcd] at this hend ⊢
    omega
  · intro hkept
    refine (State.since_read (S := market) (P := fun d' => unreadOf u d' = unreadOf u d) hrun hd rfl
      fun as b bs t c hacts ht hc hreads heq => ?_).symm
    rw [hkept as b bs t c hacts ht hc hreads, heq]

end

/-- The seller has two unread notifications: of the order, and that the buyer has cancelled it. -/
def sampleNotified : List (AppAction sample) :=
  perform 0 6 (.createItem "EMP00101" sampleUnit) ++
    perform 1 12 (.createOrder "EMP00102" sampleOrder) ++ [.answer 1 .done] ++
    perform 2 14 (.updateOrderStatus 1 "EMP00102" ⟨.cancelled, cancelled_in⟩) ++ [.answer 2 .done]

/-- The seller marks one of the notifications as read. -/
def sampleMark (n : ℤ) : Request sample := .markNotificationRead "EMP00101" n

/-- The seller marks both as read, the second after the first. -/
def sampleMarked : List (AppAction sample) :=
  perform 3 10 (sampleMark 1) ++ [.answer 3 .done] ++ perform 4 10 (sampleMark 2) ++
    [.answer 4 .done]

/-- The second is marked as read between the count of the first request and its event. -/
def sampleOvertaken : List (AppAction sample) :=
  perform 3 9 (sampleMark 1) ++ perform 4 10 (sampleMark 2) ++
    [.exec 3, .answer 3 .done, .answer 4 .done]

/-- All that can be computed of a run of the samples: it has finished, nothing is created in it, the last
    count is the one of session `j`, and it is `n`, as many as the seller has not read if `ok`. -/
def lastCount (j n m : ℕ) (acts : List (AppAction sample)) (s₀ : AppState sample) : Bool :=
  s₀.sessions.all (fun p => p.2.reply?.isSome) &&
  (s₀.commits (program sample) acts).all (fun c => (added c).isEmpty) &&
  (s₀.run (program sample) acts).any fun s =>
    s.sessions.all (fun p => p.2.reply?.isSome) &&
    decide (lastBadge "EMP00101" s₀ s = some (j, n)) && decide (unreadOf "EMP00101" s.db = m)

theorem lastCount_run (j n m : ℕ) (acts : List (AppAction sample))
    (h : (runs sample sampleUsers sampleNotified).map (lastCount j n m acts) = some true) :
    ∃ s₀ s, runs sample sampleUsers sampleNotified = some s₀ ∧ MarksDone "EMP00101" s₀ ∧
      s₀.run (program sample) acts = some s ∧ MarksDone "EMP00101" s ∧
      (∀ c ∈ s₀.commits (program sample) acts, ∀ x ∈ added c, x.2.userId ≠ "EMP00101") ∧
      lastBadge "EMP00101" s₀ s = some (j, n) ∧ unreadOf "EMP00101" s.db = m := by
  obtain ⟨s₀, hpre, h⟩ := reaches h
  simp only [lastCount, Bool.and_eq_true, List.all_eq_true, List.isEmpty_iff, Option.any_eq_true,
    decide_eq_true_eq] at h
  obtain ⟨⟨hdone, hnew⟩, s, hrun, ⟨hend, hlast⟩, hunread⟩ := h
  have done {s : AppState sample} (h : ∀ p ∈ s.sessions, p.2.reply?.isSome = true) :
      MarksDone "EMP00101" s := fun i q st hi _ hr => by
    have := h _ (List.mem_of_getElem? hi)
    rw [hr] at this; cases this
  refine ⟨s₀, s, hpre, done hdone, hrun, done hend, fun c hc x hx => ?_, hlast, hunread⟩
  rw [hnew c hc] at hx; cases hx

/-- One after the other, the last event tells that nothing is unread. -/
theorem badges_converge_sample : ∃ s₀ s, runs sample sampleUsers sampleNotified = some s₀ ∧
    s₀.run (program sample) sampleMarked = some s ∧
    lastBadge "EMP00101" s₀ s = some (4, 0) ∧ CountKept s₀ sampleMarked "EMP00101" 4 := by
  obtain ⟨s₀, s, hpre, hdone, hrun, -, hnew, hlast, hunread⟩ :=
    lastCount_run 4 0 0 sampleMarked (by decide +kernel)
  exact ⟨s₀, s, hpre, hrun, hlast,
    (badges_converge_iff hpre hdone hrun hnew hlast).1 hunread.symm⟩

/-- All requests have finished and nothing is unread, but the last event tells that one is. -/
theorem badges_counterexample : ∃ s₀ s, runs sample sampleUsers sampleNotified = some s₀ ∧
    MarksDone "EMP00101" s₀ ∧ s₀.run (program sample) sampleOvertaken = some s ∧
    MarksDone "EMP00101" s ∧
    (∀ c ∈ s₀.commits (program sample) sampleOvertaken, ∀ x ∈ added c, x.2.userId ≠ "EMP00101") ∧
    ∃ j n, lastBadge "EMP00101" s₀ s = some (j, n) ∧ n ≠ unreadOf "EMP00101" s.db := by
  obtain ⟨s₀, s, hpre, hdone, hrun, hend, hnew, hlast, hunread⟩ :=
    lastCount_run 3 1 0 sampleOvertaken (by decide +kernel)
  exact ⟨s₀, s, hpre, hdone, hrun, hend, hnew, 3, 1, hlast, by rw [hunread]; decide⟩

end Marketplace
