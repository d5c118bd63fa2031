/-
  The tokens of devices: with the index on them, each is held by one employee,
  and they are what running the committed requests one by one would leave.
-/
import Marketplace.Proof.Unread
import Marketplace.Proof.Responses
import Marketplace.Lib.TwoRun
import Marketplace.Lib.UniqueIndex

namespace Marketplace

open ReadCommitted

variable {cfg : Config} {base : Database → Prop} {q : Request cfg} {e : Event} {L : List Key}
  {d d' : Database}

/-- The index on the tokens of devices. -/
def UQ_users_fcm_token : UniqueIndex market String where
  val
    | .user _, r => User.fcmToken r
    | .item _, _ | .order _, _ | .message _, _ | .notification _, _ => none
  holders d t := (d.users.rows.filter fun x => x.2.fcmToken = some t).map fun x => .user x.1
  mem_holders {d t k} := by
    cases k with
    | user u =>
      have : (Database.get d (.user u)).bind User.fcmToken = some t ↔
          ∃ r, d.users.get u = some r ∧ r.fcmToken = some t := Option.bind_eq_some_iff
      simp [Table.mem_rows, this]
    | item | order | message | notification => simp

/-- The token of an employee. -/
def tokenOf (d : Database) (u : String) : Option (Option String) := (d.users.get u).map User.fcmToken

theorem tokenOf_eq_some {u : String} {t : Option String} :
    tokenOf d u = some t ↔ ∃ r, d.users.get u = some r ∧ r.fcmToken = t := Option.map_eq_some_iff

theorem unique_iff : UQ_users_fcm_token.Unique d ↔
    ∀ u v t, tokenOf d u = some (some t) → tokenOf d v = some (some t) → u = v := by
  have holds {u t} : UQ_users_fcm_token.Holds d (.user u) t ↔ tokenOf d u = some (some t) := by
    rw [tokenOf_eq_some]
    exact Option.bind_eq_some_iff
  refine ⟨fun h u v t hu hv => Key.user.inj (h _ _ t (holds.2 hu) (holds.2 hv)), fun h => ?_⟩
  intro k k' t hk hk'
  cases k with
  | user u =>
    cases k' with
    | user v => rw [h u v t (holds.1 hk) (holds.1 hk')]
    | item | order | message | notification => simp [UniqueIndex.Holds, UQ_users_fcm_token] at hk'
  | item | order | message | notification => simp [UniqueIndex.Holds, UQ_users_fcm_token] at hk

/-! ## Requests on tokens -/

/-- The stale-token clear that `sendToUser` issues. -/
def clearStale (userId token : String) : Transaction ℕ :=
  .update (.user userId) (fun (u : User) => u.fcmToken = some token)
    (fun (u : User) => { u with fcmToken := none }) .commit

/-- A request on tokens: a claim, a clear, or the stale-token clear of a push. -/
inductive TokenOp where
  | claim (userId : String) (dto : UpdateFcmTokenDto)
  | clear (userId : String)
  | stale (userId token : String)

namespace TokenOp

def program : TokenOp → Program
  | claim userId dto => UsersService.updateFcmToken userId dto
  | clear userId => UsersService.clearFcmToken userId
  | stale userId token => .tx (clearStale userId token) fun _ => answer .tokenCleared

/-- The database after the request alone. -/
def run (op : TokenOp) (d : Database) : Database :=
  (op.program.eval (S := market) (fun _ => .done) 0 d fun _ => 1).1

/-- What the request does to the tokens. -/
def apply : TokenOp → (String → Option (Option String)) → String → Option (Option String)
  | claim u dto, f, v =>
    (f v).map fun t => if v = u then some dto.fcmToken else if t = some dto.fcmToken then none else t
  | clear u, f, v => (f v).map fun t => if v = u then none else t
  | stale u token, f, v => (f v).map fun t => if v = u ∧ t = some token then none else t

/-- The request does not fail. -/
def Possible : TokenOp → (String → Option (Option String)) → Prop
  | claim u _, f => (f u).isSome
  | clear _, _ | stale .., _ => True

end TokenOp

theorem ClaimsToken.tokens {u : String} {dto : UpdateFcmTokenDto}
    (h : ClaimsToken u dto.fcmToken d d')
    (hno : ∀ v ≠ u, tokenOf d' v ≠ some (some dto.fcmToken)) :
    tokenOf d' = (TokenOp.claim u dto).apply (tokenOf d) := by
  funext v
  by_cases hv : v = u
  · subst hv
    obtain ⟨r, hr, hr'⟩ := h.own
    simp [TokenOp.apply, tokenOf, hr, hr']
  · rcases h.others v hv with hr | ⟨r, hr, ht, hr'⟩
    · have hno := hno v hv
      simp only [TokenOp.apply, tokenOf, hr, hv, if_false] at hno ⊢
      cases hd : d.users.get v with
      | none => rfl
      | some r =>
        rw [hd] at hno
        have ht : r.fcmToken ≠ some dto.fcmToken := by simpa using hno
        simp [ht]
    · simp [TokenOp.apply, tokenOf, hr, hr', hv, ht]

/-- The rows of a table that are selected, with their keys. -/
def selected (d : Database) (p : String → User → Bool) : List (Σ _ : String, User) :=
  (d.users.rows.filter fun x => p x.1 x.2).map fun x => ⟨x.1, x.2⟩

theorem mem_selected {p : String → User → Bool} {x : Σ _ : String, User} :
    x ∈ selected d p ↔ d.users.get x.1 = some x.2 ∧ p x.1 x.2 = true := by
  obtain ⟨u, r⟩ := x
  simp [selected, ← Table.mem_rows]

theorem TokenOp.run_claim {u : String} {dto : UpdateFcmTokenDto} {r : User}
    (hr : d.users.get u = some r) : (TokenOp.claim u dto).run d = overlay (S := market)
      (Spec.writesOf (S := market) Key.user withoutToken
          (selected d fun v x => x.fcmToken = some dto.fcmToken && v ≠ u) ++
        [⟨.user u, ({ r with fcmToken := some dto.fcmToken } : User)⟩]) d := by
  generalize hp : (fun (v : String) (x : User) =>
    decide (x.fcmToken = some dto.fcmToken) && decide (v ≠ u)) = p
  have hids : (d.users.rows.filter fun x => x.2.fcmToken = some dto.fcmToken && x.1 ≠ u).map Prod.fst =
      (selected d p).map Sigma.fst := by
    simp [selected, ← hp, Function.comp_def]
  have hnodup : ((selected d p).map Sigma.fst).Nodup := by
    rw [← hids]
    exact d.users.nodup_filter_fst _
  have hne : ∀ w ∈ Spec.writesOf (S := market) Key.user withoutToken (selected d p),
      w.1 ≠ Key.user u := by
    intro w hw e
    obtain ⟨x, hx, rfl⟩ := List.mem_map.1 hw
    have := (mem_selected.1 hx).2
    simp only [← hp, Bool.and_eq_true, decide_eq_true_eq] at this
    exact this.2 (Key.user.inj e)
  have heach := Tx.eval_updateEach (S := market) (d := d)
    (p := fun v (x : User) => p v x) (f := withoutToken)
    (k := fun _ => .update (.user u) (fun _ => true)
      (fun (x : User) => { x with fcmToken := some dto.fcmToken }) fun _ => .commit ())
    user_injective 0 (fun _ => 1) (selected d p) hnodup 0 [] fun x hx => mem_selected.1 hx
  have hget : Database.get (overlay (S := market)
      (Spec.writesOf (S := market) Key.user withoutToken (selected d p)) d) (.user u) = some r :=
    (get_overlay_of_ne hne).trans hr
  have hbody : (UsersService.updateFcmTokenTx u dto.fcmToken).eval (S := market) d 0 [] (fun _ => 1) =
      (fun _ => 1, .ok ((), Spec.writesOf (S := market) Key.user withoutToken (selected d p) ++
        [⟨.user u, ({ r with fcmToken := some dto.fcmToken } : User)⟩])) := by
    simp only [UsersService.updateFcmTokenTx, Tx.eval, overlay_nil, hr, Option.isSome_some, if_true,
      hids, hp]
    refine heach.trans ?_
    simp only [Tx.eval, List.nil_append, hget, if_true]
  simp only [TokenOp.run, TokenOp.program, UsersService.updateFcmToken, Req.eval, hbody]
  rfl

theorem TokenOp.tokens_claim {u : String} {dto : UpdateFcmTokenDto} (hu : (tokenOf d u).isSome) :
    tokenOf ((TokenOp.claim u dto).run d) = (TokenOp.claim u dto).apply (tokenOf d) := by
  obtain ⟨r, hr⟩ : ∃ r, d.users.get u = some r := by
    simpa [tokenOf, Option.isSome_iff_exists] using hu
  rw [TokenOp.run_claim hr]
  generalize hsel : selected d (fun v x => x.fcmToken = some dto.fcmToken && v ≠ u) = ks
  have hks {x : Σ _ : String, User} : x ∈ ks ↔ d.users.get x.1 = some x.2 ∧
      x.2.fcmToken = some dto.fcmToken ∧ x.1 ≠ u := by
    rw [← hsel, mem_selected]; simp
  have hclaims := claimsToken_overlay ks (fun x hx => (hks.1 hx).2.1) (fun x hx => (hks.1 hx).1) hr
  refine hclaims.tokens fun v hv ht => ?_
  obtain ⟨x, hx, ht⟩ := tokenOf_eq_some.1 ht
  rw [overlay_append] at hx
  have hx : Database.get (overlay (S := market)
      (Spec.writesOf (S := market) Key.user withoutToken ks) d) (.user v) = some x :=
    (Database.get_put_ne _ _ _ _ fun e => hv (Key.user.inj e)).symm.trans hx
  by_cases hm : v ∈ ks.map Sigma.fst
  · obtain ⟨r', -, hr'⟩ := Spec.get_overlay_writesOf (S := market) (f := withoutToken) (d := d)
      user_injective hm
    have hx' := hx.symm.trans hr'
    cases hx'
    cases ht
  · -- another holder would have been selected
    have hold : Database.get d (.user v) = some x := by
      rw [← hx]
      refine (get_overlay_of_ne (S := market) (k := Key.user v) (d := d) fun w hw e => hm ?_).symm
      obtain ⟨y, hy, rfl⟩ := List.mem_map.1 hw
      exact List.mem_map.2 ⟨y, hy, Key.user.inj e⟩
    exact hm (List.mem_map.2 ⟨⟨v, x⟩, hks.2 ⟨hold, ht, hv⟩, rfl⟩)

theorem tokenOf_put {u : String} {r : User} (hr : d.users.get u = some r) (r' : User) (v : String) :
    tokenOf (d.put (.user u) r') v = (tokenOf d v).map fun t => if v = u then r'.fcmToken else t := by
  simp only [tokenOf, Database.put, Table.get_put_eq]
  by_cases hv : v = u
  · subst hv; simp [hr]
  · cases d.users.get v <;> simp [hv]

theorem TokenOp.tokens_clear (u : String) :
    tokenOf ((TokenOp.clear u).run d) = (TokenOp.clear u).apply (tokenOf d) := by
  funext v
  cases hu : d.users.get u with
  | none =>
    have hget : Database.get d (.user u) = none := hu
    simp only [TokenOp.run, TokenOp.program, UsersService.clearFcmToken, Req.eval, Tx.eval, overlay_nil,
      hget, TokenOp.apply]
    by_cases hv : v = u
    · subst hv; simp [tokenOf, hu, Req.eval, answer]
    · simp [hv, Req.eval, answer]
  | some r =>
    rw [TokenOp.run, TokenOp.program, UsersService.clearFcmToken,
      eval_update (show Database.get d (.user u) = some r from hu) rfl]
    exact (tokenOf_put hu _ v).trans rfl

theorem TokenOp.tokens_stale (u t : String) :
    tokenOf ((TokenOp.stale u t).run d) = (TokenOp.stale u t).apply (tokenOf d) := by
  funext v
  by_cases ht : tokenOf d u = some (some t)
  · obtain ⟨r, hr, hrt⟩ := tokenOf_eq_some.1 ht
    rw [TokenOp.run, TokenOp.program, clearStale,
      eval_update (show Database.get d (.user u) = some r from hr) (by simpa using hrt)]
    refine (tokenOf_put hr _ v).trans ?_
    simp only [TokenOp.apply]
    by_cases hv : v = u
    · subst hv; simp [ht]
    · simp [hv]
  · -- the row is not there, or its token is another one
    have hrun : (TokenOp.stale u t).run d = d := by
      simp only [TokenOp.run, TokenOp.program, clearStale, Req.eval, Tx.eval, overlay_nil]
      cases hr : Database.get d (.user u) with
      | none => rfl
      | some r =>
        have hne : ¬ r.fcmToken = some t := fun h => ht (tokenOf_eq_some.2 ⟨r, hr, h⟩)
        simp only [hne, decide_false, Bool.false_eq_true, if_false]
        rfl
    rw [hrun, TokenOp.apply]
    by_cases hv : v = u
    · subst hv
      cases hd : tokenOf d v with
      | none => rfl
      | some t' =>
        have hne : t' ≠ some t := fun h => ht (h ▸ hd)
        simp [hne]
    · simp [hv]

/-- **A request on tokens alone** does to them what it is for. -/
theorem TokenOp.tokens_run (op : TokenOp) (hp : op.Possible (tokenOf d)) :
    tokenOf (op.run d) = op.apply (tokenOf d) := by
  cases op with
  | claim u dto => exact tokens_claim hp
  | clear u => exact tokens_clear u
  | stale u t => exact tokens_stale u t

/-! ## Commits -/

/-- What a commit of a request does to tokens, after its calls. -/
def tokenOp? (q : Request cfg) (calls : List Call) : Option TokenOp :=
  match q with
  | .updateFcmToken userId dto => some (.claim userId dto)
  | .clearFcmToken userId => some (.clear userId)
  | .createOrder .. | .updateOrderStatus .. | .attachPaymentSlip .. =>
    match calls.getLast? with
    -- after a message to FCM only the token it was sent to is cleared
    | some (.fcm m) => some (.stale m.notification.userId m.token)
    | _ => none
  | _ => none

theorem tokenOp?_nil (h : q.notifies = true) : tokenOp? q [] = none := by
  cases q <;> first | rfl | cases h

theorem tokenOp?_fcm (h : q.notifies = true) (calls : List Call) (m : PushMessage) :
    tokenOp? q (calls ++ [.fcm m]) = some (.stale m.notification.userId m.token) := by
  cases q with
  | createOrder | updateOrderStatus | attachPaymentSlip =>
    simp only [tokenOp?, List.getLast?_append, List.getLast?_singleton, Option.some_or]
  | _ => cases h

/-- What the commits of a request do to tokens: nothing, or what the request is for. -/
inductive CommitsTokens (d d' : Database) : Option TokenOp → Prop
  | none : tokenOf d' = tokenOf d → CommitsTokens d d' none
  | claim {u dto} : ClaimsToken u dto.fcmToken d d' → CommitsTokens d d' (some (.claim u dto))
  | clear {u r} : d.users.get u = some r → d' = d.put (.user u) { r with fcmToken := .none } →
    CommitsTokens d d' (some (.clear u))
  | stale {u t r} : d.users.get u = some r → r.fcmToken = some t →
    d' = d.put (.user u) { r with fcmToken := .none } → CommitsTokens d d' (some (.stale u t))

theorem commitsTokens {R : Regime cfg} {c : Commit market (Request cfg)}
    (hc : R.spec.Publishes c e) :
    CommitsTokens c.db (overlay c.writes c.db) (tokenOp? c.request c.calls) := by
  obtain ⟨-, -, -, log, L, hcalls, he, hcaused⟩ := hc
  have he : Emits cfg R.base c.request e L c.db (overlay c.writes c.db) := he
  rw [hcalls]
  generalize c.request = q at he hcaused
  generalize overlay c.writes c.db = d' at he
  generalize c.db = d at he
  cases he with
  | listItem | setItemStatus | sendMessage => exact .none rfl
  | placeOrder | completeOrder | attachSlip => cases hcaused; exact .none rfl
  | cancelOrder => cases hcaused; exact .none (funext fun v => by simp [tokenOf])
  | @saveProfile u dto r₀ r₁ r _ _ _ _ _ _ _ _ _ hr =>
    refine .none (funext fun v => ?_)
    rw [tokenOf_put hr, show (savedRow cfg u dto r₀ r₁ r).fcmToken = r.fcmToken from rfl]
    by_cases hv : v = u
    · subst hv; simp [tokenOf, hr]
    · simp [hv]
  | readMessages hq hr =>
    obtain ⟨t, rfl⟩ := hr.frame
    rcases Request.conversation?_user hq with ⟨dto, rfl⟩ | ⟨client, dto, rfl, -⟩ <;> exact .none rfl
  | notify hq =>
    obtain ⟨o, e, rfl, -⟩ := hcaused
    rw [show List.filterMap Log.call? [.emit e] = [] from rfl, tokenOp?_nil hq]
    exact .none rfl
  | readNotifications hq hr =>
    obtain ⟨t, rfl⟩ := hr.frame
    rcases hq with ⟨n, rfl⟩ | rfl <;> exact .none rfl
  | claimToken h => exact .claim h
  | clearToken hr => exact .clear hr rfl
  | forgetToken hq hr ht =>
    obtain ⟨log, m, rfl, rfl, rfl⟩ := hcaused
    rw [List.filterMap_append]
    change CommitsTokens _ _ (tokenOp? q (log.filterMap Log.call? ++ [Call.fcm m]))
    rw [tokenOp?_fcm hq]
    exact .stale hr ht rfl

/-- **A commit does to the tokens what its request does alone**, if the tokens are unique after it. -/
theorem CommitsTokens.apply {op : TokenOp} (h : CommitsTokens d d' (some op))
    (hu : UQ_users_fcm_token.Unique d') :
    op.Possible (tokenOf d) ∧ tokenOf d' = op.apply (tokenOf d) := by
  generalize ho : some op = o at h
  cases h with
  | none => cases ho
  | @claim u dto hc =>
    cases ho
    obtain ⟨r, hr, hr'⟩ := hc.own
    refine ⟨by simp [TokenOp.Possible, tokenOf, hr], hc.tokens fun v hv ht => hv ?_⟩
    exact unique_iff.1 hu v u _ ht (tokenOf_eq_some.2 ⟨_, hr', rfl⟩)
  | @clear u r hr hd =>
    cases ho
    subst hd
    exact ⟨trivial, funext fun v => tokenOf_put hr _ v⟩
  | @stale u t r hr ht hd =>
    cases ho
    subst hd
    refine ⟨trivial, funext fun v => (tokenOf_put hr _ v).trans ?_⟩
    simp only [TokenOp.apply]
    by_cases hv : v = u
    · subst hv; simp [tokenOf, hr, ht]
    · simp [hv]

/-! ## Runs -/

section
variable {users : Table String User} {acts : List (AppAction cfg)} {s : AppState cfg}

variable (cfg users acts) in
/-- The requests on tokens a run has committed, in the order of their commits. -/
def committed : List TokenOp :=
  (commitsOf cfg users acts).filterMap fun c => tokenOp? c.request c.calls

variable (users) in
/-- The employees' tokens after requests have run one after another. -/
def serial (ops : List TokenOp) : Database := ops.foldl (fun d op => op.run d) (.migrated users)

theorem runs_exclusive (hrun : runs cfg users acts = some s) : s.Exclusive := by
  obtain ⟨h, hs⟩ := runs_sim_any hrun
  exact hs.exclusive

theorem runs_ok (h₀ : UQ_users_fcm_token.Unique (.migrated users))
    (hrun : UQ_users_fcm_token.run (program cfg) (start cfg users) acts = some s) :
    UQ_users_fcm_token.Ok s :=
  UniqueIndex.Ok.run (fun _ _ => runs_exclusive) (.init h₀) hrun

/-- **The tokens are those of running the committed requests one after another.** -/
theorem tokens_serial (h₀ : UQ_users_fcm_token.Unique (.migrated users))
    (hrun : UQ_users_fcm_token.run (program cfg) (start cfg users) acts = some s) :
    tokenOf s.db = tokenOf (serial users (committed cfg users acts)) := by
  refine UniqueIndex.run_induction (J := fun as s =>
    tokenOf s.db = tokenOf (serial users (committed cfg users as))) rfl
    (fun as a s s' hs hst hadm ih => ?_) hrun
  have hs₁ : runs cfg users as = some s := UniqueIndex.run_of_run hs
  obtain ⟨h, hsim⟩ := runs_sim_any hs₁
  obtain ⟨l, -, hout⟩ := hsim.step (fun q _ => program_ok q) (fun _ _ => trivial) hst
  have hu : UQ_users_fcm_token.Unique s'.db :=
    (runs_ok h₀ (UniqueIndex.run_snoc.2 ⟨s, hs, hst, hadm⟩)).unique
  rw [committed, commitsOf_snoc hs₁, List.filterMap_append, serial, List.foldl_append]
  change tokenOf s'.db = tokenOf (List.foldl _ (serial users (committed cfg users as)) _)
  rcases hout.commit hsim with ⟨hc, hd, -⟩ | ⟨c, e, hc, hcd, hd, -, hpub⟩
  · rw [hc, hd]
    exact ih
  · have hct := commitsTokens hpub
    rw [hcd, ← hd] at hct
    rw [hc, Option.toList_some]
    cases hop : tokenOp? c.request c.calls with
    | none =>
      rw [hop] at hct
      cases hct with
      | none hsame => simp [hop, hsame, ih]
    | some op =>
      rw [hop] at hct
      obtain ⟨hp, happ⟩ := hct.apply hu
      rw [ih] at hp
      simp only [List.filterMap_cons, hop, List.filterMap_nil, List.foldl_cons, List.foldl_nil,
        happ, ih, TokenOp.tokens_run op hp]

/-- A transaction that has updated no row, as a clear that finds none, adds nothing to the list. -/
theorem committed_untouched {i : ℕ} {q : Request cfg} {st : Stage market}
    (hrun : runs cfg users acts = some s) (hi : s.sessions[i]? = some (q, st)) (hw : st.writes = []) :
    committed cfg users (acts ++ [.exec i]) = committed cfg users acts := by
  rw [committed, commitsOf_snoc hrun, State.commit?_untouched hi hw, Option.toList_none,
    List.append_nil, committed]

/-- A request of the list has done to the tokens what it is for; a clear has updated a row. -/
theorem committed_does (hrun : runs cfg users acts = some s) {c : Commit market (Request cfg)}
    (hc : c ∈ commitsOf cfg users acts) :
    CommitsTokens c.db (overlay c.writes c.db) (tokenOp? c.request c.calls) := by
  obtain ⟨e, hpub⟩ := (start_sim .any trivial).publishes
    (fun q _ => program_ok q) (fun _ _ => trivial) hrun hc
  exact commitsTokens hpub

/-- **Device tokens under concurrency**: in every run the index on the tokens admits, no token is held
    by two employees, the tokens are those of running the committed requests one after another in the
    order of their commits, and the stale-token clear of a push takes away the token it was sent to, from
    the employee it was sent to, and changes nothing else. -/
theorem device_tokens (h₀ : UQ_users_fcm_token.Unique (.migrated users))
    (hrun : UQ_users_fcm_token.run (program cfg) (start cfg users) acts = some s) :
    (∀ u v t, tokenOf s.db u = some (some t) → tokenOf s.db v = some (some t) → u = v) ∧
    (∀ u, tokenOf s.db u = tokenOf (serial users (committed cfg users acts)) u) ∧
    ∀ c ∈ commitsOf cfg users acts, ∀ u t, tokenOp? c.request c.calls = some (.stale u t) →
      ∃ r, c.db.users.get u = some r ∧ r.fcmToken = some t ∧
        overlay c.writes c.db = c.db.put (.user u) { r with fcmToken := none } := by
  refine ⟨unique_iff.1 (runs_ok h₀ hrun).unique, congrFun (tokens_serial h₀ hrun),
    fun c hc u t hop => ?_⟩
  have hct := committed_does (UniqueIndex.run_of_run hrun) hc
  rw [hop] at hct
  cases hct with
  | stale hr ht hd => exact ⟨_, hr, ht, hd⟩

end

/-- An employee signs in on a device. -/
def sampleClaim (u : String) : Request sample :=
  .updateFcmToken u ⟨"device-token-of-the-lobby", by decide +kernel⟩

/-- Two employees sign in on the same device at the same time, which the index refuses the second one;
    they try again. -/
def sampleShared : List (AppAction sample) :=
  [.submit (sampleClaim "EMP00101"), .submit (sampleClaim "EMP00102"), .exec 0, .exec 0, .exec 0,
    .exec 1, .exec 1, .exec 1, .exec 0, .exec 0, .fault 1 ⟨some PgErrorCode.UNIQUE_VIOLATION⟩] ++
    perform 2 6 (sampleClaim "EMP00102")

theorem sampleUsers_unique : UQ_users_fcm_token.Unique (.migrated sampleUsers) :=
  unique_iff.2 fun u v t hu _ => by
    obtain ⟨r, hr, ht⟩ := tokenOf_eq_some.1 hu
    simp only [Database.migrated, sampleUsers, Table.get_put_eq, Table.get_empty] at hr
    split_ifs at hr <;> cases hr <;> cases ht

/-- The device belongs to the employee who signed in last, as it does one after the other. -/
theorem device_tokens_sample : ∃ s,
    UQ_users_fcm_token.run (program sample) (start sample sampleUsers) sampleShared = some s ∧
    tokenOf s.db "EMP00102" = some (some "device-token-of-the-lobby") ∧
    tokenOf s.db "EMP00101" ≠ some (some "device-token-of-the-lobby") ∧
    tokenOf (serial sampleUsers (committed sample sampleUsers sampleShared)) "EMP00102" =
      some (some "device-token-of-the-lobby") := by
  obtain ⟨s, hrun, hs⟩ : ∃ s,
      UQ_users_fcm_token.run (program sample) (start sample sampleUsers) sampleShared = some s ∧
      tokenOf s.db "EMP00102" = some (some "device-token-of-the-lobby") := by
    have h : (UQ_users_fcm_token.run (program sample) (start sample sampleUsers) sampleShared).any
        (fun s => tokenOf s.db "EMP00102" = some (some "device-token-of-the-lobby")) = true := by
      decide +kernel
    simpa [Option.any_eq_true] using h
  obtain ⟨hone, hserial, -⟩ := device_tokens sampleUsers_unique hrun
  refine ⟨s, hrun, hs, fun h => absurd (hone _ _ _ hs h) (by decide), ?_⟩
  rw [← hserial]
  exact hs

end Marketplace
