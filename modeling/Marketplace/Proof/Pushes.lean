/-
  Pushes: the token a message is sent to is looked up before, and can have been
  moved to another employee or cleared in between.
-/
import Marketplace.Proof.DeviceTokens
import Marketplace.Lib.Reads

namespace Marketplace

open ReadCommitted

variable {cfg : Config}

/-! ## The lookup -/

/-- A message to FCM is for an employee who had the token when the session looked it up. -/
def LookedUp (l : List Database) : Call → Prop
  | .fcm m => ∃ d, l.getLast? = some d ∧ tokenOf d m.notification.userId = some (some m.token)
  | .socket _ => True

section
variable {β : Type} {l : List Database} {k : Program}

theorem cites_query {g : Database → β} {k : β → Program}
    (hk : ∀ l x, (k x).Cites LookedUp l) : (query g k).Cites LookedUp l := by
  refine .tx fun l x => ?_
  cases x with
  | ok b => exact hk l b
  | error e => trivial

theorem cites_sendToUser {u : String} {id : ℤ} {n : Notification} (hn : n.userId = u)
    (hk : ∀ l, k.Cites LookedUp l) :
    (PushService.sendToUser cfg u id n k).Cites LookedUp l := by
  unfold PushService.sendToUser
  split_ifs
  · exact hk l
  refine ⟨fun d => ?_, fun l' f => hk _⟩
  change Req.Cites (S := market) LookedUp (l ++ [d]) _
  dsimp only [ended]
  generalize hd : (d.users.get u).bind User.fcmToken = token?
  cases token? with
  | none => exact hk _
  | some token =>
    dsimp only
    split_ifs
    · exact hk _
    refine ⟨⟨d, by simp, ?_⟩, fun x => ?_⟩
    · obtain ⟨r, hr, ht⟩ := Option.bind_eq_some_iff.1 hd
      exact tokenOf_eq_some.2 ⟨r, hn ▸ hr, ht⟩
    · cases x with
      | done => exact hk _
      | rejected code? =>
        cases code? with
        | none => exact hk _
        | some code =>
          dsimp only
          split_ifs
          · exact .tx fun l _ => hk l
          · exact hk _

theorem cites_notify (input : CreateNotificationInput) (hk : ∀ l, k.Cites LookedUp l) :
    (NotificationsService.notify cfg input k).Cites LookedUp l := by
  refine ⟨fun now n => ⟨trivial, fun x => ?_⟩, fun l' f => hk _⟩
  match x with
  | .done => exact cites_sendToUser rfl hk
  | .rejected _ => exact hk _

theorem cites_answer (r : Response) (l : List Database) : (answer r).Cites LookedUp l := trivial

theorem cites_notifyOrderStatusChanged (o : OrderDetail) (u : String)
    (hk : ∀ l, k.Cites LookedUp l) :
    (NotificationsService.notifyOrderStatusChanged cfg o u k).Cites LookedUp l := by
  unfold NotificationsService.notifyOrderStatusChanged
  dsimp only
  split
  · exact cites_notify _ hk
  · exact cites_notify _ hk
  · exact hk l

theorem cites_findOneForUser {o : ℤ} {u : String} {k : OrderDetail → Program}
    (hk : ∀ l x, (k x).Cites LookedUp l) :
    (OrdersService.findOneForUser o u k).Cites LookedUp l := by
  refine cites_query fun l x => ?_
  cases x with
  | none => trivial
  | some o =>
    dsimp only
    split_ifs
    · trivial
    · exact hk l o

theorem cites_attachPaymentSlip (o : ℤ) (u : String) (dto : AttachPaymentSlipDto cfg) :
    (OrdersService.attachPaymentSlip cfg o u dto).Cites LookedUp l := by
  unfold OrdersService.attachPaymentSlip
  cases StorageService.assertManagedUrls cfg [dto.paymentSlipUrl] with
  | error => trivial
  | ok =>
    refine cites_query fun l x => ?_
    cases x with
    | none => trivial
    | some order =>
      dsimp only
      split_ifs
      · trivial
      · trivial
      · trivial
      · refine .tx fun l x => ?_
        cases x with
        | error => trivial
        | ok => exact cites_findOneForUser fun _ _ => cites_notify _ (cites_answer _)

theorem cites_program {q : Request cfg} (hq : q.notifies = true) :
    (program cfg q).Cites LookedUp l := by
  cases q with
  | createOrder u dto =>
    refine .tx fun l x => ?_
    match x with
    | .ok o => exact cites_findOneForUser fun _ _ => cites_notify _ (cites_answer _)
    | .error (.app _) => trivial
    | .error (.db e) => dsimp only; split_ifs <;> trivial
  | updateOrderStatus o u dto =>
    refine .tx fun l x => ?_
    cases x with
    | error => trivial
    | ok =>
      exact cites_findOneForUser fun _ _ => cites_notifyOrderStatusChanged _ _ (cites_answer _)
  | attachPaymentSlip o u dto => exact cites_attachPaymentSlip o u dto
  | _ => cases hq

end

/-! ## Runs -/

/-- Session `j` is about to hand the message to FCM. -/
def Sends (s : AppState cfg) (j : ℕ) (m : PushMessage) : Prop :=
  ∃ q k, s.sessions[j]? = some (q, .idle (.call (.fcm m) k))

section
variable (cfg : Config) (users : Table String User) (acts : List (AppAction cfg))

/-- What is committed after a session has looked a token up, and before it sends its message there, does
    not take the token away from the employee. -/
def TokensKept : Prop :=
  ∀ as b bs cs t s c j m, acts = as ++ b :: bs ++ cs → runs cfg users as = some t →
    t.commit? b = some c → runs cfg users (as ++ b :: bs) = some s → Sends s j m →
    readsOf cfg users as j = readsOf cfg users (as ++ b :: bs) j →
    tokenOf c.db m.notification.userId = some (some m.token) →
    tokenOf (overlay c.writes c.db) m.notification.userId = some (some m.token)

end

section
variable {users : Table String User} {acts : List (AppAction cfg)} {s : AppState cfg} {j : ℕ}
  {m : PushMessage}

/-- The token of a message is the one its session has looked up last. -/
theorem Sends.lookedUp (hrun : runs cfg users acts = some s) (h : Sends s j m) :
    LookedUp (readsOf cfg users acts j) (.fcm m) := by
  obtain ⟨q, k, hj⟩ := h
  obtain ⟨log, hq⟩ := runs_next_call hrun hj
  exact (State.run_cites (A := fun q : Request cfg => q.notifies = true)
    (fun _ hq => cites_program hq) (fun _ _ => runs_guarded) hrun hq hj).1

/-- **Pushes go to the holder of the token** in every run the index on the tokens admits and in which no
    commit takes a token away between its lookup and the message: whenever a message is handed to FCM,
    its token is the one of its recipient, and nobody else has it. -/
theorem pushes_reach_holder (h₀ : UQ_users_fcm_token.Unique (.migrated users))
    (hrun : UQ_users_fcm_token.run (program cfg) (start cfg users) acts = some s)
    (hkept : TokensKept cfg users acts) (hm : Sends s j m) :
    tokenOf s.db m.notification.userId = some (some m.token) ∧
      ∀ v, tokenOf s.db v = some (some m.token) → v = m.notification.userId := by
  have hruns : runs cfg users acts = some s := UniqueIndex.run_of_run hrun
  have hown : tokenOf s.db m.notification.userId = some (some m.token) := by
    obtain ⟨d, hlast, hd⟩ := hm.lookedUp hruns
    refine State.since_read (S := market)
      (P := fun d => tokenOf d m.notification.userId = some (some m.token)) hruns hlast hd ?_
    intro as b bs t c hacts ht hc hreads
    exact hkept as b bs [] t s c j m (by simpa using hacts) ht hc (hacts ▸ hruns) hm (hacts ▸ hreads)
  exact ⟨hown, fun v hv => unique_iff.1 (runs_ok h₀ hrun).unique v _ _ hv hown⟩

end

/-- The sample with messages to FCM. -/
def pushing : Config := { sample with messaging := true }

def pushingUnit : CreateItemDto pushing := { sampleUnit with images_ok := sampleUnit.images_ok }

theorem lobbyToken_ok : trim "device-token-of-the-lobby" = "device-token-of-the-lobby" ∧
    20 ≤ "device-token-of-the-lobby".length ∧ "device-token-of-the-lobby".length ≤ 4096 := by
  decide +kernel

/-- An employee signs in on the device in the lobby. -/
def pushingClaim (u : String) : Request pushing :=
  .updateFcmToken u ⟨"device-token-of-the-lobby", lobbyToken_ok⟩

/-- The seller has signed in; the buyer orders, and the seller's token has been looked up. -/
def samplePush : List (AppAction pushing) :=
  perform 0 6 (.createItem "EMP00101" pushingUnit) ++ perform 1 5 (pushingClaim "EMP00101") ++
    perform 2 12 (.createOrder "EMP00102" sampleOrder) ++
    [.answer 2 .done, .exec 2, .exec 2, .exec 2]

/-- The buyer signs in on the same device before the message is sent. -/
def sampleMoved : List (AppAction pushing) := samplePush ++ perform 3 6 (pushingClaim "EMP00102")

/-- Session `2` is about to send a message for the seller to the device in the lobby, and this is whose
    device it is. -/
def sendsTo (holder : String) (s : AppState pushing) : Bool :=
  (s.sessions[2]?.any fun p => match p.2 with
    | .idle (.call (.fcm m) _) =>
      m.notification.userId = "EMP00101" && m.token = "device-token-of-the-lobby"
    | _ => false) &&
  tokenOf s.db holder = some (some "device-token-of-the-lobby")

theorem sendsTo_sends {holder : String} {s : AppState pushing} (h : sendsTo holder s = true) :
    (∃ m, Sends s 2 m ∧ m.notification.userId = "EMP00101" ∧
      m.token = "device-token-of-the-lobby") ∧
    tokenOf s.db holder = some (some "device-token-of-the-lobby") := by
  simp only [sendsTo, Bool.and_eq_true, Option.any_eq_true, decide_eq_true_eq] at h
  obtain ⟨⟨⟨q, st⟩, hj, hst⟩, hholder⟩ := h
  refine ⟨?_, hholder⟩
  dsimp only at hst
  split at hst
  · rename_i m k
    simp only [Bool.and_eq_true, decide_eq_true_eq] at hst
    exact ⟨m, ⟨q, k, hj⟩, hst⟩
  · cases hst

/-- If nobody else signs in, the message goes to the seller's device. -/
theorem pushes_reach_holder_sample : ∃ s m,
    UQ_users_fcm_token.run (program pushing) (start pushing sampleUsers) samplePush = some s ∧
    Sends s 2 m ∧ tokenOf s.db m.notification.userId = some (some m.token) := by
  obtain ⟨s, hrun, hs⟩ : ∃ s,
      UQ_users_fcm_token.run (program pushing) (start pushing sampleUsers) samplePush = some s ∧
      sendsTo "EMP00101" s = true := by
    have h : (UQ_users_fcm_token.run (program pushing) (start pushing sampleUsers) samplePush).any
        (sendsTo "EMP00101") = true := by decide +kernel
    simpa [Option.any_eq_true] using h
  have hcom : (commitsOf pushing sampleUsers samplePush).all fun c =>
      c.db.users.rows.all fun x => x.2.fcmToken = none ||
        tokenOf (overlay c.writes c.db) x.1 = some x.2.fcmToken := by decide +kernel
  have hkept : TokensKept pushing sampleUsers samplePush := by
    intro as b bs cs t s' c j m hacts ht hc _ _ _ hhas
    have hmem : c ∈ commitsOf pushing sampleUsers samplePush :=
      (State.mem_commits (UniqueIndex.run_of_run hrun)).2 ⟨as, b, bs ++ cs, t, by simp [hacts], ht, hc⟩
    obtain ⟨r, hr, hrt⟩ := tokenOf_eq_some.1 hhas
    have := List.all_eq_true.1 (List.all_eq_true.1 hcom c hmem) _ (Table.mem_rows.2 hr)
    simpa [hrt] using this
  obtain ⟨⟨m, hm, -⟩, -⟩ := sendsTo_sends hs
  exact ⟨s, m, hrun, hm, (pushes_reach_holder sampleUsers_unique hrun hkept hm).1⟩

/-- A message for the seller goes to a device on which the buyer has signed in. -/
theorem pushes_counterexample : ∃ s m,
    UQ_users_fcm_token.run (program pushing) (start pushing sampleUsers) sampleMoved = some s ∧
    Sends s 2 m ∧ m.notification.userId = "EMP00101" ∧
    tokenOf s.db "EMP00101" ≠ some (some m.token) ∧ tokenOf s.db "EMP00102" = some (some m.token) := by
  obtain ⟨s, hrun, hs⟩ : ∃ s,
      UQ_users_fcm_token.run (program pushing) (start pushing sampleUsers) sampleMoved = some s ∧
      (sendsTo "EMP00102" s && tokenOf s.db "EMP00101" = some none) = true := by
    have h : (UQ_users_fcm_token.run (program pushing) (start pushing sampleUsers) sampleMoved).any
        (fun s => sendsTo "EMP00102" s && tokenOf s.db "EMP00101" = some none) = true := by
      decide +kernel
    simpa only [Option.any_eq_true] using h
  simp only [Bool.and_eq_true, decide_eq_true_eq] at hs
  obtain ⟨⟨m, hm, hu, ht⟩, hbuyer⟩ := sendsTo_sends hs.1
  exact ⟨s, m, hrun, hm, hu, by rw [hs.2]; simp, by rw [ht]; exact hbuyer⟩

end Marketplace
