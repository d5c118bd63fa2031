/-
  How requests fail.

  A request is rejected for what its client has asked for, or it answers a
  failure of the database, one of its own statements.  A login that is answered
  with a token names an employee it has read, with the digits of the phone
  number.
-/
import Marketplace.Lib.Replies
import Marketplace.Proof.Login
import Marketplace.Proof.Rejections
import Marketplace.Proof.Deployment

namespace Marketplace

open ReadCommitted AuthService

variable {cfg : Config}

/-- The exceptions that reject what a client has asked for. -/
def IsRejection : Exception → Prop
  | .badRequest _ | .forbidden _ | .notFound _ => True
  | .unauthorized _ | .conflict _ | .payloadTooLarge _ | .internalServerError _ | .ws _
  | .query _ => False

/-- The requests that the status of an item or an order can be in the way of. -/
def Request.conflicts : Request cfg → Bool
  | .updateItemStatus .. | .createOrder .. | .updateOrderStatus .. | .attachPaymentSlip .. => true
  | _ => false

/-- What the database reports of the page a request asks for, if that is too far. -/
def Request.offsetError : Request cfg → Option QueryFailedError
  | .findItems dto => dto.offsetError
  | .findMyOrders _ dto => dto.offsetError
  | .findMyNotifications _ dto => dto.offsetError
  | .conversations _ dto _ => ChatsService.offsetError dto
  | _ => none

/-- The exceptions a request throws. -/
def Expected (q : Request cfg) : Exception → Prop
  | .conflict _ => q.conflicts = true
  | .unauthorized m => (∃ dto, q = .login dto) ∧ m = INVALID_CREDENTIALS
  | .ws _ => ∃ client dto, q = .sendMessage client dto
  | .query f => q.offsetError = some f
  | e => IsRejection e

/-- A reply is no error, or an expected exception, or one of the failures of the database. -/
def Accounted (A : Exception → Prop) (_ : List Database) (fs : List QueryFailedError) :
    Except Thrown Response → Prop
  | .ok _ => True
  | .error (.app e) => A e
  | .error (.db f) => f ∈ fs

/-- The program ends so, whatever has happened before. -/
def Sound (A : Exception → Prop) (p : Program) : Prop := ∀ l fs, p.Replies (Accounted A) l fs

/-- The transaction throws expected exceptions only. -/
def Throws (A : Exception → Prop) {β : Type} (body : Transaction β) : Prop :=
  ∀ l n, body.Ends (fun _ _ x => ∀ e, x = .error e → A e) l n

/-! ## Combinators -/

section
variable {A : Exception → Prop}

theorem Sound.answer (r : Response) : Sound A (Marketplace.answer r) := fun _ _ => trivial

theorem Sound.fail {e : Exception} (h : A e) : Sound A (Marketplace.fail (.app e)) := fun _ _ => h

/-! Transactions. -/

section
variable {β γ : Type}

theorem Throws.commit {a : β} : Throws A (.commit a) := by
  rintro l n e ⟨⟩

theorem Throws.throw {e : Exception} (h : A e) : Throws A (.throw e : Transaction β) := by
  rintro l n _ ⟨⟩
  exact h

theorem Throws.select {g : Database → γ} {c : γ → Transaction β} (h : ∀ b, Throws A (c b)) :
    Throws A (.select g c) := fun _ _ _ => h _ _ _

theorem Throws.lock {key : Key} {c : Option (Row key) → Transaction β} (h : ∀ r, Throws A (c r)) :
    Throws A (.lock key c) := fun _ _ r => h r _ _

theorem Throws.update {key : Key} {p : Row key → Bool} {f : Row key → Row key}
    {c : ℕ → Transaction β} (h : ∀ n, Throws A (c n)) : Throws A (.update key p f c) :=
  fun _ _ => ⟨h _ _ _, h _ _ _⟩

theorem Throws.insert {t : Serial} {row : ℕ → (n : ℕ) → Row (t.key n)}
    {c : (n : ℕ) → Row (t.key n) → Transaction β} (h : ∀ n r, Throws A (c n r)) :
    Throws A (.insert t row c) := fun _ _ _ _ => h _ _ _ _

theorem Throws.updateEach {ι : Type} {key : ι → Key} {p : (i : ι) → Row (key i) → Bool}
    {f : (i : ι) → Row (key i) → Row (key i)} {c : ℕ → Transaction β} (h : ∀ n, Throws A (c n))
    (is : List ι) (n : ℕ) : Throws A (Tx.updateEach (S := market) key p f c is n) :=
  fun _ _ => .updateEach (fun _ _ => h _ _ _) _ _ _

end

theorem Sound.tx {β : Type} {body : Transaction β} {k : Except Thrown β → Program}
    (hbody : Throws A body) (hok : ∀ a, Sound A (k (.ok a)))
    (happ : ∀ e, A e → Sound A (k (.error (.app e))))
    (hdb : ∀ f l fs, f ∈ fs → (k (.error (.db f))).Replies (Accounted A) l fs) :
    Sound A (.tx body k) := by
  refine fun l fs => ⟨(hbody l 0).mono fun l n x hx => ?_, fun l' f => hdb f _ _ (by simp)⟩
  cases x with
  | ok a => exact hok a l fs
  | error e => exact happ e (hx e rfl) l fs

theorem Sound.query {β : Type} {q : Database → β} {k : β → Program} (h : ∀ b, Sound A (k b)) :
    Sound A (Marketplace.query q k) :=
  Sound.tx (.select fun _ => .commit) h (fun _ he => .fail he) fun _ _ _ hf => hf

theorem Sound.call {c : Call} {k : Answer → Program} (h : ∀ x, Sound A (k x)) : Sound A (.call c k) :=
  fun l fs x => h x l fs

theorem Sound.socket {op : RoomOp ChatSocket String ServerEvent} {k : Program} (h : Sound A k) :
    Sound A (Marketplace.socket op k) := .call fun _ => h

/-- What comes after the commit of a request does not fail it. -/
theorem Sound.always {r : Response} {p : Program} (h : AlwaysReplies (.ok r) p) : Sound A p := by
  induction h with
  | done => exact fun _ _ => trivial
  | tx _ ih =>
    exact fun l fs => ⟨.of_forall (fun l _ x => ih _ l fs) .., fun l' f => ih _ _ _⟩
  | call _ ih => exact .call ih

theorem Sound.update {key : Key} {p : Row key → Bool} {f : Row key → Row key}
    {k : Except Thrown ℕ → Program} (hok : ∀ n, Sound A (k (.ok n)))
    (happ : ∀ e, A e → Sound A (k (.error (.app e))))
    (hdb : ∀ f l fs, f ∈ fs → (k (.error (.db f))).Replies (Accounted A) l fs) :
    Sound A (.tx (.update key p f .commit) k) :=
  .tx (.update fun _ => .commit) hok happ hdb

theorem Sound.unlessRefused {refusal : Option QueryFailedError} {k : Program}
    (hr : ∀ f, refusal = some f → A (.query f)) (hk : Sound A k) :
    Sound A (Marketplace.unlessRefused refusal k) := by
  cases refusal with
  | none => exact hk
  | some f => exact .fail (hr f rfl)

theorem Sound.getManyAndCount {α : Type} {q : PaginationQueryDto} {select : Database → List α}
    {k : PaginatedResult α → Program} (hr : ∀ f, q.offsetError = some f → A (.query f))
    (h : ∀ page, Sound A (k page)) : Sound A (q.getManyAndCount select k) :=
  .unlessRefused hr (.query fun _ => .query fun _ => h _)

/-! Services that reject nothing. -/

theorem throws_resolveTx (orderId itemId : ℤ) (status : OrderStatus) (order : Order) (item : Item) :
    Throws A (OrdersService.resolveTx orderId itemId status order item) := by
  unfold OrdersService.resolveTx
  split_ifs
  · exact .update fun _ => .update fun _ => .commit
  · exact .update fun _ => .update fun _ => .commit
  · exact .update fun _ => .commit

theorem sound_markAsRead (userId : String) (itemId : ℤ) (peerId : String) {k : ℕ → Program}
    (hk : ∀ n, Sound A (k n)) : Sound A (ChatsService.markAsRead userId itemId peerId k) :=
  .tx (.select fun _ => .updateEach (fun _ => .commit) _ _) hk (fun _ he => .fail he)
    fun _ _ _ hf => hf

theorem sound_markAllRead (userId : String) : Sound A (NotificationsService.markAllRead userId) := by
  refine .tx (.select fun _ => .updateEach (fun _ => .commit) _ _) (fun count => ?_)
    (fun _ he => .fail he) fun _ _ _ hf => hf
  dsimp only
  split_ifs
  · exact .query fun _ => .socket (.answer _)
  · exact .answer _

end

/-! ## Services -/

section
variable {A : Exception → Prop} (hA : ∀ e, IsRejection e → A e)
include hA

theorem sound_getProfile (userId : String) {k : Profile → Program} (hk : ∀ u, Sound A (k u)) :
    Sound A (UsersService.getProfile userId k) := by
  refine .query fun u => ?_
  cases u with
  | none => exact .fail (hA _ trivial)
  | some u => exact hk u

theorem sound_findOne (itemId : ℤ) : Sound A (ItemsService.findOne itemId) := by
  refine .query fun i => ?_
  cases i with
  | none => exact .fail (hA _ trivial)
  | some i => exact .answer _

theorem sound_findOneForUser (orderId : ℤ) (userId : String) {k : OrderDetail → Program}
    (hk : ∀ o, Sound A (k o)) : Sound A (OrdersService.findOneForUser orderId userId k) := by
  refine .query fun o => ?_
  cases o with
  | none => exact .fail (hA _ trivial)
  | some o =>
    dsimp only
    split_ifs
    · exact .fail (hA _ trivial)
    · exact hk o

theorem assertManagedUrls_error {urls : List String} {e : Exception}
    (h : StorageService.assertManagedUrls cfg urls = .error e) : A e := by
  unfold StorageService.assertManagedUrls at h
  dsimp only at h
  split_ifs at h
  cases h
  exact hA _ trivial

theorem sound_assertManagedUrls (urls : List String) {k : Program} (hk : Sound A k) :
    Sound A (match StorageService.assertManagedUrls cfg urls with
      | .error e => fail (.app e)
      | .ok () => k) := by
  cases h : StorageService.assertManagedUrls cfg urls with
  | error e => exact .fail (assertManagedUrls_error hA h)
  | ok => exact hk

theorem sound_updateProfile (userId : String) (dto : UpdateProfileDto cfg) :
    Sound A (UsersService.updateProfile cfg userId dto) := by
  refine .query fun u => ?_
  cases u with
  | none => exact .fail (hA _ trivial)
  | some u =>
    refine sound_assertManagedUrls hA _ (.query fun row => ?_)
    cases row with
    | none => exact .answer _
    | some row =>
      dsimp only
      by_cases hsame : row = UsersService.merge cfg u dto
      · rw [if_pos hsame]
        exact .answer _
      · rw [if_neg hsame]
        exact .update (fun _ => .answer _) (fun _ he => .fail he) fun _ _ _ hf => hf

theorem sound_updateFcmToken (userId : String) (dto : UpdateFcmTokenDto) :
    Sound A (UsersService.updateFcmToken userId dto) := by
  refine .tx (.select fun exists_ => ?_) (fun _ => .answer _) (fun _ he => .fail he)
    fun _ _ _ hf => hf
  dsimp only
  split_ifs
  · exact .select fun _ => .updateEach (fun _ => .update fun _ => .commit) _ _
  · exact .throw (hA _ trivial)

theorem sound_createItem (sellerId : String) (dto : CreateItemDto cfg) :
    Sound A (ItemsService.create cfg sellerId dto) := by
  unfold ItemsService.create
  cases hprice : ItemsService.resolvePrice dto.itemType dto.price with
  | error e =>
    refine .fail ?_
    unfold ItemsService.resolvePrice at hprice
    split_ifs at hprice
    · cases hprice; exact hA _ trivial
    · split at hprice
      · split_ifs at hprice
        cases hprice; exact hA _ trivial
      · cases hprice; exact hA _ trivial
  | ok price =>
    refine sound_assertManagedUrls hA _ ?_
    exact .tx (.insert fun _ _ => .commit) (fun _ => sound_findOne hA _) (fun _ he => .fail he)
      fun _ _ _ hf => hf

theorem sound_updateItemStatus (hc : ∀ m, A (.conflict m)) (itemId : ℤ) (userId : String)
    (status : ItemStatus) : Sound A (ItemsService.updateStatus itemId userId status) := by
  refine .tx (.lock fun item => ?_) (fun _ => sound_findOne hA _) (fun _ he => .fail he)
    fun _ _ _ hf => hf
  cases item with
  | none => exact .throw (hA _ trivial)
  | some item =>
    dsimp only
    split_ifs
    · exact .throw (hA _ trivial)
    · exact .commit
    · refine .select fun hasPendingOrder => ?_
      split_ifs
      · exact .throw (hc _)
      · exact .update fun _ => .commit

theorem sound_createOrder (hc : ∀ m, A (.conflict m)) (buyerId : String) (dto : CreateOrderDto) :
    Sound A (OrdersService.create cfg buyerId dto) := by
  refine .tx (.lock fun item => ?_)
    (fun _ => sound_findOneForUser hA _ _ fun o => .always (notify_alwaysReplies .done _))
    (fun _ he => .fail he) fun f l fs hf => ?_
  · cases item with
    | none => exact .throw (hA _ trivial)
    | some item =>
      dsimp only
      split_ifs
      · exact .throw (hA _ trivial)
      · exact .throw (hc _)
      · exact .throw (hA _ trivial)
      · exact .insert fun _ _ => .update fun _ => .commit
  · dsimp only
    split_ifs
    · exact hc _
    · exact hf

theorem sound_updateOrderStatus (hc : ∀ m, A (.conflict m)) (orderId : ℤ) (userId : String)
    (dto : UpdateOrderStatusDto) : Sound A (OrdersService.updateStatus cfg orderId userId dto) := by
  refine .tx (.select fun itemId? => ?_) (fun _ => sound_findOneForUser hA _ _ fun o =>
    .always (notifyOrderStatusChanged_alwaysReplies .done _ _)) (fun _ he => .fail he)
    fun _ _ _ hf => hf
  cases itemId? with
  | none => exact .throw (hA _ trivial)
  | some itemId =>
    refine .lock fun item? => .lock fun order? => ?_
    dsimp only
    split
    · split_ifs
      · exact .throw (hA _ trivial)
      · exact .throw (hc _)
      · exact .throw (hA _ trivial)
      · exact throws_resolveTx _ _ _ _ _
    · exact .throw (hA _ trivial)

theorem sound_attachPaymentSlip (hc : ∀ m, A (.conflict m)) (orderId : ℤ) (userId : String)
    (dto : AttachPaymentSlipDto cfg) :
    Sound A (OrdersService.attachPaymentSlip cfg orderId userId dto) := by
  refine sound_assertManagedUrls hA _ (.query fun order => ?_)
  cases order with
  | none => exact .fail (hA _ trivial)
  | some order =>
    dsimp only
    split_ifs
    · exact .fail (hA _ trivial)
    · exact .fail (hA _ trivial)
    · exact .fail (hc _)
    · exact .update
        (fun _ => sound_findOneForUser hA _ _ fun o => .always (notify_alwaysReplies .done _))
        (fun _ he => .fail he) fun _ _ _ hf => hf

theorem sound_markRead (userId : String) (notificationId : ℤ) :
    Sound A (NotificationsService.markRead userId notificationId) := by
  refine .query fun n => ?_
  cases n with
  | none => exact .fail (hA _ trivial)
  | some n =>
    dsimp only
    split_ifs
    · exact .answer _
    · exact .update (fun _ => .query fun _ => .socket (.answer _)) (fun _ he => .fail he)
        fun _ _ _ hf => hf

/-! ## Chats -/

theorem sound_peerOf (dto : ConversationDto) {k : Option String → Program}
    (hk : ∀ peer, Sound A (k peer)) :
    Sound A (match peerOf cfg dto with
      | .error e => fail (.app e)
      | .ok peer => k peer) := by
  cases h : peerOf cfg dto with
  | ok peer => exact hk peer
  | error e =>
    refine .fail ?_
    unfold peerOf at h
    dsimp only at h
    split_ifs at h
    cases h
    exact hA _ trivial

theorem sound_resolveConversation (itemId : ℤ) (userId : String) (peer : Option String)
    {k : ResolvedConversation → Program} (hk : ∀ conv, Sound A (k conv)) :
    Sound A (ChatsService.resolveConversation cfg itemId userId peer k) := by
  refine .query fun item => ?_
  cases item with
  | none => exact .fail (hA _ trivial)
  | some item =>
    dsimp only
    cases h : ChatsService.peerFor item userId (PeerTokenService.resolve cfg peer) with
    | ok peerId => exact hk _
    | error e =>
      refine .fail ?_
      unfold ChatsService.peerFor at h
      split_ifs at h
      · split at h
        · cases h; exact hA _ trivial
        · split_ifs at h
          cases h; exact hA _ trivial
      · cases h; exact hA _ trivial

theorem sound_getHistory (userId : String) (dto : ChatHistoryQueryDto) :
    Sound A (ChatsService.getHistory cfg userId dto) :=
  sound_peerOf hA _ fun _ => sound_resolveConversation hA _ _ _ fun _ => .query fun _ => .answer _

theorem sound_joinChat (client : ChatSocket) (dto : ConversationDto) :
    Sound A (ChatsGateway.joinChat cfg client dto) := by
  refine sound_peerOf hA _ fun _ => sound_resolveConversation hA _ _ _ fun _ =>
    .socket (sound_markAsRead _ _ _ fun n => ?_)
  split_ifs
  · exact .socket (.answer _)
  · exact .answer _

theorem sound_leaveChat (client : ChatSocket) (dto : ConversationDto) :
    Sound A (ChatsGateway.leaveChat cfg client dto) :=
  sound_peerOf hA _ fun _ => sound_resolveConversation hA _ _ _ fun _ => .socket (.answer _)

theorem sound_markChatRead (userId : String) (dto : ConversationDto) :
    Sound A (ChatsGateway.markRead cfg userId dto) := by
  refine sound_peerOf hA _ fun _ => sound_resolveConversation hA _ _ _ fun _ =>
    sound_markAsRead _ _ _ fun n => ?_
  split_ifs
  · exact .socket (.answer _)
  · exact .answer _

theorem sound_sendMessage (hws : ∀ m, A (.ws m)) (client : ChatSocket) (dto : SendMessageDto) :
    Sound A (ChatsGateway.sendMessage cfg client dto) := by
  unfold ChatsGateway.sendMessage
  dsimp only
  split_ifs
  · exact .fail (hws _)
  · unfold ChatsService.createMessage
    dsimp only
    split_ifs
    · exact .fail (hA _ trivial)
    · refine sound_resolveConversation hA _ _ _ fun _ => .query fun exists_ => ?_
      split_ifs
      · exact .tx (.insert fun _ _ => .commit) (fun _ => .socket (.answer _)) (fun _ he => .fail he)
          fun _ _ _ hf => hf
      · exact .fail (hA _ trivial)

end

theorem sound_login (dto : LoginDto cfg) :
    Sound (Expected (.login dto)) (AuthService.login cfg dto) := by
  have hexpected : Expected (.login dto) (.unauthorized INVALID_CREDENTIALS) := ⟨⟨dto, rfl⟩, rfl⟩
  refine .query fun user => ?_
  cases user with
  | none => exact .fail hexpected
  | some user =>
    dsimp only
    split_ifs
    · exact .answer _
    · exact .fail hexpected

theorem expected_of_rejection (q : Request cfg) (e : Exception) (h : IsRejection e) : Expected q e := by
  cases e <;> first | exact h | exact h.elim

/-- Every request fails as expected. -/
theorem program_sound (q : Request cfg) : Sound (Expected q) (program cfg q) := by
  have hA := expected_of_rejection q
  cases q with
  | createItem sellerId dto => exact sound_createItem hA sellerId dto
  | updateItemStatus itemId userId status =>
    exact sound_updateItemStatus hA (fun _ => rfl) itemId userId status
  | findItems dto => exact .getManyAndCount (fun _ hf => hf) fun _ => .answer _
  | findItem itemId => exact sound_findOne hA itemId
  | createOrder buyerId dto => exact sound_createOrder hA (fun _ => rfl) buyerId dto
  | updateOrderStatus orderId userId dto =>
    exact sound_updateOrderStatus hA (fun _ => rfl) orderId userId dto
  | attachPaymentSlip orderId userId dto =>
    exact sound_attachPaymentSlip hA (fun _ => rfl) orderId userId dto
  | findMyOrders userId dto => exact .getManyAndCount (fun _ hf => hf) fun _ => .answer _
  | findOrder orderId userId => exact sound_findOneForUser hA orderId userId fun _ => .answer _
  | profile userId => exact sound_getProfile hA userId fun _ => .answer _
  | publicProfile userId => exact sound_getProfile hA userId fun _ => .answer _
  | updateProfile userId dto => exact sound_updateProfile hA userId dto
  | updateFcmToken userId dto => exact sound_updateFcmToken hA userId dto
  | clearFcmToken userId =>
    exact .update (fun _ => .answer _) (fun _ he => .fail he) fun _ _ _ hf => hf
  | login dto => exact sound_login dto
  | history userId dto => exact sound_getHistory hA userId dto
  | conversations userId dto ties => exact .unlessRefused (fun _ hf => hf) (.query fun _ => .answer _)
  | markChatRead userId dto => exact sound_markChatRead hA userId dto
  | connect client => exact .socket (.socket (.answer _))
  | disconnect client => exact .socket (.answer _)
  | joinChat client dto => exact sound_joinChat hA client dto
  | leaveChat client dto => exact sound_leaveChat hA client dto
  | sendMessage client dto => exact sound_sendMessage hA (fun _ => ⟨client, dto, rfl⟩) client dto
  | findMyNotifications userId dto => exact .getManyAndCount (fun _ hf => hf) fun _ => .answer _
  | countUnread userId => exact .query fun _ => .answer _
  | markNotificationRead userId id => exact sound_markRead hA userId id
  | markAllNotificationsRead userId => exact sound_markAllRead userId

/-! ## Runs -/

section
variable {D : Deployment} {acts : List (AppAction cfg)} {s : AppState cfg} {i : ℕ}

/-- **How the requests of a run fail.** -/
theorem Deployment.accounted {q : Request cfg} {r : Except Thrown Response}
    (hrun : D.runs cfg acts = some s) (hi : s.sessions[i]? = some (q, .idle (.done r))) :
    Accounted (Expected q) ((D.start cfg).reads (program cfg) i acts) (faults i acts) r :=
  State.run_reply (A := (· = q)) (fun _ hq => hq ▸ program_sound q [] []) hrun rfl hi

/-- A login that is answered with a token has read the employee it names, and the digits match. -/
def LoggedIn (dto : LoginDto cfg) (l : List Database) (_ : List QueryFailedError)
    (r : Except Thrown Response) : Prop :=
  ∀ x, r = .ok (.login x) → ∃ d ∈ l, ∃ user, d.users.get dto.userId = some user ∧
    phonesMatch cfg dto.phoneNumber user.phoneNumber = true ∧
    x.accessToken = cfg.sign ⟨dto.userId, user.fullName, user.department⟩

theorem login_loggedIn (dto : LoginDto cfg) :
    (program cfg (.login dto)).Replies (LoggedIn dto) [] [] := by
  refine ⟨fun d => ?_, fun l' f x hx => by cases hx⟩
  rw [if_pos rfl, List.nil_append]
  simp only [Tx.Ends]
  cases hu : d.users.get dto.userId with
  | none =>
    intro x hx
    cases hx
  | some user =>
    dsimp only
    split_ifs with hmatch
    · rintro x ⟨⟩
      exact ⟨d, List.mem_singleton_self _, user, hu, hmatch, rfl⟩
    · intro x hx
      cases hx

/-- **A login that a run has answered with a token**: the employee it names was in a database of the
    run, and the digits matched. -/
theorem Deployment.loggedIn {dto : LoginDto cfg} {x : LoginResponse}
    (hrun : D.runs cfg acts = some s)
    (hi : s.sessions[i]? = some (.login dto, .idle (.done (.ok (.login x))))) :
    ∃ as bs t user, acts = as ++ bs ∧ D.runs cfg as = some t ∧
      t.db.users.get dto.userId = some user ∧
      phonesMatch cfg dto.phoneNumber user.phoneNumber = true ∧
      x.accessToken = cfg.sign ⟨dto.userId, user.fullName, user.department⟩ := by
  obtain ⟨d, hd, user, hu, hmatch, htoken⟩ := State.run_reply (A := (· = .login dto))
    (P := LoggedIn dto) (fun _ hq => hq ▸ login_loggedIn dto) hrun rfl hi x rfl
  obtain ⟨as, bs, t, hacts, ht, rfl⟩ := State.mem_reads hrun hd
  exact ⟨as, bs, t, user, hacts, ht, hu, hmatch, htoken⟩

end

end Marketplace
