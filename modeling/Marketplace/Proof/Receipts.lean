/-
  Who receives the receipt that messages have been read: the sockets of both
  parties, unless the reader opened the conversation and has sockets elsewhere.
-/
import Marketplace.Proof.Delivery
import Marketplace.Proof.Unread

namespace Marketplace

open ReadCommitted ChatsService

variable {cfg : Config} {q : Request cfg} {d : Database} {d₀ : Database}
  {h : (Regime.ids cfg).spec.History}

/-! ## Receipts of a session -/

/-- What happens at socket.io, with the session that makes it happen. -/
def sessionOps (calls : List (ℕ × Call)) : List (RoomOp ChatSocket String (ℕ × ServerEvent)) :=
  calls.filterMap fun
    | (i, .socket op) => some (op.map (i, ·))
    | _ => none

theorem socketOps_eq (calls : List (ℕ × Call)) :
    socketOps calls = (sessionOps calls).map (RoomOp.map Prod.snd) := by
  rw [socketOps, sessionOps, List.map_filterMap]
  congr 1
  funext x
  obtain ⟨i, c⟩ := x
  cases c with
  | fcm => rfl
  | socket op => cases op <;> rfl

theorem mem_sessionOps {calls : List (ℕ × Call)} {rooms : List String} {except : Option ChatSocket}
    {e : ℕ × ServerEvent} (h : .emit rooms except e ∈ sessionOps calls) :
    (e.1, .socket (.emit rooms except e.2)) ∈ calls := by
  obtain ⟨⟨i, c⟩, hm, he⟩ := List.mem_filterMap.1 h
  cases c with
  | fcm => cases he
  | socket op => cases op <;> cases he; exact hm

/-- How often the socket `x` receives the event from session `i`. -/
def received (calls : List (ℕ × Call)) (i : ℕ) (e : ServerEvent) (x : ChatSocket) : ℕ :=
  RoomState.deliveries (· = (i, e)) x .empty (sessionOps calls)

theorem received_last {before after : List (ℕ × Call)} {i : ℕ} {rooms : List String}
    {e : ServerEvent} (hbefore : ∀ rooms except, (i, .socket (.emit rooms except e)) ∉ before)
    (hafter : ∀ c, (i, c) ∉ after) (x : ChatSocket) :
    received (before ++ (i, .socket (.emit rooms none e)) :: after) i e x =
      if x ∈ (RoomState.after (socketOps before)).recipients rooms none then 1 else 0 := by
  have hops : sessionOps (before ++ (i, .socket (.emit rooms none e)) :: after) =
      sessionOps before ++ .emit rooms none (i, e) :: sessionOps after := by
    rw [sessionOps, List.filterMap_append, List.filterMap_cons]
    rfl
  rw [received, hops, socketOps_eq, RoomState.after_map]
  refine RoomState.deliveries_once (by simp) (fun r ex e' he => ?_) (fun r ex e' he => ?_) <;>
    refine decide_eq_false ?_ <;> rintro rfl
  · exact hbefore r ex (mem_sessionOps he)
  · exact hafter _ (mem_sessionOps he)

/-! ## Readers -/

/-- Employees who have unread messages have ids of the usual characters. -/
theorem readers_ok (hdecode : ∀ s v, cfg.decode s = some v → IdChars v)
    (h₀ : ∀ n, d₀.messages.get n = none) (hp : (Regime.ids cfg).spec.Path d₀ h d) :
    (∀ n m, d.messages.get n = some m → IdChars m.receiverId) ∧
    ∀ i q item p u count, (i, q, .emit (.readMessages item p u count)) ∈ h → 0 < count →
      IdChars u := by
  induction hp with
  | nil => exact ⟨fun n m hm => absurd hm (by simp [h₀]), by simp⟩
  | fault | call => simpa
  | @emit h d d' i q e L _ hq hb he ih =>
    obtain ⟨hmsg, hread⟩ := ih
    have he : Emits cfg SellersOk q e L d d' := he.1
    refine ⟨fun n m hm => ?_, fun j q' item p u count hm hc => ?_⟩
    · cases hn : d.messages.get n with
      | some m₀ =>
        rcases he.message_cases hn with h' | ⟨-, -, h'⟩ <;> rw [h'] at hm <;> cases hm
        · exact hmsg n m hn
        · exact hmsg n m₀ hn
      | none =>
        obtain ⟨-, rfl⟩ := he.message_new hn hm
        obtain ⟨-, -, client, dto, rfl, -, ht⟩ := he.new_message
        exact (ht.peer hdecode (resolve_idChars hdecode fun v hv => by
          cases hv; exact idChars_of_isId dto.receiverId_ok)).1
    rcases List.mem_append.1 hm with hm | hm
    · exact hread j q' item p u count hm hc
    · cases List.mem_singleton.1 hm
      have hpos : 0 < unreadCount d u (item, p) := by rw [he.read.2.count]; omega
      obtain ⟨⟨n, m⟩, hx⟩ := List.exists_mem_of_length_pos hpos
      obtain ⟨hn, hu⟩ := List.mem_filter.1 hx
      obtain ⟨-, -, rfl, -⟩ := unreadFrom_iff.1 hu
      exact hmsg n m (Table.mem_rows.1 hn)

/-- What a request that opens a conversation has gone through, if it has marked messages as read: a
    socket may have joined a room, then the messages are read, then the receipt is sent. -/
theorem receipt_sent {users : Table String User} {acts : List (AppAction cfg)} {s : AppState cfg}
    (hdecode : ∀ s v, cfg.decode s = some v → IdChars v)
    (hids : ∀ q : Request cfg, .submit q ∈ acts → q.actorOk) (hrun : runs cfg users acts = some s)
    {i : ℕ} {st : Stage market} {r : Response} (hi : s.sessions[i]? = some (q, st))
    (hr : st.reply? = some (.ok r)) {itemId : ℤ} {peer reader : String}
    (hconv : q.conversation? cfg s.db = some (itemId, peer, reader))
    (hcount : 0 < affected cfg users acts i) :
    IdChars reader ∧ IdChars peer ∧ peer ≠ reader ∧
    (∃ h, (Regime.ids cfg).spec.Sim (.migrated users) s h) ∧
    ∃ l, s.callsOf i = l ++ [.socket (.emit (q.readRooms itemId reader peer) none
        (.messagesRead itemId reader (affected cfg users acts i)))] ∧
      ∀ c ∈ l, ∃ x room, c = .socket (.join x room) := by
  obtain ⟨h, hs, hcs⟩ := (start_sim (Regime.ids cfg)
    (fun i item hi => by simp [Database.migrated] at hi)).commits
    (fun q _ => program_ok q) hids hrun
  have hrep : Replies cfg q (h.of i) (.ok r) := hs.replies hi hr
  -- the log of the session
  obtain ⟨item', p', r', count, l, log, hl, hof, hlog⟩ : ∃ item' p' r' count, ∃ l : List Call,
      ∃ log, (∀ c ∈ l, ∃ x room, c = .socket (.join x room)) ∧ h.of i = l.map .call ++ log ∧
        ReadLog q item' p' r' count log := by
    cases q with
    | markChatRead u dto =>
      obtain ⟨item', p', count, -, hlog⟩ := hrep
      exact ⟨item', p', u, count, [], _, by simp, rfl, hlog⟩
    | joinChat client dto =>
      obtain ⟨conv, room, count, log, -, hof, hlog⟩ := hrep
      exact ⟨_, _, _, count, [.socket (.join client room)], log, by simp, hof, hlog⟩
    | _ => cases hconv
  have hevents : (h.of i).filterMap Log.event? = log.filterMap Log.event? := by
    rw [hof, List.filterMap_append, List.filterMap_map]
    simp [Function.comp_def, Log.event?]
  have hcs := hevents ▸ hcs i
  obtain rfl : affected cfg users acts i = count := affected_of_readLog hlog hcs
  rw [ReadLog, if_neg hcount.ne'] at hlog
  -- its commit is of the conversation
  rw [hlog] at hcs
  obtain ⟨c, cs, hpub, -, hcons⟩ := List.forall₂_cons_right_iff.1 hcs
  obtain ⟨hc, hci⟩ := List.mem_filter.1 (hcons ▸ List.mem_cons_self : c ∈ List.filter _ _)
  obtain ⟨⟨st', hi'⟩, hsame⟩ := commit_conversation hrun hc
  rw [of_decide_eq_true hci, hi] at hi'
  cases hi'
  obtain ⟨-, hb, -, log', L, -, he, -⟩ := hpub
  have hq := he.read.1
  rw [hsame, hq] at hconv
  cases hconv
  obtain ⟨dto, p, item, -, rfl, hp, hitem, hpeer⟩ := Request.conversation?_eq hq
  obtain ⟨hpeer, hne⟩ :=
    Talks.peer hdecode ⟨c.db, item, hb, hitem, hpeer⟩ (peerOf_idChars hdecode hp)
  refine ⟨?_, hpeer, hne, ⟨h, hs⟩, l, ?_, hl⟩
  · have hm : .emit (.readMessages dto.itemId peer reader (affected cfg users acts i)) ∈ h.of i := by
      rw [hof, hlog]; simp
    obtain ⟨q, hm⟩ := Spec.History.mem_of.1 hm
    exact (readers_ok hdecode (fun n => by simp [Database.migrated]) hs.path).2 i q _ _ _ _ hm hcount
  · rw [hs.callsOf, hof, hlog, List.filterMap_append, List.filterMap_map]
    simp only [Function.comp_def, Log.call?, List.filterMap_some]
    rfl

/-! ## Who receives a receipt -/

/-- Every connected socket of the two parties receives the event from session `i` once, and nobody
    else receives it. -/
def ReachesParties (calls before : List (ℕ × Call)) (i : ℕ) (e : ServerEvent) (a b : String) : Prop :=
  (∀ x ∈ (RoomState.after (socketOps before)).connected, x.userId = a ∨ x.userId = b →
    received calls i e x = 1) ∧
  ∀ x : ChatSocket, x.userId ≠ a → x.userId ≠ b → received calls i e x = 0

/-- The request makes a socket join the room of a conversation. -/
def Request.joins : Request cfg → Bool
  | .joinChat .. => true
  | _ => false

/-- **Read receipts**: a request that marks messages as read sends one receipt, and no third employee
    receives it.  If connected sockets have joined their user rooms, it reaches every socket of both
    parties once iff the request does not open the conversation, or all connected sockets of the reader
    are in its room. -/
theorem read_receipts_iff {users : Table String User} {acts : List (AppAction cfg)} {s : AppState cfg}
    (hdecode : ∀ s v, cfg.decode s = some v → IdChars v)
    (hids : ∀ q : Request cfg, .submit q ∈ acts → q.actorOk) (hrun : runs cfg users acts = some s)
    {i : ℕ} {st : Stage market} {r : Response} (hi : s.sessions[i]? = some (q, st))
    (hr : st.reply? = some (.ok r)) {itemId : ℤ} {peer reader : String}
    (hconv : q.conversation? cfg s.db = some (itemId, peer, reader))
    (hcount : 0 < affected cfg users acts i) :
    let receipt : ServerEvent := .messagesRead itemId reader (affected cfg users acts i)
    ∃ before after, s.calls = before ++
        (i, .socket (.emit (q.readRooms itemId reader peer) none receipt)) :: after ∧
      (∀ x : ChatSocket, x.userId ≠ reader → x.userId ≠ peer → received s.calls i receipt x = 0) ∧
      ((∀ x ∈ (RoomState.after (socketOps before)).connected,
          (userRoom x.userId, x) ∈ (RoomState.after (socketOps before)).members) →
        (ReachesParties s.calls before i receipt reader peer ↔
          (q.joins = true → ∀ x ∈ (RoomState.after (socketOps before)).connected,
            x.userId = reader → (conversationRoom itemId reader peer, x) ∈
              (RoomState.after (socketOps before)).members))) := by
  intro receipt
  obtain ⟨hreader, hpeer, hne, ⟨h, hs⟩, l, hl, hjoin⟩ :=
    receipt_sent hdecode hids hrun hi hr hconv hcount
  obtain ⟨before, after, hcalls, hbefore, hafter⟩ := State.callsOf_split hl
  have hrec (x : ChatSocket) : received s.calls i receipt x =
      if x ∈ (RoomState.after (socketOps before)).recipients (q.readRooms itemId reader peer) none
      then 1 else 0 := by
    rw [hcalls]
    refine received_last (fun rooms except hm => ?_) hafter x
    obtain ⟨y, room, hy⟩ := hjoin _ (hbefore _ hm)
    cases hy
  have hsub : q.readRooms itemId reader peer ⊆
      [conversationRoom itemId reader peer, userRoom peer, userRoom reader] := by
    cases q <;> simp [Request.readRooms]
  have hops : ∀ op ∈ socketOps before, ∃ j, (j, .socket op) ∈ Spec.History.calls h := by
    intro op hop
    obtain ⟨j, hj⟩ := mem_socketOps.1 hop
    exact ⟨j, by rw [← hs.calls, hcalls]; exact List.mem_append_left _ hj⟩
  have hthird (x : ChatSocket) (hxr : x.userId ≠ reader) (hxp : x.userId ≠ peer) :
      received s.calls i receipt x = 0 := by
    rw [hrec, if_neg]
    intro hx
    obtain ⟨-, ⟨room, hroom, hx⟩, -⟩ := RoomState.mem_recipients.1 hx
    exact (parties_of_room hdecode hs.path hops hreader hpeer (hsub hroom) hx).elim hxr hxp
  refine ⟨before, after, hcalls, hthird, fun hjoined => ?_⟩
  have hone {x : ChatSocket} (hconn : x ∈ (RoomState.after (socketOps before)).connected) :
      received s.calls i receipt x = 1 ↔ ∃ room ∈ q.readRooms itemId reader peer,
        (room, x) ∈ (RoomState.after (socketOps before)).members := by
    rw [hrec, ite_eq_left_iff]
    simp [RoomState.mem_recipients, hconn]
  constructor
  · rintro ⟨hreach, -⟩ hjoins x hconn rfl
    obtain ⟨room, hroom, hx⟩ := (hone hconn).1 (hreach x hconn (Or.inl rfl))
    have hrooms : q.readRooms itemId x.userId peer =
        [conversationRoom itemId x.userId peer, userRoom peer] := by
      cases q with
      | joinChat => rfl
      | _ => cases hjoins
    simp only [hrooms, List.mem_cons, List.not_mem_nil, or_false] at hroom
    rcases hroom with rfl | rfl
    · exact hx
    · exact absurd (user_of_userRoom hdecode hs.path hops hx).symm hne
  · refine fun hroom => ⟨fun x hconn hparty => (hone hconn).2 ?_, hthird⟩
    by_cases hx : x.userId = peer
    · exact ⟨userRoom peer, by cases q <;> simp [Request.readRooms], hx ▸ hjoined x hconn⟩
    · have hx := hparty.resolve_right hx
      cases hj : q.joins with
      | true =>
        exact ⟨_, by cases q <;> simp [Request.readRooms], hroom hj x hconn hx⟩
      | false =>
        refine ⟨userRoom reader, ?_, hx ▸ hjoined x hconn⟩
        cases q with
        | joinChat => cases hj
        | _ => simp [Request.readRooms]

/-! ## Two devices -/

/-- A second socket of the seller. -/
def samplePhone : ChatSocket := ⟨"phone", "EMP00101"⟩

/-- The sockets of the seller connect, then the buyer writes. -/
def sampleDevices : List (AppAction sample) :=
  perform 0 6 (.createItem "EMP00101" sampleUnit) ++
    ([.submit (.connect sampleSocket), .exec 1, .answer 1 .done, .exec 1, .answer 1 .done] :
      List (AppAction sample)) ++
    ([.submit (.connect samplePhone), .exec 2, .answer 2 .done, .exec 2, .answer 2 .done] :
      List (AppAction sample)) ++
    perform 3 10 sampleMessage ++ [.answer 3 .done]

/-- The seller marks the conversation as read. -/
def sampleReceipt : List (AppAction sample) :=
  sampleDevices ++ perform 4 8 sampleRead ++ [.answer 4 .done]

/-- The seller opens the conversation on one device. -/
def sampleJoined : List (AppAction sample) :=
  sampleDevices ++ perform 4 4 sampleOpened ++ [.answer 4 .done] ++ List.replicate 5 (.exec 4) ++
    [.answer 4 .done]

/-- What happens before the seller reads. -/
def deviceCalls : List (ℕ × Call) :=
  [(1, .socket (.connect sampleSocket)),
    (1, .socket (.join sampleSocket (userRoom sampleSocket.userId))),
    (2, .socket (.connect samplePhone)), (2, .socket (.join samplePhone (userRoom samplePhone.userId))),
    (3, .socket (.emit (ChatsGateway.messageRooms ⟨1, "EMP00102", "EMP00101", "Hello", false, 0⟩)
      (some ⟨"socket", "EMP00102"⟩)
      (.newMessage 1 ⟨1, "EMP00102", "EMP00101", "Hello", false, 0⟩)))]

/-- The receipt of the seller. -/
abbrev sampleReceiptEvent : ServerEvent := .messagesRead 1 "EMP00101" 1

/-- Both devices receive the receipt of a request that does not open the conversation. -/
theorem read_receipts_iff_sample : ∃ s, runs sample sampleUsers sampleReceipt = some s ∧
    received s.calls 4 sampleReceiptEvent sampleSocket = 1 ∧
    received s.calls 4 sampleReceiptEvent samplePhone = 1 := by
  obtain ⟨s, hrun, hs⟩ : ∃ s, runs sample sampleUsers sampleReceipt = some s ∧
      ((s.sessions[4]?.any fun x => x.2.reply? = some (.ok (.count 1)) &&
        (match x.1 with
          | .markChatRead .. => true
          | _ => false) &&
        x.1.conversation? sample s.db = some (1, "EMP00102", "EMP00101")) &&
      affected sample sampleUsers sampleReceipt 4 = 1 &&
      s.calls = deviceCalls ++ [(4, .socket (.emit [conversationRoom 1 "EMP00101" "EMP00102",
        userRoom "EMP00102", userRoom "EMP00101"] none sampleReceiptEvent))]) = true :=
    reaches (by decide +kernel)
  simp only [Bool.and_eq_true, Option.any_eq_true, decide_eq_true_eq] at hs
  obtain ⟨⟨⟨⟨q, st⟩, hi, ⟨hr, hq⟩, hconv⟩, haff⟩, hcalls⟩ := hs
  have hids : ∀ q : Request sample, .submit q ∈ sampleReceipt → q.actorOk := by
    intro q hq
    simp only [sampleReceipt, sampleDevices, sampleMessage, sampleRead, perform, List.cons_append,
      List.mem_append, List.mem_cons, List.mem_replicate, List.not_mem_nil, Action.submit.injEq,
      reduceCtorEq, and_false, or_false, false_or] at hq
    rcases hq with rfl | ((rfl | rfl) | rfl) | rfl
    · exact idChars_of_isId (n := 50) (by decide +kernel)
    · trivial
    · trivial
    · exact idChars_of_isId (n := 50) (by decide +kernel)
    · trivial
  obtain ⟨before, after, hsplit, -, hiff⟩ :=
    read_receipts_iff (by simp [sample]) hids hrun hi hr hconv (by rw [haff]; decide)
  obtain rfl : before = deviceCalls := by
    rw [hcalls] at hsplit
    rcases List.eq_nil_or_concat after with rfl | ⟨l, y, rfl⟩
    · exact (List.append_inj_left' hsplit rfl).symm
    · rw [List.concat_eq_append, ← List.cons_append, ← List.append_assoc] at hsplit
      have hm := List.append_inj_left' hsplit rfl ▸ List.mem_append_right before List.mem_cons_self
      simp [deviceCalls] at hm
  obtain ⟨hreach, -⟩ := (hiff (by decide +kernel)).2 fun hj => by
    cases q <;> simp_all [Request.joins]
  rw [haff] at hreach
  exact ⟨s, hrun, hreach _ (by decide +kernel) (Or.inl rfl), hreach _ (by decide +kernel) (Or.inl rfl)⟩

/-- The phone does not receive the receipt when the seller opens the conversation elsewhere. -/
theorem read_receipts_counterexample : ∃ s q st r before after,
    runs sample sampleUsers sampleJoined = some s ∧ s.sessions[4]? = some (q, st) ∧
    st.reply? = some (.ok r) ∧ q.joins = true ∧
    q.conversation? sample s.db = some (1, "EMP00102", "EMP00101") ∧
    affected sample sampleUsers sampleJoined 4 = 1 ∧
    s.calls = before ++ (4, .socket (.emit (q.readRooms 1 "EMP00101" "EMP00102") none
      sampleReceiptEvent)) :: after ∧
    (∀ x ∈ (RoomState.after (socketOps before)).connected,
      (userRoom x.userId, x) ∈ (RoomState.after (socketOps before)).members) ∧
    ¬ ReachesParties s.calls before 4 sampleReceiptEvent "EMP00101" "EMP00102" := by
  let before : List (ℕ × Call) := deviceCalls ++
    [(4, .socket (.join sampleSocket (conversationRoom 1 "EMP00101" "EMP00102")))]
  obtain ⟨s, hrun, hs⟩ : ∃ s, runs sample sampleUsers sampleJoined = some s ∧
      ((s.sessions[4]?.any fun x => (x.2.reply?.any fun r => r.toOption.isSome) && x.1.joins &&
        x.1.conversation? sample s.db = some (1, "EMP00102", "EMP00101") &&
        s.calls = before ++ [(4, .socket (.emit (x.1.readRooms 1 "EMP00101" "EMP00102") none
          sampleReceiptEvent))]) &&
      affected sample sampleUsers sampleJoined 4 = 1 &&
      received s.calls 4 sampleReceiptEvent samplePhone = 0) = true :=
    reaches (by decide +kernel)
  simp only [Bool.and_eq_true, Option.any_eq_true, decide_eq_true_eq] at hs
  obtain ⟨⟨⟨⟨q, st⟩, hi, ⟨⟨⟨r, hr, hok⟩, hjoins⟩, hconv⟩, hcalls⟩, haff⟩, hphone⟩ := hs
  cases r with
  | error => cases hok
  | ok r =>
    refine ⟨s, q, st, r, before, [], hrun, hi, hr, hjoins, hconv, haff, hcalls, by decide +kernel,
      fun h => ?_⟩
    have := h.1 samplePhone (by decide +kernel) (Or.inl rfl)
    rw [hphone] at this
    cases this

end Marketplace
