/-
  Who receives a chat message over the sockets: the room invariant behind
  delivery and confidentiality.
-/
import Marketplace.Proof.RoomNames
import Marketplace.Proof.Runs

namespace Marketplace

open ReadCommitted ChatsService ChatsGateway

variable {cfg : Config} {q : Request cfg} {e : Event} {L : List Key} {d d' : Database}

/-! ## Ids -/

/-- The employees whose ids get into room names have ids of the usual characters. -/
def Request.actorOk : Request cfg → Prop
  | .createItem sellerId _ => IdChars sellerId
  | .joinChat client _ | .sendMessage client _ => IdChars client.userId
  | _ => True

/-- The sellers of all items have ids of the usual characters. -/
def SellersOk (d : Database) : Prop := ∀ i item, d.items.get i = some item → IdChars item.sellerId

variable (cfg) in
/-- Requests by employees whose ids have the usual characters. -/
def Regime.ids : Regime cfg where
  admitted := Request.actorOk
  base := SellersOk
  keeps := by
    intro q e L d d' hq hb he
    refine he.forall_items hb (fun sellerId dto price now hcreate _ => ?_) fun _ _ _ h => h
    subst hcreate
    exact hq

section
variable (hdecode : ∀ s v, cfg.decode s = some v → IdChars v)
include hdecode

/-- Resolving keeps the usual characters: of a plain id, and by assumption of a decoded one. -/
theorem resolve_idChars {value : Option String} (h : ∀ v ∈ value, IdChars v) :
    ∀ v ∈ PeerTokenService.resolve cfg value, IdChars v := by
  intro v hv
  unfold PeerTokenService.resolve at hv
  split_ifs at hv
  · obtain ⟨s, hs, rfl⟩ := Option.map_eq_some_iff.1 hv
    cases hd : cfg.decode s with
    | none => exact h s hs
    | some w => exact hdecode s w hd
  · exact h v hv

theorem peerOf_idChars {dto : ConversationDto} {conv : Option String}
    (h : peerOf cfg dto = .ok conv) :
    ∀ v ∈ conv, IdChars v := by
  intro v hv
  have hw := resolve_idChars hdecode fun s hs => idChars_of_isId (dto.withUserId_ok s hs)
  have hp := resolve_idChars hdecode fun s hs => idChars_of_isId (dto.peerId_ok s hs)
  simp only [peerOf] at h
  split_ifs at h
  cases h
  rcases Option.or_eq_some_iff.1 hv with hv | ⟨-, hv⟩
  · exact hw v hv
  · exact hp v hv

theorem Talks.peer {me : String} {i : ℤ} {withUserId : Option String} {peer : String}
    (h : Talks cfg SellersOk me i withUserId peer) (hw : ∀ v ∈ withUserId, IdChars v) :
    IdChars peer ∧ peer ≠ me := by
  obtain ⟨d, item, hb, hi, hp⟩ := h
  have hseller := hb i item hi
  simp only [peerFor] at hp
  split_ifs at hp with hs
  · have hv := resolve_idChars hdecode hw
    cases hf : (PeerTokenService.resolve cfg withUserId).filter (· ≠ "") with
    | none => rw [hf] at hp; cases hp
    | some v =>
      rw [hf] at hp
      dsimp only at hp
      split_ifs at hp with hme
      cases hp
      exact ⟨hv _ (Option.filter_eq_some_iff.1 hf).1, hme⟩
  · cases hp; exact ⟨hseller, hs⟩

end

/-! ## Messages and rooms -/

theorem Emits.new_message {base : Database → Prop} {n : ℤ} {m : Message}
    (he : Emits cfg base q (.sendMessage n m) L d d') :
    d.messages.get n = none ∧ d'.messages.get n = some m ∧ ∃ client dto,
      q = .sendMessage client dto ∧ m.senderId = client.userId ∧
      Talks cfg base client.userId m.itemId (PeerTokenService.resolve cfg (some dto.receiverId))
        m.receiverId := by
  cases he with
  | sendMessage _ ht _ _ hn => exact ⟨hn, Table.get_put .., _, _, rfl, rfl, ht⟩

theorem sent_once {R : Regime cfg} {d₀ : Database} {h : R.spec.History} (hp : R.spec.Path d₀ h d) :
    (∀ i q n m, (i, q, .emit (.sendMessage n m)) ∈ h → (d.messages.get n).isSome) ∧
      ∀ i j q q' n m m', (i, q, .emit (.sendMessage n m)) ∈ h →
        (j, q', .emit (.sendMessage n m')) ∈ h → i = j := by
  induction hp with
  | nil => simp
  | fault | call => simpa
  | @emit h d d' i q e L _ _ _ he ih =>
    obtain ⟨hsome, huniq⟩ := ih
    have he : Emits cfg R.base q e L d d' := he.1
    -- a message that is sent now has not been sent before
    have hnew : ∀ j q' n m m', (j, q', .emit (.sendMessage n m)) ∈ h → e ≠ .sendMessage n m' := by
      rintro j q' n m m' hm rfl
      have := hsome j q' n m hm
      rw [he.new_message.1] at this; cases this
    constructor
    · intro j q' n m hm
      rcases List.mem_append.1 hm with hm | hm
      · exact he.message_kept (hsome j q' n m hm)
      · cases List.mem_singleton.1 hm
        simp [he.new_message.2.1]
    · intro j j' q₁ q₂ n m m' hm hm'
      rcases List.mem_append.1 hm with ho | ho <;> rcases List.mem_append.1 hm' with ho' | ho'
      · exact huniq j j' q₁ q₂ n m m' ho ho'
      · cases List.mem_singleton.1 ho'
        exact absurd rfl (hnew j q₁ n m m' ho)
      · cases List.mem_singleton.1 ho
        exact absurd rfl (hnew j' q₂ n m' m ho')
      · cases List.mem_singleton.1 ho; cases List.mem_singleton.1 ho'; rfl

/-- What happens at socket.io, among the calls. -/
def socketOps (calls : List (ℕ × Call)) : List (RoomOp ChatSocket String ServerEvent) :=
  calls.filterMap fun
    | (_, .socket op) => some op
    | _ => none

theorem mem_socketOps {calls : List (ℕ × Call)} {op : RoomOp ChatSocket String ServerEvent} :
    op ∈ socketOps calls ↔ ∃ i, (i, .socket op) ∈ calls := by
  simp only [socketOps, List.mem_filterMap]
  constructor
  · rintro ⟨⟨i, c⟩, hm, h⟩
    cases c with
    | socket op' => cases h; exact ⟨i, hm⟩
    | fcm => cases h
  · rintro ⟨i, hm⟩
    exact ⟨_, hm, rfl⟩

/-- Is it the event of message `n`? -/
def isNewMessage (n : ℤ) : ServerEvent → Bool
  | .newMessage n' _ => n' = n
  | _ => false

section
variable {d₀ : Database} {h : (Regime.ids cfg).spec.History}

theorem call_of_history (hp : (Regime.ids cfg).spec.Path d₀ h d) {i : ℕ} {c : Call}
    (hc : (i, c) ∈ h.calls) : ∃ h₁ h₂ q, h = h₁ ++ (i, q, .call c) :: h₂ ∧ q.actorOk ∧
      Calls cfg SellersOk q (Spec.History.of h₁ i) c := by
  obtain ⟨q, hm⟩ := Spec.History.mem_calls.1 hc
  obtain ⟨h₁, h₂, rfl⟩ := List.append_of_mem hm
  obtain ⟨hq, hcalls⟩ := hp.call_split
  exact ⟨h₁, h₂, q, rfl, hq, hcalls⟩

/-- **The room invariant**: a socket in a user room is one of that employee, and a socket in a
    conversation room is one of a participant. -/
theorem member_rooms (hdecode : ∀ s v, cfg.decode s = some v → IdChars v)
    (hp : (Regime.ids cfg).spec.Path d₀ h d) {ops : List (RoomOp ChatSocket String ServerEvent)}
    (hops : ∀ op ∈ ops, ∃ i, (i, .socket op) ∈ h.calls) {r : String} {x : ChatSocket}
    (hm : (r, x) ∈ (RoomState.after ops).members) :
    r = userRoom x.userId ∨ ∃ i peer, r = conversationRoom i x.userId peer ∧ IdChars x.userId ∧
      IdChars peer := by
  obtain ⟨i, hc⟩ := hops _ (RoomState.joined_of_mem hm)
  obtain ⟨h₁, h₂, q, -, hq, hcall⟩ := call_of_history hp hc
  rcases hcall with hr | ⟨dto, conv, peer, rfl, hconv, ht, hr⟩
  · exact Or.inl hr
  · exact Or.inr ⟨dto.itemId, peer, hr, hq, (ht.peer hdecode (peerOf_idChars hdecode hconv)).1⟩

/-- Only the employee's sockets sit in a user room. -/
theorem user_of_userRoom (hdecode : ∀ s v, cfg.decode s = some v → IdChars v)
    (hp : (Regime.ids cfg).spec.Path d₀ h d) {ops : List (RoomOp ChatSocket String ServerEvent)}
    (hops : ∀ op ∈ ops, ∃ i, (i, .socket op) ∈ h.calls) {u : String} {x : ChatSocket}
    (hx : (userRoom u, x) ∈ (RoomState.after ops).members) : x.userId = u := by
  rcases member_rooms hdecode hp hops hx with hr | ⟨i, peer, hr, -⟩
  · exact (userRoom_inj hr).symm
  · exact absurd hr (userRoom_ne_conversationRoom _ _ _ _)

/-- Only the two participants of a conversation sit in its rooms. -/
theorem parties_of_room (hdecode : ∀ s v, cfg.decode s = some v → IdChars v)
    (hp : (Regime.ids cfg).spec.Path d₀ h d) {ops : List (RoomOp ChatSocket String ServerEvent)}
    (hops : ∀ op ∈ ops, ∃ i, (i, .socket op) ∈ h.calls) {i : ℤ} {a b room : String} {x : ChatSocket}
    (ha : IdChars a) (hb : IdChars b) (hroom : room ∈ [conversationRoom i a b, userRoom b, userRoom a])
    (hx : (room, x) ∈ (RoomState.after ops).members) : x.userId = a ∨ x.userId = b := by
  simp only [List.mem_cons, List.not_mem_nil, or_false] at hroom
  rcases hroom with rfl | rfl | rfl
  · rcases member_rooms hdecode hp hops hx with hr | ⟨i', peer, hr, hxid, hpeer⟩
    · exact absurd hr.symm (userRoom_ne_conversationRoom _ _ _ _)
    · rcases (conversationRoom_inj hxid hpeer ha hb hr.symm).2 with h | h
      · exact Or.inl h.1
      · exact Or.inr h.1
  · exact Or.inr (user_of_userRoom hdecode hp hops hx)
  · exact Or.inl (user_of_userRoom hdecode hp hops hx)

/-- A message that has been answered is broadcast by one call only. -/
theorem broadcast_once (hp : (Regime.ids cfg).spec.Path d₀ h d) {i j : ℕ} {n : ℤ} {m m' : Message}
    {c : Call} (hlog : Spec.History.of h i = [.emit (.sendMessage n m), .call c])
    {rooms : List String} {except : Option ChatSocket} {a b : (Regime.ids cfg).spec.History}
    (hh : h = a ++ (j, q, .call (.socket (.emit rooms except (.newMessage n m')))) :: b) :
    Spec.History.of a i = [.emit (.sendMessage n m)] ∧ Spec.History.of b i = [] := by
  have hcall := (hh ▸ hp).call_split.2
  obtain ⟨client, dto, -, -, -, hbefore⟩ := hcall
  obtain ⟨q₁, h₁⟩ := Spec.History.mem_of.1 (by rw [hlog]; exact List.mem_cons_self)
  obtain ⟨q₂, h₂⟩ := Spec.History.mem_of.1 (by rw [hbefore]; exact List.mem_cons_self)
  obtain rfl : i = j := (sent_once hp).2 i j q₁ q₂ n m m' h₁ (hh ▸ List.mem_append_left _ h₂)
  have hof : Spec.History.of h i = Spec.History.of a i ++
      .call (.socket (.emit rooms except (.newMessage n m'))) :: Spec.History.of b i := by
    rw [hh, Spec.History.of_append, Spec.History.of_cons_self]
  rw [hlog, hbefore] at hof
  simp only [List.singleton_append, List.cons.injEq] at hof
  exact ⟨by rw [hbefore, ← hof.1], hof.2.2.symm⟩

theorem other_broadcasts (hp : (Regime.ids cfg).spec.Path d₀ h d) {i : ℕ} {n : ℤ} {m : Message}
    {c : Call} (hlog : Spec.History.of h i = [.emit (.sendMessage n m), .call c])
    {h₁ h₂ : (Regime.ids cfg).spec.History} (hh : h = h₁ ++ (i, q, .call c) :: h₂)
    {rooms : List String}
    {except : Option ChatSocket} {e : ServerEvent}
    (he : .emit rooms except e ∈ socketOps (Spec.History.calls h₁) ∨
      .emit rooms except e ∈ socketOps (Spec.History.calls h₂)) : isNewMessage n e = false := by
  cases e with
  | messagesRead | notification | notificationsRead => rfl
  | newMessage n' m' =>
    refine decide_eq_false ?_
    rintro rfl
    rcases he with he | he <;> obtain ⟨j, hj⟩ := mem_socketOps.1 he <;>
      obtain ⟨q', hm⟩ := Spec.History.mem_calls.1 hj <;> obtain ⟨a, b, rfl⟩ := List.append_of_mem hm
    · -- a call before would be one of the session, before its own call
      rw [List.append_assoc, List.cons_append] at hh
      have := (broadcast_once hp hlog hh).2
      rw [Spec.History.of_append, Spec.History.of_cons_self] at this
      simp at this
    · rw [← List.cons_append, ← List.append_assoc] at hh
      have := (broadcast_once hp hlog hh).1
      rw [Spec.History.of_append, Spec.History.of_cons_self] at this
      have hnil : Spec.History.of h₁ i = [] := by
        rw [List.append_eq_singleton_iff] at this
        rcases this with ⟨hnil, -⟩ | ⟨-, hnil⟩
        · exact hnil
        · cases hnil
      rw [hnil] at this
      simp at this

/-- A message that has been answered is received once by each recipient of its broadcast. -/
theorem broadcast_received (hp : (Regime.ids cfg).spec.Path d₀ h d) {i : ℕ} {n : ℤ} {m : Message}
    {rooms : List String} {except : Option ChatSocket}
    (hlog : Spec.History.of h i =
      [.emit (.sendMessage n m), .call (.socket (.emit rooms except (.newMessage n m)))]) :
    ∃ h₁ h₂ : (Regime.ids cfg).spec.History,
      h.calls = h₁.calls ++ (i, .socket (.emit rooms except (.newMessage n m))) :: h₂.calls ∧
      ∀ x, RoomState.deliveries (isNewMessage n) x .empty (socketOps h.calls) =
        if x ∈ (RoomState.after (socketOps h₁.calls)).recipients rooms except then 1 else 0 := by
  obtain ⟨q, hc⟩ := Spec.History.mem_of.1 (hlog ▸ List.mem_cons_of_mem _ List.mem_cons_self)
  obtain ⟨h₁, h₂, hh⟩ := List.append_of_mem hc
  have hcalls : h.calls = Spec.History.calls h₁ ++
      (i, .socket (.emit rooms except (.newMessage n m))) :: Spec.History.calls h₂ := by
    rw [hh, Spec.History.calls_append]
    rfl
  refine ⟨h₁, h₂, hcalls, fun x => ?_⟩
  have hops : socketOps h.calls = socketOps (Spec.History.calls h₁) ++
      .emit rooms except (.newMessage n m) :: socketOps (Spec.History.calls h₂) := by
    rw [hcalls, socketOps, List.filterMap_append, List.filterMap_cons]
    rfl
  rw [hops]
  exact RoomState.deliveries_once (by simp [isNewMessage])
    (fun _ _ _ he => other_broadcasts hp hlog hh (Or.inl he))
    (fun _ _ _ he => other_broadcasts hp hlog hh (Or.inr he))

end

/-- **Delivery and confidentiality**: a message that is answered with a success is broadcast once, to
    the sockets of its sender other than the sending one and to those of its receiver, if connected
    sockets have joined their user rooms; a socket of anyone else never receives it. -/
theorem message_delivery {users : Table String User} {acts : List (AppAction cfg)}
    {s : AppState cfg}
    (hdecode : ∀ s v, cfg.decode s = some v → IdChars v)
    (hids : ∀ q : Request cfg, .submit q ∈ acts → q.actorOk) (hrun : runs cfg users acts = some s)
    {i : ℕ} {client : ChatSocket} {dto : SendMessageDto} {st : Stage market} {r : Response}
    (hi : s.sessions[i]? = some (.sendMessage client dto, st)) (hr : st.reply? = some (.ok r)) :
    ∃ n m before after, r = .message n m ∧ m.senderId = client.userId ∧ m.receiverId ≠ m.senderId ∧
      s.calls = before ++
        (i, .socket (.emit (messageRooms m) (some client) (.newMessage n m))) :: after ∧
      (∀ x : ChatSocket, x.userId ≠ m.senderId → x.userId ≠ m.receiverId →
        RoomState.deliveries (isNewMessage n) x .empty (socketOps s.calls) = 0) ∧
      ((∀ x ∈ (RoomState.after (socketOps before)).connected,
          (userRoom x.userId, x) ∈ (RoomState.after (socketOps before)).members) →
        ∀ x, RoomState.deliveries (isNewMessage n) x .empty (socketOps s.calls) =
          if x ∈ (RoomState.after (socketOps before)).connected ∧
            (x.userId = m.senderId ∧ x ≠ client ∨ x.userId = m.receiverId) then 1 else 0) := by
  obtain ⟨h, hs, hev⟩ := runs_sim (Regime.ids cfg)
    (fun i item hi => by simp [Database.migrated] at hi)
    hids hrun
  obtain ⟨n, m, rfl, hlog⟩ := hs.replies hi hr
  -- who talks to whom
  obtain ⟨q, hm⟩ := Spec.History.mem_of.1 (hlog ▸ List.mem_cons_self)
  obtain ⟨_, _, _, _, _, -, -, -, -, he⟩ := hev _ _ _ hm
  obtain ⟨-, -, client', dto', rfl, hsender, ht⟩ := he.new_message
  obtain ⟨st', hi'⟩ := hs.known _ hm
  rw [hi] at hi'; cases hi'
  have hclient : IdChars client.userId := hs.admitted i _ _ hi
  obtain ⟨hreceiver, hne⟩ := ht.peer hdecode (resolve_idChars hdecode fun v hv => by
    cases hv; exact idChars_of_isId dto.receiverId_ok)
  -- the call in the history
  obtain ⟨h₁, h₂, hcalls, hdel⟩ := broadcast_received hs.path hlog
  rw [← hs.calls] at hcalls hdel
  -- only the two participants sit in the rooms of the message
  have hmember {x : ChatSocket} {room : String} (hroom : room ∈ messageRooms m)
      (hx : (room, x) ∈ (RoomState.after (socketOps (Spec.History.calls h₁))).members) :
      x.userId = m.senderId ∨ x.userId = m.receiverId := by
    refine parties_of_room hdecode hs.path (fun op hop => ?_) (hsender ▸ hclient) hreceiver hroom hx
    obtain ⟨j, hj⟩ := mem_socketOps.1 hop
    exact ⟨j, by rw [← hs.calls, hcalls]; exact List.mem_append_left _ hj⟩
  refine ⟨n, m, _, _, rfl, hsender, hsender ▸ hne, hcalls, fun x hxs hxr => ?_, fun hjoined x => ?_⟩
  · rw [hdel, if_neg]
    intro hx
    obtain ⟨-, ⟨room, hroom, hx⟩, -⟩ := RoomState.mem_recipients.1 hx
    exact (hmember hroom hx).elim hxs hxr
  · rw [hdel]
    refine if_congr ?_ rfl rfl
    rw [RoomState.mem_recipients]
    constructor
    · rintro ⟨hconn, ⟨room, hroom, hx⟩, hex⟩
      refine ⟨hconn, (hmember hroom hx).imp_left fun h => ⟨h, fun e => hex (by rw [e])⟩⟩
    · rintro ⟨hconn, h⟩
      have hx := hjoined x hconn
      refine ⟨hconn, ⟨_, ?_, hx⟩, ?_⟩
      · rcases h with ⟨h, -⟩ | h <;> simp [messageRooms, h]
      · rintro hex
        cases hex
        rcases h with ⟨-, h⟩ | h
        · exact h rfl
        · exact hne h.symm

/-! ## One message -/

/-- A socket of the seller. -/
def sampleSocket : ChatSocket := ⟨"seller", "EMP00101"⟩

/-- The seller lists an item and connects, then the buyer writes. -/
def sampleDelivered : List (AppAction sample) :=
  perform 0 6 (.createItem "EMP00101" sampleUnit) ++
    [.submit (.connect sampleSocket), .exec 1, .answer 1 .done, .exec 1, .answer 1 .done] ++
    perform 2 10 sampleMessage ++ [.answer 2 .done]

/-- The seller's socket receives the message once. -/
theorem message_delivery_sample : ∃ s, runs sample sampleUsers sampleDelivered = some s ∧
    RoomState.deliveries (isNewMessage 1) sampleSocket .empty (socketOps s.calls) = 1 := by
  let m : Message := ⟨1, "EMP00102", "EMP00101", "Hello", false, 0⟩
  let client : ChatSocket := ⟨"socket", "EMP00102"⟩
  obtain ⟨s, hrun, hs⟩ : ∃ s, runs sample sampleUsers sampleDelivered = some s ∧
      ((s.sessions[2]?.any fun x => x.2.reply? = some (.ok (.message 1 m)) &&
        match x.1 with
        | .sendMessage c _ => c = client
        | _ => false) &&
      s.calls = [(1, .socket (.connect sampleSocket)),
        (1, .socket (.join sampleSocket (userRoom sampleSocket.userId))),
        (2, .socket (.emit (messageRooms m) (some client) (.newMessage 1 m)))]) = true :=
    reaches (by decide +kernel)
  simp only [Bool.and_eq_true, Option.any_eq_true, decide_eq_true_eq] at hs
  obtain ⟨⟨⟨q, st⟩, hi, hr, hq⟩, hcalls⟩ := hs
  obtain ⟨dto, rfl⟩ : ∃ dto, q = .sendMessage client dto := by
    split at hq
    · rename_i c dto heq
      obtain rfl := of_decide_eq_true hq
      exact ⟨dto, heq⟩
    · cases hq
  have hids : ∀ q : Request sample, .submit q ∈ sampleDelivered → q.actorOk := by
    intro q hq
    simp only [sampleDelivered, sampleMessage, perform, List.cons_append, List.mem_append,
      List.mem_cons, List.mem_replicate, List.not_mem_nil, Action.submit.injEq, reduceCtorEq,
      and_false, or_false, false_or] at hq
    rcases hq with rfl | rfl | rfl
    · exact idChars_of_isId (n := 50) (by decide +kernel)
    · trivial
    · exact idChars_of_isId (n := 50) (by decide +kernel)
  obtain ⟨n, m', before, after, hm, -, -, hsplit, -, hdel⟩ :=
    message_delivery (by simp [sample]) hids hrun hi hr
  cases hm
  obtain rfl : before = [(1, .socket (.connect sampleSocket)),
      (1, .socket (.join sampleSocket (userRoom sampleSocket.userId)))] := by
    rw [hcalls] at hsplit
    rcases before with _ | ⟨a, _ | ⟨b, _ | ⟨c, t⟩⟩⟩ <;> simp_all
  refine ⟨s, hrun, (hdel ?_ sampleSocket).trans (if_pos ?_)⟩
  · decide +kernel
  · decide +kernel

end Marketplace
