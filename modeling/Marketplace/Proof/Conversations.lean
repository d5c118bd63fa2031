/-
  Who can talk to whom: every message is between the seller of its item and
  one other employee, and the two find the same messages and the same room.
-/
import Marketplace.Proof.History
import Marketplace.Proof.PeerTokens
import Marketplace.Proof.Privacy
import Marketplace.Proof.RoomNames

namespace Marketplace

open ReadCommitted ChatsService

variable {cfg : Config} {cipher : PeerCipher} {q : Request cfg} {e : Event} {L : List Key} {d d' : Database}

/-! ## Messages -/

/-- A message is between the seller of its item and another employee. -/
def WithSeller (d : Database) (m : Message) : Prop :=
  ∃ item, d.items.get m.itemId = some item ∧ m.senderId ≠ m.receiverId ∧
    Xor (m.senderId = item.sellerId) (m.receiverId = item.sellerId)

/-- Whom one talks to: of the two, one is the seller. -/
theorem peerFor_xor {item : Item} {me peer : String} {p : Option String}
    (h : peerFor item me p = .ok peer) :
    me ≠ peer ∧ Xor (me = item.sellerId) (peer = item.sellerId) := by
  unfold peerFor at h
  split_ifs at h with hs
  · cases hf : p.filter (· ≠ "") with
    | none => rw [hf] at h; cases h
    | some v =>
      rw [hf] at h
      dsimp only at h
      split_ifs at h with hv
      cases h
      exact ⟨Ne.symm hv, Or.inl ⟨hs.symm, hs ▸ hv⟩⟩
  · cases h
    exact ⟨Ne.symm hs, Or.inr ⟨rfl, Ne.symm hs⟩⟩

theorem Emits.withSeller {base : Database → Prop} (he : Emits cfg base q e L d d')
    (h : ∀ n m, d.messages.get n = some m → WithSeller d m) {n : ℤ} {m : Message}
    (hm : d'.messages.get n = some m) : WithSeller d' m := by
  -- the seller of an item stays
  have kept {m : Message} (h : WithSeller d m) : WithSeller d' m := by
    obtain ⟨item, hi, hne, hx⟩ := h
    obtain ⟨item', hi', hs⟩ := he.item_kept hi
    exact ⟨item', hi', hne, by rwa [hs]⟩
  cases hn : d.messages.get n with
  | some m₀ =>
    rcases he.message_cases hn with h' | ⟨-, -, h'⟩ <;> rw [h'] at hm <;> cases hm
    · exact kept (h n m hn)
    · exact kept (m := { m₀ with isRead := true }) (h n m₀ hn)
  | none =>
    obtain ⟨-, rfl⟩ := he.message_new hn hm
    refine kept ?_
    cases he with
    | sendMessage _ _ ht =>
      obtain ⟨item, hi, hp⟩ := ht
      obtain ⟨hne, hx⟩ := peerFor_xor hp
      exact ⟨item, hi, hne, hx⟩

/-- Every message of a run is between the seller of its item and another employee. -/
theorem runs_withSeller {users : Table String User} {acts : List (AppAction cfg)} {s : AppState cfg}
    (hrun : runs cfg users acts = some s) :
    ∀ n m, s.db.messages.get n = some m → WithSeller s.db m :=
  runs_always (I := fun d => ∀ n m, d.messages.get n = some m → WithSeller d m)
    (fun n m h => by simp [Database.migrated] at h)
    (fun q e L d d' he h n m hm => he.withSeller h hm) hrun

/-! ## Naming the peer -/

section
variable (cfg)

/-- The request names `v`, by its id or by its token, or it names nobody. -/
structure MayName (v : String) (dto : ConversationDto) : Prop where
  withUserId : ∀ x ∈ dto.withUserId, x = v ∨ x = cfg.encode v
  peerId : ∀ x ∈ dto.peerId, x = v ∨ x = cfg.encode v

/-- The request names somebody. -/
def IsNamed (dto : ConversationDto) : Prop := (dto.withUserId.or dto.peerId).isSome

/-- The id is not a token itself, and its token stands for it. -/
structure Tokenized (v : String) : Prop where
  ne : v ≠ ""
  plain : cfg.decode v = none
  token : cfg.decode (cfg.encode v) = some v

end

theorem tokenized_of_plain {v : String} (hne : v ≠ "")
    (hplain : PeerTokenService.decode cipher v = none) : Tokenized (cfg.withPeerTokens cipher) v := by
  refine ⟨hne, ?_, ?_⟩
  · rw [Config.withPeerTokens_decode, hplain]
  · rw [Config.withPeerTokens_encode, Config.withPeerTokens_decode, decode_encode cipher hne]

theorem resolve_of_tokenized {v : String} (hv : Tokenized cfg v) {value : Option String}
    (hvalue : ∀ x ∈ value, x ≠ "" ∧ (x = v ∨ x = cfg.encode v)) :
    PeerTokenService.resolve cfg value = value.map fun _ => v := by
  cases value with
  | none => rfl
  | some x =>
    obtain ⟨hne, rfl | rfl⟩ := hvalue x rfl
    · simp [PeerTokenService.resolve, truthy, hne, hv.plain]
    · simp [PeerTokenService.resolve, truthy, hne, hv.token]

theorem ne_empty_of_isId {n : ℕ} {s : String} (h : isId n s = true) : s ≠ "" := by
  rintro rfl
  simp [isId] at h

theorem peerOf_of_mayName {v : String} (hv : Tokenized cfg v) {dto : ConversationDto}
    (h : MayName cfg v dto) :
    peerOf cfg dto = .ok ((dto.withUserId.or dto.peerId).map fun _ => v) := by
  have hw := resolve_of_tokenized hv fun x hx =>
    ⟨ne_empty_of_isId (dto.withUserId_ok x hx), h.withUserId x hx⟩
  have hp := resolve_of_tokenized hv fun x hx =>
    ⟨ne_empty_of_isId (dto.peerId_ok x hx), h.peerId x hx⟩
  simp only [peerOf, hw, hp]
  cases dto.withUserId <;> cases dto.peerId <;> simp [truthy]

section
variable {item : Item} {dto : ConversationDto} {b : String}

theorem peerFor_of_buyer (hs : IsNamed dto → Tokenized cfg item.sellerId) (hb : b ≠ item.sellerId)
    (hname : MayName cfg item.sellerId dto) :
    ∃ p, peerOf cfg dto = .ok p ∧
      peerFor item b (PeerTokenService.resolve cfg p) = .ok item.sellerId := by
  by_cases hnamed : IsNamed dto
  · have hs := hs hnamed
    refine ⟨_, peerOf_of_mayName hs hname, ?_⟩
    rw [resolve_of_tokenized hs]
    · cases dto.withUserId <;> cases dto.peerId <;> simp [peerFor, Ne.symm hb, truthy]
    · intro x hx
      obtain ⟨_, -, rfl⟩ := Option.map_eq_some_iff.1 hx
      exact ⟨hs.ne, Or.inl rfl⟩
  · obtain ⟨hw, hp⟩ := Option.or_eq_none_iff.1 (Option.not_isSome_iff_eq_none.1 hnamed)
    have hnone : PeerTokenService.resolve cfg none = none := rfl
    refine ⟨none, by simp [peerOf, hw, hp, hnone, truthy], ?_⟩
    simp [peerFor, hnone, Ne.symm hb, truthy]

theorem peerFor_of_seller (hb : Tokenized cfg b) (hne : b ≠ item.sellerId)
    (hname : MayName cfg b dto) (hsome : IsNamed dto) :
    ∃ p, peerOf cfg dto = .ok p ∧
      peerFor item item.sellerId (PeerTokenService.resolve cfg p) = .ok b := by
  refine ⟨_, peerOf_of_mayName hb hname, ?_⟩
  obtain ⟨v, hv⟩ := Option.isSome_iff_exists.1 hsome
  rw [hv, Option.map_some, resolve_of_tokenized hb (by simpa using hb.ne)]
  simp [peerFor, Option.filter, hb.ne, hne]

end

theorem joinChat_responds {client : ChatSocket} {dto : ConversationDto} {p : Option String}
    {item : Item} {peer : String} (hp : peerOf cfg dto = .ok p)
    (hi : d.items.get dto.itemId = some item)
    (hpeer : peerFor item client.userId (PeerTokenService.resolve cfg p) = .ok peer) :
    Responds cfg d (.joinChat client dto) (.ok (.joined
      ⟨dto.itemId, item.sellerId, peer, cfg.encode peer⟩
      (conversationRoom dto.itemId client.userId peer))) := by
  show (ChatsGateway.joinChat cfg client dto).RepliesOn d _
  unfold ChatsGateway.joinChat
  simp only [hp]
  refine replies_query ?_
  simp only [hi, hpeer]
  refine .call fun _ => markAsRead_replies rfl fun d' => ?_
  split_ifs
  · exact .call fun _ => .done
  · exact .done

section
variable {u : String} {p : Option String} {item : Item} {e : Exception}

theorem history_refused {dto : ChatHistoryQueryDto} (hp : peerOf cfg dto.toConversationDto = .ok p)
    (hi : d.items.get dto.itemId = some item)
    (hpeer : peerFor item u (PeerTokenService.resolve cfg p) = .error e) :
    Responds cfg d (.history u dto) (.error (.app e)) := by
  intro answers now seq
  simp only [program, getHistory, hp, resolveConversation, eval_query, hi, hpeer]
  rfl

theorem joinChat_refused {client : ChatSocket} {dto : ConversationDto} (hp : peerOf cfg dto = .ok p)
    (hi : d.items.get dto.itemId = some item)
    (hpeer : peerFor item client.userId (PeerTokenService.resolve cfg p) = .error e) :
    Responds cfg d (.joinChat client dto) (.error (.app e)) := by
  intro answers now seq
  simp only [program, ChatsGateway.joinChat, hp, resolveConversation, eval_query, hi, hpeer]
  rfl

end

/-! ## Both sides -/

/-- The rows the two sides' queries select are the same. -/
theorem inHistory_comm (i : ℤ) (a b : String) (c : Option ℤ) :
    inHistory i a b c = inHistory i b a c := by
  funext x
  simp only [inHistory, Bool.or_comm]

theorem historyRows_comm (d : Database) (i : ℤ) (a b : String) (c : Option ℤ) (limit : ℕ) :
    historyRows d i a b c limit = historyRows d i b a c limit := by
  rw [historyRows, historyRows, inHistory_comm]

/-- The seller's conversation with an employee has every message of that employee on the item. -/
theorem WithSeller.inHistory_iff {d : Database} {m : Message} {item : Item} {b : String}
    (h : WithSeller d m) (hi : d.items.get m.itemId = some item) (hb : b ≠ item.sellerId)
    (hparty : m.senderId = b ∨ m.receiverId = b) (n : ℤ) (c : Option ℤ) :
    inHistory m.itemId b item.sellerId c (n, m) = true ↔ ∀ k ∈ c, n < k := by
  obtain ⟨item', hi', -, hx⟩ := h
  rw [hi] at hi'; cases hi'
  -- the other party is the seller
  have hpair : (m.senderId = b ∧ m.receiverId = item.sellerId) ∨
      (m.senderId = item.sellerId ∧ m.receiverId = b) := by
    rcases hparty with rfl | rfl <;> rcases hx with ⟨h₁, h₂⟩ | ⟨h₁, h₂⟩
    · exact absurd h₁ hb
    · exact Or.inl ⟨rfl, h₁⟩
    · exact Or.inr ⟨h₁, rfl⟩
    · exact absurd h₁ hb
  rcases hpair with ⟨h₁, h₂⟩ | ⟨h₁, h₂⟩ <;> cases c <;> simp [inHistory, h₁, h₂]

/-- **Messages are only between the seller of their item and one other employee**; what the two have
    written is what the history of either selects, and both resolve one room, whether they name each
    other by id or by token (and the buyer may name nobody), if an id that is named is not itself a
    token. -/
theorem seller_and_one_other {users : Table String User}
    {acts : List (AppAction (cfg.withPeerTokens cipher))} {s : AppState (cfg.withPeerTokens cipher)}
    (hrun : runs (cfg.withPeerTokens cipher) users acts = some s) :
    (∀ n m, s.db.messages.get n = some m → WithSeller s.db m) ∧
    ∀ i item b, s.db.items.get i = some item → b ≠ item.sellerId →
      (∀ n m c, s.db.messages.get n = some m → m.itemId = i → (m.senderId = b ∨ m.receiverId = b) →
        (inHistory i b item.sellerId c (n, m) = true ↔ ∀ k ∈ c, n < k) ∧
        (inHistory i item.sellerId b c (n, m) = true ↔ ∀ k ∈ c, n < k)) ∧
      (∀ dto : ConversationDto, dto.itemId = i →
        MayName (cfg.withPeerTokens cipher) item.sellerId dto →
        (IsNamed dto → item.sellerId ≠ "" ∧ PeerTokenService.decode cipher item.sellerId = none) →
        (∀ query : ChatHistoryQueryDto, query.toConversationDto = dto →
          Responds (cfg.withPeerTokens cipher) s.db (.history b query) (.ok (historyPage
            ⟨i, item.sellerId, item.sellerId, PeerTokenService.encode cipher item.sellerId⟩ query.limit
            (historyRows s.db i b item.sellerId query.beforeId query.limit)))) ∧
        ∀ client : ChatSocket, client.userId = b →
          Responds (cfg.withPeerTokens cipher) s.db (.joinChat client dto) (.ok (.joined
            ⟨i, item.sellerId, item.sellerId, PeerTokenService.encode cipher item.sellerId⟩
            (conversationRoom i b item.sellerId)))) ∧
      ∀ dto : ConversationDto, dto.itemId = i → MayName (cfg.withPeerTokens cipher) b dto →
        IsNamed dto → b ≠ "" → PeerTokenService.decode cipher b = none →
        (∀ query : ChatHistoryQueryDto, query.toConversationDto = dto →
          Responds (cfg.withPeerTokens cipher) s.db (.history item.sellerId query) (.ok (historyPage
            ⟨i, item.sellerId, b, PeerTokenService.encode cipher b⟩ query.limit
            (historyRows s.db i b item.sellerId query.beforeId query.limit)))) ∧
        ∀ client : ChatSocket, client.userId = item.sellerId →
          Responds (cfg.withPeerTokens cipher) s.db (.joinChat client dto) (.ok (.joined
            ⟨i, item.sellerId, b, PeerTokenService.encode cipher b⟩
            (conversationRoom i b item.sellerId))) := by
  have hall := runs_withSeller hrun
  refine ⟨hall, fun i item b hi hb => ⟨fun n m c hm hmi hparty => ?_,
    fun dto hdto hname hplain => ?_, fun dto hdto hname hnamed hne hplain => ?_⟩⟩
  · subst hmi
    have hrow := (hall n m hm).inHistory_iff hi hb hparty n c
    exact ⟨hrow, by rwa [inHistory_comm]⟩
  · subst hdto
    obtain ⟨p, hp, hpeer⟩ := peerFor_of_buyer
      (fun h => tokenized_of_plain (hplain h).1 (hplain h).2) hb hname
    refine ⟨fun query hquery => ?_, fun client hclient => ?_⟩
    · subst hquery
      exact history_responds hp hi hpeer query.beforeId query.beforeId_min
    · subst hclient
      exact joinChat_responds hp hi hpeer
  · subst hdto
    obtain ⟨p, hp, hpeer⟩ := peerFor_of_seller (tokenized_of_plain hne hplain) hb hname hnamed
    refine ⟨fun query hquery => ?_, fun client hclient => ?_⟩
    · subst hquery
      rw [← historyRows_comm]
      exact history_responds hp hi hpeer query.beforeId query.beforeId_min
    · rw [← hclient] at hpeer
      have hseller := joinChat_responds hp hi hpeer
      rwa [conversationRoom_comm, hclient] at hseller

/-! ## Tokens -/

/-- The sample with the peer tokens of the plain cipher. -/
def plainTokens : Config := sample.withPeerTokens plainCipher

def plainUnit : CreateItemDto plainTokens :=
  { sampleUnit with images_ok := sampleUnit.images_ok }

/-- The tokens of the seller and of the buyer. -/
def sellerToken : String := PeerTokenService.encode plainCipher "EMP00101"

def buyerToken : String := PeerTokenService.encode plainCipher "EMP00102"

theorem sellerToken_ok : isId 128 sellerToken = true := by decide +kernel

theorem buyerToken_ok : isId 128 buyerToken = true := by decide +kernel

/-- The buyer names the seller by token. -/
def tokenMessage : Request plainTokens :=
  .sendMessage ⟨"socket", "EMP00102"⟩
    { sampleHello with receiverId := sellerToken, receiverId_ok := sellerToken_ok }

def tokenWritten : List (AppAction plainTokens) :=
  perform 0 6 (.createItem "EMP00101" plainUnit) ++ perform 1 9 tokenMessage

/-- A request about the first item that names an employee by id or token. -/
def named (v : String) (h : isId 128 v = true) : ConversationDto :=
  ⟨1, some v, none, sampleOrder.itemId_min, by simpa using h, noPeer_ok⟩

theorem mayName_named {v x : String} (h : isId 128 x = true) (hx : x = v ∨ x = cfg.encode v) :
    MayName cfg v (named x h) := by
  refine ⟨?_, by rintro _ ⟨⟩⟩
  rintro _ ⟨⟩
  exact hx

/-- The seller and the buyer, who name each other by token, resolve one room. -/
theorem seller_and_one_other_tokens : ∃ s m room, runs plainTokens sampleUsers tokenWritten = some s ∧
    s.db.messages.get 1 = some m ∧ WithSeller s.db m ∧
    Responds plainTokens s.db (.joinChat ⟨"buyer", "EMP00102"⟩ (named sellerToken sellerToken_ok))
      (.ok (.joined ⟨1, "EMP00101", "EMP00101", sellerToken⟩ room)) ∧
    Responds plainTokens s.db (.joinChat ⟨"seller", "EMP00101"⟩ (named buyerToken buyerToken_ok))
      (.ok (.joined ⟨1, "EMP00101", "EMP00102", buyerToken⟩ room)) := by
  obtain ⟨s, hrun, hs⟩ : ∃ s, runs plainTokens sampleUsers tokenWritten = some s ∧
      (((s.db.items.get 1).any fun item => item.sellerId = "EMP00101") &&
        (s.db.messages.get 1).isSome) = true :=
    reaches (by decide +kernel)
  simp only [Bool.and_eq_true, Option.any_eq_true, decide_eq_true_eq] at hs
  obtain ⟨⟨item, hi, hseller⟩, hm⟩ := hs
  obtain ⟨m, hm⟩ := Option.isSome_iff_exists.1 hm
  obtain ⟨hall, hboth⟩ := seller_and_one_other hrun
  obtain ⟨-, hbuyer, hseller'⟩ := hboth 1 item "EMP00102" hi (by rw [hseller]; decide)
  rw [hseller] at hbuyer hseller'
  have hbuyer := (hbuyer (named sellerToken sellerToken_ok) rfl (mayName_named _ (Or.inr rfl))
    fun _ => ⟨by decide, by decide +kernel⟩).2 ⟨"buyer", "EMP00102"⟩ rfl
  have hseller' := (hseller' (named buyerToken buyerToken_ok) rfl (mayName_named _ (Or.inr rfl)) rfl
    (by decide) (by decide +kernel)).2 ⟨"seller", "EMP00101"⟩ rfl
  exact ⟨s, m, _, hrun, hm, hall 1 m hm, hbuyer, hseller'⟩

/-! ## An id that is a token -/

/-- The token of the employee `A`, which is also a valid employee id. -/
def tokenId : String := "AAAAAAAAAAAAAAAAQQAAAAAAAAAAAAAAAAAAAAA"

theorem tokenId_ok : isId 128 tokenId = true := by decide

def withTokenId : Table String User := sampleUsers.put tokenId (sampleUser "Seller" none)

/-- A seller with this id writes to the buyer. -/
def tokenIdWrites : List (AppAction plainTokens) :=
  perform 0 6 (.createItem tokenId plainUnit) ++
    perform 1 9 (.sendMessage ⟨"socket", tokenId⟩
      { sampleHello with receiverId := "EMP00102", receiverId_ok := buyerId_ok })

/-- The buyer is refused the conversation with this seller, whom the request names by id. -/
theorem seller_and_one_other_counterexample : ∃ s item m,
    runs plainTokens withTokenId tokenIdWrites = some s ∧
    s.db.items.get 1 = some item ∧ item.sellerId = tokenId ∧
    s.db.messages.get 1 = some m ∧ m.itemId = 1 ∧ m.senderId = tokenId ∧ m.receiverId = "EMP00102" ∧
    Responds plainTokens s.db
      (.history "EMP00102" ⟨named tokenId tokenId_ok, none, 50, noCursor_ok, by decide⟩)
      (.error (.app (.forbidden "Buyers can only chat with the seller of the item"))) ∧
    Responds plainTokens s.db (.joinChat ⟨"buyer", "EMP00102"⟩ (named tokenId tokenId_ok))
      (.error (.app (.forbidden "Buyers can only chat with the seller of the item"))) := by
  obtain ⟨s, hrun, hs⟩ : ∃ s, runs plainTokens withTokenId tokenIdWrites = some s ∧
      (((s.db.items.get 1).any fun item => item.sellerId = tokenId) &&
        (s.db.messages.get 1).any fun m =>
          m.itemId = 1 && m.senderId = tokenId && m.receiverId = "EMP00102") = true :=
    reaches (by decide +kernel)
  simp only [Bool.and_eq_true, Option.any_eq_true, decide_eq_true_eq] at hs
  obtain ⟨⟨item, hi, hseller⟩, m, hm, ⟨hitem, hsender⟩, hreceiver⟩ := hs
  have hp : peerOf plainTokens (named tokenId tokenId_ok) = .ok (some "A") := by decide +kernel
  have hresolve : PeerTokenService.resolve plainTokens (some "A") = some "A" := by decide +kernel
  have hpeer : peerFor item "EMP00102" (PeerTokenService.resolve plainTokens (some "A")) =
      .error (.forbidden "Buyers can only chat with the seller of the item") := by
    rw [hresolve, peerFor, hseller]
    decide
  refine ⟨s, item, m, hrun, hi, hseller, hm, hitem, hsender, hreceiver, history_refused hp hi hpeer,
    ?_⟩
  exact joinChat_refused hp hi hpeer

end Marketplace
