/-
  Peer tokens stand for employee ids: each id has one token, each token one
  spelling, and the requests do not distinguish them.
-/
import Marketplace.PeerTokens
import Marketplace.Proof.Runs

namespace Marketplace

open PeerTokenService

variable {cipher : PeerCipher} {cfg : Config} {u t : String}

/-! ## Bytes -/

theorem utf8_eq (s : String) : utf8 s = s.toList.flatMap String.utf8EncodeChar := by
  rw [utf8, ← String.utf8Encode_toList, List.utf8Encode, List.data_toByteArray]

theorem utf8_eq_nil {s : String} : utf8 s = [] ↔ s = "" := by
  rw [utf8_eq, List.flatMap_eq_nil_iff, ← String.toList_eq_nil_iff]
  constructor
  · intro h
    exact List.eq_nil_iff_forall_not_mem.2 fun c hc => String.utf8EncodeChar_ne_nil (h c hc)
  · intro h c hc
    rw [h] at hc; cases hc

theorem toUtf8String_utf8 (cipher : PeerCipher) (s : String) :
    toUtf8String cipher (utf8 s) = s := by
  have hbytes : (⟨⟨utf8 s⟩⟩ : ByteArray) = s.toByteArray := rfl
  rw [toUtf8String, hbytes, String.fromUTF8?, dif_pos s.isValidUTF8]
  rfl

theorem isIdChar_utf8Size {c : Char} (h : isIdChar c = true) : c.utf8Size = 1 := by
  have hc : c.val ≤ 127 := by
    have h : ((decide ('A'.val ≤ c.val ∧ c.val ≤ 'Z'.val) ||
        decide ('a'.val ≤ c.val) && decide (c.val ≤ 'z'.val) ||
        decide ('0'.val ≤ c.val) && decide (c.val ≤ '9'.val)) || c == '_' || c == '-') = true := h
    simp only [Bool.or_eq_true, Bool.and_eq_true, decide_eq_true_eq, beq_iff_eq] at h
    rcases h with ((((⟨-, h⟩ | ⟨-, h⟩) | ⟨-, h⟩) | rfl) | rfl)
    · exact UInt32.le_trans h (by decide)
    · exact UInt32.le_trans h (by decide)
    · exact UInt32.le_trans h (by decide)
    · decide
    · decide
  exact if_pos hc

theorem length_utf8 (h : ∀ c ∈ u.toList, isIdChar c = true) : (utf8 u).length = u.length := by
  rw [utf8_eq, List.length_flatMap, ← String.length_toList]
  have hone : u.toList.map (fun c => (String.utf8EncodeChar c).length) = u.toList.map fun _ => 1 :=
    List.map_congr_left fun c hc => by
      rw [String.length_utf8EncodeChar, isIdChar_utf8Size (h c hc)]
  rw [hone]
  simp

theorem isIdChar_digit : ∀ n < 64, isIdChar (Base64Url.digit n) = true := by decide

/-! ## Tokens -/

/-- The bytes of the token of an employee: its IV, its ciphertext and its tag. -/
def tokenBytes (cipher : PeerCipher) (userId : String) : List UInt8 :=
  let iv := (cipher.hmac (utf8 userId)).take IV_LENGTH
  iv ++ (cipher.encrypt iv (utf8 userId)).1 ++ (cipher.encrypt iv (utf8 userId)).2

theorem length_iv (cipher : PeerCipher) (plain : List UInt8) :
    ((cipher.hmac plain).take IV_LENGTH).length = IV_LENGTH := by
  rw [List.length_take, cipher.hmac_length]; rfl

theorem length_tokenBytes (cipher : PeerCipher) (userId : String) :
    (tokenBytes cipher userId).length = IV_LENGTH + (utf8 userId).length + TAG_LENGTH := by
  simp only [tokenBytes, List.length_append, length_iv, cipher.encrypt_length, cipher.tag_length]

theorem length_encode (cipher : PeerCipher) (h : isId 50 u = true) :
    (encode cipher u).length = ((IV_LENGTH + u.length + TAG_LENGTH) * 4 + 2) / 3 := by
  simp only [isId, Bool.and_eq_true, List.all_eq_true] at h
  have hbytes := length_tokenBytes cipher u
  rw [length_utf8 h.2] at hbytes
  rw [← hbytes]
  exact Base64Url.length_encode _

/-- A token is of the form the DTOs of the chats ask for. -/
theorem encode_isId (cipher : PeerCipher) (h : isId 50 u = true) : isId 128 (encode cipher u) = true := by
  have htoken := length_encode cipher h
  simp only [isId, Bool.and_eq_true, decide_eq_true_eq, List.all_eq_true] at h ⊢
  obtain ⟨⟨-, hlen⟩, -⟩ := h
  refine ⟨⟨?_, ?_⟩, fun c hc => ?_⟩
  · rw [htoken]; unfold IV_LENGTH TAG_LENGTH; omega
  · rw [htoken]; unfold IV_LENGTH TAG_LENGTH; omega
  · obtain ⟨n, hn, rfl⟩ := Base64Url.of_mem_encode hc
    exact isIdChar_digit n hn

theorem isId_ne_empty {n : ℕ} (h : isId n u = true) : u ≠ "" := by
  rintro rfl
  simp [isId] at h

theorem decode_encode (cipher : PeerCipher) (hu : u ≠ "") : decode cipher (encode cipher u) = some u := by
  have hraw : Base64Url.decode (encode cipher u) = tokenBytes cipher u := Base64Url.decode_encode _
  have hplain : 0 < (utf8 u).length := List.length_pos_iff.2 (mt utf8_eq_nil.1 hu)
  have hlen := length_tokenBytes cipher u
  unfold decode
  rw [hraw]
  simp only [hlen]
  have hok : ¬ (IV_LENGTH + (utf8 u).length + TAG_LENGTH ≤ IV_LENGTH + TAG_LENGTH ∨
      Base64Url.encode (tokenBytes cipher u) ≠ encode cipher u) := by
    rintro (h | h)
    · omega
    · exact h rfl
  rw [if_neg hok]
  have hiv := length_iv cipher (utf8 u)
  have hcut : (tokenBytes cipher u).take (IV_LENGTH + (utf8 u).length) =
      (cipher.hmac (utf8 u)).take IV_LENGTH ++
        (cipher.encrypt ((cipher.hmac (utf8 u)).take IV_LENGTH) (utf8 u)).1 := by
    rw [tokenBytes]
    refine List.take_left' ?_
    rw [List.length_append, hiv, cipher.encrypt_length]
  have htag : (tokenBytes cipher u).drop (IV_LENGTH + (utf8 u).length) =
      (cipher.encrypt ((cipher.hmac (utf8 u)).take IV_LENGTH) (utf8 u)).2 := by
    rw [tokenBytes]
    refine List.drop_left' ?_
    rw [List.length_append, hiv, cipher.encrypt_length]
  have hfirst : (tokenBytes cipher u).take IV_LENGTH = (cipher.hmac (utf8 u)).take IV_LENGTH := by
    rw [tokenBytes, List.append_assoc]
    exact List.take_left' hiv
  rw [Nat.add_sub_cancel, hcut, htag, hfirst, List.drop_left' hiv, cipher.decrypt_encrypt u _ rfl,
    Option.map_some, toUtf8String_utf8]

/-- **A token has one spelling.** -/
theorem eq_encode_of_decode (h : decode cipher t = some u) : t = encode cipher u := by
  unfold decode at h
  generalize hraw : Base64Url.decode t = raw at h
  dsimp only at h
  split_ifs at h with hbad
  obtain ⟨hlen, hcanon⟩ := not_or.1 hbad
  obtain ⟨plain, hplain, rfl⟩ := Option.map_eq_some_iff.1 h
  obtain ⟨userId, hiv, henc⟩ := cipher.authentic _ _ _ _ hplain
  have hdec := cipher.decrypt_encrypt userId (raw.take IV_LENGTH) hiv
  rw [henc] at hdec
  obtain rfl : plain = utf8 userId := Option.some.inj (hplain.symm.trans hdec)
  have hcut : raw.take IV_LENGTH ++ (raw.take (raw.length - TAG_LENGTH)).drop IV_LENGTH =
      raw.take (raw.length - TAG_LENGTH) := by
    have hle : IV_LENGTH ≤ raw.length - TAG_LENGTH := by unfold IV_LENGTH TAG_LENGTH at *; omega
    conv_rhs => rw [← List.take_append_drop IV_LENGTH (raw.take (raw.length - TAG_LENGTH))]
    rw [List.take_take, Nat.min_eq_left hle]
  calc t = Base64Url.encode raw := (not_not.1 hcanon).symm
    _ = encode cipher userId := by
      rw [encode, ← hiv, henc, hcut, List.take_append_drop]
    _ = encode cipher (toUtf8String cipher (utf8 userId)) := by rw [toUtf8String_utf8]

/-- `SentAs cfg E u v`: the value `v` of a request names the employee `u` of `E`, by the id or by its
    token. -/
def SentAs (cfg : Config) (E : String → Prop) (u v : String) : Prop :=
  E u ∧ (v = u ∨ v = cfg.encode u)

/-- Two optional values of requests that name the same employee, or none. -/
inductive SameName (cfg : Config) (E : String → Prop) : Option String → Option String → Prop
  | absent : SameName cfg E none none
  | present {u v v' : String} : SentAs cfg E u v → SentAs cfg E u v' →
    SameName cfg E (some v) (some v')

/-- The requests do not distinguish an employee id from its token. -/
structure Interchangeable (cfg : Config) (E : String → Prop) : Prop where
  /-- resolved as often as one likes, a value names the employee it was sent for -/
  resolve : ∀ u v, SentAs cfg E u v → PeerTokenService.resolve cfg (some v) = some u ∧
    PeerTokenService.resolve cfg (PeerTokenService.resolve cfg (some v)) = some u
  peerOf : ∀ dto dto' : ConversationDto, dto.itemId = dto'.itemId →
    SameName cfg E dto.withUserId dto'.withUserId → SameName cfg E dto.peerId dto'.peerId →
    peerOf cfg dto = peerOf cfg dto'
  resolveConversation : ∀ itemId me peer peer' k, SameName cfg E peer peer' →
    ChatsService.resolveConversation cfg itemId me peer k =
      ChatsService.resolveConversation cfg itemId me peer' k
  createMessage : ∀ (me : String) (dto dto' : SendMessageDto) k, dto.itemId = dto'.itemId →
    dto.messageText = dto'.messageText → SameName cfg E (some dto.receiverId) (some dto'.receiverId) →
    ChatsService.createMessage cfg me dto k = ChatsService.createMessage cfg me dto' k
  getHistory : ∀ (me : String) (dto dto' : ChatHistoryQueryDto), dto.itemId = dto'.itemId →
    dto.beforeId = dto'.beforeId → dto.limit = dto'.limit →
    SameName cfg E dto.withUserId dto'.withUserId → SameName cfg E dto.peerId dto'.peerId →
    ChatsService.getHistory cfg me dto = ChatsService.getHistory cfg me dto'
  conversation : ∀ (client : ChatSocket) (dto dto' : ConversationDto), dto.itemId = dto'.itemId →
    SameName cfg E dto.withUserId dto'.withUserId → SameName cfg E dto.peerId dto'.peerId →
    ChatsGateway.joinChat cfg client dto = ChatsGateway.joinChat cfg client dto' ∧
    ChatsGateway.leaveChat cfg client dto = ChatsGateway.leaveChat cfg client dto' ∧
    ChatsGateway.markRead cfg client.userId dto = ChatsGateway.markRead cfg client.userId dto'

section
variable {E : String → Prop} (hid : ∀ u, E u → cfg.decode u = none)
  (htoken : ∀ u, E u → cfg.encode u ≠ "") (hcodec : ∀ u, E u → cfg.decode (cfg.encode u) = some u)
include hid htoken hcodec

theorem SentAs.resolve {v : String} (h : SentAs cfg E u v) :
    PeerTokenService.resolve cfg (some v) = some u := by
  obtain ⟨hu, rfl | rfl⟩ := h
  · simp [PeerTokenService.resolve, truthy, hid v hu]
  · simp [PeerTokenService.resolve, truthy, htoken u hu, hcodec u hu]

theorem SameName.resolve {o o' : Option String} (h : SameName cfg E o o') :
    PeerTokenService.resolve cfg o = PeerTokenService.resolve cfg o' := by
  cases h with
  | absent => rfl
  | present hv hv' =>
    exact (hv.resolve hid htoken hcodec).trans (hv'.resolve hid htoken hcodec).symm

theorem SameName.peerOf {dto dto' : ConversationDto}
    (hw : SameName cfg E dto.withUserId dto'.withUserId)
    (hp : SameName cfg E dto.peerId dto'.peerId) :
    Marketplace.peerOf cfg dto = Marketplace.peerOf cfg dto' := by
  unfold Marketplace.peerOf
  rw [hw.resolve hid htoken hcodec, hp.resolve hid htoken hcodec]

/-- **Ids and tokens are interchangeable** when tokens stand for ids and no id is a token. -/
theorem interchangeable : Interchangeable cfg E where
  resolve u v hv := by
    have h := hv.resolve hid htoken hcodec
    exact ⟨h, (congrArg _ h).trans (SentAs.resolve hid htoken hcodec ⟨hv.1, Or.inl rfl⟩)⟩
  peerOf dto dto' _ hw hp := SameName.peerOf hid htoken hcodec hw hp
  resolveConversation itemId me peer peer' k h := by
    have hpeer := h.resolve hid htoken hcodec
    simp only [ChatsService.resolveConversation, hpeer]
  createMessage me dto dto' k hitem htext h := by
    have hreceiver := h.resolve hid htoken hcodec
    simp only [ChatsService.createMessage, hreceiver, hitem, htext]
  getHistory me dto dto' hitem hbefore hlimit hw hp := by
    unfold ChatsService.getHistory
    rw [SameName.peerOf hid htoken hcodec hw hp, hitem, hbefore, hlimit]
  conversation client dto dto' hitem hw hp := by
    have hpeer := SameName.peerOf hid htoken hcodec hw hp
    refine ⟨?_, ?_, ?_⟩
    · unfold ChatsGateway.joinChat
      rw [hpeer, hitem]
    · unfold ChatsGateway.leaveChat
      rw [hpeer, hitem]
    · unfold ChatsGateway.markRead
      rw [hpeer, hitem]

end

/-- **Peer tokens are a faithful stand-in for employee ids.**  The token of an id passes the checks
    of the DTOs and decodes to the id, ids have different tokens, no second spelling of a token is
    accepted, and the requests do not distinguish an id from its token unless an id is itself a
    token. -/
theorem peer_tokens_faithful (cfg : Config) (cipher : PeerCipher) :
    (∀ u, isId 50 u = true →
      isId 128 ((cfg.withPeerTokens cipher).encode u) = true ∧
      (cfg.withPeerTokens cipher).decode ((cfg.withPeerTokens cipher).encode u) = some u) ∧
    (∀ u u', isId 50 u = true → isId 50 u' = true →
      (cfg.withPeerTokens cipher).encode u = (cfg.withPeerTokens cipher).encode u' → u = u') ∧
    (∀ t u, (cfg.withPeerTokens cipher).decode t = some u →
      t = (cfg.withPeerTokens cipher).encode u) ∧
    ∀ E : String → Prop, (∀ u, E u → isId 50 u = true) →
      (∀ u, E u → ∀ w, (cfg.withPeerTokens cipher).decode u ≠ some w) →
      Interchangeable (cfg.withPeerTokens cipher) E := by
  simp only [Config.withPeerTokens_encode, Config.withPeerTokens_decode]
  have hcodec : ∀ u, isId 50 u = true → decode cipher (encode cipher u) = some u :=
    fun u hu => decode_encode cipher (isId_ne_empty hu)
  refine ⟨fun u hu => ⟨encode_isId cipher hu, hcodec u hu⟩, fun u u' hu hu' heq => ?_,
    fun t u h => eq_encode_of_decode h, fun E hE hnot => interchangeable ?_ ?_ ?_⟩
  · have hdec := hcodec u hu
    rw [heq, hcodec u' hu'] at hdec
    exact (Option.some.inj hdec).symm
  · intro u hu
    rw [Config.withPeerTokens_decode]
    exact Option.eq_none_iff_forall_ne_some.2 (hnot u hu)
  · intro u hu
    rw [Config.withPeerTokens_encode]
    exact isId_ne_empty (encode_isId cipher (hE u hu))
  · intro u hu
    rw [Config.withPeerTokens_encode, Config.withPeerTokens_decode]
    exact hcodec u (hE u hu)

/-- A cipher that leaves the plaintext as it is, with an IV and a tag of zeros. -/
def plainCipher : PeerCipher where
  hmac _ := List.replicate 32 0
  hmac_length _ := rfl
  encrypt _ plain := (plain, List.replicate 16 0)
  encrypt_length _ _ := rfl
  tag_length _ _ := rfl
  decrypt iv encrypted tag :=
    if iv = List.replicate 12 0 ∧ tag = List.replicate 16 0 then
      (String.fromUTF8? ⟨⟨encrypted⟩⟩).map fun _ => encrypted
    else none
  decrypt_encrypt userId iv hiv := by
    have hbytes : (⟨⟨utf8 userId⟩⟩ : ByteArray) = userId.toByteArray := rfl
    rw [hiv, if_pos ⟨rfl, rfl⟩, hbytes, String.fromUTF8?, dif_pos userId.isValidUTF8]
    rfl
  authentic iv encrypted tag plain h := by
    split_ifs at h with hzero
    obtain ⟨rfl, rfl⟩ := hzero
    obtain ⟨userId, huser, rfl⟩ := Option.map_eq_some_iff.1 h
    refine ⟨userId, rfl, ?_⟩
    unfold String.fromUTF8? at huser
    split_ifs at huser with hvalid
    cases huser
    rfl
  replaceInvalid _ := ""

/-- `EMP00101` can be sent as it is or as its token. -/
theorem peer_tokens_faithful_sample :
    (sample.withPeerTokens plainCipher).decode
        ((sample.withPeerTokens plainCipher).encode "EMP00101") = some "EMP00101" ∧
      Interchangeable (sample.withPeerTokens plainCipher) (· = "EMP00101") := by
  obtain ⟨hcodec, -, -, hrequests⟩ := peer_tokens_faithful sample plainCipher
  refine ⟨(hcodec "EMP00101" (by decide)).2, hrequests _ ?_ ?_⟩
  · rintro u rfl
    decide
  · rintro u rfl w
    have hnone : decode plainCipher "EMP00101" = none := by decide +kernel
    rw [Config.withPeerTokens_decode, hnone]
    exact nofun

end Marketplace
