/-
  The inbox: one row for each conversation, with its last message and the number
  of its unread messages.
-/
import Marketplace.Schema
import Marketplace.Proof.Responses
import Mathlib.Data.Set.Card

namespace Marketplace

open ReadCommitted ChatsService

variable {cfg : Config} {d : Database} {u : String}

/-! ## What the inbox is to hold -/

/-- The message is one of the conversation `c` of `u`, which is an item and a peer. -/
def InConversation (u : String) (c : ℤ × String) (m : Message) : Prop :=
  m.itemId = c.1 ∧
    (m.senderId = u ∧ m.receiverId = c.2 ∨ m.senderId = c.2 ∧ m.receiverId = u)

variable (d u) in
/-- There is a message in the conversation. -/
def IsConversation (c : ℤ × String) : Prop :=
  ∃ n m, d.messages.get n = some m ∧ InConversation u c m

variable (d u) in
/-- The last message of a conversation, by time and id. -/
structure IsLast (c : ℤ × String) (n : ℤ) (m : Message) : Prop where
  get : d.messages.get n = some m
  inConversation : InConversation u c m
  last : ∀ n' m', d.messages.get n' = some m' → InConversation u c m' →
    m'.createdAt < m.createdAt ∨ m'.createdAt = m.createdAt ∧ n' ≤ n

/-- The item and the peer of a row. -/
def ConversationSummary.conv (s : ConversationSummary) : ℤ × String := (s.itemId, s.peerId)

variable (cfg d u) in
/-- The row of a conversation. -/
structure IsSummary (s : ConversationSummary) : Prop where
  last : ∃ m, IsLast d u s.conv s.lastMessageId m ∧ s.lastMessageText = m.messageText ∧
    s.lastSenderId = m.senderId ∧ s.lastMessageAt = m.createdAt
  unread : s.unreadCount = {n | ∃ m, d.messages.get n = some m ∧ m.itemId = s.itemId ∧
    m.senderId = s.peerId ∧ m.receiverId = u ∧ m.isRead = false}.ncard
  item : ∃ item, d.items.get s.itemId = some item ∧ s.itemTitle = item.title ∧
    s.itemImage = item.images.head? ∧ s.itemStatus = item.status ∧ s.sellerId = item.sellerId
  peer : ∃ user, d.users.get s.peerId = some user ∧ s.peerName = user.fullName
  token : s.peerToken = cfg.encode s.peerId

variable (cfg d u) in
/-- One row for each conversation, and no other row. -/
structure IsInbox (rows : List ConversationSummary) : Prop where
  nodup : (rows.map ConversationSummary.conv).Nodup
  mem : ∀ c, c ∈ rows.map ConversationSummary.conv ↔ IsConversation d u c
  row : ∀ s ∈ rows, IsSummary cfg d u s

variable (d u) in
/-- The number of the conversations of an employee. -/
noncomputable def conversationCount : ℕ := {c | IsConversation d u c}.ncard

/-! ## Inboxes -/

theorem length_eq_ncard {α : Type} {l : List α} {S : Set α} (hl : l.Nodup) (h : ∀ a, a ∈ l ↔ a ∈ S) :
    l.length = S.ncard := by
  classical
  have hS : S = (l.toFinset : Set α) := by
    ext a
    rw [← h, Finset.mem_coe, List.mem_toFinset]
  rw [hS, Set.ncard_coe_finset, List.toFinset_card_of_nodup hl]

theorem IsLast.unique {c : ℤ × String} {n n' : ℤ} {m m' : Message} (h : IsLast d u c n m)
    (h' : IsLast d u c n' m') : n = n' ∧ m = m' := by
  have hle := h.last n' m' h'.get h'.inConversation
  have hge := h'.last n m h.get h.inConversation
  obtain rfl : n = n' := by omega
  have hget := h.get
  rw [h'.get] at hget
  exact ⟨rfl, (Option.some.inj hget).symm⟩

theorem IsSummary.unique {s s' : ConversationSummary} (h : IsSummary cfg d u s)
    (h' : IsSummary cfg d u s') (hconv : s.conv = s'.conv) : s = s' := by
  obtain ⟨m, hlast, htext, hsender, hat⟩ := h.last
  obtain ⟨m', hlast', htext', hsender', hat'⟩ := h'.last
  obtain ⟨item, hi, htitle, himage, hstatus, hseller⟩ := h.item
  obtain ⟨item', hi', htitle', himage', hstatus', hseller'⟩ := h'.item
  obtain ⟨user, hu, hname⟩ := h.peer
  obtain ⟨user', hu', hname'⟩ := h'.peer
  have hunread := h.unread
  have hunread' := h'.unread
  have htoken := h.token
  have htoken' := h'.token
  obtain ⟨hitem, hpeer⟩ := Prod.mk.inj hconv
  rw [← hconv] at hlast'
  obtain ⟨hid, rfl⟩ := hlast.unique hlast'
  rw [← hitem, hi] at hi'
  cases hi'
  rw [← hpeer, hu] at hu'
  cases hu'
  rw [← hitem, ← hpeer] at hunread'
  rw [← hpeer] at htoken'
  cases s
  cases s'
  simp_all

theorem IsInbox.length {rows : List ConversationSummary} (h : IsInbox cfg d u rows) :
    rows.length = conversationCount d u := by
  rw [← List.length_map (f := ConversationSummary.conv)]
  exact length_eq_ncard h.nodup h.mem

theorem IsInbox.countP {rows : List ConversationSummary} (h : IsInbox cfg d u rows) (p : ℕ → Bool) :
    rows.countP (fun s => p s.lastMessageAt) =
      {c | ∃ k m, IsLast d u c k m ∧ p m.createdAt = true}.ncard := by
  rw [List.countP_eq_length_filter, ← List.length_map (f := ConversationSummary.conv)]
  refine length_eq_ncard ((List.filter_sublist.map _).nodup h.nodup) fun c => ?_
  simp only [List.mem_map, List.mem_filter, Set.mem_ofPred_eq]
  constructor
  · rintro ⟨s, ⟨hs, hp⟩, rfl⟩
    obtain ⟨m, hlast, -, -, hat⟩ := (h.row s hs).last
    exact ⟨_, m, hlast, hat ▸ hp⟩
  · rintro ⟨k, m, hlast, hp⟩
    obtain ⟨s, hs, rfl⟩ := List.mem_map.1 ((h.mem c).2 ⟨k, m, hlast.get, hlast.inConversation⟩)
    obtain ⟨m', hlast', -, -, hat⟩ := (h.row s hs).last
    obtain ⟨-, rfl⟩ := hlast.unique hlast'
    exact ⟨s, ⟨hs, hat ▸ hp⟩, rfl⟩

/-! ## The query -/

theorem mem_mine {n : ℤ} {m : Message} :
    (n, m) ∈ mine d u ↔ d.messages.get n = some m ∧ (m.senderId = u ∨ m.receiverId = u) := by
  simp [mine, Table.mem_rows]

/-- The CASE of the query computes the peer. -/
theorem inConversation_iff {n : ℤ} {m : Message} {c : ℤ × String} :
    InConversation u c m ↔ (m.senderId = u ∨ m.receiverId = u) ∧ conversationOf u (n, m) = c := by
  obtain ⟨i, p⟩ := c
  simp only [InConversation, conversationOf, Prod.mk.injEq]
  by_cases hs : m.senderId = u
  · rw [if_pos hs]
    constructor
    · rintro ⟨hi, ⟨-, hr⟩ | ⟨hp, hr⟩⟩
      · exact ⟨Or.inl hs, hi, hr⟩
      · exact ⟨Or.inl hs, hi, by rw [hr, ← hs, hp]⟩
    · rintro ⟨-, hi, hr⟩
      exact ⟨hi, Or.inl ⟨hs, hr⟩⟩
  · rw [if_neg hs]
    constructor
    · rintro ⟨hi, ⟨h, -⟩ | ⟨hp, hr⟩⟩
      · exact absurd h hs
      · exact ⟨Or.inr hr, hi, hp⟩
    · rintro ⟨hr, hi, hp⟩
      exact ⟨hi, Or.inr ⟨hp, hr.resolve_left hs⟩⟩

/-- DISTINCT ON selects the last messages. -/
theorem isLast_iff {c : ℤ × String} {n : ℤ} {m : Message} :
    IsLast d u c n m ↔ (n, m) ∈ latest d u ∧ conversationOf u (n, m) = c := by
  have hmine : ((mine d u).map Prod.fst).Nodup := d.messages.nodup_filter_fst _
  have hsorted : (orderBy (newest Message.createdAt) (mine d u)).Pairwise fun x y =>
      newest Message.createdAt x < newest Message.createdAt y :=
    pairwise_lt_orderBy hmine.of_map (newest_injOn hmine)
  rw [latest, mem_distinctOn hsorted]
  simp only [mem_orderBy, Prod.forall, mem_mine]
  constructor
  · rintro ⟨hget, hin, hlast⟩
    obtain ⟨hparty, hconv⟩ := inConversation_iff.1 hin
    refine ⟨⟨⟨hget, hparty⟩, fun n' m' hm' hconv' => ?_⟩, hconv⟩
    have hle := hlast n' m' hm'.1 (inConversation_iff.2 ⟨hm'.2, hconv'.trans hconv⟩)
    exact newest_le.2 hle
  · rintro ⟨⟨⟨hget, hparty⟩, hfirst⟩, hconv⟩
    refine ⟨hget, inConversation_iff.2 ⟨hparty, hconv⟩, fun n' m' hget' hin' => ?_⟩
    obtain ⟨hparty', hconv'⟩ := inConversation_iff.1 hin'
    exact newest_le.1 (hfirst n' m' ⟨hget', hparty'⟩ (hconv'.trans hconv.symm))

/-! ## The rows -/

theorem unreadCount_eq (d : Database) (u : String) (c : ℤ × String) :
    unreadCount d u c = {n | ∃ m, d.messages.get n = some m ∧ m.itemId = c.1 ∧
      m.senderId = c.2 ∧ m.receiverId = u ∧ m.isRead = false}.ncard := by
  rw [unreadCount, ← List.length_map (f := Prod.fst)]
  refine length_eq_ncard (d.messages.nodup_filter_fst _) fun n => ?_
  simp [Table.mem_rows, unreadFrom, and_assoc]

/-- The conversations of the inbox of an employee. -/
def inbox (cfg : Config) (d : Database) (u : String) (ties : ℤ × String → ℕ) :
    List ConversationSummary :=
  orderBy (inboxKey ties) ((latest d u).filterMap (summary cfg d u))

theorem offsetError_eq_none {dto : PaginationQueryDto} : offsetError dto = none ↔ dto.offset < 2 ^ 63 :=
  PaginationQueryDto.offsetErrorBelow_eq_none

variable (cfg) in
theorem inbox_responds (d : Database) (u : String) {dto : PaginationQueryDto}
    (ho : dto.offset < 2 ^ 63) (ties : ℤ × String → ℕ) :
    Responds cfg d (.conversations u dto ties) (.ok (.conversations (paginate
      (dto.rows (inbox cfg d u ties))
      (if (dto.rows (inbox cfg d u ties)).length > 0 then (inbox cfg d u ties).length else 0)
      dto.page dto.size))) := by
  intro answers now seq
  simp only [program, getConversations, offsetError_eq_none.2 ho, unlessRefused_none, eval_query]
  rfl

variable (cfg) in
theorem inbox_refused (d : Database) (u : String) {dto : PaginationQueryDto} {f : QueryFailedError}
    (hf : offsetError dto = some f) (ties : ℤ × String → ℕ) :
    Responds cfg d (.conversations u dto ties) (.error (.app (.query f))) := by
  intro answers now seq
  simp only [program, getConversations, hf, unlessRefused_some]
  rfl

/-- A page too far is refused, so it holds nothing. -/
theorem offset_lt_of_responds {dto : PaginationQueryDto} {ties : ℤ × String → ℕ}
    {p : PaginatedResult ConversationSummary}
    (h : Responds cfg d (.conversations u dto ties) (.ok (.conversations p))) :
    dto.offset < 2 ^ 63 := by
  cases hf : offsetError dto with
  | none => exact offsetError_eq_none.1 hf
  | some f =>
    have heq := h.unique (inbox_refused cfg d u hf ties)
    cases heq

variable (cfg) in
/-- The row of a message is that of its conversation, and it is there if the item and the peer are. -/
theorem summary_cases (h : MessagesLinked d) {x : ℤ × Message} (hx : x ∈ latest d u) :
    ∃ s, summary cfg d u x = some s ∧ s.conv = conversationOf u x ∧ IsSummary cfg d u s := by
  obtain ⟨n, m⟩ := x
  have hlast := isLast_iff.2 ⟨hx, rfl⟩
  have hitem : (d.items.get m.itemId).isSome := h.item hlast.get
  have hpeer : (d.users.get (conversationOf u (n, m)).2).isSome := by
    simp only [conversationOf]
    split_ifs
    · exact h.receiver hlast.get
    · exact h.sender hlast.get
  obtain ⟨item, hi⟩ := Option.isSome_iff_exists.1 hitem
  obtain ⟨user, hu⟩ := Option.isSome_iff_exists.1 hpeer
  have hi' : d.items.get (conversationOf u (n, m)).1 = some item := hi
  refine ⟨_, by simp only [summary, hi', hu]; rfl, rfl, ?_⟩
  exact {
    last := ⟨m, hlast, rfl, rfl, rfl⟩
    unread := unreadCount_eq d u _
    item := ⟨item, hi', rfl, rfl, rfl, rfl⟩
    peer := ⟨user, hu, rfl⟩
    token := rfl }

theorem map_conv_summary (h : MessagesLinked d) :
    ((latest d u).filterMap (summary cfg d u)).map ConversationSummary.conv =
      (latest d u).map (conversationOf u) := by
  rw [List.map_filterMap, ← List.filterMap_eq_map]
  refine List.filterMap_congr fun x hx => ?_
  obtain ⟨s, hs, hconv, -⟩ := summary_cases cfg h hx
  rw [hs, Option.map_some, hconv]
  rfl

theorem isConversation_iff {c : ℤ × String} :
    IsConversation d u c ↔ ∃ x ∈ latest d u, conversationOf u x = c := by
  constructor
  · rintro ⟨n, m, hget, hin⟩
    obtain ⟨hparty, hconv⟩ := inConversation_iff.1 hin
    have hmem : (n, m) ∈ orderBy (newest Message.createdAt) (mine d u) :=
      mem_orderBy.2 (mem_mine.2 ⟨hget, hparty⟩)
    obtain ⟨x, hx, hk⟩ : ∃ x ∈ latest d u, conversationOf u x = conversationOf u (n, m) :=
      exists_mem_distinctOn hmem
    exact ⟨x, hx, hk.trans hconv⟩
  · rintro ⟨⟨n, m⟩, hx, rfl⟩
    have hlast := isLast_iff.2 ⟨hx, rfl⟩
    exact ⟨n, m, hlast.get, hlast.inConversation⟩

variable (cfg u) in
/-- **The inbox query returns the inbox**, in whatever order the database leaves ties. -/
theorem isInbox (h : MessagesLinked d) (ties : ℤ × String → ℕ) :
    IsInbox cfg d u (inbox cfg d u ties) := by
  have hperm := perm_orderBy (inboxKey ties) ((latest d u).filterMap (summary cfg d u))
  refine ⟨?_, fun c => ?_, fun s hs => ?_⟩
  · rw [inbox, (hperm.map _).nodup_iff, map_conv_summary h]
    exact nodup_distinctOn _ _
  · rw [inbox, (hperm.map _).mem_iff, map_conv_summary h, isConversation_iff, List.mem_map]
  · rw [inbox, hperm.mem_iff] at hs
    obtain ⟨x, hx, hs⟩ := List.mem_filterMap.1 hs
    obtain ⟨s', hs', -, hrow⟩ := summary_cases cfg h hx
    rw [hs'] at hs
    cases hs
    exact hrow

end Marketplace
