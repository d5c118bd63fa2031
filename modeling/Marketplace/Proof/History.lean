/-
  The chat history read page by page.
-/
import Marketplace.Proof.Responses
import Marketplace.Lib.Keyset

namespace Marketplace

open ReadCommitted ChatsService

variable {cfg : Config} {base : Database → Prop} {q : Request cfg} {e : Event} {L : List Key}
  {d d' : Database}

/-! ## Messages -/

theorem Emits.message_new (he : Emits cfg base q e L d d') {n : ℤ} {m : Message}
    (hn : d.messages.get n = none) (hm : d'.messages.get n = some m) :
    1 ≤ n ∧ e = .sendMessage n m := by
  have other (h : d'.messages = d.messages) : 1 ≤ n ∧ e = .sendMessage n m := by
    rw [h, hn] at hm; cases hm
  cases he with
  | listItem | setItemStatus | placeOrder | completeOrder | attachSlip | saveProfile | notify
  | clearToken | forgetToken => exact other rfl
  | claimToken hc => obtain ⟨t, rfl⟩ := hc.frame; exact other rfl
  | cancelOrder => exact other (by simp)
  | readNotifications _ hr => obtain ⟨t, rfl⟩ := hr.frame; exact other rfl
  | sendMessage _ _ _ hpos =>
    rcases Table.get_put_cases hm with ⟨rfl, rfl⟩ | ⟨-, hm⟩
    · exact ⟨hpos, rfl⟩
    · rw [hn] at hm; cases hm
  | readMessages _ hr =>
    rcases hr.rows n with h | ⟨m₀, h, -⟩
    · rw [h, hn] at hm; cases hm
    · rw [hn] at h; cases h

theorem message_id_pos {users : Table String User} {acts : List (AppAction cfg)} {s : AppState cfg}
    (hrun : runs cfg users acts = some s) {n : ℤ} {m : Message}
    (hm : s.db.messages.get n = some m) :
    1 ≤ n := by
  refine runs_always (I := fun d => ∀ n m, d.messages.get n = some m → 1 ≤ n)
    (fun n m h => by simp [Database.migrated] at h) (fun q e L d d' he h n m hm => ?_) hrun n m hm
  cases hn : d.messages.get n with
  | none => exact (he.message_new hn hm).1
  | some m₀ => exact h n m₀ hn

/-- The messages of a conversation about an item, newest first. -/
def newestFirst (d : Database) (itemId : ℤ) (me peer : String) : List (ℤ × Message) :=
  orderBy (newest Message.createdAt) (d.messages.rows.filter (inHistory itemId me peer none))

theorem mem_newestFirst {itemId : ℤ} {me peer : String} {n : ℤ} {m : Message} :
    (n, m) ∈ newestFirst d itemId me peer ↔ d.messages.get n = some m ∧ m.itemId = itemId ∧
      (m.senderId = me ∧ m.receiverId = peer ∨ m.senderId = peer ∧ m.receiverId = me) := by
  simp [newestFirst, inHistory, Table.mem_rows]

theorem nodup_newestFirst (d : Database) (itemId : ℤ) (me peer : String) :
    ((newestFirst d itemId me peer).map Prod.fst).Nodup := by
  exact ((perm_orderBy _ _).map Prod.fst).nodup_iff.2 (d.messages.nodup_filter_fst _)

/-- The rows of a history query are the first ones beyond the cursor. -/
theorem historyRows_eq (d : Database) (itemId : ℤ) (me peer : String) (beforeId : Option ℤ)
    (limit : ℕ) :
    historyRows d itemId me peer beforeId limit =
      (Keyset.beyond Prod.fst beforeId (newestFirst d itemId me peer)).take (limit + 1) := by
  have hrows : d.messages.rows.filter (inHistory itemId me peer beforeId) =
      (d.messages.rows.filter (inHistory itemId me peer none)).filter
        fun x => beforeId.all fun n => x.1 < n := by
    rw [List.filter_filter]
    refine List.filter_congr fun x _ => ?_
    simp [inHistory, Bool.and_comm]
  rw [historyRows, hrows, orderBy_filter (newest_injOn (d.messages.nodup_filter_fst _))]
  rfl

/-! ## Reading page by page -/

/-- The request with another cursor. -/
def ChatHistoryQueryDto.before (dto : ChatHistoryQueryDto) (c : Option ℤ) (hc : ∀ n ∈ c, 1 ≤ n) :
    ChatHistoryQueryDto :=
  { dto with beforeId := c, beforeId_min := hc }

variable (cfg d) in
/-- The pages `getHistory` returns from a cursor on, asked with the cursor of the page before until
    there is no more. -/
inductive Fetches (userId : String) (dto : ChatHistoryQueryDto) :
    Option ℤ → List (List (ℤ × Message)) → Prop
  | last {c hc page meta_} :
    Responds cfg d (.history userId (dto.before c hc)) (.ok (.history page meta_)) →
    meta_.hasMore = false → Fetches userId dto c [page]
  | more {c hc page meta_ n pages} :
    Responds cfg d (.history userId (dto.before c hc)) (.ok (.history page meta_)) →
    meta_.hasMore = true → meta_.nextBeforeId = some n → Fetches userId dto (some n) pages →
    Fetches userId dto c (page :: pages)

variable (d) in
/-- Every message of the conversation, once, in chronological order. -/
structure CompleteHistory (itemId : ℤ) (me peer : String) (l : List (ℤ × Message)) : Prop where
  chronological : l.Pairwise fun x y =>
    x.2.createdAt < y.2.createdAt ∨ x.2.createdAt = y.2.createdAt ∧ x.1 < y.1
  mem : ∀ n m, (n, m) ∈ l ↔ d.messages.get n = some m ∧ m.itemId = itemId ∧
    (m.senderId = me ∧ m.receiverId = peer ∨ m.senderId = peer ∧ m.receiverId = me)

theorem completeHistory_iff {itemId : ℤ} {me peer : String} {l : List (ℤ × Message)} :
    CompleteHistory d itemId me peer l.reverse ↔ l = newestFirst d itemId me peer := by
  have hlt : (newestFirst d itemId me peer).Pairwise fun x y =>
      newest Message.createdAt x < newest Message.createdAt y :=
    pairwise_lt_orderBy (d.messages.nodup_rows.filter _)
      (newest_injOn (d.messages.nodup_filter_fst _))
  constructor
  · rintro ⟨hchr, hmem⟩
    have hl : l.Pairwise fun x y => newest Message.createdAt x < newest Message.createdAt y :=
      (List.pairwise_reverse.1 hchr).imp fun h => newest_lt.2 (h.imp_right fun h => ⟨h.1.symm, h.2⟩)
    have hperm : l.Perm (newestFirst d itemId me peer) := by
      refine (List.perm_ext_iff_of_nodup (hl.imp fun h => ?_) (hlt.imp fun h => ?_)).2 fun x => ?_
      · rintro rfl; exact lt_irrefl _ h
      · rintro rfl; exact lt_irrefl _ h
      · rw [← List.mem_reverse]; exact (hmem x.1 x.2).trans mem_newestFirst.symm
    exact hperm.eq_of_pairwise (fun a b _ _ hab hba => absurd hba hab.not_gt) hl hlt
  · rintro rfl
    refine ⟨List.pairwise_reverse.2 (hlt.imp fun h => ?_), fun n m => ?_⟩
    · exact (newest_lt.1 h).imp_right fun h => ⟨h.1.symm, h.2⟩
    · rw [List.mem_reverse, mem_newestFirst]

theorem historyPage_take (conv : ResolvedConversation) (limit : ℕ) (rows : List (ℤ × Message)) :
    historyPage conv limit (rows.take (limit + 1)) = .history (rows.take limit).reverse
      ⟨conv.itemId, conv.peerId, conv.peerToken, limit < rows.length,
        if limit < rows.length then (rows.take limit).getLast?.map Prod.fst else none⟩ := by
  have hlen : (rows.take (limit + 1)).length > limit ↔ limit < rows.length := by
    rw [List.length_take]; omega
  have htake : (rows.take (limit + 1)).take limit = rows.take limit := by
    rw [List.take_take, Nat.min_eq_left (Nat.le_succ limit)]
  simp only [historyPage, hlen, htake, List.head?_reverse, decide_eq_true_eq]

section
variable {u : String} {dto : ChatHistoryQueryDto} {p : Option String} {item : Item} {peer : String}
  (hp : peerOf cfg dto.toConversationDto = .ok p) (hi : d.items.get dto.itemId = some item)
  (hpeer : peerFor item u (PeerTokenService.resolve cfg p) = .ok peer)

include hp hi hpeer

theorem history_responds (c : Option ℤ) (hc : ∀ n ∈ c, 1 ≤ n) :
    Responds cfg d (.history u (dto.before c hc)) (.ok (historyPage
      ⟨dto.itemId, item.sellerId, peer, cfg.encode peer⟩ dto.limit
      (historyRows d dto.itemId u peer c dto.limit))) := by
  intro answers now seq
  have hp' : peerOf cfg (dto.before c hc).toConversationDto = .ok p := hp
  have hi' : d.items.get (dto.before c hc).itemId = some item := hi
  simp only [program, getHistory, hp', resolveConversation, eval_query, hi', hpeer]
  rfl

theorem history_page (c : Option ℤ) (hc : ∀ n ∈ c, 1 ≤ n) {page : List (ℤ × Message)}
    {meta_ : HistoryMeta}
    (h : Responds cfg d (.history u (dto.before c hc)) (.ok (.history page meta_))) :
    let rows := Keyset.beyond Prod.fst c (newestFirst d dto.itemId u peer)
    page = (rows.take dto.limit).reverse ∧ meta_.hasMore = decide (dto.limit < rows.length) ∧
      meta_.nextBeforeId =
        if dto.limit < rows.length then (rows.take dto.limit).getLast?.map Prod.fst else none := by
  have h' := h.unique (history_responds hp hi hpeer c hc)
  rw [historyRows_eq, historyPage_take] at h'
  injection h' with h'
  injection h' with hpage hmeta
  subst hpage hmeta
  exact ⟨rfl, rfl, rfl⟩

/-- The pages fetched are those of a reading of the messages, each in chronological order. -/
theorem Fetches.reads {c : Option ℤ} {pages : List (List (ℤ × Message))}
    (h : Fetches cfg d u dto c pages) :
    Keyset.Reads Prod.fst dto.limit (newestFirst d dto.itemId u peer) c
    (pages.map List.reverse) := by
  induction h with
  | @last c hc page meta_ h hmore =>
    obtain ⟨rfl, hm, -⟩ := history_page hp hi hpeer c hc h
    rw [hm, decide_eq_false_iff_not] at hmore
    simpa using Keyset.Reads.last (not_lt.1 hmore)
  | @more c hc page meta_ n pages h hmore hnext _ ih =>
    obtain ⟨rfl, hm, hn⟩ := history_page hp hi hpeer c hc h
    rw [hm, decide_eq_true_eq] at hmore
    rw [hn, if_pos hmore, Option.map_eq_some_iff] at hnext
    obtain ⟨x, hx, rfl⟩ := hnext
    simpa using Keyset.Reads.more hmore hx ih

/-- Every reading of the messages can be fetched, as their ids are valid cursors. -/
theorem fetches_of_reads (hpos : ∀ n m, d.messages.get n = some m → 1 ≤ n) {c : Option ℤ}
    {ps : List (List (ℤ × Message))}
    (h : Keyset.Reads Prod.fst dto.limit (newestFirst d dto.itemId u peer) c ps)
    (hc : ∀ n ∈ c, 1 ≤ n) : Fetches cfg d u dto c (ps.map List.reverse) := by
  induction h with
  | @last c hlen =>
    have hres := history_responds hp hi hpeer c hc
    rw [historyRows_eq, historyPage_take] at hres
    exact .last hres (by simpa using hlen)
  | @more c x ps hlt hx _ ih =>
    have hres := history_responds hp hi hpeer c hc
    rw [historyRows_eq, historyPage_take] at hres
    have hmem := (Keyset.mem_beyond.1 (Keyset.mem_of_getLast?_take hx)).1
    have hx1 : 1 ≤ x.1 := hpos x.1 x.2 (mem_newestFirst.1 hmem).1
    exact .more hres (by simpa using hlt) (by simp [hlt, hx]) (ih (by simpa using hx1))

/-- **Reading a conversation page by page ends, and it returns the whole conversation** iff, at every
    page boundary, the ids of the messages split them as their times do. -/
theorem history_iff (hpos : ∀ n m, d.messages.get n = some m → 1 ≤ n) :
    ∃ pages, Fetches cfg d u dto none pages ∧
      (∀ pages', Fetches cfg d u dto none pages' → pages' = pages) ∧
      (CompleteHistory d dto.itemId u peer pages.reverse.flatten ↔
        Keyset.Aligned Prod.fst dto.limit (newestFirst d dto.itemId u peer)) := by
  obtain ⟨ps, hps⟩ :
      ∃ ps, Keyset.Reads Prod.fst dto.limit (newestFirst d dto.itemId u peer) none ps :=
    Keyset.Reads.exists dto.limit_range.1 _ none
  refine ⟨ps.map List.reverse, fetches_of_reads hp hi hpeer hpos hps (by simp),
    fun pages' h => ?_, ?_⟩
  · rw [hps.unique (h.reads hp hi hpeer), List.map_map]
    simp
  · rw [← List.reverse_flatten, completeHistory_iff]
    simpa using hps.flatten_iff dto.limit_range.1 (nodup_newestFirst d dto.itemId u peer)

end

/-- **The chat history read page by page is complete** iff every page boundary splits the messages by
    their ids as by their times. -/
theorem complete_history_iff {users : Table String User} {acts : List (AppAction cfg)}
    {s : AppState cfg} (hrun : runs cfg users acts = some s) {u : String}
    {dto : ChatHistoryQueryDto} {p : Option String} {item : Item} {peer : String}
    (hp : peerOf cfg dto.toConversationDto = .ok p)
    (hi : s.db.items.get dto.itemId = some item)
    (hpeer : peerFor item u (PeerTokenService.resolve cfg p) = .ok peer) :
    ∃ pages, Fetches cfg s.db u dto none pages ∧
      (∀ pages', Fetches cfg s.db u dto none pages' → pages' = pages) ∧
      (CompleteHistory s.db dto.itemId u peer pages.reverse.flatten ↔
        Keyset.Aligned Prod.fst dto.limit (newestFirst s.db dto.itemId u peer)) :=
  history_iff hp hi hpeer fun _ _ hm => message_id_pos hrun hm

/-! ## Two messages -/

/-- The buyer reads the conversation about the first item, one message at a time. -/
def sampleHistory : ChatHistoryQueryDto :=
  ⟨⟨1, none, none, sampleOrder.itemId_min, by simp, by simp⟩, none, 1, by simp, by decide⟩

/-- The buyer writes twice. -/
def sampleWritten : List (AppAction sample) :=
  perform 0 6 (.createItem "EMP00101" sampleUnit) ++
    perform 1 9 sampleMessage ++ perform 2 9 sampleMessage

/-- The second message is stored first, while the transaction of the first one is running. -/
def sampleCrossed : List (AppAction sample) :=
  perform 0 6 (.createItem "EMP00101" sampleUnit) ++
    perform 1 7 sampleMessage ++ [.tick] ++ perform 2 9 sampleMessage ++ [.exec 1, .exec 1]

theorem samplePeer {item : Item} (h : item.sellerId = "EMP00101") :
    peerFor item "EMP00102" (PeerTokenService.resolve sample none) = .ok "EMP00101" := by
  simp [peerFor, h, truthy, PeerTokenService.resolve]

/-- Two messages, one after the other, are read in two pages. -/
theorem complete_history_iff_sample : ∃ s pages, runs sample sampleUsers sampleWritten = some s ∧
    Fetches sample s.db "EMP00102" sampleHistory none pages ∧
    CompleteHistory s.db 1 "EMP00102" "EMP00101" pages.reverse.flatten := by
  obtain ⟨s, hrun, hs⟩ : ∃ s, runs sample sampleUsers sampleWritten = some s ∧
      (((s.db.items.get 1).any fun item => item.sellerId = "EMP00101") &&
        (newestFirst s.db 1 "EMP00102" "EMP00101").map Prod.fst = [2, 1]) = true :=
    reaches (by decide +kernel)
  simp only [Bool.and_eq_true, Option.any_eq_true, decide_eq_true_eq] at hs
  obtain ⟨⟨item, hi, hseller⟩, hids⟩ := hs
  have hp : peerOf sample sampleHistory.toConversationDto = .ok none := rfl
  obtain ⟨pages, hf, -, hiff⟩ := complete_history_iff hrun hp hi (samplePeer hseller)
  refine ⟨s, pages, hrun, hf, hiff.2 (Keyset.aligned_of_pairwise (by decide) ?_)⟩
  have hsorted : ((newestFirst s.db 1 "EMP00102" "EMP00101").map Prod.fst).Pairwise
      fun m n => n < m := by
    rw [hids]; decide
  exact List.pairwise_map.1 hsorted

/-- Of the two messages that crossed, the history only returns one. -/
theorem complete_history_counterexample : ∃ s pages,
    runs sample sampleUsers sampleCrossed = some s ∧
    Fetches sample s.db "EMP00102" sampleHistory none pages ∧
    (∀ pages', Fetches sample s.db "EMP00102" sampleHistory none pages' → pages' = pages) ∧
    ¬ CompleteHistory s.db 1 "EMP00102" "EMP00101" pages.reverse.flatten := by
  obtain ⟨s, hrun, hs⟩ : ∃ s, runs sample sampleUsers sampleCrossed = some s ∧
      (((s.db.items.get 1).any fun item => item.sellerId = "EMP00101") &&
        (newestFirst s.db 1 "EMP00102" "EMP00101").map Prod.fst = [1, 2]) = true :=
    reaches (by decide +kernel)
  simp only [Bool.and_eq_true, Option.any_eq_true, decide_eq_true_eq] at hs
  obtain ⟨⟨item, hi, hseller⟩, hids⟩ := hs
  have hp : peerOf sample sampleHistory.toConversationDto = .ok none := rfl
  obtain ⟨pages, hf, huniq, hiff⟩ :=
    history_iff hp hi (samplePeer hseller) fun _ _ hm => message_id_pos hrun hm
  refine ⟨s, pages, hrun, hf, huniq, fun h => ?_⟩
  have hal : Keyset.Aligned Prod.fst 1 (newestFirst s.db 1 "EMP00102" "EMP00101") := hiff.1 h
  obtain ⟨x, y, hl, hx, hy⟩ : ∃ x y, newestFirst s.db 1 "EMP00102" "EMP00101" = [x, y] ∧ x.1 = 1 ∧
    y.1 = 2 := by
    simpa [List.map_eq_cons_iff] using hids
  rw [hl] at hal
  -- the older message has the larger id
  have hlt := (hal 1 x Nat.one_pos (by simp) rfl).2 y (by simp)
  omega

end Marketplace
