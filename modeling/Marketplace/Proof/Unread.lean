/-
  Unread messages: what was sent to an employee in a conversation is what they
  have marked as read, and what the inbox still counts.
-/
import Marketplace.Proof.Conversations
import Marketplace.Proof.Inbox

namespace Marketplace

open ReadCommitted ChatsService

variable {cfg : Config} {base : Database → Prop} {q : Request cfg} {e : Event} {L : List Key}
  {d d' : Database}

/-! ## Counting messages -/

/-- The message is about the item, from the peer to the employee. -/
def sentIn (conv : ℤ × String × String) (m : Message) : Bool :=
  m.itemId = conv.1 && m.senderId = conv.2.1 && m.receiverId = conv.2.2

/-- The messages a peer has sent to an employee about an item. -/
def sent (d : Database) (conv : ℤ × String × String) : ℕ :=
  (d.messages.rows.filter fun x => sentIn conv x.2).length

/-- Those of them the employee has not read. -/
abbrev unread (d : Database) (conv : ℤ × String × String) : ℕ :=
  unreadCount d conv.2.2 (conv.1, conv.2.1)

theorem ReadsMessages.sent {i : ℤ} {p u : String} {count : ℕ} (h : ReadsMessages i p u count d d')
    (conv : ℤ × String × String) : sent d' conv = sent d conv :=
  Table.length_filter_congr (p := sentIn conv) fun n => by
    rcases h.rows n with hn | ⟨m, hm, -, hn⟩
    · rw [hn]
    · rw [hn, hm]; rfl

theorem ReadsMessages.unread_ne {i : ℤ} {p u : String} {count : ℕ}
    (h : ReadsMessages i p u count d d') {conv : ℤ × String × String} (hne : conv ≠ (i, p, u)) :
    unread d' conv = unread d conv :=
  Table.length_filter_congr fun n => by
    rcases h.rows n with hn | ⟨m, hm, hu, hn⟩
    · rw [hn]
    · obtain ⟨rfl, rfl, rfl, -⟩ := unreadFrom_iff.1 hu
      rw [hn, hm, Option.any_some, Option.any_some, Bool.eq_iff_iff, unreadFrom_iff, unreadFrom_iff]
      have hnot : ¬ (m.itemId = conv.1 ∧ m.senderId = conv.2.1 ∧ m.receiverId = conv.2.2) :=
        fun ⟨h₁, h₂, h₃⟩ => hne (by rw [h₁, h₂, h₃])
      tauto

theorem balance_put {n : ℤ} {m : Message} (hn : d.messages.get n = none) (hm : m.isRead = false)
    (conv : ℤ × String × String) :
    sent (d.put (.message n) m) conv + unread d conv =
      sent d conv + unread (d.put (.message n) m) conv := by
  have hrows : (d.put (.message n) m).messages.rows = (n, m) :: d.messages.rows :=
    Table.rows_put_new hn m
  simp only [sent, sentIn, unread, unreadCount, hrows, List.filter_cons, unreadFrom, hm, Bool.not_false,
    Bool.and_true]
  split_ifs
  · simp only [List.length_cons]; omega
  · rfl

theorem Emits.read {i : ℤ} {p u : String} {count : ℕ}
    (he : Emits cfg base q (.readMessages i p u count) L d d') :
    q.conversation? cfg d = some (i, p, u) ∧ ReadsMessages i p u count d d' := by
  cases he with
  | readMessages hq hr => exact ⟨hq, hr⟩

/-- A request marks the messages of a conversation as read when it commits, or never. -/
theorem Emits.marks (he : Emits cfg base q e L d d') :
    (∃ i p u count, e = .readMessages i p u count ∧ q.conversation? cfg d = some (i, p, u) ∧
      ReadsMessages i p u count d d') ∨ ∀ d, q.conversation? cfg d = none := by
  cases he with
  | readMessages hq hr => exact Or.inl ⟨_, _, _, _, rfl, hq, hr⟩
  | listItem | setItemStatus | placeOrder | completeOrder | cancelOrder | attachSlip | saveProfile
  | sendMessage | claimToken | clearToken => exact Or.inr fun _ => rfl
  | notify hq | forgetToken hq => cases q <;> first | exact Or.inr fun _ => rfl | cases hq
  | readNotifications hq => rcases hq with ⟨_, rfl⟩ | rfl <;> exact Or.inr fun _ => rfl

/-- **What an event adds to the messages sent, it adds to the unread ones**, unless it marks messages
    as read. -/
theorem Emits.balance {ws : List (Write market)} (he : Emits cfg base q e L d d')
    (hw : e.writes ws) (conv : ℤ × String × String) :
    sent d' conv + unread d conv = sent d conv + unread d' conv +
      if q.conversation? cfg d = some conv then ws.length else 0 := by
  rcases he.marks with ⟨i, p, u, count, rfl, hq, hr⟩ | hnone
  · rw [hr.sent, hq]
    by_cases hc : conv = (i, p, u)
    · subst hc
      have hcount : unread d (i, p, u) = unread d' (i, p, u) + count := hr.count
      rw [if_pos rfl, show ws.length = count from hw, hcount]
      omega
    · rw [hr.unread_ne hc, if_neg fun h => hc (Option.some.inj h).symm, add_zero]
  rw [if_neg (by simp [hnone]), add_zero]
  have other (h : d'.messages = d.messages) : sent d' conv + unread d conv =
      sent d conv + unread d' conv := by
    simp only [sent, unread, unreadCount, h]
  cases he with
  | listItem | setItemStatus | placeOrder | completeOrder | attachSlip | saveProfile | notify
  | clearToken | forgetToken => exact other rfl
  | claimToken hc => obtain ⟨t, rfl⟩ := hc.frame; exact other rfl
  | cancelOrder => exact other (by simp)
  | readNotifications _ hr => obtain ⟨t, rfl⟩ := hr.frame; exact other rfl
  | sendMessage _ _ _ _ hn => exact balance_put hn rfl conv
  | readMessages hq => rw [hnone] at hq; cases hq

theorem Emits.conversation_kept (he : Emits cfg base q e L d d') {q' : Request cfg}
    {conv : ℤ × String × String} (h : q'.conversation? cfg d = some conv) :
    q'.conversation? cfg d' = some conv := by
  have kept {me : String} {dto : ConversationDto}
      (h : Marketplace.conversation? cfg d me dto = some conv) :
      Marketplace.conversation? cfg d' me dto = some conv := by
    unfold Marketplace.conversation? at h ⊢
    obtain ⟨peer, hp, h⟩ := Option.bind_eq_some_iff.1 h
    obtain ⟨item, hi, h⟩ := Option.bind_eq_some_iff.1 h
    obtain ⟨item', hi', hs⟩ := he.item_kept hi
    have hpeer : peerFor item' me (PeerTokenService.resolve cfg peer) =
        peerFor item me (PeerTokenService.resolve cfg peer) := by
      simp only [peerFor, hs]
    rw [hp, Option.bind_some, hi', Option.bind_some, hpeer, h]
  cases q' with
  | markChatRead u dto => exact kept h
  | joinChat client dto => exact kept h
  | _ => cases h

/-! ## The commits of a run -/

section
variable (cfg : Config) (users : Table String User) (acts : List (AppAction cfg))

/-- The commits of the run, in their order. -/
abbrev commitsOf : List (Commit market (Request cfg)) := (start cfg users).commits (program cfg) acts

/-- How many rows session `j` has written. -/
def affected (j : ℕ) : ℕ :=
  (((commitsOf cfg users acts).filter fun c => c.session = j).map fun c => c.writes.length).sum

/-- The messages of a conversation its employee has marked as read: the counts of all requests that
    mark it. -/
def markedRead (s : AppState cfg) (conv : ℤ × String × String) : ℕ :=
  ∑ j ∈ Finset.range s.sessions.length,
    if (s.sessions[j]?.bind fun p => p.1.conversation? cfg s.db) = some conv then
      affected cfg users acts j else 0

end

theorem sum_by_session {Q : Type} {S : Sig} {n : ℕ} (P : ℕ → Prop) [DecidablePred P]
    (f : Commit S Q → ℕ) {cs : List (Commit S Q)} (h : ∀ c ∈ cs, c.session < n) :
    (∑ j ∈ Finset.range n, if P j then ((cs.filter fun c => c.session = j).map f).sum else 0) =
      ((cs.filter fun c => P c.session).map f).sum := by
  induction cs with
  | nil => simp
  | cons c cs ih =>
    have hc := h c List.mem_cons_self
    have hsplit (j : ℕ) : (if P j then (((c :: cs).filter fun c => c.session = j).map f).sum else 0) =
        (if c.session = j then if P j then f c else 0 else 0) +
          if P j then ((cs.filter fun c => c.session = j).map f).sum else 0 := by
      by_cases hj : c.session = j <;> by_cases hP : P j <;> simp [hj, hP]
    simp only [hsplit, Finset.sum_add_distrib, ih fun c hc => h c (List.mem_cons_of_mem _ hc),
      Finset.sum_ite_eq, Finset.mem_range, hc, if_true]
    by_cases hP : P c.session <;> simp [hP]

section
variable {users : Table String User} {acts : List (AppAction cfg)} {s s' : AppState cfg}

theorem commitsOf_snoc (hrun : runs cfg users acts = some s) {a : AppAction cfg} :
    commitsOf cfg users (acts ++ [a]) = commitsOf cfg users acts ++ (s.commit? a).toList :=
  State.commits_snoc hrun

/-- What was sent is what the commits have marked as read, and what is unread. -/
theorem sent_eq_commits (hrun : runs cfg users acts = some s) (conv : ℤ × String × String) :
    sent s.db conv = unread s.db conv +
      (((commitsOf cfg users acts).filter fun c => c.request.conversation? cfg c.db = some conv).map
        fun c => c.writes.length).sum := by
  refine ((start_sim .any trivial).induction
    (fun q _ => program_ok q) (I := fun as s _ => sent s.db conv = unread s.db conv +
      (((commitsOf cfg users as).filter fun c => c.request.conversation? cfg c.db = some conv).map
        fun c => c.writes.length).sum) (by simp [start, State.init, sent, unread, unreadCount,
          Database.migrated, Table.rows, Table.empty, commitsOf, State.commits])
    (fun as a _ s s' h l _ hs hsim _ _ hout ih => ?_) (fun _ _ => trivial) hrun).elim fun _ h => h.2
  rw [commitsOf_snoc hs, List.filter_append, List.map_append, List.sum_append]
  rcases hout.commit hsim with ⟨hc, hd, -⟩ | ⟨c, e, hc, hcd, hd, -, -, -, hw, log, L, -, he, -⟩
  · simpa [hc, hd] using ih
  · have hbal := he.balance hw conv
    rw [hcd] at hbal
    rw [hd]
    have hsum : (((s.commit? a).toList.filter fun c =>
        c.request.conversation? cfg c.db = some conv).map fun c => c.writes.length).sum =
        if c.request.conversation? cfg s.db = some conv then c.writes.length else 0 := by
      simp only [hc, Option.toList_some, List.filter_singleton, hcd]
      split_ifs with hc <;> simp [hc]
    rw [hsum]
    omega

theorem commit_conversation (hrun : runs cfg users acts = some s) {c : Commit market (Request cfg)}
    (hc : c ∈ commitsOf cfg users acts) : (∃ st, s.sessions[c.session]? = some (c.request, st)) ∧
      c.request.conversation? cfg s.db = c.request.conversation? cfg c.db := by
  suffices h : (∃ st, s.sessions[c.session]? = some (c.request, st)) ∧
      ((∃ conv, c.request.conversation? cfg c.db = some conv ∧
        c.request.conversation? cfg s.db = some conv) ∨ ∀ d, c.request.conversation? cfg d = none) by
    refine ⟨h.1, ?_⟩
    rcases h.2 with ⟨conv, h₁, h₂⟩ | h
    · rw [h₁, h₂]
    · rw [h, h]
  refine ((start_sim .any trivial).induction
    (fun q _ => program_ok q) (I := fun as s _ => ∀ c ∈ commitsOf cfg users as,
      (∃ st, s.sessions[c.session]? = some (c.request, st)) ∧
      ((∃ conv, c.request.conversation? cfg c.db = some conv ∧
        c.request.conversation? cfg s.db = some conv) ∨ ∀ d, c.request.conversation? cfg d = none))
    (by simp [commitsOf, State.commits])
    (fun as a _ s s' h l _ hs hsim hst _ hout ih c hc => ?_) (fun _ _ => trivial) hrun).elim
      fun _ h => h.2 c hc
  rw [commitsOf_snoc hs, List.mem_append] at hc
  have hout := hout.commit hsim
  rcases hc with hc | hc
  · -- an earlier commit
    obtain ⟨⟨st, hj⟩, hconv⟩ := ih c hc
    refine ⟨State.session_kept hst hj, hconv.imp_left ?_⟩
    rintro ⟨conv, h₁, h₂⟩
    refine ⟨conv, h₁, ?_⟩
    rcases hout with ⟨-, hd, -⟩ | ⟨c', e, -, hcd, hd, -, -, -, -, log, L, -, he, -⟩
    · rw [hd, h₂]
    · rw [hd]
      rw [hcd] at he
      exact he.conversation_kept h₂
  · -- the commit of this step
    have hc : s.commit? a = some c := by simpa using hc
    obtain ⟨st, hj⟩ := State.commit?_session hc
    refine ⟨State.session_kept hst hj, ?_⟩
    rcases hout with ⟨hnone, -⟩ | ⟨c', e, hc', hcd, hd, -, -, -, -, log, L, -, he, -⟩
    · rw [hnone] at hc; cases hc
    rw [hc] at hc'; cases hc'
    rw [hcd] at he ⊢
    refine he.marks.imp_left ?_
    rintro ⟨i, p, u, count, -, hq, -⟩
    refine ⟨_, hq, ?_⟩
    rw [hd]
    exact he.conversation_kept hq

/-- **What was sent is what has been marked as read and what is unread.** -/
theorem sent_eq (hrun : runs cfg users acts = some s) (conv : ℤ × String × String) :
    sent s.db conv = markedRead cfg users acts s conv + unread s.db conv := by
  have hsum := sum_by_session (n := s.sessions.length)
    (fun j => (s.sessions[j]?.bind fun p => p.1.conversation? cfg s.db) = some conv)
    (fun c => c.writes.length) fun c hc =>
      (List.getElem?_eq_some_iff.1 (commit_conversation hrun hc).1.choose_spec).1
  simp only [markedRead, affected, hsum]
  rw [sent_eq_commits hrun conv, Nat.add_comm]
  congr 3
  refine List.filter_congr fun c hc => ?_
  obtain ⟨⟨st, hj⟩, hconv⟩ := commit_conversation hrun hc
  rw [hj, Option.bind_some, hconv]

/-! ## What a request returns -/

/-- A request that marks messages as read returns their number `n`: it answers with it, or it sends it
    to the rooms of the conversation; and a request that fails has marked none. -/
def ReturnsCount (q : Request cfg) (calls : List Call) (n : ℕ) : Except Thrown Response → Prop
  | .ok r =>
    match q with
    | .markChatRead .. => r = .count n
    | .joinChat client _ => ∃ conv room, r = .joined conv room ∧
        calls = .socket (.join client room) :: if n = 0 then [] else
          [.socket (.emit (q.readRooms conv.itemId client.userId conv.peerId) none
            (.messagesRead conv.itemId client.userId n))]
    | _ => True
  | .error _ => n = 0

/-- The request opens a conversation, or marks it as read. -/
def Request.opens : Request cfg → Bool
  | .markChatRead .. | .joinChat .. => true
  | _ => false

theorem affected_of_readLog {R : Regime cfg} {cs : List (Commit market (Request cfg))} {i : ℤ}
    {p u : String} {count : ℕ} {log : List (Log Event QueryFailedError Call)}
    (h : ReadLog q i p u count log) (hcs : List.Forall₂ R.spec.Publishes cs (log.filterMap Log.event?)) :
    (cs.map fun c => c.writes.length).sum = count := by
  unfold ReadLog at h
  split_ifs at h with hc
  · subst h hc
    cases hcs
    rfl
  · subst h
    rcases hcs with _ | ⟨⟨-, -, hw, -⟩, hnil⟩
    cases hnil
    have hw : List.length _ = count := hw
    simpa using hw

/-- A request that opens a conversation only marks messages as read. -/
theorem Emits.opens (he : Emits cfg base q e L d d') (hq : q.opens = true) : e.settles = true := by
  cases he with
  | readMessages | notify => rfl
  | listItem | setItemStatus | placeOrder | completeOrder | cancelOrder | attachSlip | saveProfile
  | sendMessage | claimToken | clearToken => cases hq
  | forgetToken hn =>
    cases q <;> first | exact absurd hq Bool.false_ne_true | exact absurd hn Bool.false_ne_true
  | readNotifications hn => rcases hn with ⟨_, rfl⟩ | rfl <;> cases hq

/-- A session that has failed has marked no messages. -/
theorem commits_of_unsettled {R : Regime cfg} {cs : List (Commit market (Request cfg))}
    {log : List (Log Event QueryFailedError Call)} (h : Unsettled log)
    (hreq : ∀ c ∈ cs, c.request.opens = true)
    (hcs : List.Forall₂ R.spec.Publishes cs (log.filterMap Log.event?)) : cs = [] := by
  rcases cs with _ | ⟨c, cs⟩
  · rfl
  · obtain ⟨e, es, ⟨-, -, -, _, _, -, he, -⟩, -, hes⟩ := List.forall₂_cons_left_iff.1 hcs
    obtain ⟨l, hl, hle⟩ := List.mem_filterMap.1 (hes ▸ List.mem_cons_self : e ∈ log.filterMap _)
    have hsettles := he.opens (hreq c List.mem_cons_self)
    cases l with
    | emit => cases hle; rw [h e hl] at hsettles; cases hsettles
    | fault | call => cases hle

/-- **What a request returns is what it has marked as read.** -/
theorem affected_returned (hrun : runs cfg users acts = some s) {j : ℕ} {q : Request cfg}
    {st : Stage market} {r : Except Thrown Response} (hj : s.sessions[j]? = some (q, st))
    (hr : st.reply? = some r) (hq : q.opens = true) :
    ReturnsCount q (s.callsOf j) (affected cfg users acts j) r := by
  obtain ⟨h, hs, hcs⟩ := (start_sim .any trivial).commits
    (fun q _ => program_ok q) (fun _ _ => trivial) hrun
  have hrep : Replies cfg q (h.of j) r := hs.replies hj hr
  rw [hs.callsOf]
  cases r with
  | error x =>
    have hnil := commits_of_unsettled hrep (fun c hc => ?_) (hcs j)
    · exact congrArg (fun cs => (cs.map fun c : Commit _ _ => c.writes.length).sum) hnil
    · obtain ⟨hmem, hcj⟩ := List.mem_filter.1 hc
      obtain ⟨⟨st', hj'⟩, -⟩ := commit_conversation hrun hmem
      rw [of_decide_eq_true hcj, hj] at hj'
      cases hj'
      exact hq
  | ok r =>
    cases q with
    | markChatRead u dto =>
      obtain ⟨i, p, count, rfl, hlog⟩ := hrep
      exact congrArg Response.count (affected_of_readLog hlog (hcs j)).symm
    | joinChat client dto =>
      obtain ⟨conv, room, count, log, rfl, hlog', hlog⟩ := hrep
      have hcount : affected cfg users acts j = count := by
        have hcs := hcs j
        rw [hlog'] at hcs
        exact affected_of_readLog hlog hcs
      refine ⟨conv, room, rfl, ?_⟩
      rw [hcount, hlog']
      unfold ReadLog at hlog
      split_ifs at hlog ⊢ <;> subst hlog <;> rfl
    | _ => cases hq

/-! ## Steps -/

/-- A message stays as it is, or a request of its receiver that opens its conversation marks it as
    read; that leaves the unread messages of the other conversations alone. -/
theorem unread_step (hrun : runs cfg users acts = some s) {a : AppAction cfg}
    (hstep : s.step (program cfg) a = some s') {n : ℤ} {m : Message}
    (hm : s.db.messages.get n = some m) :
    s'.db.messages.get n = some m ∨
    m.isRead = false ∧ s'.db.messages.get n = some { m with isRead := true } ∧
      (∃ i q st, a = .exec i ∧ s.sessions[i]? = some (q, st) ∧
        q.conversation? cfg s.db = some (m.itemId, m.senderId, m.receiverId)) ∧
      ∀ conv ≠ (m.itemId, m.senderId, m.receiverId), unread s'.db conv = unread s.db conv := by
  rcases step_cases hrun hstep with hd | ⟨i, q, st, e, ha, hi, -, he⟩
  · exact Or.inl (hd ▸ hm)
  refine (he.message_cases hm).imp_right fun ⟨hread, hq, hm'⟩ =>
    ⟨hread, hm', ⟨i, q, st, ha, hi, hq⟩, fun conv hne => ?_⟩
  rcases he.marks with ⟨i', p, u, count, -, hq', hr⟩ | hnone
  · rw [hq] at hq'; cases hq'
    exact hr.unread_ne hne
  · rw [hnone] at hq; cases hq

/-! ## The inbox -/

theorem unreadCount_of_inbox {u : String} {ties : ℤ × String → ℕ} {row : ConversationSummary}
    (h : row ∈ inbox cfg d u ties) : row.unreadCount = unread d (row.itemId, row.peerId, u) := by
  obtain ⟨x, -, hx⟩ := List.mem_filterMap.1 (mem_orderBy.1 h)
  unfold summary at hx
  dsimp only at hx
  split at hx
  · cases hx; rfl
  · cases hx

theorem exists_inbox {u : String} (ties : ℤ × String → ℕ) {n : ℤ} {m : Message}
    (hm : d.messages.get n = some m) (hu : m.receiverId = u)
    (hi : (d.items.get m.itemId).isSome) (hp : (d.users.get m.senderId).isSome) :
    ∃ row ∈ inbox cfg d u ties, row.itemId = m.itemId ∧ row.peerId = m.senderId := by
  obtain ⟨x, hx, hxc⟩ : ∃ x ∈ latest d u, conversationOf u x = (m.itemId, m.senderId) :=
    isConversation_iff.1 ⟨n, m, hm, rfl, Or.inr ⟨rfl, hu⟩⟩
  obtain ⟨item, hi⟩ := Option.isSome_iff_exists.1 hi
  obtain ⟨peer, hp⟩ := Option.isSome_iff_exists.1 hp
  obtain ⟨row, hrow, h₁, h₂⟩ : ∃ row, summary cfg d u x = some row ∧ row.itemId = m.itemId ∧
      row.peerId = m.senderId := by
    simp only [summary, hxc, hi, hp]
    exact ⟨_, rfl, rfl, rfl⟩
  exact ⟨row, mem_orderBy.2 (List.mem_filterMap.2 ⟨x, hx, hrow⟩), h₁, h₂⟩

theorem PaginationQueryDto.exists_page {α : Type} {l : List α} {x : α} (h : x ∈ l)
    (hlen : l.length < 2 ^ 53) (q : PaginationQueryDto) :
    ∃ dto : PaginationQueryDto, dto.size = q.size ∧ dto.offset < 2 ^ 63 ∧ x ∈ dto.rows l := by
  obtain ⟨k, hk, rfl⟩ := List.mem_iff_getElem.1 h
  have hdiv := Nat.div_add_mod' k q.size
  have hmod : k % q.size < q.size := Nat.mod_lt _ q.size_range.1
  have hoffset : rowsBefore (k / q.size + 1) q.size = k / q.size * q.size :=
    rowsBefore_eq q.size_range.1 (by rw [Nat.add_sub_cancel]; omega)
  refine ⟨⟨k / q.size + 1, q.size, Nat.le_add_left .., q.size_range⟩, rfl, ?_, ?_⟩
  · rw [offset, hoffset]
    omega
  · have hslice : l[k] ∈ (l.drop (k / q.size * q.size)).take q.size :=
      Paging.mem_slice.2 ⟨k, hk, by omega, by omega, rfl⟩
    rwa [← hoffset] at hslice

/-- **Unread accounting**: what a peer has sent to an employee about an item is the sum of the counts
    the employee's requests that mark the conversation as read have returned, and of the count the
    employee's inbox reports, on one of its pages of any size.  A message that is read stays so, and only
    a request of its receiver in its conversation marks it as read, which leaves the other conversations
    alone. -/
theorem unread_accounting (hrun : runs cfg users acts = some s) :
    (∀ i p u, sent s.db (i, p, u) =
      markedRead cfg users acts s (i, p, u) + unread s.db (i, p, u)) ∧
    (∀ u dto ties page, Responds cfg s.db (.conversations u dto ties) (.ok (.conversations page)) →
      ∀ row ∈ page.data, sent s.db (row.itemId, row.peerId, u) =
        markedRead cfg users acts s (row.itemId, row.peerId, u) + row.unreadCount) ∧
    (∀ i p u ties, 0 < sent s.db (i, p, u) → (s.db.users.get p).isSome →
      ∃ row ∈ inbox cfg s.db u ties, row.itemId = i ∧ row.peerId = p ∧
        sent s.db (i, p, u) = markedRead cfg users acts s (i, p, u) + row.unreadCount ∧
        ((inbox cfg s.db u ties).length < 2 ^ 53 → ∀ dto : PaginationQueryDto, ∃ dto' page,
          dto'.size = dto.size ∧ row ∈ page.data ∧
          Responds cfg s.db (.conversations u dto' ties) (.ok (.conversations page)))) ∧
    (∀ j q st r, s.sessions[j]? = some (q, st) → st.reply? = some r → q.opens = true →
      ReturnsCount q (s.callsOf j) (affected cfg users acts j) r) ∧
    ∀ a s', s.step (program cfg) a = some s' → ∀ n m, s.db.messages.get n = some m →
      s'.db.messages.get n = some m ∨
      m.isRead = false ∧ s'.db.messages.get n = some { m with isRead := true } ∧
        (∃ i q st, a = .exec i ∧ s.sessions[i]? = some (q, st) ∧
          q.conversation? cfg s.db = some (m.itemId, m.senderId, m.receiverId)) ∧
        ∀ conv ≠ (m.itemId, m.senderId, m.receiverId), unread s'.db conv = unread s.db conv := by
  refine ⟨fun i p u => sent_eq hrun _, fun u dto ties page hpage row hrow => ?_,
    fun i p u ties hpos hp => ?_, fun j q st r hj hr hq => affected_returned hrun hj hr hq,
    fun a s' hstep n m hm => unread_step hrun hstep hm⟩
  · cases hpage.unique (inbox_responds cfg s.db u (offset_lt_of_responds hpage) ties)
    have hrow : row ∈ inbox cfg s.db u ties := List.mem_of_mem_drop (List.mem_of_mem_take hrow)
    rw [unreadCount_of_inbox hrow]
    exact sent_eq hrun _
  · obtain ⟨⟨n, m⟩, hx⟩ := List.exists_mem_of_length_pos hpos
    obtain ⟨hm, hsent⟩ := List.mem_filter.1 hx
    simp only [sentIn, Bool.and_eq_true, decide_eq_true_eq] at hsent
    obtain ⟨⟨rfl, rfl⟩, hu⟩ := hsent
    rw [Table.mem_rows] at hm
    obtain ⟨item, hi, -⟩ := runs_withSeller hrun n m hm
    obtain ⟨row, hrow, h₁, h₂⟩ : ∃ row ∈ inbox cfg s.db u ties, _ :=
      exists_inbox ties hm hu (Option.isSome_of_eq_some hi) hp
    refine ⟨row, hrow, h₁, h₂, ?_, fun hlen dto => ?_⟩
    · rw [unreadCount_of_inbox hrow, ← h₁, ← h₂]
      exact sent_eq hrun _
    · obtain ⟨dto', hsize, ho, hmem⟩ := PaginationQueryDto.exists_page hrow hlen dto
      exact ⟨dto', _, hsize, hmem, inbox_responds cfg s.db u ho ties⟩

end

/-! ## Two tabs -/

/-- The conversation about the first item with the buyer. -/
def sampleWithBuyer : ConversationDto :=
  ⟨1, some "EMP00102", none, sampleOrder.itemId_min, by simpa using buyerId_ok, noPeer_ok⟩

/-- The seller marks the conversation with the buyer as read. -/
def sampleRead : Request sample :=
  .markChatRead "EMP00101" sampleWithBuyer

/-- The seller opens the conversation with the buyer. -/
def sampleOpened : Request sample :=
  .joinChat ⟨"seller", "EMP00101"⟩
    sampleWithBuyer

/-- The buyer writes, the seller marks that as read in two tabs at once, the buyer writes again. -/
def sampleTabs : List (AppAction sample) :=
  perform 0 6 (.createItem "EMP00101" sampleUnit) ++ perform 1 9 sampleMessage ++
    ([.submit sampleRead, .submit sampleOpened] : List (AppAction sample)) ++
    ([.exec 2, .exec 2, .exec 2, .exec 3, .exec 3, .exec 3, .exec 3, .answer 3 .done] :
      List (AppAction sample)) ++
    ([.exec 2, .exec 3, .exec 2, .exec 3, .exec 2, .exec 2, .exec 3, .exec 3, .exec 2,
      .answer 2 .done] : List (AppAction sample)) ++
    perform 4 9 sampleMessage

/-- One of the two messages has been marked as read, once. -/
theorem unread_accounting_sample : ∃ s, runs sample sampleUsers sampleTabs = some s ∧
    sent s.db (1, "EMP00102", "EMP00101") = 2 ∧
    markedRead sample sampleUsers sampleTabs s (1, "EMP00102", "EMP00101") = 1 ∧
    unread s.db (1, "EMP00102", "EMP00101") = 1 := by
  obtain ⟨s, hrun, hs⟩ : ∃ s, runs sample sampleUsers sampleTabs = some s ∧
      (sent s.db (1, "EMP00102", "EMP00101") = 2 && unread s.db (1, "EMP00102", "EMP00101") = 1) =
        true := reaches (by decide +kernel)
  simp only [Bool.and_eq_true, decide_eq_true_eq] at hs
  have h := (unread_accounting hrun).1 1 "EMP00102" "EMP00101"
  exact ⟨s, hrun, hs.1, by omega, hs.2⟩

end Marketplace
