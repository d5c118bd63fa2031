/-
  Chats: who talks to whom about an item, messages, history and inbox.
-/
import Marketplace.Dto
import Marketplace.Lib.OrderBy

namespace Marketplace

variable (cfg : Config)

/-- JavaScript truthiness of an optional string. -/
def truthy (s : Option String) : Bool := s.any (· ≠ "")

/-- Accepts either a peer token or a plain employee ID (for existing clients). -/
def PeerTokenService.resolve (value : Option String) : Option String :=
  if truthy value then value.map fun v => (cfg.decode v).getD v else value

/-- The other participant from `withUserId` or `peerId`; rejects conflicting values. -/
def peerOf (dto : ConversationDto) : Except Exception (Option String) :=
  let withUserId := PeerTokenService.resolve cfg dto.withUserId
  let peerId := PeerTokenService.resolve cfg dto.peerId
  if truthy withUserId && truthy peerId && withUserId ≠ peerId then
    .error (.badRequest "withUserId and peerId refer to different users; send only one")
  else .ok (withUserId.or peerId)

/-! ## Rooms -/

/-- The UTF-16 code units `Array.prototype.sort` compares strings by. -/
def utf16 (s : String) : List ℕ :=
  s.toList.flatMap fun c =>
    let n := c.toNat
    if n < 0x10000 then [n] else [0xd800 + (n - 0x10000) / 0x400, 0xdc00 + (n - 0x10000) % 0x400]

def conversationRoom (itemId : ℤ) (userA userB : String) : String :=
  let sorted := if utf16 userB < utf16 userA then (userB, userA) else (userA, userB)
  "chat:" ++ toString itemId ++ ":" ++ sorted.1 ++ ":" ++ sorted.2

def userRoom (userId : String) : String := "user:" ++ userId

namespace ChatsService

/-- Who `userId` is talking to about `item`. -/
def peerFor (item : Item) (userId : String) (withUserId : Option String) :
    Except Exception String :=
  if item.sellerId = userId then
    match withUserId.filter (· ≠ "") with
    | none => .error
        (.badRequest "withUserId (or peerId) of the buyer is required when the seller opens a chat")
    | some peer =>
      if peer = userId then .error (.badRequest "You cannot chat with yourself") else .ok peer
  else if truthy withUserId && withUserId ≠ some item.sellerId then
    .error (.forbidden "Buyers can only chat with the seller of the item")
  else .ok item.sellerId

/-- Resolves who the current user is talking to about an item.
    Every conversation is between the item's seller and one other employee. -/
def resolveConversation (itemId : ℤ) (userId : String) (peer : Option String)
    (k : ResolvedConversation → Program) : Program :=
  let withUserId := PeerTokenService.resolve cfg peer
  query (fun d => d.items.get itemId) fun
    | none => fail (.app (.notFound s!"Item {itemId} not found"))
    | some item =>
      match peerFor item userId withUserId with
      | .error e => fail (.app e)
      | .ok peerId => k ⟨itemId, item.sellerId, peerId, cfg.encode peerId⟩

def createMessage (senderId : String) (dto : SendMessageDto)
    (k : ℤ → Message → Program) : Program :=
  let receiverId := PeerTokenService.resolve cfg (some dto.receiverId)
  if receiverId = some senderId then fail (.app (.badRequest "You cannot message yourself"))
  else
    resolveConversation cfg dto.itemId senderId receiverId fun conversation =>
      query (fun d => (d.users.get conversation.peerId).isSome) fun receiverExists =>
        if receiverExists then
          .tx (.insert .messages
              (fun now _ =>
                ⟨dto.itemId, senderId, conversation.peerId, dto.messageText, false, now⟩)
              fun n m => .commit ((n : ℤ), (m : Message))) fun
            | .ok (messageId, m) => k messageId m
            | .error e => fail e
        else fail (.app (.notFound s!"Employee {conversation.peerId} not found"))

/-- The WHERE clause of the history query. -/
def inHistory (itemId : ℤ) (me peer : String) (beforeId : Option ℤ) (x : ℤ × Message) : Bool :=
  x.2.itemId = itemId &&
    ((x.2.senderId = me && x.2.receiverId = peer) ||
      (x.2.senderId = peer && x.2.receiverId = me)) &&
    beforeId.all fun n => x.1 < n

/-- The rows of a history query: newest first, one more than asked for. -/
def historyRows (d : Database) (itemId : ℤ) (me peer : String) (beforeId : Option ℤ) (limit : ℕ) :
    List (ℤ × Message) :=
  (orderBy (newest Message.createdAt)
    (d.messages.rows.filter (inHistory itemId me peer beforeId))).take (limit + 1)

/-- A page of the history in chronological order, and its cursor. -/
def historyPage (conv : ResolvedConversation) (limit : ℕ) (rows : List (ℤ × Message)) : Response :=
  let hasMore : Bool := rows.length > limit
  let page := (rows.take limit).reverse
  .history page ⟨conv.itemId, conv.peerId, conv.peerToken, hasMore,
    if hasMore then page.head?.map Prod.fst else none⟩

/-- Newest-first cursor pagination, returned in chronological order for rendering. -/
def getHistory (userId : String) (dto : ChatHistoryQueryDto) : Program :=
  match peerOf cfg dto.toConversationDto with
  | .error e => fail (.app e)
  | .ok peer =>
    resolveConversation cfg dto.itemId userId peer fun conv =>
      query (fun d => historyRows d conv.itemId userId conv.peerId dto.beforeId dto.limit)
        fun rows => answer (historyPage conv dto.limit rows)

/-- The WHERE clause of `markAsRead`. -/
def unreadFrom (itemId : ℤ) (peerId userId : String) (m : Message) : Bool :=
  m.itemId = itemId && m.senderId = peerId && m.receiverId = userId && !m.isRead

/-- Marks messages sent by the peer to the current user as read. Returns affected count. -/
def markAsRead (userId : String) (itemId : ℤ) (peerId : String) (k : ℕ → Program) : Program :=
  .tx (.select
      (fun d => (d.messages.rows.filter fun x => unreadFrom itemId peerId userId x.2).map Prod.fst)
      fun ids => .updateEach Key.message (fun _ => unreadFrom itemId peerId userId)
        (fun _ (m : Message) => { m with isRead := true }) .commit ids 0) fun
    | .ok count => k count
    | .error e => fail e

/-! ## Inbox -/

/-- `mine`: the messages of an employee; the key is the conversation, an item and a peer. -/
def mine (d : Database) (userId : String) : List (ℤ × Message) :=
  d.messages.rows.filter fun x => x.2.senderId = userId || x.2.receiverId = userId

def conversationOf (userId : String) (x : ℤ × Message) : ℤ × String :=
  (x.2.itemId, if x.2.senderId = userId then x.2.receiverId else x.2.senderId)

/-- `latest`: the newest message of each conversation. -/
def latest (d : Database) (userId : String) : List (ℤ × Message) :=
  distinctOn (conversationOf userId) (orderBy (newest Message.createdAt) (mine d userId))

/-- `unread`: how many messages of a conversation the employee has not read. -/
def unreadCount (d : Database) (userId : String) (conv : ℤ × String) : ℕ :=
  (d.messages.rows.filter fun x => unreadFrom conv.1 conv.2 userId x.2).length

/-- The row of a conversation, if its item and its peer exist. -/
def summary (d : Database) (userId : String) (x : ℤ × Message) : Option ConversationSummary :=
  let conv := conversationOf userId x
  match d.items.get conv.1, d.users.get conv.2 with
  | some i, some u => some
      { itemId := conv.1, itemTitle := i.title, itemImage := i.images.head?, itemStatus := i.status,
        sellerId := i.sellerId, peerId := conv.2, peerName := u.fullName,
        peerToken := cfg.encode conv.2, lastMessageId := x.1, lastMessageText := x.2.messageText,
        lastSenderId := x.2.senderId, lastMessageAt := x.2.createdAt,
        unreadCount := unreadCount d userId conv }
  | _, _ => none

/-- ORDER BY l.created_at DESC; `ties` is the order in which the database returns rows that this
    leaves tied. -/
def inboxKey (ties : ℤ × String → ℕ) (s : ConversationSummary) : ℕᵒᵈ ×ₗ ℕ ×ₗ ℤᵒᵈ :=
  toLex (OrderDual.toDual s.lastMessageAt,
    toLex (ties (s.itemId, s.peerId), OrderDual.toDual s.lastMessageId))

/-- The OFFSET is a parameter of the query, sent as `1e+21` from there on. -/
def offsetError : PaginationQueryDto → Option QueryFailedError :=
  PaginationQueryDto.offsetErrorBelow (10 ^ 21) PgErrorCode.INVALID_TEXT_REPRESENTATION

/-- Inbox: one row per (item, peer) with the latest message and unread count. -/
def getConversations (userId : String) (dto : PaginationQueryDto)
    (ties : ℤ × String → ℕ) : Program :=
  unlessRefused (offsetError dto) <|
    query (fun d =>
        let all := orderBy (inboxKey ties) ((latest d userId).filterMap (summary cfg d userId))
        ((dto.rows all), all.length)) fun (rows, totalCount) =>
      let total := if rows.length > 0 then totalCount else 0
      answer (.conversations (paginate rows total dto.page dto.size))

end ChatsService

end Marketplace
