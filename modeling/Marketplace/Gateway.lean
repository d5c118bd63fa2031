/-
  The socket namespace `/chat` and the chat endpoints of the REST API.
-/
import Marketplace.Chats

namespace Marketplace

variable (cfg : Config)

namespace ChatsGateway

/-- Every socket automatically joins `user:<userId>`. -/
def handleConnection (client : ChatSocket) : Program :=
  socket (.connect client) (socket (.join client (userRoom client.userId)) (answer .connected))

def handleDisconnect (client : ChatSocket) : Program :=
  socket (.disconnect client) (answer .disconnected)

def joinChat (client : ChatSocket) (dto : ConversationDto) : Program :=
  let me := client.userId
  match peerOf cfg dto with
  | .error e => fail (.app e)
  | .ok peer =>
    ChatsService.resolveConversation cfg dto.itemId me peer fun conv =>
      let room := conversationRoom conv.itemId me conv.peerId
      socket (.join client room)
        (ChatsService.markAsRead me conv.itemId conv.peerId fun count =>
          if count > 0 then
            socket (.emit [room, userRoom conv.peerId] none (.messagesRead conv.itemId me count))
              (answer (.joined conv room))
          else answer (.joined conv room))

def leaveChat (client : ChatSocket) (dto : ConversationDto) : Program :=
  let me := client.userId
  match peerOf cfg dto with
  | .error e => fail (.app e)
  | .ok peer =>
    ChatsService.resolveConversation cfg dto.itemId me peer fun conv =>
      socket (.leave client (conversationRoom conv.itemId me conv.peerId)) (answer .left)

/-- The rooms `newMessage` is sent to: the conversation and both users. -/
def messageRooms (m : Message) : List String :=
  [conversationRoom m.itemId m.senderId m.receiverId, userRoom m.receiverId, userRoom m.senderId]

def sendMessage (client : ChatSocket) (dto : SendMessageDto) : Program :=
  let me := client.userId
  if truthy dto.senderId ∧ dto.senderId ≠ some me then
    fail (.app (.ws "senderId does not match the authenticated user"))
  else
    ChatsService.createMessage cfg me dto fun messageId m =>
      -- Rooms are de-duplicated by socket.io; the sending socket gets the message via its ack.
      socket (.emit (messageRooms m) (some client) (.newMessage messageId m))
        (answer (.message messageId m))

/-- Also used by the REST controller so read receipts stay in sync across transports. -/
def notifyRead (itemId : ℤ) (readerId peerId : String) (count : ℕ) (k : Program) : Program :=
  socket (.emit [conversationRoom itemId readerId peerId, userRoom peerId, userRoom readerId] none
    (.messagesRead itemId readerId count)) k

/-- The socket event `markRead` and `PATCH /chats/read`. -/
def markRead (me : String) (dto : ConversationDto) : Program :=
  match peerOf cfg dto with
  | .error e => fail (.app e)
  | .ok peer =>
    ChatsService.resolveConversation cfg dto.itemId me peer fun conv =>
      ChatsService.markAsRead me conv.itemId conv.peerId fun count =>
        if count > 0 then notifyRead conv.itemId me conv.peerId count (answer (.count count))
        else answer (.count count)

end ChatsGateway

end Marketplace
