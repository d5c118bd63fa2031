/-
  What the requests are for: the atomic events a request may cause, each with
  its effect on the database and the checks it stands for.

  This is the abstract view of the application: a request that commits causes
  one event, at once, on the database as it is at that moment.  A `Regime`
  restricts the requests that are made and names what is then known of the
  database throughout; `Regime.spec` is the specification the handlers are
  checked against.
-/
import Marketplace.App
import Marketplace.Lib.Simulation

namespace Marketplace

open ReadCommitted

inductive Event where
  | listItem (itemId : ℤ)
  | setItemStatus (itemId : ℤ) (status : ItemStatus)
  | placeOrder (orderId : ℤ)
  | resolveOrder (orderId : ℤ) (status : OrderStatus)
  | attachSlip (orderId : ℤ) (url : String)
  | saveProfile (userId : String)
  | sendMessage (messageId : ℤ) (m : Message)
  | readMessages (itemId : ℤ) (peerId userId : String) (count : ℕ)
  | notify (notificationId : ℤ) (n : Notification)
  | readNotifications (userId : String)
  | claimToken (userId token : String)
  | clearToken (userId : String)
  | forgetToken (userId token : String)

/-- The events that touch an item or an order. -/
def Event.trades : Event → Bool
  | .listItem _ | .setItemStatus .. | .placeOrder _ | .resolveOrder .. | .attachSlip .. => true
  | _ => false

/-- The events after which a request is not answered with an error any more. -/
def Event.settles : Event → Bool
  | .readMessages .. | .notify .. => true
  | _ => false

/-- The row versions of an event, as far as they matter: a count is the number of rows written, and
    only a notification that is saved adds a notification. -/
def Event.writes : Event → List (Write market) → Prop
  | .readMessages _ _ _ count, ws => ws.length = count
  | .notify notificationId n, ws => ws = [⟨.notification notificationId, n⟩]
  | .readNotifications _, _ => True
  | _, ws => ∀ w ∈ ws, ∀ n, w.1 ≠ .notification n

/-- No order on the item is PENDING. -/
def NoPending (itemId : ℤ) (d : Database) : Prop :=
  ∀ o r, d.orders.get o = some r → r.itemId = itemId → r.status ≠ .pending

/-- `count` unread messages of a conversation have become read, and nothing else has changed. -/
structure ReadsMessages (itemId : ℤ) (peerId userId : String) (count : ℕ) (d d' : Database) :
    Prop where
  frame : ∃ t, d' = { d with messages := t }
  rows : ∀ n, d'.messages.get n = d.messages.get n ∨
    ∃ m, d.messages.get n = some m ∧ ChatsService.unreadFrom itemId peerId userId m = true ∧
      d'.messages.get n = some { m with isRead := true }
  count : ChatsService.unreadCount d userId (itemId, peerId) =
    ChatsService.unreadCount d' userId (itemId, peerId) + count

/-- Unread notifications of `userId` have become read, and nothing else has changed. -/
structure ReadsNotifications (userId : String) (d d' : Database) : Prop where
  frame : ∃ t, d' = { d with notifications := t }
  rows : ∀ n, d'.notifications.get n = d.notifications.get n ∨
    ∃ r, d.notifications.get n = some r ∧ r.userId = userId ∧
      d'.notifications.get n = some { r with isRead := true }

/-- The token has become the one of `userId`, it has been taken from some who held it, and nothing
    else has changed. -/
structure ClaimsToken (userId token : String) (d d' : Database) : Prop where
  frame : ∃ t, d' = { d with users := t }
  own : ∃ u, d.users.get userId = some u ∧
    d'.users.get userId = some { u with fcmToken := some token }
  others : ∀ v, v ≠ userId → d'.users.get v = d.users.get v ∨
    ∃ u, d.users.get v = some u ∧ u.fcmToken = some token ∧
      d'.users.get v = some { u with fcmToken := none }

/-- The database after an order on `item` has been cancelled. -/
def cancelled (d : Database) (orderId : ℤ) (order : Order) (item : Item) : Database :=
  let d₁ := d.put (.order orderId) { order with status := .cancelled }
  if item.status = .reserved then
    d₁.put (.item order.itemId) { item with status := .available }
  else d₁

/-! ## Notifications of orders -/

/-- The requests that notify someone. -/
def Request.notifies {cfg : Config} : Request cfg → Bool
  | .createOrder .. | .updateOrderStatus .. | .attachPaymentSlip .. => true
  | _ => false

/-- The employee who makes a request that notifies someone, and what it notifies of. -/
def Request.announces {cfg : Config} : Request cfg → Option (String × NotificationType)
  | .createOrder buyerId _ => some (buyerId, .orderPlaced)
  | .updateOrderStatus _ userId dto =>
    some (userId, if dto.status = .completed then .orderCompleted else .orderCancelled)
  | .attachPaymentSlip _ userId _ => some (userId, .paymentSlipAttached)
  | _ => none

/-- The employee whose notifications a request marks as read. -/
def Request.marks? {cfg : Config} : Request cfg → Option String
  | .markNotificationRead userId _ | .markAllNotificationsRead userId => some userId
  | _ => none

/-- The other party of an order. -/
def counterpart (order : Order) (userId : String) : Option String :=
  if order.sellerId = userId then some order.buyerId
  else if order.buyerId = userId then some order.sellerId
  else none

/-- The notification tells the other party of an order what the request did. -/
def Announces {cfg : Config} (d : Database) (q : Request cfg) (n : Notification) : Prop :=
  ∃ userId orderId order, q.announces = some (userId, n.type) ∧ n.orderId = some orderId ∧
    d.orders.get orderId = some order ∧ counterpart order userId = some n.userId

/-- The event by which a request changes the order. -/
def OrderEvent {cfg : Config} (orderId : ℤ) : Request cfg → Event → Prop
  | .createOrder .., e => e = .placeOrder orderId
  | .updateOrderStatus o _ dto, e => o = orderId ∧ e = .resolveOrder orderId dto.status
  | .attachPaymentSlip o _ dto, e => o = orderId ∧ e = .attachSlip orderId dto.paymentSlipUrl
  | _, _ => False

/-- No notification is saved. -/
def Quiet (log : List (Log Event QueryFailedError Call)) : Prop :=
  ∀ n r, .emit (.notify n r) ∉ log

/-- An order request that succeeds changes the order, and then saves one notification, unless the
    database fails that. -/
def OrderLog {cfg : Config} (q : Request cfg) (log : List (Log Event QueryFailedError Call)) :
    Prop :=
  ∃ orderId e rest, log = .emit e :: rest ∧ OrderEvent orderId q e ∧
    ((∃ f, rest = [.fault f]) ∨ ∃ n r rest', rest = .emit (.notify n r) :: rest' ∧ Quiet rest')

/-! ## Conversations -/

section
variable (cfg : Config)

/-- The item of a conversation, the peer, and the employee who names them. -/
def conversation? (d : Database) (me : String) (dto : ConversationDto) :
    Option (ℤ × String × String) :=
  (peerOf cfg dto).toOption.bind fun peer =>
    (d.items.get dto.itemId).bind fun item =>
      (ChatsService.peerFor item me (PeerTokenService.resolve cfg peer)).toOption.map fun peerId =>
        (dto.itemId, peerId, me)

/-- The conversation a request marks as read. -/
def Request.conversation? (d : Database) : Request cfg → Option (ℤ × String × String)
  | .markChatRead userId dto => Marketplace.conversation? cfg d userId dto
  | .joinChat client dto => Marketplace.conversation? cfg d client.userId dto
  | _ => none

end

/-- The rooms a request tells that messages have been read. -/
def Request.readRooms {cfg : Config} (itemId : ℤ) (readerId peerId : String) :
    Request cfg → List String
  | .joinChat .. => [conversationRoom itemId readerId peerId, userRoom peerId]
  | _ => [conversationRoom itemId readerId peerId, userRoom peerId, userRoom readerId]

/-- A request marks `count` messages as read and tells so, if there are any. -/
def ReadLog {cfg : Config} (q : Request cfg) (itemId : ℤ) (peerId readerId : String) (count : ℕ)
    (log : List (Log Event QueryFailedError Call)) : Prop :=
  if count = 0 then log = []
  else log = [.emit (.readMessages itemId peerId readerId count),
    .call (.socket (.emit (q.readRooms itemId readerId peerId) none
      (.messagesRead itemId readerId count)))]

/-! ## Events and their effects -/

section
variable (cfg : Config) (base : Database → Prop)

/-- `me` talks to `peer` about the item. -/
def TalksOn (me : String) (itemId : ℤ) (withUserId : Option String) (peer : String)
    (d : Database) : Prop :=
  ∃ item, d.items.get itemId = some item ∧
    ChatsService.peerFor item me (PeerTokenService.resolve cfg withUserId) = .ok peer

/-- `me` talks to `peer` about the item, as a handler has found out on an earlier database. -/
def Talks (me : String) (itemId : ℤ) (withUserId : Option String) (peer : String) : Prop :=
  ∃ d item, base d ∧ d.items.get itemId = some item ∧
    ChatsService.peerFor item me (PeerTokenService.resolve cfg withUserId) = .ok peer

/-- The stored row after `save`, if the entity was loaded from `r₀`, compared with `r₁` and written
    over `r`. -/
def savedRow (userId : String) (dto : UpdateProfileDto cfg) (r₀ r₁ r : User) : User :=
  let u := UsersService.merge cfg (UsersService.profile userId r₀) dto
  { r with
    fullName := if u.fullName = r₁.fullName then r.fullName else u.fullName
    department := if u.department = r₁.department then r.department else u.department
    phoneNumber := if u.phoneNumber = r₁.phoneNumber then r.phoneNumber else u.phoneNumber
    qrPaymentUrl := if u.qrPaymentUrl = r₁.qrPaymentUrl then r.qrPaymentUrl else u.qrPaymentUrl }

/-- The effect of an event of a request that holds the row locks `L`. -/
inductive Emits : Request cfg → Event → List Key → Database → Database → Prop
  | listItem {sellerId dto price n now L d} :
    ItemsService.resolvePrice dto.itemType dto.price = .ok price →
    StorageService.assertManagedUrls cfg (dto.images.getD []).eraseDups = .ok () →
    d.items.get n = none →
    Emits (.createItem sellerId dto) (.listItem n) L d (d.put (.item n)
      (ItemsService.newItem cfg sellerId dto price (dto.images.getD []).eraseDups now))
  | setItemStatus {itemId userId status item L d} :
    d.items.get itemId = some item → item.sellerId = userId → item.status ≠ status →
    NoPending itemId d → .item itemId ∈ L →
    Emits (.updateItemStatus itemId userId status) (.setItemStatus itemId status) L d
      (d.put (.item itemId) { item with status })
  | placeOrder {buyerId} {dto : CreateOrderDto} {item n now L d} :
    d.items.get dto.itemId = some item → item.sellerId ≠ buyerId → item.status = .available →
    dto.quantity.getD 1 ≤ item.quantity → d.orders.get n = none → .item dto.itemId ∈ L →
    Emits (.createOrder buyerId dto) (.placeOrder n) L d
      ((d.put (.order n)
          (OrdersService.newOrder buyerId dto.itemId item (dto.quantity.getD 1) now)).put
        (.item dto.itemId) { item with status := .reserved })
  | completeOrder {orderId userId} {dto : UpdateOrderStatusDto} {order item L d} :
    dto.status = .completed → d.orders.get orderId = some order →
    d.items.get order.itemId = some item → order.sellerId = userId → order.status = .pending →
    .item order.itemId ∈ L → .order orderId ∈ L →
    Emits (.updateOrderStatus orderId userId dto) (.resolveOrder orderId .completed) L d
      ((d.put (.order orderId) { order with status := .completed }).put (.item order.itemId)
        { item with
          quantity := max (item.quantity - order.quantity) 0
          status := if max (item.quantity - order.quantity) 0 > 0 then .available else .sold })
  | cancelOrder {orderId userId} {dto : UpdateOrderStatusDto} {order item L d} :
    dto.status = .cancelled → d.orders.get orderId = some order →
    d.items.get order.itemId = some item → order.sellerId = userId ∨ order.buyerId = userId →
    order.status = .pending → .item order.itemId ∈ L → .order orderId ∈ L →
    Emits (.updateOrderStatus orderId userId dto) (.resolveOrder orderId .cancelled) L d
      (cancelled d orderId order item)
  | attachSlip {orderId userId} {dto : AttachPaymentSlipDto cfg} {order L d} :
    StorageService.isManagedUrl cfg dto.paymentSlipUrl = true →
    d.orders.get orderId = some order → order.buyerId = userId → .order orderId ∈ L →
    Emits (.attachPaymentSlip orderId userId dto) (.attachSlip orderId dto.paymentSlipUrl) L d
      (d.put (.order orderId) { order with paymentSlipUrl := some dto.paymentSlipUrl })
  | saveProfile {userId dto r₀ r₁ r L d₀ d₁ d} :
    StorageService.assertManagedUrls cfg (UsersService.checkedUrl cfg dto).toList = .ok () →
    base d₀ → d₀.users.get userId = some r₀ → base d₁ → d₁.users.get userId = some r₁ →
    d.users.get userId = some r →
    Emits (.updateProfile userId dto) (.saveProfile userId) L d
      (d.put (.user userId) (savedRow cfg userId dto r₀ r₁ r))
  | sendMessage {client} {dto : SendMessageDto} {peer n now L d} :
    PeerTokenService.resolve cfg (some dto.receiverId) ≠ some client.userId →
    Talks cfg base client.userId dto.itemId
      (PeerTokenService.resolve cfg (some dto.receiverId)) peer →
    TalksOn cfg client.userId dto.itemId
      (PeerTokenService.resolve cfg (some dto.receiverId)) peer d →
    1 ≤ n → d.messages.get n = none →
    Emits (.sendMessage client dto)
      (.sendMessage n ⟨dto.itemId, client.userId, peer, dto.messageText, false, now⟩) L d
      (d.put (.message n) ⟨dto.itemId, client.userId, peer, dto.messageText, false, now⟩)
  | readMessages {q itemId peerId userId count L d d'} :
    q.conversation? cfg d = some (itemId, peerId, userId) →
    ReadsMessages itemId peerId userId count d d' →
    Emits q (.readMessages itemId peerId userId count) L d d'
  | notify {q n r L d} :
    q.notifies = true → d.notifications.get n = none → (∀ k ∈ L, k = .notification n) →
    Announces d q r → Emits q (.notify n r) L d (d.put (.notification n) r)
  | readNotifications {q userId L d d'} :
    (∃ n, q = .markNotificationRead userId n) ∨ q = .markAllNotificationsRead userId →
    ReadsNotifications userId d d' → Emits q (.readNotifications userId) L d d'
  | claimToken {userId dto L d d'} :
    ClaimsToken userId dto.fcmToken d d' →
    Emits (.updateFcmToken userId dto) (.claimToken userId dto.fcmToken) L d d'
  | clearToken {userId r L d} :
    d.users.get userId = some r →
    Emits (.clearFcmToken userId) (.clearToken userId) L d
      (d.put (.user userId) { r with fcmToken := none })
  | forgetToken {q userId token r L d} :
    q.notifies = true → d.users.get userId = some r → r.fcmToken = some token →
    (∀ k ∈ L, k = .user userId) →
    Emits q (.forgetToken userId token) L d (d.put (.user userId) { r with fcmToken := none })

/-- What a request has gone through when it causes an event: an order or an item is changed first, a
    notification follows the change of the order, a token is forgotten after FCM has rejected it. -/
def Caused {cfg : Config} (q : Request cfg) (log : List (Log Event QueryFailedError Call)) :
    Event → Prop
  | .notify _ n => ∃ orderId e, log = [.emit e] ∧ OrderEvent orderId q e ∧ n.orderId = some orderId
  | .forgetToken userId token => ∃ log' m, log = log' ++ [.call (.fcm m)] ∧
      m.notification.userId = userId ∧ m.token = token
  | .listItem _ | .setItemStatus .. | .placeOrder _ | .resolveOrder .. | .attachSlip .. => log = []
  | _ => True

/-- The calls of a request after `log`. -/
def Calls (q : Request cfg) (log : List (Log Event QueryFailedError Call)) : Call → Prop
  | .socket (.join x room) => room = userRoom x.userId ∨
      ∃ dto conv peer, q = .joinChat x dto ∧ peerOf cfg dto = .ok conv ∧
        Talks cfg base x.userId dto.itemId conv peer ∧
        room = conversationRoom dto.itemId x.userId peer
  | .socket (.emit rooms except (.newMessage n m)) =>
      ∃ client dto, q = .sendMessage client dto ∧ rooms = ChatsGateway.messageRooms m ∧
        except = some client ∧ log = [.emit (.sendMessage n m)]
  | .socket (.emit rooms except (.messagesRead itemId readerId count)) =>
      ∃ log' peerId, log = log' ++ [.emit (.readMessages itemId peerId readerId count)] ∧
        rooms = q.readRooms itemId readerId peerId ∧ except = none
  | .socket (.emit rooms except (.notificationsRead _ _)) =>
      ∃ userId, q.marks? = some userId ∧ rooms = [userRoom userId] ∧ except = none
  | .fcm _ => q.notifies = true
  | _ => True

/-- A request that fails has not marked messages as read or notified anyone. -/
def Unsettled (log : List (Log Event QueryFailedError Call)) : Prop :=
  ∀ e, .emit e ∈ log → e.settles = false

/-- The replies to a request after `log`. -/
def Replies (q : Request cfg) (log : List (Log Event QueryFailedError Call)) :
    Except Thrown Response → Prop
  | .ok r =>
    match q with
    | .createOrder .. | .updateOrderStatus .. | .attachPaymentSlip .. => OrderLog q log
    | .sendMessage client _ => ∃ n m, r = .message n m ∧
        log = [.emit (.sendMessage n m),
          .call (.socket (.emit (ChatsGateway.messageRooms m) (some client) (.newMessage n m)))]
    | .markChatRead userId _ => ∃ itemId peerId count, r = .count count ∧
        ReadLog q itemId peerId userId count log
    | .joinChat client _ => ∃ conv room count log', r = .joined conv room ∧
        log = .call (.socket (.join client room)) :: log' ∧
        ReadLog q conv.itemId conv.peerId client.userId count log'
    | _ => True
  | .error _ => Unsettled log

/-- Which requests are made, and what is then known of the database at every moment. -/
structure Regime where
  admitted : Request cfg → Prop
  base : Database → Prop
  keeps : ∀ {q e L d d'}, admitted q → base d → Emits cfg base q e L d d' → base d'

variable {cfg}

/-- The specification of the application. -/
abbrev Regime.spec (R : Regime cfg) : Spec market (Request cfg) where
  Event := Event
  admitted := R.admitted
  base := R.base
  first _ := 1
  emits q log e L d d' := Emits cfg R.base q e L d d' ∧ Caused q log e
  writes := Event.writes
  calls := Calls cfg R.base
  replies := Replies cfg
  base_emits hq hb he := R.keeps hq hb he.1

/-- Any requests. -/
def Regime.any : Regime cfg := ⟨fun _ => True, fun _ => True, fun _ _ _ => trivial⟩

end

end Marketplace
