/-
  The application: its requests, the program of each, and the runs of any
  number of them from the migrated database.
-/
import Marketplace.Orders
import Marketplace.Users
import Marketplace.Gateway
import Marketplace.Lib.Alone

namespace Marketplace

open ReadCommitted

/-- A request, with the employee (or the socket) that makes it. -/
inductive Request (cfg : Config) where
  | createItem (sellerId : String) (dto : CreateItemDto cfg)
  | updateItemStatus (itemId : ℤ) (userId : String) (status : ItemStatus)
  | findItems (dto : ListItemsQueryDto)
  | findItem (itemId : ℤ)
  | createOrder (buyerId : String) (dto : CreateOrderDto)
  | updateOrderStatus (orderId : ℤ) (userId : String) (dto : UpdateOrderStatusDto)
  | attachPaymentSlip (orderId : ℤ) (userId : String) (dto : AttachPaymentSlipDto cfg)
  | findMyOrders (userId : String) (dto : ListOrdersQueryDto)
  | findOrder (orderId : ℤ) (userId : String)
  | profile (userId : String)
  | publicProfile (userId : String)
  | updateProfile (userId : String) (dto : UpdateProfileDto cfg)
  | updateFcmToken (userId : String) (dto : UpdateFcmTokenDto)
  | clearFcmToken (userId : String)
  | login (dto : LoginDto cfg)
  | history (userId : String) (dto : ChatHistoryQueryDto)
  | conversations (userId : String) (dto : PaginationQueryDto) (ties : ℤ × String → ℕ)
  | markChatRead (userId : String) (dto : ConversationDto)
  | connect (client : ChatSocket)
  | disconnect (client : ChatSocket)
  | joinChat (client : ChatSocket) (dto : ConversationDto)
  | leaveChat (client : ChatSocket) (dto : ConversationDto)
  | sendMessage (client : ChatSocket) (dto : SendMessageDto)
  | findMyNotifications (userId : String) (dto : ListNotificationsQueryDto)
  | countUnread (userId : String)
  | markNotificationRead (userId : String) (notificationId : ℤ)
  | markAllNotificationsRead (userId : String)

/-- The employee a handler is called with; public reads and logging in take none. -/
def Request.employee? {cfg : Config} : Request cfg → Option String
  | .createItem u _ | .updateItemStatus _ u _ | .createOrder u _ | .updateOrderStatus _ u _
  | .attachPaymentSlip _ u _ | .findMyOrders u _ | .findOrder _ u | .profile u | .updateProfile u _
  | .updateFcmToken u _ | .clearFcmToken u | .history u _ | .conversations u _ _ | .markChatRead u _
  | .findMyNotifications u _ | .countUnread u | .markNotificationRead u _
  | .markAllNotificationsRead u => some u
  | .connect client | .disconnect client | .joinChat client _ | .leaveChat client _
  | .sendMessage client _ => some client.userId
  | .findItems _ | .findItem _ | .publicProfile _ | .login _ => none

variable (cfg : Config)

/-- The handler of a request. -/
def program : Request cfg → Program
  | .createItem sellerId dto => ItemsService.create cfg sellerId dto
  | .updateItemStatus itemId userId status => ItemsService.updateStatus itemId userId status
  | .findItems dto => ItemsService.findAll cfg dto
  | .findItem itemId => ItemsService.findOne itemId
  | .createOrder buyerId dto => OrdersService.create cfg buyerId dto
  | .updateOrderStatus orderId userId dto => OrdersService.updateStatus cfg orderId userId dto
  | .attachPaymentSlip orderId userId dto => OrdersService.attachPaymentSlip cfg orderId userId dto
  | .findMyOrders userId dto => OrdersService.findMine userId dto
  | .findOrder orderId userId =>
    OrdersService.findOneForUser orderId userId fun o => answer (.order o)
  | .profile userId => UsersService.getProfile userId fun u => answer (.profile u)
  | .publicProfile userId => UsersService.getPublicProfile userId
  | .updateProfile userId dto => UsersService.updateProfile cfg userId dto
  | .updateFcmToken userId dto => UsersService.updateFcmToken userId dto
  | .clearFcmToken userId => UsersService.clearFcmToken userId
  | .login dto => AuthService.login cfg dto
  | .history userId dto => ChatsService.getHistory cfg userId dto
  | .conversations userId dto ties => ChatsService.getConversations cfg userId dto ties
  | .markChatRead userId dto => ChatsGateway.markRead cfg userId dto
  | .connect client => ChatsGateway.handleConnection client
  | .disconnect client => ChatsGateway.handleDisconnect client
  | .joinChat client dto => ChatsGateway.joinChat cfg client dto
  | .leaveChat client dto => ChatsGateway.leaveChat cfg client dto
  | .sendMessage client dto => ChatsGateway.sendMessage cfg client dto
  | .findMyNotifications userId dto => NotificationsService.findMine userId dto
  | .countUnread userId => NotificationsService.countUnread userId fun n => answer (.count n)
  | .markNotificationRead userId id => NotificationsService.markRead userId id
  | .markAllNotificationsRead userId => NotificationsService.markAllRead userId

abbrev AppState := State market (Request cfg)
abbrev AppAction := Action market (Request cfg)

/-- The migrated database with the given employees, before the first request. -/
def start (users : Table String User) : AppState cfg := State.init (.migrated users) fun _ => 1

/-- The state after the actions, from the migrated database with the given employees. -/
def runs (users : Table String User) (acts : List (AppAction cfg)) : Option (AppState cfg) :=
  (start cfg users).run (program cfg) acts

/-- A request that runs alone on `d` is answered with `r`, at any time and whatever its calls
    answer. -/
def Responds (d : Database) (q : Request cfg) (r : Except Thrown Response) : Prop :=
  ∀ answers now seq, ((program cfg q).eval answers now d seq).2.2 = r

end Marketplace
