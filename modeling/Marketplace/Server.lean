/-
  The server: HTTP requests and sockets, authenticated before they reach the
  application.

  A request waits in its guard, and a socket in its handshake, while the employee
  of its token is resolved; then a handler runs as a session of the application.
  The clients' steps, the steps of the sessions and the answers of the database
  interleave in any way.  What packages turn away by themselves is no client here:
  logins above the rate limit, malformed bodies and ids.  Nor are the endpoints
  for uploads and for the health of the service.
-/
import Marketplace.App
import Marketplace.Auth
import Marketplace.Deployment
import Marketplace.Http

namespace Marketplace

/-! ## Endpoints -/

/-- The endpoints of the controllers but `StorageController` and `HealthController`, with their
    inputs. -/
inductive Route (cfg : Config) where
  | login (dto : LoginDto cfg)
  | me
  | getMe
  | updateMe (dto : UpdateProfileDto cfg)
  | updateFcmToken (dto : UpdateFcmTokenDto)
  | clearFcmToken
  | getOne (userId : String)
  | findItems (dto : ListItemsQueryDto)
  | createItem (dto : CreateItemDto cfg)
  | findItem (itemId : ℤ)
  | updateItemStatus (itemId : ℤ) (status : ItemStatus)
  | createOrder (dto : CreateOrderDto)
  | findMyOrders (dto : ListOrdersQueryDto)
  | findOrder (orderId : ℤ)
  | updateOrderStatus (orderId : ℤ) (dto : UpdateOrderStatusDto)
  | attachPaymentSlip (orderId : ℤ) (dto : AttachPaymentSlipDto cfg)
  | history (dto : ChatHistoryQueryDto)
  | conversations (dto : PaginationQueryDto) (ties : ℤ × String → ℕ)
  | markChatRead (dto : ConversationDto)
  | findMyNotifications (dto : ListNotificationsQueryDto)
  | unreadCount
  | markAllNotificationsRead
  | markNotificationRead (notificationId : ℤ)
  /-- any endpoint, with an input that fails validation -/
  | invalid (isPublic : Bool) (errors : List ValidationError)
  /-- any endpoint, with an input on which the validation packages throw, such as a price of `1e-7`,
      which has no digits after a point -/
  | uncheckable (isPublic : Bool)

variable {cfg : Config}

namespace Route

/-- `@Public()` -/
def isPublic : Route cfg → Bool
  | .login _ => true
  | .invalid isPublic _ | .uncheckable isPublic => isPublic
  | _ => false

/-- `@HttpCode`, or the default of the method. -/
def statusCode : Route cfg → ℕ
  | .createItem _ | .createOrder _ => 201
  | _ => 200

/-- What an endpoint does once its guards have let the request in. -/
inductive Handling (cfg : Config) where
  /-- the handler of a service -/
  | call (q : Request cfg)
  | reply (user : AuthUser)

/-- The controllers: `user` is what `JwtAuthGuard` has attached to the request. -/
def handle (user : Option AuthUser) (route : Route cfg) : Except Raised (Handling cfg) :=
  let asUser (q : String → Request cfg) : Except Raised (Handling cfg) :=
    match CurrentUser user with
    | .ok u => .ok (.call (q u.userId))
    | .error e => .error e.raised
  match route with
  | .login dto => .ok (.call (.login dto))
  | .me =>
    match CurrentUser user with
    | .ok u => .ok (.reply u)
    | .error e => .error e.raised
  | .getMe => asUser .profile
  | .updateMe dto => asUser fun u => .updateProfile u dto
  | .updateFcmToken dto => asUser fun u => .updateFcmToken u dto
  | .clearFcmToken => asUser .clearFcmToken
  | .getOne userId => .ok (.call (.publicProfile userId))
  | .findItems dto => .ok (.call (.findItems dto))
  | .createItem dto => asUser fun u => .createItem u dto
  | .findItem itemId => .ok (.call (.findItem itemId))
  | .updateItemStatus itemId status => asUser fun u => .updateItemStatus itemId u status
  | .createOrder dto => asUser fun u => .createOrder u dto
  | .findMyOrders dto => asUser fun u => .findMyOrders u dto
  | .findOrder orderId => asUser fun u => .findOrder orderId u
  | .updateOrderStatus orderId dto => asUser fun u => .updateOrderStatus orderId u dto
  | .attachPaymentSlip orderId dto => asUser fun u => .attachPaymentSlip orderId u dto
  | .history dto => asUser fun u => .history u dto
  | .conversations dto ties => asUser fun u => .conversations u dto ties
  | .markChatRead dto => asUser fun u => .markChatRead u dto
  | .findMyNotifications dto => asUser fun u => .findMyNotifications u dto
  | .unreadCount => asUser .countUnread
  | .markAllNotificationsRead => asUser .markAllNotificationsRead
  | .markNotificationRead notificationId => asUser fun u => .markNotificationRead u notificationId
  | .invalid _ errors => .error (validationFailed errors)
  | .uncheckable _ => .error .other

end Route

/-! ## Socket events -/

/-- The events of the gateway, with their inputs. -/
inductive SocketEvent where
  | joinChat (dto : ConversationDto)
  | leaveChat (dto : ConversationDto)
  | sendMessage (dto : SendMessageDto)
  | markRead (dto : ConversationDto)
  /-- any event, with an input that fails validation -/
  | invalid (errors : List ValidationError)
  /-- any event, with an input on which the validation packages throw, such as an id that is an object
      without a primitive value -/
  | uncheckable

/-- The handler of an event; `client.data.user` is the employee of the socket's handshake. -/
def SocketEvent.handle (client : ChatSocket) : SocketEvent → Except Raised (Request cfg)
  | joinChat dto => .ok (.joinChat client dto)
  | leaveChat dto => .ok (.leaveChat client dto)
  | sendMessage dto => .ok (.sendMessage client dto)
  | markRead dto => .ok (.markChatRead client.userId dto)
  | invalid errors => .error (wsValidationFailed errors)
  | uncheckable => .error .other

/-! ## Clients -/

/-- An HTTP request, or a socket. -/
inductive Client (cfg : Config) where
  | http (authorization : Option HeaderValue) (route : Route cfg)
  | socket (id : String) (handshake : Handshake)

/-- How far a client has come. -/
inductive Progress where
  /-- `verifyToken` waits for call `i` of `resolveTokenSubject` -/
  | checking (i : ℕ)
  /-- the guard, or the validation, has thrown -/
  | rejected (e : Raised)
  /-- the handler runs as a session of the application -/
  | session (j : ℕ)
  /-- `GET /auth/me` has been answered -/
  | identified (user : AuthUser)
  | connected (user : AuthUser)
  | closed

variable (cfg) in
/-- The application, the identity cache, the clients, and the events of the sockets, each with the
    session that handles it. -/
structure Server where
  app : AppState cfg
  identity : Identity.State
  clients : List (Client cfg × Progress)
  events : List (Except Raised ℕ)

namespace Server

variable (cfg) in
inductive Action where
  /-- a client comes, and its token is verified -/
  | arrive (c : Client cfg)
  /-- the database reads the employee a client's guard waits for -/
  | read (k : ℕ)
  /-- it fails to -/
  | fault (k : ℕ) (f : QueryFailedError)
  /-- the answer arrives -/
  | resume (k : ℕ)
  /-- a connected socket sends an event -/
  | event (k : ℕ) (e : SocketEvent)
  /-- it disconnects -/
  | disconnect (k : ℕ)
  /-- a step of the application that is no new request -/
  | app (a : AppAction cfg)
  /-- a millisecond passes -/
  | tick

variable (s : Server cfg)

/-- The server of a deployment, started. -/
def start (D : Deployment) : Server cfg := ⟨D.start cfg, .init D.db.users.get, [], []⟩

/-- A handler starts. -/
def submit (q : Request cfg) : Server cfg :=
  { s with app := { s.app with sessions := s.app.sessions ++ [(q, .idle (program cfg q))] } }

/-- Client `k` goes on. -/
def goto (k : ℕ) (c : Client cfg) (p : Progress) : Server cfg :=
  { s with clients := s.clients.set k (c, p) }

/-- A client that the guard has let in. -/
def enter (user : Option AuthUser) : Client cfg → Server cfg × Progress
  | .http _ route =>
    match route.handle user with
    | .ok (.call q) => (s.submit q, .session s.app.sessions.length)
    | .ok (.reply user) => (s, .identified user)
    | .error e => (s, .rejected e)
  | .socket id _ =>
    match CurrentUser user with
    | .ok user => (s.submit (.connect ⟨id, user.userId⟩), .connected user)
    | .error e => (s, .rejected e.raised)

/-- A client whose token has been resolved. -/
def proceed (c : Client cfg) (user : Option AuthUser) : Server cfg × Progress :=
  match AuthService.tokenUser user with
  | .ok user => s.enter (some user) c
  | .error e => (s, .rejected e.raised)

variable (verifyAsync : ℕ → String → Option JwtPayload)

/-- `verifyToken`, until it waits for the database. -/
def verifyToken (c : Client cfg) (token : String) : Server cfg × Progress :=
  match AuthService.tokenSubject verifyAsync s.identity.now token with
  | .error e => (s, .rejected e.raised)
  | .ok sub =>
    let i := s.identity.calls.length
    -- a call can be made at any time
    let identity := (s.identity.step (.call sub)).getD s.identity
    match identity.calls[i]? with
    | some (_, .returned user) => { s with identity }.proceed c user
    | _ => ({ s with identity }, .checking i)

/-- `JwtAuthGuard`, or the middleware of the namespace. -/
def guard : Client cfg → Server cfg × Progress
  | .http authorization route =>
    if route.isPublic then s.enter none (.http authorization route)
    else
      match extractBearerToken authorization with
      | none => (s, .rejected (Exception.unauthorized
          "Missing Authorization: Bearer <token> header").raised)
      | some token => s.verifyToken verifyAsync (.http authorization route) token
  | .socket id handshake =>
    match (extractSocketToken handshake).filter (· ≠ "") with
    | none => (s, .rejected .other)
    | some token => s.verifyToken verifyAsync (.socket id handshake) token

/-- One step; `none` if the action is not possible. -/
def step : Action cfg → Option (Server cfg)
  | .arrive c =>
    let (s', p) := s.guard verifyAsync c
    some { s' with clients := s'.clients ++ [(c, p)] }
  | .read k =>
    match s.clients[k]? with
    | some (_, .checking i) =>
      match s.identity.calls[i]? with
      | some (u, .reading) =>
        (s.identity.run [.account u (s.app.db.users.get u), .read i]).map fun identity =>
          { s with identity }
      | _ => none
    | _ => none
  | .fault k f =>
    match s.clients[k]? with
    | some (c, .checking i) =>
      (s.identity.step (.fail i)).map fun identity =>
        { s with identity }.goto k c (.rejected (.query f))
    | _ => none
  | .resume k =>
    match s.clients[k]? with
    | some (c, .checking i) =>
      (s.identity.step (.resume i)).bind fun identity =>
        match identity.calls[i]? with
        | some (_, .returned user) =>
          let (s', p) := { s with identity }.proceed c user
          some (s'.goto k c p)
        | _ => none
    | _ => none
  | .event k e =>
    match s.clients[k]? with
    | some (.socket id _, .connected user) =>
      match e.handle ⟨id, user.userId⟩ with
      | .ok q => some { s.submit q with events := s.events ++ [.ok s.app.sessions.length] }
      | .error e => some { s with events := s.events ++ [.error e] }
    | _ => none
  | .disconnect k =>
    match s.clients[k]? with
    | some (.socket id handshake, .connected user) =>
      some ((s.submit (.disconnect ⟨id, user.userId⟩)).goto k (.socket id handshake) .closed)
    | _ => none
  | .app (.submit _) => none
  | .app a => (s.app.step (program cfg) a).map fun app => { s with app }
  | .tick => (s.identity.step .tick).map fun identity => { s with identity }

/-- The state after the actions, if they are all possible. -/
def run (s : Server cfg) : List (Action cfg) → Option (Server cfg)
  | [] => some s
  | a :: as => (s.step verifyAsync a).bind fun s' => s'.run as

/-! ## Responses -/

/-- What a client is answered. -/
inductive Reply where
  | success (statusCode : ℕ) (data : Response)
  | user (user : AuthUser)
  | error (body : ErrorBody)
  /-- `connect_error`, with its message -/
  | refused (message : String)

/-- The reply of a session. -/
def sessionReply? (j : ℕ) : Option (Except Thrown Response) :=
  s.app.sessions[j]?.bind fun p => p.2.reply?

/-- The answer to client `k`, once there is one: the envelope of the interceptor, or what the filter
    makes of what has been thrown. -/
def reply? (k : ℕ) : Option Reply :=
  match s.clients[k]? with
  | some (.http _ route, .session j) => (s.sessionReply? j).map fun
    | .ok r => .success route.statusCode r
    | .error e => .error (AllExceptionsFilter.resolve (raised e))
  | some (.http _ _, .rejected e) => some (.error (AllExceptionsFilter.resolve e))
  | some (.http _ _, .identified user) => some (.user user)
  | some (.socket _ handshake, .rejected _) =>
    if (extractSocketToken handshake).filter (· ≠ "") = none then
      some (.refused "Unauthorized: missing token")
    else some (.refused "Unauthorized: invalid or expired token")
  | _ => none

/-- The acknowledgement of an event, once there is one. -/
def ack? (n : ℕ) : Option Reply :=
  match s.events[n]? with
  | some (.ok j) => (s.sessionReply? j).map fun
    | .ok r => .success 200 r
    | .error e => .error (WsExceptionsFilter.toPayload (raised e))
  | some (.error e) => some (.error (WsExceptionsFilter.toPayload e))
  | none => none

end Server

end Marketplace
