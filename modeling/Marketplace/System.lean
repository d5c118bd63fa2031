/-
  What the requests of the application exchange with their surroundings: the
  exceptions they throw, the responses they give, the calls they make.
-/
import Marketplace.Entities
import Marketplace.Lib.ReadCommitted
import Marketplace.Lib.Rooms

namespace Marketplace

/-- A statement the database failed, with its SQLSTATE. -/
structure QueryFailedError where
  code : Option String
  deriving DecidableEq

def PgErrorCode.UNIQUE_VIOLATION : String := "23505"
def PgErrorCode.NUMERIC_VALUE_OUT_OF_RANGE : String := "22003"
def PgErrorCode.INVALID_TEXT_REPRESENTATION : String := "22P02"

/-- of a name that the database does not know; no code of the application -/
def undefinedColumn : String := "42703"

def isPgError (error : QueryFailedError) (code : String) : Bool := error.code = some code

/-- The exceptions of the framework, with their messages. -/
inductive Exception where
  | badRequest (message : String)
  | unauthorized (message : String)
  | forbidden (message : String)
  | notFound (message : String)
  | conflict (message : String)
  | payloadTooLarge (message : String)
  | internalServerError (message : String)
  | ws (message : String)
  /-- of a statement that the database refuses for the values it is given, each time it is made -/
  | query (error : QueryFailedError)
  deriving DecidableEq

/-! ## Responses -/

structure PageMeta where
  page : ℕ
  size : ℕ
  total : ℕ
  totalPages : ℕ
  deriving DecidableEq

structure PaginatedResult (α : Type) where
  data : List α
  meta_ : PageMeta
  deriving DecidableEq

/-- `Math.ceil(total / size)` -/
def totalPages (total size : ℕ) : ℕ := (total + size - 1) / size

def paginate {α : Type} (data : List α) (total page size : ℕ) : PaginatedResult α :=
  ⟨data, ⟨page, size, total, totalPages total size⟩⟩

/-- The columns of an employee selected with an item or an order. -/
structure Party where
  userId : String
  fullName : String
  department : Option String
  phoneNumber : Option String
  /-- of sellers only -/
  qrPaymentUrl : Option String
  deriving DecidableEq

structure ItemSummary where
  itemId : ℤ
  title : String
  itemType : ItemType
  status : ItemStatus
  quantity : ℤ
  images : List String
  pickupLocation : String
  deriving DecidableEq

structure ItemDetail where
  itemId : ℤ
  item : Item
  seller : Option Party
  deriving DecidableEq

/-- The columns of a seller selected with a list of items. -/
structure SellerName where
  userId : String
  fullName : String
  department : Option String
  deriving DecidableEq

structure ItemListing where
  itemId : ℤ
  item : Item
  seller : Option SellerName
  deriving DecidableEq

structure OrderDetail where
  orderId : ℤ
  order : Order
  item : Option ItemSummary
  buyer : Option Party
  seller : Option Party
  deriving DecidableEq

/-- An employee as read back by the repository; `fcm_token` is not selected. -/
structure Profile where
  userId : String
  fullName : String
  department : Option String
  phoneNumber : Option String
  qrPaymentUrl : Option String
  createdAt : ℕ
  deriving DecidableEq

structure AuthUser where
  userId : String
  fullName : String
  department : Option String
  deriving DecidableEq

structure LoginResponse where
  accessToken : String
  tokenType : String
  expiresIn : ℕ
  user : AuthUser
  deriving DecidableEq

structure ResolvedConversation where
  itemId : ℤ
  sellerId : String
  peerId : String
  peerToken : String
  deriving DecidableEq

structure HistoryMeta where
  itemId : ℤ
  peerId : String
  peerToken : String
  hasMore : Bool
  nextBeforeId : Option ℤ
  deriving DecidableEq

structure ConversationSummary where
  itemId : ℤ
  itemTitle : String
  itemImage : Option String
  itemStatus : ItemStatus
  sellerId : String
  peerId : String
  peerName : String
  peerToken : String
  lastMessageId : ℤ
  lastMessageText : String
  lastSenderId : String
  lastMessageAt : ℕ
  unreadCount : ℕ
  deriving DecidableEq

/-- What a request answers. -/
inductive Response where
  | item (i : ItemDetail)
  | items (p : PaginatedResult ItemListing)
  | order (o : OrderDetail)
  | orders (p : PaginatedResult OrderDetail)
  | profile (u : Profile)
  | publicProfile (u : Party)
  | tokenUpdated
  | tokenCleared
  | login (r : LoginResponse)
  | message (messageId : ℤ) (m : Message)
  | history (page : List (ℤ × Message)) (meta_ : HistoryMeta)
  | conversations (p : PaginatedResult ConversationSummary)
  | joined (conversation : ResolvedConversation) (room : String)
  | left
  | notification (notificationId : ℤ) (n : Notification)
  | notifications (p : PaginatedResult (ℤ × Notification))
  | count (n : ℕ)
  | connected
  | disconnected
  deriving DecidableEq

/-! ## Calls -/

/-- A socket of the namespace `/chat`, with the employee its handshake authenticated. -/
structure ChatSocket where
  id : String
  userId : String
  deriving DecidableEq

/-- Server to client events. -/
inductive ServerEvent where
  | newMessage (messageId : ℤ) (m : Message)
  | messagesRead (itemId : ℤ) (readerId : String) (count : ℕ)
  | notification (notificationId : ℤ) (n : Notification)
  | notificationsRead (notificationId : Option ℤ) (unreadCount : ℕ)
  deriving DecidableEq

/-- A message handed to Firebase Cloud Messaging. -/
structure PushMessage where
  token : String
  notificationId : ℤ
  notification : Notification
  deriving DecidableEq

/-- What happens at socket.io, and what is sent to FCM. -/
inductive Call where
  | socket (op : RoomOp ChatSocket String ServerEvent)
  | fcm (m : PushMessage)
  deriving DecidableEq

inductive Answer where
  | done
  /-- the call was rejected, with the code of the error -/
  | rejected (code : Option String)
  deriving DecidableEq

/-- What a request throws: an exception of its own, or a failure of the database. -/
abbrev Thrown := ReadCommitted.Failure QueryFailedError Exception

instance decidableEqExcept {ε α : Type} [DecidableEq ε] [DecidableEq α] : DecidableEq (Except ε α)
  | .ok a, .ok b => decidable_of_iff (a = b) ⟨congrArg _, Except.ok.inj⟩
  | .error a, .error b => decidable_of_iff (a = b) ⟨congrArg _, Except.error.inj⟩
  | .ok _, .error _ => .isFalse nofun
  | .error _, .ok _ => .isFalse nofun

/-- The database of the marketplace and the requests on it. -/
abbrev market : ReadCommitted.Sig where
  Db := Database
  Key := Key
  Row := Row
  Tab := Serial
  get := Database.get
  put := Database.put
  serial := Serial.key
  decKey := inferInstance
  decTab := inferInstance
  get_put := Database.get_put
  get_put_ne := Database.get_put_ne
  serial_inj := Serial.key_inj
  Fault := QueryFailedError
  Error := Exception
  Call := Call
  Answer := Answer
  Reply := Except Thrown Response

abbrev Transaction := ReadCommitted.Tx market
abbrev Program := ReadCommitted.Req market

/-- The request is answered with an error. -/
def fail (e : Thrown) : Program := .done (.error e)

/-- The request is answered. -/
def answer (r : Response) : Program := .done (.ok r)

/-- The rest of a request, unless the database refuses the values of its next statement. -/
def unlessRefused (refusal : Option QueryFailedError) (k : Program) : Program :=
  match refusal with
  | some f => fail (.app (.query f))
  | none => k

@[simp] theorem unlessRefused_none (k : Program) : unlessRefused none k = k := rfl

@[simp] theorem unlessRefused_some (f : QueryFailedError) (k : Program) :
    unlessRefused (some f) k = fail (.app (.query f)) := rfl

/-- A SELECT outside of a transaction. -/
def query {β : Type} (q : Database → β) (k : β → Program) : Program :=
  .tx (.select q .commit) fun
    | .ok b => k b
    | .error e => fail e

/-- Something happens at socket.io. -/
def socket (op : RoomOp ChatSocket String ServerEvent) (k : Program) : Program :=
  .call (.socket op) fun _ => k

end Marketplace
