/-
  The validated inputs of the application.

  A value of a DTO type has passed its validators: each structure carries what
  they check as fields, so an inadmissible request cannot be built.  What the
  application takes from packages and from its environment is in `Config`.
-/
import Marketplace.Lib.Rounding
import Marketplace.Text
import Marketplace.System

namespace Marketplace

/-- The environment and the packages the application relies on. -/
structure Config where
  /-- `IsUrl({ protocols: ['https', 'http'], require_tld: false })` of class-validator -/
  isUrl : String → Bool
  /-- `String.prototype.toUpperCase` -/
  toUpperCase : String → String
  supabaseUrl : String
  bucket : String
  /-- `PeerTokenService.encode` -/
  encode : String → String
  /-- `PeerTokenService.decode` -/
  decode : String → Option String
  sha256 : String → String
  /-- how ILIKE folds the case of a character, in the locale of the database -/
  caseFold : Char → Char
  /-- `JwtService.signAsync` -/
  sign : AuthUser → String
  expiresIn : ℕ
  /-- Firebase credentials are configured -/
  messaging : Bool

/-- A property of a request body that may be absent or `null`. -/
inductive Optional (α : Type) where
  | undefined
  | null
  | value (a : α)
  deriving DecidableEq

def MAX_PAGE_SIZE : ℕ := 100

structure PaginationQueryDto where
  page : ℕ
  size : ℕ
  page_min : 1 ≤ page
  size_range : 1 ≤ size ∧ size ≤ MAX_PAGE_SIZE

namespace PaginationQueryDto

/-- The `Number` nearest to an integer; from `2 ^ 1024` on it is `Infinity`. -/
def toNumber (n : ℕ) : ℕ := Rounding.nearestNat 53 n

/-- `(page - 1) * size` -/
def skip (page size : ℕ) : ℕ := toNumber (toNumber (page - 1) * size)

/-- The number the digits of `(page - 1) * size` spell. -/
def rowsBefore (page size : ℕ) : ℕ := Rounding.shortest 53 (skip page size)

/-- Small numbers are exact. -/
theorem rowsBefore_eq {page size : ℕ} (hs : 0 < size) (h : (page - 1) * size < 2 ^ 53) :
    rowsBefore page size = (page - 1) * size := by
  have hpage : toNumber (page - 1) = page - 1 :=
    Rounding.nearestNat_eq ((Nat.le_mul_of_pos_right _ hs).trans_lt h)
  have hskip : skip page size = (page - 1) * size := by
    rw [skip, hpage]
    exact Rounding.nearestNat_eq h
  rw [rowsBefore, hskip]
  exact Rounding.shortest_eq (by decide) h

theorem le_toNumber {b n : ℕ} (hb : b < 2 ^ 53) (h : b ≤ n) : b ≤ toNumber n := by
  have hmono := Rounding.nearestNat_mono (p := 53) (by decide) h
  rwa [Rounding.nearestNat_eq hb] at hmono

/-- Small numbers are bounds for the rounded ones. -/
theorem le_rowsBefore {page size b : ℕ} (hs : 0 < size) (hb : b < 2 ^ 53)
    (h : b ≤ (page - 1) * size) : b ≤ rowsBefore page size := by
  have hle : b ≤ toNumber (page - 1) * size := by
    rcases Nat.lt_or_ge (page - 1) (2 ^ 53) with hlt | hge
    · rw [show toNumber (page - 1) = page - 1 from Rounding.nearestNat_eq hlt]
      exact h
    · exact (le_toNumber hb (by omega)).trans (Nat.le_mul_of_pos_right _ hs)
  have hmono := Rounding.shortest_mono (p := 53) (by decide) hle
  simp only [Rounding.nearestNat_eq hb, Rounding.shortest_eq (by decide) hb] at hmono
  exact hmono

-- its digits are not to be computed when programs are compared
attribute [irreducible] rowsBefore

/-- The OFFSET of the query. -/
def offset (q : PaginationQueryDto) : ℕ := rowsBefore q.page q.size

/-- The rows an OFFSET/LIMIT query returns. -/
def rows {α : Type} (q : PaginationQueryDto) (l : List α) : List α :=
  (l.drop q.offset).take q.size

/-- What the database reports of an OFFSET that is no `bigint`; from `bound` on the number is not
    written with digits alone, and is reported as `malformed`. -/
def offsetErrorBelow (bound : ℕ) (malformed : String) (q : PaginationQueryDto) :
    Option QueryFailedError :=
  if q.offset < 2 ^ 63 then none
  else if skip q.page q.size < bound then some ⟨some PgErrorCode.NUMERIC_VALUE_OUT_OF_RANGE⟩
  else some ⟨some malformed⟩

theorem offsetErrorBelow_eq_none {bound : ℕ} {malformed : String} {q : PaginationQueryDto} :
    q.offsetErrorBelow bound malformed = none ↔ q.offset < 2 ^ 63 := by
  unfold offsetErrorBelow
  split_ifs with h <;> simp only [h]

/-- The OFFSET stands in the text of the query, where `Infinity` is the name of a column. -/
def offsetError : PaginationQueryDto → Option QueryFailedError :=
  offsetErrorBelow (2 ^ 1024) undefinedColumn

theorem offsetError_eq_none {q : PaginationQueryDto} : q.offsetError = none ↔ q.offset < 2 ^ 63 :=
  offsetErrorBelow_eq_none

/-- `getManyAndCount`: a page of the selected rows, then their number. -/
def getManyAndCount {α : Type} (q : PaginationQueryDto) (select : Database → List α)
    (k : PaginatedResult α → Program) : Program :=
  unlessRefused q.offsetError <|
    query (fun d => q.rows (select d)) fun data =>
      query (fun d => (select d).length) fun total => k (paginate data total q.page q.size)

end PaginationQueryDto

/-! ## Items and orders -/

def MAX_IMAGES_PER_UPLOAD : ℕ := 10

structure CreateItemDto (cfg : Config) where
  title : String
  description : Option String
  price : Optional ℤ
  quantity : Option ℤ
  itemType : ItemType
  pickupLocation : String
  images : Option (List String)
  title_ok : trim title = title ∧ 3 ≤ validatedLength title ∧ validatedLength title ≤ 200
  description_ok : ∀ s ∈ description, trim s = s ∧ validatedLength s ≤ 5000
  price_ok : ∀ p, price = .value p → 0 ≤ p ∧ p ≤ 999999999999
  quantity_ok : ∀ n ∈ quantity, 1 ≤ n ∧ n ≤ 10000
  pickupLocation_ok : trim pickupLocation = pickupLocation ∧ 2 ≤ validatedLength pickupLocation ∧
    validatedLength pickupLocation ≤ 150
  images_ok : ∀ l ∈ images, l.length ≤ MAX_IMAGES_PER_UPLOAD ∧ ∀ url ∈ l, cfg.isUrl url = true

structure ListItemsQueryDto extends PaginationQueryDto where
  /-- Case-insensitive search on title and description. -/
  q : Option String
  itemType : Option ItemType
  /-- When omitted, AVAILABLE and RESERVED items are returned (SOLD items are hidden). -/
  status : Option ItemStatus
  sellerId : Option String
  q_ok : ∀ s ∈ q, trim s = s ∧ validatedLength s ≤ 100
  sellerId_ok : ∀ s ∈ sellerId, isId 50 s = true

structure CreateOrderDto where
  itemId : ℤ
  quantity : Option ℤ
  itemId_min : 1 ≤ itemId
  quantity_range : ∀ n ∈ quantity, 1 ≤ n ∧ n ≤ 100

structure UpdateOrderStatusDto where
  status : OrderStatus
  status_in : status = .completed ∨ status = .cancelled

structure AttachPaymentSlipDto (cfg : Config) where
  paymentSlipUrl : String
  url_ok : cfg.isUrl paymentSlipUrl = true

inductive OrderRole where
  | buyer | seller
  deriving DecidableEq

structure ListOrdersQueryDto extends PaginationQueryDto where
  role : Option OrderRole
  status : Option OrderStatus

/-! ## Employees -/

structure UpdateProfileDto (cfg : Config) where
  phoneNumber : Option String
  qrPaymentUrl : Optional String
  phone_ok : ∀ p ∈ phoneNumber, trim p = p ∧ isPhone p = true ∧ validatedLength p ≤ 25
  url_ok : ∀ url, qrPaymentUrl = .value url → cfg.isUrl url = true

structure UpdateFcmTokenDto where
  /-- Registration token from Firebase Messaging `getToken()` on the device. -/
  fcmToken : String
  fcmToken_ok : trim fcmToken = fcmToken ∧ 20 ≤ validatedLength fcmToken ∧
    validatedLength fcmToken ≤ 4096

structure LoginDto (cfg : Config) where
  /-- the employee id as it was sent -/
  request : String
  phoneNumber : String
  userId_ok : isLoginId (cfg.toUpperCase (trim request)) = true
  phone_ok : isPhone phoneNumber = true

/-- Case-insensitive: " emp00101 " → "EMP00101". -/
def LoginDto.userId {cfg : Config} (dto : LoginDto cfg) : String :=
  cfg.toUpperCase (trim dto.request)

/-! ## Chats and notifications -/

def MAX_MESSAGE_LENGTH : ℕ := 2000

/-- Identifies a conversation: one item + two participants (seller and one buyer). -/
structure ConversationDto where
  itemId : ℤ
  withUserId : Option String
  /-- Alias of withUserId. -/
  peerId : Option String
  itemId_min : 1 ≤ itemId
  withUserId_ok : ∀ s ∈ withUserId, isId 128 s = true
  peerId_ok : ∀ s ∈ peerId, isId 128 s = true

structure SendMessageDto where
  itemId : ℤ
  senderId : Option String
  receiverId : String
  messageText : String
  itemId_min : 1 ≤ itemId
  senderId_ok : ∀ s ∈ senderId, isId 50 s = true
  receiverId_ok : isId 128 receiverId = true
  messageText_ok : trim messageText = messageText ∧ 1 ≤ validatedLength messageText ∧
    validatedLength messageText ≤ MAX_MESSAGE_LENGTH

structure ChatHistoryQueryDto extends ConversationDto where
  /-- Cursor: return messages older than this messageId. -/
  beforeId : Option ℤ
  limit : ℕ
  beforeId_min : ∀ n ∈ beforeId, 1 ≤ n
  limit_range : 1 ≤ limit ∧ limit ≤ 100

structure ListNotificationsQueryDto extends PaginationQueryDto where
  /-- true = only unread notifications. -/
  unreadOnly : Option Bool

end Marketplace
