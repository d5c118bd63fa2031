/-
  The entities of the marketplace and its database.

  A row is stored under its key and does not repeat it.  Ids of the tables
  with a `BIGSERIAL` key are integers (the source carries them as decimal
  strings), amounts of money are in cents, timestamps are numbers.
-/
import Marketplace.Lib.Table

namespace Marketplace

inductive ItemType where
  | secondHand | food | free | household
  deriving DecidableEq

inductive ItemStatus where
  | available | reserved | sold
  deriving DecidableEq

inductive OrderStatus where
  | pending | completed | cancelled
  deriving DecidableEq

inductive NotificationType where
  | orderPlaced | orderCompleted | orderCancelled | paymentSlipAttached
  deriving DecidableEq

instance : ToString ItemType where
  toString
    | .secondHand => "SECOND_HAND"
    | .food => "FOOD"
    | .free => "FREE"
    | .household => "HOUSEHOLD"

instance : ToString ItemStatus where
  toString
    | .available => "AVAILABLE"
    | .reserved => "RESERVED"
    | .sold => "SOLD"

instance : ToString OrderStatus where
  toString
    | .pending => "PENDING"
    | .completed => "COMPLETED"
    | .cancelled => "CANCELLED"

structure User where
  fullName : String
  department : Option String
  phoneNumber : Option String
  qrPaymentUrl : Option String
  fcmToken : Option String
  createdAt : ℕ
  deriving DecidableEq

structure Item where
  sellerId : String
  title : String
  description : Option String
  price : ℤ
  /-- Units in stock. Decremented when an order is COMPLETED; the item becomes SOLD at 0. -/
  quantity : ℤ
  itemType : ItemType
  status : ItemStatus
  pickupLocation : String
  images : List String
  createdAt : ℕ
  deriving DecidableEq

structure Order where
  itemId : ℤ
  buyerId : String
  sellerId : String
  quantity : ℤ
  totalAmount : ℤ
  status : OrderStatus
  paymentSlipUrl : Option String
  createdAt : ℕ
  deriving DecidableEq

structure Message where
  itemId : ℤ
  senderId : String
  receiverId : String
  messageText : String
  isRead : Bool
  createdAt : ℕ
  deriving DecidableEq

structure Notification where
  /-- Recipient. -/
  userId : String
  type : NotificationType
  title : String
  body : Option String
  itemId : Option ℤ
  orderId : Option ℤ
  isRead : Bool
  createdAt : ℕ
  deriving DecidableEq

/-! ## The database -/

/-- The primary keys. -/
inductive Key where
  | user (userId : String)
  | item (itemId : ℤ)
  | order (orderId : ℤ)
  | message (messageId : ℤ)
  | notification (notificationId : ℤ)
  deriving DecidableEq

/-- The entity under a key. -/
@[reducible] def Row : Key → Type
  | .user _ => User
  | .item _ => Item
  | .order _ => Order
  | .message _ => Message
  | .notification _ => Notification

structure Database where
  users : Table String User
  items : Table ℤ Item
  orders : Table ℤ Order
  messages : Table ℤ Message
  notifications : Table ℤ Notification

namespace Database

def get (d : Database) : (k : Key) → Option (Row k)
  | .user u => d.users.get u
  | .item i => d.items.get i
  | .order o => d.orders.get o
  | .message m => d.messages.get m
  | .notification n => d.notifications.get n

def put (d : Database) : (k : Key) → Row k → Database
  | .user u, r => { d with users := d.users.put u r }
  | .item i, r => { d with items := d.items.put i r }
  | .order o, r => { d with orders := d.orders.put o r }
  | .message m, r => { d with messages := d.messages.put m r }
  | .notification n, r => { d with notifications := d.notifications.put n r }

/-- The migrated database with the given employees and nothing else. -/
def migrated (users : Table String User) : Database :=
  ⟨users, .empty, .empty, .empty, .empty⟩

@[simp] theorem get_put (d : Database) (k : Key) (r : Row k) : (d.put k r).get k = some r := by
  cases k <;> exact Table.get_put ..

theorem get_put_ne (d : Database) (k : Key) (r : Row k) (k' : Key) (h : k' ≠ k) :
    (d.put k r).get k' = d.get k' := by
  cases k <;> cases k' <;> first | rfl | exact Table.get_put_ne _ _ fun e => h (e ▸ rfl)

end Database

/-- The tables with a `BIGSERIAL` key. -/
inductive Serial where
  | items | orders | messages | notifications
  deriving DecidableEq

/-- The key a number drawn from a sequence becomes. -/
def Serial.key : Serial → ℕ → Key
  | items, n => .item n
  | orders, n => .order n
  | messages, n => .message n
  | notifications, n => .notification n

theorem Serial.key_inj {t t' : Serial} {n n' : ℕ} (h : t.key n = t'.key n') : t = t' ∧ n = n' := by
  cases t <;> cases t' <;> simp only [Serial.key, reduceCtorEq, Key.item.injEq, Key.order.injEq,
    Key.message.injEq, Key.notification.injEq] at h <;> exact ⟨rfl, Int.ofNat.inj h⟩

end Marketplace
