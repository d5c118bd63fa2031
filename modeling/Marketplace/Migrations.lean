/-
  The migrations of the database, from nothing to the schema the application
  works on.

  Each version of the schema has its own type of databases and its own
  constraints.  What a later version keeps of an earlier one is said by dropping
  the columns that are new.
-/
import Marketplace.Schema
import Marketplace.Lib.Migrations

namespace Marketplace

/-- `ALTER TABLE ... ADD CONSTRAINT ... CHECK`: the rows that are there have to satisfy it. -/
def addCheck {κ ρ : Type} (t : Table κ ρ) (p : ρ → Bool) : Except QueryFailedError Unit :=
  if (t.rows.all fun x => p x.2) = true then .ok ()
  else .error ⟨some PgErrorCode.CHECK_VIOLATION⟩

/-- `CREATE UNIQUE INDEX`: no two rows have the same value; NULL values differ from each other. -/
def createUniqueIndex {κ ρ α : Type} [DecidableEq α] (t : Table κ ρ) (column : ρ → Option α) :
    Except QueryFailedError Unit :=
  if (t.rows.filterMap fun x => column x.2).Nodup then .ok ()
  else .error ⟨some PgErrorCode.UNIQUE_VIOLATION⟩

/-! ## The first schema -/

namespace InitialSchema

structure User where
  fullName : String
  department : Option String
  phoneNumber : Option String
  qrPaymentUrl : Option String
  createdAt : ℕ
  deriving DecidableEq

structure Item where
  sellerId : String
  title : String
  description : Option String
  price : ℤ
  itemType : ItemType
  status : ItemStatus
  pickupLocation : String
  images : List String
  createdAt : ℕ
  deriving DecidableEq

structure Database where
  users : Table String User
  items : Table ℤ Item
  orders : Table ℤ Order
  messages : Table ℤ Message

/-- CREATE TABLE "users", "items", "orders" and "messages". -/
def up (_ : Unit) : Except QueryFailedError Database := .ok ⟨.empty, .empty, .empty, .empty⟩

/-- DROP TABLE of all of them. -/
def down (_ : Database) : Except QueryFailedError Unit := .ok ()

structure UserColumns (userId : String) (u : User) : Prop where
  user_id : userId.length ≤ 50
  full_name : u.fullName.length ≤ 150
  department : ∀ s ∈ u.department, s.length ≤ 100
  phone_number : ∀ s ∈ u.phoneNumber, s.length ≤ 25

section
variable (d : Database)

/-- A row of `items`; amounts are in cents. -/
structure ItemColumns (i : Item) : Prop where
  FK_items_seller : (d.users.get i.sellerId).isSome
  title : i.title.length ≤ 200
  CHK_items_price : 0 ≤ i.price
  price : i.price < 10 ^ 12
  pickup_location : i.pickupLocation.length ≤ 150

structure OrderColumns (r : Order) : Prop where
  FK_orders_item : (d.items.get r.itemId).isSome
  FK_orders_buyer : (d.users.get r.buyerId).isSome
  FK_orders_seller : (d.users.get r.sellerId).isSome
  CHK_orders_quantity : 0 < r.quantity
  quantity : r.quantity < 2 ^ 31
  CHK_orders_total_amount : 0 ≤ r.totalAmount
  CHK_orders_buyer_not_seller : r.buyerId ≠ r.sellerId

structure MessageColumns (m : Message) : Prop where
  FK_messages_item : (d.items.get m.itemId).isSome
  FK_messages_sender : (d.users.get m.senderId).isSome
  FK_messages_receiver : (d.users.get m.receiverId).isSome

/-- The constraints of the tables, but for the types of items that are admitted. -/
structure Constraints : Prop where
  users : ∀ u r, d.users.get u = some r → UserColumns u r
  items : ∀ i r, d.items.get i = some r → ItemColumns d r
  orders : ∀ o r, d.orders.get o = some r → OrderColumns d r
  /-- `numeric(12,2)` -/
  total_amount : ∀ o r, d.orders.get o = some r → r.totalAmount < 10 ^ 12
  UQ_orders_item_pending : ∀ o o' r r', d.orders.get o = some r → d.orders.get o' = some r' →
    r.status = .pending → r'.status = .pending → r.itemId = r'.itemId → o = o'
  messages : ∀ n m, d.messages.get n = some m → MessageColumns d m

end

/-- `"item_type" IN ('SECOND_HAND', 'FOOD', 'FREE')` -/
def admitsType (t : ItemType) : Bool := t ∈ [ItemType.secondHand, .food, .free]

end InitialSchema

/-! ## Units in stock -/

namespace AddItemQuantity

structure Database where
  users : Table String InitialSchema.User
  items : Table ℤ Item
  orders : Table ℤ Order
  messages : Table ℤ Message

/-- `ADD "quantity" integer NOT NULL DEFAULT 1` -/
def addQuantity (i : InitialSchema.Item) : Item :=
  { sellerId := i.sellerId, title := i.title, description := i.description, price := i.price,
    quantity := 1, itemType := i.itemType, status := i.status, pickupLocation := i.pickupLocation,
    images := i.images, createdAt := i.createdAt }

/-- `DROP COLUMN "quantity"` -/
def dropQuantity (i : Item) : InitialSchema.Item :=
  { sellerId := i.sellerId, title := i.title, description := i.description, price := i.price,
    itemType := i.itemType, status := i.status, pickupLocation := i.pickupLocation,
    images := i.images, createdAt := i.createdAt }

/-- `UPDATE "items" SET "quantity" = 0 WHERE "status" = 'SOLD'` -/
def soldOut (i : Item) : Item := if i.status = .sold then { i with quantity := 0 } else i

def up (d : InitialSchema.Database) : Except QueryFailedError Database := do
  let items := d.items.alter addQuantity
  let items := items.alter soldOut
  addCheck items fun i => 0 ≤ i.quantity
  return ⟨d.users, items, d.orders, d.messages⟩

/-- The tables without the column that is new. -/
def Database.initial (d : Database) : InitialSchema.Database :=
  ⟨d.users, d.items.alter dropQuantity, d.orders, d.messages⟩

def down (d : Database) : Except QueryFailedError InitialSchema.Database := .ok d.initial

structure Constraints (d : Database) : Prop where
  initial : InitialSchema.Constraints d.initial
  CHK_items_quantity : ∀ i r, d.items.get i = some r → 0 ≤ r.quantity
  quantity : ∀ i r, d.items.get i = some r → r.quantity < 2 ^ 31

end AddItemQuantity

/-! ## HOUSEHOLD items -/

namespace AddHouseholdItemType

abbrev Database := AddItemQuantity.Database

/-- `"item_type" IN ('SECOND_HAND', 'FOOD', 'FREE', 'HOUSEHOLD')` -/
def admitsType (t : ItemType) : Bool := t ∈ [ItemType.secondHand, .food, .free, .household]

def up (d : AddItemQuantity.Database) : Except QueryFailedError Database := do
  addCheck d.items fun i => admitsType i.itemType
  return d

def down (d : Database) : Except QueryFailedError AddItemQuantity.Database := do
  addCheck d.items fun i => InitialSchema.admitsType i.itemType
  return d

end AddHouseholdItemType

/-! ## Notifications -/

namespace AddNotifications

structure Database extends AddHouseholdItemType.Database where
  notifications : Table ℤ Notification

/-- CREATE TABLE "notifications". -/
def up (d : AddHouseholdItemType.Database) : Except QueryFailedError Database := .ok ⟨d, .empty⟩

/-- DROP TABLE "notifications". -/
def down (d : Database) : Except QueryFailedError AddHouseholdItemType.Database := .ok d.toDatabase

structure NotificationColumns (d : Database) (n : Notification) : Prop where
  FK_notifications_user : (d.users.get n.userId).isSome
  FK_notifications_item : ∀ i ∈ n.itemId, (d.items.get i).isSome
  FK_notifications_order : ∀ o ∈ n.orderId, (d.orders.get o).isSome
  title : n.title.length ≤ 200

structure Constraints (d : Database) : Prop where
  before : AddItemQuantity.Constraints d.toDatabase
  notifications : ∀ n r, d.notifications.get n = some r → NotificationColumns d r

end AddNotifications

/-! ## Tokens of devices -/

namespace AddUserFcmToken

/-- `ADD "fcm_token" text` -/
def addFcmToken (u : InitialSchema.User) : User :=
  { fullName := u.fullName, department := u.department, phoneNumber := u.phoneNumber,
    qrPaymentUrl := u.qrPaymentUrl, fcmToken := none, createdAt := u.createdAt }

/-- `DROP COLUMN "fcm_token"` -/
def dropFcmToken (u : User) : InitialSchema.User :=
  { fullName := u.fullName, department := u.department, phoneNumber := u.phoneNumber,
    qrPaymentUrl := u.qrPaymentUrl, createdAt := u.createdAt }

def up (d : AddNotifications.Database) : Except QueryFailedError Database := do
  let users := d.users.alter addFcmToken
  createUniqueIndex users User.fcmToken
  return ⟨users, d.items, d.orders, d.messages, d.notifications⟩

/-- The tables without the column that is new. -/
def before (d : Database) : AddNotifications.Database :=
  ⟨⟨d.users.alter dropFcmToken, d.items, d.orders, d.messages⟩, d.notifications⟩

def down (d : Database) : Except QueryFailedError AddNotifications.Database := .ok (before d)

end AddUserFcmToken

/-- The constraints of the schema the application works on. -/
structure Constraints (d : Database) : Prop where
  before : AddNotifications.Constraints (AddUserFcmToken.before d)
  UQ_users_fcm_token : ∀ u v r r' t, d.users.get u = some r → d.users.get v = some r' →
    r.fcmToken = some t → r'.fcmToken = some t → u = v

/-! ## Upgrading -/

/-- The last migration that has been run. -/
inductive Version where
  | empty | initialSchema | addItemQuantity | addHouseholdItemType | addNotifications
  | addUserFcmToken
  deriving DecidableEq

/-- The databases of a version. -/
@[reducible] def Version.Tables : Version → Type
  | .empty => Unit
  | .initialSchema => InitialSchema.Database
  | .addItemQuantity => AddItemQuantity.Database
  | .addHouseholdItemType => AddHouseholdItemType.Database
  | .addNotifications => AddNotifications.Database
  | .addUserFcmToken => Database

/-- The constraints of a version. -/
def Version.Constraints : (v : Version) → v.Tables → Prop
  | .empty, _ => True
  | .initialSchema, d => InitialSchema.Constraints d ∧
      ∀ i r, d.items.get i = some r → InitialSchema.admitsType r.itemType
  | .addItemQuantity, d => AddItemQuantity.Constraints d ∧
      ∀ i r, d.items.get i = some r → InitialSchema.admitsType r.itemType
  | .addHouseholdItemType, d => AddItemQuantity.Constraints d
  | .addNotifications, d => AddNotifications.Constraints d
  | .addUserFcmToken, d => Marketplace.Constraints d

/-- The migrations that are pending at a version. -/
def pending : (v : Version) → Migrations QueryFailedError v.Tables Database
  | .empty => .cons ⟨InitialSchema.up, InitialSchema.down⟩ afterInitialSchema
  | .initialSchema => afterInitialSchema
  | .addItemQuantity => afterItemQuantity
  | .addHouseholdItemType => afterHouseholdItemType
  | .addNotifications => afterNotifications
  | .addUserFcmToken => .nil
where
  afterNotifications := .cons ⟨AddUserFcmToken.up, AddUserFcmToken.down⟩ .nil
  afterHouseholdItemType := .cons ⟨AddNotifications.up, AddNotifications.down⟩ afterNotifications
  afterItemQuantity :=
    .cons ⟨AddHouseholdItemType.up, AddHouseholdItemType.down⟩ afterHouseholdItemType
  afterInitialSchema := .cons ⟨AddItemQuantity.up, AddItemQuantity.down⟩ afterItemQuantity

/-- `runMigrations({ transaction: 'all' })` on a database at some version. -/
def runMigrations (v : Version) : v.Tables → Except QueryFailedError Database := (pending v).up

/-- `migration:revert`, until the database is at the version. -/
def revertMigrations (v : Version) : Database → Except QueryFailedError v.Tables := (pending v).down

end Marketplace
