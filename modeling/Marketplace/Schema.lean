/-
  The constraints of the tables `orders` and `messages`, as the migrations
  create them.
-/
import Marketplace.System

namespace Marketplace

open ReadCommitted

def PgErrorCode.STRING_DATA_RIGHT_TRUNCATION : String := "22001"
def PgErrorCode.CHECK_VIOLATION : String := "23514"
def PgErrorCode.FOREIGN_KEY_VIOLATION : String := "23503"

/-- What the database reports of a new order: `integer`, `numeric(12,2)` and `varchar(50)`, the CHECK
    constraints, the primary key and the partial unique index `UQ_orders_item_pending`, the foreign
    keys.  The CHECK of the status holds by its type. -/
def ordersViolation (d : Database) (orderId : ℤ) (r : Order) : Option QueryFailedError :=
  if r.quantity < -2 ^ 31 ∨ 2 ^ 31 ≤ r.quantity ∨ r.totalAmount ≤ -10 ^ 12 ∨
      10 ^ 12 ≤ r.totalAmount then
    some ⟨some PgErrorCode.NUMERIC_VALUE_OUT_OF_RANGE⟩
  else if 50 < r.buyerId.length ∨ 50 < r.sellerId.length then
    some ⟨some PgErrorCode.STRING_DATA_RIGHT_TRUNCATION⟩
  else if r.quantity ≤ 0 ∨ r.totalAmount < 0 ∨ r.buyerId = r.sellerId then
    some ⟨some PgErrorCode.CHECK_VIOLATION⟩
  else if d.orders.get orderId ≠ none ∨ (r.status = .pending ∧
      (d.orders.rows.any fun x => x.2.itemId = r.itemId && x.2.status = .pending) = true) then
    some ⟨some PgErrorCode.UNIQUE_VIOLATION⟩
  else if d.items.get r.itemId = none ∨ d.users.get r.buyerId = none ∨
      d.users.get r.sellerId = none then
    some ⟨some PgErrorCode.FOREIGN_KEY_VIOLATION⟩
  else none

/-- What the database reports of a new row, as far as orders are concerned. -/
def violation (d : Database) : Write market → Option QueryFailedError
  | ⟨.order orderId, r⟩ => ordersViolation d orderId r
  | _ => none

/-- The foreign keys of the table `messages`. -/
structure MessagesLinked (d : Database) : Prop where
  item : ∀ {n m}, d.messages.get n = some m → (d.items.get m.itemId).isSome = true
  sender : ∀ {n m}, d.messages.get n = some m → (d.users.get m.senderId).isSome = true
  receiver : ∀ {n m}, d.messages.get n = some m → (d.users.get m.receiverId).isSome = true

instance (d : Database) : Decidable (MessagesLinked d) :=
  decidable_of_iff (∀ x ∈ d.messages.rows, (d.items.get x.2.itemId).isSome = true ∧
      (d.users.get x.2.senderId).isSome = true ∧ (d.users.get x.2.receiverId).isSome = true)
    ⟨fun h => ⟨fun hm => (h _ (Table.mem_rows.2 hm)).1, fun hm => (h _ (Table.mem_rows.2 hm)).2.1,
      fun hm => (h _ (Table.mem_rows.2 hm)).2.2⟩,
    fun h _ hx => ⟨h.item (Table.mem_rows.1 hx), h.sender (Table.mem_rows.1 hx),
      h.receiver (Table.mem_rows.1 hx)⟩⟩

end Marketplace
