/-
  Orders: placing, completing and cancelling, payment slips, and the reads of
  their parties.
-/
import Marketplace.Items
import Marketplace.Notifications

namespace Marketplace

variable (cfg : Config)

/-- Multiplies an amount in cents by an integer quantity. -/
def multiplyMoney (amount quantity : ℤ) : ℤ := amount * quantity

namespace OrdersService

/-- An order with the columns of its item, buyer and seller that are selected with it. -/
def detail (d : Database) (orderId : ℤ) (o : Order) : OrderDetail where
  orderId := orderId
  order := o
  item := (d.items.get o.itemId).map fun i =>
    ⟨o.itemId, i.title, i.itemType, i.status, i.quantity, i.images, i.pickupLocation⟩
  buyer := (d.users.get o.buyerId).map fun u =>
    ⟨o.buyerId, u.fullName, u.department, u.phoneNumber, none⟩
  seller := sellerParty d o.sellerId

/-- Visible to the buyer and seller only; others get 404 so order IDs can't be probed. -/
def findOneForUser (orderId : ℤ) (userId : String) (k : OrderDetail → Program) : Program :=
  query (fun d => (d.orders.get orderId).map (detail d orderId)) fun
    | none => fail (.app (.notFound s!"Order {orderId} not found"))
    | some o =>
      if o.order.buyerId ≠ userId ∧ o.order.sellerId ≠ userId then
        fail (.app (.notFound s!"Order {orderId} not found"))
      else k o

/-! ## Placing an order -/

/-- The row of a new order. -/
def newOrder (buyerId : String) (itemId : ℤ) (item : Item) (quantity : ℤ) (now : ℕ) : Order :=
  { itemId, buyerId, sellerId := item.sellerId, quantity,
    totalAmount := multiplyMoney item.price quantity, status := .pending, paymentSlipUrl := none,
    createdAt := now }

def createTx (buyerId : String) (dto : CreateOrderDto) : Transaction ℤ :=
  .lock (.item dto.itemId) fun
    | none => .throw (.notFound s!"Item {dto.itemId} not found")
    | some item =>
      if item.sellerId = buyerId then .throw (.badRequest "You cannot order your own item")
      else if item.status ≠ .available then
        .throw (.conflict s!"Item is no longer available (status: {item.status})")
      else
        let quantity := dto.quantity.getD 1
        if quantity > item.quantity then
          .throw (.badRequest s!"Only {item.quantity} unit(s) in stock")
        else
          .insert .orders (fun now _ => newOrder buyerId dto.itemId item quantity now) fun n _ =>
            .update (.item dto.itemId) (fun _ => true)
              (fun (item : Item) => { item with status := .reserved }) fun _ => .commit (n : ℤ)

/-- Places an order inside a transaction:
    1. SELECT ... FOR UPDATE on the item (serializes concurrent buyers)
    2. verify it is AVAILABLE and not the buyer's own listing
    3. insert the PENDING order and flip the item to RESERVED -/
def create (buyerId : String) (dto : CreateOrderDto) : Program :=
  .tx (createTx buyerId dto) fun
    | .error (.db e) =>
      if isPgError e PgErrorCode.UNIQUE_VIOLATION then
        fail (.app (.conflict "Item already has a pending order"))
      else fail (.db e)
    | .error e => fail e
    | .ok orderId => findOneForUser orderId buyerId fun o =>
        NotificationsService.notifyOrderPlaced cfg o (answer (.order o))

/-! ## Resolving an order -/

/-- The statements after the checks: the order gets its status, the item its stock and status. -/
def resolveTx (orderId itemId : ℤ) (status : OrderStatus) (order : Order) (item : Item) :
    Transaction Unit :=
  if status = .completed then
    .update (.order orderId) (fun _ => true) (fun (o : Order) => { o with status := .completed })
      fun _ =>
        let remaining := max (item.quantity - order.quantity) 0
        .update (.item itemId) (fun _ => true)
          (fun (i : Item) =>
            { i with quantity := remaining, status := if remaining > 0 then .available else .sold })
          fun _ => .commit ()
  else
    .update (.order orderId) (fun _ => true) (fun (o : Order) => { o with status := .cancelled })
      fun _ =>
        if item.status = .reserved then
          .update (.item itemId) (fun _ => true) (fun (i : Item) => { i with status := .available })
            fun _ => .commit ()
        else .commit ()

def updateStatusTx (orderId : ℤ) (userId : String) (status : OrderStatus) : Transaction Unit :=
  .select (fun d => (d.orders.get orderId).map Order.itemId) fun
    | none => .throw (.notFound s!"Order {orderId} not found")
    | some itemId =>
      .lock (.item itemId) fun item? => .lock (.order orderId) fun order? =>
        match order?, item? with
        | some order, some item =>
          if order.sellerId ≠ userId ∧ order.buyerId ≠ userId then
            .throw (.notFound s!"Order {orderId} not found")
          else if order.status ≠ .pending then
            .throw (.conflict s!"Order is already {order.status}")
          else if status = .completed ∧ order.sellerId ≠ userId then
            .throw (.forbidden "Only the seller can mark an order as completed")
          else resolveTx orderId itemId status order item
        | _, _ => .throw (.notFound s!"Order {orderId} not found")

/-- COMPLETED: seller only → stock is reduced; item becomes SOLD at 0, otherwise AVAILABLE again.
    CANCELLED: buyer or seller → item goes back to AVAILABLE.
    Locks are taken item-first, the same order as `create`, to avoid deadlocks. -/
def updateStatus (orderId : ℤ) (userId : String) (dto : UpdateOrderStatusDto) : Program :=
  .tx (updateStatusTx orderId userId dto.status) fun
    | .error e => fail e
    | .ok () => findOneForUser orderId userId fun o =>
        NotificationsService.notifyOrderStatusChanged cfg o userId (answer (.order o))

/-! ## Payment slips -/

/-- Buyer attaches proof of payment (image uploaded to storage beforehand). -/
def attachPaymentSlip (orderId : ℤ) (userId : String) (dto : AttachPaymentSlipDto cfg) : Program :=
  match StorageService.assertManagedUrls cfg [dto.paymentSlipUrl] with
  | .error e => fail (.app e)
  | .ok () =>
    query (fun d => d.orders.get orderId) fun
      | none => fail (.app (.notFound s!"Order {orderId} not found"))
      | some order =>
        if order.buyerId ≠ userId ∧ order.sellerId ≠ userId then
          fail (.app (.notFound s!"Order {orderId} not found"))
        else if order.buyerId ≠ userId then
          fail (.app (.forbidden "Only the buyer can attach a payment slip"))
        else if order.status ≠ .pending then
          fail (.app (.conflict s!"Cannot attach a payment slip to a {order.status} order"))
        else
          .tx (.update (.order orderId) (fun _ => true)
            (fun (o : Order) => { o with paymentSlipUrl := some dto.paymentSlipUrl }) .commit) fun
            | .error e => fail e
            | .ok _ => findOneForUser orderId userId fun o =>
                NotificationsService.notifyPaymentSlipAttached cfg o (answer (.order o))

/-! ## Lists -/

/-- The WHERE clause of `findMine`. -/
def isMine (userId : String) (dto : ListOrdersQueryDto) (o : Order) : Bool :=
  (match dto.role with
    | some .buyer => o.buyerId = userId
    | some .seller => o.sellerId = userId
    | none => o.buyerId = userId || o.sellerId = userId) &&
  dto.status.all fun s => o.status = s

/-- The rows of `findMine`, newest first. -/
def mine (d : Database) (userId : String) (dto : ListOrdersQueryDto) : List OrderDetail :=
  (orderBy (newest Order.createdAt) (d.orders.rows.filter fun x => isMine userId dto x.2)).map
    fun x => detail d x.1 x.2

def findMine (userId : String) (dto : ListOrdersQueryDto) : Program :=
  dto.getManyAndCount (fun d => mine d userId dto) fun page => answer (.orders page)

end OrdersService

end Marketplace
