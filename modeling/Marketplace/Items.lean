/-
  Listings: creation and the seller's manual status changes.
-/
import Marketplace.Storage
import Marketplace.Lib.Like
import Marketplace.Lib.OrderBy

namespace Marketplace

variable (cfg : Config)

/-- The columns of an employee selected with an item. -/
def sellerParty (d : Database) (userId : String) : Option Party :=
  (d.users.get userId).map fun u =>
    ⟨userId, u.fullName, u.department, u.phoneNumber, u.qrPaymentUrl⟩

namespace ItemsService

/-- ILIKE `%q%` -/
def contains (q text : String) : Bool :=
  like cfg.caseFold ("%" ++ escapeLike q ++ "%").toList text.toList

/-- The WHERE clause of `findAll`. -/
def isListed (dto : ListItemsQueryDto) (item : Item) : Bool :=
  ((dto.q.filter (· ≠ "")).all fun q =>
    contains cfg q item.title || item.description.any (contains cfg q)) &&
  dto.itemType.all (item.itemType = ·) &&
  (match dto.status with
    | some status => item.status = status
    | none => item.status ≠ .sold) &&
  (dto.sellerId.filter (· ≠ "")).all (item.sellerId = ·)

/-- An item with the columns of its seller that are selected in a list. -/
def listing (d : Database) (itemId : ℤ) (item : Item) : ItemListing :=
  ⟨itemId, item, (d.users.get item.sellerId).map fun u =>
    ⟨item.sellerId, u.fullName, u.department⟩⟩

/-- The rows of `findAll`, newest first. -/
def all (d : Database) (dto : ListItemsQueryDto) : List ItemListing :=
  (orderBy (newest Item.createdAt) (d.items.rows.filter fun x => isListed cfg dto x.2)).map
    fun x => listing d x.1 x.2

def findAll (dto : ListItemsQueryDto) : Program :=
  dto.getManyAndCount (fun d => all cfg d dto) fun page => answer (.items page)

def findOne (itemId : ℤ) : Program :=
  query (fun d => (d.items.get itemId).map fun item =>
      (⟨itemId, item, sellerParty d item.sellerId⟩ : ItemDetail)) fun
    | none => fail (.app (.notFound s!"Item {itemId} not found"))
    | some item => answer (.item item)

def resolvePrice (itemType : ItemType) (price : Optional ℤ) : Except Exception ℤ :=
  if itemType = .free then
    if price ≠ .undefined ∧ price ≠ .value 0 then
      .error (.badRequest "FREE items must have a price of 0")
    else .ok 0
  else
    match price with
    | .value p =>
      if p ≤ 0 then .error (.badRequest s!"{itemType} items require a price greater than 0")
      else .ok p
    | _ => .error (.badRequest s!"{itemType} items require a price greater than 0")

/-- `dto.description || null` -/
def descriptionOrNull (description : Option String) : Option String := description.filter (· ≠ "")

/-- The row of a new listing. -/
def newItem (sellerId : String) (dto : CreateItemDto cfg) (price : ℤ) (images : List String)
    (now : ℕ) : Item :=
  { sellerId, title := dto.title, description := descriptionOrNull dto.description, price,
    quantity := dto.quantity.getD 1, itemType := dto.itemType, status := .available,
    pickupLocation := dto.pickupLocation, images, createdAt := now }

def create (sellerId : String) (dto : CreateItemDto cfg) : Program :=
  match resolvePrice dto.itemType dto.price with
  | .error e => fail (.app e)
  | .ok price =>
    let images := (dto.images.getD []).eraseDups
    match StorageService.assertManagedUrls cfg images with
    | .error e => fail (.app e)
    | .ok () =>
      .tx (.insert .items (fun now _ => newItem cfg sellerId dto price images now)
          fun n _ => .commit (n : ℤ)) fun
        | .error e => fail e
        | .ok itemId => findOne itemId

/-- Seller-only manual status change. Items with a PENDING order must be resolved via the
    order endpoints so the order and item never disagree. -/
def updateStatusTx (itemId : ℤ) (userId : String) (status : ItemStatus) : Transaction Unit :=
  .lock (.item itemId) fun
    | none => .throw (.notFound s!"Item {itemId} not found")
    | some item =>
      if item.sellerId ≠ userId then
        .throw (.forbidden "Only the seller can change the status of this item")
      else if item.status = status then .commit ()
      else
        .select (fun d => d.orders.rows.any fun x => x.2.itemId = itemId && x.2.status = .pending)
          fun hasPendingOrder =>
          if hasPendingOrder then
            .throw (.conflict ("This item has a pending order. Complete or cancel the order via " ++
              "PATCH /api/v1/orders/:id/status"))
          else
            .update (.item itemId) (fun _ => true) (fun (item : Item) => { item with status })
              fun _ => .commit ()

def updateStatus (itemId : ℤ) (userId : String) (status : ItemStatus) : Program :=
  .tx (updateStatusTx itemId userId status) fun
    | .error e => fail e
    | .ok () => findOne itemId

end ItemsService

end Marketplace
