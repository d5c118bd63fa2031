/-
  The databases the application is started on: migrated, upgraded from an earlier
  version, seeded with sample data.
-/
import Marketplace.App
import Marketplace.Migrations

namespace Marketplace

open ReadCommitted

/-- A database at rest, with its sequences: the ids they have not given out are free. -/
structure Deployment where
  db : Database
  seq : Serial → ℕ
  seq_pos : ∀ t, 1 ≤ seq t
  fresh : ∀ t n, seq t ≤ n → db.get (t.key n) = none

namespace Deployment

theorem migrated_pos (_ : Serial) : 1 ≤ 1 := le_rfl

theorem migrated_fresh (users : Table String User) (t : Serial) (n : ℕ) (_ : 1 ≤ n) :
    (Database.migrated users).get (t.key n) = none := by
  cases t <;> exact Table.get_empty _

/-- The migrated database with the given employees and nothing else. -/
def migrated (users : Table String User) : Deployment :=
  ⟨.migrated users, fun _ => 1, migrated_pos, migrated_fresh users⟩

variable (cfg : Config) (D : Deployment)

/-- The application, before the first request. -/
def start : AppState cfg := State.init D.db D.seq

/-- The state after the actions. -/
def runs (acts : List (AppAction cfg)) : Option (AppState cfg) := (D.start cfg).run (program cfg) acts

/-! ## Statements of a script -/

theorem withUsers_fresh (users : Table String User) (t : Serial) (n : ℕ) (h : D.seq t ≤ n) :
    ({ D.db with users } : Database).get (t.key n) = none := by
  have := D.fresh t n h
  cases t <;> exact this

def withUsers (users : Table String User) : Deployment :=
  { D with db := { D.db with users }, fresh := D.withUsers_fresh users }

theorem insertItem_pos (t : Serial) : 1 ≤ Function.update D.seq .items (D.seq .items + 1) t := by
  by_cases ht : t = .items
  · rw [ht, Function.update_self]; exact Nat.le_add_left _ _
  · rw [Function.update_of_ne ht]; exact D.seq_pos t

theorem insertItem_fresh (item : Item) (t : Serial) (n : ℕ)
    (h : Function.update D.seq .items (D.seq .items + 1) t ≤ n) :
    (D.db.put (.item (D.seq .items)) item).get (t.key n) = none := by
  by_cases ht : t = .items
  · subst ht
    rw [Function.update_self] at h
    rw [Database.get_put_ne]
    · exact D.fresh .items n (Nat.le_of_succ_le h)
    · intro he
      have := Int.ofNat.inj (Key.item.inj he)
      omega
  · rw [Function.update_of_ne ht] at h
    rw [Database.get_put_ne]
    · exact D.fresh t n h
    · cases t <;> first | exact absurd rfl ht | rintro ⟨⟩

/-- `INSERT INTO "items"`, under the next id. -/
def insertItem (item : Item) : Deployment where
  db := D.db.put (.item (D.seq .items)) item
  seq := Function.update D.seq .items (D.seq .items + 1)
  seq_pos := D.insertItem_pos
  fresh := D.insertItem_fresh item

end Deployment

/-! ## Sample data -/

namespace Seed

/-- The columns of an employee the script sets. -/
structure SeedUser where
  userId : String
  fullName : String
  department : Option String
  phoneNumber : Option String
  qrPaymentUrl : Option String

/-- The columns of an item the script sets. -/
structure SeedItem where
  sellerId : String
  title : String
  description : Option String
  /-- in cents -/
  price : ℤ
  /-- the column has the default 1 -/
  quantity : ℤ
  itemType : ItemType
  status : ItemStatus
  pickupLocation : String
  images : List String

def SEED_USERS : List SeedUser :=
  [⟨"EMP00101", "Souksavanh Phommachanh", some "Information Technology", some "+856 20 5555 0101",
      none⟩,
    ⟨"EMP00102", "Khamla Vongsa", some "Human Resources", some "+856 20 5555 0102", none⟩,
    ⟨"EMP00103", "Vilayvanh Sisouphanh", some "Finance & Accounting", some "+856 20 5555 0103",
      none⟩,
    ⟨"EMP00104", "Phonesavanh Keomany", some "Marketing", some "+856 20 5555 0104", none⟩]

def SEED_ITEMS : List SeedItem :=
  [{ sellerId := "EMP00101"
     title := "MacBook Air M1 13\" (8GB / 256GB) - Space Gray"
     description := some ("Used for 2 years, battery health 89%. No scratches on the screen, " ++
       "minor wear on the bottom case. Comes with original charger and box.")
     price := 750000000
     quantity := 1
     itemType := .secondHand
     status := .available
     pickupLocation := "HQ Building A, 5th Floor - IT Help Desk"
     images := [] },
   { sellerId := "EMP00104"
     title := "Logitech MX Master 3S Wireless Mouse"
     description := some ("Bought 6 months ago, switched to a trackpad. Works perfectly, " ++
       "includes USB-C cable and Bolt receiver.")
     price := 65000000
     quantity := 1
     itemType := .secondHand
     status := .available
     pickupLocation := "HQ Building B, 2nd Floor - Marketing"
     images := [] },
   { sellerId := "EMP00103"
     title := "Homemade Khao Piak Sen - Friday Lunch Pre-order"
     description := some ("Fresh rice noodle soup with chicken, made the same morning. Order by " ++
       "Thursday 3 PM, pickup Friday 11:45 AM. Price per bowl, container included.")
     price := 3500000
     quantity := 20
     itemType := .food
     status := .available
     pickupLocation := "HQ Building A, Ground Floor - Staff Canteen"
     images := [] },
   { sellerId := "EMP00102"
     title := "Banana Cake & Coconut Sticky Rice Set - Pre-order"
     description := some ("Box of 6 banana cakes + 4 coconut sticky rice. Baked fresh on " ++
       "Wednesday, pickup after 4 PM.")
     price := 6000000
     quantity := 10
     itemType := .food
     status := .available
     pickupLocation := "HQ Building A, 3rd Floor - HR Pantry"
     images := [] },
   { sellerId := "EMP00101"
     title := "Free Books: Clean Code + The Pragmatic Programmer"
     description := some ("Giving away two classic software engineering books (English editions, " ++
       "good condition). First come, first served - please pick them up within the week.")
     price := 0
     quantity := 1
     itemType := .free
     status := .available
     pickupLocation := "HQ Building A, 5th Floor - Library Shelf"
     images := [] }]

/-- The row of an employee after the upsert: the columns the script does not set stay, or have their
    defaults. -/
def SeedUser.row (u : SeedUser) (now : ℕ) (old : Option User) : User where
  fullName := u.fullName
  department := u.department
  phoneNumber := u.phoneNumber
  qrPaymentUrl := u.qrPaymentUrl
  fcmToken := old.bind User.fcmToken
  createdAt := old.elim now User.createdAt

/-- `upsert(User, ..., { conflictPaths: ['userId'], skipUpdateIfNoValuesChanged: true })` -/
def upsertUser (now : ℕ) (D : Deployment) (u : SeedUser) : Deployment :=
  let old := D.db.users.get u.userId
  let row := u.row now old
  if old = some row then D else D.withUsers (D.db.users.put u.userId row)

def SeedItem.row (i : SeedItem) (now : ℕ) : Item where
  sellerId := i.sellerId
  title := i.title
  description := i.description
  price := i.price
  quantity := i.quantity
  itemType := i.itemType
  status := i.status
  pickupLocation := i.pickupLocation
  images := i.images
  createdAt := now

/-- `existsBy(Item, { sellerId, title })` -/
def existsBy (D : Deployment) (i : SeedItem) : Bool :=
  D.db.items.rows.any fun x => x.2.sellerId = i.sellerId && x.2.title = i.title

def seedItem (now : ℕ) (D : Deployment) (i : SeedItem) : Deployment :=
  if existsBy D i then D else D.insertItem (i.row now)

/-- The script, at the time `now`; `--clean` truncates the tables and restarts the sequences first. -/
def run (clean : Bool) (now : ℕ) (D : Deployment) : Deployment :=
  let D := if clean then .migrated .empty else D
  SEED_ITEMS.foldl (seedItem now) (SEED_USERS.foldl (upsertUser now) D)

end Seed

end Marketplace
