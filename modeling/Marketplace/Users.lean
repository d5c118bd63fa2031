/-
  Employees: the profile they maintain, the token of their device, and logging
  in with the phone number stored in the profile.
-/
import Marketplace.Storage

namespace Marketplace

variable (cfg : Config)

namespace UsersService

/-- The columns the repository reads back. -/
def profile (userId : String) (u : User) : Profile :=
  ⟨userId, u.fullName, u.department, u.phoneNumber, u.qrPaymentUrl, u.createdAt⟩

/-- `usersRepo.save`: the row is read again, and the columns in which the entity differs from it
    are written. -/
def save (u : Profile) (k : Profile → Program) : Program :=
  query (fun d => (d.users.get u.userId).map (profile u.userId)) fun
    -- no request deletes an employee, so there is always a row to compare with
    | none => k u
    | some row =>
      if row = u then k u
      else
        .tx (.update (.user u.userId) (fun _ => true) (fun (r : User) =>
          { r with
            fullName := if u.fullName = row.fullName then r.fullName else u.fullName
            department := if u.department = row.department then r.department else u.department
            phoneNumber := if u.phoneNumber = row.phoneNumber then r.phoneNumber else u.phoneNumber
            qrPaymentUrl :=
              if u.qrPaymentUrl = row.qrPaymentUrl then r.qrPaymentUrl else u.qrPaymentUrl })
          .commit) fun
          | .error e => fail e
          | .ok _ => k u

def getProfile (userId : String) (k : Profile → Program) : Program :=
  query (fun d => (d.users.get userId).map (profile userId)) fun
    | none => fail (.app (.notFound s!"Employee {userId} not found"))
    | some u => k u

/-- Public profile visible to other employees (e.g. to pay a seller via QR). -/
def getPublicProfile (userId : String) : Program :=
  getProfile userId fun u => answer (.publicProfile
    ⟨u.userId, u.fullName, u.department, u.phoneNumber, u.qrPaymentUrl⟩)

/-- The profile with the fields of the request. -/
def merge (u : Profile) (dto : UpdateProfileDto cfg) : Profile :=
  { u with
    phoneNumber := dto.phoneNumber.or u.phoneNumber
    qrPaymentUrl := match dto.qrPaymentUrl with
      | .undefined => u.qrPaymentUrl
      | .null => none
      | .value url => some url }

/-- The URL of the request that `updateProfile` checks: a truthy one. -/
def checkedUrl (dto : UpdateProfileDto cfg) : Option String :=
  match dto.qrPaymentUrl with
  | .value url => if url = "" then none else some url
  | _ => none

def updateProfile (userId : String) (dto : UpdateProfileDto cfg) : Program :=
  query (fun d => (d.users.get userId).map (profile userId)) fun
    | none => fail (.app (.notFound s!"Employee {userId} not found"))
    | some u =>
      match StorageService.assertManagedUrls cfg (checkedUrl cfg dto).toList with
      | .error e => fail (.app e)
      | .ok () => save (merge cfg u dto) fun u => answer (.profile u)

def updateFcmTokenTx (userId fcmToken : String) : Transaction Unit :=
  .select (fun d => (d.users.get userId).isSome) fun exists_ =>
    if exists_ then
      .select
        (fun d => (d.users.rows.filter fun x => x.2.fcmToken = some fcmToken && x.1 ≠ userId).map
          Prod.fst)
        fun ids => .updateEach Key.user (fun v (u : User) => u.fcmToken = some fcmToken && v ≠ userId)
          (fun _ (u : User) => { u with fcmToken := none })
          (fun _ => .update (.user userId) (fun _ => true)
            (fun (u : User) => { u with fcmToken := some fcmToken }) fun _ => .commit ()) ids 0
    else .throw (.notFound s!"Employee {userId} not found")

/-- Saves the device's FCM token for this employee. If another employee signed in on the same device
    before, the token is moved so notifications never reach the previous account. -/
def updateFcmToken (userId : String) (dto : UpdateFcmTokenDto) : Program :=
  .tx (updateFcmTokenTx userId dto.fcmToken) fun
    | .error e => fail e
    | .ok () => answer .tokenUpdated

/-- Call on logout so the device stops receiving this employee's notifications. -/
def clearFcmToken (userId : String) : Program :=
  .tx (.update (.user userId) (fun _ => true) (fun (u : User) => { u with fcmToken := none })
    .commit) fun
    | .error e => fail e
    | .ok _ => answer .tokenCleared

end UsersService

namespace AuthService

def INVALID_CREDENTIALS : String := "Invalid employee ID or phone number"

/-- "+856 20-5555 (0101)" → "8562055550101" -/
def normalizePhone (phone : String) : String := String.ofList (phone.toList.filter Char.isDigit)

/-- Constant-time comparison so the stored number can't be probed via response timing. -/
def phonesMatch (input : String) (stored : Option String) : Bool :=
  let a := cfg.sha256 (normalizePhone input)
  let b := cfg.sha256 (match stored.filter (· ≠ "") with
    | some stored => normalizePhone stored
    | none => "\x00no-phone")
  a = b && (stored.filter (· ≠ "")).isSome

/-- Logs in with employee ID + the phone number stored in the users table. -/
def login (dto : LoginDto cfg) : Program :=
  query (fun d => d.users.get dto.userId) fun user? =>
    match user? with
    | some user =>
      if phonesMatch cfg dto.phoneNumber user.phoneNumber then
        let user : AuthUser := ⟨dto.userId, user.fullName, user.department⟩
        answer (.login ⟨cfg.sign user, "Bearer", cfg.expiresIn, user⟩)
      else fail (.app (.unauthorized INVALID_CREDENTIALS))
    | none => fail (.app (.unauthorized INVALID_CREDENTIALS))

end AuthService

end Marketplace
