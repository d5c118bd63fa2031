/-
  Authentication: the token of a request or of a socket's handshake, and the
  employee it stands for.
-/
import Marketplace.Identity
import Marketplace.Lib.Words

namespace Marketplace

/-! ## Tokens -/

/-- The value of a header. -/
inductive HeaderValue where
  | one (value : String)
  | many (values : List String)

/-- `Array.isArray(header) ? header[0] : header` -/
def HeaderValue.first? : HeaderValue → Option String
  | one value => some value
  | many values => values.head?

/-- `s.split(/\s+/)` -/
def splitSpaces (s : String) : List String := (Words.split isSpace s.toList).map String.ofList

/-- `s.toLowerCase() === 'bearer'`; only the ASCII letters have these lower cases. -/
def isBearer (s : String) : Bool := s.toList.map Char.toLower = "bearer".toList

def extractBearerToken (header : Option HeaderValue) : Option String :=
  match (header.bind HeaderValue.first?).filter (· ≠ "") with
  | none => none
  | some value =>
    match splitSpaces (trim value) with
    | scheme :: token :: _ => if isBearer scheme ∧ token ≠ "" then some token else none
    | _ => none

/-- `s.replace(/^Bearer\s+/i, '')` -/
def stripBearer (s : String) : String :=
  let rest := s.toList.drop 6
  if isBearer (String.ofList (s.toList.take 6)) ∧ rest.head?.any isSpace then
    String.ofList (rest.dropWhile isSpace)
  else s

/-- What a client sends to connect a socket. -/
structure Handshake where
  /-- `auth.token`, if it is a string -/
  authToken : Option String
  authorization : Option HeaderValue
  /-- `?token=`, if it is a string -/
  queryToken : Option String

/-- Accepts `auth: { token }` (preferred), an Authorization header, or `?token=` query. -/
def extractSocketToken (handshake : Handshake) : Option String :=
  match handshake.authToken.filter (· ≠ "") with
  | some token => some (stripBearer token)
  | none =>
    (extractBearerToken handshake.authorization).or (handshake.queryToken.filter (· ≠ ""))

/-! ## Employees -/

/-- The claims of a token that are read. -/
structure JwtPayload where
  /-- if it is a string -/
  sub : Option String

namespace AuthService

/-- `verifyToken` up to the call of `resolveTokenSubject`: the subject of a token at the time `now`.
    `verifyAsync` is the one of `JwtService`, for HS256 and the issuer of the environment. -/
def tokenSubject (verifyAsync : ℕ → String → Option JwtPayload) (now : ℕ) (token : String) :
    Except Exception String :=
  match verifyAsync now token with
  | none => .error (.unauthorized "Invalid or expired token")
  | some payload =>
    match payload.sub.filter (isId 50) with
    | none => .error (.unauthorized "Invalid token subject")
    | some sub => .ok sub

/-- `verifyToken` after it. -/
def tokenUser : Option AuthUser → Except Exception AuthUser
  | none => .error (.unauthorized "Account no longer exists")
  | some user => .ok user

end AuthService

/-- Injects the authenticated employee. -/
def CurrentUser : Option AuthUser → Except Exception AuthUser
  | none => .error (.unauthorized "Not authenticated")
  | some user => .ok user

end Marketplace
