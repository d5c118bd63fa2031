/-
  What clients see of a failed request: the bodies of HTTP errors and of failed
  socket events.
-/
import Mathlib.Data.List.Infix
import Marketplace.Schema

namespace Marketplace

structure FieldError where
  field : String
  messages : List String
  deriving DecidableEq

/-! ## Exceptions -/

/-- The property `message` of an exception's response. -/
inductive MessageField where
  | text (message : String)
  | texts (messages : List String)
  | other
  deriving DecidableEq

/-- The response of an exception: a string, or an object. -/
inductive ExceptionBody where
  | text (body : String)
  | fields (message : MessageField) (errors : List FieldError)
  deriving DecidableEq

/-- What can be thrown, as the exception filters tell it apart. -/
inductive Raised where
  /-- `HttpException` -/
  | http (statusCode : ℕ) (response : ExceptionBody)
  /-- `WsException` -/
  | ws (error : ExceptionBody)
  | query (error : QueryFailedError)
  | other
  deriving DecidableEq

def Exception.raised : Exception → Raised
  | badRequest m => .http 400 (.fields (.text m) [])
  | unauthorized m => .http 401 (.fields (.text m) [])
  | forbidden m => .http 403 (.fields (.text m) [])
  | notFound m => .http 404 (.fields (.text m) [])
  | conflict m => .http 409 (.fields (.text m) [])
  | payloadTooLarge m => .http 413 (.fields (.text m) [])
  | internalServerError m => .http 500 (.fields (.text m) [])
  | ws m => .ws (.text m)
  | query f => .query f

def raised : Thrown → Raised
  | .app e => e.raised
  | .db f => .query f

/-! ## Messages -/

def DEFAULT_MESSAGES : ℕ → Option String
  | 200 => some "Success"
  | 201 => some "Created"
  | 202 => some "Accepted"
  | 204 => some "No Content"
  | 400 => some "Bad request"
  | 401 => some "Unauthorized"
  | 403 => some "Forbidden"
  | 404 => some "Not found"
  | 409 => some "Conflict"
  | 413 => some "Payload too large"
  | 429 => some "Too many requests, please slow down"
  | 500 => some "Internal server error"
  | 503 => some "Service unavailable"
  | _ => none

def defaultMessageFor (statusCode : ℕ) : String :=
  (DEFAULT_MESSAGES statusCode).getD (if statusCode < 400 then "Success" else "Error")

def PgErrorCode.NOT_NULL_VIOLATION : String := "23502"
def PgErrorCode.LOCK_NOT_AVAILABLE : String := "55P03"
def PgErrorCode.DEADLOCK_DETECTED : String := "40P01"
def PgErrorCode.SERIALIZATION_FAILURE : String := "40001"

open PgErrorCode in
def DB_ERROR_MAPPINGS : List (String × ℕ × String) :=
  [(UNIQUE_VIOLATION, 409, "Resource already exists"),
    (FOREIGN_KEY_VIOLATION, 400, "Referenced record does not exist or is still in use"),
    (CHECK_VIOLATION, 400, "Value violates a data constraint"),
    (NOT_NULL_VIOLATION, 400, "A required value is missing"),
    (INVALID_TEXT_REPRESENTATION, 400, "Invalid input value"),
    (NUMERIC_VALUE_OUT_OF_RANGE, 400, "Numeric value out of range"),
    (LOCK_NOT_AVAILABLE, 409, "The resource is being modified by another request, please retry"),
    (DEADLOCK_DETECTED, 409, "Concurrent update conflict, please retry"),
    (SERIALIZATION_FAILURE, 409, "Concurrent update conflict, please retry")]

def toLower (s : String) : List Char := s.toList.map Char.toLower

/-- `/pattern/i.test(s)`, for a pattern of ASCII characters. -/
def includesIgnoringCase (pattern s : String) : Bool := decide (toLower pattern <:+: toLower s)

/-- Body-parser and multer errors are cryptic; add the usual client-side fix. -/
def withUploadHint (message : String) : String :=
  if includesIgnoringCase "boundary not found" message then
    message ++ ". Do not set the Content-Type header yourself when sending FormData; " ++
      "the browser/HTTP client must add it with the multipart boundary"
  else if includesIgnoringCase "JSON at position" message || includesIgnoringCase "in JSON" message ||
      includesIgnoringCase "is not valid JSON" message ||
      includesIgnoringCase "Unexpected end of JSON" message then
    "Request body is not valid JSON (" ++ message ++
      "). Check for trailing commas, single quotes or unquoted keys"
  else if toLower message = toLower "Unexpected end of form" then
    message ++ ". The multipart body was truncated or malformed"
  else message

/-! ## Filters -/

/-- An error envelope; an empty list of errors is left out of it. -/
structure ErrorBody where
  statusCode : ℕ
  message : String
  errors : List FieldError
  deriving DecidableEq

namespace AllExceptionsFilter

/-- The envelope of an HTTP error. -/
def resolve : Raised → ErrorBody
  | .http statusCode (.text body) => ⟨statusCode, body, []⟩
  | .http statusCode (.fields (.texts messages) _) => ⟨statusCode, "; ".intercalate messages, []⟩
  | .http statusCode (.fields message errors) =>
    let text := match message with
      | .text m => if m ≠ "" then m else defaultMessageFor statusCode
      | _ => defaultMessageFor statusCode
    ⟨statusCode, withUploadHint text, errors⟩
  | .query error =>
    match error.code.bind fun code => DB_ERROR_MAPPINGS.lookup code with
    | some (status, message) => ⟨status, message, []⟩
    | none => ⟨500, defaultMessageFor 500, []⟩
  | .ws _ | .other => ⟨500, defaultMessageFor 500, []⟩

end AllExceptionsFilter

namespace WsExceptionsFilter

def extract (body : ExceptionBody) (statusCode : ℕ) : String × List FieldError :=
  match body with
  | .text body => (body, [])
  | .fields message errors =>
    let text := match message with
      | .texts messages => "; ".intercalate messages
      | .text m => if m ≠ "" then m else defaultMessageFor statusCode
      | .other => defaultMessageFor statusCode
    (text, errors)

/-- The envelope of a failed socket event. -/
def toPayload : Raised → ErrorBody
  | .http statusCode response =>
    let (message, errors) := extract response statusCode
    ⟨statusCode, message, errors⟩
  | .ws error =>
    let (message, errors) := extract error 400
    ⟨400, message, errors⟩
  | .query _ | .other => ⟨500, defaultMessageFor 500, []⟩

end WsExceptionsFilter

/-! ## Validation -/

/-- An error of class-validator: the failed constraints of a property, and the errors below it. -/
inductive ValidationError where
  | mk (property : String) (constraints : Option (List String)) (children : List ValidationError)

mutual

def flattenValidationError (parentPath : String) : ValidationError → List FieldError
  | .mk property constraints children =>
    let field := if parentPath ≠ "" then parentPath ++ "." ++ property else property
    let own : List FieldError := match constraints with
      | some messages => [⟨field, messages⟩]
      | none => []
    own ++ flattenValidationErrors field children

/-- Flattens class-validator errors (including nested objects) into `{ field, messages }`. -/
def flattenValidationErrors (parentPath : String) : List ValidationError → List FieldError
  | [] => []
  | e :: es => flattenValidationError parentPath e ++ flattenValidationErrors parentPath es

end

/-- The `exceptionFactory` of the HTTP `ValidationPipe`. -/
def validationFailed (errors : List ValidationError) : Raised :=
  .http 400 (.fields (.text "Validation failed") (flattenValidationErrors "" errors))

/-- The `exceptionFactory` of the gateway's `ValidationPipe`. -/
def wsValidationFailed (errors : List ValidationError) : Raised :=
  .ws (.fields (.text "Validation failed") (flattenValidationErrors "" errors))

end Marketplace
