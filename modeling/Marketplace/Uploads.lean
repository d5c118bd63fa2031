/-
  The upload of images to the bucket: the checks of a file, the upload of a
  batch, and what is done when one of its uploads fails.
-/
import Marketplace.Storage
import Marketplace.Lib.AllSettled

namespace Marketplace

/-- A file of a multipart request, buffered in memory. -/
structure MulterFile where
  originalname : String
  /-- as declared by the client -/
  mimetype : String
  size : ℕ
  buffer : Option (List UInt8)
  deriving DecidableEq

inductive AllowedImageMimeType where
  | jpeg | png | webp
  deriving DecidableEq

/-- `ALLOWED_IMAGE_TYPES` -/
def AllowedImageMimeType.extension : AllowedImageMimeType → String
  | jpeg => "jpg"
  | png => "png"
  | webp => "webp"

inductive StorageFolder where
  | items | qrCodes | paymentSlips
  deriving DecidableEq

instance : ToString StorageFolder where
  toString
    | .items => "items"
    | .qrCodes => "qr-codes"
    | .paymentSlips => "payment-slips"

def MAX_IMAGE_SIZE_BYTES : ℕ := 5 * 1024 * 1024

structure UploadedImage where
  url : String
  path : String
  mimeType : AllowedImageMimeType
  size : ℕ
  deriving DecidableEq

/-! ## The bucket -/

structure StoredObject where
  bytes : List UInt8
  contentType : AllowedImageMimeType
  deriving DecidableEq

abbrev Bucket := String → Option StoredObject

/-- An upload handed to the storage, with the size of its file. -/
structure Upload where
  path : String
  object : StoredObject
  size : ℕ
  deriving DecidableEq

/-- The storage answers an upload, with an error or without.  It stores nothing when it reports an
    error, and it reports one when there is an object already, as `upsert` is false. -/
def Bucket.upload (b : Bucket) (u : Upload) (error : Option String) : Bucket × Option String :=
  match error with
  | some message => (b, some message)
  | none =>
    if b u.path = none then (Function.update b u.path (some u.object), none)
    else (b, some "The resource already exists")

/-- The storage removes objects, or reports an error. -/
def Bucket.remove (b : Bucket) (paths : List String) (error : Option String) : Bucket :=
  match error with
  | some _ => b
  | none => fun path => if path ∈ paths then none else b path

/-- What a method of the service does: it throws, it waits until uploads it has started have all
    settled, it removes objects, it returns. -/
inductive Storing where
  | throw (e : Exception)
  | allSettled (uploads : List Upload) (k : List (Except Exception UploadedImage) → Storing)
  | remove (paths : List String) (k : Storing)
  | done (images : List UploadedImage)

/-- When an upload was started, and the UUID drawn for it. -/
structure Stamp where
  year : ℕ
  /-- `getUTCMonth`: 0 to 11 -/
  month : ℕ
  uuid : String
  deriving DecidableEq

/-- What `randomUUID` returns: 32 hexadecimal digits in five groups. -/
def isUuid (s : String) : Bool :=
  (s.toList.splitOn '-').map List.length = [8, 4, 4, 4, 12] &&
    s.toList.all fun c => c.isDigit || ('a' ≤ c && c ≤ 'f') || c == '-'

namespace StorageService

/-- `buffer.toString('ascii', i, j)`: the highest bit of every byte is unset. -/
def asciiString (buffer : List UInt8) (i j : ℕ) : String :=
  String.ofList (((buffer.drop i).take (j - i)).map fun byte => Char.ofUInt8 (byte &&& 0x7f))

/-- Sniffs file signatures so a renamed executable can't masquerade as an image. -/
def detectImageType (buffer : List UInt8) : Option AllowedImageMimeType :=
  if 3 ≤ buffer.length ∧ buffer[0]? = some 0xff ∧ buffer[1]? = some 0xd8 ∧ buffer[2]? = some 0xff then
    some .jpeg
  else if 8 ≤ buffer.length ∧
      buffer.take 8 = [0x89, 0x50, 0x4e, 0x47, 0x0d, 0x0a, 0x1a, 0x0a] then
    some .png
  else if 12 ≤ buffer.length ∧ asciiString buffer 0 4 = "RIFF" ∧ asciiString buffer 8 12 = "WEBP" then
    some .webp
  else none

/-- `/hei[cf]/i` -/
def mentionsHeif (s : String) : Bool :=
  let l := s.toList.map Char.toLower
  decide (['h', 'e', 'i', 'c'] <:+: l ∨ ['h', 'e', 'i', 'f'] <:+: l)

/-- Validates size and the file's real type from its magic bytes. -/
def validateImage (file : Option MulterFile) : Except Exception AllowedImageMimeType :=
  match file with
  | none => .error (.badRequest "\"file\" is empty")
  | some file =>
    match file.buffer with
    | none => .error (.badRequest s!"\"{file.originalname}\" is empty")
    | some buffer =>
      if file.size = 0 then .error (.badRequest s!"\"{file.originalname}\" is empty")
      else if file.size > MAX_IMAGE_SIZE_BYTES then
        .error (.payloadTooLarge
          s!"\"{file.originalname}\" exceeds the {MAX_IMAGE_SIZE_BYTES / 1024 / 1024}MB limit")
      else
        match detectImageType buffer with
        | some detected => .ok detected
        | none =>
          let hint := if mentionsHeif s!"{file.mimetype} {file.originalname}" then
            " HEIC photos must be converted to JPG first (iPhone: Settings → Camera → Formats → Most Compatible)."
            else ""
          .error (.badRequest
            s!"\"{file.originalname}\" ({file.mimetype}) is not a JPG, PNG or WEBP image.{hint}")

/-- `ownerId.replace(/[^A-Za-z0-9_-]/g, '_')`, on UTF-16 code units -/
def safeOwner (ownerId : String) : String :=
  String.ofList (ownerId.toList.flatMap fun c =>
    if isIdChar c then [c] else if c.toNat < 0x10000 then ['_'] else ['_', '_'])

/-- `String(n).padStart(2, '0')` -/
def padStart (n : ℕ) : String := String.ofList ((toString n).toList.leftpad 2 '0')

section
variable (getPublicUrl : String → String)

/-- The upload `putObject` starts. -/
def putObject (file : MulterFile) (mimeType : AllowedImageMimeType) (folder : StorageFolder)
    (ownerId : String) (now : Stamp) : Upload where
  path := s!"{folder}/{safeOwner ownerId}/{now.year}/{padStart (now.month + 1)}/" ++
    s!"{now.uuid}.{mimeType.extension}"
  object := ⟨file.buffer.getD [], mimeType⟩
  size := file.size

/-- What `putObject` makes of the answer to its upload. -/
def putAnswer (u : Upload) : Option String → Except Exception UploadedImage
  | some _ => .error (.internalServerError "Failed to upload image to storage")
  | none => .ok ⟨getPublicUrl u.path, u.path, u.object.contentType, u.size⟩

/-- An upload of `putObject` settles. -/
def putSettles (u : Upload) (error : Option String) (b : Bucket) :
    Bucket × Except Exception UploadedImage :=
  let answered := b.upload u error
  (answered.1, putAnswer getPublicUrl u answered.2)

def uploadImage (file : Option MulterFile) (folder : StorageFolder) (ownerId : String)
    (now : Stamp) : Storing :=
  match validateImage file, file with
  | .ok mimeType, some file =>
    .allSettled [putObject file mimeType folder ownerId now] fun
      | [.ok image] => .done [image]
      | [.error e] => .throw e
      | _ => .done []
  | .ok _, none => .done []
  | .error e, _ => .throw e

def removeObjects (paths : List String) (k : Storing) : Storing :=
  if paths.length = 0 then k else .remove paths k

def validateAll (files : List MulterFile) :
    Except Exception (List (MulterFile × AllowedImageMimeType)) :=
  files.mapM fun file => (validateImage (some file)).map fun mimeType => (file, mimeType)

/-- The fulfilled results. -/
def fulfilled (results : List (Except Exception UploadedImage)) : List UploadedImage :=
  results.filterMap Except.toOption

/-- The reason of the first rejected result. -/
def failure? (results : List (Except Exception UploadedImage)) : Option Exception :=
  results.findSome? fun
    | .error e => some e
    | .ok _ => none

/-- Validates every file before uploading any; rolls back already-uploaded files on failure. -/
def uploadImages (files : Option (List MulterFile)) (folder : StorageFolder) (ownerId : String)
    (now : ℕ → Stamp) : Storing :=
  let files := files.getD []
  if files.length = 0 then
    .throw (.badRequest
      "No files provided. Send multipart/form-data with one or more \"files\" fields")
  else if files.length > MAX_IMAGES_PER_UPLOAD then
    .throw (.badRequest s!"At most {MAX_IMAGES_PER_UPLOAD} images can be uploaded at once")
  else
    match validateAll files with
    | .error e => .throw e
    | .ok validated =>
      .allSettled (validated.mapIdx fun i x => putObject x.1 x.2 folder ownerId (now i))
        fun results =>
          let uploaded := fulfilled results
          match failure? results with
          | some reason => removeObjects (uploaded.map UploadedImage.path) (.throw reason)
          | none => .done uploaded

end

end StorageService

open StorageService

/-- The run of a method: the uploads it starts settle in the order of `es`, each with the error the
    storage reports, if any. -/
def Storing.run (getPublicUrl : String → String) (es : List (ℕ × Option String))
    (removal : Option String) : Storing → Bucket → Option (Except Exception (List UploadedImage) × Bucket)
  | .throw e, b => some (.error e, b)
  | .done images, b => some (.ok images, b)
  | .remove paths k, b => k.run getPublicUrl es removal (b.remove paths removal)
  | .allSettled uploads k, b =>
    match AllSettled.allSettled (putSettles getPublicUrl) uploads b es with
    | none => none
    | some (b, results) => (k results).run getPublicUrl es removal b

end Marketplace
