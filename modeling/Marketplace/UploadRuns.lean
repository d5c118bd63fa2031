/-
  Any number of upload requests over one bucket.

  Each request runs until it waits for the storage: for the uploads it has
  started, which settle one by one and in any order, or for a removal.  In
  between, the other requests run.
-/
import Marketplace.Uploads

namespace Marketplace

namespace StorageController

/-- `POST /storage/image` -/
def uploadOne (files : Option (List MulterFile)) (folder : StorageFolder) (userId : String)
    (now : Stamp) : Storing :=
  match (files.getD []).head? with
  | none => .throw (.badRequest "No file provided. Send multipart/form-data with a \"file\" field")
  | some file => StorageService.uploadImage (some file) folder userId now

/-- `POST /storage/images` -/
def uploadMany (files : Option (List MulterFile)) (folder : StorageFolder) (userId : String)
    (now : ℕ → Stamp) : Storing :=
  StorageService.uploadImages (some (files.getD [])) folder userId now

end StorageController

/-- An upload request, with the stamps of the uploads it may start. -/
inductive UploadRequest where
  | image (files : Option (List MulterFile)) (folder : StorageFolder) (userId : String) (now : Stamp)
  | images (files : Option (List MulterFile)) (folder : StorageFolder) (userId : String)
      (now : ℕ → Stamp)

/-- The files the request is about. -/
def UploadRequest.files : UploadRequest → List MulterFile
  | image files .. => (files.getD []).take 1
  | images files .. => files.getD []

namespace UploadRuns

/-- The handler of a request. -/
def handler : UploadRequest → Storing
  | .image files folder userId now => StorageController.uploadOne files folder userId now
  | .images files folder userId now => StorageController.uploadMany files folder userId now

/-- Where a request is: what it does next, and the results of the uploads it waits for. -/
structure Stage where
  next : Storing
  results : List (Option (Except Exception UploadedImage))

/-- A method goes on: the uploads it starts have not settled. -/
def Stage.start (p : Storing) : Stage where
  next := p
  results := match p with
    | .allSettled uploads _ => uploads.map fun _ => none
    | _ => []

/-- The bucket, and the requests in the order of their arrival. -/
structure State where
  bucket : Bucket
  sessions : List (UploadRequest × Stage)

inductive Action where
  | submit (q : UploadRequest)
  /-- the storage answers upload `j` of request `i` -/
  | settle (i j : ℕ) (error : Option String)
  /-- the uploads of request `i` have all settled -/
  | resume (i : ℕ)
  /-- the storage answers the removal of request `i` -/
  | remove (i : ℕ) (error : Option String)

namespace State

def init (bucket : Bucket) : State := ⟨bucket, []⟩

variable (getPublicUrl : String → String)

/-- One step; `none` if the action is not possible. -/
def step (s : State) : Action → Option State
  | .submit q => some { s with sessions := s.sessions ++ [(q, .start (handler q))] }
  | .settle i j error =>
    match s.sessions[i]? with
    | some (q, ⟨.allSettled uploads k, results⟩) =>
      (AllSettled.State.settle (StorageService.putSettles getPublicUrl) uploads ⟨s.bucket, results⟩
        (j, error)).map fun p =>
          ⟨p.store, s.sessions.set i (q, ⟨.allSettled uploads k, p.results⟩)⟩
    | _ => none
  | .resume i =>
    match s.sessions[i]? with
    | some (q, ⟨.allSettled _ k, results⟩) =>
      (results.mapM id).map fun results => { s with sessions := s.sessions.set i (q, .start (k results)) }
    | _ => none
  | .remove i error =>
    match s.sessions[i]? with
    | some (q, ⟨.remove paths k, _⟩) =>
      some ⟨s.bucket.remove paths error, s.sessions.set i (q, .start k)⟩
    | _ => none

/-- The state after the actions, if they are all possible. -/
def run (s : State) : List Action → Option State
  | [] => some s
  | a :: as => (s.step getPublicUrl a).bind fun s' => s'.run as

end State

end UploadRuns

end Marketplace
