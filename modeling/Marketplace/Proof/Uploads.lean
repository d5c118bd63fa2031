/-
  The upload of a batch is all or nothing, in whatever order its uploads settle.
-/
import Marketplace.Uploads

namespace Marketplace

open StorageService

variable {getPublicUrl : String → String} {files : Option (List MulterFile)} {file : MulterFile}
  {folder : StorageFolder} {ownerId : String} {now : ℕ → Stamp} {us : List Upload} {u : Upload}
  {b : Bucket}

/-! ## The uploads a method starts -/

theorem validateImage_ok {mimeType : AllowedImageMimeType} :
    validateImage (some file) = .ok mimeType ↔ ∃ buffer, file.buffer = some buffer ∧
      file.size ≠ 0 ∧ file.size ≤ MAX_IMAGE_SIZE_BYTES ∧ detectImageType buffer = some mimeType := by
  obtain ⟨name, declared, size, buffer⟩ := file
  cases buffer with
  | none => simp [validateImage]
  | some buffer =>
    simp only [validateImage, Option.some.injEq, exists_eq_left']
    by_cases h₀ : size = 0
    · simp [h₀]
    · by_cases hmax : size ≤ MAX_IMAGE_SIZE_BYTES
      · cases detectImageType buffer <;> simp [h₀, Nat.not_lt.2 hmax, hmax]
      · simp [h₀, hmax, Nat.lt_of_not_le hmax]

/-- `AllValid files types`: every file passes validation, with these types. -/
def AllValid (files : List MulterFile) (types : List AllowedImageMimeType) : Prop :=
  List.Forall₂ (fun file mimeType => validateImage (some file) = .ok mimeType) files types

theorem AllValid.get {fs : List MulterFile} {types : List AllowedImageMimeType}
    (h : AllValid fs types) {i : ℕ} {mimeType : AllowedImageMimeType} (hf : fs[i]? = some file)
    (ht : types[i]? = some mimeType) : validateImage (some file) = .ok mimeType := by
  induction h generalizing i with
  | nil => cases hf
  | cons hok _ ih =>
    cases i with
    | zero => cases hf; cases ht; exact hok
    | succ i => exact ih hf ht

theorem validateAll_cons (file : MulterFile) (fs : List MulterFile) :
    validateAll (file :: fs) =
      (validateImage (some file)).bind fun mimeType =>
        (validateAll fs).map fun validated => (file, mimeType) :: validated := by
  unfold validateAll
  rw [List.mapM_cons]
  cases validateImage (some file) with
  | error e => rfl
  | ok mimeType =>
    simp only [Except.map, Except.bind]
    rfl

theorem validateAll_ok {fs : List MulterFile} {validated : List (MulterFile × AllowedImageMimeType)}
    (h : validateAll fs = .ok validated) :
    ∃ types, AllValid fs types ∧ validated = fs.zip types := by
  induction fs generalizing validated with
  | nil => cases h; exact ⟨[], .nil, rfl⟩
  | cons file fs ih =>
    rw [validateAll_cons] at h
    cases hfile : validateImage (some file) with
    | error e => rw [hfile] at h; cases h
    | ok mimeType =>
      cases hfs : validateAll fs with
      | error e => rw [hfile, hfs] at h; cases h
      | ok rest =>
        rw [hfile, hfs] at h; cases h
        obtain ⟨types, hvalid, rfl⟩ := ih hfs
        exact ⟨mimeType :: types, .cons hfile hvalid, rfl⟩

theorem validateAll_error {fs : List MulterFile} {e : Exception} (h : validateAll fs = .error e) :
    ∃ file ∈ fs, ∀ mimeType, validateImage (some file) ≠ .ok mimeType := by
  induction fs with
  | nil => cases h
  | cons file fs ih =>
    rw [validateAll_cons] at h
    cases hfile : validateImage (some file) with
    | error e => exact ⟨file, by simp, by simp [hfile]⟩
    | ok mimeType =>
      cases hfs : validateAll fs with
      | error e' =>
        rw [hfile, hfs] at h; cases h
        obtain ⟨f, hf, hbad⟩ := ih hfs
        exact ⟨f, by simp [hf], hbad⟩
      | ok rest => rw [hfile, hfs] at h; cases h

/-- The batch is of a size that is allowed, and every file of it passes validation. -/
def Acceptable (fs : List MulterFile) : Prop :=
  fs ≠ [] ∧ fs.length ≤ MAX_IMAGES_PER_UPLOAD ∧
    ∀ file ∈ fs, ∃ mimeType, validateImage (some file) = .ok mimeType

/-- The uploads of a batch that passed validation: one of each file, with its type. -/
def startUploads (fs : List MulterFile) (types : List AllowedImageMimeType) (folder : StorageFolder)
    (ownerId : String) (now : ℕ → Stamp) : List Upload :=
  (fs.zip types).mapIdx fun i x => putObject x.1 x.2 folder ownerId (now i)

/-- What follows once the uploads of a batch have all settled. -/
def settledBatch (results : List (Except Exception UploadedImage)) : Storing :=
  match failure? results with
  | some reason => removeObjects ((fulfilled results).map UploadedImage.path) (.throw reason)
  | none => .done (fulfilled results)

/-- A batch is refused at once, or all its uploads are started: one of each file, with its bytes and
    its type. -/
theorem uploadImages_cases (files : Option (List MulterFile))
    (folder : StorageFolder) (ownerId : String) (now : ℕ → Stamp) :
    (¬ Acceptable (files.getD []) ∧
        ∃ e, uploadImages files folder ownerId now = .throw e) ∨
      (Acceptable (files.getD []) ∧ ∃ types, AllValid (files.getD []) types ∧
        uploadImages files folder ownerId now =
          .allSettled (startUploads (files.getD []) types folder ownerId now) settledBatch) := by
  unfold uploadImages
  generalize files.getD [] = fs
  by_cases h₀ : fs.length = 0
  · exact Or.inl ⟨fun h => h.1 (List.length_eq_zero_iff.1 h₀), _, if_pos h₀⟩
  · by_cases hmax : fs.length > MAX_IMAGES_PER_UPLOAD
    · exact Or.inl ⟨fun h => absurd h.2.1 (Nat.not_le.2 hmax), _,
        (if_neg h₀).trans (if_pos hmax)⟩
    · cases hv : validateAll fs with
      | error e =>
        obtain ⟨file, hfile, hbad⟩ := validateAll_error hv
        refine Or.inl ⟨fun h => ?_, e, by simp only [if_neg h₀, if_neg hmax, hv]⟩
        obtain ⟨mimeType, hok⟩ := h.2.2 file hfile
        exact hbad mimeType hok
      | ok validated =>
        obtain ⟨types, hvalid, rfl⟩ := validateAll_ok hv
        refine Or.inr ⟨⟨fun h => h₀ (by rw [h]; rfl), Nat.le_of_not_gt hmax, fun file hfile => ?_⟩,
          types, hvalid, by simp only [if_neg h₀, if_neg hmax, hv]; rfl⟩
        obtain ⟨i, hi, rfl⟩ := List.mem_iff_getElem.1 hfile
        exact ⟨_, hvalid.get (List.getElem?_eq_getElem hi)
          (List.getElem?_eq_getElem (hvalid.length_eq ▸ hi))⟩

/-! ## Uploads that settle -/

/-- The upload `i` was fulfilled with `image`. -/
def Fulfilled (results : List (Option (Except Exception UploadedImage))) (i : ℕ)
    (image : UploadedImage) : Prop :=
  results[i]? = some (some (.ok image))

theorem fulfilled_set {results : List (Option (Except Exception UploadedImage))} {i j : ℕ}
    {r : Except Exception UploadedImage} {image : UploadedImage} (hi : results[i]? = some none) :
    Fulfilled (results.set i (some r)) j image ↔
      (j = i ∧ r = .ok image) ∨ Fulfilled results j image := by
  have hlt : i < results.length := (List.getElem?_eq_some_iff.1 hi).1
  unfold Fulfilled
  by_cases hj : i = j
  · subst hj
    simp only [List.getElem?_set_self hlt, hi, Option.some.injEq, reduceCtorEq, or_false, true_and]
  · rw [List.getElem?_set_ne hj]
    simp [Ne.symm hj]

/-- The bucket `b`, while uploads settle: what it held before is untouched, and each fulfilled
    upload has added its object, at a path that was free. -/
structure Settled (getPublicUrl : String → String) (us : List Upload) (b : Bucket)
    (p : AllSettled.State Bucket (Except Exception UploadedImage)) : Prop where
  stored : ∀ (i : ℕ) (image : UploadedImage), Fulfilled p.results i image → ∃ u, us[i]? = some u ∧
    image = ⟨getPublicUrl u.path, u.path, u.object.contentType, u.size⟩ ∧
    b u.path = none ∧ p.store u.path = some u.object
  distinct : ∀ (i j : ℕ) (image image' : UploadedImage), Fulfilled p.results i image →
    Fulfilled p.results j image' → image.path = image'.path → i = j
  frame : ∀ path, (∀ (i : ℕ) (image : UploadedImage), Fulfilled p.results i image →
    image.path ≠ path) → p.store path = b path

theorem Settled.start : Settled getPublicUrl us b (AllSettled.start us b) := by
  have hnone : ∀ (i : ℕ) (image : UploadedImage), ¬ Fulfilled (us.map fun _ => none) i image := by
    intro i image h
    rw [Fulfilled, List.getElem?_map] at h
    cases hi : us[i]? <;> rw [hi] at h <;> cases h
  exact ⟨fun i image h => (hnone i image h).elim, fun i _ image _ h => (hnone i image h).elim,
    fun _ _ => rfl⟩

theorem Settled.rejected {p : AllSettled.State Bucket (Except Exception UploadedImage)}
    (h : Settled getPublicUrl us b p) {i : ℕ} (hi : p.results[i]? = some none) (e : Exception) :
    Settled getPublicUrl us b ⟨p.store, p.results.set i (some (.error e))⟩ := by
  have hset : ∀ (j : ℕ) (image : UploadedImage),
      Fulfilled (p.results.set i (some (.error e))) j image ↔ Fulfilled p.results j image :=
    fun j image => by simp [fulfilled_set hi]
  exact
    { stored := fun j image hj => h.stored j image ((hset j image).1 hj)
      distinct := fun j k image image' hj hk =>
        h.distinct j k image image' ((hset j image).1 hj) ((hset k image').1 hk)
      frame := fun path hpath => h.frame path fun j image hj => hpath j image ((hset j image).2 hj) }

/-- A fulfilled upload has stored its object, so that its path is no longer free. -/
theorem Settled.not_free {p : AllSettled.State Bucket (Except Exception UploadedImage)}
    (h : Settled getPublicUrl us b p) {path : String} (hfree : p.store path = none) (j : ℕ)
    (image : UploadedImage) (hj : Fulfilled p.results j image) : image.path ≠ path := by
  rintro rfl
  obtain ⟨v, -, rfl, -, hst⟩ := h.stored j image hj
  exact absurd (hfree.symm.trans hst) nofun

theorem Settled.accepted {p : AllSettled.State Bucket (Except Exception UploadedImage)}
    (h : Settled getPublicUrl us b p) {i : ℕ} (hu : us[i]? = some u)
    (hi : p.results[i]? = some none) (hfree : p.store u.path = none) :
    Settled getPublicUrl us b ⟨Function.update p.store u.path (some u.object),
      p.results.set i (some (putAnswer getPublicUrl u none))⟩ where
  stored j image hj := by
    rcases (fulfilled_set hi).1 hj with ⟨rfl, himage⟩ | hj
    · cases himage
      have hb : b u.path = none := (h.frame u.path (h.not_free hfree)).symm.trans hfree
      exact ⟨u, hu, rfl, hb, Function.update_self _ _ _⟩
    · have hne := h.not_free hfree j image hj
      obtain ⟨v, hv, rfl, hbv, hst⟩ := h.stored j image hj
      exact ⟨v, hv, rfl, hbv, (Function.update_of_ne hne _ _).trans hst⟩
  distinct j k image image' hj hk hpath := by
    rcases (fulfilled_set hi).1 hj with ⟨hji, himage⟩ | hj <;>
      rcases (fulfilled_set hi).1 hk with ⟨hki, himage'⟩ | hk
    · rw [hji, hki]
    · cases himage
      exact absurd hpath.symm (h.not_free hfree k image' hk)
    · cases himage'
      exact absurd hpath (h.not_free hfree j image hj)
    · exact h.distinct j k image image' hj hk hpath
  frame path hpath := by
    have hne : u.path ≠ path := hpath i _ ((fulfilled_set hi).2 (Or.inl ⟨rfl, rfl⟩))
    exact (Function.update_of_ne (Ne.symm hne) _ _).trans
      (h.frame path fun j image hj => hpath j image ((fulfilled_set hi).2 (Or.inr hj)))

/-- **An upload that settles** with an error leaves the bucket, one that is fulfilled adds its
    object. -/
theorem Settled.settle {p : AllSettled.State Bucket (Except Exception UploadedImage)}
    (h : Settled getPublicUrl us b p) {i : ℕ} (hu : us[i]? = some u)
    (hi : p.results[i]? = some none) (error : Option String) :
    Settled getPublicUrl us b ⟨(putSettles getPublicUrl u error p.store).1,
      p.results.set i (some (putSettles getPublicUrl u error p.store).2)⟩ := by
  unfold putSettles Bucket.upload
  cases error with
  | some message => exact h.rejected hi _
  | none =>
    by_cases hfree : p.store u.path = none
    · simp only [if_pos hfree]
      exact h.accepted hu hi hfree
    · simp only [if_neg hfree]
      exact h.rejected hi _

theorem Settled.allSettled {es : List (ℕ × Option String)} {b' : Bucket}
    {results : List (Except Exception UploadedImage)}
    (h : AllSettled.allSettled (putSettles getPublicUrl) us b es = some (b', results)) :
    Settled getPublicUrl us b ⟨b', results.map some⟩ :=
  AllSettled.allSettled_induction .start (fun _ _ _ error hp hu hi => hp.settle hu hi error) h

/-! ## The batch -/

/-- The images of a batch, one of each file in the order of the files, each with its object in the
    bucket; nothing else has changed. -/
structure Uploaded (getPublicUrl : String → String) (fs : List MulterFile) (folder : StorageFolder)
    (ownerId : String) (now : ℕ → Stamp) (images : List UploadedImage) (b b' : Bucket) : Prop where
  length : images.length = fs.length
  each : ∀ (i : ℕ) (file : MulterFile), fs[i]? = some file → ∃ buffer mimeType path,
    file.buffer = some buffer ∧ detectImageType buffer = some mimeType ∧
    path = (putObject file mimeType folder ownerId (now i)).path ∧
    images[i]? = some ⟨getPublicUrl path, path, mimeType, file.size⟩ ∧
    b path = none ∧ b' path = some ⟨buffer, mimeType⟩
  distinct : (images.map UploadedImage.path).Nodup
  frame : ∀ path, path ∉ images.map UploadedImage.path → b' path = b path

theorem failure?_eq_none {results : List (Except Exception UploadedImage)}
    (h : failure? results = none) : results = (fulfilled results).map .ok := by
  induction results with
  | nil => rfl
  | cons r results ih =>
    cases r with
    | error e => cases h
    | ok image => exact congrArg (.ok image :: ·) (ih h)

theorem fulfilled_iff {results : List (Except Exception UploadedImage)} {i : ℕ}
    {image : UploadedImage} : Fulfilled (results.map some) i image ↔ results[i]? = some (.ok image) := by
  rw [Fulfilled, List.getElem?_map, Option.map_eq_some_iff]
  simp

theorem mem_fulfilled_paths {results : List (Except Exception UploadedImage)} {path : String} :
    path ∈ (fulfilled results).map UploadedImage.path ↔
      ∃ i image, Fulfilled (results.map some) i image ∧ image.path = path := by
  simp only [List.mem_map, fulfilled, List.mem_filterMap, fulfilled_iff]
  constructor
  · rintro ⟨image, ⟨r, hr, hok⟩, rfl⟩
    cases r with
    | error e => cases hok
    | ok image' =>
      cases hok
      obtain ⟨i, hi⟩ := List.mem_iff_getElem?.1 hr
      exact ⟨i, image, hi, rfl⟩
  · rintro ⟨i, image, hi, rfl⟩
    exact ⟨image, ⟨_, List.mem_iff_getElem?.2 ⟨i, hi⟩, rfl⟩, rfl⟩

/-- **A rollback** leaves the bucket as it was before the batch. -/
theorem Settled.rollback {results : List (Except Exception UploadedImage)} {b' : Bucket}
    (h : Settled getPublicUrl us b ⟨b', results.map some⟩) :
    b'.remove ((fulfilled results).map UploadedImage.path) none = b := by
  funext path
  show (if path ∈ (fulfilled results).map UploadedImage.path then none else b' path) = b path
  split_ifs with hpath
  · obtain ⟨i, image, hi, rfl⟩ := mem_fulfilled_paths.1 hpath
    obtain ⟨v, -, rfl, hb, -⟩ := h.stored i image hi
    exact hb.symm
  · exact h.frame path fun i image hi hp => hpath (mem_fulfilled_paths.2 ⟨i, image, hi, hp⟩)

theorem Settled.uploaded {fs : List MulterFile} {types : List AllowedImageMimeType}
    (hvalid : AllValid fs types) {images : List UploadedImage} {b' : Bucket}
    (h : Settled getPublicUrl (startUploads fs types folder ownerId now) b
      ⟨b', (images.map Except.ok).map some⟩) (hlen : images.length = fs.length) :
    Uploaded getPublicUrl fs folder ownerId now images b b' := by
  have hset : ∀ (i : ℕ) (image : UploadedImage),
      Fulfilled ((images.map Except.ok).map some) i image ↔ images[i]? = some image := fun i image => by
    rw [fulfilled_iff, List.getElem?_map, Option.map_eq_some_iff]
    simp
  refine ⟨hlen, fun i file hfile => ?_, ?_, fun path hpath => ?_⟩
  · have hi : i < fs.length := (List.getElem?_eq_some_iff.1 hfile).1
    have himage : images[i]? = some images[i] := List.getElem?_eq_getElem (hlen ▸ hi)
    obtain ⟨u, hu, hout, hb, hb'⟩ := h.stored i _ ((hset i _).2 himage)
    rw [startUploads, List.getElem?_mapIdx, Option.map_eq_some_iff] at hu
    obtain ⟨⟨file', mimeType⟩, hx, rfl⟩ := hu
    obtain ⟨hf, ht⟩ := List.getElem?_zip_eq_some.1 hx
    obtain rfl : file = file' := Option.some.inj (hfile.symm.trans hf)
    obtain ⟨buffer, hbuffer, -, -, hdetect⟩ := validateImage_ok.1 (hvalid.get hf ht)
    refine ⟨buffer, mimeType, _, hbuffer, hdetect, rfl, himage.trans (congrArg some hout), hb, ?_⟩
    exact hb'.trans (by rw [putObject, hbuffer]; rfl)
  · refine List.nodup_iff_getElem?_ne_getElem?.2 fun i j hij hj heq => ?_
    rw [List.length_map] at hj
    have hi : i < images.length := hij.trans hj
    rw [List.getElem?_map, List.getElem?_map, List.getElem?_eq_getElem hi,
      List.getElem?_eq_getElem hj] at heq
    refine absurd (h.distinct i j images[i] images[j] ?_ ?_ (Option.some.inj heq)) (Nat.ne_of_lt hij)
    · exact (hset i _).2 (List.getElem?_eq_getElem hi)
    · exact (hset j _).2 (List.getElem?_eq_getElem hj)
  · refine h.frame path fun i image hi hp => hpath ?_
    exact hp ▸ List.mem_map_of_mem (List.mem_iff_getElem?.2 ⟨i, (hset i image).1 hi⟩)

/-- An upload the method attempts, in whatever way the uploads before it settle. -/
inductive Attempts : Storing → Upload → Prop
  | upload {us k u} : u ∈ us → Attempts (.allSettled us k) u
  | settled {us k results u} : Attempts (k results) u → Attempts (.allSettled us k) u
  | removed {paths k u} : Attempts k u → Attempts (.remove paths k) u

/-- The uploads of a batch all settle, and what follows leaves the bucket with all of their objects
    or with none. -/
theorem settledBatch_run {fs : List MulterFile} {types : List AllowedImageMimeType}
    (hvalid : AllValid fs types) {results : List (Except Exception UploadedImage)} {b' : Bucket}
    (h : Settled getPublicUrl (startUploads fs types folder ownerId now) b ⟨b', results.map some⟩)
    (hlen : results.length = fs.length) (es : List (ℕ × Option String)) :
    ∃ reply b'', (settledBatch results).run getPublicUrl es none b' = some (reply, b'') ∧
      match reply with
      | .ok images => Uploaded getPublicUrl fs folder ownerId now images b b''
      | .error _ => b'' = b := by
  unfold settledBatch
  cases hfail : failure? results with
  | none =>
    have hall := failure?_eq_none hfail
    refine ⟨_, _, rfl, ?_⟩
    rw [hall] at h hlen
    exact h.uploaded hvalid (by simpa using hlen)
  | some reason =>
    have hroll := h.rollback
    simp only [removeObjects, List.length_eq_zero_iff]
    split_ifs with hpaths
    · refine ⟨_, _, rfl, ?_⟩
      rw [hpaths] at hroll
      have hsame : b'.remove [] none = b' := by
        funext path
        simp [Bucket.remove]
      exact hsame.symm.trans hroll
    · exact ⟨_, _, rfl, hroll⟩

/-- **A batch upload is all or nothing.**  Whatever the outcome of each upload, and in whatever order
    they settle: the batch returns one image of each file, in their order, and exactly their objects
    have been added to the bucket; or it throws, and the bucket is as before.  Nothing is uploaded
    unless the batch is of a size that is allowed and all its files pass validation. -/
theorem uploadImages_all_or_nothing (getPublicUrl : String → String)
    (files : Option (List MulterFile)) (folder : StorageFolder) (ownerId : String) (now : ℕ → Stamp)
    (es : List (ℕ × Option String)) (b : Bucket)
    (hes : (es.map Prod.fst).Perm (List.range (files.getD []).length)) :
    (∃ reply b', (uploadImages files folder ownerId now).run getPublicUrl es none b = some (reply, b') ∧
      match reply with
      | .ok images => Uploaded getPublicUrl (files.getD []) folder ownerId now images b b'
      | .error _ => b' = b) ∧
    (¬ Acceptable (files.getD []) → ∀ u, ¬ Attempts (uploadImages files folder ownerId now) u) := by
  rcases uploadImages_cases files folder ownerId now with ⟨-, e, hrun⟩ | ⟨hacc, types, hvalid, hrun⟩
  · rw [hrun]
    exact ⟨⟨_, _, rfl, rfl⟩, fun _ u h => nomatch h⟩
  · refine ⟨?_, fun h => absurd hacc h⟩
    rw [hrun, Storing.run]
    have hlen : (startUploads (files.getD []) types folder ownerId now).length =
        (files.getD []).length := by
      rw [startUploads, List.length_mapIdx, List.length_zip, ← hvalid.length_eq, Nat.min_self]
    obtain ⟨b', results, hset⟩ : ∃ b' results, AllSettled.allSettled (putSettles getPublicUrl)
        (startUploads (files.getD []) types folder ownerId now) b es = some (b', results) :=
      AllSettled.exists_allSettled (by rwa [hlen])
    rw [hset]
    exact settledBatch_run hvalid (.allSettled hset)
      ((AllSettled.allSettled_length hset).trans hlen) es

def samplePhoto : MulterFile := ⟨"photo.jpg", "image/jpg", 4, some [0xff, 0xd8, 0xff, 0x00]⟩

def sampleScan : MulterFile :=
  ⟨"scan.png", "image/png", 8, some [0x89, 0x50, 0x4e, 0x47, 0x0d, 0x0a, 0x1a, 0x0a]⟩

def sampleStamps (i : ℕ) : Stamp := ⟨2026, 0, toString i⟩

/-- Two files, of which the second is stored first. -/
theorem uploadImages_sample :
    (∃ reply b', (uploadImages (some [samplePhoto, sampleScan]) .items "EMP1" sampleStamps).run id
        [(1, none), (0, none)] none (fun _ => none) = some (reply, b') ∧
      match reply with
      | .ok images => Uploaded id [samplePhoto, sampleScan] .items "EMP1" sampleStamps images
          (fun _ => none) b'
      | .error _ => b' = fun _ => none) ∧
    (¬ Acceptable [samplePhoto, sampleScan] →
      ∀ u, ¬ Attempts (uploadImages (some [samplePhoto, sampleScan]) .items "EMP1" sampleStamps) u) :=
  uploadImages_all_or_nothing id (some [samplePhoto, sampleScan]) .items "EMP1" sampleStamps
    [(1, none), (0, none)] (fun _ => none) (by decide)

end Marketplace
