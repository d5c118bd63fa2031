/-
  Upload requests do not get in each other's way.

  An upload never replaces an object, so whoever stores one owns it: the request
  that removes an object is the one that has stored it.
-/
import Marketplace.UploadRuns
import Marketplace.Proof.Uploads
import Marketplace.Lib.Owners

namespace Marketplace.UploadRuns

open StorageService

variable {getPublicUrl : String → String} {uploads : List Upload}
  {results : List (Option (Except Exception UploadedImage))}

/-! ## What a request has stored -/

/-- The objects of the uploads that have been fulfilled. -/
def stored (uploads : List Upload) (results : List (Option (Except Exception UploadedImage))) :
    List (String × StoredObject) :=
  (uploads.zip results).filterMap fun x =>
    (x.2.bind Except.toOption).map fun _ => (x.1.path, x.1.object)

theorem stored_start (uploads : List Upload) : stored uploads (uploads.map fun _ => none) = [] := by
  induction uploads with
  | nil => rfl
  | cons u uploads ih => exact ih

theorem stored_cons (u : Upload) (r : Option (Except Exception UploadedImage)) :
    stored (u :: uploads) (r :: results) =
      ((r.bind Except.toOption).map fun _ => (u.path, u.object)).toList ++ stored uploads results := by
  rw [stored, List.zip_cons_cons, List.filterMap_cons]
  cases (r.bind Except.toOption).map fun _ => (u.path, u.object) <;> rfl

theorem stored_error {j : ℕ} (hj : results[j]? = some none) (e : Exception) :
    stored uploads (results.set j (some (.error e))) = stored uploads results := by
  induction uploads generalizing results j with
  | nil => rfl
  | cons u uploads ih =>
    cases results with
    | nil => rfl
    | cons r results =>
      cases j with
      | zero =>
        cases hj
        rw [List.set_cons_zero, stored_cons, stored_cons]
        rfl
      | succ j => rw [List.set_cons_succ, stored_cons, stored_cons, ih (j := j) hj]

theorem stored_ok {j : ℕ} {u : Upload} (hu : uploads[j]? = some u) (hj : results[j]? = some none)
    (image : UploadedImage) : (stored uploads (results.set j (some (.ok image)))).Perm
      ((u.path, u.object) :: stored uploads results) := by
  induction uploads generalizing results j with
  | nil => cases hu
  | cons v uploads ih =>
    cases results with
    | nil => cases hj
    | cons r results =>
      cases j with
      | zero =>
        cases hu; cases hj
        rw [List.set_cons_zero, stored_cons, stored_cons]
        exact .refl _
      | succ j =>
        rw [List.set_cons_succ, stored_cons, stored_cons]
        exact ((ih hu hj).append_left _).trans List.perm_middle

theorem mem_stored {j : ℕ} {u : Upload} {image : UploadedImage} (hu : uploads[j]? = some u)
    (hj : Fulfilled results j image) : (u.path, u.object) ∈ stored uploads results := by
  refine List.mem_filterMap.2 ⟨(u, some (.ok image)), ?_, rfl⟩
  exact List.mem_of_getElem? (List.getElem?_zip_eq_some.2 ⟨hu, hj⟩)

variable (getPublicUrl) in
/-- The images are those of the uploads, as far as they have been fulfilled. -/
structure Answered (uploads : List Upload) (results : List (Option (Except Exception UploadedImage))) :
    Prop where
  length : results.length = uploads.length
  each : ∀ (j : ℕ) u image, uploads[j]? = some u → Fulfilled results j image →
    image = ⟨getPublicUrl u.path, u.path, u.object.contentType, u.size⟩

theorem Answered.start : Answered getPublicUrl uploads (uploads.map fun _ => none) := by
  refine ⟨List.length_map _, fun j u image hu h => ?_⟩
  rw [Fulfilled, List.getElem?_map, hu] at h
  cases h

theorem Answered.set (h : Answered getPublicUrl uploads results) {j : ℕ} {u : Upload}
    (hu : uploads[j]? = some u) (hj : results[j]? = some none) (error : Option String) :
    Answered getPublicUrl uploads (results.set j (some (putAnswer getPublicUrl u error))) := by
  refine ⟨(List.length_set ..).trans h.length, fun k v image hv hk => ?_⟩
  rcases (fulfilled_set hj).1 hk with ⟨rfl, himage⟩ | hk
  · rw [hu] at hv; cases hv
    cases error with
    | some => cases himage
    | none => cases himage; rfl
  · exact h.each k v image hv hk

theorem Answered.paths {rs : List (Except Exception UploadedImage)}
    (h : Answered getPublicUrl uploads (rs.map some)) :
    (fulfilled rs).map UploadedImage.path = (stored uploads (rs.map some)).map Prod.fst := by
  induction uploads generalizing rs with
  | nil =>
    have hlen := h.length
    rw [List.length_map] at hlen
    rw [List.length_eq_zero_iff.1 hlen]
    rfl
  | cons u uploads ih =>
    cases rs with
    | nil => cases h.length
    | cons r rs =>
      have htail := ih ⟨Nat.succ.inj h.length, fun j v image hv hf => h.each (j + 1) v image hv hf⟩
      rw [List.map_cons, stored_cons]
      cases r with
      | error e => exact htail
      | ok image =>
        have himage := h.each 0 u image rfl rfl
        refine List.cons_eq_cons.2 ⟨?_, htail⟩
        rw [himage]

/-! ## What a request accounts for -/

section
variable (getPublicUrl) (R : List UploadedImage → List (String × StoredObject) → Prop)

/-- A method with objects of its own in the bucket accounts for them: it removes them before it throws,
    and what it returns is related to them by `R`. -/
def Accounts : Storing → List (String × StoredObject) → Prop
  | .throw _, l => l = []
  | .done images, l => R images l
  | .remove paths k, l => (∀ path, path ∈ paths ↔ path ∈ l.map Prod.fst) ∧ Accounts k []
  | .allSettled uploads k, l => l = [] ∧ ∀ results, Answered getPublicUrl uploads (results.map some) →
      Accounts (k results) (stored uploads (results.map some))

/-- A request that has stored the objects `l` accounts for them. -/
def Stage.Holds (st : Stage) (l : List (String × StoredObject)) : Prop :=
  match st.next with
  | .allSettled uploads k => l = stored uploads st.results ∧ Answered getPublicUrl uploads st.results ∧
      ∀ results, Answered getPublicUrl uploads (results.map some) →
        Accounts getPublicUrl R (k results) (stored uploads (results.map some))
  | p => Accounts getPublicUrl R p l

variable {getPublicUrl R}

theorem Stage.Holds.start {p : Storing} {l : List (String × StoredObject)}
    (h : Accounts getPublicUrl R p l) : (Stage.start p).Holds getPublicUrl R l := by
  cases p with
  | throw | done | remove => exact h
  | allSettled uploads k => exact ⟨h.1.trans (stored_start uploads).symm, .start, h.2⟩

end

/-! ## The handlers -/

variable (getPublicUrl) in
/-- What a request returns: an image of each file, and the object that holds its bytes. -/
structure Returns (q : UploadRequest) (images : List UploadedImage) (l : List (String × StoredObject)) :
    Prop where
  length : images.length = q.files.length
  paths : images.map UploadedImage.path = l.map Prod.fst
  each : ∀ (i : ℕ) file, q.files[i]? = some file → ∃ buffer mimeType path,
    file.buffer = some buffer ∧ detectImageType buffer = some mimeType ∧
    images[i]? = some ⟨getPublicUrl path, path, mimeType, file.size⟩ ∧
    (path, ⟨buffer, mimeType⟩) ∈ l

theorem Returns.of_answered {q : UploadRequest} {types : List AllowedImageMimeType}
    {folder : StorageFolder} {ownerId : String} {now : ℕ → Stamp} {images : List UploadedImage}
    (hvalid : AllValid q.files types)
    (h : Answered getPublicUrl (startUploads q.files types folder ownerId now)
      ((images.map Except.ok).map some)) :
    Returns getPublicUrl q images
      (stored (startUploads q.files types folder ownerId now) ((images.map Except.ok).map some)) := by
  have hlen : images.length = q.files.length := by
    have hlen := h.length
    rwa [List.length_map, List.length_map, startUploads, List.length_mapIdx, List.length_zip,
      ← hvalid.length_eq, Nat.min_self] at hlen
  have hfulfilled : fulfilled (images.map Except.ok) = images := by
    rw [fulfilled, List.filterMap_map]
    exact List.filterMap_some
  refine ⟨hlen, ?_, fun i file hfile => ?_⟩
  · rw [← h.paths, hfulfilled]
  · have hi : i < q.files.length := (List.getElem?_eq_some_iff.1 hfile).1
    have hi' : i < types.length := hvalid.length_eq ▸ hi
    have htype : types[i]? = some types[i] := List.getElem?_eq_getElem hi'
    have himage : images[i]? = some images[i] := List.getElem?_eq_getElem (hlen ▸ hi)
    have hu : (startUploads q.files types folder ownerId now)[i]? =
        some (putObject file types[i] folder ownerId (now i)) := by
      have hzip : (q.files.zip types)[i]? = some (file, types[i]) :=
        List.getElem?_zip_eq_some.2 ⟨hfile, htype⟩
      rw [startUploads, List.getElem?_mapIdx, hzip]
      rfl
    have hf : Fulfilled ((images.map Except.ok).map some) i images[i] := by
      rw [Fulfilled, List.getElem?_map, List.getElem?_map, himage]
      rfl
    obtain ⟨buffer, hbuffer, -, -, hdetect⟩ := validateImage_ok.1 (hvalid.get hfile htype)
    refine ⟨buffer, types[i], _, hbuffer, hdetect, himage.trans (congrArg some (h.each i _ _ hu hf)), ?_⟩
    have hmem := mem_stored hu hf
    rwa [putObject, hbuffer] at hmem

theorem uploadImage_cases (file : MulterFile) (folder : StorageFolder) (ownerId : String)
    (now : Stamp) :
    (∃ e, uploadImage (some file) folder ownerId now = .throw e) ∨
    ∃ mimeType k, validateImage (some file) = .ok mimeType ∧
      uploadImage (some file) folder ownerId now =
        .allSettled [putObject file mimeType folder ownerId now] k ∧
      (∀ e, k [.error e] = .throw e) ∧ ∀ image, k [.ok image] = .done [image] := by
  unfold uploadImage
  cases hv : validateImage (some file) with
  | error e => exact Or.inl ⟨e, rfl⟩
  | ok mimeType => exact Or.inr ⟨mimeType, _, rfl, rfl, fun _ => rfl, fun _ => rfl⟩

theorem uploadOne_accounts (files : Option (List MulterFile)) (folder : StorageFolder)
    (userId : String) (now : Stamp) :
    Accounts getPublicUrl (Returns getPublicUrl (.image files folder userId now))
      (StorageController.uploadOne files folder userId now) [] := by
  unfold StorageController.uploadOne
  cases hfiles : files.getD [] with
  | nil => exact rfl
  | cons file rest =>
    rw [List.head?_cons]
    rcases uploadImage_cases file folder userId now with ⟨e, he⟩ | ⟨mimeType, k, hv, he, herror, hok⟩
    · simp only [he]
      exact rfl
    · simp only [he]
      refine ⟨rfl, fun results h => ?_⟩
      have hq : (UploadRequest.image files folder userId now).files = [file] := by
        rw [UploadRequest.files, hfiles]
        rfl
      have hvalid : AllValid (UploadRequest.image files folder userId now).files [mimeType] := by
        rw [hq]
        exact .cons hv .nil
      obtain ⟨r, rfl⟩ := List.length_eq_one_iff.1 ((List.length_map some).symm.trans h.length)
      cases r with
      | error e =>
        rw [herror]
        exact rfl
      | ok image =>
        rw [hok]
        have hreturns : Answered getPublicUrl (startUploads
              (UploadRequest.image files folder userId now).files [mimeType] folder userId fun _ => now)
            (([image].map Except.ok).map some) → _ := Returns.of_answered hvalid
        rw [hq] at hreturns
        exact hreturns h

theorem settledBatch_accounts {R : List UploadedImage → List (String × StoredObject) → Prop}
    {rs : List (Except Exception UploadedImage)} (h : Answered getPublicUrl uploads (rs.map some))
    (hR : failure? rs = none → R (fulfilled rs) (stored uploads (rs.map some))) :
    Accounts getPublicUrl R (settledBatch rs) (stored uploads (rs.map some)) := by
  unfold settledBatch
  cases hfail : failure? rs with
  | none => exact hR hfail
  | some reason =>
    simp only [removeObjects, List.length_eq_zero_iff]
    rw [h.paths]
    split_ifs with hnil
    · exact List.map_eq_nil_iff.1 hnil
    · exact ⟨fun _ => Iff.rfl, rfl⟩

theorem uploadMany_accounts (files : Option (List MulterFile)) (folder : StorageFolder)
    (userId : String) (now : ℕ → Stamp) :
    Accounts getPublicUrl (Returns getPublicUrl (.images files folder userId now))
      (StorageController.uploadMany files folder userId now) [] := by
  unfold StorageController.uploadMany
  rcases uploadImages_cases (some (files.getD [])) folder userId now with
    ⟨-, e, he⟩ | ⟨-, types, hvalid, he⟩
  · rw [he]
    exact rfl
  · rw [he]
    refine ⟨rfl, fun rs h => settledBatch_accounts h fun hfail => ?_⟩
    rw [failure?_eq_none hfail] at h
    have hreturns := Returns.of_answered (q := .images files folder userId now) hvalid h
    rwa [← failure?_eq_none hfail] at hreturns

theorem handler_accounts (q : UploadRequest) :
    Accounts getPublicUrl (Returns getPublicUrl q) (handler q) [] := by
  cases q with
  | image => exact uploadOne_accounts ..
  | images => exact uploadMany_accounts ..

/-! ## Runs -/

variable {base b₀ : Bucket} {owned : List (List (String × StoredObject))} {s s' : State} {a : Action}
  {acts : List Action}

variable (getPublicUrl) in
/-- Every request owns the objects it accounts for; what is in the bucket besides is `base`. -/
structure Inv (base : Bucket) (owned : List (List (String × StoredObject))) (s : State) : Prop where
  owners : Owners base s.bucket owned
  length : owned.length = s.sessions.length
  holds : ∀ (i : ℕ) q st, s.sessions[i]? = some (q, st) →
    ∃ l, owned[i]? = some l ∧ st.Holds getPublicUrl (Returns getPublicUrl q) l

theorem Inv.init (b₀ : Bucket) : Inv getPublicUrl b₀ [] (.init b₀) :=
  ⟨.init b₀, rfl, by simp [State.init]⟩

theorem Inv.submit (h : Inv getPublicUrl base owned s) (q : UploadRequest) :
    Inv getPublicUrl base (owned ++ [[]])
      { s with sessions := s.sessions ++ [(q, .start (handler q))] } := by
  refine ⟨h.owners.join, by simp [h.length], fun i q' st hi => ?_⟩
  rw [List.getElem?_append] at hi ⊢
  rw [h.length]
  split_ifs at hi ⊢ with hlt
  · exact h.holds i q' st hi
  · have hlast : i - s.sessions.length = 0 := by
      have := (List.getElem?_eq_some_iff.1 hi).1
      rw [List.length_singleton] at this
      omega
    rw [hlast] at hi ⊢
    cases hi
    exact ⟨[], rfl, .start (handler_accounts q)⟩

theorem Inv.set (h : Inv getPublicUrl base owned s) {base' bucket : Bucket} {i : ℕ} {q : UploadRequest}
    {st st' : Stage} {l : List (String × StoredObject)} (hi : s.sessions[i]? = some (q, st))
    (howners : Owners base' bucket (owned.set i l))
    (hst : st'.Holds getPublicUrl (Returns getPublicUrl q) l) :
    Inv getPublicUrl base' (owned.set i l) ⟨bucket, s.sessions.set i (q, st')⟩ := by
  refine ⟨howners, by simp [h.length], fun j q' st₁ hj => ?_⟩
  by_cases hij : i = j
  · subst hij
    have hlt : i < s.sessions.length := (List.getElem?_eq_some_iff.1 hi).1
    rw [List.getElem?_set_self hlt] at hj
    cases hj
    exact ⟨l, List.getElem?_set_self (h.length ▸ hlt), hst⟩
  · rw [List.getElem?_set_ne hij] at hj ⊢
    exact h.holds j q' st₁ hj

/-- Objects are left behind by a removal that fails. -/
def Action.leaves : Action → Bool
  | .remove _ (some _) => true
  | _ => false

variable (getPublicUrl) in
/-- An upload settles with an error, or puts its object under a free path. -/
theorem putSettles_cases (u : Upload) (error : Option String) (b : Bucket) :
    (∃ e, putSettles getPublicUrl u error b = (b, .error e)) ∨
    error = none ∧ b u.path = none ∧ ∃ image, putSettles getPublicUrl u error b =
      (Function.update b u.path (some u.object), .ok image) := by
  unfold putSettles Bucket.upload
  cases error with
  | some => exact Or.inl ⟨_, rfl⟩
  | none =>
    dsimp only
    split_ifs with hfree
    · exact Or.inr ⟨rfl, hfree, _, rfl⟩
    · exact Or.inl ⟨_, rfl⟩

/-- An upload that settles adds its object to those of its request, or nothing. -/
theorem owners_settle (h : Owners base s.bucket owned) {i j : ℕ} {u : Upload}
    (hi : owned[i]? = some (stored uploads results)) (hu : uploads[j]? = some u)
    (hj : results[j]? = some none) (error : Option String) :
    Owners base (putSettles getPublicUrl u error s.bucket).1
      (owned.set i (stored uploads
        (results.set j (some (putSettles getPublicUrl u error s.bucket).2)))) := by
  rcases putSettles_cases getPublicUrl u error s.bucket with
    ⟨e, he⟩ | ⟨-, hfree, image, he⟩ <;> rw [he]
  · rw [stored_error hj, Owners.set_same hi]
    exact h
  · exact h.put hi hfree (stored_ok hu hj _)

theorem mem_stored_settle {j : ℕ} {u : Upload} (hu : uploads[j]? = some u)
    (hj : results[j]? = some none) {error : Option String} {x : String × StoredObject}
    (hx : x ∈ stored uploads (results.set j (some (putSettles getPublicUrl u error s.bucket).2))) :
    x ∈ stored uploads results ∨ error = none ∧ s.bucket x.1 = none ∧
      (putSettles getPublicUrl u error s.bucket).1 x.1 = some x.2 := by
  rcases putSettles_cases getPublicUrl u error s.bucket with
    ⟨e, he⟩ | ⟨herror, hfree, image, he⟩ <;> rw [he] at hx
  · rw [stored_error hj] at hx
    exact Or.inl hx
  · rcases List.mem_cons.1 ((stored_ok hu hj _).mem_iff.1 hx) with rfl | hx
    · rw [he]
      exact Or.inr ⟨herror, hfree, Function.update_self ..⟩
    · exact Or.inl hx

/-- The action is an upload of request `i` that puts an object under a path that is free. -/
structure Puts (getPublicUrl : String → String) (s s' : State) (i : ℕ) (a : Action)
    (x : String × StoredObject) : Prop where
  settle : ∃ j, a = .settle i j none
  step : s.step getPublicUrl a = some s'
  free : s.bucket x.1 = none
  put : s'.bucket x.1 = some x.2

/-- Whatever a request has after a step, it has had before, or its upload has just put it there. -/
def Gains (getPublicUrl : String → String) (owned owned' : List (List (String × StoredObject)))
    (s s' : State) (a : Action) : Prop :=
  ∀ (i : ℕ) l', owned'[i]? = some l' → ∀ x ∈ l',
    (∃ l, owned[i]? = some l ∧ x ∈ l) ∨ Puts getPublicUrl s s' i a x

theorem Gains.set {i : ℕ} {l' : List (String × StoredObject)}
    (h : ∀ x ∈ l', (∃ l, owned[i]? = some l ∧ x ∈ l) ∨ Puts getPublicUrl s s' i a x) :
    Gains getPublicUrl owned (owned.set i l') s s' a := by
  intro j m hj x hx
  rcases Owners.set_cases hj with ⟨rfl, rfl⟩ | ⟨-, hj⟩
  · exact h x hx
  · exact Or.inl ⟨m, hj, hx⟩

theorem Inv.step (h : Inv getPublicUrl base owned s) (hs : s.step getPublicUrl a = some s') :
    ∃ base' owned', Inv getPublicUrl base' owned' s' ∧
      (∀ path object, base path = some object → base' path = some object) ∧
      (a.leaves = false → base' = base) ∧ Gains getPublicUrl owned owned' s s' a := by
  cases a with
  | submit q =>
    cases hs
    refine ⟨base, _, h.submit q, fun _ _ h => h, fun _ => rfl, fun i l hi x hx => ?_⟩
    rw [List.getElem?_append] at hi
    split_ifs at hi
    · exact Or.inl ⟨l, hi, hx⟩
    · rw [List.mem_singleton.1 (List.mem_of_getElem? hi)] at hx
      cases hx
  | settle i j error =>
    have hstep := hs
    simp only [State.step] at hs
    split at hs
    · rename_i q uploads k results hi
      obtain ⟨p, hp, rfl⟩ := Option.map_eq_some_iff.1 hs
      obtain ⟨u, hu, hj, rfl⟩ := AllSettled.settle_eq_some hp
      obtain ⟨l, hl, rfl, hans, hk⟩ := h.holds i q _ hi
      refine ⟨base, _, h.set hi (owners_settle h.owners hl hu hj error) ⟨rfl, hans.set hu hj _, hk⟩,
        fun _ _ h => h, fun _ => rfl, .set fun x hx => ?_⟩
      rcases mem_stored_settle hu hj hx with hx | ⟨rfl, hfree, hput⟩
      · exact Or.inl ⟨_, hl, hx⟩
      · exact Or.inr ⟨⟨j, rfl⟩, hstep, hfree, hput⟩
    · cases hs
  | resume i =>
    simp only [State.step] at hs
    split at hs
    · rename_i q uploads k results hi
      obtain ⟨rs, hrs, rfl⟩ := Option.map_eq_some_iff.1 hs
      obtain rfl := AllSettled.mapM_id_eq_some.1 hrs
      obtain ⟨l, hl, rfl, hans, hk⟩ := h.holds i q _ hi
      refine ⟨base, _, h.set hi ?_ (.start (hk rs hans)), fun _ _ h => h, fun _ => rfl,
        .set fun x hx => Or.inl ⟨_, hl, hx⟩⟩
      rw [Owners.set_same hl]
      exact h.owners
    · cases hs
  | remove i error =>
    simp only [State.step] at hs
    split at hs
    · rename_i q paths k results hi
      cases hs
      obtain ⟨l, hl, hpaths, hk⟩ := h.holds i q _ hi
      have hgains : ∀ s', Gains getPublicUrl owned (owned.set i []) s s' (.remove i error) :=
        fun s' => .set (by simp)
      cases error with
      | none =>
        exact ⟨base, _, h.set hi (h.owners.clear hl hpaths) (.start hk), fun _ _ h => h, fun _ => rfl,
          hgains _⟩
      | some message =>
        refine ⟨_, _, h.set hi (h.owners.abandon hl) (.start hk), fun path object hpath => ?_, nofun,
          hgains _⟩
        split_ifs
        · exact h.owners.kept hpath
        · exact hpath
    · cases hs

/-- In the run, an upload of request `i` has put the object under a path that was free. -/
def State.HasPut (getPublicUrl : String → String) (s : State) (acts : List Action) (i : ℕ)
    (x : String × StoredObject) : Prop :=
  ∃ before a after s₁ s₂, acts = before ++ a :: after ∧ s.run getPublicUrl before = some s₁ ∧
    Puts getPublicUrl s₁ s₂ i a x

theorem State.HasPut.cons {i : ℕ} {x : String × StoredObject} (hs : s.step getPublicUrl a = some s')
    (h : s'.HasPut getPublicUrl acts i x) : s.HasPut getPublicUrl (a :: acts) i x := by
  obtain ⟨before, b, after, s₁, s₂, rfl, hrun, hput⟩ := h
  exact ⟨a :: before, b, after, s₁, s₂, rfl, by rw [State.run, hs]; exact hrun, hput⟩

theorem Inv.run (h : Inv getPublicUrl base owned s) (hrun : s.run getPublicUrl acts = some s') :
    ∃ base' owned', Inv getPublicUrl base' owned' s' ∧
      (∀ path object, base path = some object → base' path = some object) ∧
      ((∀ a ∈ acts, a.leaves = false) → base' = base) ∧
      ∀ (i : ℕ) l', owned'[i]? = some l' → ∀ x ∈ l',
        (∃ l, owned[i]? = some l ∧ x ∈ l) ∨ s.HasPut getPublicUrl acts i x := by
  induction acts generalizing s base owned with
  | nil =>
    cases hrun
    exact ⟨base, owned, h, fun _ _ h => h, fun _ => rfl, fun i l hl x hx => Or.inl ⟨l, hl, hx⟩⟩
  | cons a acts ih =>
    obtain ⟨s₁, hs, hrun⟩ := Option.bind_eq_some_iff.1 hrun
    obtain ⟨base₁, owned₁, h₁, hkept, hsame, hgains⟩ := h.step hs
    obtain ⟨base', owned', h', hkept', hsame', hputs⟩ := ih h₁ hrun
    refine ⟨base', owned', h', fun path object hp => hkept' _ _ (hkept _ _ hp), fun hall => ?_,
      fun i l' hl' x hx => ?_⟩
    · rw [hsame' fun b hb => hall b (List.mem_cons_of_mem _ hb), hsame (hall a List.mem_cons_self)]
    · rcases hputs i l' hl' x hx with ⟨l₁, hl₁, hx⟩ | hput
      · rcases hgains i l₁ hl₁ x hx with hold | hput
        · exact Or.inl hold
        · exact Or.inr ⟨[], a, acts, s, s₁, rfl, rfl, hput⟩
      · exact Or.inr (hput.cons hs)

/-- The request has returned these images. -/
def State.Returned (s : State) (i : ℕ) (q : UploadRequest) (images : List UploadedImage) : Prop :=
  ∃ st, s.sessions[i]? = some (q, st) ∧ st.next = .done images

/-- The object is one of the request: of the images it has returned or, while it still runs, of the uploads
    that have been fulfilled or of those it is about to remove. -/
def Stage.Owns (st : Stage) (path : String) : Prop :=
  match st.next with
  | .throw _ => False
  | .allSettled uploads _ => path ∈ (stored uploads st.results).map Prod.fst
  | .remove paths _ => path ∈ paths
  | .done images => path ∈ images.map UploadedImage.path

theorem Stage.Holds.owns_iff {q : UploadRequest} {st : Stage} {l : List (String × StoredObject)}
    (h : st.Holds getPublicUrl (Returns getPublicUrl q) l) (path : String) :
    st.Owns path ↔ path ∈ l.map Prod.fst := by
  obtain ⟨next, results⟩ := st
  cases next with
  | throw e =>
    obtain rfl : l = [] := h
    simp [Stage.Owns]
  | allSettled uploads k =>
    obtain rfl := h.1
    exact Iff.rfl
  | remove paths k => exact h.1 path
  | done images =>
    rw [← (show Returns getPublicUrl q images l from h).paths]
    exact Iff.rfl

variable (getPublicUrl) in
/-- The images of a request, one of each file in the order of the files, whose objects are in the
    bucket. -/
structure Serves (q : UploadRequest) (images : List UploadedImage) (b : Bucket) : Prop where
  length : images.length = q.files.length
  each : ∀ (i : ℕ) file, q.files[i]? = some file → ∃ buffer mimeType path,
    file.buffer = some buffer ∧ detectImageType buffer = some mimeType ∧
    images[i]? = some ⟨getPublicUrl path, path, mimeType, file.size⟩ ∧ b path = some ⟨buffer, mimeType⟩
  distinct : (images.map UploadedImage.path).Nodup

theorem Inv.returned (h : Inv getPublicUrl base owned s) {i : ℕ} {q : UploadRequest}
    {images : List UploadedImage} (hi : s.Returned i q images) :
    ∃ l, owned[i]? = some l ∧ Returns getPublicUrl q images l := by
  obtain ⟨⟨next, results⟩, hst, hnext⟩ := hi
  obtain ⟨l, hl, hholds⟩ := h.holds i q _ hst
  dsimp only at hnext
  subst hnext
  exact ⟨l, hl, hholds⟩

theorem Inv.owns (h : Inv getPublicUrl base owned s) {i : ℕ} {q : UploadRequest} {st : Stage}
    {path : String} (hi : s.sessions[i]? = some (q, st)) (hp : st.Owns path) :
    ∃ l object, owned[i]? = some l ∧ (path, object) ∈ l ∧ s.bucket path = some object := by
  obtain ⟨l, hl, hholds⟩ := h.holds i q st hi
  obtain ⟨⟨_, object⟩, hmem, rfl⟩ := List.mem_map.1 ((hholds.owns_iff path).1 hp)
  exact ⟨l, object, hl, hmem, (h.owners.held i l hl _ hmem).2⟩

/-- A removal takes objects of its request out of the bucket, and no other ones. -/
theorem State.removed {i : ℕ} {error : Option String}
    (hs : s.step getPublicUrl (.remove i error) = some s') (path : String) :
    s'.bucket path = s.bucket path ∨ s'.bucket path = none ∧
      ∃ q st, s.sessions[i]? = some (q, st) ∧ st.Owns path := by
  simp only [State.step] at hs
  split at hs
  · rename_i q paths k results hi
    cases hs
    cases error with
    | some => exact Or.inl rfl
    | none =>
      by_cases hp : path ∈ paths
      · exact Or.inr ⟨if_pos hp, q, _, hi, hp⟩
      · exact Or.inl (if_neg hp)
  · cases hs

variable (getPublicUrl) in
/-- What was in the bucket stays, and the images that a request has returned are those of its files and
    stay in the bucket.  The objects of a request have been put there by its own uploads and are no other
    request's; a removal takes only objects of its own request away; and if no removal has failed,
    everything else in the bucket is an object of one of the requests. -/
structure Isolated (b₀ : Bucket) (acts : List Action) (s : State) : Prop where
  kept : ∀ path object, b₀ path = some object → s.bucket path = some object
  served : ∀ i q images, s.Returned i q images → Serves getPublicUrl q images s.bucket
  own : ∀ (i : ℕ) q st path, s.sessions[i]? = some (q, st) → st.Owns path → ∃ object,
    s.bucket path = some object ∧ (State.init b₀).HasPut getPublicUrl acts i (path, object)
  apart : ∀ (i j : ℕ) q q' st st' path, s.sessions[i]? = some (q, st) →
    s.sessions[j]? = some (q', st') → st.Owns path → st'.Owns path → i = j
  removed : ∀ i error s' path, s.step getPublicUrl (.remove i error) = some s' →
    s'.bucket path = s.bucket path ∨ s'.bucket path = none ∧ ∃ object,
      s.bucket path = some object ∧ (State.init b₀).HasPut getPublicUrl acts i (path, object)
  clean : (∀ a ∈ acts, a.leaves = false) → ∀ path, s.bucket path = b₀ path ∨
    ∃ (i : ℕ) (q : UploadRequest) (st : Stage), s.sessions[i]? = some (q, st) ∧ st.Owns path

/-- **Upload requests do not get in each other's way**, however many there are, whichever of their
    uploads and removals fail, and in whatever order they settle. -/
theorem uploads_isolated (hrun : (State.init b₀).run getPublicUrl acts = some s) :
    Isolated getPublicUrl b₀ acts s := by
  obtain ⟨base, owned, h, hkept, hsame, hputs⟩ := (Inv.init b₀).run hrun
  have own {i : ℕ} {q : UploadRequest} {st : Stage} {path : String}
      (hi : s.sessions[i]? = some (q, st)) (hp : st.Owns path) : ∃ object,
      s.bucket path = some object ∧ (State.init b₀).HasPut getPublicUrl acts i (path, object) := by
    obtain ⟨l, object, hl, hmem, hbucket⟩ := h.owns hi hp
    refine ⟨object, hbucket, (hputs i l hl _ hmem).resolve_left ?_⟩
    simp
  refine ⟨fun path object hp => h.owners.kept (hkept _ _ hp), fun i q images hi => ?_,
    fun i q st path => own, fun i j q q' st st' path hi hj hp hp' => ?_,
    fun i error s' path hs => ?_, fun hall path => ?_⟩
  · obtain ⟨l, hl, hret⟩ := h.returned hi
    refine ⟨hret.length, fun k file hfile => ?_, ?_⟩
    · obtain ⟨buffer, mimeType, path, hbuffer, htype, himage, hmem⟩ := hret.each k file hfile
      exact ⟨buffer, mimeType, path, hbuffer, htype, himage, (h.owners.held i l hl _ hmem).2⟩
    · rw [hret.paths]
      exact h.owners.nodup i l hl
  · obtain ⟨l, hl, hholds⟩ := h.holds i q st hi
    obtain ⟨l', hl', hholds'⟩ := h.holds j q' st' hj
    exact h.owners.apart i j l l' hl hl' path ((hholds.owns_iff path).1 hp)
      ((hholds'.owns_iff path).1 hp')
  · rcases State.removed hs path with hsame | ⟨hgone, q, st, hi, hp⟩
    · exact Or.inl hsame
    · exact Or.inr ⟨hgone, own hi hp⟩
  · by_contra hnot
    obtain ⟨hne, hnone⟩ := not_or.1 hnot
    refine hne ?_
    rw [← hsame hall]
    refine h.owners.frame path fun l hl hmem => ?_
    obtain ⟨i, hi⟩ := List.mem_iff_getElem?.1 hl
    have hlt : i < s.sessions.length := h.length ▸ (List.getElem?_eq_some_iff.1 hi).1
    obtain ⟨⟨q, st⟩, hst⟩ : ∃ x, s.sessions[i]? = some x := ⟨_, List.getElem?_eq_getElem hlt⟩
    obtain ⟨l', hl', hholds⟩ := h.holds i q st hst
    rw [hi] at hl'; cases hl'
    exact hnone ⟨i, q, st, hst, (hholds.owns_iff path).2 hmem⟩

/-- Two requests upload a photo each, the first one also a scan, which the storage refuses. -/
def sampleUploads : List Action :=
  [.submit (.images (some [samplePhoto, sampleScan]) .items "EMP1" sampleStamps),
    .submit (.image (some [samplePhoto]) .items "EMP2" (sampleStamps 2)),
    .settle 0 0 none, .settle 1 0 none, .settle 0 1 (some "timeout"), .resume 0, .remove 0 none, .resume 1]

theorem uploads_isolated_sample : ∃ s, (State.init fun _ => none).run id sampleUploads = some s ∧
    Isolated id (fun _ => none) sampleUploads s := by
  obtain ⟨s, hrun⟩ : ∃ s, (State.init fun _ => none).run id sampleUploads = some s :=
    Option.isSome_iff_exists.1 (by decide +kernel)
  exact ⟨s, hrun, uploads_isolated hrun⟩

end Marketplace.UploadRuns
