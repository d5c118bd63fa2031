/-
  The URLs of uploads: those the storage hands out are among those the
  application accepts.

  The client of the storage builds the public URL of an object; `publicUrl` is
  what it is documented to return.
-/
import Marketplace.Proof.Uploads
import Marketplace.Proof.Runs
import Marketplace.Lib.Uri

namespace Marketplace

open StorageService

/-! ## Paths -/

theorem isIdChar_of_isDigit {c : Char} (h : c.isDigit = true) : isIdChar c = true := by
  have hc : isIdChar c = ((c.isAlpha || c.isDigit) || c == '_' || c == '-') := rfl
  simp [hc, h]

theorem isIdChar_of_lower {c : Char} (ha : 'a' ≤ c) (hz : c ≤ 'z') : isIdChar c = true := by
  have hc : isIdChar c = (((c.isUpper || (decide ('a' ≤ c) && decide (c ≤ 'z'))) || c.isDigit) ||
      c == '_' || c == '-') := rfl
  simp [hc, ha, hz]

theorem toString_idChars (n : ℕ) : ∀ c ∈ (toString n).toList, isIdChar c = true := by
  intro c hc
  have hc : c ∈ (Nat.repr n).toList := hc
  rw [Nat.toList_repr] at hc
  exact isIdChar_of_isDigit (Nat.isDigit_of_mem_toDigits (by omega) (by omega) hc)

theorem padStart_idChars (n : ℕ) : ∀ c ∈ (padStart n).toList, isIdChar c = true := by
  intro c hc
  rw [padStart, String.toList_ofList, List.leftpad, List.mem_append, List.mem_replicate] at hc
  rcases hc with ⟨-, rfl⟩ | hc
  · decide
  · exact toString_idChars n c hc

theorem safeOwner_idChars (ownerId : String) : ∀ c ∈ (safeOwner ownerId).toList, isIdChar c = true := by
  intro c hc
  rw [safeOwner, String.toList_ofList, List.mem_flatMap] at hc
  obtain ⟨x, -, hc⟩ := hc
  split_ifs at hc with hx
  · rw [List.mem_singleton.1 hc]
    exact hx
  · rw [List.mem_singleton.1 hc]
    decide
  · obtain rfl : c = '_' := by simpa using hc
    decide

theorem folder_idChars (folder : StorageFolder) : ∀ c ∈ (toString folder).toList, isIdChar c = true := by
  refine List.all_eq_true.1 ?_
  cases folder <;> decide

theorem extension_idChars (t : AllowedImageMimeType) :
    ∀ c ∈ t.extension.toList, isIdChar c = true := by
  refine List.all_eq_true.1 ?_
  cases t <;> decide

theorem isUuid_idChars {s : String} (h : isUuid s = true) : ∀ c ∈ s.toList, isIdChar c = true := by
  intro c hc
  simp only [isUuid, Bool.and_eq_true, List.all_eq_true] at h
  have hx := h.2 c hc
  simp only [Bool.or_eq_true, Bool.and_eq_true, decide_eq_true_eq, beq_iff_eq] at hx
  rcases hx with (hd | ⟨ha, hf⟩) | rfl
  · exact isIdChar_of_isDigit hd
  · exact isIdChar_of_lower ha (Char.le_trans hf (by decide))
  · decide

theorem isUuid_ne_nil {s : String} (h : isUuid s = true) : s.toList ≠ [] := by
  intro hs
  rw [isUuid, hs] at h
  exact absurd h (by decide)

section
variable (folder : StorageFolder) (ownerId : String) (now : Stamp) (mimeType : AllowedImageMimeType)

/-- The segments of the path of an upload: the folder, the owner, the year, the month, the file. -/
def pathSegments : List (List Char) :=
  [(toString folder).toList, (safeOwner ownerId).toList, (toString now.year).toList,
    (padStart (now.month + 1)).toList, now.uuid.toList ++ '.' :: mimeType.extension.toList]

/-- The segments of the path without its extension. -/
def stemSegments : List (List Char) :=
  [(toString folder).toList, (safeOwner ownerId).toList, (toString now.year).toList,
    (padStart (now.month + 1)).toList, now.uuid.toList]

/-- The path without its extension. -/
def pathStem : List Char := ['/'].intercalate (stemSegments folder ownerId now)

theorem pathSegments_eq : pathSegments folder ownerId now mimeType =
    (stemSegments folder ownerId now).dropLast ++ [now.uuid.toList ++ '.' :: mimeType.extension.toList] :=
  rfl

end

variable {cfg : Config} {file : MulterFile} {mimeType : AllowedImageMimeType}
  {folder : StorageFolder} {ownerId : String} {now : Stamp} {seg : List Char} {c : Char}

theorem toString_string (s : String) : toString s = s := rfl

theorem putObject_path : (putObject file mimeType folder ownerId now).path.toList =
    ['/'].intercalate (pathSegments folder ownerId now mimeType) := by
  simp [putObject, pathSegments, toString_string]

theorem putObject_path_stem : (putObject file mimeType folder ownerId now).path.toList =
    pathStem folder ownerId now ++ '.' :: mimeType.extension.toList := by
  simp [putObject, pathStem, stemSegments, toString_string]

theorem mem_stemSegments (huuid : isUuid now.uuid = true)
    (hseg : seg ∈ stemSegments folder ownerId now) : ∀ c ∈ seg, isIdChar c = true := by
  simp only [stemSegments, List.mem_cons, List.not_mem_nil, or_false] at hseg
  rcases hseg with h | h | h | h | h
  · rw [h]; exact folder_idChars folder
  · rw [h]; exact safeOwner_idChars ownerId
  · rw [h]; exact toString_idChars _
  · rw [h]; exact padStart_idChars _
  · rw [h]; exact isUuid_idChars huuid

theorem mem_pathStem (huuid : isUuid now.uuid = true) (hc : c ∈ pathStem folder ownerId now) :
    c = '/' ∨ isIdChar c = true := by
  rcases Uri.mem_intercalate hc with hc | ⟨seg, hseg, hc⟩
  · exact Or.inl hc
  · exact Or.inr (mem_stemSegments huuid hseg c hc)

theorem pathStem_ne_nil (huuid : isUuid now.uuid = true) : pathStem folder ownerId now ≠ [] := by
  intro h
  have huuid := isUuid_ne_nil huuid
  simp [pathStem, stemSegments] at h

/-- **The path has exactly its five segments**, whatever characters the owner id has. -/
theorem splitOn_path (huuid : isUuid now.uuid = true) :
    (putObject file mimeType folder ownerId now).path.toList.splitOn '/' =
      pathSegments folder ownerId now mimeType := by
  rw [putObject_path]
  refine List.splitOn_intercalate '/' (fun seg hseg hslash => ?_) (by simp [pathSegments])
  have hid : isIdChar '/' = false := by decide
  rw [pathSegments_eq, List.mem_append, List.mem_singleton] at hseg
  rcases hseg with hseg | rfl
  · have hstem := mem_stemSegments huuid (List.mem_of_mem_dropLast hseg) '/' hslash
    rw [hid] at hstem; cases hstem
  · rcases List.mem_append.1 hslash with h | h
    · have := isUuid_idChars huuid '/' h
      rw [hid] at this; cases this
    · rcases List.mem_cons.1 h with h | h
      · cases h
      · have := extension_idChars mimeType '/' h
        rw [hid] at this; cases this

/-! ## URLs -/

theorem isManagedUrl_iff {url : String} : isManagedUrl cfg url = true ↔
    (publicUrlPrefix cfg).toList <+: url.toList ∧ ¬ Uri.Twice '.' url.toList := by
  rw [isManagedUrl, Bool.and_eq_true, startsWith_iff]
  simp [includesDots, Uri.Twice]

theorem extension_not_twice (t : AllowedImageMimeType) : ¬ Uri.Twice '.' ('.' :: t.extension.toList) := by
  cases t <;> rw [Uri.Twice] <;> decide

theorem not_twice_path (huuid : isUuid now.uuid = true) {base : List Char} (hbase : ¬ Uri.Twice '.' base) :
    ¬ Uri.Twice '.' (base ++ (putObject file mimeType folder ownerId now).path.toList) := by
  have hdot : '.' ∉ pathStem folder ownerId now := by
    intro h
    rcases mem_pathStem huuid h with h | h
    · cases h
    · exact absurd h (by decide)
  have hne : pathStem folder ownerId now ≠ [] := pathStem_ne_nil huuid
  rw [putObject_path_stem, ← List.append_assoc]
  refine Uri.not_twice_append ?_ (extension_not_twice mimeType) (Or.inl ?_)
  · refine Uri.not_twice_append hbase (Uri.not_twice_of_not_mem hdot) (Or.inr ?_)
    exact fun h => hdot (List.mem_of_mem_head? h)
  · rw [List.getLast?_append_of_ne_nil _ hne]
    exact fun h => hdot (List.mem_of_getLast? h)

def encodeURI (s : String) : String := String.ofList (Uri.encode s.toList)

variable (cfg) in
/-- `getPublicUrl` of the client of the storage. -/
def publicUrl (path : String) : String :=
  encodeURI (stripSlashes cfg.supabaseUrl ++ "/storage/v1/object/public/" ++ cfg.bucket ++ "/" ++ path)

/-- The bucket has a URL that `encodeURI` leaves unchanged, without two dots in a row. -/
structure PlainBucket (cfg : Config) : Prop where
  supabaseUrl : ∀ c ∈ cfg.supabaseUrl.toList, Uri.isUnescaped c = true
  bucket : ∀ c ∈ cfg.bucket.toList, Uri.isUnescaped c = true
  dots : ¬ Uri.Twice '.' (publicUrlPrefix cfg).toList

theorem isUnescaped_of_isIdChar (h : isIdChar c = true) : Uri.isUnescaped c = true := by
  simp only [isIdChar, Bool.or_eq_true, beq_iff_eq] at h
  rcases h with (h | rfl) | rfl
  · rw [Uri.isUnescaped, h, Bool.true_or]
  · decide
  · decide

theorem mem_stripSlashes {s : String} (h : c ∈ (stripSlashes s).toList) : c ∈ s.toList := by
  rw [stripSlashes, String.toList_ofList, List.mem_reverse] at h
  exact List.mem_reverse.1 ((List.dropWhile_sublist _).mem h)

/-- The URL of an upload is its path in the bucket, as nothing in it is escaped. -/
theorem publicUrl_putObject (hcfg : PlainBucket cfg) (huuid : isUuid now.uuid = true) :
    (publicUrl cfg (putObject file mimeType folder ownerId now).path).toList =
      (publicUrlPrefix cfg).toList ++ (putObject file mimeType folder ownerId now).path.toList := by
  rw [publicUrl, encodeURI, String.toList_ofList, Uri.encode_of_unescaped]
  · simp [publicUrlPrefix]
  · intro c hc
    have hslash : Uri.isUnescaped '/' = true := by decide
    simp only [String.toList_append, List.mem_append] at hc
    rcases hc with (((hc | hc) | hc) | hc) | hc
    · exact hcfg.supabaseUrl c (mem_stripSlashes hc)
    · have hall : "/storage/v1/object/public/".toList.all Uri.isUnescaped = true := by decide
      exact List.all_eq_true.1 hall c hc
    · exact hcfg.bucket c hc
    · obtain rfl : c = '/' := by simpa using hc
      exact hslash
    · rw [putObject_path_stem, List.mem_append, List.mem_cons] at hc
      rcases hc with hc | rfl | hc
      · rcases mem_pathStem huuid hc with rfl | hc
        · exact hslash
        · exact isUnescaped_of_isIdChar hc
      · decide
      · exact isUnescaped_of_isIdChar (extension_idChars mimeType c hc)

/-- **The URL of an upload is managed.** -/
theorem putObject_managed (hcfg : PlainBucket cfg) (huuid : isUuid now.uuid = true) :
    isManagedUrl cfg (publicUrl cfg (putObject file mimeType folder ownerId now).path) = true := by
  rw [isManagedUrl_iff, publicUrl_putObject hcfg huuid]
  exact ⟨List.prefix_append .., not_twice_path huuid hcfg.dots⟩

/-! ## Upload endpoints -/

/-- An upload has returned the URL, whatever the storage has answered, in whatever order. -/
inductive Returned (getPublicUrl : String → String) : String → Prop
  | image {file folder ownerId now es removal b images b'} {image : UploadedImage} :
    isUuid now.uuid = true →
    (uploadImage file folder ownerId now).run getPublicUrl es removal b = some (.ok images, b') →
    image ∈ images → Returned getPublicUrl image.url
  | images {files folder ownerId now es removal b images b'} {image : UploadedImage} :
    (∀ i, isUuid (now i).uuid = true) →
    (uploadImages files folder ownerId now).run getPublicUrl es removal b = some (.ok images, b') →
    image ∈ images → Returned getPublicUrl image.url

variable {getPublicUrl : String → String} {us : List Upload} {es : List (ℕ × Option String)}
  {removal : Option String} {b b' : Bucket} {images : List UploadedImage}
  {k : List (Except Exception UploadedImage) → Storing}

theorem putAnswer_none (getPublicUrl : String → String) (u : Upload) : putAnswer getPublicUrl u none =
    .ok ⟨getPublicUrl u.path, u.path, u.object.contentType, u.size⟩ := rfl

theorem putAnswer_url {u : Upload} {error : Option String} {image : UploadedImage}
    (h : putAnswer getPublicUrl u error = .ok image) : image.url = getPublicUrl u.path := by
  cases error with
  | some message => cases h
  | none => cases h; rfl

/-- The images that are returned are those of uploads, if they are taken from their results. -/
theorem run_allSettled (hk : ∀ results b, (k results).run getPublicUrl es removal b =
      some (.ok images, b') → ∀ image ∈ images, Except.ok image ∈ results)
    (hrun : (Storing.allSettled us k).run getPublicUrl es removal b = some (.ok images, b'))
    {image : UploadedImage} (himage : image ∈ images) : ∃ u ∈ us, image.url = getPublicUrl u.path := by
  rw [Storing.run] at hrun
  split at hrun
  · cases hrun
  · rename_i b₁ results hset
    obtain ⟨i, hi⟩ := List.mem_iff_getElem?.1 (hk results b₁ hrun image himage)
    obtain ⟨u, hu, rfl, -⟩ := (Settled.allSettled hset).stored i image (fulfilled_iff.2 hi)
    exact ⟨u, List.mem_of_getElem? hu, rfl⟩

theorem settledBatch_images {results : List (Except Exception UploadedImage)}
    (hrun : (settledBatch results).run getPublicUrl es removal b = some (.ok images, b'))
    {image : UploadedImage} (himage : image ∈ images) : Except.ok image ∈ results := by
  unfold settledBatch removeObjects at hrun
  split at hrun
  · split_ifs at hrun
    · cases hrun
    · cases hrun
  · cases hrun
    obtain ⟨r, hr, hok⟩ := List.mem_filterMap.1 himage
    cases r with
    | error e => cases hok
    | ok image' => cases hok; exact hr

theorem Returned.cases {url : String} (h : Returned getPublicUrl url) :
    ∃ file mimeType folder ownerId now, isUuid now.uuid = true ∧
      url = getPublicUrl (putObject file mimeType folder ownerId now).path := by
  cases h with
  | @image file folder ownerId now _ _ _ _ _ image huuid hrun himage =>
    unfold uploadImage at hrun
    split at hrun
    · rename_i mimeType file _
      obtain ⟨u, hu, hurl⟩ : ∃ u ∈ [putObject file mimeType folder ownerId now],
          image.url = getPublicUrl u.path := by
        refine run_allSettled (fun results b hk image himage => ?_) hrun himage
        split at hk
        · cases hk; simpa using himage
        · cases hk
        · cases hk; cases himage
      rw [List.mem_singleton.1 hu] at hurl
      exact ⟨file, mimeType, folder, ownerId, now, huuid, hurl⟩
    · cases hrun; cases himage
    · cases hrun
  | @images files folder ownerId now _ _ _ _ _ _ huuid hrun himage =>
    rcases uploadImages_cases files folder ownerId now with ⟨-, e, hthrow⟩ | ⟨-, types, -, hstart⟩
    · rw [hthrow] at hrun; cases hrun
    · rw [hstart] at hrun
      obtain ⟨u, hu, hurl⟩ := run_allSettled
        (fun results b hk image himage => settledBatch_images hk himage) hrun himage
      obtain ⟨i, hi⟩ := List.mem_iff_getElem?.1 hu
      rw [startUploads, List.getElem?_mapIdx, Option.map_eq_some_iff] at hi
      obtain ⟨x, -, rfl⟩ := hi
      exact ⟨x.1, x.2, folder, ownerId, now i, huuid i, hurl⟩

/-- The URLs of uploads are not refused: not by item creation, which rejects at most the price; not by
    payment slips; and not by the profile, which then saves what the request has in it. -/
structure Accepts (cfg : Config) (getPublicUrl : String → String) : Prop where
  check : ∀ urls, (∀ url ∈ urls, Returned getPublicUrl url) → assertManagedUrls cfg urls = .ok ()
  item : ∀ sellerId (dto : CreateItemDto cfg), (∀ url ∈ dto.images.getD [], Returned getPublicUrl url) →
    ∀ e, ItemsService.create cfg sellerId dto = fail (.app e) →
      ItemsService.resolvePrice dto.itemType dto.price = .error e
  slip : ∀ orderId userId (dto : AttachPaymentSlipDto cfg), Returned getPublicUrl dto.paymentSlipUrl →
    ∀ e, OrdersService.attachPaymentSlip cfg orderId userId dto ≠ fail e
  profile : ∀ userId (dto : UpdateProfileDto cfg) url, dto.qrPaymentUrl = .value url →
    Returned getPublicUrl url → UsersService.updateProfile cfg userId dto =
      query (fun d => (d.users.get userId).map (UsersService.profile userId)) fun u =>
        u.elim (fail (.app (.notFound s!"Employee {userId} not found"))) fun u =>
          UsersService.save (UsersService.merge cfg u dto) fun u => answer (.profile u)

theorem accepts (h : ∀ url, Returned getPublicUrl url → isManagedUrl cfg url = true) :
    Accepts cfg getPublicUrl where
  check urls hurls := (assertManagedUrls_ok cfg).2 fun url hurl => h url (hurls url hurl)
  item sellerId dto hurls e hfail := by
    have hok : assertManagedUrls cfg (dto.images.getD []).eraseDups = .ok () :=
      (assertManagedUrls_ok cfg).2 fun url hurl => h url (hurls url (List.mem_eraseDups.1 hurl))
    unfold ItemsService.create at hfail
    split at hfail
    · rename_i e' he
      cases hfail
      exact he
    · simp only [hok] at hfail
      cases hfail
  slip orderId userId dto hurl e hfail := by
    have hok : assertManagedUrls cfg [dto.paymentSlipUrl] = .ok () :=
      (assertManagedUrls_ok cfg).2 fun url hmem => h url (List.mem_singleton.1 hmem ▸ hurl)
    simp only [OrdersService.attachPaymentSlip, hok] at hfail
    cases hfail
  profile userId dto url hdto hurl := by
    have hok : assertManagedUrls cfg (UsersService.checkedUrl cfg dto).toList = .ok () := by
      refine (assertManagedUrls_ok cfg).2 fun x hx => ?_
      rw [UsersService.checkedUrl, hdto] at hx
      simp only at hx
      split_ifs at hx
      · cases hx
      · obtain rfl : x = url := by simpa using hx
        exact h x hurl
    simp only [UsersService.updateProfile, hok]
    congr 1
    funext u
    cases u <;> rfl

/-- **What the application uploads, it accepts.**  The URL of every object that is put is managed, and its
    path has exactly five segments, whatever characters the owner id has; so no URL of an upload is
    refused. -/
theorem uploads_accepted (hcfg : PlainBucket cfg)
    (hclient : ∀ path, getPublicUrl path = publicUrl cfg path) :
    (∀ file mimeType folder ownerId now, isUuid now.uuid = true →
      (∀ error image, putAnswer getPublicUrl (putObject file mimeType folder ownerId now) error =
        .ok image → isManagedUrl cfg image.url = true) ∧
      (putObject file mimeType folder ownerId now).path.toList.splitOn '/' =
        [(toString folder).toList, (safeOwner ownerId).toList, (toString now.year).toList,
          (padStart (now.month + 1)).toList, now.uuid.toList ++ '.' :: mimeType.extension.toList]) ∧
    Accepts cfg getPublicUrl := by
  obtain rfl : getPublicUrl = publicUrl cfg := funext hclient
  refine ⟨fun file mimeType folder ownerId now huuid => ⟨fun error image hok => ?_, splitOn_path huuid⟩,
    accepts fun url hurl => ?_⟩
  · rw [putAnswer_url hok]
    exact putObject_managed hcfg huuid
  · obtain ⟨file, mimeType, folder, ownerId, now, huuid, rfl⟩ := hurl.cases
    exact putObject_managed hcfg huuid

theorem sample_plainBucket : PlainBucket sample where
  supabaseUrl := List.all_eq_true.1 (by decide +kernel)
  bucket := List.all_eq_true.1 (by decide +kernel)
  dots := by
    have h : includesDots (publicUrlPrefix sample) = false := by decide +kernel
    simpa [includesDots, Uri.Twice] using h

def sampleStamp : Stamp := ⟨2026, 8, "3f2504e0-4f89-41d3-9a0c-0305e82c3301"⟩

/-- A photo of an employee whose id climbs out of the folder. -/
theorem uploads_accepted_sample :
    isManagedUrl sample (publicUrl sample
      (putObject samplePhoto .jpeg .items "../../x" sampleStamp).path) = true ∧
    (putObject samplePhoto .jpeg .items "../../x" sampleStamp).path =
      "items/______x/2026/09/3f2504e0-4f89-41d3-9a0c-0305e82c3301.jpg" ∧
    Accepts sample (publicUrl sample) := by
  obtain ⟨hput, haccepts⟩ := uploads_accepted sample_plainBucket fun _ => rfl
  have huuid : isUuid sampleStamp.uuid = true := by decide +kernel
  have hmanaged := (hput samplePhoto .jpeg .items "../../x" sampleStamp huuid).1 none _
    (putAnswer_none ..)
  exact ⟨hmanaged, by decide +kernel, haccepts⟩

end Marketplace
