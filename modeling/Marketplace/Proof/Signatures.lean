/-
  Which buffers are taken for images, and what is stored under the type of an
  image.
-/
import Marketplace.Proof.Uploads

namespace Marketplace

open StorageService

variable {b : List UInt8}

def riff : List UInt8 := [0x52, 0x49, 0x46, 0x46]

def webp : List UInt8 := [0x57, 0x45, 0x42, 0x50]

/-- The signature of a type of image, exactly. -/
def Signature : AllowedImageMimeType → List UInt8 → Prop
  | .jpeg, b => [0xff, 0xd8, 0xff] <+: b
  | .png, b => [0x89, 0x50, 0x4e, 0x47, 0x0d, 0x0a, 0x1a, 0x0a] <+: b
  | .webp, b => 12 ≤ b.length ∧ b.take 4 = riff ∧ (b.drop 8).take 4 = webp

/-- A byte without its highest bit. -/
def low7 (byte : UInt8) : UInt8 := byte &&& 0x7f

/-- The signature of a WEBP image, but for the highest bits of its bytes. -/
def AlmostWebp (b : List UInt8) : Prop :=
  12 ≤ b.length ∧ (b.take 4).map low7 = riff ∧ ((b.drop 8).take 4).map low7 = webp

theorem Char.ofUInt8_injective : Function.Injective Char.ofUInt8 := by
  intro x y h
  have hval : x.toUInt32 = y.toUInt32 := congrArg Char.val h
  exact UInt8.toNat_inj.1 (by simpa using congrArg UInt32.toNat hval)

/-- The decoded string is one of ASCII bytes when these are the bytes without their highest bits. -/
theorem asciiString_eq {i j : ℕ} {l : List UInt8} :
    asciiString b i j = String.ofList (l.map Char.ofUInt8) ↔
      ((b.drop i).take (j - i)).map low7 = l := by
  unfold asciiString
  rw [String.ofList_inj]
  have hmap : ((b.drop i).take (j - i)).map (fun byte => Char.ofUInt8 (byte &&& 0x7f)) =
      (((b.drop i).take (j - i)).map low7).map Char.ofUInt8 := by
    rw [List.map_map]; rfl
  rw [hmap]
  exact Char.ofUInt8_injective.list_map.eq_iff

theorem signature_jpeg :
    (3 ≤ b.length ∧ b[0]? = some 0xff ∧ b[1]? = some 0xd8 ∧ b[2]? = some 0xff) ↔
      Signature .jpeg b := by
  match b with
  | [] | [_] | [_, _] => simp [Signature]
  | x :: y :: z :: l => simp [Signature, eq_comm]

theorem signature_png :
    (8 ≤ b.length ∧ b.take 8 = [0x89, 0x50, 0x4e, 0x47, 0x0d, 0x0a, 0x1a, 0x0a]) ↔
      Signature .png b := by
  rw [Signature, List.prefix_iff_eq_take]
  constructor
  · exact fun h => h.2.symm
  · intro h
    have hlen := congrArg List.length h
    rw [List.length_take] at hlen
    exact ⟨by simp at hlen; omega, h.symm⟩

theorem almostWebp :
    (12 ≤ b.length ∧ asciiString b 0 4 = "RIFF" ∧ asciiString b 8 12 = "WEBP") ↔ AlmostWebp b := by
  have hr : "RIFF" = String.ofList (riff.map Char.ofUInt8) := by decide
  have hw : "WEBP" = String.ofList (webp.map Char.ofUInt8) := by decide
  rw [hr, hw, asciiString_eq, asciiString_eq]
  rfl

/-- The exact signature is one of those that are taken for WEBP. -/
theorem Signature.almost (h : Signature .webp b) : AlmostWebp b := by
  obtain ⟨hlen, hr, hw⟩ := h
  exact ⟨hlen, by rw [hr]; decide, by rw [hw]; decide⟩

/-- The first bytes of the three signatures differ, with or without their highest bits. -/
theorem AlmostWebp.not_others (h : AlmostWebp b) : ¬ Signature .jpeg b ∧ ¬ Signature .png b := by
  obtain ⟨hlen, hr, -⟩ := h
  match b with
  | [] => cases hr
  | x :: l =>
    have hx : low7 x = 0x52 := (List.cons.inj hr).1
    constructor
    · rintro ⟨t, ht⟩
      cases ht
      exact absurd hx (by decide)
    · rintro ⟨t, ht⟩
      cases ht
      exact absurd hx (by decide)

theorem not_jpeg_of_png (h : Signature .png b) : ¬ Signature .jpeg b := by
  rintro ⟨t, rfl⟩
  obtain ⟨t', ht⟩ := h
  cases ht

theorem detectImageType_cases (b : List UInt8) :
    (Signature .jpeg b ∧ detectImageType b = some .jpeg) ∨
    (Signature .png b ∧ detectImageType b = some .png) ∨
    (AlmostWebp b ∧ detectImageType b = some .webp) ∨
    (¬ Signature .jpeg b ∧ ¬ Signature .png b ∧ ¬ AlmostWebp b ∧ detectImageType b = none) := by
  unfold detectImageType
  by_cases hj : Signature .jpeg b
  · exact Or.inl ⟨hj, if_pos (signature_jpeg.2 hj)⟩
  · rw [if_neg (mt signature_jpeg.1 hj)]
    by_cases hp : Signature .png b
    · exact Or.inr (Or.inl ⟨hp, if_pos (signature_png.2 hp)⟩)
    · rw [if_neg (mt signature_png.1 hp)]
      by_cases hw : AlmostWebp b
      · exact Or.inr (Or.inr (Or.inl ⟨hw, if_pos (almostWebp.2 hw)⟩))
      · exact Or.inr (Or.inr (Or.inr ⟨hj, hp, hw, if_neg (mt almostWebp.1 hw)⟩))

/-- What is uploaded under a type has been detected to be of it. -/
def Stamped (u : Upload) : Prop := detectImageType u.object.bytes = some u.object.contentType

theorem putObject_stamped {file : MulterFile} {mimeType : AllowedImageMimeType}
    (h : validateImage (some file) = .ok mimeType) (folder : StorageFolder) (ownerId : String)
    (now : Stamp) : Stamped (putObject file mimeType folder ownerId now) := by
  obtain ⟨buffer, hbuffer, -, -, hdetect⟩ := validateImage_ok.1 h
  rw [Stamped, putObject, hbuffer]
  exact hdetect

theorem uploadImage_stamped {file : Option MulterFile} {folder : StorageFolder} {ownerId : String}
    {now : Stamp} {u : Upload} (h : Attempts (uploadImage file folder ownerId now) u) :
    Stamped u := by
  unfold uploadImage at h
  split at h
  · rename_i mimeType file hok
    cases h with
    | upload hu =>
      obtain rfl := List.mem_singleton.1 hu
      exact putObject_stamped hok folder ownerId now
    | settled h =>
      dsimp only at h
      split at h <;> cases h
  · cases h
  · cases h

theorem startUploads_stamped {fs : List MulterFile} {types : List AllowedImageMimeType}
    (hvalid : AllValid fs types) {folder : StorageFolder} {ownerId : String} {now : ℕ → Stamp}
    {u : Upload} (hu : u ∈ startUploads fs types folder ownerId now) : Stamped u := by
  obtain ⟨i, hi⟩ := List.mem_iff_getElem?.1 hu
  rw [startUploads, List.getElem?_mapIdx, Option.map_eq_some_iff] at hi
  obtain ⟨⟨file, mimeType⟩, hx, rfl⟩ := hi
  obtain ⟨hf, ht⟩ := List.getElem?_zip_eq_some.1 hx
  exact putObject_stamped (hvalid.get hf ht) folder ownerId (now i)

theorem settledBatch_attempts {results : List (Except Exception UploadedImage)} {u : Upload} :
    ¬ Attempts (settledBatch results) u := by
  intro h
  unfold settledBatch removeObjects at h
  split at h
  · split_ifs at h
    · cases h
    · cases h with
      | removed h => cases h
  · cases h

theorem uploadImages_stamped {files : Option (List MulterFile)} {folder : StorageFolder}
    {ownerId : String} {now : ℕ → Stamp} {u : Upload}
    (h : Attempts (uploadImages files folder ownerId now) u) : Stamped u := by
  rcases uploadImages_cases files folder ownerId now with ⟨-, e, hrun⟩ | ⟨-, types, hvalid, hrun⟩
  · rw [hrun] at h; cases h
  · rw [hrun] at h
    cases h with
    | upload hu => exact startUploads_stamped hvalid hu
    | settled h => exact (settledBatch_attempts h).elim

/-- Sniffing is exact on a buffer: each type is detected if and only if the buffer has its
    signature, and the buffer is not stored under a type whose signature it does not have. -/
structure SniffedExactly (b : List UInt8) : Prop where
  detected : ∀ t, detectImageType b = some t ↔ Signature t b
  rejected : detectImageType b = none ↔ ∀ t, ¬ Signature t b
  image : ∀ file folder ownerId now u, Attempts (uploadImage file folder ownerId now) u →
    u.object.bytes = b → Signature u.object.contentType b
  images : ∀ files folder ownerId now u, Attempts (uploadImages files folder ownerId now) u →
    u.object.bytes = b → Signature u.object.contentType b

theorem SniffedExactly.of_detected (h : ∀ t, detectImageType b = some t ↔ Signature t b) :
    SniffedExactly b where
  detected := h
  rejected := by
    rw [Option.eq_none_iff_forall_ne_some]
    exact forall_congr' fun t => not_congr (h t)
  image _ _ _ _ _ hu hb := (h _).1 (hb ▸ uploadImage_stamped hu)
  images _ _ _ _ _ hu hb := (h _).1 (hb ▸ uploadImages_stamped hu)

/-- **Sniffing is exact** on every buffer but those that have the signature of a WEBP image only
    once the highest bits of its bytes are unset. -/
theorem sniffed_exactly_iff (b : List UInt8) :
    SniffedExactly b ↔ ¬ (AlmostWebp b ∧ ¬ Signature .webp b) := by
  constructor
  · rintro h ⟨halmost, hnot⟩
    refine hnot ((h.detected .webp).1 ?_)
    rcases detectImageType_cases b with ⟨hj, -⟩ | ⟨hp, -⟩ | ⟨-, hd⟩ | ⟨-, -, hw, -⟩
    · exact absurd hj halmost.not_others.1
    · exact absurd hp halmost.not_others.2
    · exact hd
    · exact absurd halmost hw
  · intro h
    have hexact : AlmostWebp b ↔ Signature .webp b :=
      ⟨fun ha => by_contra fun hs => h ⟨ha, hs⟩, fun hs => hs.almost⟩
    refine .of_detected fun t => ?_
    rcases detectImageType_cases b with ⟨hj, hd⟩ | ⟨hp, hd⟩ | ⟨hw, hd⟩ | ⟨hj, hp, hw, hd⟩
    · rw [hd]
      cases t with
      | jpeg => exact iff_of_true rfl hj
      | png => exact iff_of_false nofun fun hp => not_jpeg_of_png hp hj
      | webp => exact iff_of_false nofun fun hs => hs.almost.not_others.1 hj
    · rw [hd]
      cases t with
      | jpeg => exact iff_of_false nofun (not_jpeg_of_png hp)
      | png => exact iff_of_true rfl hp
      | webp => exact iff_of_false nofun fun hs => hs.almost.not_others.2 hp
    · rw [hd]
      cases t with
      | jpeg => exact iff_of_false nofun hw.not_others.1
      | png => exact iff_of_false nofun hw.not_others.2
      | webp => exact iff_of_true rfl (hexact.1 hw)
    · rw [hd]
      cases t with
      | jpeg => exact iff_of_false nofun hj
      | png => exact iff_of_false nofun hp
      | webp => exact iff_of_false nofun (mt hexact.2 hw)

/-- A buffer whose first byte is `D2`, that is `52` with the highest bit set. -/
def craftedWebp : List UInt8 :=
  [0xd2, 0x49, 0x46, 0x46, 0x00, 0x00, 0x00, 0x00, 0x57, 0x45, 0x42, 0x50]

/-- The buffer is taken for a WEBP image, though its first bytes are not `RIFF`. -/
theorem sniffed_exactly_counterexample :
    detectImageType craftedWebp = some .webp ∧ craftedWebp.take 4 ≠ riff ∧
      ¬ SniffedExactly craftedWebp := by
  have hd : detectImageType craftedWebp = some .webp := by decide
  have hr : craftedWebp.take 4 ≠ riff := by decide
  exact ⟨hd, hr, fun h => hr ((h.detected .webp).1 hd).2.1⟩

end Marketplace
