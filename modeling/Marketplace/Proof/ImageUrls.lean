/-
  Where the stored image URLs point to, once their dot segments are removed.
-/
import Marketplace.Proof.Responses
import Marketplace.Lib.DotSegments

namespace Marketplace

open ReadCommitted StorageService UsersService

variable {cfg : Config} {base : Database → Prop} {q : Request cfg} {e : Event} {L : List Key}
  {d d' : Database}

/-! ## Stored URLs -/

/-- The image URLs in a row: the images of an item, the payment slip of an order, the QR code of an
    employee. -/
def rowUrls : (k : Key) → Row k → List String
  | .item _, item => item.images
  | .order _, order => order.paymentSlipUrl.toList
  | .user _, user => user.qrPaymentUrl.toList
  | .message _, _ | .notification _, _ => []

def Stored (d : Database) (url : String) : Prop := ∃ k r, d.get k = some r ∧ url ∈ rowUrls k r

theorem Stored.of_put {k : Key} {r : Row k} {url : String} (h : Stored (d.put k r) url) :
    url ∈ rowUrls k r ∨ Stored d url := by
  obtain ⟨k', r', hget, hurl⟩ := h
  by_cases hk : k' = k
  · subst hk
    rw [Database.get_put] at hget; cases hget
    exact Or.inl hurl
  · rw [Database.get_put_ne _ _ _ _ hk] at hget
    exact Or.inr ⟨k', r', hget, hurl⟩

theorem Stored.of_update {k : Key} {r₀ r : Row k} {url : String} (h : Stored (d.put k r) url)
    (hget : d.get k = some r₀) (hurls : rowUrls k r = rowUrls k r₀) : Stored d url := by
  rcases h.of_put with hurl | h
  · exact ⟨k, r₀, hget, hurls ▸ hurl⟩
  · exact h

theorem Stored.of_claim {u token url : String} (h : Stored d' url) (hc : ClaimsToken u token d d') :
    Stored d url := by
  obtain ⟨t, ht⟩ := hc.frame
  obtain ⟨k, r, hget, hurl⟩ := h
  have same (hk : ∀ v, k ≠ .user v) : d'.get k = d.get k := by
    rw [ht]; cases k <;> first | rfl | exact absurd rfl (hk _)
  cases k with
  | user v =>
    have hget : d'.users.get v = some r := hget
    rcases hc.cases v with h | ⟨r₀, hr₀, t, h⟩
    · exact ⟨.user v, r, h.symm.trans hget, hurl⟩
    · rw [hget] at h
      cases h
      exact ⟨.user v, r₀, hr₀, hurl⟩
  | _ => exact ⟨_, r, (same nofun).symm.trans hget, hurl⟩

/-- The image URLs of a request. -/
def Request.imageUrls : Request cfg → List String
  | .createItem _ dto => dto.images.getD []
  | .attachPaymentSlip _ _ dto => [dto.paymentSlipUrl]
  | .updateProfile _ dto => match dto.qrPaymentUrl with
    | .value url => [url]
    | _ => []
  | _ => []

theorem checkedUrl_managed (hnil : cfg.isUrl "" = false) {dto : UpdateProfileDto cfg} {url : String}
    (hok : assertManagedUrls cfg (checkedUrl cfg dto).toList = .ok ())
    (hdto : dto.qrPaymentUrl = .value url) :
    isManagedUrl cfg url = true := by
  have hne : url ≠ "" := by
    rintro rfl
    rw [dto.url_ok "" hdto] at hnil; cases hnil
  refine (assertManagedUrls_ok cfg).1 hok url ?_
  simp [checkedUrl, hdto, hne]

/-- A URL is stored because it was stored before, in this database or in the one a profile was read
    from, or because the request carries it and it is managed. -/
theorem Emits.stored (hnil : cfg.isUrl "" = false) (he : Emits cfg base q e L d d') {url : String}
    (h : Stored d' url) : Stored d url ∨ (∃ d₀, base d₀ ∧ Stored d₀ url) ∨
      (url ∈ q.imageUrls ∧ cfg.isUrl url = true ∧ isManagedUrl cfg url = true) := by
  cases he with
  | @listItem _ dto _ n _ _ _ _ hok hn =>
    rcases h.of_put with hurl | h
    · have hurl : url ∈ (dto.images.getD []).eraseDups := hurl
      have himg : url ∈ dto.images.getD [] := List.mem_eraseDups.1 hurl
      refine Or.inr (Or.inr ⟨himg, ?_, (assertManagedUrls_ok cfg).1 hok url hurl⟩)
      cases himages : dto.images with
      | none => rw [himages] at himg; cases himg
      | some l => exact (dto.images_ok l himages).2 url (by simpa [himages] using himg)
    · exact Or.inl h
  | setItemStatus hi => exact Or.inl (h.of_update hi rfl)
  | placeOrder hi =>
    rcases h.of_put with hurl | h
    · exact Or.inl ⟨.item _, _, hi, hurl⟩
    · exact Or.inl (h.of_put.resolve_left List.not_mem_nil)
  | completeOrder _ ho hi =>
    rcases h.of_put with hurl | h
    · exact Or.inl ⟨.item _, _, hi, hurl⟩
    · exact Or.inl (h.of_update ho rfl)
  | @cancelOrder _ _ _ order item _ _ _ ho hi =>
    unfold cancelled at h
    split_ifs at h
    · rcases h.of_put with hurl | h
      · exact Or.inl ⟨.item order.itemId, item, hi, hurl⟩
      · exact Or.inl (h.of_update ho rfl)
    · exact Or.inl (h.of_update ho rfl)
  | @attachSlip _ _ dto _ _ _ hm ho =>
    rcases h.of_put with hurl | h
    · obtain rfl : url = dto.paymentSlipUrl := by simpa [rowUrls] using hurl
      exact Or.inr (Or.inr ⟨List.mem_singleton_self _, dto.url_ok, hm⟩)
    · exact Or.inl h
  | @saveProfile u dto r₀ r₁ r _ d₀ d₁ _ hok hb₀ hr₀ hb₁ hr₁ hr =>
    rcases h.of_put with hurl | h
    · rcases savedRow_qrPaymentUrl (by simpa [rowUrls] using hurl) with h | h | h
      · exact Or.inl ⟨.user u, r, hr, by simp [rowUrls, h]⟩
      · exact Or.inr (Or.inl ⟨d₀, hb₀, .user u, r₀, hr₀, by simp [rowUrls, h]⟩)
      · exact Or.inr (Or.inr ⟨by simp [Request.imageUrls, h], dto.url_ok url h,
          checkedUrl_managed hnil hok h⟩)
    · exact Or.inl h
  | sendMessage => exact Or.inl (h.of_put.resolve_left List.not_mem_nil)
  | readMessages _ hr =>
    obtain ⟨t, rfl⟩ := hr.frame
    obtain ⟨k, r, hget, hurl⟩ := h
    cases k with
    | message => cases hurl
    | _ => exact Or.inl ⟨_, r, hget, hurl⟩
  | notify => exact Or.inl (h.of_put.resolve_left List.not_mem_nil)
  | readNotifications _ hr =>
    obtain ⟨t, rfl⟩ := hr.frame
    obtain ⟨k, r, hget, hurl⟩ := h
    cases k with
    | notification => cases hurl
    | _ => exact Or.inl ⟨_, r, hget, hurl⟩
  | claimToken hc => exact Or.inl (h.of_claim hc)
  | clearToken hr => exact Or.inl (h.of_update hr rfl)
  | forgetToken _ hr => exact Or.inl (h.of_update hr rfl)

/-! ## Inside the bucket -/

/-- The URL as every consumer reads it: without dot segments. -/
def normalizeUrl (url : String) : String := String.ofList (UrlPath.normalize url.toList)

variable (cfg) in
/-- The URL points to an object of the bucket, and still does without its dot segments. -/
def InBucket (url : String) : Prop :=
  startsWith url (publicUrlPrefix cfg) = true ∧
    startsWith (normalizeUrl url) (publicUrlPrefix cfg) = true

instance (url : String) : Decidable (InBucket cfg url) := inferInstanceAs (Decidable (_ ∧ _))

/-- What follows the bucket in the URL stays inside of it. -/
def StaysIn (bucket : UrlPath.Directory) (url : String) : Prop :=
  bucket.Contains (url.toList.drop bucket.url.length)

/-- A managed URL is inside the bucket iff it stays there. -/
theorem inBucket_iff {bucket : UrlPath.Directory}
    (hbucket : publicUrlPrefix cfg = String.ofList bucket.url) {url : String}
    (hurl : isManagedUrl cfg url = true) : InBucket cfg url ↔ StaysIn bucket url := by
  have hstarts : startsWith url (publicUrlPrefix cfg) = true := by
    simp only [isManagedUrl, Bool.and_eq_true] at hurl
    exact hurl.1
  have hpre : bucket.url <+: url.toList := by
    rw [startsWith_iff, hbucket] at hstarts
    simpa using hstarts
  obtain ⟨tail, htail⟩ := hpre
  rw [InBucket, startsWith_iff, startsWith_iff, hbucket, normalizeUrl, StaysIn, ← htail,
    List.drop_left]
  simp only [String.toList_ofList]
  rw [← UrlPath.Directory.prefix_normalize_iff]
  exact and_iff_right (List.prefix_append _ _)

variable (cfg) in
/-- Requests whose managed URLs are inside the bucket. -/
def Regime.urls (hnil : cfg.isUrl "" = false) : Regime cfg where
  admitted q := ∀ url ∈ q.imageUrls, cfg.isUrl url = true → isManagedUrl cfg url = true →
    InBucket cfg url
  base d := ∀ url, Stored d url → InBucket cfg url
  keeps := by
    intro q e L d d' hq hb he url h
    rcases he.stored hnil h with h | ⟨d₀, hb₀, h⟩ | ⟨hmem, hok, hm⟩
    · exact hb url h
    · exact hb₀ url h
    · exact hq url hmem hok hm

/-- A request to store a QR code. -/
def saveQr (url : String) (hurl : cfg.isUrl url = true) : UpdateProfileDto cfg where
  phoneNumber := none
  qrPaymentUrl := .value url
  phone_ok := by simp
  url_ok := by rintro _ ⟨⟩; exact hurl

theorem storable {url : String} (hurl : cfg.isUrl url = true) (hm : isManagedUrl cfg url = true) :
    ∃ users acts s, (∀ url, ¬ Stored (.migrated users) url) ∧
      (∀ q, .submit q ∈ acts → ∀ x ∈ q.imageUrls, x = url) ∧
      runs cfg users acts = some s ∧ Stored s.db url := by
  let users : Table String User := Table.empty.put "user" ⟨"", none, none, none, none, 0⟩
  have hget : (start cfg users).db.users.get "user" = some ⟨"", none, none, none, none, 0⟩ :=
    Table.get_put ..
  have hok : assertManagedUrls cfg (checkedUrl cfg (saveQr url hurl)).toList = .ok () := by
    rw [assertManagedUrls_ok]
    intro x hx
    by_cases hnil : url = ""
    · simp [checkedUrl, saveQr, hnil] at hx
    · obtain rfl : x = url := by simpa [checkedUrl, saveQr, hnil] using hx
      exact hm
  obtain ⟨acts, s, hacts, hrun, hdb, -⟩ :=
    submit_alone (s := start cfg users) (fun _ => .done) (.updateProfile "user" (saveQr url hurl))
      (by simp [start, State.init])
  obtain ⟨⟨r, hr, hmerge⟩, -⟩ := patched_users (fun _ => .done) (start cfg users).clock
    (start cfg users).seq hget hok
  refine ⟨users, _, s, ?_, ?_, hrun, ?_⟩
  · rintro x ⟨k, row, hk, hx⟩
    cases k with
    | user u =>
      have hk : users.get u = some row := hk
      rw [Table.get_put_eq] at hk
      split_ifs at hk
      · cases hk; cases hx
      · cases hk
    | _ => cases hk
  · intro q hq x hx
    rcases List.mem_cons.1 hq with hq | hq
    · cases hq
      simpa [Request.imageUrls, saveQr] using hx
    · exact absurd hq (hacts q)
  · refine ⟨.user "user", r, ?_, ?_⟩
    · rw [hdb]; exact hr
    · have : r.qrPaymentUrl = some url := congrArg Profile.qrPaymentUrl hmerge
      simp [rowUrls, this]

/-- **Every stored image URL stays inside the bucket**, in every run whose requests carry URLs of `U`
    only, iff every URL of `U` that is admitted and managed stays there. -/
theorem image_urls_iff (bucket : UrlPath.Directory)
    (hbucket : publicUrlPrefix cfg = String.ofList bucket.url) (hnil : cfg.isUrl "" = false)
    (U : Set String) :
    (∀ users acts s, (∀ url, Stored (.migrated users) url → InBucket cfg url) →
      (∀ q, .submit q ∈ acts → ∀ url ∈ q.imageUrls, url ∈ U) → runs cfg users acts = some s →
      ∀ url, Stored s.db url → InBucket cfg url) ↔
    ∀ url ∈ U, cfg.isUrl url = true → isManagedUrl cfg url = true → StaysIn bucket url := by
  constructor
  · intro h url hU hurl hm
    obtain ⟨users, acts, s, hstart, hacts, hrun, hstored⟩ := storable hurl hm
    refine (inBucket_iff hbucket hm).1
      (h users acts s (fun x hx => absurd hx (hstart x)) ?_ hrun url hstored)
    intro q hq x hx
    rw [hacts q hq x hx]
    exact hU
  · intro h users acts s hstart hacts hrun
    have hadmitted (q : Request cfg) (hq : .submit q ∈ acts) : (Regime.urls cfg hnil).admitted q :=
      fun url hmem hurl hm => (inBucket_iff hbucket hm).2 (h url (hacts q hq url hmem) hurl hm)
    obtain ⟨_, hsim, -⟩ := runs_sim (Regime.urls cfg hnil) hstart hadmitted hrun
    exact hsim.base

/-! ## A slip outside of the bucket -/

def sampleBucket : UrlPath.Directory where
  scheme := "http".toList
  authority := "localhost:54321".toList
  segs := ["storage".toList, "v1".toList, "object".toList, "public".toList, "marketplace".toList]
  scheme_ok := by decide +kernel
  authority_ok := List.all_eq_true.1 (by decide +kernel)
  segs_ok := by
    have h : ["storage".toList, "v1".toList, "object".toList, "public".toList,
      "marketplace".toList].all
        (fun seg => !UrlPath.isDot seg && seg.all UrlPath.inSegment) = true := by decide +kernel
    simpa only [List.all_eq_true, Bool.and_eq_true, Bool.not_eq_true'] using h

def insideUrl : String := "http://localhost:54321/storage/v1/object/public/marketplace/a/%2e%2e/slip.png"

def outsideUrl : String :=
  "http://localhost:54321/storage/v1/object/public/marketplace/%2e%2e/other/slip.png"

/-- The buyer attaches a slip to the first order. -/
def sampleAttached (url : String) (h : sample.isUrl url = true) : List (AppAction sample) :=
  sampleOrdered ++ perform 2 6 (.attachPaymentSlip 1 "EMP00102" ⟨url, h⟩)

def sampleInside : List (AppAction sample) := sampleAttached insideUrl (by decide +kernel)

def sampleOutside : List (AppAction sample) := sampleAttached outsideUrl (by decide +kernel)

theorem stored_slip {url : String}
    (h : ((d.orders.get 1).any fun r => r.paymentSlipUrl = some url) = true) :
    Stored d url := by
  simp only [Option.any_eq_true, decide_eq_true_eq] at h
  obtain ⟨r, hr, hurl⟩ := h
  exact ⟨.order 1, r, hr, by simp [rowUrls, hurl]⟩

theorem sample_stored (url : String) : ¬ Stored (.migrated sampleUsers) url := by
  rintro ⟨k, r, hk, hurl⟩
  cases k with
  | user u =>
    have hk : sampleUsers.get u = some r := hk
    simp only [sampleUsers, Table.get_put_eq, Table.get_empty] at hk
    split_ifs at hk <;> cases hk <;> cases hurl
  | _ => cases hk

/-- A slip whose dot segments stay in the bucket is stored, and is inside. -/
theorem image_urls_iff_sample : ∃ s, runs sample sampleUsers sampleInside = some s ∧
    Stored s.db insideUrl ∧ ∀ url, Stored s.db url → InBucket sample url := by
  obtain ⟨s, hrun, hs⟩ : ∃ s, runs sample sampleUsers sampleInside = some s ∧
      ((s.db.orders.get 1).any fun r => r.paymentSlipUrl = some insideUrl) = true :=
        reaches (by decide +kernel)
  have hstays : ∀ url ∈ ({insideUrl} : Set String), sample.isUrl url = true →
      isManagedUrl sample url = true → StaysIn sampleBucket url := by
    rintro url rfl - -
    exact UrlPath.Directory.contains_of_walk (by decide +kernel)
  refine ⟨s, hrun, stored_slip hs, ?_⟩
  refine (image_urls_iff sampleBucket (by decide +kernel) (by decide +kernel) {insideUrl}).2
    hstays _ _ s
    (fun url h => absurd h (sample_stored url)) ?_ hrun
  intro q hq url hurl
  simp only [sampleInside, sampleAttached, sampleOrdered, perform, List.mem_append, List.mem_cons,
    List.mem_replicate,
    reduceCtorEq, Action.submit.injEq, and_false, or_false] at hq
  rcases hq with (rfl | rfl) | rfl
  · cases hurl
  · cases hurl
  · simpa [Request.imageUrls] using hurl

/-- A slip that leaves the bucket is stored. -/
theorem image_urls_counterexample : ∃ s,
    runs sample sampleUsers sampleOutside = some s ∧
    (∀ url, ¬ Stored (.migrated sampleUsers) url) ∧ Stored s.db outsideUrl ∧
    isManagedUrl sample outsideUrl = true ∧ ¬ InBucket sample outsideUrl ∧
    normalizeUrl outsideUrl = "http://localhost:54321/storage/v1/object/public/other/slip.png" := by
  obtain ⟨s, hrun, hs⟩ : ∃ s, runs sample sampleUsers sampleOutside = some s ∧
      ((s.db.orders.get 1).any fun r => r.paymentSlipUrl = some outsideUrl) = true :=
        reaches (by decide +kernel)
  exact ⟨s, hrun, sample_stored, stored_slip hs, by decide +kernel, by decide +kernel, by decide +kernel⟩

end Marketplace
