/-
  Logging in: who can, given the phone numbers that employees have stored.
-/
import Marketplace.Proof.Responses

namespace Marketplace

open ReadCommitted AuthService UsersService

variable {cfg : Config} {base : Database → Prop} {q : Request cfg} {e : Event} {L : List Key}
  {d d' : Database}

/-- The digits of a phone number. -/
def digits (phone : String) : List Char := phone.toList.filter Char.isDigit

variable (cfg) in
/-- The login request is answered with a token. -/
def LogsIn (d : Database) (dto : LoginDto cfg) : Prop := ∃ r, Responds cfg d (.login dto) (.ok r)

/-- The request names an employee and the digits of the number stored for that employee. -/
def OwnsNumber (d : Database) (dto : LoginDto cfg) : Prop :=
  ∃ user phone, d.users.get dto.userId = some user ∧ user.phoneNumber = some phone ∧
    digits phone ≠ [] ∧ digits phone = digits dto.phoneNumber

/-- Every stored phone number has a digit. -/
def PhonesHaveDigits (users : Table String User) : Prop :=
  ∀ u r p, users.get u = some r → r.phoneNumber = some p → digits p ≠ []

/-! ## The response -/

theorem normalizePhone_inj {a b : String} :
    normalizePhone a = normalizePhone b ↔ digits a = digits b :=
  String.ofList_inj

/-- A submitted number matches a stored one with the same digits, even if there are none. -/
theorem phonesMatch_iff (hsha : Function.Injective cfg.sha256) {input : String}
    {stored : Option String} :
    phonesMatch cfg input stored = true ↔
      ∃ p, stored = some p ∧ p ≠ "" ∧ digits p = digits input := by
  cases stored with
  | none => simp [phonesMatch]
  | some p =>
    by_cases hp : p = ""
    · simp [phonesMatch, hp]
    · have hf : (some p).filter (· ≠ "") = some p := by simp [hp]
      simp only [phonesMatch, hf, Option.isSome_some, Bool.and_true, decide_eq_true_eq, hsha.eq_iff,
        normalizePhone_inj, Option.some.injEq, exists_eq_left']
      exact eq_comm.trans (and_iff_right hp).symm

theorem login_responds (d : Database) (dto : LoginDto cfg) :
    Responds cfg d (.login dto) (match d.users.get dto.userId with
      | some user =>
        if phonesMatch cfg dto.phoneNumber user.phoneNumber then
          let user : AuthUser := ⟨dto.userId, user.fullName, user.department⟩
          .ok (.login ⟨cfg.sign user, "Bearer", cfg.expiresIn, user⟩)
        else .error (.app (.unauthorized INVALID_CREDENTIALS))
      | none => .error (.app (.unauthorized INVALID_CREDENTIALS))) := by
  intro answers now seq
  simp only [program, login, eval_query]
  cases d.users.get dto.userId with
  | none => rfl
  | some user =>
    dsimp only
    split_ifs <;> rfl

theorem logsIn_iff (hsha : Function.Injective cfg.sha256) {dto : LoginDto cfg} :
    LogsIn cfg d dto ↔ ∃ user phone, d.users.get dto.userId = some user ∧
      user.phoneNumber = some phone ∧ phone ≠ "" ∧ digits phone = digits dto.phoneNumber := by
  have hres := login_responds d dto
  cases hu : d.users.get dto.userId with
  | none =>
    rw [hu] at hres
    simp only [reduceCtorEq, false_and, exists_false, iff_false]
    rintro ⟨r, h⟩
    cases hres.unique h
  | some user =>
    rw [hu] at hres
    simp only [Option.some.injEq, exists_and_left, exists_eq_left']
    rw [← phonesMatch_iff hsha]
    dsimp only at hres
    split_ifs at hres with hm
    · exact iff_of_true ⟨_, hres⟩ hm
    · refine iff_of_false ?_ hm
      rintro ⟨r, h⟩
      cases hres.unique h

/-- **Login accepts exactly the owners' numbers** iff no number an employee can log in with is without
    digits. -/
theorem logsIn_iff_ownsNumber (hsha : Function.Injective cfg.sha256) :
    (∀ dto : LoginDto cfg, LogsIn cfg d dto ↔ OwnsNumber d dto) ↔
      ∀ (dto : LoginDto cfg) user p, d.users.get dto.userId = some user →
        user.phoneNumber = some p →
        p = "" ∨ digits p ≠ [] := by
  constructor
  · intro h dto user p hu hp
    by_contra hnot
    obtain ⟨hne, hnil⟩ := not_or.1 hnot
    -- any other number without digits is accepted
    let dashes : LoginDto cfg := { dto with phoneNumber := "------", phone_ok := by decide +kernel }
    have hdashes : digits "------" = [] := by decide +kernel
    have hin : LogsIn cfg d dashes :=
      (logsIn_iff hsha).2 ⟨user, p, hu, hp, hne, (not_not.1 hnil).trans hdashes.symm⟩
    obtain ⟨user', p', hu', hp', hd, -⟩ := (h dashes).1 hin
    rw [show dashes.userId = dto.userId from rfl, hu] at hu'; cases hu'
    rw [hp] at hp'; cases hp'
    exact hnil hd
  · intro h dto
    rw [logsIn_iff hsha]
    constructor
    · rintro ⟨user, p, hu, hp, hne, hd⟩
      exact ⟨user, p, hu, hp, (h dto user p hu hp).resolve_left hne, hd⟩
    · rintro ⟨user, p, hu, hp, hd, he⟩
      exact ⟨user, p, hu, hp, by rintro rfl; exact hd rfl, he⟩

theorem PhonesHaveDigits.logsIn (h : PhonesHaveDigits d.users)
    (hsha : Function.Injective cfg.sha256)
    (dto : LoginDto cfg) : LogsIn cfg d dto ↔ OwnsNumber d dto :=
  (logsIn_iff_ownsNumber hsha).2 (fun _ _ _ hu hp => Or.inr (h _ _ _ hu hp)) dto

/-! ## Changing the number -/

section
variable {u : String} {patch : UpdateProfileDto cfg} {r : User} {answers : Call → Answer} {now : ℕ}
  {seq : Serial → ℕ}

/-- After a profile update alone, login accepts exactly the owners' numbers iff the number of the
    request has a digit. -/
theorem patched_iff (hsha : Function.Injective cfg.sha256) (hphones : PhonesHaveDigits d.users)
    (hlogin : ∃ dto : LoginDto cfg, dto.userId = u) (hu : d.users.get u = some r)
    (hurl : StorageService.assertManagedUrls cfg (checkedUrl cfg patch).toList = .ok ()) :
    (∀ dto : LoginDto cfg, LogsIn cfg (patched d u patch answers now seq) dto ↔
      OwnsNumber (patched d u patch answers now seq) dto) ↔
    ∀ p ∈ patch.phoneNumber, digits p ≠ [] := by
  obtain ⟨⟨r', hu', hmerge⟩, hother⟩ := patched_users answers now seq hu hurl
  have hphone : r'.phoneNumber = patch.phoneNumber.or r.phoneNumber :=
    congrArg Profile.phoneNumber hmerge
  rw [logsIn_iff_ownsNumber hsha]
  constructor
  · intro h p hp
    obtain ⟨dto, hdto⟩ := hlogin
    rw [Option.mem_def] at hp
    have hne : p ≠ "" := by
      rintro rfl
      exact absurd (patch.phone_ok "" hp).2.1 (by decide +kernel)
    refine (h dto r' p (by rw [hdto, hu']) ?_).resolve_left hne
    rw [hphone, hp, Option.some_or]
  · intro h dto user p hget hp
    right
    by_cases hv : dto.userId = u
    · rw [hv, hu'] at hget; cases hget
      rw [hphone] at hp
      cases hpatch : patch.phoneNumber with
      | none =>
        rw [hpatch, Option.none_or] at hp
        exact hphones u r p hu hp
      | some p' =>
        rw [hpatch, Option.some_or] at hp; cases hp
        exact h p hpatch
    · rw [hother _ hv] at hget
      exact hphones _ user p hget hp

end

/-! ## Every run -/

variable (cfg) in
/-- Profile updates with phone numbers that have a digit. -/
def Regime.phones : Regime cfg where
  admitted
    | .updateProfile _ patch => ∀ p ∈ patch.phoneNumber, digits p ≠ []
    | _ => True
  base d := PhonesHaveDigits d.users
  keeps := by
    intro q e L d d' hq hb he
    have put {u : String} {r : User} (hr : ∀ p, r.phoneNumber = some p → digits p ≠ []) :
        PhonesHaveDigits (d.users.put u r) := by
      have hall : ∀ v r', (d.users.put u r).get v = some r' → ∀ p, r'.phoneNumber = some p →
          digits p ≠ [] := Table.forall_put hr fun v r' hv p => hb v r' p hv
      exact fun v r' p hv => hall v r' hv p
    cases he with
    | listItem | setItemStatus | placeOrder | completeOrder | attachSlip | sendMessage | notify =>
      exact hb
    | cancelOrder => rwa [cancelled_users]
    | readMessages _ hr => obtain ⟨t, rfl⟩ := hr.frame; exact hb
    | readNotifications _ hr => obtain ⟨t, rfl⟩ := hr.frame; exact hb
    | claimToken hc =>
      intro v r' p hr'
      rcases hc.cases v with h | ⟨u, hu, t, h⟩
      · exact hb v r' p (h ▸ hr')
      · rw [h] at hr'; cases hr'; exact hb v u p hu
    | clearToken hu => exact put fun p hp => hb _ _ p hu hp
    | forgetToken _ hu => exact put fun p hp => hb _ _ p hu hp
    | saveProfile _ hb₀ hu₀ _ _ hu =>
      refine put fun p hp => ?_
      rcases savedRow_phoneNumber hp with hp | hp | hp
      · exact hb _ _ p hu hp
      · exact hb₀ _ _ p hu₀ hp
      · exact hq p hp

/-- **Login accepts exactly the owners' numbers** in every state of a run whose profile updates only
    store numbers with a digit; and a profile update without one breaks this. -/
theorem login_exact {users : Table String User} {acts : List (AppAction cfg)} {s : AppState cfg}
    (hsha : Function.Injective cfg.sha256) (hphones : PhonesHaveDigits users)
    (hpatches : ∀ u patch p, .submit (.updateProfile u patch) ∈ acts → patch.phoneNumber = some p →
      digits p ≠ []) (hrun : runs cfg users acts = some s) :
    (∀ dto : LoginDto cfg, LogsIn cfg s.db dto ↔ OwnsNumber s.db dto) ∧
    ∀ u r patch answers now seq, (∃ dto : LoginDto cfg, dto.userId = u) →
      s.db.users.get u = some r →
      StorageService.assertManagedUrls cfg (checkedUrl cfg patch).toList = .ok () →
      ((∀ dto : LoginDto cfg, LogsIn cfg (patched s.db u patch answers now seq) dto ↔
        OwnsNumber (patched s.db u patch answers now seq) dto) ↔
      ∀ p ∈ patch.phoneNumber, digits p ≠ []) := by
  have hadmitted : ∀ q, .submit q ∈ acts → (Regime.phones cfg).admitted q := by
    intro q hq
    cases q with
    | updateProfile u patch => exact fun p hp => hpatches u patch p hq hp
    | _ => trivial
  obtain ⟨h, hs, -⟩ := runs_sim (Regime.phones cfg) hphones hadmitted hrun
  have hdb : PhonesHaveDigits s.db.users := hs.base
  exact ⟨hdb.logsIn hsha, fun u r patch answers now seq hlogin hu hurl =>
    patched_iff hsha hdb hlogin hu hurl⟩

/-! ## A number without digits -/

theorem sample_sha256 : Function.Injective sample.sha256 := fun _ _ h => h

theorem sample_phones : PhonesHaveDigits sampleUsers := by
  intro u r p hu hp
  simp only [sampleUsers, Table.get_put_eq, Table.get_empty] at hu
  split_ifs at hu <;> cases hu <;> cases hp <;> decide +kernel

/-- The buyer logs in. -/
def sampleLogin (phone : String) (h : isPhone phone = true) : LoginDto sample :=
  ⟨"EMP00102", phone, by decide +kernel, h⟩

/-- The buyer changes the phone number. -/
def samplePatch (phone : String)
    (h : trim phone = phone ∧ isPhone phone = true ∧ validatedLength phone ≤ 25) :
    List (AppAction sample) :=
  perform 0 9 (.updateProfile "EMP00102" ⟨some phone, .undefined, by rintro p ⟨⟩; exact h, by simp⟩)

def sampleNewNumber : List (AppAction sample) := samplePatch "020-777-888" (by decide +kernel)

def sampleDashes : List (AppAction sample) := samplePatch "------" (by decide +kernel)

/-- The buyer can log in with the new number, written in another way. -/
theorem login_exact_sample : ∃ s, runs sample sampleUsers sampleNewNumber = some s ∧
    LogsIn sample s.db (sampleLogin "(020) 777 888" (by decide +kernel)) := by
  obtain ⟨s, hrun, hs⟩ : ∃ s, runs sample sampleUsers sampleNewNumber = some s ∧
      ((s.db.users.get "EMP00102").any fun r => r.phoneNumber = some "020-777-888") = true :=
    reaches (by decide +kernel)
  simp only [Option.any_eq_true, decide_eq_true_eq] at hs
  obtain ⟨r, hu, hp⟩ := hs
  refine ⟨s, hrun, ((login_exact sample_sha256 sample_phones ?_ hrun).1 _).2 ?_⟩
  · intro u patch p hq hpatch
    simp only [sampleNewNumber, samplePatch, perform, List.mem_cons, List.mem_replicate,
      reduceCtorEq, and_false,
      or_false] at hq
    cases hq; cases hpatch; decide +kernel
  · exact ⟨r, _, hu, hp, by decide +kernel, by decide +kernel⟩

/-- The buyer stores a number without digits, and logs in with it. -/
theorem login_counterexample : PhonesHaveDigits sampleUsers ∧ ∃ s,
    runs sample sampleUsers sampleDashes = some s ∧
    LogsIn sample s.db (sampleLogin "(    )" (by decide +kernel)) ∧
    ¬ OwnsNumber s.db (sampleLogin "(    )" (by decide +kernel)) := by
  obtain ⟨s, hrun, hs⟩ : ∃ s, runs sample sampleUsers sampleDashes = some s ∧
      ((s.db.users.get "EMP00102").any fun r => r.phoneNumber = some "------") = true :=
    reaches (by decide +kernel)
  simp only [Option.any_eq_true, decide_eq_true_eq] at hs
  obtain ⟨r, hu, hp⟩ := hs
  refine ⟨sample_phones, s, hrun, (logsIn_iff sample_sha256).2 ?_, ?_⟩
  · exact ⟨r, _, hu, hp, by decide, by decide +kernel⟩
  · rintro ⟨r', p, hu', hp', hd, -⟩
    rw [show (sampleLogin "(    )" _).userId = "EMP00102" by decide +kernel, hu] at hu'; cases hu'
    rw [hp] at hp'; cases hp'
    exact hd (by decide +kernel)

end Marketplace
