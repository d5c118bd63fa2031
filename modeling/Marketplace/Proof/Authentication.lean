/-
  Authentication, from the login to the handlers.

  A token is issued to whoever knows the digits of the employee's phone number;
  every handler but the login acts for the employee of such a login.  What the
  server remembers of an employee is what the database says now, and what the
  handlers do keeps the schema.
-/
import Marketplace.Proof.Server

namespace Marketplace.Server

open ReadCommitted AuthService

variable {cfg : Config} {D : Deployment} {verifyAsync : ℕ → String → Option JwtPayload}
  {acts acts' : List (Action cfg)} {s s' : Server cfg} {n : ℕ} {u : String}

theorem grows_along (hrun : (start D).run verifyAsync acts = some s) (hacts : acts <+: acts')
    (hrun' : (start D).run verifyAsync acts' = some s') : Grows s s' := by
  obtain ⟨bs, rfl⟩ := hacts
  induction bs using List.reverseRecOn generalizing s' with
  | nil =>
    rw [List.append_nil, hrun] at hrun'
    cases hrun'
    exact .refl s
  | append_singleton bs a ih =>
    rw [← List.append_assoc] at hrun'
    obtain ⟨t, ht, hstep⟩ := run_snoc.1 hrun'
    exact (ih ht).trans ((Inv.run ht).step ht hstep).2

/-! ## Logins -/

/-- The login that a session has answered with a token. -/
def login? : Request cfg × Stage market → Option (LoginDto cfg × LoginResponse)
  | (.login dto, .idle (.done (.ok (.login x)))) => some (dto, x)
  | _ => none

theorem login?_eq_some {p : Request cfg × Stage market} {dto : LoginDto cfg} {x : LoginResponse} :
    login? p = some (dto, x) ↔ p = (.login dto, .idle (.done (.ok (.login x)))) := by
  constructor
  · intro h
    unfold login? at h
    split at h
    · cases h; rfl
    · cases h
  · rintro rfl
    rfl

variable (D verifyAsync) in
/-- A client that sends a token that verifies has it from a login that has been answered. -/
def Unforged (acts : List (Action cfg)) : Prop :=
  ∀ (as : List (Action cfg)) c t token payload, as ++ [.arrive c] <+: acts →
    (start D).run verifyAsync as = some t → c.token? = some token →
    verifyAsync t.identity.now token = some payload →
    ∃ i : ℕ, ∃ p dto x, t.app.sessions[i]? = some p ∧ login? p = some (dto, x) ∧ x.accessToken = token

variable (D verifyAsync) in
/-- One of the first `n` sessions has answered a login of the employee `u` with a token: the digits
    were those of the employee's phone number, in a database of the run. -/
def Authenticated (acts : List (Action cfg)) (s : Server cfg) (n : ℕ) (u : String) : Prop :=
  ∃ i : ℕ, ∃ p dto x, i < n ∧ s.app.sessions[i]? = some p ∧ login? p = some (dto, x) ∧
    dto.userId = u ∧ ∃ as t user phone, as <+: acts ∧ (start D).run verifyAsync as = some t ∧
      t.app.db.users.get u = some user ∧ user.phoneNumber = some phone ∧
      digits phone = digits dto.phoneNumber

section
variable (hsha : Function.Injective cfg.sha256)
  (hverify : ∀ now user payload, verifyAsync now (cfg.sign user) = some payload →
    payload.sub = some user.userId)
  (hunforged : Unforged D verifyAsync acts) (hrun : (start D).run verifyAsync acts = some s)
include hsha hverify hunforged hrun

theorem Presented.authenticated (h : Presented D verifyAsync acts n u) : 
    Authenticated D verifyAsync acts s n u := by
  obtain ⟨as, c, t, token, payload, hpre, ht, hlen, htoken, hpayload, hsub⟩ := h
  obtain ⟨i, p, dto, x, hi, hp, rfl⟩ := hunforged as c t token payload hpre ht htoken hpayload
  obtain rfl := login?_eq_some.1 hp
  -- the session has its reply since, and the token the subject it was signed with
  obtain ⟨st, hst, hsame⟩ :=
    (grows_along ht ((List.prefix_append ..).trans hpre) hrun).session i _ _ hi
  obtain rfl := hsame (Option.some_ne_none _)
  obtain ⟨as', hruns, -, hreached⟩ := (Inv.run hrun).core.app
  obtain ⟨bs, cs, t', user, rfl, ht', hu, hmatch, haccess⟩ := Deployment.loggedIn hruns hst
  obtain ⟨acts₁, t₁, hacts₁, ht₁, hdb⟩ := hreached bs t' (List.prefix_append ..) ht'
  have hdto : dto.userId = u := by
    rw [haccess] at hpayload
    exact Option.some.inj ((hverify _ _ _ hpayload).symm.trans hsub)
  obtain ⟨phone, hphone, -, hdigits⟩ := (phonesMatch_iff hsha).1 hmatch
  exact ⟨i, _, dto, x, (List.getElem?_eq_some_iff.1 hi).1.trans_le hlen, hst, hp, hdto,
    acts₁, t₁, user, phone, hacts₁, ht₁, by rw [hdb, ← hdto, hu], hphone, hdigits⟩

/-- **The server acts for those who have logged in.**  Every session is a login, or it acts for an
    employee who has logged in before it began; and so has every employee whom the server knows a
    client to be. -/
theorem acts_for_logins :
    (∀ (j : ℕ) q st, s.app.sessions[j]? = some (q, st) → (∃ dto, q = .login dto) ∨
      ∃ u, Authenticated D verifyAsync acts s j u ∧ ∀ u', q.employee? = some u' → u' = u) ∧
    ∀ (k : ℕ) c user,
      s.clients[k]? = some (c, .identified user) ∨ s.clients[k]? = some (c, .connected user) →
      Authenticated D verifyAsync acts s s.app.sessions.length user.userId := by
  have hinv := Inv.run hrun
  refine ⟨fun j q st hj => ?_, fun k c user hk => ?_⟩
  · rcases hinv.core.session j q st hj with h | ⟨u, hp, -, hu⟩
    · exact Or.inl h
    · exact Or.inr ⟨u, hp.authenticated hsha hverify hunforged hrun, hu⟩
  · rcases hk with hk | hk
    · exact (hinv.client k c _ hk).1.authenticated hsha hverify hunforged hrun
    · exact (hinv.client k c _ hk).1.authenticated hsha hverify hunforged hrun

end

/-! The buyer logs in, asks for the number of the unread notifications, and connects a socket. -/

def sampleVerify (_ : ℕ) (token : String) : Option JwtPayload := some ⟨some token⟩

def sampleEntry : List (Action sample) :=
  .arrive (.http none (.login (sampleLogin "020-5555-0102" sampleNumber_ok))) ::
    List.replicate 3 (.app (.exec 0))

theorem sampleEntry_unforged {rest : List (Action sample)}
    (hrest : ∀ c, .arrive c ∈ rest → ∀ token ∈ c.token?, token = "EMP00102") :
    Unforged (.migrated sampleUsers) sampleVerify (sampleEntry ++ rest) := by
  obtain ⟨t₀, hrun, ht₀⟩ : ∃ t, (start (.migrated sampleUsers)).run sampleVerify sampleEntry = some t ∧
      ((t.app.sessions[0]?.bind login?).any fun p => p.2.accessToken = "EMP00102") = true :=
    (Option.any_eq_true ..).1 (by decide +kernel)
  obtain ⟨⟨dto, x⟩, hlogin, hx⟩ := (Option.any_eq_true ..).1 ht₀
  obtain ⟨p, hp, hpx⟩ := Option.bind_eq_some_iff.1 hlogin
  obtain rfl := login?_eq_some.1 hpx
  intro as c t token payload hpre ht htoken _
  have hc : (sampleEntry ++ rest)[as.length]? = some (.arrive c) := by
    obtain ⟨bs, hbs⟩ := hpre
    rw [← hbs]; simp
  have hlen : sampleEntry.length = 4 := rfl
  rw [List.getElem?_append] at hc
  split_ifs at hc with hlt
  · -- the client that logs in
    rw [hlen] at hlt
    generalize as.length = n at hc hlt
    interval_cases n <;> cases hc
    cases htoken
  · have hentry : sampleEntry <+: as :=
      List.prefix_of_prefix_length_le (List.prefix_append ..) ((List.prefix_append ..).trans hpre)
        (by omega)
    obtain ⟨st, hst, hsame⟩ := (grows_along hrun hentry ht).session 0 _ _ hp
    obtain rfl := hsame (Option.some_ne_none _)
    obtain rfl := hrest c (List.mem_of_getElem? hc) token htoken
    exact ⟨0, _, dto, x, hst, hpx, of_decide_eq_true hx⟩

def sampleVisit : List (Action sample) :=
  sampleEntry ++ [.arrive (.http (some (.one "Bearer EMP00102")) .unreadCount), .read 1, .resume 1,
    .arrive (.socket "s" ⟨some "EMP00102", none, none⟩)]

theorem sampleVisit_unforged : Unforged (.migrated sampleUsers) sampleVerify sampleVisit := by
  refine sampleEntry_unforged fun c hc => ?_
  simp only [List.mem_cons, Action.arrive.injEq, reduceCtorEq, List.not_mem_nil, or_false,
    false_or] at hc
  rcases hc with rfl | rfl <;> decide +kernel

/-- The request for the number acts for the buyer. -/
theorem acts_for_logins_sample :
    ∃ s, (start (.migrated sampleUsers)).run sampleVerify sampleVisit = some s ∧
      Authenticated (.migrated sampleUsers) sampleVerify sampleVisit s 1 "EMP00102" := by
  obtain ⟨s, hrun, hs⟩ : ∃ s, (start (.migrated sampleUsers)).run sampleVerify sampleVisit = some s ∧
      (s.app.sessions[1]?.any fun p => p.1.employee? = some "EMP00102") = true :=
    (Option.any_eq_true ..).1 (by decide +kernel)
  obtain ⟨⟨q, st⟩, hj, hq⟩ := (Option.any_eq_true ..).1 hs
  have hq : q.employee? = some "EMP00102" := of_decide_eq_true hq
  refine ⟨s, hrun, ?_⟩
  rcases (acts_for_logins sample_sha256 (by rintro _ _ _ ⟨⟩; rfl) sampleVisit_unforged hrun).1 1 q st hj
    with ⟨dto, rfl⟩ | ⟨u, hu, hemployee⟩
  · cases hq
  · rw [hemployee _ hq]
    exact hu

/-! ## Identities -/

/-- **What the server knows of an employee is what the database says now**: in the cache, in the checks
    of the guards, and at the clients it has identified. -/
theorem identities_current (hrun : (start D).run verifyAsync acts = some s) :
    (∀ u e, s.identity.cache.get u = some e → Identifies s.app.db u e.user) ∧
    (∀ (i : ℕ) u user, s.identity.calls[i]? = some (u, .returned (some user)) →
      Identifies s.app.db u user) ∧
    (∀ (i : ℕ) u, s.identity.calls[i]? = some (u, .returned none) → s.app.db.users.get u = none) ∧
    ∀ (k : ℕ) c user,
      s.clients[k]? = some (c, .identified user) ∨ s.clients[k]? = some (c, .connected user) →
      Identifies s.app.db user.userId user := by
  have hinv := Inv.run hrun
  obtain ⟨as, has, -⟩ := hinv.core.app
  have he := Deployment.employees has
  refine ⟨fun u e hu => he.identifies.2 (hinv.core.cache u e hu),
    fun i u user hi => he.identifies.2 (hinv.core.call i u _ hi), fun i u hi => ?_,
    fun k c user hk => he.identifies.2 ?_⟩
  · have hnone : D.db.users.get u = none := hinv.core.call i u _ hi
    cases hu : s.app.db.users.get u with
    | none => rfl
    | some r =>
      obtain ⟨r₀, hr₀, -⟩ := he.rows u r hu
      rw [hnone] at hr₀; cases hr₀
  · rcases hk with hk | hk
    · exact (hinv.client k c _ hk).2
    · exact (hinv.client k c _ hk).2

/-- The socket is let in by the cache. -/
theorem identities_current_sample :
    ∃ s, (start (.migrated sampleUsers)).run sampleVerify sampleVisit = some s ∧
      ∃ e, s.identity.cache.get "EMP00102" = some e ∧ Identifies s.app.db "EMP00102" e.user := by
  obtain ⟨s, hrun, hs⟩ : ∃ s, (start (.migrated sampleUsers)).run sampleVerify sampleVisit = some s ∧
      (s.identity.cache.get "EMP00102").isSome = true := (Option.any_eq_true ..).1 (by decide +kernel)
  obtain ⟨e, he⟩ := Option.isSome_iff_exists.1 hs
  exact ⟨s, hrun, e, he, (identities_current hrun).1 _ e he⟩

/-! ## The schema -/

/-- **The server keeps the schema**: whatever clients send, all constraints hold if and only if the
    titles and places of the items and the totals of the orders fit their columns and no two employees
    have the same token. -/
theorem keeps_schema (hD : Constraints D.db) (hag : Agreement D.db)
    (hrun : (start D).run verifyAsync acts = some s) :
    Constraints s.app.db ↔ TextsFit s.app.db ∧ TotalsFit s.app.db ∧ TokensUnique s.app.db := by
  have hinv := Inv.run hrun
  obtain ⟨as, has, -⟩ := hinv.core.app
  have hemployees : ∀ q u, .submit q ∈ as → q.employee? = some u → (D.db.users.get u).isSome := by
    intro q u hq hu
    have hmem : q ∈ s.app.sessions.map Prod.fst := by
      rw [State.requests_run has]
      exact List.mem_filterMap.2 ⟨_, hq, rfl⟩
    obtain ⟨⟨q', st⟩, hst, rfl⟩ := List.mem_map.1 hmem
    obtain ⟨j, hj⟩ := List.mem_iff_getElem?.1 hst
    rcases hinv.core.session j _ _ hj with ⟨dto, rfl⟩ | ⟨v, -, hv, hq⟩
    · cases hu
    · rw [hq u hu]
      exact hv
  rw [constraints_iff]
  exact and_iff_right (Deployment.intact hD hag hemployees has)

/-- The seller offers an item. -/
theorem keeps_schema_sample : ∃ s, (start (.migrated sampleUsers)).run sampleVerify
    ([.arrive (.http (some (.one "Bearer EMP00101")) (.createItem sampleUnit)), .read 0, .resume 0] ++
      List.replicate 6 (.app (.exec 0))) = some s ∧
    (s.app.db.items.get 1).isSome ∧ Constraints s.app.db := by
  obtain ⟨s, hrun, hs⟩ : ∃ s, (start (.migrated sampleUsers)).run sampleVerify
      ([.arrive (.http (some (.one "Bearer EMP00101")) (.createItem sampleUnit)), .read 0, .resume 0] ++
        List.replicate 6 (.app (.exec 0))) = some s ∧
      ((s.app.db.items.get 1).isSome && s.app.db.orders.rows.isEmpty &&
        (s.app.db.items.rows.all fun x =>
          x.2.title.length ≤ 200 ∧ x.2.pickupLocation.length ≤ 150) &&
        s.app.db.users.rows.all fun x => x.2.fcmToken = none) = true :=
    (Option.any_eq_true ..).1 (by decide +kernel)
  simp only [Bool.and_eq_true, List.all_eq_true, List.isEmpty_iff, decide_eq_true_eq] at hs
  obtain ⟨⟨⟨hi, ho⟩, hfit⟩, hu⟩ := hs
  refine ⟨s, hrun, hi, (keeps_schema sampleUsers_constraints (.migrated sampleUsers) hrun).2
    ⟨fun i r hr => hfit (i, r) (Table.mem_rows.2 hr), fun o r hr => ?_,
      fun u v r r' t hr _ ht => ?_⟩⟩
  · have hmem := Table.mem_rows.2 hr
    rw [ho] at hmem; cases hmem
  · have hnone : r.fcmToken = none := hu (u, r) (Table.mem_rows.2 hr)
    rw [hnone] at ht; cases ht

end Marketplace.Server
