/-
  The server: who the handlers act for.

  `Inv` holds in every run: what the identity cache and the checks of the guards
  know of an employee is what the database says, which no request changes, and a
  handler acts for an employee only if a token of that employee has been verified
  before.
-/
import Marketplace.Server
import Marketplace.Proof.Errors
import Marketplace.Proof.IdentityCache
import Marketplace.Proof.Integrity

namespace Marketplace

open ReadCommitted UsersService

variable {cfg : Config} {D : Deployment}

/-- Names and departments do not change. -/
def Regime.employees (cfg : Config) (d₀ : Database) : Regime cfg where
  admitted _ := True
  base := Employees d₀
  keeps _ h he := h.step (fun _ => id) he

theorem Deployment.employees {as : List (AppAction cfg)} {s : AppState cfg}
    (hrun : D.runs cfg as = some s) : Employees D.db s.db :=
  Deployment.base_holds (.employees cfg D.db) (.refl _) (fun _ _ => trivial) hrun

/-- The identity is the one of the employee `u`. -/
def Identifies (d : Database) (u : String) (user : AuthUser) : Prop :=
  ∃ r, d.users.get u = some r ∧ user = ⟨u, r.fullName, r.department⟩

theorem Identifies.userId {d : Database} {u : String} {user : AuthUser} (h : Identifies d u user) :
    user.userId = u := by
  obtain ⟨r, -, rfl⟩ := h
  rfl

theorem Identifies.isSome {d : Database} {u : String} {user : AuthUser} (h : Identifies d u user) :
    (d.users.get u).isSome := by
  obtain ⟨r, hr, -⟩ := h
  rw [hr]; rfl

theorem Employees.identifies {d₀ d : Database} (h : Employees d₀ d) {u : String} {user : AuthUser} :
    Identifies d u user ↔ Identifies d₀ u user := by
  constructor
  · rintro ⟨r, hr, rfl⟩
    obtain ⟨r₀, hr₀, hs, -⟩ := h.rows u r hr
    exact ⟨r₀, hr₀, by rw [hs.fullName, hs.department]⟩
  · rintro ⟨r₀, hr₀, rfl⟩
    obtain ⟨r, hr⟩ := Option.isSome_iff_exists.1 (h.kept u (by rw [hr₀]; rfl))
    obtain ⟨r₁, hr₁, hs, -⟩ := h.rows u r hr
    rw [hr₀] at hr₁; cases hr₁
    exact ⟨r, hr, by rw [hs.fullName, hs.department]⟩

/-! ## Endpoints -/

section
variable {route : Route cfg} {user : Option AuthUser}

/-- A handler acts for the employee of its request; without one, it is a login. -/
theorem Route.handle_call {q : Request cfg} (h : route.handle user = .ok (.call q)) :
    (∀ user' u, user = some user' → q.employee? = some u → u = user'.userId) ∧
      (route.isPublic = true → ∃ dto, q = .login dto) ∧
      (∀ dto, q = .login dto → route = .login dto) ∧ ∀ client dto, q ≠ .sendMessage client dto := by
  cases user with
  | none =>
    cases route <;> simp only [Route.handle, CurrentUser, Except.ok.injEq, Handling.call.injEq,
      reduceCtorEq] at h <;> subst h <;> simp [Route.isPublic]
  | some user =>
    cases route <;> simp only [Route.handle, CurrentUser, Except.ok.injEq, Handling.call.injEq,
      reduceCtorEq] at h <;> subst h <;> simp +contextual [Request.employee?, Route.isPublic, eq_comm]

theorem Route.handle_reply {user' : AuthUser} (h : route.handle user = .ok (.reply user')) :
    user = some user' := by
  cases user with
  | none => cases route <;> simp [Route.handle, CurrentUser] at h
  | some user =>
    cases route <;> simp only [Route.handle, CurrentUser, Except.ok.injEq, Handling.reply.injEq,
      reduceCtorEq] at h
    rw [h]

/-- An endpoint rejects an input that fails validation, or that the validation throws on, or a request
    without an employee. -/
theorem Route.handle_error {e : Raised} (h : route.handle user = .error e) :
    (∃ isPublic errors, route = .invalid isPublic errors ∧ e = validationFailed errors) ∨
      (∃ isPublic, route = .uncheckable isPublic ∧ e = .other) ∨
      route.isPublic = false ∧ ∃ m, e = (Exception.unauthorized m).raised := by
  cases user with
  | none =>
    cases route <;> simp only [Route.handle, CurrentUser, Except.error.injEq, reduceCtorEq] at h
    all_goals first
      | exact Or.inr (Or.inr ⟨rfl, _, h.symm⟩)
      | exact Or.inl ⟨_, _, rfl, h.symm⟩
      | exact Or.inr (Or.inl ⟨_, rfl, h.symm⟩)
  | some user =>
    cases route <;> simp only [Route.handle, CurrentUser, Except.error.injEq, reduceCtorEq] at h
    · exact Or.inl ⟨_, _, rfl, h.symm⟩
    · exact Or.inr (Or.inl ⟨_, rfl, h.symm⟩)

end

/-- The token a client sends. -/
def Client.token? : Client cfg → Option String
  | .http authorization _ => extractBearerToken authorization
  | .socket _ handshake => (extractSocketToken handshake).filter (· ≠ "")

def Client.isPublic : Client cfg → Bool
  | .http _ route => route.isPublic
  | .socket .. => false

namespace Server

variable {verifyAsync : ℕ → String → Option JwtPayload} {acts acts' : List (Action cfg)}
  {s s' : Server cfg} {a : Action cfg} {c : Client cfg} {k n n' : ℕ} {u : String}

/-! ## Steps -/

variable (verifyAsync) in
/-- One step. -/
inductive Next (s : Server cfg) : Action cfg → Server cfg → Prop
  | arrive (c : Client cfg) :
    Next s (.arrive c)
      { (s.guard verifyAsync c).1 with
        clients := (s.guard verifyAsync c).1.clients ++ [(c, (s.guard verifyAsync c).2)] }
  | read {k i c u identity} : s.clients[k]? = some (c, .checking i) →
    s.identity.calls[i]? = some (u, .reading) →
    s.identity.run [.account u (s.app.db.users.get u), .read i] = some identity →
    Next s (.read k) { s with identity }
  | fault {k i c f identity} : s.clients[k]? = some (c, .checking i) →
    s.identity.step (.fail i) = some identity →
    Next s (.fault k f) ({ s with identity }.goto k c (.rejected (.query f)))
  | resume {k i c u user} {identity : Identity.State} : s.clients[k]? = some (c, .checking i) →
    s.identity.step (.resume i) = some identity →
    identity.calls[i]? = some (u, .returned user) →
    Next s (.resume k)
      (({ s with identity }.proceed c user).1.goto k c ({ s with identity }.proceed c user).2)
  | event {k id handshake user e q} :
    s.clients[k]? = some (.socket id handshake, .connected user) →
    SocketEvent.handle ⟨id, user.userId⟩ e = .ok q →
    Next s (.event k e)
      { s.submit q with events := s.events ++ [.ok s.app.sessions.length] }
  | invalid {k id handshake user e x} :
    s.clients[k]? = some (.socket id handshake, .connected user) →
    (SocketEvent.handle ⟨id, user.userId⟩ e : Except Raised (Request cfg)) = .error x →
    Next s (.event k e) { s with events := s.events ++ [.error x] }
  | disconnect {k id handshake user} :
    s.clients[k]? = some (.socket id handshake, .connected user) →
    Next s (.disconnect k)
      ((s.submit (.disconnect ⟨id, user.userId⟩)).goto k (.socket id handshake) .closed)
  | app {x app} : (∀ q, x ≠ .submit q) → s.app.step (program cfg) x = some app →
    Next s (.app x) { s with app }
  | tick : Next s .tick { s with identity := { s.identity with now := s.identity.now + 1 } }

theorem step_next (h : s.step verifyAsync a = some s') : Next verifyAsync s a s' := by
  cases a with
  | arrive c =>
    cases h
    exact .arrive c
  | read k =>
    simp only [step] at h
    split at h
    · rename_i hk
      split at h
      · rename_i hi
        obtain ⟨identity, hrun, rfl⟩ := Option.map_eq_some_iff.1 h
        exact .read hk hi hrun
      · cases h
    · cases h
  | fault k f =>
    simp only [step] at h
    split at h
    · rename_i hk
      obtain ⟨identity, hfail, rfl⟩ := Option.map_eq_some_iff.1 h
      exact .fault hk hfail
    · cases h
  | resume k =>
    simp only [step] at h
    split at h
    · rename_i hk
      obtain ⟨identity, hresume, h⟩ := Option.bind_eq_some_iff.1 h
      split at h
      · rename_i hi
        cases h
        exact .resume hk hresume hi
      · cases h
    · cases h
  | event k e =>
    simp only [step] at h
    split at h
    · rename_i hk
      split at h
      · rename_i hq
        cases h
        exact .event hk hq
      · rename_i hx
        cases h
        exact .invalid hk hx
    · cases h
  | disconnect k =>
    simp only [step] at h
    split at h
    · rename_i hk
      cases h
      exact .disconnect hk
    · cases h
  | app x =>
    have hx : ∀ q, x ≠ .submit q := by
      rintro q rfl
      cases h
    obtain ⟨app, happ, rfl⟩ : ∃ app, s.app.step (program cfg) x = some app ∧ { s with app } = s' := by
      cases x with
      | submit q => exact absurd rfl (hx q)
      | exec | fault | answer | tick => exact Option.map_eq_some_iff.1 h
    exact .app hx happ
  | tick =>
    cases h
    exact .tick

theorem run_snoc : s.run verifyAsync (acts ++ [a]) = some s' ↔
    ∃ t, s.run verifyAsync acts = some t ∧ t.step verifyAsync a = some s' := by
  induction acts generalizing s with
  | nil => simp [run]
  | cons b acts ih =>
    simp only [List.cons_append, run, Option.bind_eq_some_iff, ih]
    constructor
    · rintro ⟨t, ht, t', hrun, hstep⟩
      exact ⟨t', ⟨t, ht, hrun⟩, hstep⟩
    · rintro ⟨t', ⟨t, ht, hrun⟩, hstep⟩
      exact ⟨t, ht, t', hrun, hstep⟩

/-! ## What a run knows -/

variable (D verifyAsync) in
/-- When there were at most `n` sessions, a client has sent a token with the subject `u`, and it has
    been verified. -/
def Presented (acts : List (Action cfg)) (n : ℕ) (u : String) : Prop :=
  ∃ as c t token payload, as ++ [.arrive c] <+: acts ∧ (start D).run verifyAsync as = some t ∧
    t.app.sessions.length ≤ n ∧ c.token? = some token ∧
    verifyAsync t.identity.now token = some payload ∧ payload.sub = some u

theorem Presented.mono (h : Presented D verifyAsync acts n u) (hacts : acts <+: acts')
    (hn : n ≤ n') : Presented D verifyAsync acts' n' u := by
  obtain ⟨as, c, t, token, payload, hpre, hrun, hlen, h⟩ := h
  exact ⟨as, c, t, token, payload, hpre.trans hacts, hrun, hlen.trans hn, h⟩

/-- What a check of a guard has found out is what the database says. -/
def Truthful (d : Database) (u : String) : Identity.Phase → Prop
  | .answered (some row) => Identifies d u ⟨u, row.fullName, row.department⟩
  | .returned (some user) => Identifies d u user
  | .answered none | .returned none => d.users.get u = none
  | .reading | .failed => True

variable (D verifyAsync) in
/-- The request is a login, or it acts for an employee whose token had been verified when there were
    at most `n` sessions. -/
def ActsFor (acts : List (Action cfg)) (n : ℕ) (q : Request cfg) : Prop :=
  (∃ dto, q = .login dto) ∨ ∃ u, Presented D verifyAsync acts n u ∧ (D.db.users.get u).isSome ∧
    ∀ u', q.employee? = some u' → u' = u

theorem ActsFor.mono {q : Request cfg} (h : ActsFor D verifyAsync acts n q) (hacts : acts <+: acts') :
    ActsFor D verifyAsync acts' n q := by
  rcases h with h | ⟨u, hp, h⟩
  · exact Or.inl h
  · exact Or.inr ⟨u, hp.mono hacts le_rfl, h⟩

variable (D verifyAsync) in
/-- The database is one of the run's. -/
def Reached (acts : List (Action cfg)) (d : Database) : Prop :=
  ∃ as t, as <+: acts ∧ (start D).run verifyAsync as = some t ∧ t.app.db = d

theorem Reached.mono {d : Database} (h : Reached D verifyAsync acts d) (hacts : acts <+: acts') :
    Reached D verifyAsync acts' d := by
  obtain ⟨as, t, has, h⟩ := h
  exact ⟨as, t, has.trans hacts, h⟩

variable (D verifyAsync) in
/-- Of the application and the identities. -/
structure Core (acts : List (Action cfg)) (s : Server cfg) : Prop where
  app : ∃ as, D.runs cfg as = some s.app ∧ (∀ a ∈ as, (∃ q, a = .submit q) ∨ .app a ∈ acts) ∧
    ∀ as' t', as' <+: as → D.runs cfg as' = some t' → Reached D verifyAsync acts t'.db
  cache : ∀ u e, s.identity.cache.get u = some e → Identifies D.db u e.user
  call : ∀ (i : ℕ) u phase, s.identity.calls[i]? = some (u, phase) → Truthful D.db u phase
  session : ∀ (j : ℕ) q st, s.app.sessions[j]? = some (q, st) → ActsFor D verifyAsync acts j q

/-- Why client `k` is rejected. -/
inductive Rejects (acts : List (Action cfg)) (k : ℕ) : Client cfg → Raised → Prop
  | unauthorized {c : Client cfg} (m : String) : c.isPublic = false →
    Rejects acts k c (Exception.unauthorized m).raised
  | invalid (authorization : Option HeaderValue) (isPublic : Bool) (errors : List ValidationError) :
    Rejects acts k (.http authorization (.invalid isPublic errors)) (validationFailed errors)
  | uncheckable (authorization : Option HeaderValue) (isPublic : Bool) :
    Rejects acts k (.http authorization (.uncheckable isPublic)) .other
  | database {c : Client cfg} (f : QueryFailedError) : .fault k f ∈ acts → Rejects acts k c (.query f)
  | socket (id : String) (handshake : Handshake) : Rejects acts k (.socket id handshake) .other

variable (D verifyAsync) in
/-- Of client `k`. -/
def Holds (acts : List (Action cfg)) (s : Server cfg) (k : ℕ) (c : Client cfg) : Progress → Prop
  | .checking i => c.isPublic = false ∧ ∃ u phase, s.identity.calls[i]? = some (u, phase) ∧
      Presented D verifyAsync acts s.app.sessions.length u
  | .connected user => Presented D verifyAsync acts s.app.sessions.length user.userId ∧
      Identifies D.db user.userId user
  | .identified user => Presented D verifyAsync acts s.app.sessions.length user.userId ∧
      Identifies D.db user.userId user
  | .session j => ∃ authorization route user q st, c = .http authorization route ∧
      route.handle user = .ok (.call q) ∧ s.app.sessions[j]? = some (q, st)
  | .rejected e => Rejects acts k c e
  | .closed => True

/-- Of an event. -/
def Handles (acts : List (Action cfg)) (s : Server cfg) : Except Raised ℕ → Prop
  | .ok j => ∃ client e q st, SocketEvent.handle client e = .ok q ∧ s.app.sessions[j]? = some (q, st)
  | .error x => (∃ k errors, .event k (.invalid errors) ∈ acts ∧ x = wsValidationFailed errors) ∨
      ∃ k, .event k .uncheckable ∈ acts ∧ x = .other

/-- Sessions keep their requests, and their replies, and checks their employees. -/
structure Grows (s s' : Server cfg) : Prop where
  session : ∀ (j : ℕ) q st, s.app.sessions[j]? = some (q, st) →
    ∃ st', s'.app.sessions[j]? = some (q, st') ∧ (st.reply? ≠ none → st' = st)
  call : ∀ (i : ℕ) u phase, s.identity.calls[i]? = some (u, phase) →
    ∃ phase', s'.identity.calls[i]? = some (u, phase')

theorem Grows.of_eq (happ : s'.app = s.app) (hcalls : s'.identity.calls = s.identity.calls) :
    Grows s s' :=
  ⟨fun _ _ st hj => ⟨st, by rw [happ]; exact hj, fun _ => rfl⟩,
    fun _ _ p hi => ⟨p, by rw [hcalls]; exact hi⟩⟩

theorem Grows.refl (s : Server cfg) : Grows s s := .of_eq rfl rfl

theorem Grows.trans {t : Server cfg} (h : Grows s s') (h' : Grows s' t) : Grows s t := by
  constructor
  · intro j q st hj
    obtain ⟨st₁, hj₁, hr₁⟩ := h.session j q st hj
    obtain ⟨st₂, hj₂, hr₂⟩ := h'.session j q st₁ hj₁
    refine ⟨st₂, hj₂, fun hr => ?_⟩
    obtain rfl := hr₁ hr
    exact hr₂ hr
  · intro i u p hi
    obtain ⟨p', hi'⟩ := h.call i u p hi
    exact h'.call i u p' hi'

theorem Grows.length (h : Grows s s') : s.app.sessions.length ≤ s'.app.sessions.length := by
  by_contra hlt
  rw [not_le] at hlt
  obtain ⟨st, hst, -⟩ := h.session _ _ _ (List.getElem?_eq_getElem hlt)
  rw [List.getElem?_eq_none le_rfl] at hst
  cases hst

theorem Rejects.mono {e : Raised} (h : Rejects acts k c e) (hacts : acts <+: acts') :
    Rejects acts' k c e := by
  cases h with
  | unauthorized m h => exact .unauthorized m h
  | invalid => exact .invalid ..
  | uncheckable => exact .uncheckable ..
  | database f h => exact .database f (hacts.subset h)
  | socket => exact .socket ..

theorem Holds.mono {p : Progress} (h : Holds D verifyAsync acts s k c p) (hacts : acts <+: acts')
    (hg : Grows s s') : Holds D verifyAsync acts' s' k c p := by
  cases p with
  | checking i =>
    obtain ⟨hpublic, u, phase, hi, hp⟩ := h
    obtain ⟨phase', hi'⟩ := hg.call i u phase hi
    exact ⟨hpublic, u, phase', hi', hp.mono hacts hg.length⟩
  | connected user => exact ⟨h.1.mono hacts hg.length, h.2⟩
  | identified user => exact ⟨h.1.mono hacts hg.length, h.2⟩
  | session j =>
    obtain ⟨authorization, route, user, q, st, hc, hq, hj⟩ := h
    obtain ⟨st', hj', -⟩ := hg.session j q st hj
    exact ⟨authorization, route, user, q, st', hc, hq, hj'⟩
  | rejected e => exact Rejects.mono h hacts
  | closed => trivial

theorem Handles.mono {x : Except Raised ℕ} (h : Handles acts s x) (hacts : acts <+: acts')
    (hg : Grows s s') : Handles acts' s' x := by
  cases x with
  | ok j =>
    obtain ⟨client, e, q, st, hq, hj⟩ := h
    obtain ⟨st', hj', -⟩ := hg.session j q st hj
    exact ⟨client, e, q, st', hq, hj'⟩
  | error e =>
    rcases h with ⟨k, errors, hk, he⟩ | ⟨k, hk, he⟩
    · exact Or.inl ⟨k, errors, hacts.subset hk, he⟩
    · exact Or.inr ⟨k, hacts.subset hk, he⟩

theorem Core.mono (h : Core D verifyAsync acts s) (hacts : acts <+: acts') :
    Core D verifyAsync acts' s := by
  obtain ⟨as, hrun, has, hreached⟩ := h.app
  exact ⟨⟨as, hrun, fun a ha => (has a ha).imp_right fun h => hacts.subset h,
    fun as' t' has' ht' => (hreached as' t' has' ht').mono hacts⟩, h.cache, h.call,
    fun j q st hj => (h.session j q st hj).mono hacts⟩

/-! ## Handlers -/

theorem getElem?_snoc {α : Type*} {l : List α} {x y : α} {i : ℕ} (h : (l ++ [x])[i]? = some y) :
    l[i]? = some y ∨ i = l.length ∧ y = x := by
  rw [List.getElem?_append] at h
  split_ifs at h with hlt
  · exact Or.inl h
  · obtain ⟨hlen, he⟩ := List.getElem?_eq_some_iff.1 h
    simp only [List.length_singleton, Nat.lt_one_iff] at hlen
    simp only [List.getElem_singleton] at he
    exact Or.inr ⟨by omega, he.symm⟩

theorem grows_submit (q : Request cfg) : Grows s (s.submit q) := by
  refine ⟨fun j q' st hj => ⟨st, ?_, fun _ => rfl⟩, fun i u p hi => ⟨p, hi⟩⟩
  exact (List.getElem?_append_left (List.getElem?_eq_some_iff.1 hj).1).trans hj

theorem submit_session (q : Request cfg) :
    (s.submit q).app.sessions[s.app.sessions.length]? = some (q, .idle (program cfg q)) := by
  simp [submit]

theorem Core.submit (h : Core D verifyAsync acts s) {q : Request cfg}
    (hq : ActsFor D verifyAsync acts s.app.sessions.length q) :
    Core D verifyAsync acts (s.submit q) := by
  obtain ⟨as, hrun, has, hreached⟩ := h.app
  have hrun' : D.runs cfg (as ++ [.submit q]) = some (s.submit q).app :=
    State.run_snoc.2 ⟨_, hrun, rfl⟩
  refine ⟨⟨as ++ [.submit q], hrun', fun a ha => ?_, fun as' t' has' ht' => ?_⟩, h.cache, h.call,
    fun j q' st hj => ?_⟩
  · rcases List.mem_append.1 ha with ha | ha
    · exact has a ha
    · exact Or.inl ⟨q, List.mem_singleton.1 ha⟩
  · rcases List.prefix_concat_iff.1 has' with rfl | has'
    · obtain rfl : (s.submit q).app = t' := Option.some.inj (hrun'.symm.trans ht')
      exact hreached as s.app List.prefix_rfl hrun
    · exact hreached as' t' has' ht'
  · rcases getElem?_snoc hj with hj | ⟨rfl, he⟩
    · exact h.session j q' st hj
    · cases he
      exact hq

variable (D verifyAsync) in
/-- How a guard leaves the server, and its client. -/
structure Guards (acts : List (Action cfg)) (s : Server cfg) (k : ℕ) (c : Client cfg)
    (r : Server cfg × Progress) : Prop where
  core : Core D verifyAsync acts r.1
  grows : Grows s r.1
  holds : Holds D verifyAsync acts r.1 k c r.2
  clients : r.1.clients = s.clients
  events : r.1.events = s.events

theorem Core.rejects (h : Core D verifyAsync acts s) {e : Raised} (he : Rejects acts k c e) :
    Guards D verifyAsync acts s k c (s, .rejected e) := ⟨h, .refl s, he, rfl, rfl⟩

theorem Core.enter (h : Core D verifyAsync acts s) (k : ℕ) {user : Option AuthUser}
    (hnone : user = none → c.isPublic = true)
    (huser : ∀ user', user = some user' →
      Presented D verifyAsync acts s.app.sessions.length user'.userId ∧
        Identifies D.db user'.userId user') :
    Guards D verifyAsync acts s k c (s.enter user c) := by
  cases c with
  | http authorization route =>
    cases hroute : route.handle user with
    | error e =>
      simp only [Server.enter, hroute]
      rcases Route.handle_error hroute with ⟨isPublic, errors, rfl, rfl⟩ | ⟨isPublic, rfl, rfl⟩ |
        ⟨hpublic, m, rfl⟩
      · exact h.rejects (.invalid ..)
      · exact h.rejects (.uncheckable ..)
      · exact h.rejects (.unauthorized m hpublic)
    | ok handling =>
      simp only [Server.enter, hroute]
      cases handling with
      | call q =>
        obtain ⟨hemployee, hlogin, -⟩ := Route.handle_call hroute
        refine ⟨h.submit ?_, grows_submit q,
          ⟨authorization, route, user, q, _, rfl, hroute, submit_session q⟩, rfl, rfl⟩
        cases user with
        | none => exact Or.inl (hlogin (hnone rfl))
        | some user =>
          obtain ⟨hp, hi⟩ := huser user rfl
          exact Or.inr ⟨user.userId, hp, hi.isSome, fun u => hemployee user u rfl⟩
      | reply user' => exact ⟨h, .refl s, huser user' (Route.handle_reply hroute), rfl, rfl⟩
  | socket id handshake =>
    unfold Server.enter
    cases user with
    | none => exact h.rejects (.unauthorized _ rfl)
    | some user =>
      obtain ⟨hp, hi⟩ := huser user rfl
      refine ⟨h.submit (Or.inr ⟨user.userId, hp, hi.isSome, fun u hu => ?_⟩), grows_submit _, ?_,
        rfl, rfl⟩
      · cases hu
        rfl
      · exact ⟨hp.mono (List.prefix_refl _) (grows_submit _).length, hi⟩

theorem Core.proceed (h : Core D verifyAsync acts s) (k : ℕ) (hpublic : c.isPublic = false)
    (hp : Presented D verifyAsync acts s.app.sessions.length u) {user : Option AuthUser}
    (huser : ∀ user', user = some user' → Identifies D.db u user') :
    Guards D verifyAsync acts s k c (s.proceed c user) := by
  unfold Server.proceed
  cases user with
  | none => exact h.rejects (.unauthorized _ hpublic)
  | some user =>
    have hi := huser user rfl
    refine h.enter k (fun hu => by cases hu) fun user' hu' => ?_
    cases hu'
    rw [hi.userId]
    exact ⟨hp, hi⟩

/-! ## Checks -/

theorem Core.identity (h : Core D verifyAsync acts s) {identity : Identity.State}
    (hcache : ∀ u e, identity.cache.get u = some e → Identifies D.db u e.user)
    (hcall : ∀ (i : ℕ) u phase, identity.calls[i]? = some (u, phase) → Truthful D.db u phase) :
    Core D verifyAsync acts { s with identity } := ⟨h.app, hcache, hcall, h.session⟩

/-- A check starts: it is answered from the cache, or it waits for the database. -/
theorem Core.check (h : Core D verifyAsync acts s) {identity : Identity.State}
    (hstep : s.identity.step (.call u) = some identity) :
    Core D verifyAsync acts { s with identity } ∧ Grows s { s with identity } ∧
      ∃ phase, identity.calls[s.identity.calls.length]? = some (u, phase) ∧
        Truthful D.db u phase := by
  have start (phase : Identity.Phase) (hphase : Truthful D.db u phase) :
      Core D verifyAsync acts
        { s with identity := { s.identity with calls := s.identity.calls ++ [(u, phase)] } } ∧
      Grows s { s with identity := { s.identity with calls := s.identity.calls ++ [(u, phase)] } } ∧
      ∃ phase', (s.identity.calls ++ [(u, phase)])[s.identity.calls.length]? = some (u, phase') ∧
        Truthful D.db u phase' := by
    refine ⟨h.identity h.cache fun i v p hi => ?_,
      ⟨fun j q st hj => ⟨st, hj, fun _ => rfl⟩, fun i v p hi => ⟨p, ?_⟩⟩, phase, by simp, hphase⟩
    · rcases getElem?_snoc hi with hi | ⟨-, he⟩
      · exact h.call i v p hi
      · cases he
        exact hphase
    · exact (List.getElem?_append_left (List.getElem?_eq_some_iff.1 hi).1).trans hi
  cases Identity.State.step_next hstep with
  | hit hc =>
    obtain ⟨e, he, -, rfl⟩ := Identity.cachedIdentity_eq_some.1 hc
    exact start _ (h.cache u e he)
  | miss => exact start _ trivial

theorem tokenSubject_ok {now : ℕ} {token : String}
    (h : AuthService.tokenSubject verifyAsync now token = .ok u) :
    ∃ payload, verifyAsync now token = some payload ∧ payload.sub = some u := by
  unfold AuthService.tokenSubject at h
  cases hv : verifyAsync now token with
  | none => rw [hv] at h; cases h
  | some payload =>
    rw [hv] at h
    dsimp only at h
    split at h
    · cases h
    · rename_i sub hsub
      cases h
      exact ⟨payload, rfl, (Option.filter_eq_some_iff.1 hsub).1⟩

theorem tokenSubject_error {now : ℕ} {token : String} {e : Exception}
    (h : AuthService.tokenSubject verifyAsync now token = .error e) : ∃ m, e = .unauthorized m := by
  unfold AuthService.tokenSubject at h
  split at h
  · cases h; exact ⟨_, rfl⟩
  · split at h
    · cases h; exact ⟨_, rfl⟩
    · cases h

theorem Core.verifyToken (h : Core D verifyAsync acts s) (k : ℕ) (hpublic : c.isPublic = false)
    {token : String} (hp : ∀ u payload, verifyAsync s.identity.now token = some payload →
      payload.sub = some u → Presented D verifyAsync acts s.app.sessions.length u) :
    Guards D verifyAsync acts s k c (s.verifyToken verifyAsync c token) := by
  unfold Server.verifyToken
  cases hsub : AuthService.tokenSubject verifyAsync s.identity.now token with
  | error e =>
    obtain ⟨m, rfl⟩ := tokenSubject_error hsub
    exact h.rejects (.unauthorized m hpublic)
  | ok sub =>
    obtain ⟨payload, hpayload, hpsub⟩ := tokenSubject_ok hsub
    have hsubject := hp sub payload hpayload hpsub
    obtain ⟨identity, hstep⟩ : ∃ identity, s.identity.step (.call sub) = some identity := ⟨_, rfl⟩
    obtain ⟨hcore, hgrows, phase, hi, hphase⟩ := h.check hstep
    have hlen := hgrows.length
    simp only [hstep, Option.getD_some]
    cases phase with
    | returned user =>
      simp only [hi]
      have hin : Guards D verifyAsync acts { s with identity } k c
          (Server.proceed { s with identity } c user) := by
        refine hcore.proceed k hpublic hsubject fun user' hu => ?_
        subst hu
        exact hphase
      exact ⟨hin.core, hgrows.trans hin.grows, hin.holds, hin.clients, hin.events⟩
    | reading | answered | failed =>
      simp only [hi]
      exact ⟨hcore, hgrows, ⟨hpublic, sub, _, hi, hsubject⟩, rfl, rfl⟩

theorem Core.guard (h : Core D verifyAsync acts s) (k : ℕ)
    (hp : ∀ token u payload, c.token? = some token →
      verifyAsync s.identity.now token = some payload → payload.sub = some u →
      Presented D verifyAsync acts s.app.sessions.length u) :
    Guards D verifyAsync acts s k c (s.guard verifyAsync c) := by
  cases c with
  | http authorization route =>
    cases hpublic : route.isPublic with
    | true =>
      simp only [Server.guard, hpublic, if_true]
      exact h.enter k (fun _ => hpublic) fun _ hu => by cases hu
    | false =>
      simp only [Server.guard, hpublic, Bool.false_eq_true, if_false]
      cases htoken : extractBearerToken authorization with
      | none => exact h.rejects (.unauthorized _ hpublic)
      | some token =>
        exact h.verifyToken (c := .http authorization route) k hpublic
          fun u payload => hp token u payload htoken
  | socket id handshake =>
    simp only [Server.guard]
    cases htoken : (extractSocketToken handshake).filter (· ≠ "") with
    | none => exact h.rejects (.socket ..)
    | some token => exact h.verifyToken k rfl fun u payload => hp token u payload htoken

/-! ## Runs -/

variable (D verifyAsync) in
structure Inv (acts : List (Action cfg)) (s : Server cfg) : Prop where
  core : Core D verifyAsync acts s
  client : ∀ (k : ℕ) c p, s.clients[k]? = some (c, p) → Holds D verifyAsync acts s k c p
  event : ∀ (i : ℕ) x, s.events[i]? = some x → Handles acts s x

theorem Inv.init : Inv D verifyAsync [] (start D : Server cfg) where
  core :=
    { app := ⟨[], rfl, by simp, fun as' t' has' ht' => by
        obtain rfl := List.prefix_nil.1 has'
        cases ht'
        exact ⟨[], start D, List.prefix_rfl, rfl, rfl⟩⟩
      cache := by rintro u e ⟨⟩
      call := by rintro i u phase ⟨⟩
      session := by rintro j q st ⟨⟩ }
  client := by rintro k c p ⟨⟩
  event := by rintro i x ⟨⟩

theorem Inv.grow (h : Inv D verifyAsync acts s) (hacts : acts <+: acts')
    (hcore : Core D verifyAsync acts' s') (hg : Grows s s') (hclients : s'.clients = s.clients)
    (hevents : s'.events = s.events) : Inv D verifyAsync acts' s' := by
  refine ⟨hcore, fun k c p hk => ?_, fun i x hi => ?_⟩
  · rw [hclients] at hk
    exact (h.client k c p hk).mono hacts hg
  · rw [hevents] at hi
    exact (h.event i x hi).mono hacts hg

theorem Inv.goto (h : Inv D verifyAsync acts s) {p : Progress}
    (hp : Holds D verifyAsync acts s k c p) : Inv D verifyAsync acts (s.goto k c p) := by
  have hg : Grows s (s.goto k c p) := .of_eq rfl rfl
  refine ⟨⟨h.core.app, h.core.cache, h.core.call, h.core.session⟩, fun j c' p' hj => ?_,
    fun i x hi => (h.event i x hi).mono List.prefix_rfl hg⟩
  rw [show (s.goto k c p).clients = s.clients.set k (c, p) from rfl, List.getElem?_set] at hj
  split_ifs at hj with hkj
  · cases hj
    subst hkj
    exact hp.mono (List.prefix_refl _) hg
  · exact (h.client j c' p' hj).mono (List.prefix_refl _) hg

theorem grows_set {identity : Identity.State} {i : ℕ} {phase phase' : Identity.Phase}
    (hi : s.identity.calls[i]? = some (u, phase))
    (hcalls : identity.calls = s.identity.calls.set i (u, phase')) :
    Grows s { s with identity } := by
  refine ⟨fun j q st hj => ⟨st, hj, fun _ => rfl⟩, fun j v p hj => ?_⟩
  rw [hcalls]
  by_cases hij : i = j
  · subst hij
    rw [hi] at hj; cases hj
    exact ⟨phase', List.getElem?_set_self (List.getElem?_eq_some_iff.1 hi).1⟩
  · exact ⟨p, by rw [List.getElem?_set_ne hij]; exact hj⟩

theorem Core.call_set (h : Core D verifyAsync acts s) {i : ℕ} {phase : Identity.Phase}
    (hphase : Truthful D.db u phase) (j : ℕ) (v : String) (p : Identity.Phase)
    (hj : (s.identity.calls.set i (u, phase))[j]? = some (v, p)) : Truthful D.db v p := by
  rw [List.getElem?_set] at hj
  split_ifs at hj with hij
  · cases hj; exact hphase
  · exact h.call j v p hj

/-- The database reads the employee of a check: what it says does not change. -/
theorem Core.read (h : Core D verifyAsync acts s) {i : ℕ}
    (hi : s.identity.calls[i]? = some (u, .reading)) {identity : Identity.State}
    (hrun : s.identity.run [.account u (s.app.db.users.get u), .read i] = some identity) :
    Core D verifyAsync acts { s with identity } ∧ Grows s { s with identity } := by
  obtain ⟨as, has, -⟩ := h.app
  have hemployees := Deployment.employees has
  simp only [Identity.State.run, Identity.State.step, hi, Option.bind_some, Function.update_self,
    Option.some.injEq] at hrun
  subst hrun
  refine ⟨h.identity h.cache (h.call_set ?_), grows_set hi rfl⟩
  cases hrow : s.app.db.users.get u with
  | none =>
    cases hold : D.db.users.get u with
    | none => exact hold
    | some r =>
      have := hemployees.kept u (by rw [hold]; rfl)
      rw [hrow] at this; cases this
  | some row => exact hemployees.identifies.1 ⟨row, hrow, rfl⟩

theorem Core.resume (h : Core D verifyAsync acts s) {i : ℕ} {phase : Identity.Phase}
    (hi : s.identity.calls[i]? = some (u, phase)) {identity : Identity.State}
    (hstep : s.identity.step (.resume i) = some identity) :
    Core D verifyAsync acts { s with identity } ∧ Grows s { s with identity } ∧
      ∃ user, identity.calls[i]? = some (u, .returned user) ∧
        ∀ user', user = some user' → Identifies D.db u user' := by
  cases Identity.State.step_next hstep with
  | @resume _ v row hv =>
    obtain ⟨rfl, rfl⟩ : v = u ∧ phase = .answered row := by
      rw [hi] at hv
      cases hv
      exact ⟨rfl, rfl⟩
    have htrue : Truthful D.db v (.answered row) := h.call i v _ hi
    have hreturn :
        Truthful D.db v (.returned (resolveRow s.identity.cache s.identity.now v row).2) := by
      cases row with
      | none => exact htrue
      | some row => exact htrue
    refine ⟨h.identity (fun w e he => ?_) (h.call_set hreturn), grows_set hi rfl, _,
      List.getElem?_set_self (List.getElem?_eq_some_iff.1 hi).1, fun user' hu => ?_⟩
    · rcases Identity.get_resolveRow he with he | ⟨rfl, r, rfl, rfl⟩
      · exact h.cache w e he
      · exact htrue
    · rw [hu] at hreturn
      exact hreturn

theorem Core.step_app (h : Core D verifyAsync acts s) {x : AppAction cfg} (hx : ∀ q, x ≠ .submit q)
    {app : AppState cfg} (hstep : s.app.step (program cfg) x = some app)
    (hnext : (start D).run verifyAsync (acts ++ [.app x]) = some { s with app }) :
    Core D verifyAsync (acts ++ [.app x]) { s with app } ∧ Grows s { s with app } := by
  obtain ⟨as, hrun, has, hreached⟩ := h.app
  have hrun' : D.runs cfg (as ++ [x]) = some app := State.run_snoc.2 ⟨_, hrun, hstep⟩
  refine ⟨⟨⟨as ++ [x], hrun', fun b hb => ?_, fun as' t' has' ht' => ?_⟩, h.cache, h.call,
    fun j q st hj => ?_⟩, fun j q st hj => ?_, fun i v p hi => ⟨p, hi⟩⟩
  · rcases List.mem_append.1 hb with hb | hb
    · exact (has b hb).imp_right fun h => List.mem_append_left _ h
    · rw [List.mem_singleton.1 hb]
      exact Or.inr (List.mem_append_right _ (List.mem_singleton_self _))
  · rcases List.prefix_concat_iff.1 has' with rfl | has'
    · obtain rfl : app = t' := Option.some.inj (hrun'.symm.trans ht')
      exact ⟨_, _, List.prefix_rfl, hnext, rfl⟩
    · exact (hreached as' t' has' ht').mono (List.prefix_append ..)
  · obtain ⟨st₀, hj₀⟩ : ∃ st₀, s.app.sessions[j]? = some (q, st₀) := by
      rcases State.session_cases hstep hj with ⟨st₀, hm⟩ | hj | ⟨rfl, -⟩
      · exact ⟨st₀, hm.session⟩
      · exact ⟨st, hj⟩
      · exact absurd rfl (hx q)
    exact (h.session j q st₀ hj₀).mono (List.prefix_append ..)
  · obtain ⟨st', hj'⟩ := State.session_kept hstep hj
    refine ⟨st', hj', fun hr => ?_⟩
    have hsame := State.replied_step hstep hj hr
    rw [hj'] at hsame; cases hsame
    rfl

/-- **What one step keeps.** -/
theorem Inv.step (h : Inv D verifyAsync acts s) (hrun : (start D).run verifyAsync acts = some s)
    (hstep : s.step verifyAsync a = some s') : Inv D verifyAsync (acts ++ [a]) s' ∧ Grows s s' := by
  have hacts : acts <+: acts ++ [a] := List.prefix_append ..
  have hcore := h.core.mono hacts
  cases step_next hstep with
  | arrive c =>
    have hg := hcore.guard (c := c) s.clients.length fun token u payload htoken hpayload hsub =>
      ⟨acts, c, s, token, payload, List.prefix_rfl, hrun, le_rfl, htoken, hpayload, hsub⟩
    refine ⟨⟨⟨hg.core.app, hg.core.cache, hg.core.call, hg.core.session⟩, fun k c' p' hk => ?_,
      fun i x hi => ?_⟩, hg.grows.trans (.of_eq rfl rfl)⟩
    · rw [hg.clients] at hk
      rcases getElem?_snoc hk with hk | ⟨rfl, he⟩
      · exact (h.client k c' p' hk).mono hacts ⟨hg.grows.session, hg.grows.call⟩
      · cases he
        exact hg.holds.mono (List.prefix_refl _) (.of_eq rfl rfl)
    · rw [hg.events] at hi
      exact (h.event i x hi).mono hacts ⟨hg.grows.session, hg.grows.call⟩
  | read _ hi hidentity =>
    obtain ⟨hcore, hg⟩ := hcore.read hi hidentity
    exact ⟨h.grow hacts hcore hg rfl rfl, hg⟩
  | @fault k i c f _ hk hfail =>
    cases Identity.State.step_next hfail with
    | @fail _ u hi =>
      let failed : Server cfg := { s with
        identity := { s.identity with calls := s.identity.calls.set i (u, .failed) } }
      have hg : Grows s failed := grows_set hi rfl
      have hphase : Truthful D.db u .failed := trivial
      have hcore : Core D verifyAsync (acts ++ [.fault k f]) failed :=
        hcore.identity hcore.cache (hcore.call_set hphase)
      have hrejects : Rejects (acts ++ [.fault k f]) k c (.query f) :=
        .database f (List.mem_append_right _ (List.mem_singleton_self _))
      exact ⟨(h.grow hacts hcore hg rfl rfl).goto hrejects, hg.trans (.of_eq rfl rfl)⟩
  | @resume k i c u user _ hk hresume hi =>
    obtain ⟨hpublic, v, phase, hv, hp⟩ := (h.client k c _ hk).mono hacts (.refl s)
    obtain ⟨hcore, hg, user', hi', huser⟩ := hcore.resume hv hresume
    rw [hi] at hi'; cases hi'
    have hproceed := hcore.proceed k hpublic (hp.mono (List.prefix_refl _) hg.length) huser
    have hgrows := hg.trans hproceed.grows
    exact ⟨(h.grow hacts hproceed.core hgrows hproceed.clients hproceed.events).goto hproceed.holds,
      hgrows.trans (.of_eq rfl rfl)⟩
  | @event k id handshake user e q hk hq =>
    obtain ⟨hp, hi⟩ := (h.client k _ _ hk).mono hacts (.refl s)
    have hemployee : ∀ u, q.employee? = some u → u = user.userId := by
      intro u hu
      cases e <;> cases hq <;> exact (Option.some.inj hu).symm
    have hsubmit := hcore.submit (Or.inr ⟨user.userId, hp, hi.isSome, hemployee⟩)
    have hinv := h.grow hacts hsubmit (grows_submit q) rfl rfl
    refine ⟨⟨⟨hsubmit.app, hsubmit.cache, hsubmit.call, hsubmit.session⟩,
      fun k c p hk => (hinv.client k c p hk).mono (List.prefix_refl _) (.of_eq rfl rfl),
      fun i x hi => ?_⟩, (grows_submit q).trans (.of_eq rfl rfl)⟩
    rcases getElem?_snoc hi with hi | ⟨-, rfl⟩
    · exact (hinv.event i x hi).mono List.prefix_rfl (.of_eq rfl rfl)
    · exact ⟨_, e, q, _, hq, submit_session q⟩
  | @invalid k id handshake user e x hk hx =>
    refine ⟨⟨⟨hcore.app, hcore.cache, hcore.call, hcore.session⟩,
      fun k c p hk => (h.client k c p hk).mono hacts (.of_eq rfl rfl), fun i y hi => ?_⟩,
      .of_eq rfl rfl⟩
    rcases getElem?_snoc hi with hi | ⟨-, rfl⟩
    · exact (h.event i y hi).mono hacts (.of_eq rfl rfl)
    · have hsent : .event k e ∈ acts ++ [.event k e] :=
        List.mem_append_right _ (List.mem_singleton_self _)
      cases e with
      | invalid errors => cases hx; exact Or.inl ⟨k, errors, hsent, rfl⟩
      | uncheckable => cases hx; exact Or.inr ⟨k, hsent, rfl⟩
      | joinChat | leaveChat | sendMessage | markRead => cases hx
  | @disconnect k id handshake user hk =>
    obtain ⟨hp, hi⟩ := (h.client k _ _ hk).mono hacts (.refl s)
    have hsubmit := hcore.submit (q := .disconnect ⟨id, user.userId⟩)
      (Or.inr ⟨user.userId, hp, hi.isSome, fun u hu => by cases hu; rfl⟩)
    exact ⟨(h.grow hacts hsubmit (grows_submit _) rfl rfl).goto trivial,
      (grows_submit _).trans (.of_eq rfl rfl)⟩
  | app hx happ =>
    obtain ⟨hcore, hg⟩ := h.core.step_app hx happ (run_snoc.2 ⟨s, hrun, hstep⟩)
    exact ⟨h.grow hacts hcore hg rfl rfl, hg⟩
  | tick =>
    exact ⟨h.grow hacts ⟨hcore.app, hcore.cache, hcore.call, hcore.session⟩ (.of_eq rfl rfl) rfl rfl,
      .of_eq rfl rfl⟩

theorem Inv.run (hrun : (start D).run verifyAsync acts = some s) : Inv D verifyAsync acts s := by
  induction acts using List.reverseRecOn generalizing s with
  | nil => cases hrun; exact .init
  | append_singleton acts a ih =>
    obtain ⟨t, ht, hstep⟩ := run_snoc.1 hrun
    exact ((ih ht).step ht hstep).1

theorem sampleNumber_ok : isPhone "020-5555-0102" = true := by decide +kernel

end Server

end Marketplace
