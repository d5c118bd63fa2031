/-
  What the errors of the server say about the cause of a failure.

  `Fails` lists the causes an HTTP request can fail for, and `Event` those of a
  socket event; the envelopes follow from them.
-/
import Marketplace.Proof.Server

namespace Marketplace

open ReadCommitted AuthService

variable {cfg : Config}

/-! ## Envelopes -/

/-- The failure has a status of its own. -/
def IsMapped (f : QueryFailedError) : Prop := ∃ code ∈ f.code, (DB_ERROR_MAPPINGS.lookup code).isSome

theorem resolve_query (f : QueryFailedError) :
    (AllExceptionsFilter.resolve (.query f)).errors = [] ∧
      ((AllExceptionsFilter.resolve (.query f)).statusCode ∈ [400, 409] ∧ IsMapped f ∨
        AllExceptionsFilter.resolve (.query f) = ⟨500, "Internal server error", []⟩ ∧ ¬ IsMapped f) := by
  simp only [AllExceptionsFilter.resolve]
  cases h : f.code.bind fun code => DB_ERROR_MAPPINGS.lookup code with
  | none =>
    refine ⟨rfl, Or.inr ⟨rfl, ?_⟩⟩
    rintro ⟨code, hcode, hsome⟩
    rw [Option.mem_def.1 hcode, Option.bind_some] at h
    rw [h] at hsome; cases hsome
  | some x =>
    obtain ⟨code, hcode, hx⟩ := Option.bind_eq_some_iff.1 h
    refine ⟨rfl, Or.inl ⟨?_, code, hcode, by rw [hx]; rfl⟩⟩
    obtain ⟨l, l', hl, -⟩ := List.lookup_eq_some_iff.1 hx
    have hmem : (code, x) ∈ DB_ERROR_MAPPINGS := hl ▸ by simp
    have hall : ∀ y ∈ DB_ERROR_MAPPINGS, y.2.1 ∈ [400, 409] := by decide
    exact hall _ hmem

theorem resolve_expected {q : Request cfg} (hq : ∀ client dto, q ≠ .sendMessage client dto)
    {x : Exception} (hquery : ∀ f, x ≠ .query f) (hx : Expected q x) :
    (AllExceptionsFilter.resolve x.raised).errors = [] ∧
      ((AllExceptionsFilter.resolve x.raised).statusCode ∈ [400, 403, 404] ∨
        (AllExceptionsFilter.resolve x.raised).statusCode = 409 ∧ q.conflicts = true ∨
        (∃ dto, q = .login dto) ∧
          AllExceptionsFilter.resolve x.raised = ⟨401, INVALID_CREDENTIALS, []⟩) := by
  cases x with
  | badRequest m => exact ⟨rfl, Or.inl (by simp [AllExceptionsFilter.resolve, Exception.raised])⟩
  | forbidden m => exact ⟨rfl, Or.inl (by simp [AllExceptionsFilter.resolve, Exception.raised])⟩
  | notFound m => exact ⟨rfl, Or.inl (by simp [AllExceptionsFilter.resolve, Exception.raised])⟩
  | conflict m => exact ⟨rfl, Or.inr (Or.inl ⟨rfl, hx⟩)⟩
  | unauthorized m =>
    obtain ⟨hlogin, rfl⟩ := hx
    exact ⟨rfl, Or.inr (Or.inr ⟨hlogin, by decide +kernel⟩)⟩
  | ws m =>
    obtain ⟨client, dto, h⟩ := hx
    exact absurd h (hq client dto)
  | query f => exact absurd rfl (hquery f)
  | payloadTooLarge m | internalServerError m => exact hx.elim

theorem toPayload_expected {q : Request cfg} (hconflicts : q.conflicts = false)
    (hoffset : q.offsetError = none) (hlogin : ∀ dto, q ≠ .login dto) {x : Exception}
    (hx : Expected q x) :
    (WsExceptionsFilter.toPayload x.raised).errors = [] ∧
      (WsExceptionsFilter.toPayload x.raised).statusCode ∈ [400, 403, 404] := by
  cases x with
  | badRequest m | forbidden m | notFound m | ws m =>
    exact ⟨rfl, by simp [WsExceptionsFilter.toPayload, Exception.raised]⟩
  | conflict m => rw [Expected, hconflicts] at hx; cases hx
  | unauthorized m =>
    obtain ⟨⟨dto, h⟩, -⟩ := hx
    exact absurd h (hlogin dto)
  | query f => rw [Expected, hoffset] at hx; cases hx
  | payloadTooLarge m | internalServerError m => exact hx.elim

theorem SocketEvent.handle_ok {client : ChatSocket} {e : SocketEvent} {q : Request cfg}
    (h : e.handle client = .ok q) :
    q.conflicts = false ∧ q.offsetError = none ∧ ∀ dto, q ≠ .login dto := by
  cases e with
  | joinChat | leaveChat | sendMessage | markRead =>
    cases h; exact ⟨rfl, rfl, fun dto h => by cases h⟩
  | invalid | uncheckable => cases h

namespace Server

variable {D : Deployment} {verifyAsync : ℕ → String → Option JwtPayload}
  {acts : List (Action cfg)} {s : Server cfg} {k j n : ℕ} {body : ErrorBody}

theorem session_failed (hrun : (start D).run verifyAsync acts = some s) {q : Request cfg}
    {st : Stage market} (hj : s.app.sessions[j]? = some (q, st)) {e : Thrown}
    (he : s.sessionReply? j = some (.error e)) :
    (∃ x, e = .app x ∧ Expected q x) ∨ ∃ f, e = .db f ∧ .app (.fault j f) ∈ acts := by
  obtain ⟨as, has, hacts, -⟩ := (Inv.run hrun).core.app
  have hst : st.reply? = some (.error e) := by simpa [sessionReply?, hj] using he
  obtain rfl := Stage.reply?_eq_some.1 hst
  have h := Deployment.accounted has hj
  cases e with
  | app x => exact Or.inl ⟨x, rfl, h⟩
  | db f =>
    rcases hacts _ (mem_faults.1 h) with ⟨q, h⟩ | h
    · cases h
    · exact Or.inr ⟨f, rfl, h⟩

/-- The database has failed client `k`, in its guard or in its session, or it refuses the page that the
    client asks for. -/
def Met (acts : List (Action cfg)) (s : Server cfg) (k : ℕ) (p : Progress) (f : QueryFailedError) :
    Prop :=
  .fault k f ∈ acts ∨ ∃ j, p = .session j ∧ (.app (.fault j f) ∈ acts ∨
    ∃ q st, s.app.sessions[j]? = some (q, st) ∧ q.offsetError = some f)

/-- Why an HTTP request fails. -/
inductive Fails (acts : List (Action cfg)) (s : Server cfg) (k : ℕ) (p : Progress) :
    Route cfg → Raised → Prop
  | unauthorized {route : Route cfg} (m : String) : route.isPublic = false →
    Fails acts s k p route (Exception.unauthorized m).raised
  | invalid (isPublic : Bool) (errors : List ValidationError) :
    Fails acts s k p (.invalid isPublic errors) (validationFailed errors)
  | uncheckable (isPublic : Bool) : Fails acts s k p (.uncheckable isPublic) .other
  | database {route : Route cfg} (f : QueryFailedError) : Met acts s k p f →
    Fails acts s k p route (.query f)
  | expected {route : Route cfg} {j : ℕ} {q : Request cfg} {st : Stage market} {x : Exception} :
    p = .session j → s.app.sessions[j]? = some (q, st) → (∀ dto, q = .login dto → route = .login dto) →
    (∀ client dto, q ≠ .sendMessage client dto) → (∀ f, x ≠ .query f) → Expected q x →
    Fails acts s k p route x.raised

theorem reply?_error (hreply : s.reply? k = some (.error body)) :
    ∃ authorization route p, s.clients[k]? = some (.http authorization route, p) := by
  unfold reply? at hreply
  split at hreply
  · exact ⟨_, _, _, ‹_›⟩
  · exact ⟨_, _, _, ‹_›⟩
  · cases hreply
  · split_ifs at hreply <;> cases hreply
  · cases hreply

theorem http_fails (hrun : (start D).run verifyAsync acts = some s)
    {authorization : Option HeaderValue} {route : Route cfg} {p : Progress}
    (hk : s.clients[k]? = some (.http authorization route, p))
    (hreply : s.reply? k = some (.error body)) :
    ∃ e, body = AllExceptionsFilter.resolve e ∧ Fails acts s k p route e := by
  have hholds := (Inv.run hrun).client k _ p hk
  simp only [reply?, hk] at hreply
  cases p with
  | checking | connected | closed => cases hreply
  | identified user => cases hreply
  | rejected e =>
    obtain rfl : AllExceptionsFilter.resolve e = body := by simpa using hreply
    refine ⟨e, rfl, ?_⟩
    cases hholds with
    | unauthorized m hpublic => exact .unauthorized m hpublic
    | invalid authorization isPublic errors => exact .invalid isPublic errors
    | uncheckable authorization isPublic => exact .uncheckable isPublic
    | database f hf => exact .database f (Or.inl hf)
  | session j =>
    obtain ⟨x, hx, hbody⟩ := Option.map_eq_some_iff.1 hreply
    cases x with
    | ok r => cases hbody
    | error e =>
      obtain rfl : AllExceptionsFilter.resolve (raised e) = body := by simpa using hbody
      refine ⟨raised e, rfl, ?_⟩
      obtain ⟨_, _, user, q, st, ⟨⟩, hroute, hj⟩ := hholds
      obtain ⟨-, -, hlogin, hmessage⟩ := Route.handle_call hroute
      rcases session_failed hrun hj hx with ⟨x, rfl, hexpected⟩ | ⟨f, rfl, hf⟩
      · by_cases hquery : ∃ f, x = .query f
        · obtain ⟨f, rfl⟩ := hquery
          exact .database f (Or.inr ⟨j, rfl, Or.inr ⟨q, st, hj, hexpected⟩⟩)
        · exact .expected rfl hj hlogin hmessage (not_exists.1 hquery) hexpected
      · exact .database f (Or.inr ⟨j, rfl, Or.inl hf⟩)

/-- **What an HTTP error says.**  There are six statuses, besides the one of the rate limit.  Lists of
    field errors come from failed validation; 401 from the guard, or from a login, which does not say
    what was wrong; 409 from requests that the status of an item or an order can be in the way of, or
    from the database; 500 from the database, or from an input that the validation throws on, and says
    nothing about the failure. -/
theorem http_errors (hrun : (start D).run verifyAsync acts = some s)
    (hreply : s.reply? k = some (.error body)) : ∃ authorization route p,
    s.clients[k]? = some (.http authorization route, p) ∧
    body.statusCode ∈ [400, 401, 403, 404, 409, 500] ∧
    (body.errors ≠ [] → ∃ isPublic errors, route = .invalid isPublic errors ∧
      body = ⟨400, "Validation failed", flattenValidationErrors "" errors⟩) ∧
    (body.statusCode = 401 → route.isPublic = false ∨
      (∃ dto, route = .login dto) ∧ body = ⟨401, INVALID_CREDENTIALS, []⟩) ∧
    (body.statusCode = 409 → (∃ j q st, p = .session j ∧ s.app.sessions[j]? = some (q, st) ∧
      q.conflicts = true) ∨ ∃ f, Met acts s k p f ∧ IsMapped f) ∧
    (body.statusCode = 500 → body = ⟨500, "Internal server error", []⟩ ∧
      ((∃ f, Met acts s k p f ∧ ¬ IsMapped f) ∨ ∃ isPublic, route = .uncheckable isPublic)) := by
  obtain ⟨authorization, route, p, hk⟩ := reply?_error hreply
  obtain ⟨e, rfl, hfails⟩ := http_fails hrun hk hreply
  refine ⟨authorization, route, p, hk, ?_⟩
  cases hfails with
  | unauthorized m hpublic =>
    simp [AllExceptionsFilter.resolve, Exception.raised, hpublic]
  | invalid isPublic errors =>
    have hbody : AllExceptionsFilter.resolve (validationFailed errors) =
        ⟨400, "Validation failed", flattenValidationErrors "" errors⟩ := by
      rw [validationFailed, AllExceptionsFilter.resolve, show withUploadHint _ = "Validation failed" by
        decide +kernel]
    rw [hbody]
    exact ⟨by simp, fun _ => ⟨isPublic, errors, rfl, rfl⟩, by simp⟩
  | uncheckable isPublic =>
    have hbody : AllExceptionsFilter.resolve .other = ⟨500, "Internal server error", []⟩ := rfl
    rw [hbody]
    exact ⟨by decide, fun h => absurd rfl h, by simp, by simp,
      fun _ => ⟨rfl, Or.inr ⟨isPublic, rfl⟩⟩⟩
  | database f hf =>
    obtain ⟨herrors, ⟨hstatus, hmapped⟩ | ⟨hbody, hunmapped⟩⟩ := resolve_query f
    · simp only [List.mem_cons, List.not_mem_nil, or_false] at hstatus
      refine ⟨by rcases hstatus with h | h <;> simp [h], fun h => absurd herrors h, ?_,
        fun _ => Or.inr ⟨f, hf, hmapped⟩, ?_⟩
      · rcases hstatus with h | h <;> simp [h]
      · rcases hstatus with h | h <;> simp [h]
    · rw [hbody]
      exact ⟨by decide, fun h => absurd rfl h, by simp, by simp,
        fun _ => ⟨rfl, Or.inl ⟨f, hf, hunmapped⟩⟩⟩
  | expected hp hj hlogin hmessage hquery hx =>
    obtain ⟨herrors, hstatus | ⟨hstatus, hconflicts⟩ | ⟨⟨dto, hq⟩, hbody⟩⟩ :=
      resolve_expected hmessage hquery hx
    · simp only [List.mem_cons, List.not_mem_nil, or_false] at hstatus
      exact ⟨by rcases hstatus with h | h | h <;> simp [h], fun h => absurd herrors h,
        by rcases hstatus with h | h | h <;> simp [h]⟩
    · exact ⟨by simp [hstatus], fun h => absurd herrors h, by simp [hstatus],
        fun _ => Or.inl ⟨_, _, _, hp, hj, hconflicts⟩, by simp [hstatus]⟩
    · rw [hbody]
      exact ⟨by decide, fun h => absurd rfl h, fun _ => Or.inr ⟨⟨dto, hlogin dto hq⟩, rfl⟩,
        by simp, by simp⟩

def Reply.errorBody? : Reply → Option ErrorBody
  | .error body => some body
  | _ => none

theorem Reply.errorBody?_eq_some {r : Reply} : r.errorBody? = some body ↔ r = .error body := by
  cases r <;> simp [Reply.errorBody?]

def Client.isLogin : Client cfg → Bool
  | .http _ (.login _) => true
  | _ => false

/-- The database fails while the buyer logs in. -/
def sampleOutage : List (Action sample) :=
  [.arrive (.http none (.login (sampleLogin "020-5555-0102" sampleNumber_ok))), .app (.exec 0),
    .app (.fault 0 ⟨none⟩)]

theorem http_errors_sample : ∃ s p,
    (start (.migrated sampleUsers)).run (fun _ _ => none) sampleOutage = some s ∧
    s.reply? 0 = some (.error ⟨500, "Internal server error", []⟩) ∧
    ∃ f, Met sampleOutage s 0 p f ∧ ¬ IsMapped f := by
  obtain ⟨s, hrun, hs⟩ : ∃ s,
      (start (.migrated sampleUsers)).run (fun _ _ => none) sampleOutage = some s ∧
      (((s.reply? 0).any fun r => r.errorBody? = some ⟨500, "Internal server error", []⟩) &&
        s.clients[0]?.any fun c => Client.isLogin c.1) = true :=
    (Option.any_eq_true ..).1 (by decide +kernel)
  simp only [Bool.and_eq_true, Option.any_eq_true, decide_eq_true_eq] at hs
  obtain ⟨⟨r, hr, hbody⟩, c, hc, hlogin⟩ := hs
  obtain rfl := Reply.errorBody?_eq_some.1 hbody
  obtain ⟨authorization, route, p, hk, -, -, -, -, h500⟩ := http_errors hrun hr
  refine ⟨s, p, hrun, hr, (h500 rfl).2.resolve_right ?_⟩
  rintro ⟨isPublic, rfl⟩
  rw [hk] at hc
  cases hc
  cases hlogin

/-- **What the error of a socket event says**: lists of field errors come from failed validation; 500
    from the database, or from an input that the validation throws on, and says nothing about the
    failure. -/
theorem ack_errors (hrun : (start D).run verifyAsync acts = some s)
    (hack : s.ack? n = some (.error body)) :
    body.statusCode ∈ [400, 403, 404, 500] ∧
    (body.errors ≠ [] → ∃ k errors, .event k (.invalid errors) ∈ acts ∧
      s.events[n]? = some (.error (wsValidationFailed errors)) ∧
      body = ⟨400, "Validation failed", flattenValidationErrors "" errors⟩) ∧
    (body.statusCode = 500 → body = ⟨500, "Internal server error", []⟩ ∧
      ((∃ j f, s.events[n]? = some (.ok j) ∧ .app (.fault j f) ∈ acts) ∨
        ∃ k, .event k .uncheckable ∈ acts ∧ s.events[n]? = some (.error .other))) := by
  have hinv := Inv.run hrun
  unfold ack? at hack
  cases hn : s.events[n]? with
  | none => rw [hn] at hack; cases hack
  | some x =>
    rw [hn] at hack
    have hhandles := hinv.event n x hn
    cases x with
    | error e =>
      rcases hhandles with ⟨k, errors, hsent, rfl⟩ | ⟨k, hsent, rfl⟩
      · obtain rfl : WsExceptionsFilter.toPayload (wsValidationFailed errors) = body := by
          simpa using hack
        have hbody : WsExceptionsFilter.toPayload (wsValidationFailed errors) =
            ⟨400, "Validation failed", flattenValidationErrors "" errors⟩ := rfl
        rw [hbody]
        exact ⟨by simp, fun _ => ⟨k, errors, hsent, rfl, rfl⟩, by simp⟩
      · obtain rfl : WsExceptionsFilter.toPayload .other = body := by simpa using hack
        have hbody : WsExceptionsFilter.toPayload .other = ⟨500, "Internal server error", []⟩ := rfl
        rw [hbody]
        exact ⟨by simp, fun h => absurd rfl h, fun _ => ⟨rfl, Or.inr ⟨k, hsent, rfl⟩⟩⟩
    | ok j =>
      obtain ⟨client, e, q, st, hq, hj⟩ := hhandles
      obtain ⟨x, hx, hbody⟩ := Option.map_eq_some_iff.1 hack
      cases x with
      | ok r => cases hbody
      | error t =>
        obtain rfl : WsExceptionsFilter.toPayload (raised t) = body := by simpa using hbody
        obtain ⟨hconflicts, hoffset, hlogin⟩ := SocketEvent.handle_ok hq
        rcases session_failed hrun hj hx with ⟨x, rfl, hexpected⟩ | ⟨f, rfl, hf⟩
        · obtain ⟨herrors, hstatus⟩ := toPayload_expected hconflicts hoffset hlogin hexpected
          simp only [List.mem_cons, List.not_mem_nil, or_false] at hstatus
          refine ⟨by rcases hstatus with h | h | h <;> simp [raised, h],
            fun h => absurd herrors h, by rcases hstatus with h | h | h <;> simp [raised, h]⟩
        · have hbody : WsExceptionsFilter.toPayload (raised (.db f)) =
              ⟨500, "Internal server error", []⟩ := rfl
          rw [hbody]
          exact ⟨by simp, fun h => absurd rfl h, fun _ => ⟨rfl, Or.inl ⟨j, f, rfl, hf⟩⟩⟩

/-- The database fails while the buyer sends a message. -/
def sampleLost : List (Action sample) :=
  [.arrive (.socket "s" ⟨some "EMP00102", none, none⟩), .read 0, .resume 0,
    .event 0 (.sendMessage sampleHello), .app (.exec 1), .app (.fault 1 ⟨none⟩)]

theorem ack_errors_sample : ∃ s,
    (start (.migrated sampleUsers)).run (fun _ token => some ⟨some token⟩) sampleLost = some s ∧
    s.ack? 0 = some (.error ⟨500, "Internal server error", []⟩) ∧
    ∃ j f, s.events[0]? = some (.ok j) ∧ .app (.fault j f) ∈ sampleLost := by
  obtain ⟨s, hrun, hs⟩ : ∃ s,
      (start (.migrated sampleUsers)).run (fun _ token => some ⟨some token⟩) sampleLost = some s ∧
      ((s.ack? 0).any fun r => r.errorBody? = some ⟨500, "Internal server error", []⟩) = true :=
    (Option.any_eq_true ..).1 (by decide +kernel)
  obtain ⟨r, hr, hbody⟩ := (Option.any_eq_true ..).1 hs
  obtain rfl := Reply.errorBody?_eq_some.1 (of_decide_eq_true hbody)
  refine ⟨s, hrun, hr, ((ack_errors hrun hr).2.2 rfl).2.resolve_right ?_⟩
  rintro ⟨k, hk, -⟩
  simp [sampleLost] at hk

end Server

end Marketplace
