/-
  Concurrent updates of a profile: what a save does to the columns its request
  does not mention, and when no update is lost.
-/
import Marketplace.Proof.Unread
import Marketplace.Proof.Responses

namespace Marketplace

open ReadCommitted UsersService

variable {cfg : Config}

/-! ## Columns -/

/-- The columns `updateProfile` sets. -/
inductive Field where
  | phoneNumber
  | qrPaymentUrl

namespace Field

def value : Field → User → Option String
  | phoneNumber, r => r.phoneNumber
  | qrPaymentUrl, r => r.qrPaymentUrl

/-- What a request sets the column to, if it mentions it. -/
def set (dto : UpdateProfileDto cfg) : Field → Option (Option String)
  | phoneNumber => dto.phoneNumber.map some
  | qrPaymentUrl => match dto.qrPaymentUrl with
    | .undefined => none
    | .null => some none
    | .value url => some (some url)

/-- The column of the employee `u`. -/
def stored (f : Field) (u : String) (d : Database) : Option (Option String) :=
  (d.users.get u).map f.value

variable {d : Database} {u : String} {r : User} {f : Field}

theorem stored_eq (h : d.users.get u = some r) : f.stored u d = some (f.value r) := by
  simp [stored, h]

theorem merged (f : Field) (dto : UpdateProfileDto cfg) (r₀ r₁ : User)
    (h : profile u r₁ = merge cfg (profile u r₀) dto) :
    f.value r₁ = (f.set dto).getD (f.value r₀) := by
  cases f with
  | phoneNumber =>
    refine (congrArg Profile.phoneNumber h).trans ?_
    cases hp : dto.phoneNumber <;> simp [merge, set, hp, profile, value]
  | qrPaymentUrl =>
    refine (congrArg Profile.qrPaymentUrl h).trans ?_
    cases hq : dto.qrPaymentUrl <;> simp [merge, set, hq, profile, value]

/-- **What a save does to a column**: the value of the request, or the one that was loaded, is written
    if the row had another one when it was read again. -/
theorem value_savedRow (f : Field) (dto : UpdateProfileDto cfg) (r₀ r₁ r : User) :
    f.value (savedRow cfg u dto r₀ r₁ r) =
      if (f.set dto).getD (f.value r₀) = f.value r₁ then f.value r
      else (f.set dto).getD (f.value r₀) := by
  cases f with
  | phoneNumber =>
    cases hp : dto.phoneNumber <;> simp [savedRow, merge, set, hp, profile, value]
  | qrPaymentUrl =>
    cases hq : dto.qrPaymentUrl <;> simp [savedRow, merge, set, hq, profile, value]

end Field

/-- Only `updateProfile` changes the columns. -/
theorem Emits.field_kept {base : Database → Prop} {q : Request cfg} {e : Event} {L : List Key}
    {d d' : Database} {u : String} (he : Emits cfg base q e L d d') (f : Field)
    (hq : ∀ dto, q ≠ .updateProfile u dto) : f.stored u d' = f.stored u d := by
  have put {v : String} {r r' : User} (hr : d.users.get v = some r) (hv : f.value r' = f.value r) :
      f.stored u (d.put (.user v) r') = f.stored u d := by
    simp only [Field.stored, Database.put, Table.get_put_eq]
    split_ifs with h
    · subst h; simp [hr, hv]
    · rfl
  have same {r : User} {t : Option String} : f.value { r with fcmToken := t } = f.value r := by
    cases f <;> rfl
  cases he with
  | listItem | setItemStatus | placeOrder | completeOrder | attachSlip | sendMessage | notify => rfl
  | cancelOrder => simp only [Field.stored, cancelled_users]
  | readMessages _ hr => obtain ⟨t, rfl⟩ := hr.frame; rfl
  | readNotifications _ hr => obtain ⟨t, rfl⟩ := hr.frame; rfl
  | clearToken hr | forgetToken _ hr => exact put hr same
  | claimToken hc =>
    simp only [Field.stored]
    rcases hc.cases u with h | ⟨r, hr, t, hr'⟩
    · rw [h]
    · simp [hr, hr', same]
  | @saveProfile v dto =>
    have hv : u ≠ v := fun h => hq dto (h ▸ rfl)
    simp only [Field.stored, Database.put, Table.get_put_ne _ _ hv]

/-! ## A request of `updateProfile` -/

section
variable (u : String) (dto : UpdateProfileDto cfg)

/-- A transaction that fails ends the request. -/
def EndsWithFailure {β : Type} (k : Except Thrown β → Program) : Prop := ∀ e, ∃ e', k (.error e) = fail e'

/-- After the profile has been loaded from `d₀`: the request fails, or saves the merged profile. -/
def Loaded (d₀ : Database) (p : Program) : Prop :=
  (∃ e, p = fail e) ∨ ∃ r₀, d₀.users.get u = some r₀ ∧
    p = save (merge cfg (profile u r₀) dto) fun p => answer (.profile p)

/-- After the row has been read again: there is nothing to write, or the columns that differ. -/
inductive Compared (r₀ r₁ : User) : Program → Prop
  | same {p} : profile u r₁ = merge cfg (profile u r₀) dto → Compared r₀ r₁ (answer (.profile p))
  | write {k} : EndsWithFailure k → (∀ n, ∃ p, k (.ok n) = answer (.profile p)) →
    Compared r₀ r₁ (.tx (.update (.user u) (fun _ => true) (savedRow cfg u dto r₀ r₁) .commit) k)

/-- The stages of a request, with what it has read, while the committed database is `d`. -/
inductive Saving : List Database → Database → Stage market → Prop
  | start {d} : Saving [] d (.idle (updateProfile cfg u dto))
  | failed {l d x} : Saving l d (.idle (fail x))
  | load {d now k} : EndsWithFailure k →
    (∀ d₀ : Database, Loaded u dto d₀ (k (.ok ((d₀.users.get u).map (profile u))))) →
    Saving [] d (.active now [] [] (.select (fun d => (d.users.get u).map (profile u)) .commit) k)
  | loaded {d₀ d now k} {x : Option Profile} : EndsWithFailure k → Loaded u dto d₀ (k (.ok x)) →
    ((d₀.users.get u).isSome → (d.users.get u).isSome) →
    Saving [d₀] d (.active now [] [] (.commit x) k)
  | save {d₀ r₀ d} : d₀.users.get u = some r₀ → (d.users.get u).isSome →
    Saving [d₀] d (.idle (save (merge cfg (profile u r₀) dto) fun p => answer (.profile p)))
  | compare {d₀ r₀ d now k} : d₀.users.get u = some r₀ → (d.users.get u).isSome →
    EndsWithFailure k → (∀ (d₁ : Database) r₁, d₁.users.get u = some r₁ →
      Compared u dto r₀ r₁ (k (.ok ((d₁.users.get u).map (profile u))))) →
    Saving [d₀] d (.active now [] [] (.select (fun d => (d.users.get u).map (profile u)) .commit) k)
  | compared {d₀ r₀ d₁ r₁ d now k} {x : Option Profile} : d₀.users.get u = some r₀ →
    d₁.users.get u = some r₁ → (d.users.get u).isSome → EndsWithFailure k →
    Compared u dto r₀ r₁ (k (.ok x)) → Saving [d₀, d₁] d (.active now [] [] (.commit x) k)
  | decided {d₀ r₀ d₁ r₁ d p} : d₀.users.get u = some r₀ → d₁.users.get u = some r₁ →
    (d.users.get u).isSome → Compared u dto r₀ r₁ p → Saving [d₀, d₁] d (.idle p)
  | write {d₀ r₀ d₁ r₁ d now k} : d₀.users.get u = some r₀ → d₁.users.get u = some r₁ →
    (d.users.get u).isSome → EndsWithFailure k → (∀ n, ∃ p, k (.ok n) = answer (.profile p)) →
    Saving [d₀, d₁] d (.active now [] []
      (.update (.user u) (fun _ => true) (savedRow cfg u dto r₀ r₁) .commit) k)
  | written {d₀ r₀ d₁ r₁ d r now k} : d₀.users.get u = some r₀ → d₁.users.get u = some r₁ →
    d.users.get u = some r → EndsWithFailure k → (∀ n, ∃ p, k (.ok n) = answer (.profile p)) →
    Saving [d₀, d₁] d
      (.active now [⟨.user u, savedRow cfg u dto r₀ r₁ r⟩] [.user u] (.commit 1) k)
  | saved {d₀ r₀ d₁ r₁ d p} : d₀.users.get u = some r₀ → d₁.users.get u = some r₁ →
    Saving [d₀, d₁] d (.idle (answer (.profile p)))

end

section
variable {u : String} {dto : UpdateProfileDto cfg} {l : List Database} {d d' : Database}
  {st st' : Stage market} {ws : List (Write market)}

theorem save_query (r₀ : User) : ∃ k, EndsWithFailure k ∧
    save (merge cfg (profile u r₀) dto) (fun p => answer (.profile p)) =
      .tx (.select (fun d => (d.users.get u).map (profile u)) .commit) k ∧
    ∀ (d₁ : Database) r₁, d₁.users.get u = some r₁ →
      Compared u dto r₀ r₁ (k (.ok ((d₁.users.get u).map (profile u)))) := by
  refine ⟨_, fun e => ⟨e, rfl⟩, rfl, fun d₁ r₁ hr₁ => ?_⟩
  rw [hr₁]
  dsimp only [Option.map_some]
  by_cases hsame : profile u r₁ = merge cfg (profile u r₀) dto
  · rw [if_pos hsame]
    exact .same hsame
  · rw [if_neg hsame]
    exact .write (fun e => ⟨e, rfl⟩) fun n => ⟨_, rfl⟩

theorem updateProfile_query (u : String) (dto : UpdateProfileDto cfg) : ∃ k, EndsWithFailure k ∧
    updateProfile cfg u dto = .tx (.select (fun d => (d.users.get u).map (profile u)) .commit) k ∧
    ∀ d₀ : Database, Loaded u dto d₀ (k (.ok ((d₀.users.get u).map (profile u)))) := by
  refine ⟨_, fun e => ⟨e, rfl⟩, rfl, fun d₀ => ?_⟩
  cases hr₀ : d₀.users.get u with
  | none => exact Or.inl ⟨_, rfl⟩
  | some r₀ =>
    dsimp only [Option.map_some]
    cases StorageService.assertManagedUrls cfg (checkedUrl cfg dto).toList with
    | error e => exact Or.inl ⟨_, rfl⟩
    | ok => exact Or.inr ⟨r₀, hr₀, rfl⟩

theorem Saving.next (h : Saving u dto l d st) (hn : st.Next d d' st') :
    Saving u dto (l ++ (st.select? d).toList) d' st' := by
  cases h with
  | start =>
    obtain ⟨k, hf, he, hk⟩ := updateProfile_query u dto
    rw [he] at hn ⊢
    cases hn
    exact .load hf hk
  | failed => cases hn
  | load hf hk =>
    cases hn with
    | fault f => obtain ⟨e, he⟩ := hf (.db f); rw [he]; exact .failed
    | select => exact .loaded hf (hk d) id
  | loaded hf hk hu =>
    cases hn with
    | fault f => obtain ⟨e, he⟩ := hf (.db f); rw [he]; exact .failed
    | commit =>
      rcases hk with ⟨e, he⟩ | ⟨r₀, hr₀, he⟩
      · rw [he]; exact .failed
      · rw [he]; exact .save hr₀ (hu (by rw [hr₀]; rfl))
  | @save d₀ r₀ _ hr₀ hu =>
    obtain ⟨k, hf, he, hk⟩ := save_query (u := u) r₀
    rw [he] at hn ⊢
    cases hn
    exact .compare hr₀ hu hf hk
  | compare hr₀ hu hf hk =>
    cases hn with
    | fault f => obtain ⟨e, he⟩ := hf (.db f); rw [he]; exact .failed
    | select =>
      obtain ⟨r₁, hr₁⟩ := Option.isSome_iff_exists.1 hu
      exact .compared hr₀ hr₁ hu hf (hk d r₁ hr₁)
  | compared hr₀ hr₁ hu hf hk =>
    cases hn with
    | fault f => obtain ⟨e, he⟩ := hf (.db f); rw [he]; exact .failed
    | commit => exact .decided hr₀ hr₁ hu hk
  | decided hr₀ hr₁ hu hk =>
    cases hk with
    | same => cases hn
    | write hf hk => cases hn; exact .write hr₀ hr₁ hu hf hk
  | write hr₀ hr₁ hu hf hk =>
    cases hn with
    | fault f => obtain ⟨e, he⟩ := hf (.db f); rw [he]; exact .failed
    | update hr => exact .written hr₀ hr₁ hr hf hk
    | updateNone hno =>
      obtain ⟨r, hr⟩ := Option.isSome_iff_exists.1 hu
      exact absurd (hno r hr) (by simp)
  | written hr₀ hr₁ hr hf hk =>
    cases hn with
    | fault f => obtain ⟨e, he⟩ := hf (.db f); rw [he]; exact .failed
    | commit => obtain ⟨p, hp⟩ := hk 1; rw [hp]; exact .saved hr₀ hr₁
  | saved => cases hn

theorem Saving.rely (h : Saving u dto l d st) (hws : ∀ w ∈ ws, w.1 ∉ st.locks) :
    Saving u dto l (overlay ws d) st := by
  have kept (hu : (d.users.get u).isSome) : ((overlay (S := market) ws d).users.get u).isSome :=
    isSome_overlay (S := market) (k := .user u) hu ws
  cases h with
  | start => exact .start
  | failed => exact .failed
  | load hf hk => exact .load hf hk
  | loaded hf hk hu => exact .loaded hf hk fun h => kept (hu h)
  | save hr₀ hu => exact .save hr₀ (kept hu)
  | compare hr₀ hu hf hk => exact .compare hr₀ (kept hu) hf hk
  | compared hr₀ hr₁ hu hf hk => exact .compared hr₀ hr₁ (kept hu) hf hk
  | decided hr₀ hr₁ hu hk => exact .decided hr₀ hr₁ (kept hu) hk
  | write hr₀ hr₁ hu hf hk => exact .write hr₀ hr₁ (kept hu) hf hk
  | written hr₀ hr₁ hr hf hk =>
    refine .written hr₀ hr₁ ?_ hf hk
    have hne : ∀ w ∈ ws, w.1 ≠ Key.user u := fun w hw e => hws w hw (List.mem_singleton.2 e)
    exact (get_overlay_of_ne (S := market) (k := .user u) (d := d) hne).trans hr
  | saved hr₀ hr₁ => exact .saved hr₀ hr₁

theorem Saving.select {x : Database} (h : Saving u dto l d st) (hx : st.select? d = some x) :
    x = d ∧ st.writes = [] := by
  cases h with
  | load | compare => cases hx; exact ⟨rfl, rfl⟩
  | start | failed | loaded | save | compared | decided | write | written | saved => cases hx

/-- If there is nothing to write, the row is what would be saved. -/
theorem Compared.reply {r₀ r₁ : User} {p : Program} (h : Compared u dto r₀ r₁ p) {r : Response}
    (hr : (Stage.idle p).reply? = some (.ok r)) : profile u r₁ = merge cfg (profile u r₀) dto := by
  cases h with
  | same hsame => exact hsame
  | write => cases hr

/-- A request that succeeds has found what it would save in the row, or has just saved it. -/
theorem Saving.succeeds (h : Saving u dto l d st) (hn : st.Next d d' st') {r : Response}
    (hr : st'.reply? = some (.ok r)) : ∃ d₀ d₁ r₀ r₁, l = [d₀, d₁] ∧ d₀.users.get u = some r₀ ∧
      d₁.users.get u = some r₁ ∧ (profile u r₁ = merge cfg (profile u r₀) dto ∨
        ∃ r, d'.users.get u = some (savedRow cfg u dto r₀ r₁ r)) := by
  cases h with
  | start =>
    obtain ⟨k, -, he, -⟩ := updateProfile_query u dto
    rw [he] at hn
    cases hn
    cases hr
  | failed => cases hn
  | load hf hk =>
    cases hn with
    | fault f => obtain ⟨e, he⟩ := hf (.db f); rw [he] at hr; cases hr
    | select => cases hr
  | loaded hf hk hu =>
    cases hn with
    | fault f => obtain ⟨e, he⟩ := hf (.db f); rw [he] at hr; cases hr
    | commit =>
      rcases hk with ⟨e, he⟩ | ⟨r₀, -, he⟩
      · rw [he] at hr; cases hr
      · obtain ⟨k, -, hs, -⟩ := save_query (u := u) r₀
        rw [he, hs] at hr; cases hr
  | @save d₀ r₀ _ hr₀ hu =>
    obtain ⟨k, -, he, -⟩ := save_query (u := u) r₀
    rw [he] at hn
    cases hn
    cases hr
  | compare hr₀ hu hf hk =>
    cases hn with
    | fault f => obtain ⟨e, he⟩ := hf (.db f); rw [he] at hr; cases hr
    | select => cases hr
  | compared hr₀ hr₁ hu hf hk =>
    cases hn with
    | fault f => obtain ⟨e, he⟩ := hf (.db f); rw [he] at hr; cases hr
    | commit => exact ⟨_, _, _, _, rfl, hr₀, hr₁, Or.inl (hk.reply hr)⟩
  | decided hr₀ hr₁ hu hk =>
    cases hk with
    | same => cases hn
    | write => cases hn; cases hr
  | write hr₀ hr₁ hu hf hk =>
    cases hn with
    | fault f => obtain ⟨e, he⟩ := hf (.db f); rw [he] at hr; cases hr
    | update => cases hr
    | updateNone => cases hr
  | written hr₀ hr₁ hr' hf hk =>
    cases hn with
    | fault f => obtain ⟨e, he⟩ := hf (.db f); rw [he] at hr; cases hr
    | commit => exact ⟨_, _, _, _, rfl, hr₀, hr₁, Or.inr ⟨_, Table.get_put ..⟩⟩
  | saved => cases hn

/-- **When a request has set a column**: it has found its value in the row, or it has replied. -/
def Passed (f : Field) (u : String) (v : Option String) (l : List Database) (st : Stage market) :
    Prop :=
  (∃ d₀ d₁, l = [d₀, d₁] ∧ f.stored u d₁ = some v) ∨ ∃ r, st.reply? = some (.ok r)

theorem Saving.passes {f : Field} {v : Option String} (h : Saving u dto l d st)
    (hn : st.Next d d' st') (hv : f.set dto = some v)
    (hp : Passed f u v (l ++ (st.select? d).toList) st') :
    Passed f u v l st ∨ f.stored u d' = some v := by
  rcases hp with ⟨d₀, d₁, hl, hd⟩ | ⟨r, hr⟩
  · cases hx : st.select? d with
    | none =>
      rw [hx, Option.toList_none, List.append_nil] at hl
      exact Or.inl (Or.inl ⟨d₀, d₁, hl, hd⟩)
    | some x =>
      obtain ⟨rfl, hw⟩ := h.select hx
      have hsplit : l ++ [x] = [d₀] ++ [d₁] := by rwa [hx, Option.toList_some] at hl
      have hd₁ : x = d₁ := List.singleton_inj.1 (List.append_inj' hsplit rfl).2
      have hd' : d' = x := by
        rcases hn.db with h | h
        · exact h
        · rw [h, hw, overlay_nil]
      rw [hd', hd₁]
      exact Or.inr hd
  · obtain ⟨d₀, d₁, r₀, r₁, hl, -, hr₁, hsame | ⟨r', hr'⟩⟩ := h.succeeds hn hr
    · refine Or.inl (Or.inl ⟨d₀, d₁, hl, ?_⟩)
      rw [Field.stored_eq hr₁, Field.merged f dto r₀ r₁ hsame, hv, Option.getD_some]
    · have hval := Field.value_savedRow (r := r') (u := u) f dto r₀ r₁
      rw [hv, Option.getD_some] at hval
      by_cases hsame : v = f.value r₁
      · exact Or.inl (Or.inl ⟨d₀, d₁, hl, by rw [Field.stored_eq hr₁, hsame]⟩)
      · rw [if_neg hsame] at hval
        exact Or.inr (by rw [Field.stored_eq hr', hval])

end

/-! ## Runs -/

section
variable (cfg : Config) (users : Table String User) (acts : List (AppAction cfg)) (u : String)

/-- No update of a profile changes a column its request does not mention. -/
def KeepsOthers : Prop :=
  ∀ c ∈ commitsOf cfg users acts, ∀ dto f, c.request = .updateProfile u dto →
    Field.set dto f = none → f.stored u (overlay c.writes c.db) = f.stored u c.db

/-- If all updates of the profile have succeeded, each column has the value one of them has set it to,
    or the one it had before if none has set it. -/
def LastSet (s : AppState cfg) : Prop :=
  (∀ (i : ℕ) dto st, s.sessions[i]? = some (.updateProfile u dto, st) →
    ∃ r, st.reply? = some (.ok r)) →
  ∀ f : Field,
    (∃ (i : ℕ) (dto : _) (st : _) (v : _), s.sessions[i]? = some (.updateProfile u dto, st) ∧
      f.set dto = some v ∧ f.stored u s.db = some v) ∨
    (∀ (i : ℕ) dto st, s.sessions[i]? = some (.updateProfile u dto, st) → f.set dto = none) ∧
      f.stored u s.db = f.stored u (.migrated users)

/-- What an update has loaded of a column its request does not mention is what it has read when it has
    read the row again, or what it writes over. -/
def LoadsCurrent : Prop :=
  ∀ as a bs s c dto f d₀ d₁, acts = as ++ a :: bs → runs cfg users as = some s →
    s.commit? a = some c → c.request = .updateProfile u dto → Field.set dto f = none →
    readsOf cfg users as c.session = [d₀, d₁] →
    f.stored u d₀ = f.stored u d₁ ∨ f.stored u d₀ = f.stored u s.db

end

section
variable {users : Table String User} {acts as : List (AppAction cfg)} {s s' : AppState cfg}
  {a : AppAction cfg} {u : String} {dto : UpdateProfileDto cfg} {f : Field}
  {c : Commit market (Request cfg)}

theorem runs_saving (hrun : runs cfg users acts = some s) {i : ℕ} {st : Stage market}
    (hi : s.sessions[i]? = some (.updateProfile u dto, st)) :
    Saving u dto (readsOf cfg users acts i) s.db st := by
  refine State.run_reads
    (J := fun (q : Request cfg) (l : List Database) (d : Database) st =>
      ∀ dto, q = .updateProfile u dto → Saving u dto l d st)
    (fun q d dto hq => ?_) (fun q l d st d' st' h hn dto hq => (h dto hq).next hn)
    (fun q l d st ws h hws dto hq => (h dto hq).rely hws) (fun _ _ => runs_guarded) hrun hi dto rfl
  rw [hq]
  exact .start

theorem commit_saving (hrun : runs cfg users as = some s) (hc : s.commit? a = some c)
    (hq : c.request = .updateProfile u dto) : ∃ d₀ d₁ r₀ r₁ r,
      readsOf cfg users as c.session = [d₀, d₁] ∧ d₀.users.get u = some r₀ ∧
      d₁.users.get u = some r₁ ∧ s.db.users.get u = some r ∧ c.db = s.db ∧
      c.writes = [⟨.user u, savedRow cfg u dto r₀ r₁ r⟩] := by
  cases a with
  | exec i =>
    simp only [State.commit?] at hc
    split at hc
    · rename_i q st hi
      split_ifs at hc with hcom
      cases hc
      cases hq
      have hsav := runs_saving hrun hi
      generalize readsOf cfg users as i = l at hsav
      generalize s.db = d at hsav
      cases hsav with
      | written hr₀ hr₁ hr => exact ⟨_, _, _, _, _, rfl, hr₀, hr₁, hr, rfl, rfl⟩
      | start | failed | load | loaded | save | compare | compared | decided | write | saved =>
        cases hcom
    · cases hc
  | submit | fault | answer | tick => cases hc

/-- What an update does to a column: it sets it to the value of its request, or keeps it, unless it
    writes back another value it has loaded. -/
theorem commit_stored (hrun : runs cfg users as = some s) (hc : s.commit? a = some c)
    (hq : c.request = .updateProfile u dto) (f : Field) : ∃ d₀ d₁,
      readsOf cfg users as c.session = [d₀, d₁] ∧ c.db = s.db ∧
      match f.set dto with
      | some v => f.stored u (overlay c.writes s.db) = f.stored u s.db ∨
          f.stored u (overlay c.writes s.db) = some v
      | none => f.stored u (overlay c.writes s.db) = f.stored u s.db ↔
          f.stored u d₀ = f.stored u d₁ ∨ f.stored u d₀ = f.stored u s.db := by
  obtain ⟨d₀, d₁, r₀, r₁, r, hl, hr₀, hr₁, hr, hdb, hw⟩ := commit_saving hrun hc hq
  refine ⟨d₀, d₁, hl, hdb, ?_⟩
  have hget : (overlay (S := market) c.writes s.db).users.get u = some (savedRow cfg u dto r₀ r₁ r) := by
    rw [hw]; exact Table.get_put ..
  have hval := Field.value_savedRow (u := u) (r := r) f dto r₀ r₁
  rw [Field.stored_eq hget, Field.stored_eq hr₀, Field.stored_eq hr₁, Field.stored_eq hr, hval]
  cases f.set dto with
  | some v =>
    simp only [Option.getD_some, Option.some.injEq]
    split_ifs
    · exact Or.inl rfl
    · exact Or.inr rfl
  | none =>
    simp only [Option.getD_none, Option.some.injEq]
    split_ifs with h
    · exact iff_of_true rfl (Or.inl h)
    · exact ⟨Or.inr, fun h' => h'.resolve_left h⟩

theorem step_stored (hrun : runs cfg users as = some s) (hs : s.step (program cfg) a = some s')
    (hkeep : ∀ c dto, s.commit? a = some c → c.request = .updateProfile u dto → f.set dto = none →
      f.stored u (overlay c.writes c.db) = f.stored u c.db) :
    f.stored u s'.db = f.stored u s.db ∨ ∃ (i : ℕ) (dto : _) (st : _) (v : _),
      s.sessions[i]? = some (.updateProfile u dto, st) ∧ f.set dto = some v ∧
      f.stored u s'.db = some v := by
  obtain ⟨h, hsim⟩ := runs_sim_any hrun
  obtain ⟨l, -, hout⟩ := hsim.step (fun q _ => program_ok q) (fun _ _ => trivial) hs
  rcases hout.commit hsim with ⟨-, hd, -⟩ | ⟨c, e, hc, hcd, hd, -, hpub⟩
  · rw [hd]; exact Or.inl rfl
  by_cases hq : ∃ dto, c.request = .updateProfile u dto
  · obtain ⟨dto, hq⟩ := hq
    obtain ⟨d₀, d₁, -, -, hf⟩ := commit_stored hrun hc hq f
    cases hv : f.set dto with
    | none =>
      have := hkeep c dto hc hq hv
      rw [hcd] at this
      exact Or.inl (by rw [hd, this])
    | some v =>
      rw [hv] at hf
      rw [hd]
      obtain ⟨st, hst⟩ := State.commit?_session hc
      rw [hq] at hst
      exact hf.imp_right fun h => ⟨c.session, dto, st, v, hst, hv, h⟩
  · obtain ⟨-, -, -, log, L, -, he, -⟩ := hpub
    have he : Emits cfg _ c.request e L c.db (overlay c.writes c.db) := he
    rw [hcd, ← hd] at he
    exact Or.inl (he.field_kept f fun dto h => hq ⟨dto, h⟩)

/-- A request that has set a column stays one that has. -/
def SetBy (f : Field) (u : String) (s : AppState cfg) : Prop :=
  ∃ (i : ℕ) (dto : _) (st : _) (v : _), s.sessions[i]? = some (.updateProfile u dto, st) ∧
    f.set dto = some v ∧ f.stored u s.db = some v

theorem SetBy.step (h : SetBy f u s) (hs : s.step (program cfg) a = some s')
    (hd : f.stored u s'.db = f.stored u s.db) : SetBy f u s' := by
  obtain ⟨i, dto, st, v, hi, hv, hstored⟩ := h
  obtain ⟨st', hi'⟩ := State.session_kept hs hi
  exact ⟨i, dto, st', v, hi', hv, hd.trans hstored⟩

theorem KeepsOthers.snoc (hrun : runs cfg users as = some s)
    (h : KeepsOthers cfg users (as ++ [a]) u) : KeepsOthers cfg users as u ∧
      ∀ c dto f, s.commit? a = some c → c.request = .updateProfile u dto → Field.set dto f = none →
        f.stored u (overlay c.writes c.db) = f.stored u c.db := by
  rw [KeepsOthers, commitsOf_snoc hrun] at h
  exact ⟨fun c hc => h c (List.mem_append_left _ hc),
    fun c dto f hc => h c (List.mem_append_right _ (Option.mem_toList.2 hc)) dto f⟩

theorem stored_unset (hkeep : KeepsOthers cfg users acts u) (hrun : runs cfg users acts = some s)
    (hnone : ∀ (i : ℕ) dto st, s.sessions[i]? = some (.updateProfile u dto, st) →
      f.set dto = none) : f.stored u s.db = f.stored u (.migrated users) := by
  refine State.run_induction (I := fun as s => KeepsOthers cfg users as u →
    (∀ (i : ℕ) dto st, s.sessions[i]? = some (.updateProfile u dto, st) → f.set dto = none) →
    f.stored u s.db = f.stored u (.migrated users)) (fun _ _ => rfl)
    (fun as a s s' hs hst ih hkeep hnone => ?_) hrun hkeep hnone
  obtain ⟨hkeep, hcom⟩ := hkeep.snoc hs
  have hold (i : ℕ) (dto) (st) (hi : s.sessions[i]? = some (.updateProfile u dto, st)) :
      f.set dto = none := by
    obtain ⟨st', hi'⟩ := State.session_kept hst hi
    exact hnone i dto st' hi'
  rcases step_stored hs hst fun c dto => hcom c dto f with hd | ⟨i, dto, st, v, hi, hv, -⟩
  · exact hd.trans (ih hkeep hold)
  · rw [hold i dto st hi] at hv; cases hv

/-- **Once a request that sets a column has passed**, the column has the value of such a request. -/
theorem stored_set (hkeep : KeepsOthers cfg users acts u) (hrun : runs cfg users acts = some s)
    {i : ℕ} {st : Stage market} {v : Option String}
    (hi : s.sessions[i]? = some (.updateProfile u dto, st)) (hv : f.set dto = some v)
    (hp : Passed f u v (readsOf cfg users acts i) st) : SetBy f u s := by
  refine State.run_induction (I := fun as s => KeepsOthers cfg users as u →
    ∀ (i : ℕ) dto st v, s.sessions[i]? = some (.updateProfile u dto, st) → f.set dto = some v →
      Passed f u v (readsOf cfg users as i) st → SetBy f u s) (by simp [start, State.init])
    (fun as a s s' hs hst ih hkeep i dto st v hi hv hp => ?_) hrun hkeep i dto st v hi hv hp
  obtain ⟨hkeep, hcom⟩ := hkeep.snoc hs
  rcases step_stored hs hst fun c dto => hcom c dto f with hd | ⟨j, dto', st₁, v', hj, hv', hd⟩
  swap
  · -- the step sets the column
    obtain ⟨st', hj'⟩ := State.session_kept hst hj
    exact ⟨j, dto', st', v', hj', hv', hd⟩
  have hreads : readsOf cfg users (as ++ [a]) i = readsOf cfg users as i ++ (s.read? i a).toList :=
    State.reads_snoc hs
  rw [hreads] at hp
  have old (hi : s.sessions[i]? = some (.updateProfile u dto, st)) (hr : s.read? i a = none) :
      SetBy f u s' := by
    rw [hr, Option.toList_none, List.append_nil] at hp
    exact (ih hkeep i dto st v hi hv hp).step hst hd
  rcases State.step_cases hst with ⟨q, rfl, rfl⟩ | ⟨rfl, rfl⟩ | ⟨j, q, st₁, st₂, ha, hm⟩
  · rw [List.getElem?_append] at hi
    split_ifs at hi with hlt
    · exact old hi rfl
    · -- a new request has not passed
      obtain ⟨rfl, rfl⟩ : Request.updateProfile u dto = q ∧ st = .idle (program cfg q) := by
        have := List.mem_singleton.1 (List.mem_of_getElem? hi)
        simpa using this
      have hnil : readsOf cfg users as i = [] :=
        State.reads_eq_nil hs (List.getElem?_eq_none (Nat.le_of_not_lt hlt))
      rcases hp with ⟨d₀, d₁, hl, -⟩ | ⟨r, hr⟩
      · rw [hnil] at hl; cases hl
      · obtain ⟨k, -, he, -⟩ := updateProfile_query u dto
        rw [show program cfg (.updateProfile u dto) = updateProfile cfg u dto from rfl, he] at hr
        cases hr
  · exact old hi rfl
  · by_cases hij : j = i
    · subst hij
      rw [hm.sessions, Spec.sessions_set_self hm.session] at hi
      cases hi
      have hread : s.read? j a = st₁.select? s.db := by simp [State.read?, ha, hm.session]
      rw [hread] at hp
      rcases (runs_saving hs hm.session).passes hm.next hv hp with hp | hd'
      · exact (ih hkeep j dto st₁ v hm.session hv hp).step hst hd
      · exact ⟨j, dto, st, v, by rw [hm.sessions, Spec.sessions_set_self hm.session], hv, hd'⟩
    · rw [hm.sessions, List.getElem?_set_ne hij] at hi
      exact old hi (by rw [State.read?, ha, if_neg fun e => hij (Option.some.inj e)])

/-- **Updates of a profile are lost exactly if a stale column is written**: in a run no update changes a
    column its request does not mention, and after updates that have all succeeded each column has the
    value one of them has set it to (or its old one, if none has), iff whenever an update commits, what
    it has loaded of the columns its request does not mention is current. -/
theorem profile_updates_iff (hrun : runs cfg users acts = some s) (u : String) :
    KeepsOthers cfg users acts u ∧ LastSet cfg users u s ↔ LoadsCurrent cfg users acts u := by
  constructor
  · rintro ⟨hkeep, -⟩ as a bs t c dto f d₀ d₁ hacts ht hc hq hf hl
    obtain ⟨d₀', d₁', hl', hcd, hiff⟩ := commit_stored ht hc hq f
    rw [hl] at hl'
    cases hl'
    rw [hf] at hiff
    refine hiff.1 ?_
    rw [← hcd]
    exact hkeep c ((State.mem_commits hrun).2 ⟨as, a, bs, t, hacts, ht, hc⟩) dto f hq hf
  · intro hload
    have hkeep : KeepsOthers cfg users acts u := by
      intro c hc dto f hq hf
      obtain ⟨as, a, bs, t, hacts, ht, hc⟩ := (State.mem_commits hrun).1 hc
      obtain ⟨d₀, d₁, hl, hcd, hiff⟩ := commit_stored ht hc hq f
      rw [hf] at hiff
      rw [hcd]
      exact hiff.2 (hload as a bs t c dto f d₀ d₁ hacts ht hc hq hf hl)
    refine ⟨hkeep, fun hall f => ?_⟩
    by_cases hset : ∃ (i : ℕ) (dto : _) (st : _) (v : _),
        s.sessions[i]? = some (.updateProfile u dto, st) ∧ f.set dto = some v
    · obtain ⟨i, dto, st, v, hi, hv⟩ := hset
      exact Or.inl (stored_set hkeep hrun hi hv (Or.inr (hall i dto st hi)))
    · have hnone (i : ℕ) (dto) (st) (hi : s.sessions[i]? = some (.updateProfile u dto, st)) :
          f.set dto = none :=
        Option.eq_none_iff_forall_ne_some.2 fun v hv => hset ⟨i, dto, st, v, hi, hv⟩
      exact Or.inr ⟨hnone, stored_unset hkeep hrun hnone⟩

end

theorem newPhone_ok : ∀ p ∈ some "020 5555 0303",
    trim p = p ∧ isPhone p = true ∧ validatedLength p ≤ 25 := by rintro p ⟨⟩; decide +kernel

theorem sameQr_ok : ∀ url, Optional.undefined = .value url → sample.isUrl url = true := by simp

/-- The buyer changes the phone number. -/
def sampleNumber : UpdateProfileDto sample where
  phoneNumber := some "020 5555 0303"
  qrPaymentUrl := .undefined
  phone_ok := newPhone_ok
  url_ok := sameQr_ok

theorem newQr_ok : ∀ url, Optional.value
    "http://localhost:54321/storage/v1/object/public/marketplace/qr.png" = .value url →
    sample.isUrl url = true := by rintro url ⟨⟩; decide +kernel

/-- The buyer stores a payment QR. -/
def sampleQr : UpdateProfileDto sample where
  phoneNumber := none
  qrPaymentUrl := .value "http://localhost:54321/storage/v1/object/public/marketplace/qr.png"
  phone_ok := noPhone_ok
  url_ok := newQr_ok

/-- The two updates at once: the second one starts, and then takes `n` steps before the first one is
    through and the rest after it. -/
def sampleUpdates (n : ℕ) : List (AppAction sample) :=
  ([.submit (.updateProfile "EMP00102" sampleNumber), .submit (.updateProfile "EMP00102" sampleQr)] :
      List (AppAction sample)) ++ (List.replicate n (.exec 1) : List (AppAction sample)) ++
    (List.replicate 9 (.exec 0) : List (AppAction sample)) ++ List.replicate (9 - n) (.exec 1)

/-- Both updates have succeeded, and this is what the buyer has stored. -/
def isStored (phone : String) (s : AppState sample) : Bool :=
  (s.sessions.all fun p => match p.2.reply? with
    | some (.ok _) => true
    | _ => false) &&
  (s.db.users.get "EMP00102").any fun r => r.phoneNumber = some phone &&
    r.qrPaymentUrl = some "http://localhost:54321/storage/v1/object/public/marketplace/qr.png"

section
variable {n : ℕ} {s : AppState sample} {phone : String}

theorem sampleUpdates_sessions (hrun : runs sample sampleUsers (sampleUpdates n) = some s) :
    ∃ st st', s.sessions = [(.updateProfile "EMP00102" sampleNumber, st),
      (.updateProfile "EMP00102" sampleQr, st')] := by
  have hnone (i k : ℕ) : (List.replicate k (Action.exec i : AppAction sample)).filterMap
      Action.request? = [] := by simp [List.filterMap_replicate, Action.request?]
  have hreq := State.requests_run hrun
  simp only [sampleUpdates, List.filterMap_append, hnone, List.append_nil] at hreq
  obtain ⟨p, l, hl, hp, hl'⟩ := List.map_eq_cons_iff.1 hreq
  obtain ⟨p', l', rfl, hp', hl'⟩ := List.map_eq_cons_iff.1 hl'
  rw [hl, List.map_eq_nil_iff.1 hl']
  exact ⟨p.2, p'.2, by rw [← hp, ← hp']⟩

theorem isStored_stored (h : isStored phone s = true) (f : Field) :
    f.stored "EMP00102" s.db = some (match f with
      | .phoneNumber => some phone
      | .qrPaymentUrl =>
        some "http://localhost:54321/storage/v1/object/public/marketplace/qr.png") := by
  simp only [isStored, Bool.and_eq_true, Option.any_eq_true, decide_eq_true_eq] at h
  obtain ⟨-, r, hr, hphone, hqr⟩ := h
  cases f with
  | phoneNumber => rw [Field.stored_eq hr, ← hphone]; rfl
  | qrPaymentUrl => rw [Field.stored_eq hr, ← hqr]; rfl

theorem isStored_replied (h : isStored phone s = true) {i : ℕ} {q : Request sample}
    {st : Stage market} (hi : s.sessions[i]? = some (q, st)) : ∃ r, st.reply? = some (.ok r) := by
  simp only [isStored, Bool.and_eq_true, List.all_eq_true] at h
  have := h.1 _ (List.mem_of_getElem? hi)
  split at this
  · exact ⟨_, by assumption⟩
  · cases this

end

/-- An update keeps the fields it does not set. -/
def keepsFields (c : Commit market (Request sample)) : Bool :=
  match c.request with
  | .updateProfile _ dto => [Field.phoneNumber, .qrPaymentUrl].all fun f =>
      (f.set dto).isSome || f.stored "EMP00102" (overlay c.writes c.db) = f.stored "EMP00102" c.db
  | _ => true

/-- If the second update starts to read when the first one is through, nothing is lost. -/
theorem profile_updates_sample : ∃ s, runs sample sampleUsers (sampleUpdates 1) = some s ∧
    isStored "020 5555 0303" s = true ∧
    LoadsCurrent sample sampleUsers (sampleUpdates 1) "EMP00102" := by
  obtain ⟨s, hrun, hs⟩ : ∃ s, runs sample sampleUsers (sampleUpdates 1) = some s ∧
      isStored "020 5555 0303" s = true := reaches (by decide +kernel)
  obtain ⟨st, st', hsess⟩ := sampleUpdates_sessions hrun
  have hkeep : (commitsOf sample sampleUsers (sampleUpdates 1)).all keepsFields := by
    decide +kernel
  refine ⟨s, hrun, hs, (profile_updates_iff hrun "EMP00102").1 ⟨fun c hc dto f hq hf => ?_,
    fun _ f => Or.inl ?_⟩⟩
  · have h := List.all_eq_true.1 hkeep c hc
    simp only [keepsFields, hq, List.all_cons, List.all_nil, Bool.and_true, Bool.and_eq_true,
      Bool.or_eq_true, decide_eq_true_eq] at h
    cases f with
    | phoneNumber => exact h.1.resolve_left (by simp [hf])
    | qrPaymentUrl => exact h.2.resolve_left (by simp [hf])
  · have hstored := isStored_stored hs f
    cases f with
    | phoneNumber => exact ⟨0, sampleNumber, st, _, by rw [hsess]; rfl, rfl, hstored⟩
    | qrPaymentUrl => exact ⟨1, sampleQr, st', _, by rw [hsess]; rfl, rfl, hstored⟩

/-- The second update has read the row before the first one writes it, and writes the old number
    back. -/
theorem profile_updates_counterexample : ∃ s,
    runs sample sampleUsers (sampleUpdates 3) = some s ∧
    ¬ LastSet sample sampleUsers "EMP00102" s := by
  obtain ⟨s, hrun, hs⟩ : ∃ s, runs sample sampleUsers (sampleUpdates 3) = some s ∧
      isStored "020 5555 0102" s = true := reaches (by decide +kernel)
  obtain ⟨st, st', hsess⟩ := sampleUpdates_sessions hrun
  have hold := isStored_stored hs .phoneNumber
  refine ⟨s, hrun, fun h => ?_⟩
  rcases h (fun i dto st hi => isStored_replied hs hi) .phoneNumber with
    ⟨i, dto, st₁, v, hi, hv, hstored⟩ | ⟨hnone, -⟩
  · rw [hold] at hstored
    rw [hsess] at hi
    match i with
    | 0 => cases hi; cases hv; exact absurd hstored (by decide)
    | 1 => cases hi; cases hv
    | _ + 2 => cases hi
  · have := hnone 0 sampleNumber st (by rw [hsess]; rfl)
    cases this

end Marketplace
