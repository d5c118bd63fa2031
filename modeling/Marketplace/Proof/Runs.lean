/-
  Runs of the application refine histories of atomic events.
-/
import Marketplace.Proof.Handlers
import Marketplace.Lib.Reads

namespace Marketplace

open ReadCommitted

variable {cfg : Config} {users : Table String User} {acts as bs : List (AppAction cfg)}
  {s s' : AppState cfg} {a : AppAction cfg}

theorem start_sim (R : Regime cfg) (hbase : R.base (.migrated users)) :
    R.spec.Sim (.migrated users) (start cfg users) [] :=
  Spec.Sim.init hbase (fun _ => le_rfl) fun t n _ => by
    cases t <;> simp [Database.migrated, Serial.key, Database.get]

/-- **The state after a run is justified by a history of atomic events**, which are steps of the run. -/
theorem runs_sim (R : Regime cfg) (hbase : R.base (.migrated users))
    (ha : ∀ q, .submit q ∈ acts → R.admitted q) (hrun : runs cfg users acts = some s) :
    ∃ h, R.spec.Sim (.migrated users) s h ∧ ∀ i q e, (i, q, .emit e) ∈ h → ∃ as bs s₁ s₂ st,
      acts = as ++ .exec i :: bs ∧ runs cfg users as = some s₁ ∧
      s₁.step (program cfg) (.exec i) = some s₂ ∧ s₁.sessions[i]? = some (q, st) ∧
      Emits cfg R.base q e st.locks s₁.db s₂.db := by
  obtain ⟨h, hs, hev⟩ := (start_sim R hbase).run (fun q _ => program_ok q) ha hrun
  refine ⟨h, hs, fun i q e hm => ?_⟩
  obtain ⟨as, bs, s₁, s₂, st, -, hacts, hs₁, hstep, hi, he, -⟩ := hev i q e hm
  exact ⟨as, bs, s₁, s₂, st, hacts, hs₁, hstep, hi, he⟩

theorem runs_sim_any (hrun : runs cfg users acts = some s) :
    ∃ h, (Regime.any : Regime cfg).spec.Sim (.migrated users) s h :=
  (runs_sim .any trivial (fun _ _ => trivial) hrun).imp fun _ h => h.1

theorem runs_append :
    runs cfg users (as ++ bs) = (runs cfg users as).bind fun s => s.run (program cfg) bs :=
  State.run_append ..

theorem runs_snoc (hrun : runs cfg users as = some s) (hstep : s.step (program cfg) a = some s') :
    runs cfg users (as ++ [a]) = some s' :=
  State.run_snoc.2 ⟨s, hrun, hstep⟩

theorem runs_always {I : Database → Prop} (h₀ : I (.migrated users))
    (hkeep : ∀ q e L d d', Emits cfg (fun _ => True) q e L d d' → I d → I d')
    (hrun : runs cfg users acts = some s) : I s.db := by
  obtain ⟨h, hs⟩ := runs_sim_any hrun
  refine hs.path.always h₀ fun q _ e L d d' _ _ he => ?_
  exact hkeep q e L d d' he.1

/-- A step changes nothing, or it is one event of the session that takes it. -/
theorem step_cases (hrun : runs cfg users acts = some s)
    (hstep : s.step (program cfg) a = some s') :
    s'.db = s.db ∨ ∃ i q st e, a = .exec i ∧ s.sessions[i]? = some (q, st) ∧ st.commits = true ∧
      Emits cfg (fun _ => True) q e st.locks s.db s'.db := by
  obtain ⟨h, hs⟩ := runs_sim_any hrun
  obtain ⟨l, -, hout⟩ := hs.step (fun q _ => program_ok q) (fun _ _ => trivial) hstep
  cases hout with
  | silent _ hd | fault _ _ _ _ _ _ hd | call _ _ _ _ _ _ _ hd => exact Or.inl hd
  | emit i q st e ha hi hc _ _ he => exact Or.inr ⟨i, q, st, e, ha, hi, hc, he.1⟩

theorem commit_emits {i : ℕ} {q : Request cfg} {st : Stage market}
    (hrun : runs cfg users acts = some s)
    (hi : s.sessions[i]? = some (q, st)) (hc : st.commits = true)
    (hstep : s.step (program cfg) (.exec i) = some s') :
    ∃ e, Emits cfg (fun _ => True) q e st.locks s.db s'.db := by
  obtain ⟨h, hs⟩ := runs_sim_any hrun
  obtain ⟨e, he, -⟩ := hs.commit hi hc hstep
  exact ⟨e, he⟩

theorem submitted {i : ℕ} {q : Request cfg} {st : Stage market}
    (hrun : runs cfg users acts = some s)
    (hi : s.sessions[i]? = some (q, st)) : .submit q ∈ acts := by
  have hq : q ∈ acts.filterMap Action.request? := by
    rw [← State.requests_run hrun]
    exact List.mem_map.2 ⟨_, List.mem_of_getElem? hi, rfl⟩
  obtain ⟨a, ha, haq⟩ := List.mem_filterMap.1 hq
  cases a with
  | submit q' => cases haq; exact ha
  | exec | fault | answer | tick => cases haq

/-- No session has written a row that another one has locked. -/
theorem runs_guarded (hrun : runs cfg users acts = some s) : s.Guarded := by
  obtain ⟨h, hs⟩ := runs_sim_any hrun
  exact hs.guarded

theorem runs_next_call {i : ℕ} {q : Request cfg} {c : Call} {k : Answer → Program}
    (hrun : runs cfg users acts = some s) (hi : s.sessions[i]? = some (q, .idle (.call c k))) :
    ∃ log, Calls cfg (fun _ => True) q log c := by
  obtain ⟨h, hs⟩ := runs_sim_any hrun
  obtain ⟨A, -, -, hc, -⟩ := hs.stages i q _ hi
  exact ⟨_, hc⟩

theorem runs_called {j : ℕ} {c : Call} (hrun : runs cfg users acts = some s)
    (hc : (j, c) ∈ s.calls) : ∃ q st log, s.sessions[j]? = some (q, st) ∧
      Calls cfg (fun _ => True) q log c := by
  obtain ⟨h, hs⟩ := runs_sim_any hrun
  rw [hs.calls] at hc
  obtain ⟨q, hm⟩ := Spec.History.mem_calls.1 hc
  obtain ⟨st, hj⟩ := hs.known _ hm
  obtain ⟨h₁, h₂, rfl⟩ := List.append_of_mem hm
  exact ⟨q, st, _, hj, (hs.path.call_split).2⟩

/-! ## Along a run -/

section
variable (cfg users acts)

/-- The databases session `i` has read. -/
abbrev readsOf (i : ℕ) : List Database := (start cfg users).reads (program cfg) i acts

/-- The database satisfies `I` in every state the run passes through. -/
def Throughout (I : Database → Prop) : Prop :=
  ∀ as bs s, acts = as ++ bs → runs cfg users as = some s → I s.db

/-- Between any two states the run passes through, the databases are related by `R`. -/
def Between (R : Database → Database → Prop) : Prop :=
  ∀ as bs cs s s', acts = as ++ bs ++ cs → runs cfg users as = some s →
    runs cfg users (as ++ bs) = some s' → R s.db s'.db

/-- Whenever a session of the run is about to commit writes, `C` holds of its request, of the locks
    it holds and of the committed database. -/
def EveryCommit (C : Request cfg → List Key → Database → Prop) : Prop :=
  ∀ as j bs s q st, acts = as ++ .exec j :: bs → runs cfg users as = some s →
    s.sessions[j]? = some (q, st) → st.commits = true → C q st.locks s.db

end

/-- The commits of a run are those of its sessions. -/
theorem everyCommit_of_commits {C : Request cfg → List Key → Database → Prop}
    (hrun : runs cfg users acts = some s)
    (h : ∀ c ∈ (start cfg users).commits (program cfg) acts, ∀ L, C c.request L c.db) :
    EveryCommit cfg users acts C := by
  rintro as j bs s₀ q st hacts hs₀ hj hc
  exact h _ ((State.mem_commits hrun).2 ⟨as, _, bs, s₀, hacts, hs₀, State.commit?_eq hj hc⟩) _

theorem throughout_of_commits {I : Database → Prop} {C : Request cfg → List Key → Database → Prop}
    (h₀ : I (.migrated users)) (hC : EveryCommit cfg users acts C)
    (hkeep : ∀ as s q e L d', runs cfg users as = some s → C q L s.db →
      Emits cfg (fun _ => True) q e L s.db d' → I s.db → I d') : Throughout cfg users acts I := by
  intro as bs
  induction as using List.reverseRecOn generalizing bs with
  | nil => rintro s - hs; cases hs; exact h₀
  | append_singleton as a ih =>
    intro s' hacts hs'
    obtain ⟨s, hs, hstep⟩ := State.run_snoc.1 hs'
    have hsplit : acts = as ++ a :: bs := by simpa using hacts
    have hI := ih (a :: bs) s hsplit hs
    rcases step_cases hs hstep with hdb | ⟨j, q, st, e, rfl, hj, hc, he⟩
    · rwa [hdb]
    · exact hkeep as s q e _ _ hs (hC as j bs s q st hsplit hs hj hc) he hI

/-- What every commit is an instance of relates any two states of the run. -/
theorem between_of_commits {R : Database → Database → Prop}
    {C : Request cfg → List Key → Database → Prop} (hrefl : ∀ d, R d d)
    (htrans : ∀ {a b c}, R a b → R b c → R a c) (hC : EveryCommit cfg users acts C)
    (hkeep : ∀ as s q e L d', runs cfg users as = some s → C q L s.db →
      Emits cfg (fun _ => True) q e L s.db d' → R s.db d') : Between cfg users acts R := by
  intro as bs
  induction bs using List.reverseRecOn with
  | nil =>
    intro cs s s' _ hs hs'
    rw [List.append_nil, hs] at hs'; cases hs'; exact hrefl _
  | append_singleton bs a ih =>
    intro cs s s' hacts hs hs'
    rw [← List.append_assoc] at hs'
    obtain ⟨t, ht, hstep⟩ := State.run_snoc.1 hs'
    have hR := ih (a :: cs) s t (by simpa using hacts) hs ht
    rcases step_cases ht hstep with hdb | ⟨j, q, st, e, rfl, hj, hc, he⟩
    · rwa [hdb]
    · exact htrans hR (hkeep _ t q e _ _ ht
        (hC (as ++ bs) j cs t q st (by simpa using hacts) ht hj hc) he)

theorem step_of_run {as bs : List (AppAction cfg)} (hrun : runs cfg users (as ++ a :: bs) = some s')
    (hs : runs cfg users as = some s) :
    ∃ t, s.step (program cfg) a = some t ∧ runs cfg users (as ++ [a]) = some t := by
  rw [runs_append, hs, Option.bind_some, State.run, Option.bind_eq_some_iff] at hrun
  obtain ⟨t, ht, -⟩ := hrun
  exact ⟨t, ht, runs_snoc hs ht⟩

/-! ## A small marketplace

Two employees, and a bucket, for the concrete runs below. -/

/-- A configuration whose packages behave as the real ones do on plain ASCII input. -/
def sample : Config where
  isUrl s := (startsWith s "https://" || startsWith s "http://") && !s.toList.any isSpace
  toUpperCase s := String.ofList (s.toList.map Char.toUpper)
  supabaseUrl := "http://localhost:54321"
  bucket := "marketplace"
  encode s := s
  decode _ := none
  sha256 s := s
  caseFold := Char.toLower
  sign u := u.userId
  expiresIn := 28800
  messaging := false

def sampleUser (name : String) (phone : Option String) : User :=
  ⟨name, none, phone, none, none, 0⟩

def sampleUsers : Table String User :=
  (Table.empty.put "EMP00101" (sampleUser "Seller" (some "020 5555 0101"))).put "EMP00102"
    (sampleUser "Buyer" (some "020 5555 0102"))

/-- A listing of `n` units. -/
def sampleItem (n : ℤ) (h : 1 ≤ n ∧ n ≤ 10000) : CreateItemDto sample where
  title := "Rice cooker"
  description := none
  price := .value 1000
  quantity := some n
  itemType := .household
  pickupLocation := "Lobby"
  images := none
  title_ok := by decide +kernel
  description_ok := by simp
  price_ok := by rintro p ⟨⟩; decide
  quantity_ok := by rintro m ⟨⟩; exact h
  pickupLocation_ok := by decide +kernel
  images_ok := by simp

/-- A listing of one unit. -/
def sampleUnit : CreateItemDto sample := sampleItem 1 (by decide)

/-- An order of one unit of the first item. -/
def sampleOrder : CreateOrderDto := ⟨1, none, by decide, by simp⟩

/-- The buyer writes to the seller about the first item. -/
def sampleMessage : Request sample :=
  .sendMessage ⟨"socket", "EMP00102"⟩
    ⟨1, none, "EMP00101", "Hello", by decide, by simp, by decide +kernel, by decide +kernel⟩

/-- What the buyer writes. -/
def sampleHello : SendMessageDto :=
  ⟨1, none, "EMP00101", "Hello", by decide, by simp, by decide +kernel, by decide +kernel⟩

theorem second_min : (1 : ℤ) ≤ 2 := by decide

theorem noPeer_ok : ∀ s ∈ (none : Option String), isId 128 s = true := by simp

theorem noCursor_ok : ∀ n ∈ (none : Option ℤ), 1 ≤ n := by simp

theorem noPhone_ok : ∀ p ∈ (none : Option String),
    trim p = p ∧ isPhone p = true ∧ validatedLength p ≤ 25 := by simp

theorem buyerId_ok : isId 128 "EMP00102" = true := by decide +kernel

theorem completed_in : OrderStatus.completed = .completed ∨ OrderStatus.completed = .cancelled :=
  Or.inl rfl

theorem cancelled_in : OrderStatus.cancelled = .completed ∨ OrderStatus.cancelled = .cancelled :=
  Or.inr rfl

/-- A new request that is the `i`-th session and takes `n` steps. -/
def perform (i n : ℕ) (q : Request cfg) : List (AppAction cfg) :=
  .submit q :: List.replicate n (.exec i)

theorem reaches {p : AppState cfg → Bool} (h : (runs cfg users acts).map p = some true) :
    ∃ s, runs cfg users acts = some s ∧ p s = true := by
  simpa [Option.map_eq_some_iff] using h

/-- The seller completes the first order. -/
def sampleComplete : Request sample := .updateOrderStatus 1 "EMP00101" ⟨.completed, Or.inl rfl⟩

/-- The seller lists one unit, the buyer orders it. -/
def sampleOrdered : List (AppAction sample) :=
  perform 0 6 (.createItem "EMP00101" sampleUnit) ++
    perform 1 5 (.createOrder "EMP00102" sampleOrder)

/-- The order is completed. -/
def sampleCompleted : List (AppAction sample) := sampleOrdered ++ perform 2 7 sampleComplete

end Marketplace
