/-
  The script with the sample data can be run again and again, on any database.

  It writes what is not there yet, and nothing else: a second run changes
  nothing, whatever the database held is kept, and so are the constraints.  The
  logins it prints work until the employees change their numbers.
-/
import Marketplace.Proof.Integrity
import Marketplace.Proof.Login

namespace Marketplace.Seed

open ReadCommitted

variable {D D' : Deployment} {u v : SeedUser} {i : SeedItem} {now : ℕ}

/-! ## Scripts -/

section
variable {α β : Type} {f : β → α → β} {l : List α}

/-- A script whose steps each ensure an entry and keep the other ones ensures all. -/
theorem foldl_ensures {P : α → β → Prop} (hset : ∀ b, ∀ x ∈ l, P x (f b x))
    (hkeep : ∀ b, ∀ x ∈ l, ∀ y ∈ l, P y b → P y (f b x)) (b : β) : ∀ x ∈ l, P x (l.foldl f b) := by
  induction l generalizing b with
  | nil => simp
  | cons a l ih =>
    rw [List.foldl_cons]
    have hrest := ih (fun b x hx => hset b x (List.mem_cons_of_mem _ hx))
      (fun b x hx y hy => hkeep b x (List.mem_cons_of_mem _ hx) y (List.mem_cons_of_mem _ hy)) (f b a)
    intro x hx
    rcases List.mem_cons.1 hx with rfl | hx
    · refine List.foldlRecOn (motive := P x) l f (hset b x List.mem_cons_self) fun b hb y hy => ?_
      exact hkeep b y (List.mem_cons_of_mem _ hy) x List.mem_cons_self hb
    · exact hrest x hx

theorem foldl_skips {b : β} (h : ∀ x ∈ l, f b x = b) : l.foldl f b = b := by
  refine List.foldlRecOn (motive := (· = b)) l f rfl fun b' hb x hx => ?_
  rw [hb]
  exact h x hx

end

/-! ## Entries -/

/-- The employee is there, with the columns of the script. -/
def HasUser (u : SeedUser) (D : Deployment) : Prop :=
  ∃ r, D.db.users.get u.userId = some r ∧ ∀ now, u.row now (some r) = r

/-- The seller has an item of that title. -/
def HasItem (i : SeedItem) (D : Deployment) : Prop :=
  ∃ k r, D.db.items.get k = some r ∧ r.sellerId = i.sellerId ∧ r.title = i.title

theorem existsBy_iff : existsBy D i = true ↔ HasItem i D := by
  simp only [existsBy, List.any_eq_true, Bool.and_eq_true, decide_eq_true_eq, Prod.exists,
    Table.mem_rows]
  constructor
  · rintro ⟨k, r, hr, hs⟩
    exact ⟨k, r, hr, hs⟩
  · rintro ⟨k, r, hr, hs⟩
    exact ⟨k, r, hr, hs⟩

theorem upsertUser_db (now : ℕ) (D : Deployment) (u : SeedUser) :
    (upsertUser now D u).db = { D.db with
      users := (upsertUser now D u).db.users } := by
  unfold upsertUser
  dsimp only
  split_ifs <;> rfl

theorem get_upsertUser (now : ℕ) (D : Deployment) (u : SeedUser) (k : String) :
    (upsertUser now D u).db.users.get k =
      if k = u.userId then some (u.row now (D.db.users.get u.userId)) else D.db.users.get k := by
  unfold upsertUser
  dsimp only
  split_ifs with hsame hk hk
  · rw [hk]; exact hsame
  · rfl
  · rw [hk]; exact Table.get_put ..
  · exact Table.get_put_ne _ _ hk

theorem upsertUser_skips (h : HasUser u D) : upsertUser now D u = D := by
  obtain ⟨r, hr, hrow⟩ := h
  unfold upsertUser
  rw [hr]
  exact if_pos (congrArg some (hrow now).symm)

theorem upsertUser_sets (now : ℕ) (D : Deployment) (u : SeedUser) : HasUser u (upsertUser now D u) :=
  ⟨_, (get_upsertUser ..).trans (if_pos rfl), fun _ => rfl⟩

theorem upsertUser_keeps (hinj : v.userId = u.userId → v = u) (h : HasUser v D) :
    HasUser v (upsertUser now D u) := by
  by_cases he : v.userId = u.userId
  · rw [hinj he]
    exact upsertUser_sets ..
  · obtain ⟨r, hr, hrow⟩ := h
    exact ⟨r, (get_upsertUser ..).trans ((if_neg he).trans hr), hrow⟩

theorem seedItem_skips (h : HasItem i D) : seedItem now D i = D := if_pos (existsBy_iff.2 h)

theorem seedItem_sets (now : ℕ) (D : Deployment) (i : SeedItem) : HasItem i (seedItem now D i) := by
  unfold seedItem
  split_ifs with h
  · exact existsBy_iff.1 h
  · exact ⟨_, _, Table.get_put .., rfl, rfl⟩

theorem next_item (D : Deployment) : D.db.items.get (D.seq .items) = none := D.fresh .items _ le_rfl

theorem get_seedItem {k : ℤ} {r : Item} (h : D.db.items.get k = some r) :
    (seedItem now D i).db.items.get k = some r := by
  unfold seedItem
  split_ifs
  · exact h
  · refine (Table.get_put_ne _ _ ?_).trans h
    rintro rfl
    rw [next_item] at h; cases h

theorem seedItem_keeps {j : SeedItem} (h : HasItem j D) : HasItem j (seedItem now D i) := by
  obtain ⟨k, r, hr, hs⟩ := h
  exact ⟨k, r, get_seedItem hr, hs⟩

theorem seedItem_users (now : ℕ) (D : Deployment) (i : SeedItem) :
    (seedItem now D i).db.users = D.db.users := by
  unfold seedItem
  split_ifs <;> rfl

theorem seedItem_hasUser (h : HasUser u D) : HasUser u (seedItem now D i) := by
  obtain ⟨r, hr, hrow⟩ := h
  exact ⟨r, by rw [seedItem_users]; exact hr, hrow⟩

/-! ## All of them -/

/-- The script with any entries. -/
def runWith (us : List SeedUser) (is : List SeedItem) (now : ℕ) (D : Deployment) : Deployment :=
  is.foldl (seedItem now) (us.foldl (upsertUser now) D)

/-- What the script starts from. -/
def cleaned (clean : Bool) (D : Deployment) : Deployment := if clean then .migrated .empty else D

theorem run_eq (clean : Bool) (now : ℕ) (D : Deployment) :
    run clean now D = runWith SEED_USERS SEED_ITEMS now (cleaned clean D) := rfl

theorem userId_inj : ∀ v ∈ SEED_USERS, ∀ u ∈ SEED_USERS, v.userId = u.userId → v = u := by
  have hnodup : (SEED_USERS.map SeedUser.userId).Nodup := by decide
  intro v hv u hu h
  exact List.inj_on_of_nodup_map hnodup hv hu h

section
variable {us : List SeedUser} (is : List SeedItem)

theorem runWith_complete (hinj : ∀ v ∈ us, ∀ u ∈ us, v.userId = u.userId → v = u) (now : ℕ)
    (D : Deployment) :
    (∀ u ∈ us, HasUser u (runWith us is now D)) ∧ ∀ i ∈ is, HasItem i (runWith us is now D) := by
  constructor
  · intro u hu
    refine List.foldlRecOn (motive := HasUser u) is (seedItem now) ?_ fun D h i _ => seedItem_hasUser h
    exact foldl_ensures (P := HasUser) (fun D u _ => upsertUser_sets now D u)
      (fun D u hu v hv => upsertUser_keeps (hinj v hv u hu)) D u hu
  · exact foldl_ensures (P := HasItem) (fun D i _ => seedItem_sets now D i)
      (fun D i _ j _ => seedItem_keeps) _

theorem runWith_skips (husers : ∀ u ∈ us, HasUser u D) (hitems : ∀ i ∈ is, HasItem i D) (now : ℕ) :
    runWith us is now D = D := by
  unfold runWith
  rw [foldl_skips fun u hu => upsertUser_skips (husers u hu)]
  exact foldl_skips fun i hi => seedItem_skips (hitems i hi)

end

theorem run_complete (clean : Bool) (now : ℕ) (D : Deployment) :
    (∀ u ∈ SEED_USERS, HasUser u (run clean now D)) ∧ ∀ i ∈ SEED_ITEMS, HasItem i (run clean now D) :=
  runWith_complete _ userId_inj now _

/-- **A second run of the script changes nothing**, at any time later. -/
theorem run_idempotent (clean : Bool) (now now' : ℕ) (D : Deployment) :
    run false now' (run clean now D) = run clean now D :=
  runWith_skips _ (run_complete clean now D).1 (run_complete clean now D).2 now'

/-! ## Constraints -/

/-- The columns of an employee fit. -/
structure UserFits (u : SeedUser) : Prop where
  userId : u.userId.length ≤ 50
  fullName : u.fullName.length ≤ 150
  department : ∀ s ∈ u.department, s.length ≤ 100
  phoneNumber : ∀ s ∈ u.phoneNumber, s.length ≤ 25

/-- The columns of an item fit. -/
structure ItemFits (i : SeedItem) : Prop where
  title : i.title.length ≤ 200
  price : 0 ≤ i.price ∧ i.price < 10 ^ 12
  pickupLocation : i.pickupLocation.length ≤ 150
  quantity : 0 ≤ i.quantity ∧ i.quantity < 2 ^ 31

theorem users_fit : ∀ u ∈ SEED_USERS, UserFits u := by
  have h : ∀ u ∈ SEED_USERS, u.userId.length ≤ 50 ∧ u.fullName.length ≤ 150 ∧
      (∀ s ∈ u.department, s.length ≤ 100) ∧ ∀ s ∈ u.phoneNumber, s.length ≤ 25 := by
    decide +kernel
  exact fun u hu => ⟨(h u hu).1, (h u hu).2.1, (h u hu).2.2.1, (h u hu).2.2.2⟩

theorem items_fit : ∀ i ∈ SEED_ITEMS, ItemFits i := by
  have h : ∀ i ∈ SEED_ITEMS, i.title.length ≤ 200 ∧ (0 ≤ i.price ∧ i.price < 10 ^ 12) ∧
      i.pickupLocation.length ≤ 150 ∧ 0 ≤ i.quantity ∧ i.quantity < 2 ^ 31 := by
    decide +kernel
  exact fun i hi => ⟨(h i hi).1, (h i hi).2.1, (h i hi).2.2.1, (h i hi).2.2.2⟩

theorem sellers_seeded : ∀ i ∈ SEED_ITEMS, ∃ u ∈ SEED_USERS, u.userId = i.sellerId := by
  decide +kernel

/-- All constraints, and orders and items agree. -/
structure Sound (d : Database) : Prop where
  constraints : Constraints d
  agreement : Agreement d

theorem Sound.migrated : Sound (.migrated .empty) := by
  refine ⟨constraints_iff.2 ⟨⟨?_, ?_, ?_, ?_, ?_, ?_⟩, ?_, ?_, ?_⟩, .migrated .empty⟩
  · rintro u r ⟨⟩
  · rintro i r ⟨⟩
  · rintro o r ⟨⟩
  · rintro o o' r r' ⟨⟩
  · rintro n m ⟨⟩
  · rintro n r ⟨⟩
  · rintro i r ⟨⟩
  · rintro o r ⟨⟩
  · rintro u v r r' t ⟨⟩

theorem Sound.upsertUser (hu : UserFits u) (h : Sound D.db) :
    Sound (Seed.upsertUser now D u).db := by
  obtain ⟨hintact, htexts, htotals, htokens⟩ := constraints_iff.1 h.constraints
  have hget := get_upsertUser now D u
  rw [upsertUser_db]
  generalize (Seed.upsertUser now D u).db.users = t at hget
  have hg : Grows D.db { D.db with users := t } := by
    refine ⟨fun {k} hk => ?_, id, id⟩
    have hk' : ((if k = u.userId then some (u.row now (D.db.users.get u.userId))
        else D.db.users.get k) : Option User).isSome := by
      split_ifs
      · rfl
      · exact hk
    rwa [← hget] at hk'
  -- a token is one that the employee has had
  have token {k : String} {r : User} {x : String} (hr : t.get k = some r) (hx : r.fcmToken = some x) :
      ∃ r₀, D.db.users.get k = some r₀ ∧ r₀.fcmToken = some x := by
    rw [hget] at hr
    split_ifs at hr with hk
    · cases hr
      obtain ⟨r₀, hr₀, hx₀⟩ := Option.bind_eq_some_iff.1 hx
      exact ⟨r₀, hk ▸ hr₀, hx₀⟩
    · exact ⟨r, hr, hx⟩
  refine ⟨constraints_iff.2 ⟨⟨fun k r hr => ?_, fun i r hr => ?_, fun o r hr => ?_, hintact.pending,
    fun n m hm => ?_, fun n r hr => ?_⟩, htexts, htotals, ?_⟩,
    ⟨h.agreement.item, h.agreement.covered, h.agreement.unique, h.agreement.stock⟩⟩
  · have hr : t.get k = some r := hr
    rw [hget] at hr
    split_ifs at hr with hk
    · cases hr
      exact ⟨hk ▸ hu.userId, hu.fullName, hu.department, hu.phoneNumber⟩
    · exact hintact.users k r hr
  · exact ⟨hg.itemIntact (hintact.items i r hr).1, (hintact.items i r hr).2⟩
  · exact hg.orderColumns (hintact.orders o r hr)
  · exact hg.messageColumns (hintact.messages n m hm)
  · exact hg.notificationColumns (hintact.notifications n r hr)
  · intro k k' r r' x hr hr' hx hx'
    obtain ⟨r₀, hr₀, hx₀⟩ := token hr hx
    obtain ⟨r₁, hr₁, hx₁⟩ := token hr' hx'
    exact htokens k k' r₀ r₁ x hr₀ hr₁ hx₀ hx₁

theorem Sound.insertItem (hi : ItemFits i) (hseller : (D.db.users.get i.sellerId).isSome)
    (h : Sound D.db) : Sound (D.insertItem (i.row now)).db := by
  obtain ⟨hintact, htexts, htotals, htokens⟩ := constraints_iff.1 h.constraints
  have hg : Grows D.db (D.insertItem (i.row now)).db := by
    refine ⟨id, fun {k} hk => ?_, id⟩
    have hget := Table.get_put_eq D.db.items (D.seq .items) (i.row now) k
    have hput : ((D.db.items.put (D.seq .items) (i.row now)).get k).isSome := by
      rw [hget]
      split_ifs
      · rfl
      · exact hk
    exact hput
  refine ⟨constraints_iff.2 ⟨⟨hintact.users, ?_, fun o r hr => ?_, hintact.pending,
    fun n m hm => ?_, fun n r hr => ?_⟩, ?_, htotals, htokens⟩, ?_⟩
  · refine Table.forall_put ⟨hg.itemIntact ⟨?_, hi.price.1, hi.price.2⟩, hi.quantity⟩ fun k r hr => ?_
    · rw [isSome_tables_users]; exact hseller
    · exact ⟨hg.itemIntact (hintact.items k r hr).1, (hintact.items k r hr).2⟩
  · exact hg.orderColumns (hintact.orders o r hr)
  · exact hg.messageColumns (hintact.messages n m hm)
  · exact hg.notificationColumns (hintact.notifications n r hr)
  · exact Table.forall_put ⟨hi.title, hi.pickupLocation⟩ htexts
  · refine h.agreement.put_item (fun item₀ h₀ => ?_) (fun o r ho hri _ => ?_) hi.quantity.1
    · rw [next_item] at h₀; cases h₀
    · obtain ⟨item, hitem, -⟩ := h.agreement.item ho
      rw [hri, next_item] at hitem; cases hitem

/-! ## What is kept -/

/-- What the script leaves as it was: the other employees, the devices of its own, all items, orders,
    messages and notifications. -/
structure Keeps (D D' : Deployment) : Prop where
  users : ∀ k, (∀ u ∈ SEED_USERS, u.userId ≠ k) → D'.db.users.get k = D.db.users.get k
  devices : ∀ k r, D.db.users.get k = some r → ∃ r', D'.db.users.get k = some r' ∧
    r'.fcmToken = r.fcmToken ∧ r'.createdAt = r.createdAt
  items : ∀ k r, D.db.items.get k = some r → D'.db.items.get k = some r
  orders : D'.db.orders = D.db.orders
  messages : D'.db.messages = D.db.messages
  notifications : D'.db.notifications = D.db.notifications

theorem Keeps.refl (D : Deployment) : Keeps D D :=
  ⟨fun _ _ => rfl, fun _ r hr => ⟨r, hr, rfl, rfl⟩, fun _ _ => id, rfl, rfl, rfl⟩

theorem Keeps.trans {D₁ D₂ D₃ : Deployment} (h : Keeps D₁ D₂) (h' : Keeps D₂ D₃) : Keeps D₁ D₃ := by
  refine ⟨fun k hk => (h'.users k hk).trans (h.users k hk), fun k r hr => ?_,
    fun k r hr => h'.items k r (h.items k r hr), h'.orders.trans h.orders,
    h'.messages.trans h.messages, h'.notifications.trans h.notifications⟩
  obtain ⟨r₁, hr₁, htoken, hcreated⟩ := h.devices k r hr
  obtain ⟨r₂, hr₂, htoken', hcreated'⟩ := h'.devices k r₁ hr₁
  exact ⟨r₂, hr₂, htoken'.trans htoken, hcreated'.trans hcreated⟩

theorem upsertUser_keepsAll (hu : u ∈ SEED_USERS) (D : Deployment) : Keeps D (upsertUser now D u) := by
  have hget := get_upsertUser now D u
  have hdb := upsertUser_db now D u
  refine ⟨fun k hk => (hget k).trans (if_neg (Ne.symm (hk u hu))), fun k r hr => ?_, fun k r hr => ?_,
    ?_, ?_, ?_⟩
  · by_cases hk : k = u.userId
    · subst hk
      refine ⟨_, (hget _).trans (if_pos rfl), ?_, ?_⟩
      · rw [hr]; rfl
      · rw [hr]; rfl
    · exact ⟨r, (hget k).trans ((if_neg hk).trans hr), rfl, rfl⟩
  all_goals rw [hdb]
  exact hr

theorem seedItem_keepsAll (D : Deployment) (i : SeedItem) : Keeps D (seedItem now D i) := by
  refine ⟨fun k _ => by rw [seedItem_users], fun k r hr => ⟨r, by rw [seedItem_users]; exact hr, rfl, rfl⟩,
    fun k r hr => get_seedItem hr, ?_, ?_, ?_⟩
  all_goals
    unfold seedItem
    split_ifs <;> rfl

/-! ## What is added -/

/-- What is there besides: rows of the script, the items where the seller had none of that title, and
    each of them once. -/
structure Adds (now : ℕ) (D D' : Deployment) : Prop where
  users : ∀ k r, D'.db.users.get k = some r → D.db.users.get k = some r ∨
    ∃ u ∈ SEED_USERS, k = u.userId ∧ r = u.row now (D.db.users.get k)
  items : ∀ k r, D'.db.items.get k = some r → D.db.items.get k = some r ∨
    ∃ i ∈ SEED_ITEMS, ¬ HasItem i D ∧ r = i.row now
  once : ∀ k k' r r', D'.db.items.get k = some r → D'.db.items.get k' = some r' →
    r.sellerId = r'.sellerId → r.title = r'.title →
    k = k' ∨ (D.db.items.get k = some r ∧ D.db.items.get k' = some r')

theorem Adds.refl (now : ℕ) (D : Deployment) : Adds now D D :=
  ⟨fun _ _ => Or.inl, fun _ _ => Or.inl, fun _ _ _ _ hr hr' _ _ => Or.inr ⟨hr, hr'⟩⟩

theorem SeedUser.row_row (u : SeedUser) (now : ℕ) (old : Option User) :
    u.row now (some (u.row now old)) = u.row now old := rfl

theorem Adds.upsertUser (hu : u ∈ SEED_USERS) (hk : Keeps D D') (h : Adds now D D') :
    Adds now D (Seed.upsertUser now D' u) := by
  have hitems : (Seed.upsertUser now D' u).db.items = D'.db.items := by rw [upsertUser_db]
  refine ⟨fun k r hr => ?_, by rw [hitems]; exact h.items, by rw [hitems]; exact h.once⟩
  rw [get_upsertUser] at hr
  split_ifs at hr with hku
  · subst hku
    cases hr
    refine Or.inr ⟨u, hu, rfl, ?_⟩
    cases hold : D'.db.users.get u.userId with
    | some r =>
      rcases h.users _ r hold with hold | ⟨v, hv, he, rfl⟩
      · rw [hold]
      · rw [userId_inj u hu v hv he, SeedUser.row_row]
    | none =>
      -- the script removes nobody
      cases hfirst : D.db.users.get u.userId with
      | none => rfl
      | some r =>
        obtain ⟨r', hr', -⟩ := hk.devices _ r hfirst
        rw [hold] at hr'; cases hr'
  · exact h.users k r hr

theorem HasItem.kept (hk : Keeps D D') (h : HasItem i D) : HasItem i D' := by
  obtain ⟨k, r, hr, hs⟩ := h
  exact ⟨k, r, hk.items k r hr, hs⟩

theorem Adds.seedItem (hi : i ∈ SEED_ITEMS) (hk : Keeps D D') (h : Adds now D D') :
    Adds now D (Seed.seedItem now D' i) := by
  unfold Seed.seedItem
  split_ifs with hexists
  · exact h
  · have hnot : ¬ HasItem i D' := mt existsBy_iff.2 hexists
    -- the row of the new item, or a row that was there
    have cases_get {k : ℤ} {r : Item} (hr : (D'.insertItem (i.row now)).db.items.get k = some r) :
        (k = D'.seq .items ∧ r = i.row now) ∨ D'.db.items.get k = some r := by
      have hget := Table.get_put_eq D'.db.items (D'.seq .items) (i.row now) k
      rw [show (D'.insertItem (i.row now)).db.items = D'.db.items.put (D'.seq .items) (i.row now) from rfl,
        hget] at hr
      split_ifs at hr with hkn
      · exact Or.inl ⟨hkn, (Option.some.inj hr).symm⟩
      · exact Or.inr hr
    refine ⟨h.users, fun k r hr => ?_, fun k k' r r' hr hr' hs ht => ?_⟩
    · rcases cases_get hr with ⟨-, rfl⟩ | hr
      · exact Or.inr ⟨i, hi, mt (HasItem.kept hk) hnot, rfl⟩
      · exact h.items k r hr
    · rcases cases_get hr with ⟨rfl, rfl⟩ | hr <;> rcases cases_get hr' with ⟨rfl, rfl⟩ | hr'
      · exact Or.inl rfl
      · exact absurd ⟨k', r', hr', hs.symm, ht.symm⟩ hnot
      · exact absurd ⟨k, r, hr, hs, ht⟩ hnot
      · exact h.once k k' r r' hr hr' hs ht

/-- The items of the script differ in their sellers or titles. -/
theorem item_inj : ∀ i ∈ SEED_ITEMS, ∀ j ∈ SEED_ITEMS, i.sellerId = j.sellerId → i.title = j.title →
    i = j := by
  have hnodup : (SEED_ITEMS.map fun i => (i.sellerId, i.title)).Nodup := by decide +kernel
  intro i hi j hj hs ht
  exact List.inj_on_of_nodup_map hnodup hi hj (Prod.ext hs ht)

/-- The database holds the sample data and nothing else. -/
structure OnlySample (now : ℕ) (D : Deployment) : Prop where
  users : ∀ k r, D.db.users.get k = some r ↔ ∃ u ∈ SEED_USERS, k = u.userId ∧ r = u.row now none
  items : ∀ k r, D.db.items.get k = some r → ∃ i ∈ SEED_ITEMS, r = i.row now
  once : ∀ i ∈ SEED_ITEMS, ∃! k, D.db.items.get k = some (i.row now)
  orders : D.db.orders = .empty
  messages : D.db.messages = .empty
  notifications : D.db.notifications = .empty

theorem OnlySample.of_adds (hk : Keeps (.migrated .empty) D) (h : Adds now (.migrated .empty) D)
    (husers : ∀ u ∈ SEED_USERS, HasUser u D) (hitems : ∀ i ∈ SEED_ITEMS, HasItem i D) :
    OnlySample now D := by
  have users {k : String} {r : User} (hr : D.db.users.get k = some r) :
      ∃ u ∈ SEED_USERS, k = u.userId ∧ r = u.row now none := by
    rcases h.users k r hr with hr | hr
    · cases hr
    · exact hr
  have items {k : ℤ} {r : Item} (hr : D.db.items.get k = some r) : ∃ i ∈ SEED_ITEMS, r = i.row now := by
    rcases h.items k r hr with hr | ⟨i, hi, -, rfl⟩
    · cases hr
    · exact ⟨i, hi, rfl⟩
  refine ⟨fun k r => ⟨users, ?_⟩, fun k r => items, fun i hi => ?_, hk.orders, hk.messages,
    hk.notifications⟩
  · rintro ⟨u, hu, rfl, rfl⟩
    obtain ⟨r, hr, -⟩ := husers u hu
    obtain ⟨v, hv, he, rfl⟩ := users hr
    rw [hr, userId_inj u hu v hv he]
  · obtain ⟨k, r, hr, hs, ht⟩ := hitems i hi
    obtain ⟨j, hj, rfl⟩ := items hr
    obtain rfl := item_inj j hj i hi hs ht
    refine ⟨k, hr, fun k' hr' => ?_⟩
    rcases h.once k' k _ _ hr' hr rfl rfl with he | ⟨hold, -⟩
    · exact he
    · cases hold

/-- **The script is safe to run on any database**: it adds the sample data that is not there and nothing
    else, keeps whatever the database holds, unless it is told to remove it, when nothing but the sample
    data remains, and keeps all constraints. -/
theorem run_safe (clean : Bool) (now : ℕ) (hc : Constraints D.db) (ha : Agreement D.db) :
    Sound (run clean now D).db ∧ Keeps (cleaned clean D) (run clean now D) ∧
      Adds now (cleaned clean D) (run clean now D) ∧ (clean = true → OnlySample now (run clean now D)) ∧
      (∀ u ∈ SEED_USERS, HasUser u (run clean now D)) ∧ ∀ i ∈ SEED_ITEMS, HasItem i (run clean now D) := by
  have hstart : Sound (cleaned clean D).db := by
    cases clean with
    | false => exact ⟨hc, ha⟩
    | true => exact .migrated
  have hcomplete := run_complete clean now D
  suffices h : Sound (run clean now D).db ∧ Keeps (cleaned clean D) (run clean now D) ∧
      Adds now (cleaned clean D) (run clean now D) by
    refine ⟨h.1, h.2.1, h.2.2, fun hclean => ?_, hcomplete⟩
    subst hclean
    exact .of_adds h.2.1 h.2.2 hcomplete.1 hcomplete.2
  rw [run_eq]
  generalize cleaned clean D = D₀ at hstart
  have husers : Sound (SEED_USERS.foldl (upsertUser now) D₀).db ∧
      Keeps D₀ (SEED_USERS.foldl (upsertUser now) D₀) ∧
      Adds now D₀ (SEED_USERS.foldl (upsertUser now) D₀) := by
    refine List.foldlRecOn (motive := fun D => Sound D.db ∧ Keeps D₀ D ∧ Adds now D₀ D) SEED_USERS
      (upsertUser now) ⟨hstart, .refl D₀, .refl now D₀⟩ fun D h u hu => ?_
    exact ⟨h.1.upsertUser (users_fit u hu), h.2.1.trans (upsertUser_keepsAll hu D),
      h.2.2.upsertUser hu h.2.1⟩
  have hall : ∀ u ∈ SEED_USERS, HasUser u (SEED_USERS.foldl (upsertUser now) D₀) :=
    (runWith_complete [] userId_inj now D₀).1
  unfold runWith
  generalize SEED_USERS.foldl (upsertUser now) D₀ = D₁ at husers hall
  refine (List.foldlRecOn (motive := fun D => (Sound D.db ∧ Keeps D₀ D ∧ Adds now D₀ D) ∧
    ∀ u ∈ SEED_USERS, HasUser u D) SEED_ITEMS (seedItem now) ⟨husers, hall⟩ fun D h i hi => ?_).1
  refine ⟨⟨?_, h.1.2.1.trans (seedItem_keepsAll D i), h.1.2.2.seedItem hi h.1.2.1⟩,
    fun u hu => seedItem_hasUser (h.2 u hu)⟩
  unfold seedItem
  split_ifs
  · exact h.1.1
  · obtain ⟨u, hu, hseller⟩ := sellers_seeded i hi
    obtain ⟨r, hr, -⟩ := h.2 u hu
    refine h.1.1.insertItem (items_fit i hi) ?_
    rw [← hseller, hr]
    rfl

/-- The employees of the other samples stay, unless the script is told to remove them. -/
theorem run_safe_sample : Sound (run false 5 (.migrated sampleUsers)).db ∧
    Keeps (.migrated sampleUsers) (run false 5 (.migrated sampleUsers)) ∧
    OnlySample 5 (run true 5 (.migrated sampleUsers)) := by
  obtain ⟨hsound, hkeeps, -⟩ := run_safe (D := .migrated sampleUsers) false 5 sampleUsers_constraints
    (.migrated sampleUsers)
  obtain ⟨-, -, -, honly, -⟩ := run_safe (D := .migrated sampleUsers) true 5 sampleUsers_constraints
    (.migrated sampleUsers)
  exact ⟨hsound, hkeeps, honly rfl⟩

/-! ## Logging in -/

theorem phones_present : ∀ u ∈ SEED_USERS, ∀ p ∈ u.phoneNumber, p ≠ "" := by
  decide +kernel

section
variable {cfg : Config}

/-- No request changes the profile of the employee, whose number is `p`. -/
def unpatched (cfg : Config) (userId : String) (p : Option String) : Regime cfg where
  admitted q := ∀ dto, q ≠ .updateProfile userId dto
  base d := ∃ r, d.users.get userId = some r ∧ r.phoneNumber = p
  keeps := by
    rintro q e L d d' hq ⟨r, hr, hp⟩ he
    obtain ⟨r', hr'⟩ := Option.isSome_iff_exists.1 (he.user_kept (u := userId) (by rw [hr]; rfl))
    refine ⟨r', hr', ?_⟩
    obtain ⟨r₀, hr₀, ⟨token, rfl⟩ | ⟨dto, -, -, -, -, rfl, -⟩⟩ := he.user_cases hr'
    · rw [hr] at hr₀; cases hr₀
      exact hp
    · exact absurd rfl (hq dto)

/-- **The logins the script prints work**, in every state the application reaches afterwards, as long
    as the employee does not change the profile; and no other number is accepted. -/
theorem logins_work (hsha : Function.Injective cfg.sha256) (clean : Bool) (now : ℕ)
    {acts : List (AppAction cfg)} {s : AppState cfg} (hu : u ∈ SEED_USERS)
    (hacts : ∀ dto, .submit (.updateProfile u.userId dto) ∉ acts)
    (hrun : (run clean now D).runs cfg acts = some s) (dto : LoginDto cfg)
    (hdto : dto.userId = u.userId) :
    LogsIn cfg s.db dto ↔ ∃ p ∈ u.phoneNumber, digits p = digits dto.phoneNumber := by
  obtain ⟨r₀, hr₀, hrow⟩ := (run_complete clean now D).1 u hu
  have hphone₀ : r₀.phoneNumber = u.phoneNumber := (congrArg User.phoneNumber (hrow 0)).symm
  obtain ⟨r, hr, hp⟩ := Deployment.base_holds (unpatched cfg u.userId u.phoneNumber)
    ⟨r₀, hr₀, hphone₀⟩ (fun q hq dto he => hacts dto (he ▸ hq)) hrun
  rw [logsIn_iff hsha, hdto]
  constructor
  · rintro ⟨user, p, huser, hpu, -, hdigits⟩
    rw [hr] at huser; cases huser
    exact ⟨p, hp ▸ hpu, hdigits⟩
  · rintro ⟨p, hpu, hdigits⟩
    exact ⟨r, p, hr, hp.trans hpu, phones_present u hu p hpu, hdigits⟩

end

/-- A seeded employee lists an item and logs in, with the number written in another way. -/
theorem logins_work_sample : ∃ s, (run true 5 (.migrated .empty)).runs sample
      (perform 0 6 (.createItem "EMP00102" sampleUnit)) = some s ∧
    LogsIn sample s.db (sampleLogin "(856) 20-5555-0102" (by decide +kernel)) := by
  obtain ⟨s, hrun, -⟩ : ∃ s, (run true 5 (.migrated .empty)).runs sample
      (perform 0 6 (.createItem "EMP00102" sampleUnit)) = some s ∧ true = true := by
    have h : ((run true 5 (.migrated .empty)).runs sample
        (perform 0 6 (.createItem "EMP00102" sampleUnit))).map (fun _ => true) = some true := by
      decide +kernel
    simpa [Option.map_eq_some_iff] using h
  have hu : (⟨"EMP00102", "Khamla Vongsa", some "Human Resources", some "+856 20 5555 0102", none⟩ :
      SeedUser) ∈ SEED_USERS := List.mem_cons_of_mem _ List.mem_cons_self
  refine ⟨s, hrun, (logins_work sample_sha256 true 5 hu (fun dto hm => ?_) hrun
    (sampleLogin "(856) 20-5555-0102" (by decide +kernel)) (by decide +kernel)).2
    ⟨_, rfl, by decide +kernel⟩⟩
  simp [perform] at hm

end Marketplace.Seed
