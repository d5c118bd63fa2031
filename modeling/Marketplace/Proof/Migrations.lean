/-
  Upgrading a database loses nothing and can be undone; what is lost when it is
  undone first.
-/
import Marketplace.Migrations

namespace Marketplace

open Migration

/-! ## Statements -/

section
variable {κ ρ : Type} [DecidableEq κ] {t : Table κ ρ} {p : ρ → Bool}

theorem addCheck_ok : addCheck t p = .ok () ↔ ∀ k r, t.get k = some r → p r = true := by
  unfold addCheck
  split_ifs with h
  · exact iff_of_true rfl fun k r hr => List.all_eq_true.1 h _ (Table.mem_rows.2 hr)
  · refine iff_of_false (by rintro ⟨⟩) fun hall => h (List.all_eq_true.2 fun x hx => ?_)
    exact hall x.1 x.2 (Table.mem_rows.1 hx)

theorem addCheck_bind {α : Type} {f : Unit → Except QueryFailedError α} {a : α} :
    (addCheck t p >>= f) = .ok a ↔ (∀ k r, t.get k = some r → p r = true) ∧ f () = .ok a := by
  refine bind_ok.trans ⟨fun ⟨_, h, h'⟩ => ⟨addCheck_ok.1 h, h'⟩, fun ⟨h, h'⟩ => ⟨(), addCheck_ok.2 h, h'⟩⟩

theorem createUniqueIndex_null {α : Type} [DecidableEq α] {column : ρ → Option α}
    (h : ∀ k r, t.get k = some r → column r = none) : createUniqueIndex t column = .ok () := by
  refine if_pos ?_
  have hnil : (t.rows.filterMap fun x => column x.2) = [] :=
    List.filterMap_eq_nil_iff.2 fun x hx => h x.1 x.2 (Table.mem_rows.1 hx)
  rw [hnil]
  exact List.nodup_nil

end

/-! ## What a version does not hold -/

/-- No employee has a device. -/
def NoTokens (d : Database) : Prop := ∀ u r, d.users.get u = some r → r.fcmToken = none

def NoNotifications (d : Database) : Prop := ∀ n, d.notifications.get n = none

def NoHousehold (d : Database) : Prop := ∀ i r, d.items.get i = some r → r.itemType ≠ .household

/-- Every item has the stock that an upgrade gives it. -/
def DefaultStock (d : Database) : Prop :=
  ∀ i r, d.items.get i = some r → r.quantity = if r.status = .sold then 0 else 1

structure NoRows (d : Database) : Prop where
  users : ∀ u, d.users.get u = none
  items : ∀ i, d.items.get i = none
  orders : ∀ o, d.orders.get o = none
  messages : ∀ n, d.messages.get n = none

/-- The version holds all there is in the database. -/
def Version.Holds : Version → Database → Prop
  | .addUserFcmToken, _ => True
  | .addNotifications, d => NoTokens d
  | .addHouseholdItemType, d => NoTokens d ∧ NoNotifications d
  | .addItemQuantity, d => NoTokens d ∧ NoNotifications d ∧ NoHousehold d
  | .initialSchema, d => NoTokens d ∧ NoNotifications d ∧ NoHousehold d ∧ DefaultStock d
  | .empty, d => NoTokens d ∧ NoNotifications d ∧ NoHousehold d ∧ DefaultStock d ∧ NoRows d

/-- Items for households are admitted. -/
def Version.household : Version → Bool
  | .empty | .initialSchema | .addItemQuantity => false
  | .addHouseholdItemType | .addNotifications | .addUserFcmToken => true

theorem admitsType_iff {t : ItemType} : InitialSchema.admitsType t = true ↔ t ≠ .household := by
  cases t <;> decide

/-! ## One migration at a time -/

namespace InitialSchema

theorem reversible : Reversible (Version.empty.Constraints) Version.initialSchema.Constraints
    (⟨up, down⟩ : Migration QueryFailedError Unit Database) := by
  refine ⟨fun _ _ => ⟨_, rfl, ⟨?_, by simp⟩, rfl⟩, fun _ _ _ _ => trivial⟩
  constructor <;> simp

theorem restores {d : Database} : Restores (⟨up, down⟩ : Migration QueryFailedError Unit Database) d ↔
    (∀ u, d.users.get u = none) ∧ (∀ i, d.items.get i = none) ∧ (∀ o, d.orders.get o = none) ∧
      ∀ n, d.messages.get n = none := by
  obtain ⟨users, items, orders, messages⟩ := d
  have hup : Restores (⟨up, down⟩ : Migration QueryFailedError Unit Database)
      ⟨users, items, orders, messages⟩ ↔
      (⟨.empty, .empty, .empty, .empty⟩ : Database) = ⟨users, items, orders, messages⟩ :=
    ⟨fun h => Except.ok.inj h, fun h => congrArg Except.ok h⟩
  rw [hup, Database.mk.injEq]
  simp only [eq_comm (a := Table.empty), Table.eq_empty]

end InitialSchema

namespace AddItemQuantity

/-- An item after the upgrade. -/
def upgraded (i : InitialSchema.Item) : Item := soldOut (addQuantity i)

theorem upgraded_quantity (i : InitialSchema.Item) :
    (upgraded i).quantity = if (upgraded i).status = .sold then 0 else 1 := by
  unfold upgraded soldOut
  split_ifs with h <;> simp_all [addQuantity]

@[simp] theorem dropQuantity_upgraded (i : InitialSchema.Item) : dropQuantity (upgraded i) = i := by
  unfold upgraded soldOut
  split_ifs <;> rfl

/-- An item is what an upgrade makes of it if it has the stock that an upgrade gives it. -/
theorem upgraded_dropQuantity {i : Item} :
    upgraded (dropQuantity i) = i ↔ i.quantity = if i.status = .sold then 0 else 1 := by
  constructor
  · intro h
    have hq := upgraded_quantity (dropQuantity i)
    rwa [h] at hq
  · intro h
    have hi : upgraded (dropQuantity i) =
        { i with quantity := if i.status = .sold then 0 else 1 } := by
      unfold upgraded soldOut
      by_cases hs : i.status = .sold <;> simp [dropQuantity, addQuantity, hs]
    rw [hi, ← h]

theorem up_eq (d : InitialSchema.Database) :
    up d = .ok ⟨d.users, d.items.alter upgraded, d.orders, d.messages⟩ := by
  unfold up
  simp only [Table.alter_alter]
  refine addCheck_bind.2 ⟨fun k r hr => ?_, rfl⟩
  rw [Table.get_alter, Option.map_eq_some_iff] at hr
  obtain ⟨i, -, rfl⟩ := hr
  have hq := upgraded_quantity i
  refine decide_eq_true ?_
  change 0 ≤ (upgraded i).quantity
  split_ifs at hq <;> omega

theorem initial_upgraded (d : InitialSchema.Database) :
    Database.initial ⟨d.users, d.items.alter upgraded, d.orders, d.messages⟩ = d := by
  simp only [Database.initial, Table.alter_alter, dropQuantity_upgraded]
  rw [Table.alter_eq_self.2 fun _ _ _ => rfl]

theorem reversible : Reversible Version.initialSchema.Constraints Version.addItemQuantity.Constraints
    (⟨up, down⟩ : Migration QueryFailedError InitialSchema.Database Database) := by
  constructor
  · rintro d ⟨h, htypes⟩
    have row {i : ℤ} {r : Item} (hr : (d.items.alter upgraded).get i = some r) :
        ∃ i₀, d.items.get i = some i₀ ∧ upgraded i₀ = r := by
      rwa [Table.get_alter, Option.map_eq_some_iff] at hr
    refine ⟨_, up_eq d, ⟨⟨(initial_upgraded d).symm ▸ h, fun i r hr => ?_, fun i r hr => ?_⟩,
      fun i r hr => ?_⟩, congrArg Except.ok (initial_upgraded d)⟩
    · obtain ⟨i₀, -, rfl⟩ := row hr
      have hq := upgraded_quantity i₀
      split_ifs at hq <;> omega
    · obtain ⟨i₀, -, rfl⟩ := row hr
      have hq := upgraded_quantity i₀
      split_ifs at hq <;> omega
    · obtain ⟨i₀, hi₀, rfl⟩ := row hr
      have ht := htypes i i₀ hi₀
      rwa [← dropQuantity_upgraded i₀] at ht
  · rintro d _ ⟨h, htypes⟩ hd
    cases hd
    refine ⟨h.initial, fun i r hr => ?_⟩
    obtain ⟨i₀, hi₀, rfl⟩ := Option.map_eq_some_iff.1 ((Table.get_alter ..).symm.trans hr)
    exact htypes i i₀ hi₀

theorem restores {d : Database} :
    Restores (⟨up, down⟩ : Migration QueryFailedError InitialSchema.Database Database) d ↔
      ∀ i r, d.items.get i = some r → r.quantity = if r.status = .sold then 0 else 1 := by
  obtain ⟨users, items, orders, messages⟩ := d
  have hup : Restores (⟨up, down⟩ : Migration QueryFailedError InitialSchema.Database Database)
      ⟨users, items, orders, messages⟩ ↔ (items.alter dropQuantity).alter upgraded = items := by
    have h := up_eq (Database.initial ⟨users, items, orders, messages⟩)
    refine ⟨fun hr => congrArg Database.items (Except.ok.inj (h.symm.trans hr)), fun hr => ?_⟩
    exact h.trans (congrArg (fun items => Except.ok (⟨users, items, orders, messages⟩ : Database)) hr)
  rw [hup, Table.alter_alter, Table.alter_eq_self]
  simp only [upgraded_dropQuantity]

end AddItemQuantity

namespace AddHouseholdItemType

theorem up_eq (d : Database) : up d = .ok d :=
  addCheck_bind.2 ⟨fun _ r _ => by cases r.itemType <;> decide, rfl⟩

theorem down_ok {d d' : Database} :
    down d = .ok d' ↔ (∀ i r, d.items.get i = some r → InitialSchema.admitsType r.itemType) ∧ d = d' :=
  addCheck_bind.trans (and_congr_right fun _ => ⟨Except.ok.inj, congrArg _⟩)

theorem reversible : Reversible Version.addItemQuantity.Constraints
    Version.addHouseholdItemType.Constraints
    (⟨up, down⟩ : Migration QueryFailedError AddItemQuantity.Database Database) := by
  refine ⟨fun d hd => ⟨d, up_eq d, hd.1, down_ok.2 ⟨hd.2, rfl⟩⟩, fun d d' hd h => ?_⟩
  obtain ⟨htypes, rfl⟩ := down_ok.1 h
  exact ⟨hd, htypes⟩

theorem restores {d : Database} :
    Restores (⟨up, down⟩ : Migration QueryFailedError AddItemQuantity.Database Database) d ↔
      ∀ i r, d.items.get i = some r → r.itemType ≠ .household := by
  simp only [restores_iff, down_ok, up_eq, Except.ok.injEq, admitsType_iff]
  constructor
  · rintro ⟨_, ⟨h, -⟩, -⟩
    exact h
  · exact fun h => ⟨d, ⟨h, rfl⟩, rfl⟩

end AddHouseholdItemType

namespace AddNotifications

theorem reversible : Reversible Version.addHouseholdItemType.Constraints
    Version.addNotifications.Constraints
    (⟨up, down⟩ : Migration QueryFailedError AddHouseholdItemType.Database Database) := by
  refine ⟨fun d hd => ⟨_, rfl, ⟨hd, by simp⟩, rfl⟩, fun d d' hd h => ?_⟩
  cases h
  exact hd.before

theorem restores {d : Database} :
    Restores (⟨up, down⟩ : Migration QueryFailedError AddHouseholdItemType.Database Database) d ↔
      ∀ n, d.notifications.get n = none := by
  obtain ⟨d, notifications⟩ := d
  rw [← Table.eq_empty]
  exact ⟨fun h => (congrArg Database.notifications (Except.ok.inj h)).symm,
    fun h => congrArg (fun t => Except.ok (⟨d, t⟩ : Database)) h.symm⟩

end AddNotifications

namespace AddUserFcmToken

theorem addFcmToken_dropFcmToken {u : User} : addFcmToken (dropFcmToken u) = u ↔ u.fcmToken = none := by
  constructor
  · intro h
    rw [← h]
    rfl
  · intro h
    obtain ⟨fullName, department, phoneNumber, qrPaymentUrl, fcmToken, createdAt⟩ := u
    cases h
    rfl

theorem up_eq (d : AddNotifications.Database) :
    up d = .ok ⟨d.users.alter addFcmToken, d.items, d.orders, d.messages, d.notifications⟩ := by
  refine bind_ok.2 ⟨(), createUniqueIndex_null fun u r hr => ?_, rfl⟩
  rw [Table.get_alter, Option.map_eq_some_iff] at hr
  obtain ⟨u₀, -, rfl⟩ := hr
  rfl

theorem before_upgraded (d : AddNotifications.Database) :
    before ⟨d.users.alter addFcmToken, d.items, d.orders, d.messages, d.notifications⟩ = d := by
  have h : (d.users.alter addFcmToken).alter dropFcmToken = d.users := by
    rw [Table.alter_alter]
    exact Table.alter_eq_self.2 fun _ _ _ => rfl
  simp only [before, h]

theorem reversible : Reversible Version.addNotifications.Constraints Version.addUserFcmToken.Constraints
    (⟨up, down⟩ : Migration QueryFailedError AddNotifications.Database Database) := by
  refine ⟨fun d hd => ⟨_, up_eq d, ⟨(before_upgraded d).symm ▸ hd, ?_⟩,
    congrArg Except.ok (before_upgraded d)⟩, fun d d' hd h => ?_⟩
  · intro u v r r' t hr _ ht
    rw [Table.get_alter, Option.map_eq_some_iff] at hr
    obtain ⟨u₀, -, rfl⟩ := hr
    cases ht
  · cases h
    exact hd.before

theorem restores {d : Database} :
    Restores (⟨up, down⟩ : Migration QueryFailedError AddNotifications.Database Database) d ↔
      NoTokens d := by
  obtain ⟨users, items, orders, messages, notifications⟩ := d
  have hup : Restores (⟨up, down⟩ : Migration QueryFailedError AddNotifications.Database Database)
      ⟨users, items, orders, messages, notifications⟩ ↔
      (users.alter dropFcmToken).alter addFcmToken = users := by
    have h := up_eq (before ⟨users, items, orders, messages, notifications⟩)
    refine ⟨fun hr => congrArg Database.users (Except.ok.inj (h.symm.trans hr)), fun hr => ?_⟩
    exact h.trans (congrArg (fun users =>
      Except.ok (⟨users, items, orders, messages, notifications⟩ : Database)) hr)
  rw [hup, Table.alter_alter, Table.alter_eq_self]
  simp only [addFcmToken_dropFcmToken]
  exact Iff.rfl

end AddUserFcmToken

/-! ## All of them -/

theorem pending_reversible (v : Version) :
    (pending v).Reversible v.Constraints Version.addUserFcmToken.Constraints := by
  have notifications := Migrations.Reversible.cons AddUserFcmToken.reversible (.nil _)
  have household := Migrations.Reversible.cons AddNotifications.reversible notifications
  have quantity := Migrations.Reversible.cons AddHouseholdItemType.reversible household
  have initial := Migrations.Reversible.cons AddItemQuantity.reversible quantity
  cases v with
  | empty => exact .cons InitialSchema.reversible initial
  | initialSchema => exact initial
  | addItemQuantity => exact quantity
  | addHouseholdItemType => exact household
  | addNotifications => exact notifications
  | addUserFcmToken => exact .nil _

variable {d : Database}

/-- Reverting to a version fails if it does not admit items for households and there are some. -/
theorem revert_ok (v : Version) :
    (∃ a, revertMigrations v d = .ok a) ↔ (v.household = false → NoHousehold d) := by
  have quantity : (∃ a, revertMigrations .addItemQuantity d = .ok a) ↔ NoHousehold d := by
    have h (a) : revertMigrations .addItemQuantity d = .ok a ↔ _ := AddHouseholdItemType.down_ok
    simp only [h, exists_and_left, exists_eq', and_true, admitsType_iff]
    exact Iff.rfl
  have initial : (∃ a, revertMigrations .initialSchema d = .ok a) ↔ NoHousehold d :=
    (Migrations.down_cons fun b => ⟨b.initial, rfl⟩).trans quantity
  have empty : (∃ a, revertMigrations .empty d = .ok a) ↔ NoHousehold d :=
    (Migrations.down_cons fun _ => ⟨(), rfl⟩).trans initial
  cases v with
  | empty => simpa [Version.household] using empty
  | initialSchema => simpa [Version.household] using initial
  | addItemQuantity => simpa [Version.household] using quantity
  | addHouseholdItemType => exact iff_of_true ⟨_, rfl⟩ (by rintro ⟨⟩)
  | addNotifications => exact iff_of_true ⟨_, rfl⟩ (by rintro ⟨⟩)
  | addUserFcmToken => exact iff_of_true ⟨_, rfl⟩ (by rintro ⟨⟩)

/-- Reverting to a version and upgrading again restores what the version holds. -/
theorem restores_iff_holds (hd : Constraints d) (v : Version) :
    (pending v).Restores d ↔ v.Holds d := by
  have notifications : (pending .addNotifications).Restores d ↔ NoTokens d := by
    refine (Migrations.restores_cons AddUserFcmToken.reversible (.nil _) hd).trans ?_
    refine (and_iff_right rfl).trans ⟨fun h => AddUserFcmToken.restores.1 (h d rfl), ?_⟩
    rintro h _ ⟨⟩
    exact AddUserFcmToken.restores.2 h
  have household : (pending .addHouseholdItemType).Restores d ↔ NoTokens d ∧ NoNotifications d := by
    refine (Migrations.restores_cons AddNotifications.reversible (pending_reversible .addNotifications)
      hd).trans (and_congr notifications ⟨fun h => AddNotifications.restores.1 (h _ rfl), ?_⟩)
    rintro h _ ⟨⟩
    exact AddNotifications.restores.2 h
  have quantity : (pending .addItemQuantity).Restores d ↔
      NoTokens d ∧ NoNotifications d ∧ NoHousehold d := by
    refine (Migrations.restores_cons AddHouseholdItemType.reversible
      (pending_reversible .addHouseholdItemType) hd).trans ?_
    rw [← and_assoc]
    refine and_congr household ⟨fun h => AddHouseholdItemType.restores.1 (h _ rfl), ?_⟩
    rintro h _ ⟨⟩
    exact AddHouseholdItemType.restores.2 h
  -- what is left to revert succeeds now that there are no items for households
  have check (h : NoTokens d ∧ NoNotifications d ∧ NoHousehold d) :
      (pending .addItemQuantity).down d = .ok (AddUserFcmToken.before d).toDatabase :=
    AddHouseholdItemType.down_ok.2 ⟨fun i r hr => admitsType_iff.2 (h.2.2 i r hr), rfl⟩
  have initial : (pending .initialSchema).Restores d ↔
      NoTokens d ∧ NoNotifications d ∧ NoHousehold d ∧ DefaultStock d := by
    refine (Migrations.restores_cons AddItemQuantity.reversible
      (pending_reversible .addItemQuantity) hd).trans ?_
    rw [quantity]
    constructor
    · rintro ⟨h, hall⟩
      exact ⟨h.1, h.2.1, h.2.2, AddItemQuantity.restores.1 (hall _ (check h))⟩
    · rintro ⟨ht, hn, hh, hs⟩
      refine ⟨⟨ht, hn, hh⟩, fun b hb => ?_⟩
      obtain rfl := Except.ok.inj ((check ⟨ht, hn, hh⟩).symm.trans hb)
      exact AddItemQuantity.restores.2 hs
  have down (h : NoTokens d ∧ NoNotifications d ∧ NoHousehold d) :
      (pending .initialSchema).down d = .ok (AddUserFcmToken.before d).initial :=
    bind_ok.2 ⟨_, check h, rfl⟩
  cases v with
  | addUserFcmToken => exact iff_of_true rfl trivial
  | addNotifications => exact notifications
  | addHouseholdItemType => exact household
  | addItemQuantity => exact quantity
  | initialSchema => exact initial
  | empty =>
    refine (Migrations.restores_cons InitialSchema.reversible
      (pending_reversible .initialSchema) hd).trans ?_
    rw [initial]
    constructor
    · rintro ⟨⟨ht, hn, hh, hs⟩, hall⟩
      obtain ⟨hu, hi, ho, hm⟩ := InitialSchema.restores.1 (hall _ (down ⟨ht, hn, hh⟩))
      refine ⟨ht, hn, hh, hs, fun u => ?_, fun i => ?_, ho, hm⟩
      · exact Option.map_eq_none_iff.1 ((Table.get_alter ..).symm.trans (hu u))
      · exact Option.map_eq_none_iff.1 ((Table.get_alter ..).symm.trans (hi i))
    · rintro ⟨ht, hn, hh, hs, hrows⟩
      refine ⟨⟨ht, hn, hh, hs⟩, fun b hb => ?_⟩
      obtain rfl := Except.ok.inj ((down ⟨ht, hn, hh⟩).symm.trans hb)
      refine InitialSchema.restores.2 ⟨fun u => ?_, fun i => ?_, hrows.orders, hrows.messages⟩
      · exact (Table.get_alter ..).trans (Option.map_eq_none_iff.2 (hrows.users u))
      · exact (Table.get_alter ..).trans (Option.map_eq_none_iff.2 (hrows.items i))

/-- **Upgrading loses nothing.**  A database of any version that satisfies the constraints of its
    version is upgraded to one that satisfies all constraints, holds nothing the version does not, and
    is the old one again when the migrations are reverted. -/
theorem upgrade_lossless (v : Version) (a : v.Tables) (ha : v.Constraints a) :
    ∃ d, runMigrations v a = .ok d ∧ Constraints d ∧ v.Holds d ∧ revertMigrations v d = .ok a := by
  obtain ⟨d, hup, hd, hdown⟩ := (pending_reversible v).up a ha
  exact ⟨d, hup, hd, (restores_iff_holds hd v).1 (bind_ok.2 ⟨a, hdown, hup⟩), hdown⟩

/-- A database of the first version: of the items of an employee one is sold, and another one is
    reserved. -/
def sampleLegacy : InitialSchema.Database where
  users := (Table.empty.put "EMP00101" ⟨"Seller", none, none, none, 0⟩).put "EMP00102"
    ⟨"Buyer", none, none, none, 0⟩
  items := (Table.empty.put 1
    ⟨"EMP00101", "Rice cooker", none, 1000, .secondHand, .sold, "Lobby", [], 0⟩).put 2
    ⟨"EMP00101", "Kettle", none, 500, .secondHand, .reserved, "Lobby", [], 0⟩
  orders := (Table.empty.put 1 ⟨1, "EMP00102", "EMP00101", 1, 1000, .completed, none, 0⟩).put 2
    ⟨2, "EMP00102", "EMP00101", 1, 500, .pending, none, 0⟩
  messages := .empty

theorem sampleLegacy_constraints : Version.initialSchema.Constraints sampleLegacy := by
  refine ⟨⟨?_, ?_, ?_, ?_, ?_, ?_⟩, ?_⟩
  · refine Table.forall_put ⟨by decide, by decide, by simp, by simp⟩ ?_
    exact Table.forall_put ⟨by decide, by decide, by simp, by simp⟩ (by simp)
  · refine Table.forall_put ⟨by decide, by decide, by decide, by decide, by decide⟩ ?_
    exact Table.forall_put ⟨by decide, by decide, by decide, by decide, by decide⟩ (by simp)
  · refine Table.forall_put
      ⟨by decide, by decide, by decide, by decide, by decide, by decide, by decide⟩ ?_
    exact Table.forall_put
      ⟨by decide, by decide, by decide, by decide, by decide, by decide, by decide⟩ (by simp)
  · exact Table.forall_put (by decide) (Table.forall_put (by decide) (by simp))
  · -- only the second order is PENDING
    have pending {o : ℤ} {r : Order} (ho : sampleLegacy.orders.get o = some r)
        (hp : r.status = .pending) : o = 2 := by
      rcases Table.get_put_cases ho with ⟨rfl, -⟩ | ⟨-, ho⟩
      · rfl
      · rcases Table.get_put_cases ho with ⟨-, rfl⟩ | ⟨-, ho⟩
        · cases hp
        · simp at ho
    intro o o' r r' ho ho' hp hp' _
    rw [pending ho hp, pending ho' hp']
  · simp [sampleLegacy]
  · exact Table.forall_put (by decide) (Table.forall_put (by decide) (by simp))

/-- The item that is sold has no stock after the upgrade. -/
theorem upgrade_lossless_sample : ∃ d, runMigrations .initialSchema sampleLegacy = .ok d ∧
    Constraints d ∧ Version.initialSchema.Holds d ∧
    revertMigrations .initialSchema d = .ok sampleLegacy :=
  upgrade_lossless .initialSchema sampleLegacy sampleLegacy_constraints

/-- **What reverting loses.**  Reverting to a version fails exactly if the version does not admit items
    for households and there are some; else the constraints of the version hold, and upgrading again
    restores the database exactly if the version holds all there was in it. -/
theorem revert_exact (hd : Constraints d) (v : Version) :
    ((∃ a, revertMigrations v d = .ok a) ↔ (v.household = false → NoHousehold d)) ∧
    ∀ a, revertMigrations v d = .ok a → v.Constraints a ∧ (runMigrations v a = .ok d ↔ v.Holds d) := by
  refine ⟨revert_ok v, fun a ha => ⟨(pending_reversible v).down d a hd ha, ?_⟩⟩
  refine ⟨fun h => (restores_iff_holds hd v).1 (bind_ok.2 ⟨a, ha, h⟩), fun h => ?_⟩
  obtain ⟨a', ha', hup⟩ := restores_iff.1 ((restores_iff_holds hd v).2 h)
  rwa [← Except.ok.inj (ha.symm.trans ha')] at hup

/-- The upgraded database can be reverted, and upgraded again, as it holds nothing new. -/
theorem revert_exact_sample : ∃ d a, Constraints d ∧ revertMigrations .addItemQuantity d = .ok a ∧
    Version.addItemQuantity.Constraints a ∧ runMigrations .addItemQuantity a = .ok d := by
  obtain ⟨d, hup, hd, hdown⟩ :=
    (pending_reversible .initialSchema).up sampleLegacy sampleLegacy_constraints
  obtain ⟨ht, hn, hh, -⟩ : Version.initialSchema.Holds d :=
    (restores_iff_holds hd .initialSchema).1 (bind_ok.2 ⟨_, hdown, hup⟩)
  obtain ⟨a, ha⟩ := (revert_exact hd .addItemQuantity).1.2 fun _ => hh
  obtain ⟨hc, hup⟩ := (revert_exact hd .addItemQuantity).2 a ha
  exact ⟨d, a, hd, ha, hc, hup.2 ⟨ht, hn, hh⟩⟩

end Marketplace
