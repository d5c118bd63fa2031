/-
  Working on a database that has been upgraded.

  An upgrade gives every item that has not been sold a stock of one unit.  The
  application can go on with the orders of the old database if they are orders of
  the items' sellers, and those that are PENDING are of one unit of a RESERVED
  item; an order of several units was possible before.
-/
import Marketplace.Proof.Integrity

namespace Marketplace

open ReadCommitted AddItemQuantity

variable {cfg : Config} {a : InitialSchema.Database} {d : Database}

/-- The orders of an old database agree with its items, if each item has one unit. -/
def SingleUnits (a : InitialSchema.Database) : Prop :=
  ∀ o r, a.orders.get o = some r → ∃ item, a.items.get r.itemId = some item ∧
    r.sellerId = item.sellerId ∧ (r.status = .pending → item.status = .reserved ∧ r.quantity = 1)

theorem runMigrations_initialSchema (a : InitialSchema.Database) :
    runMigrations .initialSchema a = .ok ⟨a.users.alter AddUserFcmToken.addFcmToken,
      a.items.alter upgraded, a.orders, a.messages, .empty⟩ := by
  refine Migration.bind_ok.2 ⟨_, AddItemQuantity.up_eq a, ?_⟩
  refine Migration.bind_ok.2 ⟨_, AddHouseholdItemType.up_eq _, ?_⟩
  refine Migration.bind_ok.2 ⟨_, rfl, ?_⟩
  exact Migration.bind_ok.2 ⟨_, AddUserFcmToken.up_eq _, rfl⟩

@[simp] theorem upgraded_sellerId (i : InitialSchema.Item) : (upgraded i).sellerId = i.sellerId := by
  unfold upgraded soldOut
  split_ifs <;> rfl

@[simp] theorem upgraded_status (i : InitialSchema.Item) : (upgraded i).status = i.status := by
  unfold upgraded soldOut
  split_ifs <;> rfl

/-- An upgraded item has one unit, unless it has been sold. -/
theorem upgraded_stock {i : InitialSchema.Item} (h : i.status = .reserved) :
    (upgraded i).quantity = 1 := by
  have hq := upgraded_quantity i
  rwa [upgraded_status, h, if_neg (by decide)] at hq

theorem agreement_upgraded (ha : InitialSchema.Constraints a)
    (hd : runMigrations .initialSchema a = .ok d) : Agreement d ↔ SingleUnits a := by
  rw [runMigrations_initialSchema] at hd
  cases hd
  have item {i : ℤ} {item : Item} (hi : (a.items.alter upgraded).get i = some item) :
      ∃ i₀, a.items.get i = some i₀ ∧ upgraded i₀ = item :=
    Option.map_eq_some_iff.1 ((Table.get_alter ..).symm.trans hi)
  constructor
  · intro h o r hr
    obtain ⟨item', hi, hs, -, hone⟩ := h.item hr
    obtain ⟨i₀, hi₀, rfl⟩ := item hi
    rw [upgraded_sellerId] at hs
    refine ⟨i₀, hi₀, hs, fun hp => ?_⟩
    obtain ⟨hres, hle⟩ := h.covered hr hp hi
    rw [upgraded_status] at hres
    rw [upgraded_stock hres] at hle
    exact ⟨hres, le_antisymm hle hone⟩
  · intro h
    refine ⟨fun {o r} hr => ?_, fun {o r item'} hr hp hi => ?_, fun {o o' r r'} hr hr' hp hp' hi =>
      ha.UQ_orders_item_pending o o' r r' hr hr' hp hp' hi, fun {i item'} hi => ?_⟩
    · obtain ⟨i₀, hi₀, hs, -⟩ := h o r hr
      have hcols := ha.orders o r hr
      refine ⟨upgraded i₀, (Table.get_alter ..).trans (by rw [hi₀]; rfl), ?_, ?_, ?_⟩
      · rw [upgraded_sellerId]; exact hs
      · rw [upgraded_sellerId, ← hs]; exact hcols.CHK_orders_buyer_not_seller
      · exact hcols.CHK_orders_quantity
    · obtain ⟨i₀, hi₀, -, hpending⟩ := h o r hr
      obtain ⟨i₁, hi₁, rfl⟩ := item hi
      rw [hi₀] at hi₁; cases hi₁
      obtain ⟨hres, hone⟩ := hpending hp
      rw [upgraded_status, upgraded_stock hres, hone]
      exact ⟨hres, le_rfl⟩
    · obtain ⟨i₀, -, rfl⟩ := item hi
      have hq := upgraded_quantity i₀
      split_ifs at hq <;> omega

/-- **Which old databases can be worked on.**  After an upgrade, orders and items agree in every state
    that any requests reach if and only if the old orders were on items of their sellers and those that
    were PENDING were for one unit of a RESERVED item. -/
theorem upgraded_runs_agree (ha : InitialSchema.Constraints a) {D : Deployment}
    (hD : runMigrations .initialSchema a = .ok D.db) :
    (∀ (acts : List (AppAction cfg)) s, D.runs cfg acts = some s → Agreement s.db) ↔ SingleUnits a := by
  rw [← agreement_upgraded ha hD]
  constructor
  · exact fun h => h [] (D.start cfg) rfl
  · exact fun h acts s hrun => Deployment.always h (fun q e L d d' he h => h.step he) hrun

/-- An old database after the upgrade. -/
def sampleUpgradedDb : Database :=
  ⟨sampleLegacy.users.alter AddUserFcmToken.addFcmToken, sampleLegacy.items.alter upgraded,
    sampleLegacy.orders, sampleLegacy.messages, .empty⟩

theorem sampleUpgraded_pos (_ : Serial) : 1 ≤ 3 := by decide

theorem sampleUpgraded_fresh (t : Serial) (n : ℕ) (h : 3 ≤ n) :
    sampleUpgradedDb.get (t.key n) = none := by
  have h₁ : (n : ℤ) ≠ 1 := by omega
  have h₂ : (n : ℤ) ≠ 2 := by omega
  have hput {ρ : Type} (r r' : ρ) :
      ((Table.empty.put (1 : ℤ) r).put 2 r').get (n : ℤ) = none := by
    rw [Table.get_put_ne _ _ h₂, Table.get_put_ne _ _ h₁, Table.get_empty]
  cases t with
  | items => exact (Table.get_alter ..).trans (congrArg (Option.map upgraded) (hput ..))
  | orders => exact hput ..
  | messages | notifications => exact Table.get_empty _

/-- The next ids are beyond those that are taken. -/
def sampleUpgraded : Deployment := ⟨sampleUpgradedDb, fun _ => 3, sampleUpgraded_pos, sampleUpgraded_fresh⟩

/-- The seller completes the order of the old database. -/
def sampleOldOrder : Request sample := .updateOrderStatus 2 "EMP00101" ⟨.completed, completed_in⟩

/-- The PENDING order of the old database is completed on the upgraded one, which takes the unit of its
    item. -/
theorem upgraded_runs_agree_sample : ∃ r item s, sampleLegacy.orders.get 2 = some r ∧
    r.status = .pending ∧ sampleUpgraded.runs sample (perform 0 7 sampleOldOrder) = some s ∧
    s.db.items.get 2 = some item ∧ item.status = .sold ∧ item.quantity = 0 ∧ Agreement s.db := by
  obtain ⟨s, hrun, hs⟩ : ∃ s, sampleUpgraded.runs sample (perform 0 7 sampleOldOrder) = some s ∧
      ((s.db.items.get 2).any fun item => item.status = .sold && item.quantity = 0) = true := by
    have h : (sampleUpgraded.runs sample (perform 0 7 sampleOldOrder)).map
        (fun s => (s.db.items.get 2).any fun item => item.status = .sold && item.quantity = 0) =
        some true := by decide +kernel
    simpa [Option.map_eq_some_iff] using h
  simp only [Option.any_eq_true, Bool.and_eq_true, decide_eq_true_eq] at hs
  obtain ⟨item, hi, hsold, hq⟩ := hs
  refine ⟨_, item, s, Table.get_put .., rfl, hrun, hi, hsold, hq,
    (upgraded_runs_agree sampleLegacy_constraints.1
      (runMigrations_initialSchema sampleLegacy)).2 (fun o r hr => ?_) _ s hrun⟩
  rcases Table.get_put_cases hr with ⟨rfl, rfl⟩ | ⟨-, hr⟩
  · exact ⟨_, Table.get_put .., rfl, fun _ => ⟨rfl, rfl⟩⟩
  · rcases Table.get_put_cases hr with ⟨rfl, rfl⟩ | ⟨-, hr⟩
    · exact ⟨_, Table.get_put_ne _ _ (by decide), rfl, by rintro ⟨⟩⟩
    · cases hr

end Marketplace
