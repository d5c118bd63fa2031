/-
  Schema migrations.

  A migration takes a database to the next version of its schema (`up`) and
  back (`down`); the database can refuse either.  The migrations of a chain run
  in one transaction, so a chain that fails leaves the database as it was.

  A migration is reversible between two kinds of databases if going up succeeds
  on the first kind, yields the second kind and is undone by going down; this
  composes along a chain (`Migrations.Reversible`).  Going down may lose rows and
  columns: what going up again restores is said link by link (`restores_cons`).
-/
import Marketplace.Lib.Table

/-- A migration from databases of type `A` to databases of type `B`. -/
structure Migration (F A B : Type) where
  up : A → Except F B
  down : B → Except F A

namespace Migration

variable {F A B : Type}

/-- Going up from `P` succeeds in `Q` and is undone by going down, which leads from `Q` to `P`. -/
structure Reversible (P : A → Prop) (Q : B → Prop) (m : Migration F A B) : Prop where
  up : ∀ a, P a → ∃ b, m.up a = .ok b ∧ Q b ∧ m.down b = .ok a
  down : ∀ b a, Q b → m.down b = .ok a → P a

/-- Going down and up again ends where it has begun. -/
def Restores (m : Migration F A B) (b : B) : Prop := (m.down b).bind m.up = .ok b

theorem bind_ok {α β : Type} {x : Except F α} {f : α → Except F β} {b : β} :
    x.bind f = .ok b ↔ ∃ a, x = .ok a ∧ f a = .ok b := by
  cases x with
  | error e => simp [Except.bind]
  | ok a => simp [Except.bind]

theorem restores_iff {m : Migration F A B} {b : B} :
    m.Restores b ↔ ∃ a, m.down b = .ok a ∧ m.up a = .ok b := bind_ok

end Migration

/-- Migrations one after another, the first one first. -/
inductive Migrations (F : Type) : Type → Type → Type 1
  | nil {A : Type} : Migrations F A A
  | cons {A B C : Type} (m : Migration F A B) (ms : Migrations F B C) : Migrations F A C

namespace Migrations

variable {F A B C : Type}

/-- The migrations in one transaction. -/
def up : {A C : Type} → Migrations F A C → A → Except F C
  | _, _, .nil, a => .ok a
  | _, _, .cons m ms, a => (m.up a).bind ms.up

/-- The migrations undone, the last one first. -/
def down : {A C : Type} → Migrations F A C → C → Except F A
  | _, _, .nil, c => .ok c
  | _, _, .cons m ms, c => (ms.down c).bind m.down

/-- The chain as one migration. -/
def toMigration (ms : Migrations F A C) : Migration F A C := ⟨ms.up, ms.down⟩

/-- Going up from `P` succeeds in `R` and is undone by going down, which leads from `R` to `P`. -/
abbrev Reversible (P : A → Prop) (R : C → Prop) (ms : Migrations F A C) : Prop :=
  ms.toMigration.Reversible P R

/-- Going down and up again ends where it has begun. -/
abbrev Restores (ms : Migrations F A C) (c : C) : Prop := ms.toMigration.Restores c

theorem Reversible.nil (P : A → Prop) : (Migrations.nil : Migrations F A A).Reversible P P :=
  ⟨fun a ha => ⟨a, rfl, ha, rfl⟩, fun _ _ ha h => Except.ok.inj h ▸ ha⟩

variable {P : A → Prop} {Q : B → Prop} {R : C → Prop} {m : Migration F A B} {ms : Migrations F B C}

theorem Reversible.cons (hm : m.Reversible P Q) (hms : ms.Reversible Q R) :
    (Migrations.cons m ms).Reversible P R := by
  constructor
  · intro a ha
    obtain ⟨b, hb, hQ, hdown⟩ := hm.up a ha
    obtain ⟨c, hc, hR, hdown'⟩ := hms.up b hQ
    exact ⟨c, Migration.bind_ok.2 ⟨b, hb, hc⟩, hR, Migration.bind_ok.2 ⟨b, hdown', hdown⟩⟩
  · intro c a hc h
    obtain ⟨b, hb, ha⟩ := Migration.bind_ok.1 h
    exact hm.down b a (hms.down c b hc hb) ha

/-- A migration that can always be undone does not keep a chain from being undone. -/
theorem down_cons (hm : ∀ b, ∃ a, m.down b = .ok a) {c : C} :
    (∃ a, (Migrations.cons m ms).down c = .ok a) ↔ ∃ b, ms.down c = .ok b := by
  constructor
  · rintro ⟨a, h⟩
    obtain ⟨b, hb, -⟩ := Migration.bind_ok.1 h
    exact ⟨b, hb⟩
  · rintro ⟨b, hb⟩
    obtain ⟨a, ha⟩ := hm b
    exact ⟨a, Migration.bind_ok.2 ⟨b, hb, ha⟩⟩

/-- What a chain restores is what the migrations after the first one restore, if the first one
    restores what they go down to. -/
theorem restores_cons (hm : m.Reversible P Q) (hms : ms.Reversible Q R) {c : C} (hc : R c) :
    (Migrations.cons m ms).Restores c ↔
      ms.Restores c ∧ ∀ b, ms.down c = .ok b → m.Restores b := by
  simp only [Migration.restores_iff]
  constructor
  · rintro ⟨a, hdown, hup⟩
    obtain ⟨b, hb, ha⟩ := Migration.bind_ok.1 hdown
    obtain ⟨b', hb', hc'⟩ := Migration.bind_ok.1 hup
    -- going up ends in `c` through `b'`, which going down from `c` meets again
    obtain ⟨b₁, hb₁, hQ, -⟩ := hm.up a (hm.down b a (hms.down c b hc hb) ha)
    obtain rfl : b₁ = b' := Except.ok.inj (hb₁.symm.trans hb')
    obtain ⟨c₁, hc₁, -, hdown₁⟩ := hms.up b₁ hQ
    obtain rfl : c₁ = c := Except.ok.inj (hc₁.symm.trans hc')
    obtain rfl : b₁ = b := Except.ok.inj (hdown₁.symm.trans hb)
    exact ⟨⟨b₁, hb, hc'⟩, fun b hb₂ => ⟨a, by rwa [← Except.ok.inj (hb.symm.trans hb₂)],
      by rwa [← Except.ok.inj (hb.symm.trans hb₂)]⟩⟩
  · rintro ⟨⟨b, hb, hc'⟩, h⟩
    obtain ⟨a, ha, hb'⟩ := h b hb
    exact ⟨a, Migration.bind_ok.2 ⟨b, hb, ha⟩, Migration.bind_ok.2 ⟨b, hb', hc'⟩⟩

end Migrations

/-! ## Tables whose columns change -/

namespace Table

variable {κ ρ ρ' ρ'' : Type}

/-- Every row is rewritten. -/
def alter (f : ρ → ρ') (t : Table κ ρ) : Table κ ρ' where
  map :=
    ⟨t.map.entries.map fun e => ⟨e.1, f e.2⟩, by
      rw [List.NodupKeys, List.keys, List.map_map]; exact t.map.nodupKeys⟩

theorem ext_rows {t t' : Table κ ρ} (h : t.rows = t'.rows) : t = t' := by
  obtain ⟨m⟩ := t
  obtain ⟨m'⟩ := t'
  refine congrArg Table.mk (AList.ext ?_)
  refine List.map_injective_iff.2 (fun e e' he => ?_) h
  exact Sigma.ext (congrArg Prod.fst he) (heq_of_eq (congrArg Prod.snd he))

@[simp] theorem rows_alter (f : ρ → ρ') (t : Table κ ρ) :
    (t.alter f).rows = t.rows.map fun x => (x.1, f x.2) := by
  simp [rows, alter]

theorem alter_alter (f : ρ → ρ') (g : ρ' → ρ'') (t : Table κ ρ) :
    (t.alter f).alter g = t.alter fun r => g (f r) := ext_rows (by simp)

variable [DecidableEq κ]

@[simp] theorem get_alter (f : ρ → ρ') (t : Table κ ρ) (k : κ) :
    (t.alter f).get k = (t.get k).map f := by
  cases h : t.get k with
  | some r =>
    refine mem_rows.1 ?_
    rw [rows_alter]
    exact List.mem_map.2 ⟨(k, r), mem_rows.2 h, rfl⟩
  | none =>
    refine Option.eq_none_iff_forall_ne_some.2 fun r' hr' => ?_
    obtain ⟨⟨k', r⟩, hr, he⟩ := List.mem_map.1 (rows_alter f t ▸ mem_rows.2 hr')
    obtain ⟨rfl, -⟩ := Prod.mk.inj he
    rw [mem_rows.1 hr] at h
    cases h

theorem alter_eq_self {f : ρ → ρ} {t : Table κ ρ} :
    t.alter f = t ↔ ∀ k r, t.get k = some r → f r = r := by
  constructor
  · intro h k r hr
    have hf := congrArg (Table.get · k) h
    simp only [get_alter, hr, Option.map_some] at hf
    exact Option.some.inj hf
  · intro h
    refine ext_rows ?_
    rw [rows_alter]
    refine (List.map_congr_left fun x hx => ?_).trans (List.map_id _)
    rw [h x.1 x.2 (mem_rows.1 hx)]
    rfl

theorem eq_empty {t : Table κ ρ} : t = empty ↔ ∀ k, t.get k = none := by
  refine ⟨fun h k => h ▸ get_empty k, fun h => ext_rows ?_⟩
  have hnil : t.rows = [] := by
    refine List.eq_nil_iff_forall_not_mem.2 fun x hx => ?_
    have hr : t.get x.1 = some x.2 := mem_rows.1 hx
    rw [h] at hr
    cases hr
  rw [hnil]
  rfl

end Table
