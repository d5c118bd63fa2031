/-
  The payment slip of an order that has been resolved, and the orders of the
  steps of `attachPaymentSlip` and `updateStatus` that change it.
-/
import Marketplace.Proof.Agreement

namespace Marketplace

open ReadCommitted

variable {cfg : Config} {base : Database → Prop} {q : Request cfg} {e : Event} {L : List Key}
  {d d' : Database}

/-- The orders that are COMPLETED or CANCELLED keep their payment slips. -/
def KeepsSlips (d d' : Database) : Prop :=
  ∀ o r, d.orders.get o = some r → r.status ≠ .pending →
    ∃ r', d'.orders.get o = some r' ∧ r'.paymentSlipUrl = r.paymentSlipUrl

/-- A slip is attached to an order that is still PENDING, or that has this slip already. -/
def AttachesInTime (q : Request cfg) (L : List Key) (d : Database) : Prop :=
  ∀ o userId dto r, q = .attachPaymentSlip o userId dto → .order o ∈ L → d.orders.get o = some r →
    r.status = .pending ∨ r.paymentSlipUrl = some dto.paymentSlipUrl

/-- Resolved orders stay resolved, with their payment slips. -/
def Frozen (d d' : Database) : Prop :=
  ∀ o r, d.orders.get o = some r → r.status ≠ .pending →
    ∃ r', d'.orders.get o = some r' ∧ r'.status ≠ .pending ∧ r'.paymentSlipUrl = r.paymentSlipUrl

theorem Frozen.refl (d : Database) : Frozen d d := fun _ r h hr => ⟨r, h, hr, rfl⟩

theorem Frozen.trans {a b c : Database} (h : Frozen a b) (h' : Frozen b c) : Frozen a c := by
  intro o r ho hr
  obtain ⟨r₁, ho₁, hr₁, hs₁⟩ := h o r ho hr
  obtain ⟨r₂, ho₂, hr₂, hs₂⟩ := h' o r₁ ho₁ hr₁
  exact ⟨r₂, ho₂, hr₂, hs₂.trans hs₁⟩

theorem Frozen.keepsSlips (h : Frozen d d') : KeepsSlips d d' := by
  intro o r ho hr
  obtain ⟨r', ho', -, hs⟩ := h o r ho hr
  exact ⟨r', ho', hs⟩

/-- An event freezes the slips of the orders that are resolved, if it attaches its own in time. -/
theorem Emits.frozen (he : Emits cfg base q e L d d') (hin : AttachesInTime q L d) :
    Frozen d d' := by
  intro o r ho hr
  rcases he.order_cases ho with ho' | ⟨_, _, _, _, hp, _⟩ | ⟨u, dto, rfl, _, hl, ho'⟩
  · exact ⟨r, ho', hr, rfl⟩
  · exact absurd hp hr
  · refine ⟨_, ho', hr, ?_⟩
    rcases hin o u dto r rfl hl ho with hp | hs
    · exact absurd hp hr
    · exact hs.symm

theorem Emits.attached {o : ℤ} {userId : String} {dto : AttachPaymentSlipDto cfg}
    (he : Emits cfg base (.attachPaymentSlip o userId dto) e L d d') (hl : .order o ∈ L) :
    ∃ r, d'.orders.get o = some r ∧ r.paymentSlipUrl = some dto.paymentSlipUrl := by
  cases he with
  | attachSlip => exact ⟨_, Table.get_put .., rfl⟩
  | readMessages h => cases h
  | readNotifications h => rcases h with ⟨_, h⟩ | h <;> cases h
  | notify _ _ h => cases h _ hl
  | forgetToken _ _ _ h => cases h _ hl

section
variable {users : Table String User} {acts : List (AppAction cfg)} {s : AppState cfg}

/-- **The payment slips of resolved orders never change during a run** iff every slip is written to
    an order that is still PENDING (or has this slip already). -/
theorem slips_frozen_iff (hrun : runs cfg users acts = some s) :
    Between cfg users acts KeepsSlips ↔ EveryCommit cfg users acts AttachesInTime := by
  constructor
  · rintro hall as j bs s₀ q st rfl hs₀ hj hc o u dto r rfl hl ho
    obtain ⟨s₁, hstep, hs₁⟩ := step_of_run hrun hs₀
    obtain ⟨e, he⟩ := commit_emits hs₀ hj hc hstep
    by_cases hp : r.status = .pending
    · exact Or.inl hp
    · obtain ⟨r', ho', hs'⟩ := hall as [.exec j] bs s₀ s₁ (by simp) hs₀ hs₁ o r ho hp
      obtain ⟨r₁, ho₁, hurl⟩ := he.attached hl
      rw [ho'] at ho₁; cases ho₁
      exact Or.inr (hs'.symm.trans hurl)
  · intro hC
    have hfrozen : Between cfg users acts Frozen :=
      between_of_commits Frozen.refl Frozen.trans hC fun as s₀ q e L d' _ hin he => he.frozen hin
    exact fun as bs cs s s' hacts hs hs' => (hfrozen as bs cs s s' hacts hs hs').keepsSlips

end

/-- The buyer attaches a slip to the first order. -/
def sampleSlip : Request sample :=
  .attachPaymentSlip 1 "EMP00102"
    ⟨"http://localhost:54321/storage/v1/object/public/marketplace/slip.png", by decide +kernel⟩

/-- The buyer attaches another one. -/
def sampleOtherSlip : Request sample :=
  .attachPaymentSlip 1 "EMP00102"
    ⟨"http://localhost:54321/storage/v1/object/public/marketplace/other.png", by decide +kernel⟩

/-- The order and the slip of a request that attaches one. -/
def attached? : Request sample → Option (ℤ × String)
  | .attachPaymentSlip o _ dto => some (o, dto.paymentSlipUrl)
  | _ => none

/-- The buyer attaches a slip, the seller completes the order, the buyer attaches another slip. -/
def sampleSlipKept : List (AppAction sample) :=
  sampleOrdered ++ perform 2 6 sampleSlip ++ perform 3 7 sampleComplete ++ perform 4 3 sampleOtherSlip

/-- The first slip stays, the second one is refused. -/
theorem slips_frozen_iff_sample : ∃ s r, runs sample sampleUsers sampleSlipKept = some s ∧
    s.db.orders.get 1 = some r ∧ r.status = .completed ∧
    r.paymentSlipUrl = some "http://localhost:54321/storage/v1/object/public/marketplace/slip.png" ∧
    (∃ q st, s.sessions[4]? = some (q, st) ∧ st.reply? = some (.error (.app
      (.conflict "Cannot attach a payment slip to a COMPLETED order")))) ∧
    Between sample sampleUsers sampleSlipKept KeepsSlips := by
  obtain ⟨s, hrun, hs⟩ : ∃ s, runs sample sampleUsers sampleSlipKept = some s ∧
      (((s.db.orders.get 1).any fun r => r.status = .completed && r.paymentSlipUrl =
          some "http://localhost:54321/storage/v1/object/public/marketplace/slip.png") &&
        s.sessions[4]?.any fun x => x.2.reply? = some (.error (.app
          (.conflict "Cannot attach a payment slip to a COMPLETED order")))) = true :=
    reaches (by decide +kernel)
  have hcommits : ∀ c ∈ (start sample sampleUsers).commits (program sample) sampleSlipKept,
      ∀ x ∈ attached? c.request, ∀ r ∈ c.db.orders.get x.1, r.status = .pending := by
    decide +kernel
  simp only [Bool.and_eq_true, Option.any_eq_true, decide_eq_true_eq] at hs
  obtain ⟨⟨r, ho, hr, hurl⟩, ⟨q, st⟩, hj, hreply⟩ := hs
  refine ⟨s, r, hrun, ho, hr, hurl, ⟨q, st, hj, hreply⟩, (slips_frozen_iff hrun).2 ?_⟩
  refine everyCommit_of_commits hrun ?_
  rintro c hc L o u dto r hq - ho
  exact Or.inl (hcommits c hc (o, dto.paymentSlipUrl) (by rw [hq]; rfl) r ho)

/-- The buyer's request reads the order, the seller completes it, -/
def sampleSlipRead : List (AppAction sample) :=
  sampleOrdered ++ perform 2 3 sampleSlip ++ perform 3 7 sampleComplete

/-- and the buyer's request writes the slip. -/
def sampleSlipLate : List (AppAction sample) := sampleSlipRead ++ List.replicate 3 (.exec 2)

/-- A slip can be written to an order that has been completed. -/
theorem slips_frozen_counterexample : ∃ s s' r r', runs sample sampleUsers sampleSlipRead = some s ∧
    runs sample sampleUsers sampleSlipLate = some s' ∧ s.db.orders.get 1 = some r ∧
    r.status = .completed ∧ r.paymentSlipUrl = none ∧ s'.db.orders.get 1 = some r' ∧
    r'.paymentSlipUrl ≠ none ∧ ¬ Between sample sampleUsers sampleSlipLate KeepsSlips := by
  obtain ⟨s, hrun, hs⟩ : ∃ s, runs sample sampleUsers sampleSlipRead = some s ∧
      ((s.db.orders.get 1).any fun r => r.status = .completed && r.paymentSlipUrl = none) = true :=
    reaches (by decide +kernel)
  obtain ⟨s', hrun', hs'⟩ : ∃ s, runs sample sampleUsers sampleSlipLate = some s ∧
      ((s.db.orders.get 1).any fun r => r.paymentSlipUrl ≠ none) = true :=
        reaches (by decide +kernel)
  simp only [Option.any_eq_true, Bool.and_eq_true, decide_eq_true_eq] at hs hs'
  obtain ⟨r, ho, hr, hnone⟩ := hs
  obtain ⟨r', ho', hurl⟩ := hs'
  refine ⟨s, s', r, r', hrun, hrun', ho, hr, hnone, ho', hurl, fun h => ?_⟩
  obtain ⟨r₁, ho₁, hs₁⟩ := h sampleSlipRead _ [] s s' (List.append_nil _).symm hrun hrun' 1 r ho
    (by simp [hr])
  rw [ho'] at ho₁; cases ho₁
  exact hurl (hs₁.trans hnone)

end Marketplace
