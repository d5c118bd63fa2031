/-
  The totals of orders are exact to the cent: in floating point, they are those
  of the rows.
-/
import Marketplace.Proof.Schema
import Marketplace.Money
import Marketplace.Lib.Rounding

namespace Marketplace

open Rounding

variable {cfg : Config} {fl : ℚ → ℚ} {c q : ℤ} {p m : ℚ}

/-- The prices and quantities the validators admit. -/
structure Admitted (c q : ℤ) : Prop where
  cents : 0 ≤ c ∧ c ≤ 999999999999
  quantity : 1 ≤ q ∧ q ≤ 100

theorem Admitted.of_dto {item : CreateItemDto cfg} (hc : item.price = .value c)
    (order : CreateOrderDto) : Admitted c (order.quantity.getD 1) where
  cents := item.price_ok c hc
  quantity := order.quantity_bounds

theorem Admitted.round_eq (h : Admitted c q) (hp : Within 53 (c / 100) p)
    (hm : Within 53 (100 * p) m) : round m = c := by
  refine round_scaled (by norm_num) ?_ hp hm
  rw [abs_of_nonneg h.cents.1]
  have hmax := h.cents.2
  omega

/-- The total has three bits less than the arithmetic. -/
theorem Admitted.product (h : Admitted c q) :
    0 ≤ multiplyMoney c q ∧ 6 * multiplyMoney c q < 2 ^ 53 := by
  obtain ⟨⟨hc₀, hc⟩, hq₁, hq⟩ := h
  have hmax : c * q ≤ 999999999999 * 100 := Int.mul_le_mul hc hq (by omega) (by decide)
  constructor
  · exact Int.mul_nonneg hc₀ (by omega)
  · calc 6 * (c * q) ≤ 6 * (999999999999 * 100) := Int.mul_le_mul_of_nonneg_left hmax (by decide)
      _ < 2 ^ 53 := by decide

/-- Before the division no cent is lost. -/
theorem Admitted.cents_eq (h : Admitted c q) (hfl : Standard 53 fl) (hp : Within 53 (c / 100) p) :
    Money.cents fl p q = multiplyMoney c q := by
  have hm : Within 53 (100 * p) (fl (p * 100)) := by
    rw [mul_comm]
    exact hfl.error _
  have hsmall : |multiplyMoney c q| < 2 ^ 53 := by
    obtain ⟨hpos, hlt⟩ := h.product
    rw [abs_of_nonneg hpos]
    omega
  rw [Money.cents, h.round_eq hp hm, ← hfl.exact _ hsmall, multiplyMoney]
  push_cast
  rfl

/-- The total of `q` units at `c` cents loses no cent before it is divided by 100: not when the price is
    read back and multiplied by 100, and not when its cents are multiplied by the quantity. -/
structure ExactTotal (c q : ℤ) : Prop where
  rounds : ∀ p m, Within 53 (c / 100) p → Within 53 (100 * p) m → round m = c
  product : c * q < 2 ^ 53
  cents : ∀ fl p, Standard 53 fl → Within 53 (c / 100) p → Money.cents fl p q = c * q
  total : ∀ fl p, Standard 53 fl → Within 53 (c / 100) p →
    Money.multiplyMoney fl p q = fl (c * q / 100)

theorem Admitted.exactTotal (h : Admitted c q) : ExactTotal c q where
  rounds _ _ hp hm := h.round_eq hp hm
  product := by
    obtain ⟨hpos, hlt⟩ := h.product
    rw [multiplyMoney] at hpos hlt
    omega
  cents fl p hfl hp := by
    rw [h.cents_eq hfl hp, multiplyMoney]
    push_cast
    rfl
  total fl p hfl hp := by
    rw [Money.multiplyMoney, h.cents_eq hfl hp, multiplyMoney]
    push_cast
    rfl

/-- **Order totals are exact to the cent**, for all prices and quantities that are admitted. -/
theorem order_totals_exact (cfg : Config) :
    (∀ c q : ℤ, 0 ≤ c → c ≤ 999999999999 → 1 ≤ q → q ≤ 100 → ExactTotal c q) ∧
    ∀ (item : CreateItemDto cfg) (order : CreateOrderDto) (c : ℤ), item.price = .value c →
      ExactTotal c (order.quantity.getD 1) := by
  constructor
  · intro c q hc₀ hc hq₁ hq
    exact Admitted.exactTotal ⟨⟨hc₀, hc⟩, hq₁, hq⟩
  · intro item order c hc
    exact (Admitted.of_dto hc order).exactTotal

/-- The price 0.29, multiplied by 100, is less than 29. -/
theorem order_totals_exact_sample :
    round (8162774324609023 / 281474976710656 : ℚ) = 29 ∧
    Money.cents (nearest 53) (5224175567749775 / 18014398509481984) 3 = 29 * 3 := by
  have h : ExactTotal 29 3 :=
    (order_totals_exact sample).1 29 3 (by decide) (by decide) (by decide) (by decide)
  have hp : Within 53 ((29 : ℤ) / 100) (5224175567749775 / 18014398509481984) := by
    norm_num [Within, abs_le]
  have hm : Within 53 (100 * (5224175567749775 / 18014398509481984))
      (8162774324609023 / 281474976710656) := by
    norm_num [Within, abs_le]
  exact ⟨h.rounds _ _ hp hm, h.cents _ _ (nearest_standard 53) hp⟩

/-- The division and the column lose no cent either: the process writes the total of the model. -/
theorem Admitted.toColumn_eq (h : Admitted c q) (hfl : Standard 53 fl) :
    Money.toColumn (Money.multiplyMoney fl (Money.fromColumn fl c) q) = multiplyMoney c q := by
  have hp : Within 53 (c / 100) (Money.fromColumn fl c) := hfl.error _
  have ht : Within 53 ((multiplyMoney c q : ℤ) / 100)
      (Money.multiplyMoney fl (Money.fromColumn fl c) q) := by
    rw [Money.multiplyMoney, h.cents_eq hfl hp]
    exact hfl.error _
  refine round_scaled (k := 100) (by norm_num) ?_ ht ?_
  · obtain ⟨hpos, hlt⟩ := h.product
    rwa [abs_of_nonneg hpos]
  · rw [mul_comm, Within, sub_self, abs_zero]
    positivity

/-- **In every reachable state** the order of an employee gets the total that is computed from the price
    in the column. -/
theorem runs_totals {users : Table String User} {acts : List (AppAction cfg)} {s : AppState cfg}
    (hrun : runs cfg users acts = some s) (hfl : Standard 53 fl) {order : CreateOrderDto}
    {item : Item} (hi : s.db.items.get order.itemId = some item) (buyerId : String) (now : ℕ) :
    Money.toColumn (Money.multiplyMoney fl (Money.fromColumn fl item.price) (order.quantity.getD 1)) =
      (OrdersService.newOrder buyerId order.itemId item (order.quantity.getD 1) now).totalAmount := by
  have h : Admitted item.price (order.quantity.getD 1) :=
    ⟨runs_prices hrun hi, order.quantity_bounds⟩
  exact h.toColumn_eq hfl

end Marketplace
