/-
  Binary floating point over the rationals.

  `Standard p fl` is the usual model of arithmetic with `p` bits: `fl` gives the
  result of an operation for its exact value, within relative error `2 ^ -p`,
  and integers of at most `p` bits are exact.  `nearest p`, which rounds to the
  nearest number of `p` bits, is such an arithmetic (`nearest_standard`); its
  exponents are not bounded.
-/
import Mathlib.Algebra.Order.Round
import Mathlib.Data.Int.Log
import Mathlib.Data.Rat.Floor
import Mathlib.Tactic.FieldSimp
import Mathlib.Tactic.Linarith
import Mathlib.Tactic.Positivity
import Mathlib.Tactic.Ring

namespace Rounding

variable {p : ℕ} {x y z k : ℚ}

/-- `y` is `x` within relative error `2 ^ -p`. -/
def Within (p : ℕ) (x y : ℚ) : Prop := |y - x| ≤ |x| / 2 ^ p

/-- The standard model of floating point arithmetic with `p` bits. -/
structure Standard (p : ℕ) (fl : ℚ → ℚ) : Prop where
  error : ∀ x, Within p x (fl x)
  exact : ∀ n : ℤ, |n| < 2 ^ p → fl n = n

/-! ## Scaled integers -/

/-- A number within relative error of a multiple of one within relative error. -/
theorem Within.mul (h : Within p x y) (h' : Within p (k * y) z) :
    |z - k * x| ≤ 3 * |k * x| / 2 ^ p := by
  have hp : (1 : ℚ) ≤ 2 ^ p := one_le_pow₀ (by norm_num)
  have hy : |k * y - k * x| ≤ |k * x| / 2 ^ p := by
    rw [← mul_sub, abs_mul, abs_mul, mul_div_assoc]
    exact mul_le_mul_of_nonneg_left h (abs_nonneg k)
  have hsize : |k * y| ≤ 2 * |k * x| := by
    have hle : |k * x| / 2 ^ p ≤ |k * x| := div_le_self (abs_nonneg _) hp
    have htri := abs_add_le (k * y - k * x) (k * x)
    rw [sub_add_cancel] at htri
    linarith
  have hz : |z - k * y| ≤ 2 * |k * x| / 2 ^ p :=
    h'.trans (div_le_div_of_nonneg_right hsize (by positivity))
  calc |z - k * x| ≤ |z - k * y| + |k * y - k * x| := abs_sub_le ..
    _ ≤ 2 * |k * x| / 2 ^ p + |k * x| / 2 ^ p := add_le_add hz hy
    _ = 3 * |k * x| / 2 ^ p := by ring

theorem round_eq_of_abs_lt {n : ℤ} (h : |x - n| < 1 / 2) : round x = n := by
  obtain ⟨hlo, hhi⟩ := abs_lt.1 h
  refine round_eq_iff.2 ⟨?_, ?_⟩
  · linarith
  · linarith

/-- **A scaled integer is recovered** by multiplying with the scale and rounding, as long as it has three
    bits less than the arithmetic. -/
theorem round_scaled {n : ℤ} (hk : k ≠ 0) (hn : 6 * |n| < 2 ^ p) (h : Within p (n / k) x)
    (h' : Within p (k * x) y) : round y = n := by
  have hkn : k * (n / k) = n := mul_div_cancel₀ (n : ℚ) hk
  have herr := h.mul h'
  rw [hkn] at herr
  have hn : 6 * |(n : ℚ)| < 2 ^ p := by exact_mod_cast hn
  have hpos : (0 : ℚ) < 2 ^ p := by positivity
  refine round_eq_of_abs_lt (lt_of_le_of_lt herr ?_)
  rw [div_lt_iff₀ hpos]
  linarith

/-! ## Rounding to nearest -/

/-- The nearest integer, the even one of two. -/
def roundEven (x : ℚ) : ℤ :=
  if x - ⌊x⌋ < 1 / 2 ∨ x - ⌊x⌋ = 1 / 2 ∧ ⌊x⌋ % 2 = 0 then ⌊x⌋ else ⌊x⌋ + 1

theorem abs_roundEven_sub (x : ℚ) : |roundEven x - x| ≤ 1 / 2 := by
  have hlo := Int.floor_le x
  have hhi := Int.lt_floor_add_one x
  unfold roundEven
  split_ifs with h
  · have hhalf : x - ⌊x⌋ ≤ 1 / 2 := by
      rcases h with h | ⟨h, -⟩
      · exact h.le
      · exact h.le
    rw [abs_le]
    constructor <;> linarith
  · have hhalf : 1 / 2 ≤ x - ⌊x⌋ := not_lt.1 fun hlt => h (Or.inl hlt)
    push_cast
    rw [abs_le]
    constructor <;> linarith

theorem roundEven_intCast (n : ℤ) : roundEven n = n := by
  simp [roundEven]

/-- The distance of the numbers of `p` bits around a number. -/
def ulp (p : ℕ) (x : ℚ) : ℚ := 2 ^ (Int.log 2 |x| + 1 - p)

/-- The nearest number of `p` bits. -/
def nearest (p : ℕ) (x : ℚ) : ℚ := roundEven (x / ulp p x) * ulp p x

theorem ulp_pos (p : ℕ) (x : ℚ) : 0 < ulp p x := zpow_pos (by norm_num) _

theorem abs_nearest_sub (p : ℕ) (x : ℚ) : |nearest p x - x| ≤ ulp p x / 2 := by
  have hpos := ulp_pos p x
  have hx : nearest p x - x = (roundEven (x / ulp p x) - x / ulp p x) * ulp p x := by
    rw [nearest, sub_mul, div_mul_cancel₀ x hpos.ne']
  rw [hx, abs_mul, abs_of_pos hpos]
  have herr := mul_le_mul_of_nonneg_right (abs_roundEven_sub (x / ulp p x)) hpos.le
  linarith

theorem ulp_half_le (hx : x ≠ 0) : ulp p x / 2 ≤ |x| / 2 ^ p := by
  have hlog : (2 : ℚ) ^ Int.log 2 |x| ≤ |x| := by
    exact_mod_cast Int.zpow_log_le_self (b := 2) (by norm_num) (abs_pos.2 hx)
  have hulp : ulp p x / 2 = 2 ^ Int.log 2 |x| / 2 ^ p := by
    rw [ulp, zpow_sub₀ (by norm_num), zpow_add₀ (by norm_num), zpow_one, zpow_natCast]
    ring
  rw [hulp]
  exact div_le_div_of_nonneg_right hlog (by positivity)

theorem intCast_div_ulp {n : ℤ} (h : |n| < 2 ^ p) : ∃ m : ℤ, (n : ℚ) / ulp p n = m := by
  by_cases hn : n = 0
  · exact ⟨0, by simp [hn]⟩
  have hlt : |(n : ℚ)| < (2 : ℚ) ^ (p : ℤ) := by
    rw [zpow_natCast]
    exact_mod_cast h
  have hlog : Int.log 2 |(n : ℚ)| < p := by
    refine (Int.lt_zpow_iff_log_lt (by norm_num) (abs_pos.2 (Int.cast_ne_zero.2 hn))).1 ?_
    exact_mod_cast hlt
  obtain ⟨e, he⟩ := Int.eq_ofNat_of_zero_le (show 0 ≤ p - (Int.log 2 |(n : ℚ)| + 1) by omega)
  refine ⟨n * 2 ^ e, ?_⟩
  have hulp : ulp p n = (2 ^ e)⁻¹ := by
    rw [ulp, ← zpow_natCast, ← zpow_neg]
    congr 1
    omega
  rw [hulp, div_inv_eq_mul]
  push_cast
  rfl

/-- **Rounding to nearest is a standard arithmetic.** -/
theorem nearest_standard (p : ℕ) : Standard p (nearest p) where
  error x := by
    by_cases hx : x = 0
    · subst hx
      simp [Within, nearest, roundEven]
    · exact (abs_nearest_sub p x).trans (ulp_half_le hx)
  exact n hn := by
    obtain ⟨m, hm⟩ := intCast_div_ulp hn
    rw [nearest, hm, roundEven_intCast, ← hm, div_mul_cancel₀ _ (ulp_pos p _).ne']

/-! ## Natural numbers -/

section
variable {p m n u b : ℕ}

/-- The nearest multiple of `u`, the even one of two, as a number of units. -/
def units (u n : ℕ) : ℕ :=
  if 2 * (n % u) < u ∨ 2 * (n % u) = u ∧ n / u % 2 = 0 then n / u else n / u + 1

/-- The nearest natural number of `p` bits. -/
def nearestNat (p n : ℕ) : ℕ := units (2 ^ (n.log2 + 1 - p)) n * 2 ^ (n.log2 + 1 - p)

theorem div_le_units (u n : ℕ) : n / u ≤ units u n := by
  unfold units
  split_ifs
  · exact le_rfl
  · exact Nat.le_succ _

theorem units_le (u n : ℕ) : units u n ≤ n / u + 1 := by
  unfold units
  split_ifs
  · exact Nat.le_succ _
  · exact le_rfl

theorem units_mono (u : ℕ) (h : m ≤ n) : units u m ≤ units u n := by
  rcases (Nat.div_le_div_right (c := u) h).lt_or_eq with hlt | heq
  · exact (units_le u m).trans ((Nat.succ_le_of_lt hlt).trans (div_le_units u n))
  · -- between the same multiples, a number is rounded up if a smaller one is
    have hm := Nat.div_add_mod m u
    have hn := Nat.div_add_mod n u
    rw [heq] at hm
    unfold units
    rw [heq]
    split_ifs <;> omega

/-- Multiples of the unit are bounds for the rounded numbers as well, -/
theorem le_units_mul (hu : u ∣ b) (h : b ≤ n) : b ≤ units u n * u := by
  calc b = b / u * u := (Nat.div_mul_cancel hu).symm
    _ ≤ units u n * u :=
      Nat.mul_le_mul_right u ((Nat.div_le_div_right h).trans (div_le_units u n))

/-- from below and from above. -/
theorem units_mul_le (hu : u ∣ b) (h : n < b) : units u n * u ≤ b := by
  have hdiv : n / u + 1 ≤ b / u := Nat.succ_le_of_lt (Nat.div_lt_div_of_lt_of_dvd hu h)
  calc units u n * u ≤ b / u * u := Nat.mul_le_mul_right u ((units_le u n).trans hdiv)
    _ = b := Nat.div_mul_cancel hu

/-- **Rounding keeps the order.** -/
theorem nearestNat_mono (hp : 0 < p) : Monotone (nearestNat p) := by
  intro m n h
  unfold nearestNat
  rcases Nat.eq_zero_or_pos m with rfl | hm
  · simp [units]
  have hlog : m.log2 ≤ n.log2 := by
    rw [Nat.log2_eq_log_two, Nat.log2_eq_log_two]
    exact Nat.log_mono_right h
  rcases hlog.lt_or_eq with hlt | heq
  · -- a power of two is in between
    calc units (2 ^ (m.log2 + 1 - p)) m * 2 ^ (m.log2 + 1 - p) ≤ 2 ^ (m.log2 + 1) :=
          units_mul_le (Nat.pow_dvd_pow 2 (Nat.sub_le ..)) Nat.lt_log2_self
      _ ≤ 2 ^ n.log2 := Nat.pow_le_pow_right (by decide) hlt
      _ ≤ units (2 ^ (n.log2 + 1 - p)) n * 2 ^ (n.log2 + 1 - p) :=
          le_units_mul (Nat.pow_dvd_pow 2 (by omega)) (Nat.log2_self_le (by omega))
  · rw [heq]
    exact Nat.mul_le_mul_right _ (units_mono _ h)

theorem nearestNat_of_dvd (h : 2 ^ (n.log2 + 1 - p) ∣ n) : nearestNat p n = n := by
  have hu : 0 < 2 ^ (n.log2 + 1 - p) := Nat.pow_pos (by decide)
  have hunits : units (2 ^ (n.log2 + 1 - p)) n = n / 2 ^ (n.log2 + 1 - p) := by
    unfold units
    rw [Nat.mod_eq_zero_of_dvd h, if_pos (.inl hu)]
  rw [nearestNat, hunits, Nat.div_mul_cancel h]

/-- A number of at most `p` bits is exact. -/
theorem nearestNat_eq (h : n < 2 ^ p) : nearestNat p n = n := by
  rcases Nat.eq_zero_or_pos n with rfl | hn
  · simp [nearestNat, units]
  have hlog : n.log2 + 1 - p = 0 := Nat.sub_eq_zero_of_le ((Nat.log2_lt hn.ne').2 h)
  exact nearestNat_of_dvd (by rw [hlog, pow_zero]; exact one_dvd n)

theorem nearestNat_two_pow (hp : 0 < p) (k : ℕ) : nearestNat p (2 ^ k) = 2 ^ k := by
  refine nearestNat_of_dvd (Nat.pow_dvd_pow 2 ?_)
  rw [Nat.log2_two_pow]
  omega

theorem nearestNat_nearestNat (hp : 0 < p) (n : ℕ) :
    nearestNat p (nearestNat p n) = nearestNat p n := by
  rcases Nat.eq_zero_or_pos n with rfl | hn
  · simp [nearestNat, units]
  have hlow : 2 ^ n.log2 ≤ nearestNat p n := by
    simpa only [nearestNat_two_pow hp] using nearestNat_mono hp (Nat.log2_self_le hn.ne')
  have hhigh : nearestNat p n ≤ 2 ^ (n.log2 + 1) := by
    simpa only [nearestNat_two_pow hp] using nearestNat_mono hp Nat.lt_log2_self.le
  rcases hhigh.lt_or_eq with hlt | heq
  · -- as many bits as `n`, hence the same unit
    have hlog : (nearestNat p n).log2 = n.log2 :=
      (Nat.log2_eq_iff (by omega)).2 ⟨hlow, hlt⟩
    refine nearestNat_of_dvd ?_
    rw [hlog]
    exact Dvd.intro_left _ rfl
  · rw [heq]
    exact nearestNat_two_pow hp _

/-! ## Decimal digits -/

/-- The multiple of `u` nearest to `n` that is rounded to `n`, if there is one. -/
def multiple? (p u n : ℕ) : Option ℕ :=
  [units u n * u, n / u * u, (n / u + 1) * u].find? fun m => nearestNat p m == n

/-- The number rounded to `n` that ends in the most zeros, up to `k` of them. -/
def shortestTo (p n : ℕ) : ℕ → ℕ
  | 0 => n
  | k + 1 => (multiple? p (10 ^ (k + 1)) n).getD (shortestTo p n k)

/-- What the decimal digits of a number of `p` bits spell, as few of them as tell it from the other
    ones, and zeros after them. -/
def shortest (p n : ℕ) : ℕ := shortestTo p n n.log2

theorem nearestNat_shortestTo (h : nearestNat p n = n) (k : ℕ) :
    nearestNat p (shortestTo p n k) = n := by
  induction k with
  | zero => exact h
  | succ k ih =>
    unfold shortestTo
    cases hm : multiple? p (10 ^ (k + 1)) n with
    | none => exact ih
    | some m => simpa using List.find?_some hm

/-- **The digits are read as the number.** -/
theorem nearestNat_shortest (hp : 0 < p) (n : ℕ) :
    nearestNat p (shortest p (nearestNat p n)) = nearestNat p n :=
  nearestNat_shortestTo (nearestNat_nearestNat hp n) _

theorem shortest_mono (hp : 0 < p) : Monotone fun n => shortest p (nearestNat p n) := by
  intro m n h
  rcases (nearestNat_mono hp h).lt_or_eq with hlt | heq
  · -- digits in the other order would be read in the other order
    by_contra hnot
    have hread := nearestNat_mono hp (not_le.1 hnot).le
    rw [nearestNat_shortest hp, nearestNat_shortest hp] at hread
    exact hlt.not_ge hread
  · simp only [heq, le_refl]

/-- Numbers of at most `p` bits are spelled in full. -/
theorem shortest_eq (hp : 0 < p) (h : n < 2 ^ p) : shortest p n = n := by
  have hread := nearestNat_shortest hp n
  rw [nearestNat_eq h] at hread
  rcases Nat.lt_or_ge (shortest p n) (2 ^ p) with hlt | hge
  · rwa [nearestNat_eq hlt] at hread
  · have hpow := nearestNat_mono hp hge
    rw [nearestNat_two_pow hp, hread] at hpow
    exact absurd h hpow.not_gt

end

end Rounding
