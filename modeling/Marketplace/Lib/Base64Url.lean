/-
  Base64 with the URL-safe alphabet and without padding.

  The decoder is lenient: it takes both alphabets, skips every other character
  and drops the bits that are left over.  A string is the canonical spelling of
  what it decodes to when encoding gives it back.
-/
import Mathlib.Data.List.Basic

namespace Base64Url

/-- The six bits `n` as a character. -/
def digit (n : ℕ) : Char :=
  if n < 26 then Char.ofNat (n + 65)
  else if n < 52 then Char.ofNat (n + 71)
  else if n < 62 then Char.ofNat (n - 4)
  else if n = 62 then '-'
  else '_'

/-- The six bits of a character of either alphabet. -/
def ofDigit (c : Char) : Option ℕ :=
  if c.isUpper then some (c.toNat - 65)
  else if c.isLower then some (c.toNat - 71)
  else if c.isDigit then some (c.toNat + 4)
  else if c = '-' ∨ c = '+' then some 62
  else if c = '_' ∨ c = '/' then some 63
  else none

/-- The bits of bytes, in groups of six. -/
def sextets : List UInt8 → List ℕ
  | a :: b :: c :: l =>
    a.toNat / 4 :: (a.toNat % 4 * 16 + b.toNat / 16) :: (b.toNat % 16 * 4 + c.toNat / 64) ::
      c.toNat % 64 :: sextets l
  | [a, b] => [a.toNat / 4, a.toNat % 4 * 16 + b.toNat / 16, b.toNat % 16 * 4]
  | [a] => [a.toNat / 4, a.toNat % 4 * 16]
  | [] => []

/-- The bytes of bits in groups of six. -/
def octets : List ℕ → List UInt8
  | w :: x :: y :: z :: l =>
    UInt8.ofNat (w * 4 + x / 16) :: UInt8.ofNat (x % 16 * 16 + y / 4) :: UInt8.ofNat (y % 4 * 64 + z) ::
      octets l
  | [w, x, y] => [UInt8.ofNat (w * 4 + x / 16), UInt8.ofNat (x % 16 * 16 + y / 4)]
  | [w, x] => [UInt8.ofNat (w * 4 + x / 16)]
  | [_] | [] => []

def encode (bytes : List UInt8) : String := String.ofList ((sextets bytes).map digit)

def decode (s : String) : List UInt8 := octets (s.toList.filterMap ofDigit)

theorem ofDigit_digit : ∀ n < 64, ofDigit (digit n) = some n := by decide

theorem sextets_lt (bytes : List UInt8) : ∀ n ∈ sextets bytes, n < 64 := by
  fun_induction sextets bytes with
  | case1 a b c l ih =>
    have ha := a.toNat_lt
    have hb := b.toNat_lt
    have hc := c.toNat_lt
    intro n hn
    simp only [List.mem_cons] at hn
    rcases hn with rfl | rfl | rfl | rfl | hn
    · omega
    · omega
    · omega
    · omega
    · exact ih n hn
  | case2 a b =>
    have ha := a.toNat_lt
    have hb := b.toNat_lt
    intro n hn
    simp only [List.mem_cons, List.not_mem_nil, or_false] at hn
    omega
  | case3 a =>
    have ha := a.toNat_lt
    intro n hn
    simp only [List.mem_cons, List.not_mem_nil, or_false] at hn
    omega
  | case4 => simp

theorem octets_sextets (bytes : List UInt8) : octets (sextets bytes) = bytes := by
  have hbyte : ∀ (a : UInt8) (n : ℕ), n = a.toNat → UInt8.ofNat n = a := by
    rintro a _ rfl
    exact UInt8.ofNat_toNat
  fun_induction sextets bytes with
  | case1 a b c l ih =>
    have ha := a.toNat_lt
    have hb := b.toNat_lt
    have hc := c.toNat_lt
    rw [octets, ih, hbyte a _ (by omega), hbyte b _ (by omega), hbyte c _ (by omega)]
  | case2 a b =>
    have ha := a.toNat_lt
    have hb := b.toNat_lt
    rw [octets, hbyte a _ (by omega), hbyte b _ (by omega)]
  | case3 a =>
    rw [octets, hbyte a _ (by omega)]
  | case4 => rfl

/-- **What is encoded decodes to itself.** -/
theorem decode_encode (bytes : List UInt8) : decode (encode bytes) = bytes := by
  have hdigits : ∀ l : List ℕ, (∀ n ∈ l, n < 64) → (l.map digit).filterMap ofDigit = l := by
    intro l hl
    induction l with
    | nil => rfl
    | cons n l ih =>
      rw [List.map_cons, List.filterMap_cons, ofDigit_digit n (hl n (by simp)),
        ih fun m hm => hl m (by simp [hm])]
  rw [decode, encode, String.toList_ofList, hdigits _ (sextets_lt bytes), octets_sextets]

theorem length_sextets (bytes : List UInt8) : (sextets bytes).length = (bytes.length * 4 + 2) / 3 := by
  fun_induction sextets bytes with
  | case1 a b c l ih =>
    simp only [List.length_cons, ih]
    omega
  | case2 | case3 | case4 => simp only [List.length_cons, List.length_nil]

theorem length_encode (bytes : List UInt8) : (encode bytes).length = (bytes.length * 4 + 2) / 3 := by
  rw [encode, String.length_ofList, List.length_map, length_sextets]

/-- An encoding consists of letters, digits, `-` and `_`. -/
theorem of_mem_encode {bytes : List UInt8} {c : Char} (h : c ∈ (encode bytes).toList) :
    ∃ n < 64, c = digit n := by
  rw [encode, String.toList_ofList, List.mem_map] at h
  obtain ⟨n, hn, rfl⟩ := h
  exact ⟨n, sextets_lt bytes n hn, rfl⟩

end Base64Url
