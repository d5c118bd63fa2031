/-
  The JavaScript string functions and regular expressions the application
  uses, on the characters of a string.
-/
import Mathlib.Data.List.Infix
import Mathlib.Data.List.Basic

namespace Marketplace

/-- What `trim` removes and `\s` matches: the white space and line terminators of ECMAScript. -/
def isSpace (c : Char) : Bool :=
  let n := c.toNat
  (0x09 ≤ n && n ≤ 0x0d) || n == 0x20 || n == 0xa0 || n == 0x1680 || (0x2000 ≤ n && n ≤ 0x200a) ||
    n == 0x2028 || n == 0x2029 || n == 0x202f || n == 0x205f || n == 0x3000 || n == 0xfeff

/-- `s.trim()` -/
def trim (s : String) : String :=
  String.ofList ((s.toList.dropWhile isSpace).reverse.dropWhile isSpace).reverse

/-- `/^[\uFE0F\uFE0E]$/`, a variation selector -/
def isSelector (c : Char) : Bool := c.toNat == 0xfe0e || c.toNat == 0xfe0f

/-- The matches of `/[^\uFE0F\uFE0E][\uFE0F\uFE0E]/g` -/
def presentationSequences : List Char → ℕ
  | c :: c' :: cs =>
    (if !isSelector c && isSelector c' then 1 else 0) + presentationSequences (c' :: cs)
  | _ => 0

/-- The length that `isLength` of the validator counts: a character with a variation selector is one. -/
def validatedLength (s : String) : ℕ := s.length - presentationSequences s.toList

example : validatedLength "\u260e\ufe0f 555" = 5 := by decide

/-- `s.startsWith(p)` -/
def startsWith (s p : String) : Bool := p.toList.isPrefixOf s.toList

/-- `s.includes('..')` -/
def includesDots (s : String) : Bool := decide (['.', '.'] <:+: s.toList)

/-- `s.replace(/\/+$/, '')` -/
def stripSlashes (s : String) : String :=
  String.ofList (s.toList.reverse.dropWhile (· == '/')).reverse

/-- Escapes LIKE/ILIKE wildcards so user input is matched literally. -/
def escapeLike (value : String) : String :=
  String.ofList (value.toList.flatMap fun c => if c = '\\' ∨ c = '%' ∨ c = '_' then ['\\', c] else [c])

/-- `/^[A-Za-z0-9_-]$/` -/
def isIdChar (c : Char) : Bool := c.isAlphanum || c == '_' || c == '-'

/-- `/^[0-9\s()-]$/` -/
def isPhoneChar (c : Char) : Bool := c.isDigit || isSpace c || c == '(' || c == ')' || c == '-'

/-- `/^[A-Za-z0-9_-]{1,n}$/` -/
def isId (n : ℕ) (s : String) : Bool := 1 ≤ s.length && s.length ≤ n && s.toList.all isIdChar

/-- `/^[A-Z0-9_-]{1,50}$/` -/
def isLoginId (s : String) : Bool := isId 50 s && s.toList.all fun c => !c.isLower

/-- `/^\+?[0-9\s()-]{6,25}$/` -/
def isPhone (s : String) : Bool :=
  let cs := match s.toList with
    | '+' :: cs => cs
    | cs => cs
  6 ≤ cs.length && cs.length ≤ 25 && cs.all isPhoneChar

/-- Without variation selectors it is the number of the characters. -/
theorem validatedLength_eq {s : String} (h : ∀ c ∈ s.toList, isSelector c = false) :
    validatedLength s = s.length := by
  have hnone : ∀ l : List Char, (∀ c ∈ l, isSelector c = false) → presentationSequences l = 0 := by
    intro l
    induction l with
    | nil => exact fun _ => rfl
    | cons c l ih =>
      intro h
      cases l with
      | nil => rfl
      | cons c' l =>
        rw [presentationSequences, ih fun x hx => h x (List.mem_cons_of_mem c hx), h c' (by simp)]
        simp
  rw [validatedLength, hnone _ h, Nat.sub_zero]

theorem isSelector_of_isPhoneChar {c : Char} (h : isPhoneChar c = true) : isSelector c = false := by
  by_contra hc
  simp only [isSelector, Bool.not_eq_false, Bool.or_eq_true, beq_iff_eq] at hc
  have hc : c = Char.ofNat 0xfe0e ∨ c = Char.ofNat 0xfe0f :=
    hc.imp (fun h => by rw [← h, Char.ofNat_toNat]) fun h => by rw [← h, Char.ofNat_toNat]
  rcases hc with rfl | rfl <;> revert h <;> decide

/-- Phone numbers have no variation selectors. -/
theorem validatedLength_phone {s : String} (h : isPhone s = true) : validatedLength s = s.length := by
  refine validatedLength_eq fun c hc => ?_
  unfold isPhone at h
  split at h
  · rename_i cs hs
    simp only [Bool.and_eq_true, List.all_eq_true] at h
    rw [hs] at hc
    rcases List.mem_cons.1 hc with rfl | hc
    · rfl
    · exact isSelector_of_isPhoneChar (h.2 c hc)
  · simp only [Bool.and_eq_true, List.all_eq_true] at h
    exact isSelector_of_isPhoneChar (h.2 c hc)

theorem startsWith_iff {s p : String} : startsWith s p = true ↔ p.toList <+: s.toList :=
  List.isPrefixOf_iff_prefix

end Marketplace
