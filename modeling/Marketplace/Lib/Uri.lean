/-
  URIs as texts: percent-encoding, and characters that occur twice in a row.
-/
import Mathlib.Data.List.Chain
import Mathlib.Data.List.Infix

namespace Uri

/-! ## `encodeURI` -/

/-- The characters that `encodeURI` leaves unchanged: letters, digits, and what is reserved in a URI or
    a mark. -/
def isUnescaped (c : Char) : Bool :=
  c.isAlphanum || [';', '/', '?', ':', '@', '&', '=', '+', '$', ',', '#', '-', '_', '.', '!', '~', '*',
    '\x27', '(', ')'].contains c

def hexDigit (n : ℕ) : Char := (Nat.digitChar n).toUpper

def escape (byte : UInt8) : List Char :=
  ['%', hexDigit (byte.toNat / 16), hexDigit (byte.toNat % 16)]

/-- The text with the UTF-8 bytes of its other characters escaped. -/
def encode (s : List Char) : List Char :=
  s.flatMap fun c => if isUnescaped c then [c] else (String.utf8EncodeChar c).flatMap escape

theorem encode_of_unescaped {s : List Char} (h : ∀ c ∈ s, isUnescaped c = true) : encode s = s := by
  induction s with
  | nil => rfl
  | cons c s ih =>
    have hc : isUnescaped c = true := h c List.mem_cons_self
    have hs : encode s = s := ih fun x hx => h x (List.mem_cons_of_mem _ hx)
    calc encode (c :: s) = (if isUnescaped c then [c] else _) ++ encode s := List.flatMap_cons
      _ = c :: s := by rw [if_pos hc, hs]; rfl

variable {α : Type} {x : α} {l l' : List α}

theorem mem_intercalate {sep y : α} {segs : List (List α)} (h : y ∈ [sep].intercalate segs) :
    y = sep ∨ ∃ seg ∈ segs, y ∈ seg := by
  induction segs with
  | nil => cases h
  | cons seg segs ih =>
    cases segs with
    | nil => exact Or.inr ⟨seg, List.mem_cons_self, by simpa using h⟩
    | cons seg' segs =>
      rw [List.intercalate_cons_cons, List.mem_append, List.mem_append, List.mem_singleton] at h
      rcases h with (h | h) | h
      · exact Or.inr ⟨seg, List.mem_cons_self, h⟩
      · exact Or.inl h
      · rcases ih h with h | ⟨s, hs, hy⟩
        · exact Or.inl h
        · exact Or.inr ⟨s, List.mem_cons_of_mem _ hs, hy⟩

/-! ## Twice in a row -/

/-- An element occurs twice in a row. -/
def Twice (x : α) (l : List α) : Prop := [x, x] <:+: l

theorem not_twice_iff : ¬ Twice x l ↔ l.IsChain fun a b => ¬ (a = x ∧ b = x) := by
  rw [List.isChain_iff_forall_rel_of_append_cons_cons]
  constructor
  · rintro h a b l₁ l₂ rfl ⟨rfl, rfl⟩
    exact h ⟨l₁, l₂, by simp⟩
  · rintro h ⟨l₁, l₂, rfl⟩
    exact @h x x l₁ l₂ (by simp) ⟨rfl, rfl⟩

theorem not_twice_of_not_mem (h : x ∉ l) : ¬ Twice x l := by
  rintro ⟨l₁, l₂, rfl⟩
  exact h (by simp)

theorem not_twice_append (h : ¬ Twice x l) (h' : ¬ Twice x l') (hb : x ∉ l.getLast? ∨ x ∉ l'.head?) :
    ¬ Twice x (l ++ l') := by
  rw [not_twice_iff] at h h' ⊢
  refine h.append h' ?_
  rintro a ha b hb' ⟨rfl, rfl⟩
  rcases hb with hb | hb
  · exact hb ha
  · exact hb hb'

end Uri
