/-
  The names of the socket.io rooms: different conversations and different
  employees have different rooms.
-/
import Mathlib
import Marketplace.Chats

namespace Marketplace

/-- The characters of employee ids, and of what clients send for them: `/^[A-Za-z0-9_-]*$/`. -/
def IdChars (s : String) : Prop := ∀ c ∈ s.toList, isIdChar c = true

theorem idChars_of_isId {n : ℕ} {s : String} (h : isId n s = true) : IdChars s := by
  simp only [isId, Bool.and_eq_true, List.all_eq_true] at h
  exact h.2

theorem IdChars.not_colon {s : String} (h : IdChars s) : ':' ∉ s.toList := fun hm =>
  absurd (h ':' hm) (by decide)

theorem digits_not_colon (n : ℕ) : ':' ∉ (Nat.repr n).toList := by
  intro h
  rw [Nat.toList_repr] at h
  exact absurd (Nat.isDigit_of_mem_toDigits (by omega) (by omega) h) (by decide)

theorem itemId_not_colon (i : ℤ) : ':' ∉ (toString i).toList := by
  cases i with
  | ofNat n => exact digits_not_colon n
  | negSucc n =>
    rw [show toString (Int.negSucc n) = "-" ++ (n + 1).repr from rfl, String.toList_append,
      List.mem_append]
    rintro (h | h)
    · exact absurd h (by decide)
    · exact digits_not_colon _ h

theorem colon_inj {xs xs' r r' : List Char} (h : ':' ∉ xs) (h' : ':' ∉ xs')
    (he : xs ++ ':' :: r = xs' ++ ':' :: r') : xs = xs' ∧ r = r' := by
  induction xs generalizing xs' with
  | nil =>
    cases xs' with
    | nil => exact ⟨rfl, List.tail_eq_of_cons_eq he⟩
    | cons y ys => cases he; simp at h'
  | cons x xs ih =>
    cases xs' with
    | nil => cases he; simp at h
    | cons y ys =>
      simp only [List.cons_append, List.cons.injEq] at he
      simp only [List.mem_cons, not_or] at h h'
      obtain ⟨rfl, rfl⟩ := ih h.2 h'.2 he.2
      exact ⟨by rw [he.1], rfl⟩

/-- The UTF-16 code units of a character. -/
def units (c : Char) : List ℕ :=
  let n := c.toNat
  if n < 0x10000 then [n] else [0xd800 + (n - 0x10000) / 0x400, 0xdc00 + (n - 0x10000) % 0x400]

/-- The code units of a text determine its first character, as surrogates are not characters. -/
theorem units_append_inj {c c' : Char} {r r' : List ℕ} (h : units c ++ r = units c' ++ r') :
    c = c' ∧ r = r' := by
  have hvalid (c : Char) : c.toNat < 0xd800 ∨ 0xdfff < c.toNat ∧ c.toNat < 0x110000 := c.valid
  have hc := hvalid c
  have hc' := hvalid c'
  suffices hn : c.toNat = c'.toNat ∧ r = r' from ⟨Char.toNat_inj.1 hn.1, hn.2⟩
  unfold units at h
  dsimp only at h
  split_ifs at h <;> simp only [List.cons_append, List.nil_append, List.cons.injEq] at h
  · exact h
  · omega
  · omega
  · exact ⟨by omega, h.2.2⟩

theorem utf16_injective : Function.Injective utf16 := by
  intro a b h
  have h : a.toList.flatMap units = b.toList.flatMap units := h
  refine String.toList_inj.1 ?_
  generalize a.toList = l at h
  generalize b.toList = l' at h
  have hne (c : Char) : units c ≠ [] := by unfold units; dsimp only; split_ifs <;> simp
  induction l generalizing l' with
  | nil =>
    cases l' with
    | nil => rfl
    | cons c' l' => exact absurd (List.append_eq_nil_iff.1 h.symm).1 (hne c')
  | cons c l ih =>
    cases l' with
    | nil => exact absurd (List.append_eq_nil_iff.1 h).1 (hne c)
    | cons c' l' =>
      obtain ⟨rfl, hl⟩ := units_append_inj h
      rw [ih l' hl]

/-- The participants of a conversation in the order of its room's name. -/
def participants (a b : String) : String × String := if utf16 b < utf16 a then (b, a) else (a, b)

theorem participants_eq (a b : String) : participants a b = (a, b) ∨ participants a b = (b, a) := by
  unfold participants
  split_ifs
  · exact Or.inr rfl
  · exact Or.inl rfl

theorem conversationRoom_toList (i : ℤ) (a b : String) : (conversationRoom i a b).toList =
    "chat".toList ++ ':' :: ((toString i).toList ++ ':' ::
      ((participants a b).1.toList ++ ':' :: (participants a b).2.toList)) := by
  simp [conversationRoom, participants]

theorem conversationRoom_comm (i : ℤ) (a b : String) :
    conversationRoom i a b = conversationRoom i b a := by
  have h : participants a b = participants b a := by
    unfold participants
    split_ifs with h₁ h₂ h₂
    · exact absurd h₂ (lt_asymm h₁)
    · rfl
    · rfl
    · have : a = b := utf16_injective (le_antisymm (not_lt.1 h₁) (not_lt.1 h₂))
      rw [this]
  refine String.toList_inj.1 ?_
  rw [conversationRoom_toList, conversationRoom_toList, h]

theorem userRoom_toList (u : String) : (userRoom u).toList = "user".toList ++ ':' :: u.toList := by
  simp [userRoom]

/-- **A conversation room determines the item and the two participants.** -/
theorem conversationRoom_inj {i i' : ℤ} {a b a' b' : String} (ha : IdChars a) (hb : IdChars b)
    (ha' : IdChars a') (hb' : IdChars b') (h : conversationRoom i a b = conversationRoom i' a' b') :
    i = i' ∧ (a = a' ∧ b = b' ∨ a = b' ∧ b = a') := by
  have h := congrArg String.toList h
  rw [conversationRoom_toList, conversationRoom_toList] at h
  have hfst : ∀ {x y : String}, IdChars x → IdChars y → ':' ∉ (participants x y).1.toList := by
    intro x y hx hy
    rcases participants_eq x y with hp | hp <;> rw [hp]
    exacts [hx.not_colon, hy.not_colon]
  obtain ⟨-, h⟩ := colon_inj (by decide) (by decide) h
  obtain ⟨hi, h⟩ := colon_inj (itemId_not_colon i) (itemId_not_colon i') h
  obtain ⟨h₁, h₂⟩ := colon_inj (hfst ha hb) (hfst ha' hb') h
  refine ⟨Int.repr_inj.1 (String.toList_inj.1 hi), ?_⟩
  have hpair : participants a b = participants a' b' :=
    Prod.ext (String.toList_inj.1 h₁) (String.toList_inj.1 h₂)
  rcases participants_eq a b with hp | hp <;> rcases participants_eq a' b' with hp' | hp' <;>
    rw [hp, hp', Prod.mk.injEq] at hpair
  · exact Or.inl hpair
  · exact Or.inr hpair
  · exact Or.inr ⟨hpair.2, hpair.1⟩
  · exact Or.inl ⟨hpair.2, hpair.1⟩

theorem userRoom_inj {u v : String} (h : userRoom u = userRoom v) : u = v := by
  have h := congrArg String.toList h
  rw [userRoom_toList, userRoom_toList] at h
  exact String.toList_inj.1 (colon_inj (by decide) (by decide) h).2

theorem userRoom_ne_conversationRoom (u : String) (i : ℤ) (a b : String) :
    userRoom u ≠ conversationRoom i a b := by
  intro h
  have h := congrArg String.toList h
  rw [userRoom_toList, conversationRoom_toList] at h
  exact absurd (colon_inj (by decide) (by decide) h).1 (by decide)

end Marketplace
