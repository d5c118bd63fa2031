/-
  The inbox read page by page: what each page reports, and whether the pages
  make up the inbox.
-/
import Marketplace.Proof.Inbox
import Marketplace.Lib.Paging

namespace Marketplace

open ReadCommitted ChatsService

variable {cfg : Config} {d : Database} {u : String}

/-! ## What the pages are to hold -/

variable (d u) in
/-- Of the conversations whose last message is of the time `τ`, some are among the first `n` of the inbox
    and some are not. -/
def Splits (n τ : ℕ) : Prop :=
  {c | ∃ k m, IsLast d u c k m ∧ τ < m.createdAt}.ncard < n ∧
    n < {c | ∃ k m, IsLast d u c k m ∧ τ ≤ m.createdAt}.ncard

/-! ## What a page reports -/

/-- The times the rows are sorted by. -/
abbrev ConversationSummary.time (s : ConversationSummary) : ℕᵒᵈ := OrderDual.toDual s.lastMessageAt

theorem inbox_sorted (ties : ℤ × String → ℕ) :
    (inbox cfg d u ties).Pairwise fun a b => a.time ≤ b.time := by
  refine (pairwise_orderBy (inboxKey ties) _).imp fun {a b} h => ?_
  rcases Prod.Lex.toLex_le_toLex.1 h with h | h
  · exact h.le
  · exact h.1.le

theorem Splits.lt (cfg : Config) (h : MessagesLinked d) {n τ : ℕ} (hs : Splits d u n τ) :
    0 < n ∧ n < conversationCount d u := by
  have hinbox : IsInbox cfg d u (inbox cfg d u fun _ => 0) := isInbox cfg u h _
  have hsince := hinbox.countP fun t => τ ≤ t
  simp only [decide_eq_true_eq] at hsince
  refine ⟨Nat.zero_lt_of_lt hs.1, hs.2.trans_le ?_⟩
  rw [← hsince, ← hinbox.length]
  exact List.countP_le_length

/-- The buyer asks the seller about an item. -/
def sampleQuestion (itemId : ℤ) (h : 1 ≤ itemId) : Request sample :=
  .sendMessage ⟨"socket", "EMP00102"⟩ { sampleHello with itemId := itemId, itemId_min := h }

/-- Two items are listed, and the buyer asks about both at one time. -/
def sampleInbox : List (AppAction sample) :=
  perform 0 6 (.createItem "EMP00101" sampleUnit) ++ perform 1 6 (.createItem "EMP00101" sampleUnit) ++
    perform 2 9 (sampleQuestion 1 sampleOrder.itemId_min) ++ perform 3 9 (sampleQuestion 2 second_min)

end Marketplace
