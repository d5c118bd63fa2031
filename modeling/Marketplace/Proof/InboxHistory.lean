/-
  The rows of the inbox opened: the history of a row's conversation ends with
  the row's message.
-/
import Marketplace.Proof.Conversations
import Marketplace.Proof.Inbox
import Marketplace.Proof.PeerTokens

namespace Marketplace

open ReadCommitted ChatsService PeerTokenService

variable {cfg : Config} {cipher : PeerCipher} {d : Database} {u : String}

/-! ## Requests that open a row -/

section
variable {dto : ChatHistoryQueryDto} {p : Option String} {item : Item} {peer : String}
  (hp : peerOf cfg dto.toConversationDto = .ok p) (hi : d.items.get dto.itemId = some item)

include hp hi

end

theorem InConversation.unique {c c' : ℤ × String} {m : Message} (h : InConversation u c m)
    (h' : InConversation u c' m) : c = c' := by
  rw [← (inConversation_iff (n := 0).1 h).2, (inConversation_iff (n := 0).1 h').2]

theorem InConversation.item {c : ℤ × String} {m : Message} (h : InConversation u c m)
    (hm : WithSeller d m) : ∃ item, d.items.get c.1 = some item ∧ u ≠ c.2 ∧
      Xor (u = item.sellerId) (c.2 = item.sellerId) := by
  obtain ⟨item, hi, hne, hx⟩ := hm
  obtain ⟨hitem, ⟨rfl, hr⟩ | ⟨hs, rfl⟩⟩ := h
  · exact ⟨item, hitem ▸ hi, hr ▸ hne, hr ▸ hx⟩
  · exact ⟨item, hitem ▸ hi, hs ▸ hne.symm, hs ▸ hx.symm⟩

section
variable {r : ConversationSummary} (hr : IsSummary (cfg.withPeerTokens cipher) d u r)
  (hid : isId 50 r.peerId = true) (hseller : ∀ n m, d.messages.get n = some m → WithSeller d m)

include hr hid hseller

end

end Marketplace
