/-
  The search of the listings: the text of a request is looked for literally.
-/
import Marketplace.Proof.Lists

namespace Marketplace

variable (cfg : Config) {dto : ListItemsQueryDto} {item : Item}

/-- A text occurs in another one, whatever the case of its characters. -/
def Occurs (q text : String) : Prop :=
  q.toList.map cfg.caseFold <:+: text.toList.map cfg.caseFold

/-- The escaped text spells the text. -/
theorem escapeLike_spells (q : String) : Spells (escapeLike q).toList q.toList := by
  rw [escapeLike, String.toList_ofList]
  induction q.toList with
  | nil => exact .nil
  | cons c l ih =>
    rw [List.flatMap_cons]
    by_cases hc : c = '\\' ∨ c = '%' ∨ c = '_'
    · rw [if_pos hc]
      exact .escaped ih
    · rw [if_neg hc]
      refine .plain ?_ ih
      simpa [isMeta, and_assoc] using hc

theorem pattern_toList (q : String) :
    ("%" ++ escapeLike q ++ "%").toList = '%' :: ((escapeLike q).toList ++ ['%']) := by
  simp

theorem contains_iff {q text : String} :
    ItemsService.contains cfg q text = true ↔ Occurs cfg q text := by
  rw [ItemsService.contains, pattern_toList]
  exact (escapeLike_spells q).like_contains

/-- **Search is literal.**  A text is found if and only if what is searched for occurs in it, whatever
    metacharacters it is made of; and the pattern never ends in a dangling escape. -/
theorem search_literal (q text : String) :
    (like cfg.caseFold ("%" ++ escapeLike q ++ "%").toList text.toList = true ↔
      q.toList.map cfg.caseFold <:+: text.toList.map cfg.caseFold) ∧
    dangling ("%" ++ escapeLike q ++ "%").toList = false := by
  refine ⟨contains_iff cfg, ?_⟩
  rw [pattern_toList, dangling_cons (by decide)]
  exact (escapeLike_spells q).dangling_append

theorem noSearch_ok : ∀ s ∈ (none : Option String), trim s = s ∧ validatedLength s ≤ 100 := by
  simp

/-- The request without its search text. -/
def unsearched (dto : ListItemsQueryDto) : ListItemsQueryDto :=
  { dto with q := none, q_ok := noSearch_ok }

/-- A search narrows a list down to the items whose title or description the text occurs in. -/
theorem listed_search : Listed cfg dto item ↔ Listed cfg (unsearched dto) item ∧
    ∀ q, dto.q = some q → q ≠ "" →
      Occurs cfg q item.title ∨ ∃ text, item.description = some text ∧ Occurs cfg q text := by
  simp only [← contains_iff]
  constructor
  · intro h
    exact ⟨⟨by simp [unsearched], h.itemType, h.status, h.notSold, h.sellerId⟩, h.q⟩
  · rintro ⟨h, hq⟩
    exact ⟨hq, h.itemType, h.status, h.notSold, h.sellerId⟩

example :
    like Char.toLower ("%" ++ escapeLike "50%_\\" ++ "%").toList "Save 50%_\\ now".toList = true := by
  decide

end Marketplace
