/-
  The lists of items, orders and notifications, read page by page.
-/
import Marketplace.Proof.Responses
import Marketplace.Lib.Paging

namespace Marketplace

open ReadCommitted

variable {cfg : Config} {d : Database} {α : Type}

/-! ## Pages of a list -/

section
variable (cfg : Config) (d : Database)

/-- The pages of a list request on `d` hold `rows`: each one reports the number of the rows, unless it
    begins at row `2 ^ 63` or after it, when the database refuses it; and if the numbers of the rows are
    exact, they are the rows in their order when put together, and those past the end are empty. -/
def Pages (q : PaginationQueryDto → Request cfg) (respond : PaginatedResult α → Response)
    (rows : List α) : Prop :=
  ∀ size (hs : 1 ≤ size ∧ size ≤ MAX_PAGE_SIZE), ∃ data : ℕ → List α,
    (∀ page (hp : 1 ≤ page), PaginationQueryDto.rowsBefore page size < 2 ^ 63 →
      Responds cfg d (q ⟨page, size, hp, hs⟩)
        (.ok (respond ⟨data page, ⟨page, size, rows.length, totalPages rows.length size⟩⟩))) ∧
    (∀ page (hp : 1 ≤ page), 2 ^ 63 ≤ PaginationQueryDto.rowsBefore page size →
      ∃ f, PaginationQueryDto.offsetError ⟨page, size, hp, hs⟩ = some f ∧
        Responds cfg d (q ⟨page, size, hp, hs⟩) (.error (.app (.query f)))) ∧
    (rows.length < 2 ^ 53 →
      (List.range (totalPages rows.length size)).flatMap (fun p => data (p + 1)) = rows ∧
      ∀ page, totalPages rows.length size < page → data page = [])

/-- The request is a list that is selected and counted. -/
def Lists (select : Database → List α) (q : PaginationQueryDto → Request cfg)
    (respond : PaginatedResult α → Response) : Prop :=
  ∀ dto, program cfg (q dto) = dto.getManyAndCount select fun p => answer (respond p)

end

section
variable {select : Database → List α} {q : PaginationQueryDto → Request cfg}
  {respond : PaginatedResult α → Response}

theorem Lists.responds (hq : Lists cfg select q respond) (dto : PaginationQueryDto)
    (ho : dto.offset < 2 ^ 63) :
    Responds cfg d (q dto) (.ok (respond ⟨dto.rows (select d), ⟨dto.page, dto.size,
      (select d).length, totalPages (select d).length dto.size⟩⟩)) := by
  intro answers now seq
  rw [hq, PaginationQueryDto.getManyAndCount, PaginationQueryDto.offsetError_eq_none.2 ho,
    unlessRefused_none, eval_query, eval_query]
  rfl

theorem Lists.refused (hq : Lists cfg select q respond) (dto : PaginationQueryDto)
    (ho : 2 ^ 63 ≤ dto.offset) :
    ∃ f, dto.offsetError = some f ∧ Responds cfg d (q dto) (.error (.app (.query f))) := by
  obtain ⟨f, hf⟩ := Option.ne_none_iff_exists'.1
    (mt PaginationQueryDto.offsetError_eq_none.1 (not_lt.2 ho))
  refine ⟨f, hf, fun answers now seq => ?_⟩
  rw [hq, PaginationQueryDto.getManyAndCount, hf]
  rfl

/-- A list that is selected and counted is read page by page. -/
theorem Lists.pages (hq : Lists cfg select q respond) : Pages cfg d q respond (select d) := by
  intro size hs
  refine ⟨fun page => ((select d).drop (PaginationQueryDto.rowsBefore page size)).take size,
    fun page hp ho => hq.responds ⟨page, size, hp, hs⟩ ho,
    fun page hp ho => hq.refused ⟨page, size, hp, hs⟩ ho, fun hlen => ⟨?_, fun page hpage => ?_⟩⟩
  · have hdata : ∀ p ∈ List.range (totalPages (select d).length size),
        ((select d).drop (PaginationQueryDto.rowsBefore (p + 1) size)).take size =
          Paging.page size p (select d) := by
      intro p hp
      have hp := mt (Paging.pages_le_iff hs.1).2 (not_le.2 (List.mem_range.1 hp))
      rw [PaginationQueryDto.rowsBefore_eq hs.1 ((not_le.1 hp).trans hlen)]
      rfl
    rw [List.flatMap_congr hdata]
    exact Paging.flatMap_page hs.1 (select d)
  · have hend := (Paging.pages_le_iff hs.1).1 (Nat.le_sub_one_of_lt hpage)
    dsimp only
    rw [List.drop_eq_nil_of_le (PaginationQueryDto.le_rowsBefore hs.1 hlen hend), List.take_nil]

theorem lists_orders (userId : String) (dto : ListOrdersQueryDto) :
    Lists cfg (fun d => OrdersService.mine d userId dto)
      (fun p => .findMyOrders userId { dto with toPaginationQueryDto := p }) .orders := fun _ => rfl

end

/-! ## The order of a list -/

/-- An item matches the filters of a list; SOLD items only do if their status is asked for. -/
structure Listed (cfg : Config) (dto : ListItemsQueryDto) (item : Item) : Prop where
  q : ∀ q, dto.q = some q → q ≠ "" → ItemsService.contains cfg q item.title = true ∨
    ∃ text, item.description = some text ∧ ItemsService.contains cfg q text = true
  itemType : ∀ t, dto.itemType = some t → item.itemType = t
  status : ∀ status, dto.status = some status → item.status = status
  notSold : dto.status = none → item.status ≠ .sold
  sellerId : ∀ u, dto.sellerId = some u → item.sellerId = u

end Marketplace
