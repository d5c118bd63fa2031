/-
  Deadlock freedom of the requests on items and orders: an item is locked
  before its order, and everything else is locked alone.
-/
import Marketplace.Proof.LifeCycle
import Marketplace.Proof.OrderNotifications
import Marketplace.Lib.Deadlock

namespace Marketplace

open ReadCommitted

variable {cfg : Config}

/-- The index on the items of pending orders. -/
def UQ_orders_item_pending : UniqueIndex market ℤ where
  val
    | .order _, r => if Order.status r = .pending then some r.itemId else none
    | .item _, _ | .user _, _ | .message _, _ | .notification _, _ => none
  holders d i := (d.orders.rows.filter fun x => x.2.status = .pending && x.2.itemId = i).map fun x =>
    .order x.1
  mem_holders {d i k} := by
    cases k with
    | order o =>
      have : (Database.get d (.order o)).bind
          (fun r : Order => if r.status = .pending then some r.itemId else none) = some i ↔
          ∃ r, d.orders.get o = some r ∧ r.status = .pending ∧ r.itemId = i := by
        simp [Option.bind_eq_some_iff, Database.get]
      simp [Table.mem_rows, this]
    | item | user | message | notification => simp

/-- Items come before everything else. -/
def itemFirst : LockOrder market ℤ where
  index := UQ_orders_item_pending
  rank
    | .item _ => 0
    | .order _ | .user _ | .message _ | .notification _ => 1
  rank_eq {k k' r r' v v'} hk hk' := by
    cases k <;> cases k' <;> first | rfl | cases hk | cases hk'

/-! ## The requests -/

section
variable {β : Type}

theorem follows_fail (e : Thrown) : (fail e).Follows itemFirst := trivial

theorem follows_answer (r : Response) : (answer r).Follows itemFirst := trivial

theorem follows_tx {body : Transaction β} {k : Except Thrown β → Program}
    (hb : body.Follows itemFirst []) (hf : ∀ e, ∃ e', k (.error e) = fail e')
    (hk : ∀ x, (k (.ok x)).Follows itemFirst) : Req.Follows itemFirst (.tx body k) := by
  refine ⟨hb, fun x => ?_⟩
  cases x with
  | ok x => exact hk x
  | error e => obtain ⟨e', he⟩ := hf e; rw [he]; exact follows_fail e'

theorem follows_query {g : Database → β} {k : β → Program}
    (hk : ∀ x, (k x).Follows itemFirst) : (query g k).Follows itemFirst :=
  follows_tx (fun _ => trivial) (fun e => ⟨e, rfl⟩) hk

theorem follows_getManyAndCount {α : Type} {dto : PaginationQueryDto} {select : Database → List α}
    {k : PaginatedResult α → Program} (hk : ∀ page, (k page).Follows itemFirst) :
    (dto.getManyAndCount select k).Follows itemFirst := by
  unfold PaginationQueryDto.getManyAndCount
  cases dto.offsetError with
  | some f => exact follows_fail _
  | none => exact follows_query fun _ => follows_query fun _ => hk _

theorem above_nil (k : Key) : itemFirst.Above [] k := nofun

/-- Everything else is locked after an item. -/
theorem above_item {k : Key} (hk : itemFirst.rank k = 1) (i : ℤ) : itemFirst.Above [.item i] k := by
  intro k' hk'
  rw [List.mem_singleton.1 hk', hk]
  exact Nat.zero_lt_one

theorem follows_sendToUser (u : String) (n : ℤ) (r : Notification) {k : Program}
    (hk : k.Follows itemFirst) : (PushService.sendToUser cfg u n r k).Follows itemFirst := by
  unfold PushService.sendToUser
  split_ifs
  · exact hk
  refine ⟨fun _ => trivial, fun x => ?_⟩
  cases x with
  | error => exact hk
  | ok token? =>
    cases token? with
    | none => exact hk
    | some token =>
      dsimp only
      split_ifs
      · exact hk
      intro x
      cases x with
      | done => exact hk
      | rejected code? =>
        cases code? with
        | none => exact hk
        | some code =>
          dsimp only
          split_ifs
          · exact ⟨⟨Or.inr (above_nil _), fun _ _ => Or.inl rfl, trivial, trivial⟩, fun _ => hk⟩
          · exact hk

theorem follows_notify (input : CreateNotificationInput) {k : Program}
    (hk : k.Follows itemFirst) : (NotificationsService.notify cfg input k).Follows itemFirst := by
  refine ⟨fun n => ⟨above_nil _, fun _ => trivial⟩, fun x => ?_⟩
  cases x with
  | error => exact hk
  | ok row =>
    obtain ⟨n, r⟩ := row
    intro x
    cases x with
    | done => exact follows_sendToUser _ _ _ hk
    | rejected => exact hk

theorem follows_notifyOrderStatusChanged (o : OrderDetail) (u : String) {k : Program}
    (hk : k.Follows itemFirst) :
    (NotificationsService.notifyOrderStatusChanged cfg o u k).Follows itemFirst := by
  unfold NotificationsService.notifyOrderStatusChanged
  dsimp only
  split
  · exact follows_notify _ hk
  · exact follows_notify _ hk
  · exact hk

theorem follows_findOneForUser {o : ℤ} {u : String} {k : OrderDetail → Program}
    (hk : ∀ x, (k x).Follows itemFirst) :
    (OrdersService.findOneForUser o u k).Follows itemFirst := by
  refine follows_query fun x => ?_
  cases x with
  | none => exact follows_fail _
  | some o =>
    dsimp only
    split_ifs
    · exact follows_fail _
    · exact hk o

theorem follows_findItem (i : ℤ) : (ItemsService.findOne i).Follows itemFirst := by
  refine follows_query fun x => ?_
  cases x with
  | none => exact follows_fail _
  | some item => exact follows_answer _

/-- The item is locked, then the order is inserted, and the item updated. -/
theorem createTx_follows (u : String) (dto : CreateOrderDto) :
    (OrdersService.createTx u dto).Follows itemFirst [] := by
  refine ⟨Or.inr (above_nil _), trivial, fun item => ?_⟩
  dsimp only
  split_ifs
  · trivial
  · trivial
  · trivial
  · refine fun n => ⟨above_item rfl _, fun r => ⟨Or.inl ?_, fun _ _ => Or.inl rfl, trivial, trivial⟩⟩
    exact List.mem_cons_of_mem _ List.mem_cons_self

theorem resolveTx_follows {o i : ℤ} {x : OrderStatus} {order : Order} {item : Item}
    {held : List Key} (ho : .order o ∈ held) (hi : .item i ∈ held) :
    (OrdersService.resolveTx o i x order item).Follows itemFirst held := by
  have hitem {held : List Key} (hi : .item i ∈ held) (f : Item → Item) :
      Tx.Follows (S := market) itemFirst held
        (.update (.item i) (fun _ => true) f fun _ => .commit ()) :=
    ⟨Or.inl hi, fun _ _ => Or.inl rfl, trivial, trivial⟩
  have hi' : .item i ∈ Key.order o :: held := List.mem_cons_of_mem _ hi
  unfold OrdersService.resolveTx
  split_ifs
  · exact ⟨Or.inl ho, fun _ _ => Or.inl rfl, hitem hi _, hitem hi' _⟩
  · exact ⟨Or.inl ho, fun _ _ => Or.inl rfl, hitem hi _, hitem hi' _⟩
  · exact ⟨Or.inl ho, fun _ _ => Or.inl rfl, trivial, trivial⟩

/-- The item is locked before the order, and both are held when they are updated. -/
theorem updateStatusTx_follows (o : ℤ) (u : String) (x : OrderStatus) :
    (OrdersService.updateStatusTx o u x).Follows itemFirst [] := by
  intro itemId?
  cases itemId? with
  | none => trivial
  | some itemId =>
    refine ⟨Or.inr (above_nil _), ⟨Or.inr (above_nil _), trivial, fun _ => trivial⟩, fun item => ?_⟩
    refine ⟨Or.inr (above_item rfl _), trivial, fun order => ?_⟩
    dsimp only
    split_ifs
    · trivial
    · trivial
    · trivial
    · exact resolveTx_follows List.mem_cons_self (List.mem_cons_of_mem _ List.mem_cons_self)

theorem setStatusTx_follows (i : ℤ) (u : String) (x : ItemStatus) :
    (ItemsService.updateStatusTx i u x).Follows itemFirst [] := by
  refine ⟨Or.inr (above_nil _), trivial, fun item => ?_⟩
  dsimp only
  split_ifs
  · trivial
  · trivial
  · intro b
    dsimp only
    split_ifs
    · trivial
    · exact ⟨Or.inl List.mem_cons_self, fun _ _ => Or.inl rfl, trivial, trivial⟩

theorem follows_createItem (u : String) (dto : CreateItemDto cfg) :
    (ItemsService.create cfg u dto).Follows itemFirst := by
  unfold ItemsService.create
  cases ItemsService.resolvePrice dto.itemType dto.price with
  | error => exact follows_fail _
  | ok price =>
    dsimp only
    cases StorageService.assertManagedUrls cfg (dto.images.getD []).eraseDups with
    | error => exact follows_fail _
    | ok =>
      refine follows_tx ?_ (fun e => ⟨e, rfl⟩) follows_findItem
      exact fun n => ⟨above_nil _, fun _ => trivial⟩

theorem follows_attachPaymentSlip (o : ℤ) (u : String) (dto : AttachPaymentSlipDto cfg) :
    (OrdersService.attachPaymentSlip cfg o u dto).Follows itemFirst := by
  unfold OrdersService.attachPaymentSlip
  cases StorageService.assertManagedUrls cfg [dto.paymentSlipUrl] with
  | error => exact follows_fail _
  | ok =>
    refine follows_query fun x => ?_
    cases x with
    | none => exact follows_fail _
    | some order =>
      dsimp only
      split_ifs
      · exact follows_fail _
      · exact follows_fail _
      · exact follows_fail _
      · refine follows_tx ⟨Or.inr (above_nil _), fun _ _ => Or.inr rfl, trivial, trivial⟩
          (fun e => ⟨e, rfl⟩) fun _ => follows_findOneForUser fun _ =>
            follows_notify _ (follows_answer _)

/-- **The requests on items and orders lock items first.** -/
theorem follows_program {q : Request cfg} (hq : q.trades = true) :
    (program cfg q).Follows itemFirst := by
  cases q with
  | createItem u dto => exact follows_createItem u dto
  | updateItemStatus i u x =>
    exact follows_tx (setStatusTx_follows i u x) (fun e => ⟨e, rfl⟩) fun _ => follows_findItem i
  | findItems dto => exact follows_getManyAndCount fun _ => follows_answer _
  | findItem i => exact follows_findItem i
  | createOrder u dto =>
    refine follows_tx (createTx_follows u dto) (fun e => ?_) fun o =>
      follows_findOneForUser fun _ => follows_notify _ (follows_answer _)
    cases e with
    | app e => exact ⟨_, rfl⟩
    | db e => dsimp only; split_ifs <;> exact ⟨_, rfl⟩
  | updateOrderStatus o u dto =>
    exact follows_tx (updateStatusTx_follows o u dto.status) (fun e => ⟨e, rfl⟩) fun _ =>
      follows_findOneForUser fun o => follows_notifyOrderStatusChanged o u (follows_answer _)
  | attachPaymentSlip o u dto => exact follows_attachPaymentSlip o u dto
  | findMyOrders u dto => exact follows_getManyAndCount fun _ => follows_answer _
  | findOrder o u => exact follows_findOneForUser fun _ => follows_answer _
  | _ => cases hq

end

/-! ## Runs -/

section
variable {users : Table String User} {acts : List (AppAction cfg)} {s : AppState cfg}

theorem runs_follow (hq : ∀ q, .submit q ∈ acts → q.trades = true)
    (hrun : runs cfg users acts = some s) : itemFirst.Ok s := by
  obtain ⟨h, hs⟩ := runs_sim_any hrun
  exact hs.follows hrun fun q h => follows_program (hq q h)

/-- **No deadlock**: however the statements of any number of requests on items and orders are
    interleaved, no cycle of sessions wait for each other, and while there is a session in a
    transaction there is one that waits for nobody, and its next statement is possible. -/
theorem no_deadlock (hq : ∀ q, .submit q ∈ acts → q.trades = true)
    (hrun : runs cfg users acts = some s) :
    (∀ i, ¬ Relation.TransGen (s.WaitsFor UQ_orders_item_pending) i i) ∧
    ∀ i, s.InTransaction i → ∃ j, s.InTransaction j ∧
      (∀ k, ¬ s.WaitsFor UQ_orders_item_pending j k) ∧
      (s.step (program cfg) (.exec j)).isSome = true :=
  ⟨(runs_follow hq hrun).no_cycle, fun _ => (runs_follow hq hrun).progress⟩

end

/-- The seller completes the order while the buyer cancels it: one waits for the other. -/
def sampleWaiting : List (AppAction sample) :=
  sampleOrdered ++ perform 2 4 sampleComplete ++ perform 3 2 sampleCancel

/-- The session that is waited for can go on. -/
theorem no_deadlock_sample : ∃ s, runs sample sampleUsers sampleWaiting = some s ∧
    s.step (program sample) (.exec 3) = none ∧
    (∃ j, s.WaitsFor UQ_orders_item_pending 3 j) ∧
    ∃ j, s.InTransaction j ∧ (s.step (program sample) (.exec j)).isSome = true := by
  obtain ⟨s, hrun, hs⟩ : ∃ s, runs sample sampleUsers sampleWaiting = some s ∧
      (s.sessions[3]?.any (·.2.isActive) && (s.step (program sample) (.exec 3)).isNone) = true :=
    reaches (by decide +kernel)
  simp only [Bool.and_eq_true, Option.isNone_iff_eq_none, Option.any_eq_true] at hs
  have hi : s.InTransaction 3 := hs.1
  obtain ⟨-, hprogress⟩ := no_deadlock (by
    intro q hq
    simp only [sampleWaiting, sampleOrdered, perform, List.mem_append, List.mem_cons,
      List.mem_replicate, reduceCtorEq, and_false, or_false, Action.submit.injEq] at hq
    rcases hq with ((rfl | rfl) | rfl) | rfl <;> rfl) hrun
  obtain ⟨j, hj, -, hgo⟩ := hprogress 3 hi
  exact ⟨s, hrun, hs.2, State.waits_of_blocked hi hs.2, j, hj, hgo⟩

end Marketplace
