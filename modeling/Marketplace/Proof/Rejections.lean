/-
  What a rejected order request leaves behind, whichever statement of it fails.
-/
import Marketplace.Lib.Failing
import Marketplace.Proof.Agreement

namespace Marketplace

open ReadCommitted OrdersService

variable {cfg : Config} {d : Database} {seq : Serial → ℕ} {now c : ℕ}
  {fails : ℕ → Option QueryFailedError} {answers : Call → Answer}

/-! ## After the commit -/

/-- Whatever happens, the program ends with the reply `r`. -/
inductive AlwaysReplies (r : Except Thrown Response) : Program → Prop
  | done : AlwaysReplies r (.done r)
  | tx {β : Type} {body : Transaction β} {k} : (∀ x, AlwaysReplies r (k x)) →
    AlwaysReplies r (.tx body k)
  | call {x k} : (∀ a, AlwaysReplies r (k a)) → AlwaysReplies r (.call x k)

theorem AlwaysReplies.failing {r : Except Thrown Response} {p : Program} (h : AlwaysReplies r p)
    (c : ℕ) (d : Database) (seq : Serial → ℕ) :
    (Req.failing (S := market) fails answers now c d seq p).2.2 = r := by
  induction h generalizing c d seq with
  | done => rfl
  | tx _ ih =>
    simp only [Req.failing]
    split <;> exact ih _ _ _ _
  | call _ ih => exact ih _ _ _ _

section
variable {r : Except Thrown Response} {k : Program} (hk : AlwaysReplies r k)
include hk

theorem sendToUser_alwaysReplies (userId : String) (notificationId : ℤ) (n : Notification) :
    AlwaysReplies r (PushService.sendToUser cfg userId notificationId n k) := by
  unfold PushService.sendToUser
  split_ifs
  · exact hk
  · refine .tx fun x => ?_
    split
    · split_ifs
      · exact hk
      · refine .call fun a => ?_
        split
        · split_ifs
          · exact .tx fun _ => hk
          · exact hk
        · exact hk
    · exact hk

/-- A failed notification never fails the request. -/
theorem notify_alwaysReplies (input : CreateNotificationInput) :
    AlwaysReplies r (NotificationsService.notify cfg input k) := by
  unfold NotificationsService.notify
  refine .tx fun x => ?_
  split
  · refine .call fun a => ?_
    split
    · exact sendToUser_alwaysReplies hk _ _ _
    · exact hk
  · exact hk

theorem notifyOrderStatusChanged_alwaysReplies (o : OrderDetail) (changedBy : String) :
    AlwaysReplies r (NotificationsService.notifyOrderStatusChanged cfg o changedBy k) := by
  unfold NotificationsService.notifyOrderStatusChanged
  split
  · exact notify_alwaysReplies hk _
  · exact notify_alwaysReplies hk _
  · exact hk

end

/-! ## The transactions -/

/-- A request that a failed transaction rejects: it goes on after the transaction as it does alone,
    or it is rejected and has changed nothing. -/
theorem failing_tx (fails : ℕ → Option QueryFailedError) (answers : Call → Answer) (now : ℕ)
    {β : Type} (body : Transaction β) {k : Except Thrown β → Program}
    (hk : ∀ e, ∃ e', k (.error e) = fail e') (c : ℕ) (d : Database) (seq : Serial → ℕ) :
    (∃ a ws, NoneFails (S := market) fails c (body.steps d now [] seq) ∧
      (body.eval d now [] seq).2 = .ok (a, ws) ∧
      Req.failing (S := market) fails answers now c d seq (.tx body k) =
        (k (.ok a)).failing fails answers now (c + body.steps d now [] seq) (overlay ws d)
          (body.eval d now [] seq).1) ∨
    ((NoneFails (S := market) fails c (body.steps d now [] seq) →
        ∃ e, (body.eval d now [] seq).2 = .error e) ∧
      ∃ seq' e, Req.failing (S := market) fails answers now c d seq (.tx body k) =
        (d, seq', .error e)) := by
  rcases body.failing_cases fails c [] seq with ⟨hn, hout⟩ | ⟨hn, f, hf⟩
  · cases heval : (body.eval d now [] seq).2 with
    | ok out =>
      refine Or.inl ⟨out.1, out.2, hn, rfl, ?_⟩
      simp only [Req.failing, hout, heval, liftError]
    | error e =>
      obtain ⟨e', he'⟩ := hk (.app e)
      refine Or.inr ⟨fun _ => ⟨e, rfl⟩, (body.eval d now [] seq).1, e', ?_⟩
      simp only [Req.failing, hout, heval, liftError, he']
      rfl
  · obtain ⟨e', he'⟩ := hk (.db f)
    refine Or.inr ⟨fun h => absurd h hn, (body.failing fails d now c [] seq).2.1, e', ?_⟩
    simp only [Req.failing, hf, he']
    rfl

theorem failing_query (fails : ℕ → Option QueryFailedError) (answers : Call → Answer) (now : ℕ)
    {β : Type} (g : Database → β) (k : β → Program) (c : ℕ) (d : Database) (seq : Serial → ℕ) :
    (NoneFails (S := market) fails c 2 ∧
      Req.failing (S := market) fails answers now c d seq (query g k) =
        (k (g d)).failing fails answers now (c + 2) d seq) ∨
    (¬ NoneFails (S := market) fails c 2 ∧ ∃ seq' e,
      Req.failing (S := market) fails answers now c d seq (query g k) = (d, seq', .error e)) := by
  rcases failing_tx fails answers now (.select g .commit) (k := fun | .ok b => k b | .error e => fail e)
      (fun e => ⟨e, rfl⟩) c d seq with ⟨a, ws, hn, heval, hout⟩ | ⟨hn, hout⟩
  · cases heval
    exact Or.inl ⟨hn, hout⟩
  · refine Or.inr ⟨fun h => ?_, hout⟩
    obtain ⟨e, he⟩ := hn h
    cases he

theorem reread_failing (fails : ℕ → Option QueryFailedError) (answers : Call → Answer) (now : ℕ)
    {o : ℤ} {u : String} {r : Order} {k : OrderDetail → Program}
    {reply : OrderDetail → Response} (c : ℕ) (seq : Serial → ℕ) (ho : d.orders.get o = some r)
    (hu : r.buyerId = u ∨ r.sellerId = u) (hk : ∀ x, AlwaysReplies (.ok (reply x)) (k x)) :
    (NoneFails (S := market) fails c 2 ∧ ∃ x,
      (Req.failing (S := market) fails answers now c d seq (findOneForUser o u k)).2.2 = .ok x) ∨
    (¬ NoneFails (S := market) fails c 2 ∧ ∃ seq' e,
      Req.failing (S := market) fails answers now c d seq (findOneForUser o u k) =
        (d, seq', .error e)) := by
  unfold findOneForUser
  refine (failing_query fails answers now _ _ c d seq).imp_left fun ⟨hn, hout⟩ => ⟨hn, ?_⟩
  rw [hout, ho, Option.map_some]
  have hparty : ¬ ((detail d o r).order.buyerId ≠ u ∧ (detail d o r).order.sellerId ≠ u) :=
    fun h => hu.elim h.1 h.2
  simp only [if_neg hparty]
  exact ⟨_, (hk _).failing _ _ _⟩

/-- The order can be placed. -/
def Places (d : Database) (buyerId : String) (dto : CreateOrderDto) (item : Item) : Prop :=
  d.items.get dto.itemId = some item ∧ item.sellerId ≠ buyerId ∧ item.status = .available ∧
    dto.quantity.getD 1 ≤ item.quantity

theorem createTx_eval (d : Database) (now : ℕ) (seq : Serial → ℕ) (buyerId : String)
    (dto : CreateOrderDto) :
    (∃ item, Places d buyerId dto item ∧ ((createTx buyerId dto).eval d now [] seq).2 =
      .ok ((seq .orders : ℤ),
        [⟨.order (seq .orders), newOrder buyerId dto.itemId item (dto.quantity.getD 1) now⟩,
          ⟨.item dto.itemId, { item with status := .reserved }⟩]) ∧
      (createTx buyerId dto).steps d now [] seq = 4) ∨
    ((∀ item, ¬ Places d buyerId dto item) ∧
      ∃ e, ((createTx buyerId dto).eval d now [] seq).2 = .error e) := by
  have hget : Database.get (overlay (S := market) [] d) (.item dto.itemId) =
      d.items.get dto.itemId := rfl
  unfold createTx
  simp only [Tx.eval, Tx.steps, hget]
  cases hi : d.items.get dto.itemId with
  | none => exact Or.inr ⟨fun item h => (by rw [Places, hi] at h; cases h.1), _, rfl⟩
  | some item =>
    have unique {item' : Item} (h : Places d buyerId dto item') : item' = item :=
      (Option.some.inj (hi.symm.trans h.1)).symm
    simp only
    split_ifs with hown hst hstock
    · exact Or.inr ⟨fun item' h => (by cases unique h; exact h.2.1 hown), _, rfl⟩
    · exact Or.inr ⟨fun item' h => (by cases unique h; exact hst h.2.2.1), _, rfl⟩
    · exact Or.inr ⟨fun item' h => (by cases unique h; exact Int.not_lt.2 h.2.2.2 hstock), _, rfl⟩
    · have hget' : Database.get (overlay (S := market) ([] ++ [⟨market.serial .orders (seq .orders),
          newOrder buyerId dto.itemId item (dto.quantity.getD 1) now⟩]) d) (.item dto.itemId) =
          some item := hi
      refine Or.inl ⟨item, ⟨hi, hown, not_not.1 hst, Int.not_lt.1 hstock⟩, ?_, ?_⟩
      · simp only [Tx.eval, hget', if_true]
        rfl
      · simp only [Tx.steps, hget', if_true]

/-- The order can be resolved: it is PENDING, and its seller completes or cancels it or its buyer
    cancels it. -/
def Resolvable (d : Database) (orderId : ℤ) (userId : String) (dto : UpdateOrderStatusDto)
    (order : Order) : Prop :=
  d.orders.get orderId = some order ∧ order.status = .pending ∧
    (order.sellerId = userId ∨ dto.status = .cancelled ∧ order.buyerId = userId)

/-- The row of an item after an order on it has been resolved. -/
def resolvedItem (item : Item) (order : Order) : OrderStatus → Item
  | .completed => { item with
      quantity := max (item.quantity - order.quantity) 0
      status := if max (item.quantity - order.quantity) 0 > 0 then .available else .sold }
  | .cancelled => { item with status := .available }
  | .pending => item

theorem resolveTx_eval {orderId : ℤ} {order : Order} {item : Item} (now : ℕ) (seq : Serial → ℕ)
    (ho : d.orders.get orderId = some order) (hi : d.items.get order.itemId = some item)
    (hres : item.status = .reserved) {status : OrderStatus}
    (hst : status = .completed ∨ status = .cancelled) :
    ((resolveTx orderId order.itemId status order item).eval d now [] seq).2 =
        .ok ((), [⟨.order orderId, { order with status }⟩,
          ⟨.item order.itemId, resolvedItem item order status⟩]) ∧
      (resolveTx orderId order.itemId status order item).steps d now [] seq = 3 := by
  have hget : Database.get (overlay (S := market) [] d) (.order orderId) = some order := ho
  have hget' (r : Order) : Database.get (overlay (S := market) ([] ++ [⟨.order orderId, r⟩]) d)
      (.item order.itemId) = some item := hi
  unfold resolveTx
  rcases hst with rfl | rfl
  · simp only [if_true, Tx.eval, Tx.steps, hget, hget']
    exact ⟨rfl, trivial⟩
  · simp only [reduceCtorEq, if_false, Tx.eval, Tx.steps, hget, if_true, hres, hget']
    exact ⟨rfl, trivial⟩

theorem updateStatusTx_eval (hag : Agreement d) (now : ℕ) (seq : Serial → ℕ) (orderId : ℤ)
    (userId : String) (dto : UpdateOrderStatusDto) :
    (∃ order item, Resolvable d orderId userId dto order ∧
      d.items.get order.itemId = some item ∧
      ((updateStatusTx orderId userId dto.status).eval d now [] seq).2 =
        .ok ((), [⟨.order orderId, { order with status := dto.status }⟩,
          ⟨.item order.itemId, resolvedItem item order dto.status⟩]) ∧
      (updateStatusTx orderId userId dto.status).steps d now [] seq = 6) ∨
    ((∀ order, ¬ Resolvable d orderId userId dto order) ∧
      ∃ e, ((updateStatusTx orderId userId dto.status).eval d now [] seq).2 = .error e) := by
  have hget : Database.get (overlay (S := market) [] d) (.order orderId) = d.orders.get orderId := rfl
  have hget' (i : ℤ) : Database.get (overlay (S := market) [] d) (.item i) = d.items.get i := rfl
  have hsel : (overlay (S := market) [] d).orders.get orderId = d.orders.get orderId := rfl
  unfold updateStatusTx
  simp only [Tx.eval, Tx.steps, hsel]
  cases ho : d.orders.get orderId with
  | none => exact Or.inr ⟨fun order h => (by rw [Resolvable, ho] at h; cases h.1), _, rfl⟩
  | some order =>
    obtain ⟨item, hi, -⟩ := hag.item ho
    have unique {order' : Order} (h : Resolvable d orderId userId dto order') : order' = order :=
      (Option.some.inj (ho.symm.trans h.1)).symm
    simp only [Option.map_some, Tx.eval, Tx.steps, hget, hget', ho, hi]
    split_ifs with hparty hpending hseller
    · refine Or.inr ⟨fun order' h => ?_, _, rfl⟩
      cases unique h
      exact h.2.2.elim hparty.1 fun hb => hparty.2 hb.2
    · exact Or.inr ⟨fun order' h => (by cases unique h; exact hpending h.2.1), _, rfl⟩
    · refine Or.inr ⟨fun order' h => ?_, _, rfl⟩
      cases unique h
      refine h.2.2.elim hseller.2 fun hb => ?_
      rw [hb.1] at hseller; cases hseller.1
    · have hp := not_not.1 hpending
      have hres := (hag.covered ho hp hi).1
      obtain ⟨heval, hsteps⟩ := resolveTx_eval now seq ho hi hres dto.status_in
      refine Or.inl ⟨order, item, ⟨ho, hp, ?_⟩, hi, heval, by rw [hsteps]⟩
      by_cases hs : order.sellerId = userId
      · exact Or.inl hs
      · have hb : order.buyerId = userId := by_contra fun hb => hparty ⟨hs, hb⟩
        exact Or.inr ⟨dto.status_in.resolve_left fun hc => hseller ⟨hc, hs⟩, hb⟩

/-! ## Requests -/

/-- The buyer may attach the slip. -/
def Attachable (cfg : Config) (d : Database) (orderId : ℤ) (userId : String)
    (dto : AttachPaymentSlipDto cfg) (order : Order) : Prop :=
  StorageService.isManagedUrl cfg dto.paymentSlipUrl = true ∧
    d.orders.get orderId = some order ∧ order.buyerId = userId ∧ order.status = .pending

/-- The databases have the same orders and items. -/
def Untouched (d d' : Database) : Prop :=
  (∀ o, d'.orders.get o = d.orders.get o) ∧ ∀ i, d'.items.get i = d.items.get i

theorem Untouched.refl (d : Database) : Untouched d d := ⟨fun _ => rfl, fun _ => rfl⟩

/-- The request passes its checks on `d` and changes an order; `k` statements of it, the last one a
    COMMIT, do that. -/
def CommitsAfter (d : Database) : Request cfg → ℕ → Prop
  | .createOrder buyerId dto, k => k = 4 ∧ ∃ item, Places d buyerId dto item
  | .updateOrderStatus orderId userId dto, k => k = 6 ∧ ∃ order, Resolvable d orderId userId dto order
  | .attachPaymentSlip orderId userId dto, k => k = 4 ∧ ∃ order,
    Attachable cfg d orderId userId dto order ∧ order.paymentSlipUrl ≠ some dto.paymentSlipUrl
  | _, _ => False

/-- The outcome of a request that runs alone on `d`. -/
def outcome (fails : ℕ → Option QueryFailedError) (answers : Call → Answer) (now : ℕ)
    (d : Database) (seq : Serial → ℕ) (q : Request cfg) :
    Database × (Serial → ℕ) × Except Thrown Response :=
  (program cfg q).failing fails answers now 0 d seq

/-- The statements up to the COMMIT do not fail, but the SELECT that reads the order back does. -/
def RereadFails (fails : ℕ → Option QueryFailedError) (k : ℕ) : Prop :=
  NoneFails (S := market) fails 0 k ∧ ¬ NoneFails (S := market) fails k 2

section
variable {q : Request cfg}

/-- A rejected request has left the orders and items as they were. -/
def Harmless (d : Database) (out : Database × (Serial → ℕ) × Except Thrown Response) : Prop :=
  ∀ e, out.2.2 = .error e → Untouched d out.1

theorem Harmless.rejected {d : Database} {seq : Serial → ℕ} {e : Thrown} :
    Harmless d (d, seq, .error e) := fun _ _ => .refl d

theorem harmless_reread {o : ℤ} {u : String} {r : Order} {k : OrderDetail → Program}
    {reply : OrderDetail → Response} {d' : Database} (c : ℕ) (seq : Serial → ℕ)
    (hn : NoneFails (S := market) fails 0 c) (ho : d'.orders.get o = some r)
    (hchanged : d.orders.get o ≠ some r) (hu : r.buyerId = u ∨ r.sellerId = u)
    (hk : ∀ x, AlwaysReplies (.ok (reply x)) (k x)) :
    Harmless d (Req.failing (S := market) fails answers now c d' seq (findOneForUser o u k)) ↔
      ¬ RereadFails fails c := by
  rcases reread_failing fails answers now c seq ho hu hk with ⟨hc, x, hx⟩ | ⟨hc, seq', e, he⟩
  · refine iff_of_true (fun e he => ?_) fun h => h.2 hc
    rw [hx] at he; cases he
  · refine iff_of_false (fun h => ?_) fun h => h ⟨hn, hc⟩
    have hsame := h e (by rw [he])
    rw [he] at hsame
    exact hchanged ((hsame.1 o).symm.trans ho)

theorem harmless_tx {β : Type} (body : Transaction β) {k : Except Thrown β → Program}
    (hk : ∀ e, ∃ e', k (.error e) = fail e') (passes : Prop) (n : ℕ) (o : ℤ) (u : String)
    {f : OrderDetail → Program} {reply : OrderDetail → Response}
    (hf : ∀ x, AlwaysReplies (.ok (reply x)) (f x)) (c : ℕ) (seq : Serial → ℕ)
    (hc : NoneFails (S := market) fails 0 c)
    (h : (passes ∧ body.steps d now [] seq = n ∧ ∃ a ws r,
        (body.eval d now [] seq).2 = .ok (a, ws) ∧ k (.ok a) = findOneForUser o u f ∧
        (overlay (S := market) ws d).orders.get o = some r ∧ d.orders.get o ≠ some r ∧
        (r.buyerId = u ∨ r.sellerId = u)) ∨
      (¬ passes ∧ ∃ e, (body.eval d now [] seq).2 = .error e)) :
    Harmless d (Req.failing (S := market) fails answers now c d seq (.tx body k)) ↔
      ¬ (passes ∧ RereadFails fails (c + n)) := by
  rcases failing_tx fails answers now body hk c d seq with ⟨a, ws, hn, hok, hout⟩ | ⟨hn, seq', e, hout⟩
  · rcases h with ⟨hp, hsteps, a', ws', r, hok', hk', hget, hne, hu⟩ | ⟨-, e, he⟩
    · rw [hok] at hok'
      cases hok'
      rw [hsteps] at hn hout
      rw [hout, hk', harmless_reread _ _ ?_ hget hne hu hf]
      · exact not_congr ⟨fun h => ⟨hp, h⟩, fun h => h.2⟩
      · have hall : NoneFails (S := market) fails 0 (c + n) :=
          NoneFails.add.2 ⟨hc, by rwa [Nat.zero_add]⟩
        exact hall
    · rw [hok] at he; cases he
  · rw [hout]
    refine iff_of_true .rejected ?_
    rintro ⟨hp, hall, -⟩
    rcases h with ⟨-, hsteps, a', ws', r, hok', -⟩ | ⟨hno, -⟩
    · have hbody := (NoneFails.add.1 hall).2
      rw [Nat.zero_add, ← hsteps] at hbody
      obtain ⟨e', he'⟩ := hn hbody
      rw [hok'] at he'; cases he'
    · exact hno hp

theorem create_harmless (hfresh : d.orders.get (seq .orders) = none) (buyerId : String)
    (dto : CreateOrderDto) :
    Harmless d (outcome fails answers now d seq (.createOrder buyerId dto : Request cfg)) ↔
      ¬ ((∃ item, Places d buyerId dto item) ∧ RereadFails fails 4) := by
  have hreply (o : OrderDetail) : AlwaysReplies (.ok (.order o))
      (NotificationsService.notifyOrderPlaced cfg o (answer (.order o))) := notify_alwaysReplies .done _
  unfold outcome program OrdersService.create
  refine (harmless_tx (createTx buyerId dto) (fun e => ?_) _ _ (seq .orders : ℤ) buyerId
    hreply 0 seq (fun i _ hi => absurd hi (by omega)) ?_).trans (by rw [Nat.zero_add])
  · cases e with
    | app e => exact ⟨_, rfl⟩
    | db e =>
      simp only
      split_ifs
      · exact ⟨_, rfl⟩
      · exact ⟨_, rfl⟩
  · rcases createTx_eval d now seq buyerId dto with ⟨item, hp, heval, hsteps⟩ | ⟨hno, he⟩
    · refine Or.inl ⟨⟨item, hp⟩, hsteps, _, _,
        newOrder buyerId dto.itemId item (dto.quantity.getD 1) now, heval, rfl, Table.get_put .., ?_,
        Or.inl rfl⟩
      rw [hfresh]
      exact nofun
    · exact Or.inr ⟨fun ⟨item, hp⟩ => hno item hp, he⟩

theorem updateStatus_harmless (hag : Agreement d) (orderId : ℤ) (userId : String)
    (dto : UpdateOrderStatusDto) :
    Harmless d (outcome fails answers now d seq
        (.updateOrderStatus orderId userId dto : Request cfg)) ↔
      ¬ ((∃ order, Resolvable d orderId userId dto order) ∧ RereadFails fails 6) := by
  have hreply (o : OrderDetail) : AlwaysReplies (.ok (.order o))
      (NotificationsService.notifyOrderStatusChanged cfg o userId (answer (.order o))) :=
    notifyOrderStatusChanged_alwaysReplies .done o userId
  unfold outcome program OrdersService.updateStatus
  refine (harmless_tx (updateStatusTx orderId userId dto.status) (fun e => ⟨e, rfl⟩) _ _ orderId userId
    hreply 0 seq (fun i _ hi => absurd hi (by omega)) ?_).trans (by rw [Nat.zero_add])
  rcases updateStatusTx_eval hag now seq orderId userId dto with
    ⟨order, item, hr, -, heval, hsteps⟩ | ⟨hno, he⟩
  · refine Or.inl ⟨⟨order, hr⟩, hsteps, _, _, { order with status := dto.status }, heval, rfl,
      Table.get_put .., fun h => ?_, ?_⟩
    · -- the order is no longer PENDING
      rw [hr.1] at h
      have hst : order.status = dto.status := congrArg Order.status (Option.some.inj h)
      rw [hr.2.1] at hst
      rcases dto.status_in with h | h <;> rw [h] at hst <;> cases hst
    · exact hr.2.2.elim Or.inr fun hb => Or.inl hb.2
  · exact Or.inr ⟨fun ⟨order, hr⟩ => hno order hr, he⟩

theorem harmless_untouched {β : Type} (body : Transaction β) {k : Except Thrown β → Program}
    (hk : ∀ e, ∃ e', k (.error e) = fail e') (o : ℤ) (u : String) {f : OrderDetail → Program}
    {reply : OrderDetail → Response} (hf : ∀ x, AlwaysReplies (.ok (reply x)) (f x)) (c : ℕ)
    (seq : Serial → ℕ)
    (h : ∀ a ws, (body.eval d now [] seq).2 = .ok (a, ws) → k (.ok a) = findOneForUser o u f ∧
      Untouched d (overlay (S := market) ws d) ∧ ∃ r, d.orders.get o = some r ∧
        (r.buyerId = u ∨ r.sellerId = u)) :
    Harmless d (Req.failing (S := market) fails answers now c d seq (.tx body k)) := by
  rcases failing_tx fails answers now body hk c d seq with ⟨a, ws, -, hok, hout⟩ | ⟨-, seq', e, hout⟩
  · obtain ⟨hk', hsame, r, hr, hu⟩ := h a ws hok
    rw [hout, hk']
    rcases reread_failing fails answers now _ _ ((hsame.1 o).trans hr) hu hf with
      ⟨-, x, hx⟩ | ⟨-, seq', e, he⟩
    · intro e he
      rw [hx] at he; cases he
    · rw [he]
      exact fun _ _ => hsame
  · rw [hout]
    exact .rejected

theorem Untouched.put_order {orderId : ℤ} {order : Order} (ho : d.orders.get orderId = some order) :
    Untouched d (overlay (S := market) [⟨.order orderId, order⟩] d) := by
  refine ⟨fun o => ?_, fun _ => rfl⟩
  rcases eq_or_ne o orderId with rfl | hne
  · exact (Table.get_put ..).trans ho.symm
  · exact Table.get_put_ne _ _ hne

theorem attachTx_harmless {orderId : ℤ} {userId : String} {dto : AttachPaymentSlipDto cfg}
    {order : Order} (ho : d.orders.get orderId = some order) (hb : order.buyerId = userId)
    (hc : NoneFails (S := market) fails 0 2) :
    Harmless d (Req.failing (S := market) fails answers now 2 d seq (.tx (.update (.order orderId)
        (fun _ => true) (fun (o : Order) => { o with paymentSlipUrl := some dto.paymentSlipUrl })
        .commit) fun
      | .error e => fail e
      | .ok _ => findOneForUser orderId userId fun o =>
          NotificationsService.notifyPaymentSlipAttached cfg o (answer (.order o)))) ↔
      ¬ (order.paymentSlipUrl ≠ some dto.paymentSlipUrl ∧ RereadFails fails 4) := by
  have hreply (o : OrderDetail) : AlwaysReplies (.ok (.order o))
      (NotificationsService.notifyPaymentSlipAttached cfg o (answer (.order o))) :=
    notify_alwaysReplies .done _
  have hget : Database.get (overlay (S := market) [] d) (.order orderId) = some order := ho
  by_cases hurl : order.paymentSlipUrl = some dto.paymentSlipUrl
  · refine iff_of_true (harmless_untouched _ (by exact fun e => ⟨e, rfl⟩) orderId userId hreply 2 seq ?_)
      fun h => h.1 hurl
    intro a ws hok
    simp only [Tx.eval, hget, if_true] at hok
    cases hok
    have hsame : { order with paymentSlipUrl := some dto.paymentSlipUrl } = order := by rw [← hurl]
    refine ⟨rfl, ?_, order, ho, Or.inl hb⟩
    rw [List.nil_append, hsame]
    exact .put_order ho
  · refine harmless_tx _ (by exact fun e => ⟨e, rfl⟩) _ 2 orderId userId hreply 2 seq hc
      (Or.inl ⟨hurl, by simp only [Tx.steps, hget, if_true], 1,
        [⟨.order orderId, { order with paymentSlipUrl := some dto.paymentSlipUrl }⟩], _, ?_, rfl,
        Table.get_put .., fun h => ?_, Or.inl hb⟩)
    · simp only [Tx.eval, hget, if_true]
      rfl
    · rw [ho] at h
      exact hurl (congrArg Order.paymentSlipUrl (Option.some.inj h))

theorem attach_harmless (orderId : ℤ) (userId : String) (dto : AttachPaymentSlipDto cfg) :
    Harmless d (outcome fails answers now d seq
        (.attachPaymentSlip orderId userId dto : Request cfg)) ↔
      ¬ ((∃ order, Attachable cfg d orderId userId dto order ∧
        order.paymentSlipUrl ≠ some dto.paymentSlipUrl) ∧ RereadFails fails 4) := by
  unfold outcome program
  dsimp only
  unfold OrdersService.attachPaymentSlip
  cases hm : StorageService.assertManagedUrls cfg [dto.paymentSlipUrl] with
  | error e =>
    refine iff_of_true .rejected ?_
    rintro ⟨⟨order, ⟨hurl, -⟩, -⟩, -⟩
    rw [(StorageService.assertManagedUrls_ok cfg).2 (by simpa using hurl)] at hm
    cases hm
  | ok =>
    have hurl := (StorageService.assertManagedUrls_ok cfg).1 hm _ (List.mem_singleton_self _)
    dsimp only
    rcases failing_query fails answers now (fun d => d.orders.get orderId) _ 0 d seq with
      ⟨hn, hout⟩ | ⟨hn, seq', e, hout⟩
    · rw [hout]
      cases ho : d.orders.get orderId with
      | none =>
        refine iff_of_true .rejected ?_
        rintro ⟨⟨order, ⟨-, h, -⟩, -⟩, -⟩
        rw [ho] at h; cases h
      | some order =>
        have unique {order' : Order} (h : Attachable cfg d orderId userId dto order') :
            order' = order := (Option.some.inj (ho.symm.trans h.2.1)).symm
        dsimp only
        split_ifs with hparty hbuyer hpending
        · refine iff_of_true .rejected ?_
          rintro ⟨⟨order', h, -⟩, -⟩
          cases unique h
          exact hparty.1 h.2.2.1
        · refine iff_of_true .rejected ?_
          rintro ⟨⟨order', h, -⟩, -⟩
          cases unique h
          exact hbuyer h.2.2.1
        · refine iff_of_true .rejected ?_
          rintro ⟨⟨order', h, -⟩, -⟩
          cases unique h
          exact hpending h.2.2.2
        · refine (attachTx_harmless ho (not_not.1 hbuyer) hn).trans (not_congr (and_congr_left' ?_))
          refine ⟨fun h => ⟨order, ⟨hurl, ho, not_not.1 hbuyer, not_not.1 hpending⟩, h⟩, ?_⟩
          rintro ⟨order', h, hne⟩
          cases unique h
          exact hne
    · rw [hout]
      refine iff_of_true .rejected fun h => hn ?_
      exact (NoneFails.add (n := 2) (m := 2)).1 h.2.1 |>.1

end

/-- A request that is made when no session holds a lock can run as computed. -/
theorem outcome_run {s : AppState cfg} (fails : ℕ → Option QueryFailedError)
    (answers : Call → Answer) (q : Request cfg) (hfree : ∀ p ∈ s.sessions, p.2.locks = []) :
    ∃ acts s', s.run (program cfg) (.submit q :: acts) = some s' ∧
      s'.db = (outcome fails answers s.clock s.db s.seq q).1 ∧
      s'.sessions[s.sessions.length]? =
        some (q, .idle (.done (outcome fails answers s.clock s.db s.seq q).2.2)) := by
  let s₁ : AppState cfg := { s with sessions := s.sessions ++ [(q, .idle (program cfg q))] }
  have hlast : s₁.sessions[s.sessions.length]? = some (q, .idle (program cfg q)) := by simp [s₁]
  have hfails : State.ReqFails fails (program cfg) answers s.sessions.length q 0 s₁ (program cfg q) :=
    State.run_failing (program cfg q) 0 s₁ (State.alone_append hfree _) hlast
  obtain ⟨s', ⟨acts, -, hrun, hset, -⟩, hdb, -⟩ := hfails
  refine ⟨acts, s', by simpa [State.run, State.step] using hrun, hdb, ?_⟩
  rw [hset]
  exact State.getElem?_set_same hlast _

/-- **An order request that is rejected has changed no order and no item, unless what failed is the
    SELECT that reads the order back after the commit.** -/
theorem rejected_untouched_iff {users : Table String User} {acts : List (AppAction cfg)}
    {s : AppState cfg} (hrun : runs cfg users acts = some s) {q : Request cfg}
    (hq : q.notifies = true) (fails : ℕ → Option QueryFailedError) (answers : Call → Answer)
    (now : ℕ) :
    Harmless s.db (outcome fails answers now s.db s.seq q) ↔
      ¬ ∃ k, CommitsAfter s.db q k ∧ RereadFails fails k := by
  cases q with
  | createOrder buyerId dto =>
    obtain ⟨h, hs⟩ := runs_sim_any hrun
    have hfresh : s.db.orders.get (s.seq .orders) = none := (hs.fresh .orders _ le_rfl).1
    rw [create_harmless hfresh]
    simp only [CommitsAfter, and_assoc, exists_eq_left]
  | updateOrderStatus orderId userId dto =>
    rw [updateStatus_harmless (runs_agreement hrun)]
    simp only [CommitsAfter, and_assoc, exists_eq_left]
  | attachPaymentSlip orderId userId dto =>
    rw [attach_harmless]
    simp only [CommitsAfter, and_assoc, exists_eq_left]
  | _ => cases hq

/-- The database fails the `n`-th statement of a request. -/
def failsAt (n : ℕ) : ℕ → Option QueryFailedError := fun i => if i = n then some ⟨none⟩ else none

/-- The seller lists one unit. -/
def sampleListed : List (AppAction sample) := perform 0 6 (.createItem "EMP00101" sampleUnit)

/-- An order whose COMMIT fails has changed nothing. -/
theorem rejected_untouched_sample : ∃ s : AppState sample, runs sample sampleUsers sampleListed = some s ∧
    ((s.db.items.get 1).isSome = true ∧ s.db.orders.get 1 = none) ∧
    Harmless s.db (outcome (failsAt 3) (fun _ => .done) 0 s.db s.seq
      (.createOrder "EMP00102" sampleOrder : Request sample)) := by
  obtain ⟨s, hrun, hs⟩ : ∃ s, runs sample sampleUsers sampleListed = some s ∧
      ((s.db.items.get 1).isSome && (s.db.orders.get 1).isNone) = true := reaches (by decide +kernel)
  rw [Bool.and_eq_true, Option.isNone_iff_eq_none] at hs
  refine ⟨s, hrun, hs, (rejected_untouched_iff hrun rfl _ _ 0).2 ?_⟩
  rintro ⟨k, ⟨rfl, -⟩, hn, -⟩
  cases hn 3 (by decide) (by decide)

/-- An order whose SELECT after the COMMIT fails is rejected, but has been placed. -/
theorem rejected_untouched_counterexample : ∃ (s : AppState sample) (e : Thrown),
    runs sample sampleUsers sampleListed = some s ∧ s.db.orders.get 1 = none ∧
    (outcome (failsAt 4) (fun _ => .done) 0 s.db s.seq
      (.createOrder "EMP00102" sampleOrder : Request sample)).2.2 = .error e ∧
    (outcome (failsAt 4) (fun _ => .done) 0 s.db s.seq
      (.createOrder "EMP00102" sampleOrder : Request sample)).1.orders.get 1 ≠ none := by
  obtain ⟨s, hrun, hs⟩ : ∃ s, runs sample sampleUsers sampleListed = some s ∧
      ((s.db.orders.get 1).isNone &&
        ((outcome (failsAt 4) (fun _ => .done) 0 s.db s.seq
          (.createOrder "EMP00102" sampleOrder : Request sample)).1.orders.get 1).isSome &&
        match (outcome (failsAt 4) (fun _ => .done) 0 s.db s.seq
          (.createOrder "EMP00102" sampleOrder : Request sample)).2.2 with
        | .error _ => true
        | .ok _ => false) = true := reaches (by decide +kernel)
  simp only [Bool.and_eq_true, Option.isNone_iff_eq_none] at hs
  obtain ⟨⟨hnone, hplaced⟩, herror⟩ := hs
  split at herror
  · rename_i e he
    refine ⟨s, e, hrun, hnone, he, fun h => ?_⟩
    rw [h] at hplaced
    cases hplaced
  · cases herror

end Marketplace
