/-
  The notifications of orders: they go to the other party, and what fails
  while they are saved, emitted and pushed does not matter for the order.
-/
import Marketplace.Proof.Unread
import Marketplace.Proof.Agreement
import Marketplace.Lib.Isolation

namespace Marketplace

open ReadCommitted

variable {cfg : Config} {d d' : Database}

/-! ## Items, orders and employees -/

/-- The columns of an employee other than the token of the device. -/
def User.withoutToken (u : User) : User := { u with fcmToken := none }

/-- The databases have the same items, orders and, but for their tokens, employees. -/
structure SameTrade (d d' : Database) : Prop where
  items : d.items = d'.items
  orders : d.orders = d'.orders
  users : ∀ u, (d.users.get u).map User.withoutToken = (d'.users.get u).map User.withoutToken

/-- The rows of items and orders. -/
def Key.trades : Key → Bool
  | .item _ | .order _ => true
  | _ => false

/-- Items and orders. -/
def trade : Core market where
  Same := SameTrade
  equiv :=
    ⟨fun _ => ⟨rfl, rfl, fun _ => rfl⟩,
      fun h => ⟨h.items.symm, h.orders.symm, fun u => (h.users u).symm⟩,
      fun h h' => ⟨h.items.trans h'.items, h.orders.trans h'.orders,
        fun u => (h.users u).trans (h'.users u)⟩⟩
  put d d' k r h := by
    cases k with
    | item i => exact ⟨congrArg (·.put i r) h.items, h.orders, h.users⟩
    | order o => exact ⟨h.items, congrArg (·.put o r) h.orders, h.users⟩
    | message | notification => exact ⟨h.items, h.orders, h.users⟩
    | user u =>
      refine ⟨h.items, h.orders, fun v => ?_⟩
      simp only [Database.put, Table.get_put_eq]
      split_ifs
      · rfl
      · exact h.users v
  row k := k.trades = true
  get {k d d'} hk h := by
    cases k with
    | item i => exact congrArg (Table.get · i) h.items
    | order o => exact congrArg (Table.get · o) h.orders
    | user | message | notification => cases hk
  tab t := t = .items ∨ t = .orders
  serial ht n := by rcases ht with rfl | rfl <;> rfl
  comm {k k'} d r r' hk hk' := by
    cases k <;> cases hk <;> cases k' <;> first | exact ⟨rfl, rfl, fun _ => rfl⟩ | exact absurd rfl hk'

theorem SameTrade.user (h : SameTrade d d') {α : Type} {f : User → α}
    (hf : ∀ u, f u = f u.withoutToken) (u : String) :
    (d.users.get u).map f = (d'.users.get u).map f := by
  have := congrArg (Option.map f) (h.users u)
  simpa only [Option.map_map, Function.comp_def, ← hf] using this

theorem SameTrade.sellerParty (h : SameTrade d d') (u : String) :
    sellerParty d u = sellerParty d' u := h.user (fun _ => rfl) u

theorem SameTrade.detail (h : SameTrade d d') (o : ℤ) (r : Order) :
    OrdersService.detail d o r = OrdersService.detail d' o r := by
  simp only [OrdersService.detail, h.items, h.sellerParty]
  rw [h.user fun _ => rfl]

theorem SameTrade.listing (h : SameTrade d d') (i : ℤ) (item : Item) :
    ItemsService.listing d i item = ItemsService.listing d' i item := by
  simp only [ItemsService.listing]
  rw [h.user fun _ => rfl]

/-! ## The notification layer -/

/-- What fails in the notification layer is logged: after it the request is answered as it would have
    been. -/
def notifications (cfg : Config) : Detours market where
  core := trade
  prog p r := ∃ input r', p = NotificationsService.notify cfg input (answer r') ∧ r = .ok r'
  failed r := ∃ e, r = .error e
  tail := by
    rintro _ _ ⟨input, r', rfl, rfl⟩
    have same (d : Database) : trade.Same d d := trade.equiv.refl d
    have clear (d : Database) (u : String) (r : User) (h : d.get (.user u) = some r) :
        trade.Same d (d.put (.user u) { r with fcmToken := none }) := by
      refine ⟨rfl, rfl, fun v => ?_⟩
      have h : d.users.get u = some r := h
      simp only [Database.put, Table.get_put_eq]
      split_ifs with hv
      · rw [hv, h]; rfl
      · rfl
    refine ⟨⟨fun d now n => ⟨by simp [trade, Key.trades, Serial.key], rfl, rfl, fun _ => rfl⟩,
      fun _ _ => trivial⟩, fun x => ?_⟩
    match x with
    | .error _ => exact rfl
    | .ok (n, row) =>
      intro x
      match x with
      | .rejected _ => exact rfl
      | .done =>
        unfold PushService.sendToUser
        dsimp only
        split_ifs
        · exact rfl
        refine ⟨fun _ => trivial, fun x => ?_⟩
        match x with
        | .error _ | .ok none => exact rfl
        | .ok (some token) =>
          dsimp only
          split_ifs
          · exact rfl
          intro x
          match x with
          | .done | .rejected none => exact rfl
          | .rejected (some code) =>
            dsimp only
            split_ifs
            · exact ⟨⟨⟨by simp [trade, Key.trades], fun d r h _ => clear d _ r h⟩, fun _ => trivial⟩,
                fun _ => rfl⟩
            · exact rfl
  ne_done := by
    rintro _ _ ⟨input, r', rfl, rfl⟩ r
    nofun
  good := by
    rintro _ _ ⟨input, r', rfl, rfl⟩ ⟨e, he⟩
    cases he
  fault := ⟨none⟩

/-- The answer to a call that succeeds. -/
def Answer.ok (x : Answer) : Prop := x = .done

theorem notifications_smooth (p : Program) (r : Except Thrown Response)
    (h : (notifications cfg).prog p r) : p.Smooth (S := market) Answer.ok := by
  obtain ⟨input, r', rfl, -⟩ := h
  have last : Req.Smooth (S := market) Answer.ok (answer r') := .done _
  refine .tx (fun _ _ => trivial) fun x hx => ?_
  match x with
  | .error (.db f) => exact absurd rfl (hx f)
  | .error (.app _) => exact last
  | .ok (n, row) =>
    refine .call .done rfl ?_
    dsimp only
    unfold PushService.sendToUser
    dsimp only
    split_ifs
    · exact last
    refine .tx (fun _ => trivial) fun x hx => ?_
    match x with
    | .error _ | .ok none => exact last
    | .ok (some token) =>
      dsimp only
      split_ifs
      · exact last
      · exact .call .done rfl last

/-! ## The requests -/

/-- The requests on items and orders. -/
def Request.trades : Request cfg → Bool
  | .createItem .. | .updateItemStatus .. | .findItems .. | .findItem .. | .createOrder ..
  | .updateOrderStatus .. | .attachPaymentSlip .. | .findMyOrders .. | .findOrder .. => true
  | _ => false

section
variable {β : Type}

theorem main_fail (e : Thrown) : (notifications cfg).Main (fail e) := .done _

theorem main_query {g : Database → β} {k : β → Program}
    (hg : ∀ d d', SameTrade d d' → g d = g d') (hk : ∀ x, (notifications cfg).Main (k x)) :
    (notifications cfg).Main (query g k) := by
  refine .tx ⟨hg, fun _ => trivial⟩ (fun f => ⟨_, ⟨_, rfl⟩, rfl⟩) fun x => ?_
  cases x with
  | ok b => exact hk b
  | error e => exact main_fail e

theorem main_getManyAndCount {α : Type} (dto : PaginationQueryDto) {select : Database → List α}
    {k : PaginatedResult α → Program}
    (hselect : ∀ d d', SameTrade d d' → select d = select d')
    (hk : ∀ page, (notifications cfg).Main (k page)) :
    (notifications cfg).Main (dto.getManyAndCount select k) := by
  unfold PaginationQueryDto.getManyAndCount
  cases dto.offsetError with
  | some f => exact main_fail _
  | none =>
    exact main_query (fun d d' h => congrArg dto.rows (hselect d d' h)) fun _ =>
      main_query (fun d d' h => congrArg List.length (hselect d d' h)) fun _ => hk _

theorem main_notify (input : CreateNotificationInput) (r : Response) :
    (notifications cfg).Main (NotificationsService.notify cfg input (answer r)) :=
  .detour ⟨input, r, rfl, rfl⟩

theorem main_findOneForUser {o : ℤ} {u : String} {k : OrderDetail → Program}
    (hk : ∀ x, (notifications cfg).Main (k x)) :
    (notifications cfg).Main (OrdersService.findOneForUser o u k) := by
  refine main_query (fun d d' h => ?_) fun x => ?_
  · rw [h.orders]
    exact congrArg (Option.map · _) (funext (h.detail o))
  cases x with
  | none => exact main_fail _
  | some o =>
    dsimp only
    split_ifs
    · exact main_fail _
    · exact hk o

theorem main_findItem (i : ℤ) : (notifications cfg).Main (ItemsService.findOne i) := by
  refine main_query (fun d d' h => by simp only [h.items, h.sellerParty]) fun x => ?_
  cases x with
  | none => exact main_fail _
  | some item => exact .done _

theorem main_notifyOrderPlaced (o : OrderDetail) (r : Response) :
    (notifications cfg).Main (NotificationsService.notifyOrderPlaced cfg o (answer r)) :=
  main_notify _ r

theorem main_notifyOrderStatusChanged (o : OrderDetail) (u : String) (r : Response) :
    (notifications cfg).Main (NotificationsService.notifyOrderStatusChanged cfg o u (answer r)) := by
  unfold NotificationsService.notifyOrderStatusChanged
  dsimp only
  split
  · exact main_notify _ r
  · exact main_notify _ r
  · exact .done _

theorem main_notifyPaymentSlipAttached (o : OrderDetail) (r : Response) :
    (notifications cfg).Main (NotificationsService.notifyPaymentSlipAttached cfg o (answer r)) :=
  main_notify _ r

theorem main_tx {body : Transaction β} {k : Except Thrown β → Program}
    (hb : body.Oblivious (S := market) trade) (hf : ∀ e, ∃ e', k (.error e) = fail e')
    (hk : ∀ x, (notifications cfg).Main (k (.ok x))) : (notifications cfg).Main (.tx body k) := by
  refine .tx hb (fun f => ?_) fun x => ?_
  · obtain ⟨e, he⟩ := hf (.db f)
    exact ⟨_, ⟨e, rfl⟩, he⟩
  · cases x with
    | ok b => exact hk b
    | error e => obtain ⟨e', he⟩ := hf e; rw [he]; exact main_fail e'

theorem createTx_oblivious (u : String) (dto : CreateOrderDto) :
    (OrdersService.createTx u dto).Oblivious (S := market) trade := by
  refine ⟨rfl, fun item? => ?_⟩
  cases item? with
  | none => trivial
  | some item =>
    dsimp only
    split_ifs
    · trivial
    · trivial
    · trivial
    · exact ⟨Or.inr rfl, fun _ _ => ⟨rfl, fun _ => trivial⟩⟩

theorem updateStatusTx_oblivious (o : ℤ) (u : String) (x : OrderStatus) :
    (OrdersService.updateStatusTx o u x).Oblivious (S := market) trade := by
  refine ⟨fun d d' h => congrArg (fun t => (Table.get t o).map Order.itemId) h.orders,
    fun itemId? => ?_⟩
  cases itemId? with
  | none => trivial
  | some itemId =>
    refine ⟨rfl, fun item? => ⟨rfl, fun order? => ?_⟩⟩
    cases order? with
    | none => trivial
    | some order =>
      cases item? with
      | none => trivial
      | some item =>
        dsimp only
        split_ifs
        · trivial
        · trivial
        · trivial
        · unfold OrdersService.resolveTx
          split_ifs
          · exact ⟨rfl, fun _ => ⟨rfl, fun _ => trivial⟩⟩
          · exact ⟨rfl, fun _ => ⟨rfl, fun _ => trivial⟩⟩
          · exact ⟨rfl, fun _ => trivial⟩

theorem setStatusTx_oblivious (i : ℤ) (u : String) (x : ItemStatus) :
    (ItemsService.updateStatusTx i u x).Oblivious (S := market) trade := by
  refine ⟨rfl, fun item? => ?_⟩
  cases item? with
  | none => trivial
  | some item =>
    dsimp only
    split_ifs
    · trivial
    · trivial
    · refine ⟨fun d d' h => ?_, fun b => ?_⟩
      · exact congrArg (fun t : Table ℤ Order => t.rows.any fun x =>
          x.2.itemId = i && x.2.status = .pending) h.orders
      dsimp only
      split_ifs
      · trivial
      · exact ⟨rfl, fun _ => trivial⟩

theorem main_createItem (u : String) (dto : CreateItemDto cfg) :
    (notifications cfg).Main (ItemsService.create cfg u dto) := by
  unfold ItemsService.create
  cases ItemsService.resolvePrice dto.itemType dto.price with
  | error => exact main_fail _
  | ok price =>
    dsimp only
    cases StorageService.assertManagedUrls cfg (dto.images.getD []).eraseDups with
    | error => exact main_fail _
    | ok =>
      refine main_tx ?_ (fun e => ⟨e, rfl⟩) main_findItem
      exact ⟨Or.inl rfl, fun _ _ => trivial⟩

theorem main_attachPaymentSlip (o : ℤ) (u : String) (dto : AttachPaymentSlipDto cfg) :
    (notifications cfg).Main (OrdersService.attachPaymentSlip cfg o u dto) := by
  unfold OrdersService.attachPaymentSlip
  cases StorageService.assertManagedUrls cfg [dto.paymentSlipUrl] with
  | error => exact main_fail _
  | ok =>
    refine main_query (fun d d' h => congrArg (Table.get · o) h.orders) fun x => ?_
    cases x with
    | none => exact main_fail _
    | some order =>
      dsimp only
      split_ifs
      · exact main_fail _
      · exact main_fail _
      · exact main_fail _
      · refine main_tx ?_ (fun e => ⟨e, rfl⟩) fun _ =>
          main_findOneForUser fun o => main_notifyPaymentSlipAttached o _
        exact ⟨rfl, fun _ => trivial⟩

/-- Outside of the notification layer the requests read and write items and orders only. -/
theorem main_program {q : Request cfg} (hq : q.trades = true) :
    (notifications cfg).Main (program cfg q) := by
  cases q with
  | createItem u dto => exact main_createItem u dto
  | updateItemStatus i u st =>
    exact main_tx (setStatusTx_oblivious i u st) (fun e => ⟨e, rfl⟩) fun _ => main_findItem i
  | findItems dto =>
    have hall (d d' : Database) (h : SameTrade d d') :
        ItemsService.all cfg d dto = ItemsService.all cfg d' dto := by
      simp only [ItemsService.all, h.items, h.listing]
    exact main_getManyAndCount dto.toPaginationQueryDto (k := fun page => answer (.items page)) hall
      fun _ => .done _
  | findItem i => exact main_findItem i
  | createOrder u dto =>
    refine main_tx (createTx_oblivious u dto) (fun e => ?_) fun o =>
      main_findOneForUser fun o => main_notifyOrderPlaced o _
    cases e with
    | app e => exact ⟨_, rfl⟩
    | db e => dsimp only; split_ifs <;> exact ⟨_, rfl⟩
  | updateOrderStatus o u dto =>
    exact main_tx (updateStatusTx_oblivious o u dto.status) (fun e => ⟨e, rfl⟩) fun _ =>
      main_findOneForUser fun o => main_notifyOrderStatusChanged o u _
  | attachPaymentSlip o u dto => exact main_attachPaymentSlip o u dto
  | findMyOrders u dto =>
    have hmine (d d' : Database) (h : SameTrade d d') :
        OrdersService.mine d u dto = OrdersService.mine d' u dto := by
      simp only [OrdersService.mine, h.orders, h.detail]
    exact main_getManyAndCount dto.toPaginationQueryDto (k := fun page => answer (.orders page)) hmine
      fun _ => .done _
  | findOrder o u => exact main_findOneForUser fun _ => .done _
  | _ => cases hq

end

/-! ## What a request creates -/

/-- The notifications a commit adds. -/
def added (c : Commit market (Request cfg)) : List (ℤ × Notification) :=
  c.writes.filterMap fun
    | ⟨.notification n, r⟩ => if c.db.notifications.get n = none then some (n, r) else none
    | _ => none

/-- What a request has done to an order when it notifies of it. -/
def Done (before : Option Order) (after : Order) : NotificationType → Prop
  | .orderPlaced => before = none ∧ after.status = .pending
  | .orderCompleted => ∃ r, before = some r ∧ r.status = .pending ∧
      after = { r with status := .completed }
  | .orderCancelled => ∃ r, before = some r ∧ r.status = .pending ∧
      after = { r with status := .cancelled }
  | .paymentSlipAttached => ∃ r url, before = some r ∧ after = { r with paymentSlipUrl := some url }

section
variable (cfg : Config) (users : Table String User) (acts : List (AppAction cfg))

/-- The notifications session `j` has created. -/
def createdBy (j : ℕ) : List (ℤ × Notification) :=
  ((commitsOf cfg users acts).filter fun c => c.session = j).flatMap added

/-- The database has failed a statement of session `j` in the notification layer before the
    notification was created. -/
def SavingFailed (j : ℕ) : Prop :=
  ∃ as f bs s q st, acts = as ++ .fault j f :: bs ∧ runs cfg users as = some s ∧
    s.sessions[j]? = some (q, st) ∧ (notifications cfg).On st ∧ createdBy cfg users as j = []

/-- Session `j` has changed an order as the notification says. -/
def HasDone (j : ℕ) (o : ℤ) (type : NotificationType) : Prop :=
  ∃ c ∈ commitsOf cfg users acts, c.session = j ∧ ∃ order,
    (overlay c.writes c.db).orders.get o = some order ∧ Done (c.db.orders.get o) order type

/-- What the request of session `j`, made by `u` and answered with the reply, has created: one
    notification of what it has done to the order for the other party, unless saving it has failed. -/
def Notified (s : AppState cfg) (j : ℕ) (u : String) (type : NotificationType) :
    Except Thrown Response → Prop
  | .error _ => createdBy cfg users acts j = []
  | .ok _ => (createdBy cfg users acts j = [] ∧ SavingFailed cfg users acts j) ∨
      ∃ n row o order, createdBy cfg users acts j = [(n, row)] ∧ row.type = type ∧
        row.orderId = some o ∧ s.db.orders.get o = some order ∧
        counterpart order u = some row.userId ∧ row.userId ≠ u ∧ HasDone cfg users acts j o type

end

section
variable {base : Database → Prop} {q : Request cfg} {e : Event} {L : List Key} {o : ℤ} {u : String}
  {type : NotificationType} {users : Table String User} {acts : List (AppAction cfg)}
  {s s' : AppState cfg}

theorem OrderEvent.trades (h : OrderEvent o q e) : e.trades = true := by
  cases q with
  | createOrder => cases h; rfl
  | updateOrderStatus | attachPaymentSlip => obtain ⟨-, rfl⟩ := h; rfl
  | _ => cases h

theorem Emits.done (he : Emits cfg base q e L d d') (ho : OrderEvent o q e)
    (hq : q.announces = some (u, type)) :
    ∃ order, d'.orders.get o = some order ∧ Done (d.orders.get o) order type := by
  cases he with
  | placeOrder _ _ _ _ hn =>
    cases ho; cases hq
    exact ⟨_, Table.get_put .., hn, rfl⟩
  | completeOrder hc hr _ _ hp =>
    obtain ⟨rfl, -⟩ := ho
    simp only [Request.announces, hc, if_true, Option.some.injEq, Prod.mk.injEq] at hq
    obtain ⟨-, rfl⟩ := hq
    exact ⟨_, Table.get_put .., _, hr, hp, rfl⟩
  | cancelOrder hc hr _ _ hp =>
    obtain ⟨rfl, -⟩ := ho
    simp only [Request.announces, hc, reduceCtorEq, if_false, Option.some.injEq, Prod.mk.injEq] at hq
    obtain ⟨-, rfl⟩ := hq
    exact ⟨_, by rw [cancelled_orders]; exact Table.get_put .., _, hr, hp, rfl⟩
  | attachSlip _ hr =>
    obtain ⟨rfl, -⟩ := ho
    cases hq
    exact ⟨_, Table.get_put .., _, _, hr, rfl⟩
  | notify | forgetToken | readMessages | readNotifications => cases ho.trades
  | _ => cases ho

/-- A commit of a request on an order adds a notification only if that is its event. -/
theorem added_of_publishes {R : Regime cfg} {c : Commit market (Request cfg)}
    (hc : R.spec.Publishes c e) (hq : c.request.notifies = true) (hne : ∀ n r, e ≠ .notify n r) :
    added c = [] := by
  obtain ⟨-, -, hw, log, L, -, he, -⟩ := hc
  have none (hw : ∀ w ∈ c.writes, ∀ n, w.1 ≠ .notification n) : added c = [] := by
    refine List.filterMap_eq_nil_iff.2 fun ⟨k, r⟩ hm => ?_
    cases k with
    | notification n => exact absurd rfl (hw _ hm n)
    | user | item | order | message => rfl
  have he : Emits cfg R.base c.request e L c.db (overlay c.writes c.db) := he
  generalize c.request = q at he hq
  generalize overlay c.writes c.db = d' at he
  cases he with
  | notify => exact absurd rfl (hne _ _)
  | readMessages h => cases q <;> first | cases h | cases hq
  | readNotifications h => rcases h with ⟨_, rfl⟩ | rfl <;> cases hq
  | _ => exact none hw

theorem added_of_notify {R : Regime cfg} {c : Commit market (Request cfg)} {n : ℤ} {r : Notification}
    (hc : R.spec.Publishes c (.notify n r)) : added c = [(n, r)] := by
  obtain ⟨-, -, hw, log, L, -, he, -⟩ := hc
  have hw : c.writes = [⟨.notification n, r⟩] := hw
  have hn : c.db.notifications.get n = none := by
    have he : Emits cfg R.base c.request (.notify n r) L c.db (overlay c.writes c.db) := he
    generalize c.request = q at he
    generalize overlay c.writes c.db = d' at he
    cases he with
    | notify _ hn => exact hn
  simp [added, hw, hn]

theorem Emits.announces {n : ℤ} {r : Notification} (he : Emits cfg base q (.notify n r) L d d') :
    Announces d' q r := by
  cases he with
  | notify _ _ _ ha => exact ha

theorem Announces.kept {n : Notification} (h : Announces d q n) {q' : Request cfg}
    (he : Emits cfg base q' e L d d') : Announces d' q n := by
  obtain ⟨u, o, order, hq, ho, hr, hu⟩ := h
  obtain ⟨order', hr', hs⟩ := he.order_kept hr
  refine ⟨u, o, order', hq, ho, hr', ?_⟩
  rw [counterpart, hs.sellerId, hs.buyerId]
  exact hu

/-! ## Failures while a notification is saved -/

/-- A statement that fails is one of the notification layer, or it ends the request with an error. -/
theorem fault_step (hrun : runs cfg users acts = some s) {i : ℕ} {f : QueryFailedError}
    {st : Stage market} (hi : s.sessions[i]? = some (q, st)) (hq : q.trades = true)
    (hstep : s.step (program cfg) (.fault i f) = some s') :
    (notifications cfg).On st ∨ ∃ x, s'.sessions[i]? = some (q, .idle (.done (.error x))) := by
  refine (Detours.before_or_on (A := fun q => q.trades = true) (fun _ => main_program) hrun hi
    hq).symm.imp_right fun hb => ?_
  simp only [State.step, hi] at hstep
  cases hb with
  | done | start => cases hstep
  | active _ _ hf =>
    cases hstep
    obtain ⟨r, ⟨x, rfl⟩, hk⟩ := hf f
    exact ⟨x, by rw [← hk]; exact Spec.sessions_set_self hi⟩

/-- The database has failed a statement of session `j` in the notification layer. -/
def FailedOn (cfg : Config) (users : Table String User) (acts : List (AppAction cfg)) (j : ℕ) : Prop :=
  ∃ as f bs s q st, acts = as ++ .fault j f :: bs ∧ runs cfg users as = some s ∧
    s.sessions[j]? = some (q, st) ∧ (notifications cfg).On st

/-- If the second thing a request on an order goes through is a failure, it is one of the notification
    layer, or the request has failed. -/
def SecondFailed (cfg : Config) (users : Table String User) (acts : List (AppAction cfg))
    (s : AppState cfg) (h : (Regime.any : Regime cfg).spec.History) : Prop :=
  ∀ (j : ℕ) q st e f, s.sessions[j]? = some (q, st) → q.trades = true →
    h.of j = [.emit e, .fault f] →
    FailedOn cfg users acts j ∨ ∃ x, st = .idle (.done (.error x))

theorem SecondFailed.step {h l : (Regime.any : Regime cfg).spec.History} {a : AppAction cfg}
    (hI : SecondFailed cfg users acts s h) (hrun : runs cfg users acts = some s)
    (hsim : (Regime.any : Regime cfg).spec.Sim (.migrated users) s h)
    (hstep : s.step (program cfg) a = some s')
    (hout : (Regime.any : Regime cfg).spec.Outcome s h a s' l) :
    SecondFailed cfg users (acts ++ [a]) s' (h ++ l) := by
  intro j q st e f hj hq hh
  -- nothing of the session is added: the failure was there before
  have before (hh : h.of j = [.emit e, .fault f]) :
      FailedOn cfg users (acts ++ [a]) j ∨ ∃ x, st = .idle (.done (.error x)) := by
    obtain ⟨q₀, hm⟩ := Spec.History.mem_of.1 (hh ▸ List.mem_cons_self : .emit e ∈ h.of j)
    obtain ⟨st₀, hj₀⟩ := hsim.known _ hm
    obtain ⟨st', hj'⟩ := State.session_kept hstep hj₀
    have he := hj.symm.trans hj'
    simp only [Option.some.injEq, Prod.mk.injEq] at he
    obtain ⟨rfl, rfl⟩ := he
    rcases hI j q st₀ e f hj₀ hq hh with ⟨as, f, bs, s₁, q₁, st₁, rfl, hs₁, hj₁, hon⟩ | ⟨x, rfl⟩
    · exact Or.inl ⟨as, f, bs ++ [a], s₁, q₁, st₁, by simp, hs₁, hj₁, hon⟩
    · have hkept := State.replied_step hstep hj₀ (by simp [Stage.reply?])
      rw [hj] at hkept
      cases hkept
      exact Or.inr ⟨x, rfl⟩
  -- what is added is not a failure: it is of another session
  have other {i q₁} {x : Log Event QueryFailedError Call}
      (hh : h.of j ++ Spec.History.of [(i, q₁, x)] j = [.emit e, .fault f]) (hx : ∀ g, x ≠ .fault g) :
      FailedOn cfg users (acts ++ [a]) j ∨ ∃ x, st = .idle (.done (.error x)) := by
    by_cases hij : i = j
    · simp only [Spec.History.of, hij, List.filterMap_cons, if_true, List.filterMap_nil] at hh
      have hlast := congrArg List.getLast? hh
      rw [List.getLast?_concat] at hlast
      exact absurd (Option.some.inj hlast) (hx f)
    · exact before (by simpa [Spec.History.of, hij] using hh)
  rw [Spec.History.of_append] at hh
  cases hout with
  | silent => exact before (by simpa [Spec.History.of] using hh)
  | fault i f' q₁ st₁ ha hi =>
    subst ha
    by_cases hij : i = j
    · subst hij
      obtain ⟨st', hj'⟩ := State.session_kept hstep hi
      have he := hj.symm.trans hj'
      simp only [Option.some.injEq, Prod.mk.injEq] at he
      obtain ⟨rfl, rfl⟩ := he
      rcases fault_step hrun hi hq hstep with hon | ⟨x, hx⟩
      · exact Or.inl ⟨acts, f', [], s, q, st₁, by simp, hrun, hi, hon⟩
      · rw [hj] at hx
        cases hx
        exact Or.inr ⟨x, rfl⟩
    · exact before (by simpa [Spec.History.of, hij] using hh)
  | call => exact other hh (by rintro _ ⟨⟩)
  | emit => exact other hh (by rintro _ ⟨⟩)

/-! ## What is created -/

theorem added_of_quiet {R : Regime cfg} {cs : List (Commit market (Request cfg))}
    {log : List (Log Event QueryFailedError Call)} (h : Quiet log)
    (hreq : ∀ c ∈ cs, c.request.notifies = true)
    (hcs : List.Forall₂ R.spec.Publishes cs (log.filterMap Log.event?)) : cs.flatMap added = [] := by
  have hev : ∀ e ∈ log.filterMap Log.event?, ∀ n r, e ≠ .notify n r := by
    intro e he n r hn
    obtain ⟨l, hl, hle⟩ := List.mem_filterMap.1 he
    cases l with
    | emit => cases hle; exact h n r (hn ▸ hl)
    | fault | call => cases hle
  generalize log.filterMap Log.event? = es at hcs hev
  induction hcs with
  | nil => rfl
  | cons hpub _ ih =>
    rw [List.flatMap_cons, added_of_publishes hpub (hreq _ List.mem_cons_self)
      (hev _ List.mem_cons_self), List.nil_append]
    exact ih (fun c hc => hreq c (List.mem_cons_of_mem _ hc)) fun e he =>
      hev e (List.mem_cons_of_mem _ he)

/-- A session that has taken part in the event of an order and then saved a notification, once, has
    created that notification. -/
theorem added_of_notified {R : Regime cfg} {cs : List (Commit market (Request cfg))} {n : ℤ}
    {row : Notification} {log : List (Log Event QueryFailedError Call)} (he : OrderEvent o q e)
    (hquiet : Quiet log) (hreq : ∀ c ∈ cs, c.request.notifies = true)
    (hcs : List.Forall₂ R.spec.Publishes cs
      ((.emit e :: .emit (.notify n row) :: log).filterMap Log.event?)) :
    cs.flatMap added = [(n, row)] ∧ ∃ c ∈ cs, R.spec.Publishes c e := by
  obtain ⟨c₁, cs', h₁, hcs₁, rfl⟩ := List.forall₂_cons_right_iff.1 hcs
  obtain ⟨c₂, cs, h₂, hcs₂, rfl⟩ := List.forall₂_cons_right_iff.1 hcs₁
  have hne (n' r') : e ≠ .notify n' r' := by
    rintro rfl
    cases he.trades
  have hfirst : added c₁ = [] := added_of_publishes h₁ (hreq c₁ List.mem_cons_self) hne
  have hrest : cs.flatMap added = [] := added_of_quiet hquiet (fun c hc => hreq c (by simp [hc])) hcs₂
  refine ⟨?_, c₁, List.mem_cons_self, h₁⟩
  rw [List.flatMap_cons, List.flatMap_cons, hfirst, added_of_notify h₂, hrest]
  rfl

theorem Unsettled.quiet {log : List (Log Event QueryFailedError Call)} (h : Unsettled log) :
    Quiet log := fun _ _ hm => nomatch h _ hm

/-- A notification that has been saved tells the other party of what the request has done before. -/
def Announced (s : AppState cfg) (h : (Regime.any : Regime cfg).spec.History) : Prop :=
  ∀ i q n r, (i, q, .emit (.notify n r)) ∈ h → Announces s.db q r ∧
    ∃ o e rest, h.of i = .emit e :: rest ∧ OrderEvent o q e ∧ r.orderId = some o

theorem Announced.step {h l : (Regime.any : Regime cfg).spec.History} {a : AppAction cfg}
    (hI : Announced s h) (hout : (Regime.any : Regime cfg).spec.Outcome s h a s' l) :
    Announced s' (h ++ l) := by
  intro i q n r hm
  -- saved before this step
  have before (hd : ∀ (q : Request cfg) n, Announces s.db q n → Announces s'.db q n)
      (hm : (i, q, .emit (.notify n r)) ∈ h) : Announces s'.db q r ∧
        ∃ o e rest, (h ++ l).of i = .emit e :: rest ∧ OrderEvent o q e ∧ r.orderId = some o := by
    obtain ⟨ha, o, e, rest, hh, ho⟩ := hI i q n r hm
    exact ⟨hd q r ha, o, e, rest ++ Spec.History.of l i, by rw [Spec.History.of_append, hh]; rfl, ho⟩
  cases hout with
  | silent _ hd | fault _ _ _ _ _ _ hd | call _ _ _ _ _ _ _ hd =>
    exact before (fun q n h => by rwa [hd]) (by simpa using hm)
  | emit j q' st e _ _ _ _ _ he =>
    rcases List.mem_append.1 hm with hm | hm
    · exact before (fun q n h => h.kept he.1) hm
    · cases List.mem_singleton.1 hm
      obtain ⟨he, o, e, hlog, ho⟩ := he
      exact ⟨he.announces, o, e, _, by rw [Spec.History.of_append, hlog]; rfl, ho⟩

/-- The history of a run: its events are the commits, and what it says of notifications. -/
theorem order_history (hrun : runs cfg users acts = some s) :
    ∃ h, (Regime.any : Regime cfg).spec.Sim (.migrated users) s h ∧
      (∀ i, List.Forall₂ (Regime.any : Regime cfg).spec.Publishes
        ((commitsOf cfg users acts).filter fun c => c.session = i) ((h.of i).filterMap Log.event?)) ∧
      Announced s h ∧ SecondFailed cfg users acts s h := by
  refine (start_sim .any trivial).induction
    (fun q _ => program_ok q) (I := fun as s h =>
      (∀ i, List.Forall₂ (Regime.any : Regime cfg).spec.Publishes
        ((commitsOf cfg users as).filter fun c => c.session = i) ((h.of i).filterMap Log.event?)) ∧
      Announced s h ∧ SecondFailed cfg users as s h)
    ⟨fun i => .nil, by simp [Announced], by simp [SecondFailed, start, State.init]⟩
    (fun as a _ s s' h l _ hs hsim hst _ hout ⟨hcs, hn, hf⟩ => ⟨fun i => ?_, hn.step hout,
      hf.step hs hsim hst hout⟩) (fun _ _ => trivial) hrun
  rw [commitsOf_snoc hs, List.filter_append, Spec.History.of_append, List.filterMap_append]
  exact List.rel_append (hcs i) (hout.publishes hsim i)

theorem counterpart_ne (hrun : runs cfg users acts = some s) {order : Order} {v : String}
    (ho : s.db.orders.get o = some order) (h : counterpart order u = some v) : v ≠ u := by
  obtain ⟨item, -, hseller, hbuyer, -⟩ := (runs_agreement hrun).item ho
  rw [← hseller] at hbuyer
  simp only [counterpart] at h
  split_ifs at h with hs hb
  · rw [← Option.some.inj h, ← hs]; exact hbuyer
  · rw [← Option.some.inj h]; exact hs

theorem Request.trades_of_announces {x : String × NotificationType} (h : q.announces = some x) :
    q.trades = true := by
  cases q <;> first | rfl | cases h

/-- **What a request on an order creates**: nothing if it fails; else one notification, for the other
    party, of what it has done to the order, unless saving it fails. -/
theorem notified (hrun : runs cfg users acts = some s) {j : ℕ} {st : Stage market}
    {r : Except Thrown Response} (hj : s.sessions[j]? = some (q, st)) (hr : st.reply? = some r)
    (hq : q.announces = some (u, type)) : Notified cfg users acts s j u type r := by
  obtain ⟨h, hs, hcs, hn, hf⟩ := order_history hrun
  have hrep : Replies cfg q (h.of j) r := hs.replies hj hr
  have hreq : ∀ c ∈ (commitsOf cfg users acts).filter fun c => c.session = j, c.request = q := by
    intro c hc
    obtain ⟨hmem, hcj⟩ := List.mem_filter.1 hc
    obtain ⟨⟨st', hj'⟩, -⟩ := commit_conversation hrun hmem
    rw [of_decide_eq_true hcj, hj] at hj'
    cases hj'
    rfl
  have hnot : ∀ c ∈ (commitsOf cfg users acts).filter fun c => c.session = j,
      c.request.notifies = true := by
    intro c hc
    rw [hreq c hc]
    exact Request.notifies_of_announces hq
  cases r with
  | error x => exact added_of_quiet (Unsettled.quiet hrep) hnot (hcs j)
  | ok r =>
    have hlog : OrderLog q (h.of j) := by
      cases q <;> first | exact hrep | cases hq
    obtain ⟨o, e, rest, hl, he, ⟨f, rfl⟩ | ⟨n, row, rest', rfl, hquiet⟩⟩ := hlog
    · -- saving the notification has failed
      have hnil : createdBy cfg users acts j = [] := by
        refine added_of_quiet (fun n row hm => ?_) hnot (hcs j)
        rw [hl] at hm
        rcases List.mem_cons.1 hm with hm | hm
        · cases hm; cases he.trades
        · simp at hm
      obtain ⟨as, f, bs, s₁, q₁, st₁, rfl, hs₁, hj₁, hon⟩ | ⟨x, rfl⟩ :=
        hf j q st e f hj (Request.trades_of_announces hq) hl
      · refine Or.inl ⟨hnil, as, f, bs, s₁, q₁, st₁, rfl, hs₁, hj₁, hon, ?_⟩
        rw [createdBy, commitsOf, State.commits_append hs₁, List.filter_append, List.flatMap_append,
          List.append_eq_nil_iff] at hnil
        exact hnil.1
      · cases hr
    · refine Or.inr ?_
      obtain ⟨q', hm⟩ := Spec.History.mem_of.1
        (show .emit (.notify n row) ∈ h.of j by rw [hl]; simp)
      obtain ⟨st', hj'⟩ := hs.known _ hm
      rw [hj] at hj'
      cases hj'
      obtain ⟨⟨u', o', order, hq', ho', hr', hu⟩, o₁, e', rest, hl', he', ho⟩ := hn j _ n row hm
      rw [hl] at hl'
      cases hl'
      rw [hq] at hq'
      cases hq'
      rw [ho] at ho'
      cases ho'
      obtain ⟨hrow, c, hc, -, -, -, log, L, -, hem, -⟩ := added_of_notified he hquiet hnot (hl ▸ hcs j)
      rw [hreq c hc] at hem
      obtain ⟨hmem, hcj⟩ := List.mem_filter.1 hc
      exact ⟨n, row, o', order, hrow, rfl, ho, hr', hu, counterpart_ne hrun hr' hu, c, hmem,
        of_decide_eq_true hcj, Emits.done hem he' hq⟩

/-- **Notifications of orders**: a request on an order that succeeds creates one notification, for
    the other party, of what it has done to the order, unless saving it fails; one that fails creates
    none.  And what fails in the notification layer is without consequences: a run of requests on items
    and orders is matched by one with the same steps outside of that layer and no failure in it, after
    which the items, the orders and the replies are the same. -/
theorem order_notifications (hrun : runs cfg users acts = some s) :
    (∀ j q st u type r, s.sessions[j]? = some (q, st) → st.reply? = some r →
      q.announces = some (u, type) → Notified cfg users acts s j u type r) ∧
    ((∀ q, .submit q ∈ acts → q.trades = true) → ∃ acts' s', runs cfg users acts' = some s' ∧
      (start cfg users).outside (notifications cfg).On (program cfg) acts' =
        (start cfg users).outside (notifications cfg).On (program cfg) acts ∧
      (start cfg users).Undisturbed (notifications cfg).On (program cfg) (Action.Fails Answer.ok)
        acts' ∧
      s'.db.items = s.db.items ∧ s'.db.orders = s.db.orders ∧
      ∀ i : ℕ, s'.sessions[i]?.map (fun x => (x.1, x.2.reply?)) =
        s.sessions[i]?.map fun x => (x.1, x.2.reply?)) := by
  refine ⟨fun j q st u type r hj hr hq => notified hrun hj hr hq, fun hq => ?_⟩
  obtain ⟨acts', s', hrun', hout, hund, hsame, hreplies⟩ := Detours.undisturbed_run
    (Detours.completes_of_smooth notifications_smooth) (fun q ha => main_program (hq q ha)) hrun
  exact ⟨acts', s', hrun', hout, hund, hsame.items.symm, hsame.orders.symm, hreplies⟩

end

/-- The seller lists one unit, the buyer orders it, the seller completes the order: the first
    notification cannot be saved, the second one not be emitted. -/
def sampleUnnotified : List (AppAction sample) :=
  perform 0 6 (.createItem "EMP00101" sampleUnit) ++
    perform 1 10 (.createOrder "EMP00102" sampleOrder) ++ [.fault 1 ⟨none⟩] ++
    perform 2 14 sampleComplete ++ [.answer 2 (.rejected none)]

/-- The buyer is notified once, of the completed order, and the order is completed without failures
    too. -/
theorem order_notifications_sample : ∃ s n row acts' s',
    runs sample sampleUsers sampleUnnotified = some s ∧
    createdBy sample sampleUsers sampleUnnotified 1 = [] ∧
    createdBy sample sampleUsers sampleUnnotified 2 = [(n, row)] ∧ row.type = .orderCompleted ∧
    row.userId ≠ "EMP00101" ∧ runs sample sampleUsers acts' = some s' ∧
    (start sample sampleUsers).Undisturbed (notifications sample).On (program sample)
      (Action.Fails Answer.ok) acts' ∧
    (s'.db.orders.get 1).any (fun r => r.status = .completed) = true := by
  obtain ⟨s, hrun, hs⟩ : ∃ s, runs sample sampleUsers sampleUnnotified = some s ∧
      ((s.db.orders.get 1).any (fun r => r.status = .completed) && s.sessions[2]?.any fun x =>
        x.1.announces = some ("EMP00101", .orderCompleted) && x.2.reply?.any (·.isOk)) = true :=
    reaches (by decide +kernel)
  simp only [Bool.and_eq_true, Option.any_eq_true, decide_eq_true_eq] at hs
  obtain ⟨hdone, ⟨q, st⟩, hj, hq, r, hr, hok⟩ := hs
  obtain ⟨hnotified, hsame⟩ := order_notifications hrun
  obtain ⟨acts', s', hrun', -, hund, -, ho, -⟩ := hsame fun q hq => by
    simp only [sampleUnnotified, perform, List.mem_append, List.mem_cons, List.mem_replicate,
      List.not_mem_nil, Action.submit.injEq, reduceCtorEq, and_false, or_false] at hq
    rcases hq with (rfl | rfl) | rfl <;> rfl
  have hnot := hnotified 2 q st _ _ r hj hr hq
  cases r with
  | error => cases hok
  | ok r =>
    rcases hnot with ⟨hnil, -⟩ | ⟨n, row, o, order, hrow, htype, -, -, -, hne, -⟩
    · have hlen : (createdBy sample sampleUsers sampleUnnotified 2).length = 1 := by decide +kernel
      rw [hnil] at hlen
      cases hlen
    · refine ⟨s, n, row, acts', s', hrun, ?_, hrow, htype, hne, hrun', hund, ?_⟩
      · exact List.eq_nil_of_length_eq_zero (by decide +kernel)
      · rw [ho, Option.any_eq_true]
        simpa using hdone

end Marketplace
