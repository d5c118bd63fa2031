/-
  The market without its interleavings: what its requests do to items and
  orders when they are made one at a time.
-/
import Marketplace.Proof.Agreement
import Marketplace.Lib.Turns

namespace Marketplace

open ReadCommitted

variable {cfg : Config} {base : Database → Prop} {q : Request cfg} {e : Event} {L : List Key}
  {d d' : Database}

/-- The items and orders. -/
@[ext] structure Goods where
  items : ℤ → Option Item
  orders : ℤ → Option Order

def Database.goods (d : Database) : Goods := ⟨d.items.get, d.orders.get⟩

namespace Goods

variable (g : Goods)

def putItem (i : ℤ) (x : Item) : Goods := { g with items := Function.update g.items i (some x) }

def putOrder (o : ℤ) (r : Order) : Goods := { g with orders := Function.update g.orders o (some r) }

/-- The goods after an order on `item` has been cancelled. -/
def cancelled (o : ℤ) (r : Order) (item : Item) : Goods :=
  let g₁ := g.putOrder o { r with status := .cancelled }
  if item.status = .reserved then g₁.putItem r.itemId { item with status := .available } else g₁

@[simp] theorem items_putItem (i : ℤ) (x : Item) (k : ℤ) :
    (g.putItem i x).items k = if k = i then some x else g.items k := Function.update_apply ..

@[simp] theorem orders_putItem (i : ℤ) (x : Item) : (g.putItem i x).orders = g.orders := rfl

@[simp] theorem items_putOrder (o : ℤ) (r : Order) : (g.putOrder o r).items = g.items := rfl

@[simp] theorem orders_putOrder (o : ℤ) (r : Order) (k : ℤ) :
    (g.putOrder o r).orders k = if k = o then some r else g.orders k := Function.update_apply ..

theorem putOrder_self {o : ℤ} {r : Order} (h : g.orders o = some r) : g.putOrder o r = g := by
  rw [putOrder, ← h, Function.update_eq_self]

end Goods

@[simp] theorem goods_put_item (i : ℤ) (x : Item) : (d.put (.item i) x).goods = d.goods.putItem i x := by
  ext1
  · funext k
    rw [Goods.items_putItem]
    exact Table.get_put_eq ..
  · rfl

@[simp] theorem goods_put_order (o : ℤ) (r : Order) :
    (d.put (.order o) r).goods = d.goods.putOrder o r := by
  ext1
  · rfl
  · funext k
    rw [Goods.orders_putOrder]
    exact Table.get_put_eq ..

theorem goods_cancelled (o : ℤ) (r : Order) (item : Item) :
    (cancelled d o r item).goods = d.goods.cancelled o r item := by
  unfold cancelled Goods.cancelled
  split_ifs
  · rw [goods_put_item, goods_put_order]
  · rw [goods_put_order]

/-- A request changes items or orders, made when no other one is. -/
inductive Trade : Request cfg → Goods → Goods → Prop
  | createItem {u dto price} {n now : ℕ} {g : Goods} :
    ItemsService.resolvePrice dto.itemType dto.price = .ok price →
    StorageService.assertManagedUrls cfg (dto.images.getD []).eraseDups = .ok () →
    g.items n = none →
    Trade (.createItem u dto) g (g.putItem n
      (ItemsService.newItem cfg u dto price (dto.images.getD []).eraseDups now))
  | updateItemStatus {i u status item} {g : Goods} :
    g.items i = some item → item.sellerId = u → item.status ≠ status →
    (∀ o r, g.orders o = some r → r.itemId = i → r.status ≠ .pending) →
    Trade (.updateItemStatus i u status) g (g.putItem i { item with status })
  | createOrder {u} {dto : CreateOrderDto} {item} {n now : ℕ} {g : Goods} :
    g.items dto.itemId = some item → item.sellerId ≠ u → item.status = .available →
    dto.quantity.getD 1 ≤ item.quantity → g.orders n = none →
    Trade (.createOrder u dto) g
      ((g.putOrder n (OrdersService.newOrder u dto.itemId item (dto.quantity.getD 1) now)).putItem
        dto.itemId { item with status := .reserved })
  | complete {o u} {dto : UpdateOrderStatusDto} {r item} {g : Goods} :
    dto.status = .completed → g.orders o = some r → g.items r.itemId = some item → r.sellerId = u →
    r.status = .pending →
    Trade (.updateOrderStatus o u dto) g
      ((g.putOrder o { r with status := .completed }).putItem r.itemId
        { item with
          quantity := max (item.quantity - r.quantity) 0
          status := if max (item.quantity - r.quantity) 0 > 0 then .available else .sold })
  | cancel {o u} {dto : UpdateOrderStatusDto} {r item} {g : Goods} :
    dto.status = .cancelled → g.orders o = some r → g.items r.itemId = some item →
    r.sellerId = u ∨ r.buyerId = u → r.status = .pending →
    Trade (.updateOrderStatus o u dto) g (g.cancelled o r item)
  | attachPaymentSlip {o u} {dto : AttachPaymentSlipDto cfg} {r} {g : Goods} :
    StorageService.isManagedUrl cfg dto.paymentSlipUrl = true → g.orders o = some r → r.buyerId = u →
    r.status = .pending →
    Trade (.attachPaymentSlip o u dto) g
      (g.putOrder o { r with paymentSlipUrl := some dto.paymentSlipUrl })

/-! ## Events are trades -/

/-- The ids of the items and orders that are new come from their sequences. -/
def NumbersNew (d d' : Database) : Prop :=
  (∀ i, d.items.get i = none → (d'.items.get i).isSome → 0 ≤ i) ∧
  ∀ o, d.orders.get o = none → (d'.orders.get o).isSome → 0 ≤ o

/-- A slip is for an order that is PENDING. -/
def SlipInTime (q : Request cfg) (d : Database) : Prop :=
  ∀ o u dto r, q = .attachPaymentSlip o u dto → d.orders.get o = some r → r.status = .pending

/-- **An event of the market is a trade**, a payment slip apart that comes too late. -/
theorem Emits.trade (he : Emits cfg base q e L d d') (htrades : e.trades = true)
    (hnew : NumbersNew d d') (hslip : SlipInTime q d) : Trade q d.goods d'.goods := by
  cases he with
  | @listItem u dto price n now _ _ hprice hurls hn =>
    obtain ⟨m, rfl⟩ := Int.eq_ofNat_of_zero_le
      (hnew.1 n hn (Option.isSome_iff_exists.2 ⟨_, Table.get_put ..⟩))
    rw [goods_put_item]
    exact .createItem hprice hurls hn
  | setItemStatus hi hown hne hno _ =>
    rw [goods_put_item]
    exact .updateItemStatus hi hown hne hno
  | @placeOrder u dto item n now _ _ hi hown ha hle hn _ =>
    obtain ⟨m, rfl⟩ := Int.eq_ofNat_of_zero_le
      (hnew.2 n hn (Option.isSome_iff_exists.2 ⟨_, Table.get_put ..⟩))
    rw [goods_put_item, goods_put_order]
    exact .createOrder hi hown ha hle hn
  | completeOrder hc hr hi hu hp _ _ =>
    rw [goods_put_item, goods_put_order]
    exact .complete hc hr hi hu hp
  | cancelOrder hc hr hi hu hp _ _ =>
    rw [goods_cancelled]
    exact .cancel hc hr hi hu hp
  | attachSlip hurl hr hu _ =>
    rw [goods_put_order]
    exact .attachPaymentSlip hurl hr hu (hslip _ _ _ _ rfl hr)
  | saveProfile | sendMessage | readMessages | notify | readNotifications | claimToken | clearToken
  | forgetToken => cases htrades

/-! ## Another payment slip -/

/-- The row of order `k` if `slip` is that of order `o`. -/
def Order.reslip (o : ℤ) (slip : String) (k : ℤ) (r : Order) : Order :=
  if k = o then { r with paymentSlipUrl := some slip } else r

def Goods.reslip (g : Goods) (o : ℤ) (slip : String) : Goods :=
  { g with orders := fun k => (g.orders k).map (Order.reslip o slip k) }

section
variable {o k : ℤ} {slip : String} {r : Order} {g g' : Goods}

theorem Order.reslip_eq (o : ℤ) (slip : String) (k : ℤ) (r : Order) :
    ∃ url, r.reslip o slip k = { r with paymentSlipUrl := url } := by
  unfold Order.reslip
  split_ifs
  · exact ⟨_, rfl⟩
  · exact ⟨r.paymentSlipUrl, rfl⟩

@[simp] theorem Order.reslip_status (x : OrderStatus) :
    { r.reslip o slip k with status := x } = Order.reslip o slip k { r with status := x } := by
  unfold Order.reslip
  split_ifs <;> rfl

theorem Goods.reslip_putOrder (k : ℤ) (r : Order) :
    (g.putOrder k r).reslip o slip = (g.reslip o slip).putOrder k (r.reslip o slip k) := by
  ext1
  · rfl
  · funext k'
    simp only [Goods.reslip, Goods.orders_putOrder]
    split_ifs with hk
    · rw [hk]; rfl
    · rfl

theorem Goods.reslip_putItem (i : ℤ) (x : Item) :
    (g.putItem i x).reslip o slip = (g.reslip o slip).putItem i x := rfl

theorem Goods.reslip_eq (hr : g.orders o = some r) :
    g.reslip o slip = g.putOrder o { r with paymentSlipUrl := some slip } := by
  ext1
  · rfl
  · funext k
    simp only [Goods.reslip, Goods.orders_putOrder]
    split_ifs with hk
    · rw [hk, hr]
      exact congrArg some (if_pos rfl)
    · rw [show Order.reslip o slip k = id from funext fun _ => if_neg hk, Option.map_id_fun, id]

theorem Goods.orders_reslip (h : g.orders k = some r) :
    (g.reslip o slip).orders k = some (r.reslip o slip k) := congrArg (Option.map _) h

/-- **A trade does to the goods with another payment slip what it does to those without**, unless it
    attaches one itself or places the order. -/
theorem Trade.reslip (h : Trade q g g') (hr : (g.orders o).isSome)
    (hq : ∀ u dto, q ≠ .attachPaymentSlip o u dto) :
    Trade q (g.reslip o slip) (g'.reslip o slip) := by
  have same (k : ℤ) (r : Order) : ∃ url, r.reslip o slip k = { r with paymentSlipUrl := url } :=
    Order.reslip_eq o slip k r
  cases h with
  | createItem hprice hurls hn => exact .createItem hprice hurls hn
  | @updateItemStatus i u status item _ hi hown hne hno =>
    refine .updateItemStatus hi hown hne fun k r' hr' hitem => ?_
    obtain ⟨r, hr, rfl⟩ := Option.map_eq_some_iff.1 hr'
    obtain ⟨url, hsame⟩ := same k r
    rw [hsame] at hitem ⊢
    exact hno k r hr hitem
  | @createOrder u dto item n now _ hi hown ha hle hn =>
    have hne : (n : ℤ) ≠ o := by
      rintro rfl
      rw [hn] at hr
      cases hr
    rw [Goods.reslip_putItem, Goods.reslip_putOrder, Order.reslip, if_neg hne]
    exact .createOrder hi hown ha hle (congrArg (Option.map _) hn)
  | @complete k u dto r item _ hc hk hi hu hp =>
    obtain ⟨url, hsame⟩ := same k r
    have h : Trade (.updateOrderStatus k u dto : Request cfg) (g.reslip o slip) _ :=
      .complete hc (Goods.orders_reslip hk) (by rw [hsame]; exact hi) (by rw [hsame]; exact hu)
        (by rw [hsame]; exact hp)
    rw [Goods.reslip_putItem, Goods.reslip_putOrder, ← Order.reslip_status]
    rw [hsame] at h ⊢
    exact h
  | @cancel k u dto r item _ hc hk hi hu hp =>
    obtain ⟨url, hsame⟩ := same k r
    have h : Trade (.updateOrderStatus k u dto : Request cfg) (g.reslip o slip) _ :=
      .cancel hc (Goods.orders_reslip hk) (by rw [hsame]; exact hi) (by rw [hsame]; exact hu)
        (by rw [hsame]; exact hp)
    have hcancelled : (g.cancelled k r item).reslip o slip =
        (g.reslip o slip).cancelled k (r.reslip o slip k) item := by
      unfold Goods.cancelled
      rw [Order.reslip_status]
      split_ifs
      · rw [Goods.reslip_putItem, Goods.reslip_putOrder, hsame]
      · rw [Goods.reslip_putOrder]
    rw [hcancelled]
    exact h
  | @attachPaymentSlip k u dto r _ hurl hk hu hp =>
    have hne : k ≠ o := by
      rintro rfl
      exact hq u dto rfl
    rw [Goods.reslip_putOrder, Order.reslip, if_neg hne]
    refine .attachPaymentSlip hurl ?_ hu hp
    rw [Goods.orders_reslip hk, Order.reslip, if_neg hne]

end

/-! ## Slips that come too late -/

/-- The order is PENDING, or there is none yet. -/
def Goods.Open (o : ℤ) (g : Goods) : Prop := ∀ r, g.orders o = some r → r.status = .pending

/-- A slip for an order of the buyer, whatever has become of it. -/
def Slips (o : ℤ) (u slip : String) (g g' : Goods) : Prop :=
  (∃ r, g.orders o = some r ∧ r.buyerId = u) ∧ g' = g.reslip o slip

section
variable {o : ℤ} {u slip : String} {g g' g₁ : Goods}

theorem Slips.trade {dto : AttachPaymentSlipDto cfg}
    (hurl : StorageService.isManagedUrl cfg dto.paymentSlipUrl = true) (hopen : g.Open o)
    (h : Slips o u dto.paymentSlipUrl g g') : Trade (.attachPaymentSlip o u dto) g g' := by
  obtain ⟨⟨r, hr, hu⟩, rfl⟩ := h
  rw [Goods.reslip_eq hr]
  exact .attachPaymentSlip hurl hr hu (hopen r hr)

theorem Trade.order_back (h : Trade q g g') (hopen : ¬ g'.Open o) {r' : Order}
    (hr' : g'.orders o = some r') : ∃ r, g.orders o = some r ∧ r.buyerId = r'.buyerId := by
  have put {k : ℤ} {r r₁ : Order} (h₁ : (g.putOrder k r₁).orders o = some r')
      (hr : g.orders k = some r) (hb : r.buyerId = r₁.buyerId) :
      ∃ r, g.orders o = some r ∧ r.buyerId = r'.buyerId := by
    rw [Goods.orders_putOrder] at h₁
    split_ifs at h₁ with hk
    · cases h₁; exact ⟨r, hk ▸ hr, hb⟩
    · exact ⟨r', h₁, rfl⟩
  cases h with
  | createItem | updateItemStatus => exact ⟨r', hr', rfl⟩
  | createOrder =>
    simp only [Goods.Open, Goods.orders_putItem, Goods.orders_putOrder] at hopen hr'
    split_ifs at hopen hr' with hk
    · refine absurd (fun r h => ?_) hopen
      cases h; rfl
    · exact ⟨r', hr', rfl⟩
  | complete _ hr => exact put hr' hr rfl
  | cancel _ hr =>
    unfold Goods.cancelled at hr'
    split_ifs at hr' <;> exact put hr' hr rfl
  | attachPaymentSlip _ hr => exact put hr' hr rfl

/-- Such a slip goes before a trade that leaves the order resolved. -/
theorem Slips.before (h : Trade q g g') (hopen : ¬ g'.Open o) (hslip : Slips o u slip g' g₁) :
    ∃ g₀, Slips o u slip g g₀ ∧ Trade q g₀ g₁ := by
  obtain ⟨⟨r', hr', hu⟩, rfl⟩ := hslip
  obtain ⟨r, hr, hb⟩ := h.order_back hopen hr'
  refine ⟨g.reslip o slip, ⟨⟨r, hr, hb.trans hu⟩, rfl⟩, h.reslip (by rw [hr]; rfl) ?_⟩
  rintro v dto rfl
  cases h with
  | attachPaymentSlip _ hr₁ _ hp =>
    refine hopen fun r₁ h₁ => ?_
    rw [Goods.orders_putOrder, if_pos rfl] at h₁
    cases h₁
    exact hp

/-- **The slips that come too late can be taken back to before their order was resolved.** -/
theorem turns_slip {dto : AttachPaymentSlipDto cfg} {qs : List (Request cfg)}
    (hurl : StorageService.isManagedUrl cfg dto.paymentSlipUrl = true) (h : Turns Trade g qs g')
    (hopen : g.Open o) (hlate : ¬ g'.Open o) (hslip : Slips o u dto.paymentSlipUrl g' g₁) :
    ∃ l₁ l₂, qs = l₁ ++ l₂ ∧ Turns Trade g (l₁ ++ .attachPaymentSlip o u dto :: l₂) g₁ :=
  h.insert (fun _ _ ho hs => hs.trade hurl ho) (fun _ _ _ _ hst ho hs => hs.before hst ho) hopen hlate
    hslip

end

end Marketplace
