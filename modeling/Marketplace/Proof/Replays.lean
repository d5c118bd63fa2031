/-
  The trades are what the code does when a request is made and no other one is.
-/
import Marketplace.Proof.Trades
import Marketplace.Proof.Responses
import Marketplace.Proof.Schema
import Mathlib.Data.Finset.Preimage
import Mathlib.Data.Fintype.EquivFin

namespace Marketplace

open ReadCommitted

variable {cfg : Config} {q : Request cfg} {d d' : Database} {g g' : Goods}

/-! ## Requests alone -/

/-- What a request leaves and answers when it is made alone. -/
abbrev Result := Database × (Serial → ℕ) × Except Thrown Response

/-- It leaves these goods, and it is answered. -/
def Succeeds (g : Goods) (out : Result) : Prop := out.1.goods = g ∧ out.2.2.isOk = true

section
variable {answers : Call → Answer} {now : ℕ} {seq : Serial → ℕ} {k : Program} {P : Result → Prop}

theorem eval_answer (r : Response) (d : Database) :
    Succeeds d.goods (Req.eval (S := market) answers now d seq (answer r)) := ⟨rfl, rfl⟩

theorem eval_sendToUser (u : String) (m : ℤ) (n : Notification)
    (hk : ∀ d' seq', d'.goods = d.goods → P (Req.eval (S := market) answers now d' seq' k)) :
    P (Req.eval (S := market) answers now d seq (PushService.sendToUser cfg u m n k)) := by
  unfold PushService.sendToUser
  split_ifs
  · exact hk d seq rfl
  · simp only [Req.eval, Tx.eval, overlay_nil]
    cases (d.users.get u).bind User.fcmToken with
    | none => exact hk d seq rfl
    | some token =>
      dsimp only
      split_ifs
      · exact hk d seq rfl
      · simp only [Req.eval]
        rcases answers (.fcm ⟨token, m, n⟩) with _ | _ | code
        · exact hk d seq rfl
        · exact hk d seq rfl
        · dsimp only
          split_ifs
          · simp only [Req.eval, Tx.eval, overlay_nil]
            cases Database.get d (.user u) with
            | none => exact hk d seq rfl
            | some r =>
              dsimp only
              split_ifs
              · exact hk _ seq rfl
              · exact hk d seq rfl
          · exact hk d seq rfl

theorem eval_notify (input : CreateNotificationInput)
    (hk : ∀ d' seq', d'.goods = d.goods → P (Req.eval (S := market) answers now d' seq' k)) :
    P (Req.eval (S := market) answers now d seq (NotificationsService.notify cfg input k)) := by
  simp only [NotificationsService.notify, Req.eval, Tx.eval, List.nil_append]
  split
  · exact eval_sendToUser _ _ _ fun d' seq' h => hk d' seq' h
  · exact hk _ _ rfl

theorem eval_findOneForUser {o : ℤ} {u : String} {r : Order} {k : OrderDetail → Program}
    (hr : d.orders.get o = some r) (hu : r.buyerId = u ∨ r.sellerId = u) :
    Req.eval (S := market) answers now d seq (OrdersService.findOneForUser o u k) =
      (k (OrdersService.detail d o r)).eval answers now d seq := by
  have hparty : ¬ ((OrdersService.detail d o r).order.buyerId ≠ u ∧
      (OrdersService.detail d o r).order.sellerId ≠ u) := by
    rintro ⟨hb, hs⟩
    rcases hu with hu | hu
    · exact hb hu
    · exact hs hu
  rw [OrdersService.findOneForUser, eval_query, hr]
  exact congrArg (Req.eval (S := market) answers now d seq) (if_neg hparty)

theorem eval_findOne {i : ℤ} {item : Item} (hi : d.items.get i = some item) :
    Succeeds d.goods (Req.eval (S := market) answers now d seq (ItemsService.findOne i)) := by
  rw [ItemsService.findOne, eval_query, hi]
  exact eval_answer _ d

end

/-! ## Trades alone -/

section
variable {answers : Call → Answer} {now : ℕ} {seq : Serial → ℕ} {o : ℤ} {u : String} {r : Order}
  {item : Item}

theorem eval_notifyParty (notify : OrderDetail → Program → Program) (hr : d.orders.get o = some r)
    (hu : r.buyerId = u ∨ r.sellerId = u) (hg : d.goods = g)
    (hnotify : ∀ x k (P : Result → Prop),
      (∀ d' seq', d'.goods = d.goods → P (k.eval answers now d' seq')) →
        P (Req.eval (S := market) answers now d seq (notify x k))) :
    Succeeds g (Req.eval (S := market) answers now d seq
      (OrdersService.findOneForUser o u fun x => notify x (answer (.order x)))) := by
  rw [eval_findOneForUser hr hu]
  refine hnotify _ _ _ fun d' seq' h => ?_
  rw [← hg, ← h]
  exact eval_answer _ d'

theorem eval_notifyOrderStatusChanged (x : OrderDetail) (k : Program) (P : Result → Prop)
    (hk : ∀ d' seq', d'.goods = d.goods → P (k.eval answers now d' seq')) :
    P (Req.eval (S := market) answers now d seq
      (NotificationsService.notifyOrderStatusChanged cfg x u k)) := by
  unfold NotificationsService.notifyOrderStatusChanged
  cases x.order.status with
  | pending => exact hk _ _ rfl
  | completed | cancelled => exact eval_notify _ hk

theorem eval_createItem {dto : CreateItemDto cfg} {price : ℤ} {n : ℕ}
    (hprice : ItemsService.resolvePrice dto.itemType dto.price = .ok price)
    (hurls : StorageService.assertManagedUrls cfg (dto.images.getD []).eraseDups = .ok ())
    (hn : seq .items = n) :
    Succeeds (d.goods.putItem n (ItemsService.newItem cfg u dto price (dto.images.getD []).eraseDups now))
      (Req.eval (S := market) answers now d seq (program cfg (.createItem u dto))) := by
  simp only [program, ItemsService.create, hprice, hurls, Req.eval, Tx.eval, List.nil_append]
  rw [← goods_put_item, ← hn]
  exact eval_findOne (Table.get_put d.items _ _)

theorem eval_updateItemStatus {i : ℤ} {status : ItemStatus} (hi : d.items.get i = some item)
    (hown : item.sellerId = u) (hne : item.status ≠ status) (hno : NoPending i d) :
    Succeeds (d.goods.putItem i { item with status })
      (Req.eval (S := market) answers now d seq (program cfg (.updateItemStatus i u status))) := by
  have hi₁ : Database.get d (.item i) = some item := hi
  have hany : (d.orders.rows.any fun x => x.2.itemId = i && x.2.status = .pending) = false := by
    rw [Bool.eq_false_iff]
    exact fun h => any_pending.1 h hno
  simp only [program, ItemsService.updateStatus, ItemsService.updateStatusTx, Req.eval, Tx.eval,
    overlay_nil, hi₁, hown, ne_eq, not_true_eq_false, if_false, hne, hany, Bool.false_eq_true,
    List.nil_append, if_true]
  rw [← goods_put_item]
  exact eval_findOne (Table.get_put d.items i _)

theorem eval_createOrder {dto : CreateOrderDto} {n : ℕ} (hi : d.items.get dto.itemId = some item)
    (hown : item.sellerId ≠ u) (ha : item.status = .available)
    (hstock : dto.quantity.getD 1 ≤ item.quantity) (hn : seq .orders = n) :
    Succeeds ((d.goods.putOrder n
        (OrdersService.newOrder u dto.itemId item (dto.quantity.getD 1) now)).putItem dto.itemId
          { item with status := .reserved })
      (Req.eval (S := market) answers now d seq (program cfg (.createOrder u dto))) := by
  have hi₁ : Database.get d (.item dto.itemId) = some item := hi
  have hle : ¬ dto.quantity.getD 1 > item.quantity := Int.not_lt.2 hstock
  have hput (r : Order) : Database.get (overlay (S := market) [⟨.order n, r⟩] d) (.item dto.itemId) =
      some item := hi₁
  subst hn
  simp only [program, OrdersService.create, OrdersService.createTx, Req.eval, Tx.eval, overlay_nil, hi₁,
    hown, if_false, ha, ne_eq, not_true_eq_false, hle, List.nil_append, Serial.key, hput, if_true,
    List.cons_append]
  refine eval_notifyParty _ (Table.get_put ..) (Or.inl rfl) ?_ fun x k P hk => eval_notify _ hk
  rw [← goods_put_order, ← goods_put_item]
  rfl

theorem eval_updateStatusTx {status : OrderStatus} (hr : d.orders.get o = some r)
    (hi : d.items.get r.itemId = some item) (hparty : r.sellerId = u ∨ r.buyerId = u)
    (hp : r.status = .pending) (hseller : status = .completed → r.sellerId = u) :
    Tx.eval (S := market) d now [] seq (OrdersService.updateStatusTx o u status) =
      Tx.eval (S := market) d now [] seq (OrdersService.resolveTx o r.itemId status r item) := by
  have hr' : Database.get d (.order o) = some r := hr
  have hi' : Database.get d (.item r.itemId) = some item := hi
  have h₁ : ¬ (r.sellerId ≠ u ∧ r.buyerId ≠ u) := by
    rintro ⟨hs, hb⟩
    rcases hparty with h | h
    · exact hs h
    · exact hb h
  have h₂ : ¬ (status = .completed ∧ r.sellerId ≠ u) := fun ⟨hc, hs⟩ => hs (hseller hc)
  unfold OrdersService.updateStatusTx
  simp only [Tx.eval, overlay_nil, hr, Option.map_some, hr', hi']
  rw [if_neg h₁, if_neg (not_not.2 hp), if_neg h₂]

theorem eval_complete {dto : UpdateOrderStatusDto} (hc : dto.status = .completed)
    (hr : d.orders.get o = some r) (hi : d.items.get r.itemId = some item) (hu : r.sellerId = u)
    (hp : r.status = .pending) :
    Succeeds ((d.goods.putOrder o { r with status := .completed }).putItem r.itemId
        { item with
          quantity := max (item.quantity - r.quantity) 0
          status := if max (item.quantity - r.quantity) 0 > 0 then .available else .sold })
      (Req.eval (S := market) answers now d seq (program cfg (.updateOrderStatus o u dto))) := by
  have hr₁ : Database.get d (.order o) = some r := hr
  have hput (r' : Order) : Database.get (overlay (S := market) [⟨.order o, r'⟩] d) (.item r.itemId) =
      some item := hi
  simp only [program, OrdersService.updateStatus, Req.eval,
    eval_updateStatusTx hr hi (Or.inl hu) hp fun _ => hu]
  simp only [OrdersService.resolveTx, hc, if_true, Tx.eval, overlay_nil, hr₁, List.nil_append, hput,
    List.cons_append]
  refine eval_notifyParty (fun x => NotificationsService.notifyOrderStatusChanged cfg x u)
    (Table.get_put ..) (Or.inr hu) ?_ eval_notifyOrderStatusChanged
  rw [← goods_put_order, ← goods_put_item]
  rfl

theorem eval_cancel {dto : UpdateOrderStatusDto} (hc : dto.status = .cancelled)
    (hr : d.orders.get o = some r) (hi : d.items.get r.itemId = some item)
    (hu : r.sellerId = u ∨ r.buyerId = u) (hp : r.status = .pending) :
    Succeeds (d.goods.cancelled o r item)
      (Req.eval (S := market) answers now d seq (program cfg (.updateOrderStatus o u dto))) := by
  have hr₁ : Database.get d (.order o) = some r := hr
  have hput (r' : Order) : Database.get (overlay (S := market) [⟨.order o, r'⟩] d) (.item r.itemId) =
      some item := hi
  have hseller : dto.status = .completed → r.sellerId = u := by
    rw [hc]
    intro h
    cases h
  -- the other party is told in any case
  have told (d' : Database) (hd : d'.goods = d.goods.cancelled o r item)
      (hr' : d'.orders.get o = some { r with status := .cancelled }) :
      Succeeds (d.goods.cancelled o r item) (Req.eval (S := market) answers now d' seq
        (OrdersService.findOneForUser o u fun x =>
          NotificationsService.notifyOrderStatusChanged cfg x u (answer (.order x)))) :=
    eval_notifyParty (fun x => NotificationsService.notifyOrderStatusChanged cfg x u) hr' hu.symm hd
      eval_notifyOrderStatusChanged
  simp only [program, OrdersService.updateStatus, Req.eval, eval_updateStatusTx hr hi hu hp hseller]
  simp only [OrdersService.resolveTx, hc, reduceCtorEq, if_false, Tx.eval, overlay_nil, hr₁, if_true,
    List.nil_append]
  by_cases hres : item.status = .reserved
  · simp only [hres, if_true, Tx.eval, hput, List.cons_append, List.nil_append]
    refine told _ ?_ (Table.get_put ..)
    rw [Goods.cancelled, if_pos hres, ← goods_put_order, ← goods_put_item]
    rfl
  · simp only [hres, if_false, Tx.eval]
    refine told _ ?_ (Table.get_put ..)
    rw [Goods.cancelled, if_neg hres, ← goods_put_order]
    rfl

theorem eval_attachPaymentSlip {dto : AttachPaymentSlipDto cfg}
    (hurl : StorageService.isManagedUrl cfg dto.paymentSlipUrl = true)
    (hr : d.orders.get o = some r) (hu : r.buyerId = u) (hp : r.status = .pending) :
    Succeeds (d.goods.putOrder o { r with paymentSlipUrl := some dto.paymentSlipUrl })
      (Req.eval (S := market) answers now d seq (program cfg (.attachPaymentSlip o u dto))) := by
  have hr₁ : Database.get d (.order o) = some r := hr
  have hurls : StorageService.assertManagedUrls cfg [dto.paymentSlipUrl] = .ok () :=
    (StorageService.assertManagedUrls_ok cfg).2 (by simpa using hurl)
  simp only [program, OrdersService.attachPaymentSlip, hurls, eval_query, hr]
  rw [if_neg fun h => h.1 hu, if_neg (not_not.2 hu), if_neg (not_not.2 hp), eval_update hr₁ rfl]
  refine eval_notifyParty _ (Table.get_put ..) (Or.inl hu) ?_ fun x k P hk => eval_notify _ hk
  rw [← goods_put_order]

end

/-! ## Requests one at a time -/

/-- Made when no other request is, and with new ids, the request is answered. -/
def MadeAlone (answers : Call → Answer) (q : Request cfg) (d d' : Database) : Prop :=
  ∃ now seq seq' r, (∀ t : Serial, d.get (t.key (seq t)) = none) ∧
    Req.eval (S := market) answers now d seq (program cfg q) = (d', seq', .ok r)

theorem exists_get_none {ρ : Type} (t : Table ℤ ρ) : ∃ n : ℕ, t.get n = none := by
  have hcast : Function.Injective ((↑) : ℕ → ℤ) := fun _ _ => Int.ofNat.inj
  obtain ⟨n, hn⟩ := Infinite.exists_notMem_finset (t.map.keys.toFinset.preimage _ hcast.injOn)
  refine ⟨n, AList.lookup_eq_none.2 fun h => hn ?_⟩
  rw [Finset.mem_preimage, List.mem_toFinset]
  exact h

theorem exists_seq (d : Database) : ∃ seq : Serial → ℕ, ∀ t : Serial, d.get (t.key (seq t)) = none := by
  have h (t : Serial) : ∃ n : ℕ, d.get (t.key n) = none := by
    cases t <;> exact exists_get_none _
  exact ⟨fun t => (h t).choose, fun t => (h t).choose_spec⟩

theorem update_seq {t : Serial} {n : ℕ} {seq : Serial → ℕ} (hseq : ∀ t : Serial, d.get (t.key (seq t)) = none)
    (hn : d.get (t.key n) = none) (t' : Serial) :
    d.get (t'.key (Function.update seq t n t')) = none := by
  by_cases h : t' = t
  · subst h
    rwa [Function.update_self]
  · rw [Function.update_of_ne h]
    exact hseq t'

/-- **A trade is made by the code.** -/
theorem Trade.madeAlone (answers : Call → Answer) (h : Trade q g g') (hg : d.goods = g) :
    ∃ d', MadeAlone answers q d d' ∧ d'.goods = g' := by
  obtain ⟨seq, hseq⟩ := exists_seq d
  have made (now : ℕ) (seq : Serial → ℕ) (hseq : ∀ t : Serial, d.get (t.key (seq t)) = none)
      (hs : Succeeds g' (Req.eval (S := market) answers now d seq (program cfg q))) :
      ∃ d', MadeAlone answers q d d' ∧ d'.goods = g' := by
    obtain ⟨hgoods, hok⟩ := hs
    generalize hout : Req.eval (S := market) answers now d seq (program cfg q) = out at hgoods hok
    obtain ⟨d', seq', x⟩ := out
    cases x with
    | error => cases hok
    | ok r => exact ⟨d', ⟨now, seq, seq', r, hseq, hout⟩, hgoods⟩
  subst hg
  cases h with
  | @createItem u dto price n now _ hprice hurls hn =>
    exact made now _ (update_seq (t := .items) hseq hn)
      (eval_createItem hprice hurls (Function.update_self ..))
  | updateItemStatus hi hown hne hno => exact made 0 seq hseq (eval_updateItemStatus hi hown hne hno)
  | @createOrder u dto item n now _ hi hown ha hle hn =>
    exact made now _ (update_seq (t := .orders) hseq hn)
      (eval_createOrder hi hown ha hle (Function.update_self ..))
  | complete hc hr hi hu hp => exact made 0 seq hseq (eval_complete hc hr hi hu hp)
  | cancel hc hr hi hu hp => exact made 0 seq hseq (eval_cancel hc hr hi hu hp)
  | attachPaymentSlip hurl hr hu hp => exact made 0 seq hseq (eval_attachPaymentSlip hurl hr hu hp)

end Marketplace
