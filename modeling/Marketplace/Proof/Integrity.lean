/-
  Which constraints of the schema the application keeps by itself.

  Every commit of an employee keeps every constraint but three: that the title
  and the place of an item fit their columns, of which the validation does not
  count all characters, that a total fits its column, and that no two employees
  have the same token.  Foreign keys hold because what they refer to has been
  read, or is the employee who makes the request, and is never removed.
-/
import Marketplace.Proof.Notices
import Marketplace.Proof.Schema
import Marketplace.Proof.Migrations

namespace Marketplace

open ReadCommitted InitialSchema

variable {cfg : Config} {base : Database → Prop} {q : Request cfg} {e : Event} {L : List Key}
  {d d' d₀ : Database}

/-! ## Constraints that are kept -/

/-- The tables of the first schema. -/
abbrev tables (d : Database) : InitialSchema.Database := (AddUserFcmToken.before d).initial

@[simp] theorem isSome_tables_users (u : String) :
    ((tables d).users.get u).isSome = (d.users.get u).isSome := by
  simp [tables, AddUserFcmToken.before, AddItemQuantity.Database.initial]

@[simp] theorem isSome_tables_items (i : ℤ) :
    ((tables d).items.get i).isSome = (d.items.get i).isSome := by
  simp [tables, AddUserFcmToken.before, AddItemQuantity.Database.initial]

/-- The constraints of an item but for the widths of its texts. -/
structure ItemIntact (d : InitialSchema.Database) (i : InitialSchema.Item) : Prop where
  FK_items_seller : (d.users.get i.sellerId).isSome
  CHK_items_price : 0 ≤ i.price
  price : i.price < 10 ^ 12

/-- The constraints but for the texts of items, the totals of orders and the tokens. -/
structure Intact (d : Database) : Prop where
  users : ∀ u r, d.users.get u = some r → UserColumns u (AddUserFcmToken.dropFcmToken r)
  items : ∀ i r, d.items.get i = some r → ItemIntact (tables d) (AddItemQuantity.dropQuantity r) ∧
    0 ≤ r.quantity ∧ r.quantity < 2 ^ 31
  orders : ∀ o r, d.orders.get o = some r → OrderColumns (tables d) r
  pending : ∀ o o' r r', d.orders.get o = some r → d.orders.get o' = some r' →
    r.status = .pending → r'.status = .pending → r.itemId = r'.itemId → o = o'
  messages : ∀ n m, d.messages.get n = some m → MessageColumns (tables d) m
  notifications : ∀ n r, d.notifications.get n = some r →
    AddNotifications.NotificationColumns (AddUserFcmToken.before d) r

/-- Titles and places fit their columns. -/
def TextsFit (d : Database) : Prop := ∀ i r, d.items.get i = some r →
  r.title.length ≤ 200 ∧ r.pickupLocation.length ≤ 150

/-- Every total fits its column. -/
def TotalsFit (d : Database) : Prop := ∀ o r, d.orders.get o = some r → r.totalAmount < 10 ^ 12

/-- No two employees have the same token. -/
def TokensUnique (d : Database) : Prop := ∀ u v r r' t, d.users.get u = some r →
  d.users.get v = some r' → r.fcmToken = some t → r'.fcmToken = some t → u = v

theorem constraints_iff :
    Constraints d ↔ Intact d ∧ TextsFit d ∧ TotalsFit d ∧ TokensUnique d := by
  constructor
  · rintro ⟨⟨⟨⟨hu, hi, ho, ht, hp, hm⟩, hstock, hquantity⟩, hn⟩, htoken⟩
    have columns {i : ℤ} {r : Item} (hr : d.items.get i = some r) :
        ItemColumns (tables d) (AddItemQuantity.dropQuantity r) :=
      hi i _ ((Table.get_alter ..).trans (by
        rw [show (AddUserFcmToken.before d).items.get i = some r from hr]; rfl))
    refine ⟨⟨fun u r hr => ?_, fun i r hr => ⟨?_, hstock i r hr, hquantity i r hr⟩, ho, hp, hm, hn⟩,
      fun i r hr => ⟨(columns hr).title, (columns hr).pickup_location⟩, ht, htoken⟩
    · exact hu u _ ((Table.get_alter ..).trans (by rw [hr]; rfl))
    · obtain ⟨hseller, -, hlow, hhigh, -⟩ := columns hr
      exact ⟨hseller, hlow, hhigh⟩
  · rintro ⟨⟨hu, hi, ho, hp, hm, hn⟩, hfit, ht, htoken⟩
    refine ⟨⟨⟨⟨fun u r hr => ?_, fun i r hr => ?_, ho, ht, hp, hm⟩, fun i r hr => (hi i r hr).2.1,
      fun i r hr => (hi i r hr).2.2⟩, hn⟩, htoken⟩
    · obtain ⟨r₀, hr₀, rfl⟩ := Option.map_eq_some_iff.1 ((Table.get_alter ..).symm.trans hr)
      exact hu u r₀ hr₀
    · obtain ⟨r₀, hr₀, rfl⟩ := Option.map_eq_some_iff.1 ((Table.get_alter ..).symm.trans hr)
      obtain ⟨hseller, hlow, hhigh⟩ := (hi i r₀ hr₀).1
      obtain ⟨htitle, hplace⟩ := hfit i r₀ hr₀
      exact ⟨hseller, htitle, hlow, hhigh, hplace⟩

/-! ## Old rows -/

/-- No key that a row can refer to is removed. -/
structure Grows (d d' : Database) : Prop where
  user : ∀ {u}, (d.users.get u).isSome → (d'.users.get u).isSome
  item : ∀ {i}, (d.items.get i).isSome → (d'.items.get i).isSome
  order : ∀ {o}, (d.orders.get o).isSome → (d'.orders.get o).isSome

theorem Follows.grows (hf : Follows d d') : Grows d d' := by
  constructor
  · intro u h
    obtain ⟨r, hr⟩ := Option.isSome_iff_exists.1 h
    obtain ⟨r', hr', -⟩ := hf.users u r hr
    exact Option.isSome_iff_exists.2 ⟨r', hr'⟩
  · intro i h
    obtain ⟨r, hr⟩ := Option.isSome_iff_exists.1 h
    obtain ⟨_, _, hr', -⟩ := hf.items i r hr
    exact Option.isSome_iff_exists.2 ⟨_, hr'⟩
  · intro o h
    obtain ⟨r, hr⟩ := Option.isSome_iff_exists.1 h
    obtain ⟨_, _, hr', -⟩ := hf.orders o r hr
    exact Option.isSome_iff_exists.2 ⟨_, hr'⟩

section
variable (hf : Grows d d')
include hf

theorem Grows.itemIntact {r : InitialSchema.Item} (h : ItemIntact (tables d) r) :
    ItemIntact (tables d') r := by
  have hs := h.FK_items_seller
  rw [isSome_tables_users] at hs
  refine { h with FK_items_seller := ?_ }
  rw [isSome_tables_users]
  exact hf.user hs

theorem Grows.orderColumns {r : Order} (h : OrderColumns (tables d) r) :
    OrderColumns (tables d') r := by
  have hi := h.FK_orders_item
  have hb := h.FK_orders_buyer
  have hs := h.FK_orders_seller
  rw [isSome_tables_items] at hi
  rw [isSome_tables_users] at hb hs
  refine { h with FK_orders_item := ?_, FK_orders_buyer := ?_, FK_orders_seller := ?_ }
  · rw [isSome_tables_items]; exact hf.item hi
  · rw [isSome_tables_users]; exact hf.user hb
  · rw [isSome_tables_users]; exact hf.user hs

theorem Grows.messageColumns {m : Message} (h : MessageColumns (tables d) m) :
    MessageColumns (tables d') m := by
  obtain ⟨hi, hs, hr⟩ := h
  rw [isSome_tables_items] at hi
  rw [isSome_tables_users] at hs hr
  refine ⟨?_, ?_, ?_⟩
  · rw [isSome_tables_items]; exact hf.item hi
  · rw [isSome_tables_users]; exact hf.user hs
  · rw [isSome_tables_users]; exact hf.user hr

theorem Grows.notificationColumns {n : Notification}
    (h : AddNotifications.NotificationColumns (AddUserFcmToken.before d) n) :
    AddNotifications.NotificationColumns (AddUserFcmToken.before d') n := by
  obtain ⟨hu, hi, ho, ht⟩ := h
  refine ⟨?_, fun i hn => hf.item (hi i hn), fun o hn => hf.order (ho o hn), ht⟩
  have hu : ((tables d).users.get n.userId).isSome := hu
  have goal : ((tables d').users.get n.userId).isSome := by
    rw [isSome_tables_users] at hu ⊢
    exact hf.user hu
  exact goal

end

/-! ## New rows -/

theorem CreateItemDto.quantity_le (dto : CreateItemDto cfg) : dto.quantity.getD 1 ≤ 10000 := by
  cases h : dto.quantity with
  | none => decide
  | some n => exact (dto.quantity_ok n h).2

theorem newItem_intact {u : String} {dto : CreateItemDto cfg} {price : ℤ} {images : List String}
    {now : ℕ} (hu : (d.users.get u).isSome)
    (hprice : ItemsService.resolvePrice dto.itemType dto.price = .ok price) :
    ItemIntact (tables d)
      (AddItemQuantity.dropQuantity (ItemsService.newItem cfg u dto price images now)) := by
  obtain ⟨hlow, hhigh⟩ := resolvePrice_range hprice
  refine ⟨?_, hlow, lt_of_le_of_lt hhigh (by decide)⟩
  rw [isSome_tables_users]
  exact hu

theorem newOrder_columns {u : String} {dto : CreateOrderDto} {item : Item} {now : ℕ} (h : Intact d)
    (hu : (d.users.get u).isSome) (hi : d.items.get dto.itemId = some item) (hown : item.sellerId ≠ u) :
    OrderColumns (tables d) (OrdersService.newOrder u dto.itemId item (dto.quantity.getD 1) now) := by
  obtain ⟨hone, hmax⟩ := dto.quantity_bounds
  have hitem : ItemIntact (tables d) (AddItemQuantity.dropQuantity item) := (h.items _ _ hi).1
  refine ⟨?_, ?_, hitem.FK_items_seller, hone, lt_of_le_of_lt hmax (by decide), ?_, Ne.symm hown⟩
  · rw [isSome_tables_items]
    exact Option.isSome_iff_exists.2 ⟨item, hi⟩
  · rw [isSome_tables_users]
    exact hu
  · exact Int.mul_nonneg hitem.CHK_items_price (le_trans (by decide) hone)

theorem Tells.columns {o : ℤ} {r : Order} {n : Notification} (h : Intact d) (ht : Tells d o r n) :
    AddNotifications.NotificationColumns (AddUserFcmToken.before d) n := by
  obtain ⟨hr, ho, hi, hsays⟩ := ht
  obtain ⟨hitem, hbuyer, hseller, -⟩ := h.orders o r hr
  have hsays : (n.userId = r.buyerId ∨ n.userId = r.sellerId) ∧ n.title.length ≤ 200 := by
    revert hsays
    unfold Says
    cases n.type with
    | orderPlaced | paymentSlipAttached =>
      rintro ⟨hu, ht, -⟩
      exact ⟨Or.inr hu, by rw [ht]; decide⟩
    | orderCompleted =>
      rintro ⟨-, hu, ht, -⟩
      exact ⟨Or.inl hu, by rw [ht]; decide⟩
    | orderCancelled =>
      rintro ⟨-, ht, hu⟩
      exact ⟨hu.imp And.left And.left, by rw [ht]; decide⟩
  refine ⟨?_, fun i hn => ?_, fun o' hn => ?_, hsays.2⟩
  · rcases hsays.1 with hu | hu
    · rw [hu]; exact hbuyer
    · rw [hu]; exact hseller
  · rw [hi] at hn; cases hn
    rw [isSome_tables_items] at hitem
    exact hitem
  · rw [ho] at hn; cases hn
    exact Option.isSome_iff_exists.2 ⟨r, hr⟩

/-! ## The receiver of a message -/

/-- The receiver of a message has been read. -/
def Addressed (l : List Database) : Write market → Prop
  | ⟨.message _, m⟩ => ∃ d ∈ l, (d.users.get m.receiverId).isSome
  | _ => True

theorem sendMessage_addressed (client : ChatSocket) (dto : SendMessageDto) :
    (program cfg (.sendMessage client dto)).Vouches Addressed [] := by
  simp only [program, ChatsGateway.sendMessage, ChatsService.createMessage]
  split_ifs
  · exact vouches_fail _
  · exact vouches_fail _
  · refine vouches_query fun d => ?_
    cases d.items.get dto.itemId with
    | none => exact vouches_fail _
    | some item =>
      dsimp only
      split
      · exact vouches_fail _
      · rename_i peer _
        refine vouches_query fun d' => ?_
        split_ifs with hpeer
        · refine ⟨fun now n => ⟨⟨d', List.mem_append_right _ (List.mem_singleton_self _), hpeer⟩, ?_⟩,
            fun _ _ => vouches_fail _⟩
          exact fun _ => vouches_answer _
        · exact vouches_fail _

/-! ## Along a run -/

theorem mem_writes {ws : List (Write market)} {k : Key} {r : Row k}
    (h : (overlay ws d : Database).get k = some r) (hn : d.get k = none) :
    (⟨k, r⟩ : Write market) ∈ ws := by
  by_cases hk : k ∈ ws.map Sigma.fst
  · obtain ⟨-, r', hr', hm⟩ := get_overlay_of_mem (S := market) hk d d
    rw [show Database.get (overlay (S := market) ws d) k = some r' from hr'] at h
    cases h
    exact hm
  · rw [show Database.get (overlay (S := market) ws d) k = d.get k from
      get_overlay_of_not_mem (S := market) hk d, hn] at h
    cases h

/-- **A commit of an employee keeps the constraints**, if a new message is for an employee and a new
    notification tells of an order. -/
theorem Intact.step (h₀ : Intact d₀) (h : Intact d) (hs : Sane d₀ d) (hs' : Sane d₀ d')
    (he : Emits cfg (Sane d₀) q e L d d') (hactor : ∀ u ∈ q.employee?, (d.users.get u).isSome)
    (hmessage : ∀ n m, d.messages.get n = none → d'.messages.get n = some m →
      (d.users.get m.receiverId).isSome)
    (hnotification : ∀ m n, q.notifies = true → e = .notify m n → ∃ o r, Tells d o r n) :
    Intact d' := by
  have hfollows : Follows d d' := he.follows hs
  have hf : Grows d d' := hfollows.grows
  constructor
  · intro u r hr
    obtain ⟨r₀, hr₀, hsame, hphone⟩ := hs'.employees.rows u r hr
    obtain ⟨hid, hname, hdepartment, hphone₀⟩ := h₀.users u r₀ hr₀
    refine ⟨hid, ?_, ?_, fun p hp => ?_⟩
    · exact (congrArg String.length hsame.fullName).trans_le hname
    · intro s hs
      have hs : s ∈ r.department := hs
      rw [hsame.department] at hs
      exact hdepartment s hs
    · rcases hphone p hp with hp | hp
      · exact hphone₀ p hp
      · exact hp
  · intro i r hr
    rcases he.item_origin hr with hold | ⟨u, dto, price, now, rfl, hprice, rfl⟩
    · obtain ⟨r₀, hr₀⟩ := Option.isSome_iff_exists.1 hold
      obtain ⟨_, _, hr', hq⟩ := hfollows.items i r₀ hr₀
      rw [hr] at hr'; cases hr'
      obtain ⟨hcols, -, hmax⟩ := h.items i r₀ hr₀
      exact ⟨hf.itemIntact ⟨hcols.1, hcols.2, hcols.3⟩, hs'.agreement.stock hr,
        lt_of_le_of_lt hq hmax⟩
    · refine ⟨hf.itemIntact (newItem_intact (hactor u rfl) hprice), hs'.agreement.stock hr, ?_⟩
      exact lt_of_le_of_lt dto.quantity_le (by decide)
  · intro o r hr
    rcases he.order_origin hr with hold | ⟨u, dto, item, now, rfl, hi, hown, rfl⟩
    · obtain ⟨r₀, hr₀⟩ := Option.isSome_iff_exists.1 hold
      obtain ⟨_, _, hr', -⟩ := hfollows.orders o r₀ hr₀
      rw [hr] at hr'; cases hr'
      have hcols := h.orders o r₀ hr₀
      exact hf.orderColumns ⟨hcols.1, hcols.2, hcols.3, hcols.4, hcols.5, hcols.6, hcols.7⟩
    · exact hf.orderColumns (newOrder_columns h (hactor u rfl) hi hown)
  · exact fun o o' r r' ho ho' hp hp' hi => hs'.agreement.unique ho ho' hp hp' hi
  · intro n m hm
    cases hn : d.messages.get n with
    | some m₀ =>
      obtain ⟨_, hm', -⟩ := hfollows.messages n m₀ hn
      rw [hm] at hm'; cases hm'
      obtain ⟨hi, hsender, hreceiver⟩ := h.messages n m₀ hn
      exact hf.messageColumns ⟨hi, hsender, hreceiver⟩
    | none =>
      rcases he.message_origin hm with hold | ⟨client, dto, rfl, hsender, hi⟩
      · rw [hn] at hold; cases hold
      · refine hf.messageColumns ⟨?_, ?_, ?_⟩
        · rw [isSome_tables_items]; exact hi
        · rw [isSome_tables_users, hsender]; exact hactor client.userId rfl
        · rw [isSome_tables_users]; exact hmessage n m hn hm
  · intro m n hn
    rcases he.notification_back hn with ⟨n₀, _, hn₀, rfl⟩ | ⟨hq, hnew⟩
    · obtain ⟨hu, hi, ho, ht⟩ := h.notifications m n₀ hn₀
      exact hf.notificationColumns ⟨hu, hi, ho, ht⟩
    · obtain ⟨o, r, ht⟩ := hnotification m n hq hnew
      exact hf.notificationColumns (ht.columns h)

section
variable {D : Deployment} {acts : List (AppAction cfg)} {s s' : AppState cfg}

theorem Intact.commit {as : List (AppAction cfg)} {i : ℕ} {st : Stage market} (hD : Constraints D.db)
    (hag : Agreement D.db) (hemployees : ∀ q u, .submit q ∈ acts → q.employee? = some u →
      (D.db.users.get u).isSome)
    (hc : D.Commits acts (.sane cfg D.db) as i q st e s s') (h : Intact s.db) : Intact s'.db := by
  have hemits : Emits cfg (Sane D.db) q e st.locks s.db s'.db := hc.emits
  have hbase : Sane D.db s.db := hc.base
  have written {k : Key} {r : Row k} (hn : s.db.get k = none) (hr : s'.db.get k = some r) :
      (⟨k, r⟩ : Write market) ∈ st.writes := by
    rw [hc.db] at hr
    exact mem_writes hr hn
  refine (constraints_iff.1 hD).1.step h hbase ((Regime.sane cfg D.db).keeps trivial hbase hemits)
    hemits (fun u hu => hbase.employees.kept u (hemployees q u hc.submitted hu))
    (fun n m hn hm => ?_) fun m n hq hnew => ?_
  · obtain ⟨client, dto, rfl⟩ : ∃ client dto, q = .sendMessage client dto := by
      rcases hemits.message_origin hm with hold | ⟨client, dto, rfl, -⟩
      · rw [hn] at hold; cases hold
      · exact ⟨client, dto, rfl⟩
    obtain ⟨d₁, hd₁, hr⟩ := hc.vouched (C := Addressed)
      (A := fun q => ∃ client dto, q = .sendMessage client dto)
      (by rintro _ ⟨client, dto, rfl⟩; exact sendMessage_addressed client dto) ⟨client, dto, rfl⟩ _
      (written (k := .message n) hn hm)
    exact Deployment.read_before (R := .sane cfg D.db) ⟨.refl _, hag⟩ (fun _ _ => trivial) hc.run hd₁
      (P := fun d => (d.users.get m.receiverId).isSome) hr fun _ _ _ _ _ _ he hu => he.user_kept hu
  · have hm : s.db.notifications.get m = none ∧ s'.db.notifications.get m = some n := by
      subst hnew
      generalize s'.db = d' at hemits
      cases hemits with
      | notify _ hn => exact ⟨hn, Table.get_put ..⟩
    exact new_tells hag hc.run hc.session (written (k := .notification m) hm.1 hm.2) hq

/-- What the application keeps itself. -/
theorem Deployment.intact (hD : Constraints D.db) (hag : Agreement D.db)
    (hemployees : ∀ q u, .submit q ∈ acts → q.employee? = some u → (D.db.users.get u).isSome)
    (hrun : D.runs cfg acts = some s) : Intact s.db :=
  Deployment.commits_keep (R := .sane cfg D.db) ⟨.refl _, hag⟩ (fun _ _ => trivial)
    (constraints_iff.1 hD).1 (fun _ _ _ _ _ _ _ hc h => h.commit hD hag hemployees hc) hrun

/-- **The application keeps the schema.**  In every state that the requests of existing employees
    reach from a database with all constraints whose orders and items agree, all constraints hold if and
    only if the titles and places of the items and the totals of the orders fit their columns and no two
    employees have the same token: only these are left to the database. -/
theorem integrity (hD : Constraints D.db) (hag : Agreement D.db)
    (hemployees : ∀ q u, .submit q ∈ acts → q.employee? = some u → (D.db.users.get u).isSome)
    (hrun : D.runs cfg acts = some s) :
    Constraints s.db ↔ TextsFit s.db ∧ TotalsFit s.db ∧ TokensUnique s.db := by
  rw [constraints_iff]
  exact and_iff_right (Deployment.intact hD hag hemployees hrun)

theorem sampleUsers_constraints : Constraints (.migrated sampleUsers) := by
  refine constraints_iff.2 ⟨⟨?_, ?_, ?_, ?_, ?_, ?_⟩, ?_, ?_, ?_⟩
  · have phone (s : String) (h : s.length ≤ 25) : ∀ p ∈ some s, p.length ≤ 25 := by
      rintro _ ⟨⟩
      exact h
    refine Table.forall_put ⟨by decide, by decide, by rintro _ ⟨⟩, phone _ (by decide)⟩ ?_
    exact Table.forall_put ⟨by decide, by decide, by rintro _ ⟨⟩, phone _ (by decide)⟩ (by simp)
  · rintro i r ⟨⟩
  · rintro o r ⟨⟩
  · rintro o o' r r' ⟨⟩
  · rintro n m ⟨⟩
  · rintro n r ⟨⟩
  · rintro i r ⟨⟩
  · rintro o r ⟨⟩
  · intro u v r r' t hr _ ht
    have hnone : r.fcmToken = none :=
      Table.forall_put (P := fun _ (r : User) => r.fcmToken = none) rfl
        (Table.forall_put rfl (by simp)) u r hr
    rw [hnone] at ht; cases ht

/-- An order and its notification. -/
theorem integrity_sample : ∃ s, (Deployment.migrated sampleUsers).runs sample sampleTold = some s ∧
    (s.db.notifications.get 1).isSome ∧ Constraints s.db := by
  obtain ⟨s, hrun, hs⟩ : ∃ s, runs sample sampleUsers sampleTold = some s ∧
      ((s.db.notifications.get 1).isSome &&
        (s.db.items.rows.all fun x => x.2.title.length ≤ 200 ∧ x.2.pickupLocation.length ≤ 150) &&
        (s.db.orders.rows.all fun x => x.2.totalAmount < 10 ^ 12) &&
        s.db.users.rows.all fun x => x.2.fcmToken = none) = true := reaches (by decide +kernel)
  simp only [Bool.and_eq_true, List.all_eq_true, decide_eq_true_eq] at hs
  obtain ⟨⟨⟨hn, hi⟩, ho⟩, hu⟩ := hs
  refine ⟨s, hrun, hn, (integrity (D := .migrated sampleUsers) sampleUsers_constraints
    (.migrated sampleUsers) (fun q u hq hu => ?_) hrun).2
    ⟨fun i r hr => hi (i, r) (Table.mem_rows.2 hr), fun o r hr => ?_, fun u v r r' t hr _ ht => ?_⟩⟩
  · simp only [sampleTold, perform, List.mem_append, List.mem_cons, List.mem_replicate,
      Action.submit.injEq, reduceCtorEq, and_false, or_false] at hq
    rcases hq with rfl | rfl <;> cases hu <;> rfl
  · exact ho (o, r) (Table.mem_rows.2 hr)
  · have hnone : r.fcmToken = none := hu (u, r) (Table.mem_rows.2 hr)
    rw [hnone] at ht; cases ht

end

end Marketplace
