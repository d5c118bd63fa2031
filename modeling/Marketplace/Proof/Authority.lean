/-
  Who may change what.

  `Permitted` is the policy: the changes that a request of an employee may make
  to the rows of each table.  Every event keeps to it, so every step of a run
  does, and a server makes these changes for employees who have logged in.
-/
import Marketplace.Proof.Authentication
import Marketplace.Proof.History
import Marketplace.Proof.OrderNotifications

namespace Marketplace

open ReadCommitted

variable {cfg : Config}

/-! ## The policy -/

section
variable (u : String)

/-- A buyer places an order and attaches a payment slip, a seller completes an order, and both cancel
    it. -/
inductive OrderChange : Option Order → Order → Prop
  | place {r : Order} : r.buyerId = u → r.status = .pending → OrderChange none r
  | attach {r : Order} (url : String) : r.buyerId = u →
    OrderChange (some r) { r with paymentSlipUrl := some url }
  | complete {r : Order} : r.sellerId = u → r.status = .pending →
    OrderChange (some r) { r with status := .completed }
  | cancel {r : Order} : r.sellerId = u ∨ r.buyerId = u → r.status = .pending →
    OrderChange (some r) { r with status := .cancelled }

/-- A seller lists an item, and sets its status while no order on it is pending; else the item changes
    with an order on it that the employee places, completes or cancels in the same step. -/
inductive ItemChange (d d' : Database) (i : ℤ) : Option Item → Item → Prop
  | list {item : Item} : item.sellerId = u → ItemChange d d' i none item
  | setStatus {item : Item} (status : ItemStatus) : item.sellerId = u → NoPending i d →
    ItemChange d d' i (some item) { item with status }
  | place {item : Item} {o : ℤ} {r : Order} : item.status = .available →
    d.orders.get o = none → d'.orders.get o = some r → r.itemId = i →
    r.buyerId = u → r.status = .pending → r.quantity ≤ item.quantity →
    ItemChange d d' i (some item) { item with status := .reserved }
  | complete {item : Item} {o : ℤ} {r : Order} : d.orders.get o = some r → r.itemId = i →
    r.sellerId = u → r.status = .pending →
    d'.orders.get o = some { r with status := .completed } →
    ItemChange d d' i (some item)
      { item with
        quantity := max (item.quantity - r.quantity) 0
        status := if max (item.quantity - r.quantity) 0 > 0 then .available else .sold }
  | cancel {item : Item} {o : ℤ} {r : Order} : d.orders.get o = some r → r.itemId = i →
    r.sellerId = u ∨ r.buyerId = u → r.status = .pending →
    d'.orders.get o = some { r with status := .cancelled } → item.status = .reserved →
    ItemChange d d' i (some item) { item with status := .available }

/-- A sender sends a message, and the receiver reads it. -/
inductive MessageChange : Option Message → Message → Prop
  | send {m : Message} : m.senderId = u → MessageChange none m
  | read {m : Message} : m.receiverId = u → MessageChange (some m) { m with isRead := true }

/-- A party of an order notifies the other, who reads it. -/
inductive NotificationChange (d' : Database) : Option Notification → Notification → Prop
  | notify {n : Notification} {o : ℤ} {r : Order} : n.orderId = some o →
    d'.orders.get o = some r → counterpart r u = some n.userId → NotificationChange d' none n
  | read {n : Notification} : n.userId = u → NotificationChange d' (some n) { n with isRead := true }

/-- An employee sets the number, the URL and the token, but no name or department.  A token goes to
    the employee who registers it, and it is removed after a push to it. -/
inductive UserChange (d' : Database) (pushed : String → String → Prop) (v : String) :
    User → User → Prop
  | own {r r' : User} : v = u → SameEmployee r r' → UserChange d' pushed v r r'
  | claim {r r' : User} {token : String} : r.fcmToken = some token → d'.users.get u = some r' →
    r'.fcmToken = some token → UserChange d' pushed v r { r with fcmToken := none }
  | forget {r : User} {token : String} : r.fcmToken = some token → pushed v token →
    UserChange d' pushed v r { r with fcmToken := none }

/-- The database changes as the employee may change it; `pushed` are the employees and tokens that the
    request has sent a push to. -/
structure Permitted (pushed : String → String → Prop) (d d' : Database) : Prop where
  orders : ∀ o, d'.orders.get o = d.orders.get o ∨
    ∃ r, d'.orders.get o = some r ∧ OrderChange u (d.orders.get o) r
  items : ∀ i, d'.items.get i = d.items.get i ∨
    ∃ item, d'.items.get i = some item ∧ ItemChange u d d' i (d.items.get i) item
  messages : ∀ n, d'.messages.get n = d.messages.get n ∨
    ∃ m, d'.messages.get n = some m ∧ MessageChange u (d.messages.get n) m
  notifications : ∀ n, d'.notifications.get n = d.notifications.get n ∨
    ∃ r, d'.notifications.get n = some r ∧ NotificationChange u d' (d.notifications.get n) r
  users : ∀ v, d'.users.get v = d.users.get v ∨
    ∃ r r', d.users.get v = some r ∧ d'.users.get v = some r' ∧ UserChange u d' pushed v r r'

end

/-! ## Events -/

section
variable {base : Database → Prop} {q : Request cfg} {e : Event} {L : List Key} {d d' : Database}
  {u : String}

theorem Request.employee?_of_announces {t : NotificationType} (h : q.announces = some (u, t)) :
    q.employee? = some u := by
  cases q <;> first
    | exact congrArg (Option.map Prod.fst) h
    | cases h

theorem Emits.employee (he : Emits cfg base q e L d d') : ∃ u, q.employee? = some u := by
  cases he with
  | listItem | setItemStatus | placeOrder | completeOrder | cancelOrder | attachSlip | saveProfile
  | sendMessage | claimToken | clearToken => exact ⟨_, rfl⟩
  | notify hq | forgetToken hq => cases q <;> first | exact ⟨_, rfl⟩ | cases hq
  | readMessages hq =>
    rcases Request.conversation?_user hq with ⟨dto, rfl⟩ | ⟨client, dto, rfl, -⟩ <;> exact ⟨_, rfl⟩
  | readNotifications hq => rcases hq with ⟨n, rfl⟩ | rfl <;> exact ⟨_, rfl⟩

variable (he : Emits cfg base q e L d d') (hu : q.employee? = some u)
include he hu

theorem Emits.order_change (o : ℤ) : d'.orders.get o = d.orders.get o ∨
    ∃ r, d'.orders.get o = some r ∧ OrderChange u (d.orders.get o) r := by
  cases ho : d.orders.get o with
  | none =>
    cases ho' : d'.orders.get o with
    | none => exact Or.inl rfl
    | some r =>
      rcases he.order_origin ho' with hold | ⟨buyerId, dto, item, now, rfl, -, -, rfl⟩
      · rw [ho] at hold; cases hold
      · cases hu
        exact Or.inr ⟨_, rfl, .place rfl rfl⟩
  | some r =>
    rcases he.order_cases ho with h | ⟨v, dto, rfl, -, hp, hparty, h⟩ | ⟨v, dto, rfl, hb, -, h⟩
    · exact Or.inl h
    · cases hu
      refine Or.inr ⟨_, h, ?_⟩
      rcases dto.status_in with hs | hs
      · rw [hs] at hparty ⊢
        exact .complete (hparty.resolve_right fun hc => by cases hc.1) hp
      · rw [hs]
        exact .cancel (hparty.imp_right And.right) hp
    · cases hu
      exact Or.inr ⟨_, h, .attach _ hb⟩

theorem Emits.item_change (i : ℤ) : d'.items.get i = d.items.get i ∨
    ∃ item, d'.items.get i = some item ∧ ItemChange u d d' i (d.items.get i) item := by
  have put {i' : ℤ} {item : Item} (h : i = i' → ItemChange u d d' i (d.items.get i) item) :
      (d.items.put i' item).get i = d.items.get i ∨
        ∃ item', (d.items.put i' item).get i = some item' ∧
          ItemChange u d d' i (d.items.get i) item' := by
    rw [Table.get_put_eq]
    split_ifs with hi
    · exact Or.inr ⟨item, rfl, h hi⟩
    · exact Or.inl rfl
  cases he with
  | attachSlip | saveProfile | sendMessage | notify | clearToken | forgetToken => exact Or.inl rfl
  | claimToken hc => obtain ⟨t, rfl⟩ := hc.frame; exact Or.inl rfl
  | readMessages _ hr => obtain ⟨t, rfl⟩ := hr.frame; exact Or.inl rfl
  | readNotifications _ hr => obtain ⟨t, rfl⟩ := hr.frame; exact Or.inl rfl
  | listItem _ _ hn =>
    cases hu
    exact put fun hi => by rw [hi, hn]; exact .list rfl
  | setItemStatus hitem hseller _ hpending =>
    cases hu
    exact put fun hi => by rw [hi, hitem]; exact .setStatus _ hseller hpending
  | placeOrder hitem _ hs hq hn =>
    cases hu
    refine put fun hi => ?_
    rw [hi, hitem]
    exact .place hs hn (Table.get_put ..) rfl rfl rfl hq
  | completeOrder _ ho hitem hseller hp =>
    cases hu
    refine put fun hi => ?_
    rw [hi, hitem]
    exact .complete ho rfl hseller hp (Table.get_put ..)
  | @cancelOrder o _ _ order item _ _ _ ho hitem hparty hp =>
    cases hu
    have hr : (cancelled d o order item).orders.get o = some { order with status := .cancelled } := by
      rw [cancelled_orders, Table.get_put]
    rw [cancelled_items]
    split_ifs with hc
    · refine Or.inr ⟨_, rfl, ?_⟩
      rw [hc.1, hitem]
      exact .cancel ho rfl hparty hp hr hc.2
    · exact Or.inl rfl

theorem Emits.message_change (n : ℤ) : d'.messages.get n = d.messages.get n ∨
    ∃ m, d'.messages.get n = some m ∧ MessageChange u (d.messages.get n) m := by
  cases hn : d.messages.get n with
  | none =>
    cases hn' : d'.messages.get n with
    | none => exact Or.inl rfl
    | some m =>
      rcases he.message_origin hn' with hold | ⟨client, dto, rfl, hs, -⟩
      · rw [hn] at hold; cases hold
      · cases hu
        exact Or.inr ⟨m, rfl, .send hs⟩
  | some m =>
    rcases he.message_cases hn with h | ⟨-, hq, h⟩
    · exact Or.inl h
    · refine Or.inr ⟨_, h, .read ?_⟩
      rcases Request.conversation?_user hq with ⟨dto, rfl⟩ | ⟨client, dto, rfl, hclient⟩
      · exact Option.some.inj hu
      · exact hclient.symm.trans (Option.some.inj hu)

theorem Emits.notification_change (n : ℤ) : d'.notifications.get n = d.notifications.get n ∨
    ∃ r, d'.notifications.get n = some r ∧ NotificationChange u d' (d.notifications.get n) r := by
  cases hn : d.notifications.get n with
  | none =>
    cases hn' : d'.notifications.get n with
    | none => exact Or.inl rfl
    | some r =>
      rcases he.notification_origin hn' with hold | ⟨-, rfl⟩
      · rw [hn] at hold; cases hold
      · obtain ⟨v, o, order, hq, ho, horder, hparty⟩ := he.announces
        obtain rfl := Option.some.inj ((Request.employee?_of_announces hq).symm.trans hu)
        exact Or.inr ⟨r, rfl, .notify ho horder hparty⟩
  | some r =>
    rcases he.notification_cases hn with h | ⟨⟨m, rfl⟩ | rfl, h⟩
    · exact Or.inl h
    · exact Or.inr ⟨_, h, .read (Option.some.inj hu)⟩
    · exact Or.inr ⟨_, h, .read (Option.some.inj hu)⟩

/-- What an event does to an employee, if no event changes names and departments. -/
theorem Emits.user_change {pushed : String → String → Prop}
    (hsame : ∀ v r r', d.users.get v = some r → d'.users.get v = some r' → SameEmployee r r')
    (hpushed : ∀ v token, e = .forgetToken v token → pushed v token) (v : String) :
    d'.users.get v = d.users.get v ∨
      ∃ r r', d.users.get v = some r ∧ d'.users.get v = some r' ∧ UserChange u d' pushed v r r' := by
  have put {w : String} {r r' : User} (hr : d.users.get w = some r)
      (h : v = w → UserChange u d' pushed v r r') :
      (d.users.put w r').get v = d.users.get v ∨ ∃ r₁ r₂, d.users.get v = some r₁ ∧
        (d.users.put w r').get v = some r₂ ∧ UserChange u d' pushed v r₁ r₂ := by
    rw [Table.get_put_eq]
    split_ifs with hv
    · exact Or.inr ⟨r, r', by rw [hv, hr], rfl, h hv⟩
    · exact Or.inl rfl
  cases he with
  | listItem | setItemStatus | placeOrder | completeOrder | attachSlip | sendMessage | notify =>
    exact Or.inl rfl
  | cancelOrder => rw [cancelled_users]; exact Or.inl rfl
  | readMessages _ hr => obtain ⟨t, rfl⟩ := hr.frame; exact Or.inl rfl
  | readNotifications _ hr => obtain ⟨t, rfl⟩ := hr.frame; exact Or.inl rfl
  | saveProfile _ _ _ _ _ hr | clearToken hr =>
    cases hu
    refine put hr fun hv => .own hv (hsame v _ _ ?_ ?_)
    · rw [hv, hr]
    · rw [hv]
      exact Table.get_put ..
  | forgetToken _ hr ht => exact put hr fun hv => .forget ht (hpushed v _ (by rw [hv]))
  | claimToken hc =>
    cases hu
    obtain ⟨r, hr, hr'⟩ := hc.own
    by_cases hv : v = u
    · subst hv
      exact Or.inr ⟨r, _, hr, hr', .own rfl (hsame v _ _ hr hr')⟩
    · rcases hc.others v hv with h | ⟨r₁, hr₁, ht, hr₁'⟩
      · exact Or.inl h
      · exact Or.inr ⟨r₁, _, hr₁, hr₁', .claim ht hr' rfl⟩

end

/-! ## Runs -/

section
variable {D : Deployment} {as : List (AppAction cfg)} {s s' : AppState cfg} {a : AppAction cfg}

/-- The session has sent a push to the token of an employee. -/
def Pushed (s : AppState cfg) (i : ℕ) (v token : String) : Prop :=
  ∃ m, .fcm m ∈ s.callsOf i ∧ m.notification.userId = v ∧ m.token = token

/-- **A step that changes the database** is the one of a session, and the employee it acts for may
    make the change. -/
theorem Deployment.permitted (hrun : D.runs cfg as = some s)
    (hstep : s.step (program cfg) a = some s') (hne : s'.db ≠ s.db) :
    ∃ i q st u, a = .exec i ∧ s.sessions[i]? = some (q, st) ∧ q.employee? = some u ∧
      Permitted u (Pushed s i) s.db s'.db := by
  obtain ⟨h, hsim, -⟩ := (start_sim (.employees cfg D.db) (.refl _)).run
    (fun q _ => program_ok q) (fun _ _ => trivial) hrun
  obtain ⟨l, hsim', hout⟩ := hsim.step (fun q _ => program_ok q) (fun _ _ => trivial) hstep
  cases hout with
  | silent _ hd | fault _ _ _ _ _ _ hd | call _ _ _ _ _ _ _ hd => exact absurd hd hne
  | emit i q st e ha hi _ _ _ he =>
    obtain ⟨he, hcaused⟩ := he
    obtain ⟨u, hu⟩ := he.employee
    refine ⟨i, q, st, u, ha, hi, hu, he.order_change hu, he.item_change hu, he.message_change hu,
      he.notification_change hu, he.user_change hu (fun v r r' hr hr' => ?_) fun v token hv => ?_⟩
    · obtain ⟨r₀, hr₀, hs, -⟩ := hsim.base.rows v r hr
      obtain ⟨r₀', hr₀', hs', -⟩ := hsim'.base.rows v r' hr'
      rw [hr₀] at hr₀'; cases hr₀'
      exact ⟨hs'.1.trans hs.1.symm, hs'.2.trans hs.2.symm, hs'.3.trans hs.3.symm⟩
    · subst hv
      obtain ⟨log, m, hlog, hm, ht⟩ := hcaused
      refine ⟨m, ?_, hm, ht⟩
      rw [hsim.callsOf, hlog]
      simp [Log.call?]

end

/-! ## The server -/

namespace Server

variable {D : Deployment} {verifyAsync : ℕ → String → Option JwtPayload} {acts : List (Action cfg)}
  {s s' : Server cfg} {a : Action cfg} {c : Client cfg}

/-! Clients change nothing themselves. -/

theorem enter_db (user : Option AuthUser) : (s.enter user c).1.app.db = s.app.db := by
  unfold enter
  split <;> split <;> rfl

theorem proceed_db (user : Option AuthUser) : (s.proceed c user).1.app.db = s.app.db := by
  unfold proceed
  split
  · exact enter_db _
  · rfl

theorem verifyToken_db (token : String) :
    (s.verifyToken verifyAsync c token).1.app.db = s.app.db := by
  unfold verifyToken
  split
  · rfl
  · dsimp only
    split
    · exact proceed_db _
    · rfl

theorem guard_db : (s.guard verifyAsync c).1.app.db = s.app.db := by
  unfold guard
  split
  · split
    · exact enter_db _
    · split
      · rfl
      · exact verifyToken_db _
  · split
    · rfl
    · exact verifyToken_db _

theorem step_db (hstep : s.step verifyAsync a = some s') : s'.app.db = s.app.db ∨
    ∃ x, a = .app x ∧ s.app.step (program cfg) x = some s'.app := by
  cases step_next hstep with
  | arrive c => exact Or.inl guard_db
  | resume => exact Or.inl (proceed_db _)
  | read | fault | event | invalid | disconnect | tick => exact Or.inl rfl
  | app _ happ => exact Or.inr ⟨_, rfl, happ⟩

/-- **Nothing changes but for employees who have logged in, and as the policy permits.** -/
theorem changes_permitted (hsha : Function.Injective cfg.sha256)
    (hverify : ∀ now user payload, verifyAsync now (cfg.sign user) = some payload →
      payload.sub = some user.userId)
    (hunforged : Unforged D verifyAsync acts) (hrun : (start D).run verifyAsync acts = some s)
    (hstep : s.step verifyAsync a = some s') (hne : s'.app.db ≠ s.app.db) :
    ∃ j q st u, a = .app (.exec j) ∧ s.app.sessions[j]? = some (q, st) ∧ q.employee? = some u ∧
      Authenticated D verifyAsync acts s j u ∧
      Permitted u (Pushed s.app j) s.app.db s'.app.db := by
  obtain ⟨x, rfl, happ⟩ := (step_db hstep).resolve_left hne
  have hinv := Inv.run hrun
  obtain ⟨as, has, -⟩ := hinv.core.app
  obtain ⟨j, q, st, u, rfl, hj, hu, hpermitted⟩ := Deployment.permitted has happ hne
  refine ⟨j, q, st, u, rfl, hj, hu, ?_, hpermitted⟩
  rcases hinv.core.session j q st hj with ⟨dto, rfl⟩ | ⟨v, hp, -, hv⟩
  · cases hu
  · rw [hv u hu]
    exact hp.authenticated hsha hverify hunforged hrun

/-- The buyer logs in and offers an item, which is about to be committed. -/
def sampleOffer : List (Action sample) :=
  sampleEntry ++ ([.arrive (.http (some (.one "Bearer EMP00102")) (.createItem sampleUnit)), .read 1,
    .resume 1] ++ List.replicate 2 (.app (.exec 1)))

theorem changes_permitted_sample : ∃ s s' : Server sample,
    (start (.migrated sampleUsers)).run sampleVerify sampleOffer = some s ∧
    s.step sampleVerify (.app (.exec 1)) = some s' ∧ s'.app.db ≠ s.app.db ∧
    ∃ u, Authenticated (.migrated sampleUsers) sampleVerify sampleOffer s 1 u ∧
      Permitted u (Pushed s.app 1) s.app.db s'.app.db := by
  obtain ⟨s, hrun, hs⟩ : ∃ s, (start (.migrated sampleUsers)).run sampleVerify sampleOffer = some s ∧
      ((s.app.db.items.get 1).isNone && (s.step sampleVerify (.app (.exec 1))).any fun s' =>
        (s'.app.db.items.get 1).isSome) = true := (Option.any_eq_true ..).1 (by decide +kernel)
  simp only [Bool.and_eq_true, Option.any_eq_true] at hs
  obtain ⟨hnone, s', hstep, hsome⟩ := hs
  have hne : s'.app.db ≠ s.app.db := by
    intro h
    rw [h, Option.isNone_iff_eq_none.1 hnone] at hsome
    cases hsome
  have hunforged : Unforged (.migrated sampleUsers) sampleVerify sampleOffer := by
    refine sampleEntry_unforged fun c hc => ?_
    simp only [List.mem_append, List.mem_cons, Action.arrive.injEq, reduceCtorEq, List.not_mem_nil,
      List.mem_replicate, and_false, or_false] at hc
    subst hc
    decide +kernel
  obtain ⟨j, q, st, u, ha, -, -, hlogin, hpermitted⟩ :=
    changes_permitted sample_sha256 (by rintro _ _ _ ⟨⟩; rfl) hunforged hrun hstep hne
  obtain rfl : 1 = j := by simpa using ha
  exact ⟨s, s', hrun, hstep, hne, u, hlogin, hpermitted⟩

end Server

end Marketplace
