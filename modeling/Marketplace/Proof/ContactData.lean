/-
  Where the phone number of an employee is shown: in the contact data that come
  with an item, an order or a public profile, and nowhere else.
-/
import Marketplace.Proof.Lists
import Marketplace.Proof.Privacy
import Marketplace.Proof.Login

namespace Marketplace

open ReadCommitted

variable {cfg : Config} {d d' : Database} {A B : String}

/-! ## Contact data -/

/-- The contact data without the phone number of `B`. -/
def Party.hidePhone (B : String) (p : Party) : Party :=
  if p.userId = B then { p with phoneNumber := none } else p

@[simp] theorem Party.hidePhone_userId (p : Party) : (p.hidePhone B).userId = p.userId := by
  unfold hidePhone
  split_ifs <;> rfl

theorem Party.hidePhone_of_ne {p : Party} (h : p.userId ≠ B) : p.hidePhone B = p := if_neg h

def ItemDetail.mapParty (f : Party → Party) (i : ItemDetail) : ItemDetail :=
  { i with seller := i.seller.map f }

def OrderDetail.parties (o : OrderDetail) : List Party := o.buyer.toList ++ o.seller.toList

def OrderDetail.mapParty (f : Party → Party) (o : OrderDetail) : OrderDetail :=
  { o with buyer := o.buyer.map f, seller := o.seller.map f }

namespace Response

/-- The contact data in a response. -/
def parties : Response → List Party
  | .item i => i.seller.toList
  | .order o => o.parties
  | .orders p => p.data.flatMap OrderDetail.parties
  | .publicProfile u => [u]
  | _ => []

/-- The response with other contact data. -/
def mapParty (f : Party → Party) : Response → Response
  | .item i => .item (i.mapParty f)
  | .order o => .order (o.mapParty f)
  | .orders p => .orders { p with data := p.data.map (OrderDetail.mapParty f) }
  | .publicProfile u => .publicProfile (f u)
  | r => r

/-- The response without the phone number of `B`. -/
def hidePhone (B : String) : Response → Response := mapParty (Party.hidePhone B)

end Response

theorem OrderDetail.parties_mapParty (f : Party → Party) (o : OrderDetail) :
    (o.mapParty f).parties = o.parties.map f := by
  simp [parties, mapParty, Option.toList_map]

theorem map_eq_self {f : Party → Party} {x : Option Party} (h : ∀ p ∈ x, f p = p) :
    x.map f = x := by
  rw [Option.map_congr (g := id) h, Option.map_id, id]

theorem OrderDetail.mapParty_eq {f : Party → Party} {o : OrderDetail}
    (h : ∀ p ∈ o.parties, f p = p) : o.mapParty f = o := by
  rw [mapParty, map_eq_self fun p hp => h p (List.mem_append_left _ (Option.mem_toList.2 hp)),
    map_eq_self fun p hp => h p (List.mem_append_right _ (Option.mem_toList.2 hp))]

theorem Response.parties_mapParty (f : Party → Party) (r : Response) :
    (r.mapParty f).parties = r.parties.map f := by
  cases r with
  | item i => exact Option.toList_map ..
  | order o => exact o.parties_mapParty f
  | orders p =>
    simp only [mapParty, parties, List.flatMap_map, List.map_flatMap]
    exact List.flatMap_congr fun o _ => o.parties_mapParty f
  | _ => rfl

theorem Response.mapParty_mapParty (f g : Party → Party) (r : Response) :
    (r.mapParty g).mapParty f = r.mapParty fun p => f (g p) := by
  cases r <;> simp [mapParty, ItemDetail.mapParty, OrderDetail.mapParty, Function.comp_def]

theorem Response.mapParty_eq {f : Party → Party} {r : Response} (h : ∀ p ∈ r.parties, f p = p) :
    r.mapParty f = r := by
  cases r with
  | item i =>
    have hseller : i.seller.map f = i.seller := map_eq_self fun p hp => h p (Option.mem_toList.2 hp)
    rw [mapParty, ItemDetail.mapParty, hseller]
  | order o => exact congrArg Response.order (OrderDetail.mapParty_eq h)
  | orders p =>
    have hdata : p.data.map (OrderDetail.mapParty f) = p.data := by
      refine (List.map_congr_left fun o ho => ?_).trans (List.map_id _)
      exact OrderDetail.mapParty_eq fun x hx => h x (List.mem_flatMap.2 ⟨o, ho, hx⟩)
    rw [mapParty, hdata]
  | publicProfile u => exact congrArg Response.publicProfile (h u (List.mem_singleton_self u))
  | _ => rfl

theorem Response.userIds_eq {r r' : Response} (h : r.hidePhone B = r'.hidePhone B) :
    r.parties.map Party.userId = r'.parties.map Party.userId := by
  have hp := congrArg (List.map Party.userId) (congrArg parties h)
  simpa only [hidePhone, parties_mapParty, List.map_map, Function.comp_def,
    Party.hidePhone_userId] using hp

theorem Response.eq_of_hidePhone {r r' : Response} (h : r.hidePhone B = r'.hidePhone B)
    (phone : Option String) (hr : ∀ p ∈ r.parties, p.userId = B → p.phoneNumber = phone)
    (hr' : ∀ p ∈ r'.parties, p.userId = B → p.phoneNumber = phone) : r = r' := by
  -- putting the number back
  let f (p : Party) : Party := if p.userId = B then { p with phoneNumber := phone } else p
  have hf (p : Party) : f (p.hidePhone B) = f p := by
    by_cases hp : p.userId = B
    · simp only [f, Party.hidePhone, hp, if_true]
    · rw [Party.hidePhone_of_ne hp]
  have restore {r : Response} (hr : ∀ p ∈ r.parties, p.userId = B → p.phoneNumber = phone) :
      (r.hidePhone B).mapParty f = r := by
    rw [hidePhone, mapParty_mapParty, mapParty_eq fun p hp => ?_]
    rw [hf]
    by_cases hB : p.userId = B
    · simp only [f, if_pos hB, ← hr p hp hB]
    · exact if_neg hB
  rw [← restore hr, h, restore hr']

/-! ## Databases that differ in a phone number -/

/-- The row of an employee without the phone number of `B`. -/
def User.hidePhone (B u : String) (r : User) : User :=
  if u = B then { r with phoneNumber := none } else r

/-- The databases differ at most in the phone number of `B`. -/
def DifferInPhone (B : String) (d d' : Database) : Prop :=
  (∀ u, (d.users.get u).map (User.hidePhone B u) = (d'.users.get u).map (User.hidePhone B u)) ∧
    ∀ k, (∀ u, k ≠ .user u) → d.get k = d'.get k

/-- The phone number of an employee. -/
def phoneOf (B : String) (d : Database) : Option (Option String) :=
  (d.users.get B).map User.phoneNumber

/-- The contact data of a response show the stored phone numbers. -/
def ShowsStored (d : Database) (r : Response) : Prop :=
  ∀ p ∈ r.parties, phoneOf p.userId d = some p.phoneNumber

/-- The contact data in a reply. -/
def contacts : Except Thrown Response → List Party
  | .ok r => r.parties
  | .error _ => []

/-- Replies on two databases that differ at most in the phone number of `B`. -/
inductive SameBut (B : String) (d d' : Database) :
    Except Thrown Response → Except Thrown Response → Prop
  | error (e : Thrown) : SameBut B d d' (.error e) (.error e)
  | ok {r r' : Response} : r.hidePhone B = r'.hidePhone B → ShowsStored d r → ShowsStored d' r' →
    SameBut B d d' (.ok r) (.ok r')

theorem SameBut.plain {r : Response} (h : r.parties = []) : SameBut B d d' (.ok r) (.ok r) :=
  .ok rfl (fun p hp => by rw [h] at hp; cases hp) fun p hp => by rw [h] at hp; cases hp

/-- They are the same iff the phone number of `B` is, or the contact data of `B` are not shown. -/
theorem SameBut.eq_iff {x x' : Except Thrown Response} (h : SameBut B d d' x x') :
    x = x' ↔ phoneOf B d = phoneOf B d' ∨ ∀ p ∈ contacts x, p.userId ≠ B := by
  cases h with
  | error e => exact iff_of_true rfl (Or.inr nofun)
  | @ok r r' hhide hs hs' =>
    have number {d : Database} {r : Response} (hs : ShowsStored d r) (p : Party)
        (hp : p ∈ r.parties) (hB : p.userId = B) : p.phoneNumber = (phoneOf B d).getD none := by
      rw [← hB, hs p hp, Option.getD_some]
    constructor
    · intro heq
      cases heq
      by_cases hB : ∃ p ∈ r.parties, p.userId = B
      · obtain ⟨p, hp, rfl⟩ := hB
        exact Or.inl ((hs p hp).trans (hs' p hp).symm)
      · exact Or.inr fun p hp hpB => hB ⟨p, hp, hpB⟩
    · rintro (hphone | hB)
      · have hnumber' := number hs'
        rw [← hphone] at hnumber'
        exact congrArg Except.ok (Response.eq_of_hidePhone hhide _ (number hs) hnumber')
      · refine congrArg Except.ok (Response.eq_of_hidePhone hhide none
          (fun p hp hpB => absurd hpB (hB p hp)) fun p hp hpB => ?_)
        obtain ⟨p₀, hp₀, he⟩ := List.mem_map.1 (Response.userIds_eq hhide ▸ List.mem_map_of_mem hp)
        exact absurd (he.trans hpB) (hB p₀ hp₀)

/-! ## Reads -/

/-- The reads of an employee. -/
def Request.readBy (A : String) : Request cfg → Prop
  | .findItems _ | .findItem _ | .publicProfile _ => True
  | .findOrder _ u | .findMyOrders u _ | .profile u | .history u _ | .conversations u _ _
  | .findMyNotifications u _ | .countUnread u => u = A
  | _ => False

/-- The reads that are answered with contact data. -/
def Request.showsContacts : Request cfg → Bool
  | .findItem _ | .publicProfile _ | .findOrder .. | .findMyOrders .. => true
  | _ => false

theorem Alike.itemsAll (h : Alike A d d') (dto : ListItemsQueryDto) :
    ItemsService.all cfg d dto = ItemsService.all cfg d' dto := by
  have hrows : orderBy (newest Item.createdAt)
        (d.items.rows.filter fun x => ItemsService.isListed cfg dto x.2) =
      orderBy (newest Item.createdAt)
        (d'.items.rows.filter fun x => ItemsService.isListed cfg dto x.2) :=
    orderBy_congr (Table.filter_perm (fun _ => ItemsService.isListed cfg dto) fun i r _ =>
      by rw [h.items]) (newest_injOn (d.items.nodup_filter_fst _))
  simp only [ItemsService.all, ItemsService.listing, hrows, h.users]

theorem Alike.same_read (h : Alike A d d') {q : Request cfg} (hq : q.readBy A) :
    (program cfg q).Same d d' := by
  have hprofile (u : String) {k : Profile → Program} (hk : ∀ u, (k u).Same d d') :
      (UsersService.getProfile u k).Same d d' := by
    refine same_query (by rw [h.users]) fun user? => ?_
    cases user? with
    | none => exact same_fail _
    | some user => exact hk user
  cases q with
  | findItems dto => exact same_getManyAndCount _ (h.itemsAll dto) fun _ => same_answer _
  | findItem i =>
    refine same_query (by simp only [sellerParty, h.items, h.users]) fun item? => ?_
    cases item? with
    | none => exact same_fail _
    | some item => exact same_answer _
  | publicProfile u => exact hprofile u fun _ => same_answer _
  | profile u => exact hprofile u fun _ => same_answer _
  | findOrder | findMyOrders | history | conversations | findMyNotifications | countUnread =>
    exact same_program h hq
  | _ => exact hq.elim

/-! ### Employees that differ in a phone number -/

/-- Alone on `d` and alone on `d'`, the programs answer the same but for the phone number of `B`. -/
def AnswersBut (B : String) (d d' : Database) (p p' : Program) : Prop :=
  ∃ x x', p.RepliesOn d x ∧ p'.RepliesOn d' x' ∧ SameBut B d d' x x'

theorem answersBut_fail (e : Thrown) : AnswersBut B d d' (fail e) (fail e) :=
  ⟨_, _, .done, .done, .error e⟩

theorem answersBut_query {β : Type} {g : Database → β} {k k' : β → Program}
    (h : AnswersBut B d d' (k (g d)) (k' (g d'))) :
    AnswersBut B d d' (query g k) (query g k') := by
  obtain ⟨x, x', hx, hx', hsame⟩ := h
  exact ⟨x, x', replies_query hx, replies_query hx', hsame⟩

/-- Alone on `d` and alone on `d'`, the program answers the same, without contact data. -/
def AnswersPlain (d d' : Database) (p : Program) : Prop :=
  ∃ x, p.RepliesOn d x ∧ p.RepliesOn d' x ∧ contacts x = []

theorem answersPlain_fail (e : Thrown) : AnswersPlain d d' (fail e) := ⟨_, .done, .done, rfl⟩

theorem answersPlain_answer {r : Response} (h : r.parties = []) : AnswersPlain d d' (answer r) :=
  ⟨_, .done, .done, h⟩

theorem answersPlain_query {β : Type} {g : Database → β} {k : β → Program} (hg : g d = g d')
    (hk : ∀ b, AnswersPlain d d' (k b)) : AnswersPlain d d' (query g k) := by
  obtain ⟨x, hx, hx', hplain⟩ := hk (g d)
  exact ⟨x, replies_query hx, replies_query (hg ▸ hx'), hplain⟩

theorem answersPlain_unlessRefused {refusal : Option QueryFailedError} {k : Program}
    (hk : AnswersPlain d d' k) : AnswersPlain d d' (unlessRefused refusal k) := by
  cases refusal with
  | none => exact hk
  | some f => exact answersPlain_fail _

theorem answersPlain_getManyAndCount {α : Type} (dto : PaginationQueryDto)
    {select : Database → List α} {k : PaginatedResult α → Program} (hg : select d = select d')
    (hk : ∀ page, AnswersPlain d d' (k page)) : AnswersPlain d d' (dto.getManyAndCount select k) :=
  answersPlain_unlessRefused
    (answersPlain_query (by rw [hg]) fun _ => answersPlain_query (by rw [hg]) fun _ => hk _)

section
variable {t : Table String User}

/-- The employees are the same but for the phone number of `B`. -/
def SameEmployees (B : String) (t t' : Table String User) : Prop :=
  ∀ u, (t.get u).map (User.hidePhone B u) = (t'.get u).map (User.hidePhone B u)

theorem SameEmployees.map (h : SameEmployees B d.users t) {β : Type} (u : String) {f : User → β}
    (hf : ∀ r, f (User.hidePhone B u r) = f r) : (d.users.get u).map f = (t.get u).map f := by
  have hmap := congrArg (Option.map f) (h u)
  simpa only [Option.map_map, Function.comp_def, hf] using hmap

theorem User.hidePhone_fields (u : String) (r : User) :
    (r.hidePhone B u).fullName = r.fullName ∧ (r.hidePhone B u).department = r.department ∧
      (r.hidePhone B u).qrPaymentUrl = r.qrPaymentUrl := by
  unfold hidePhone
  split_ifs <;> exact ⟨rfl, rfl, rfl⟩

/-- The contact data of an employee, with what `g` selects as the URL. -/
def partyOf (g : User → Option String) (u : String) (r : User) : Party :=
  ⟨u, r.fullName, r.department, r.phoneNumber, g r⟩

theorem partyOf_stored {g : User → Option String} {u : String} {p : Party}
    (hp : p ∈ (d.users.get u).map (partyOf g u)) : phoneOf p.userId d = some p.phoneNumber := by
  obtain ⟨r, hr, rfl⟩ := Option.map_eq_some_iff.1 hp
  simp only [phoneOf, partyOf, hr, Option.map_some]

theorem SameEmployees.party (h : SameEmployees B d.users t) {g : User → Option String} (u : String)
    (hg : ∀ r : User, g (r.hidePhone B u) = g r) :
    ((d.users.get u).map (partyOf g u)).map (Party.hidePhone B) =
      ((t.get u).map (partyOf g u)).map (Party.hidePhone B) := by
  rw [Option.map_map, Option.map_map]
  refine h.map u fun r => ?_
  obtain ⟨hname, hdep, -⟩ := r.hidePhone_fields (B := B) u
  by_cases hu : u = B
  · have hide (r : User) :
        (partyOf g u r).hidePhone B = { partyOf g u r with phoneNumber := none } := if_pos hu
    rw [Function.comp_apply, Function.comp_apply, hide, hide]
    simp only [partyOf, hname, hdep, hg]
  · rw [show r.hidePhone B u = r from if_neg hu]

theorem SameEmployees.seller (h : SameEmployees B d.users t) (u : String) :
    (sellerParty d u).map (Party.hidePhone B) =
      (sellerParty { d with users := t } u).map (Party.hidePhone B) :=
  h.party u fun r => (r.hidePhone_fields u).2.2

theorem SameEmployees.detail (h : SameEmployees B d.users t) (orderId : ℤ) (o : Order) :
    (OrdersService.detail d orderId o).mapParty (Party.hidePhone B) =
      (OrdersService.detail { d with users := t } orderId o).mapParty (Party.hidePhone B) := by
  have hbuyer := h.party (g := fun _ => none) o.buyerId fun _ => rfl
  have hseller := h.seller o.sellerId
  simp only [OrderDetail.mapParty, OrdersService.detail, OrderDetail.mk.injEq, true_and]
  exact ⟨hbuyer, hseller⟩

theorem detail_stored (orderId : ℤ) (o : Order) :
    ∀ p ∈ (OrdersService.detail d orderId o).parties, phoneOf p.userId d = some p.phoneNumber := by
  intro p hp
  rcases List.mem_append.1 hp with hp | hp
  · exact partyOf_stored (g := fun _ => none) (Option.mem_toList.1 hp)
  · exact partyOf_stored (g := User.qrPaymentUrl) (Option.mem_toList.1 hp)

/-! #### Reads with contact data -/

theorem answersBut_findItem (h : SameEmployees B d.users t) (i : ℤ) :
    AnswersBut B d { d with users := t } (ItemsService.findOne i) (ItemsService.findOne i) := by
  refine answersBut_query ?_
  cases hi : d.items.get i with
  | none => exact answersBut_fail _
  | some item =>
    refine ⟨_, _, .done, .done, .ok ?_ (fun p hp => ?_) fun p hp => ?_⟩
    · have hseller := h.seller item.sellerId
      simp only [Response.hidePhone, Response.mapParty, ItemDetail.mapParty, hseller]
    · exact partyOf_stored (g := User.qrPaymentUrl) (Option.mem_toList.1 hp)
    · exact partyOf_stored (g := User.qrPaymentUrl) (Option.mem_toList.1 hp)

theorem answersBut_publicProfile (h : SameEmployees B d.users t) (u : String) :
    AnswersBut B d { d with users := t } (UsersService.getPublicProfile u)
      (UsersService.getPublicProfile u) := by
  refine answersBut_query ?_
  have hparty := h.party (g := User.qrPaymentUrl) u fun r => (r.hidePhone_fields u).2.2
  have hstored {d : Database} {r : User} (hr : d.users.get u = some r) :
      ∀ p ∈ [partyOf User.qrPaymentUrl u r], phoneOf p.userId d = some p.phoneNumber := by
    intro p hp
    rw [List.mem_singleton.1 hp]
    exact partyOf_stored (g := User.qrPaymentUrl) (by rw [hr]; rfl)
  cases hu : d.users.get u with
  | none =>
    rw [hu] at hparty
    have hu' : t.get u = none := by simpa using hparty.symm
    simp only [hu', Option.map_none]
    exact answersBut_fail _
  | some r =>
    rw [hu, Option.map_some, Option.map_some] at hparty
    obtain ⟨p', hp', hhide⟩ := Option.map_eq_some_iff.1 hparty.symm
    obtain ⟨r', hr', rfl⟩ := Option.map_eq_some_iff.1 hp'
    simp only [hr', Option.map_some]
    exact ⟨_, _, .done, .done, .ok (congrArg Response.publicProfile hhide.symm) (hstored hu)
      (hstored (d := { d with users := t }) hr')⟩

theorem answersBut_findOrder (h : SameEmployees B d.users t) (orderId : ℤ) (u : String) :
    AnswersBut B d { d with users := t }
      (OrdersService.findOneForUser orderId u fun o => answer (.order o))
      (OrdersService.findOneForUser orderId u fun o => answer (.order o)) := by
  refine answersBut_query ?_
  cases ho : d.orders.get orderId with
  | none => exact answersBut_fail _
  | some o =>
    simp only [Option.map_some]
    have hif (d : Database) : ((OrdersService.detail d orderId o).order.buyerId ≠ u ∧
        (OrdersService.detail d orderId o).order.sellerId ≠ u) ↔
          (o.buyerId ≠ u ∧ o.sellerId ≠ u) := Iff.rfl
    by_cases hparty : o.buyerId ≠ u ∧ o.sellerId ≠ u
    · simp only [if_pos ((hif _).2 hparty)]
      exact answersBut_fail _
    · simp only [if_neg ((hif _).not.2 hparty)]
      exact ⟨_, _, .done, .done, .ok (congrArg Response.order (h.detail orderId o))
        (detail_stored orderId o) (detail_stored orderId o)⟩

theorem SameEmployees.rows (h : SameEmployees B d.users t) (u : String) (dto : ListOrdersQueryDto) :
    (dto.rows (OrdersService.mine d u dto)).map (OrderDetail.mapParty (Party.hidePhone B)) =
      (dto.rows (OrdersService.mine { d with users := t } u dto)).map
        (OrderDetail.mapParty (Party.hidePhone B)) := by
  simp only [PaginationQueryDto.rows, OrdersService.mine, List.map_take, List.map_drop, List.map_map]
  congr 2
  exact List.map_congr_left fun x _ => h.detail x.1 x.2

theorem rows_stored (u : String) (dto : ListOrdersQueryDto) (meta_ : PageMeta) :
    ShowsStored d (.orders ⟨dto.rows (OrdersService.mine d u dto), meta_⟩) := by
  intro p hp
  obtain ⟨o, ho, hp⟩ := List.mem_flatMap.1 hp
  obtain ⟨x, -, rfl⟩ := List.mem_map.1 (List.mem_of_mem_drop (List.mem_of_mem_take ho))
  exact detail_stored x.1 x.2 p hp

theorem answersBut_findMyOrders (h : SameEmployees B d.users t) (u : String)
    (dto : ListOrdersQueryDto) :
    AnswersBut B d { d with users := t } (OrdersService.findMine u dto)
      (OrdersService.findMine u dto) := by
  unfold OrdersService.findMine PaginationQueryDto.getManyAndCount
  cases dto.offsetError with
  | some f => exact answersBut_fail _
  | none =>
    refine answersBut_query (answersBut_query ?_)
    have hlen : (OrdersService.mine d u dto).length =
        (OrdersService.mine { d with users := t } u dto).length := by
      simp only [OrdersService.mine, List.length_map]
    rw [← hlen]
    refine ⟨_, _, .done, .done, .ok ?_ (rows_stored u dto _) (rows_stored u dto _)⟩
    simp only [Response.hidePhone, Response.mapParty, paginate, h.rows u dto]

/-! #### Other reads -/

theorem answersPlain_findItems (h : SameEmployees B d.users t) (dto : ListItemsQueryDto) :
    AnswersPlain d { d with users := t } (ItemsService.findAll cfg dto) := by
  have hname (u : String) :
      (d.users.get u).map (fun r => (⟨u, r.fullName, r.department⟩ : SellerName)) =
        (t.get u).map fun r => ⟨u, r.fullName, r.department⟩ :=
    h.map u fun r => by rw [(r.hidePhone_fields u).1, (r.hidePhone_fields u).2.1]
  have hall : ItemsService.all cfg d dto = ItemsService.all cfg { d with users := t } dto := by
    simp only [ItemsService.all, ItemsService.listing, hname]
  exact answersPlain_getManyAndCount _ hall fun _ => answersPlain_answer rfl

theorem answersPlain_profile (h : SameEmployees B d.users t) (hAB : A ≠ B) :
    AnswersPlain d { d with users := t } (UsersService.getProfile A fun u => answer (.profile u)) := by
  have hget : (d.users.get A).map (UsersService.profile A) =
      (t.get A).map (UsersService.profile A) :=
    h.map A fun r => by rw [User.hidePhone, if_neg hAB]
  refine answersPlain_query hget fun user? => ?_
  cases user? with
  | none => exact answersPlain_fail _
  | some u => exact answersPlain_answer rfl

theorem answersPlain_history (u : String) (dto : ChatHistoryQueryDto) :
    AnswersPlain d { d with users := t } (ChatsService.getHistory cfg u dto) := by
  unfold ChatsService.getHistory
  cases peerOf cfg dto.toConversationDto with
  | error e => exact answersPlain_fail _
  | ok peer =>
    refine answersPlain_query rfl fun item? => ?_
    cases item? with
    | none => exact answersPlain_fail _
    | some item =>
      dsimp only
      cases ChatsService.peerFor item u (PeerTokenService.resolve cfg peer) with
      | error e => exact answersPlain_fail _
      | ok peerId => exact answersPlain_query rfl fun rows => answersPlain_answer rfl

theorem SameEmployees.summary (h : SameEmployees B d.users t) (u : String) :
    ChatsService.summary cfg d u = ChatsService.summary cfg { d with users := t } u := by
  have hname (v : String) : (d.users.get v).map User.fullName = (t.get v).map User.fullName :=
    h.map v fun r => (r.hidePhone_fields v).1
  funext x
  have hx := hname (ChatsService.conversationOf u x).2
  simp only [ChatsService.summary]
  cases hi : d.items.get (ChatsService.conversationOf u x).1 with
  | none => rfl
  | some item =>
    cases hu : d.users.get (ChatsService.conversationOf u x).2 with
    | none =>
      rw [hu, Option.map_none, eq_comm, Option.map_eq_none_iff] at hx
      rw [hx]
    | some r =>
      rw [hu, Option.map_some, eq_comm, Option.map_eq_some_iff] at hx
      obtain ⟨r', hu', hr'⟩ := hx
      simp only [hu', hr']
      rfl

theorem answersPlain_conversations (h : SameEmployees B d.users t) (u : String)
    (dto : PaginationQueryDto) (ties : ℤ × String → ℕ) :
    AnswersPlain d { d with users := t } (ChatsService.getConversations cfg u dto ties) := by
  refine answersPlain_unlessRefused (answersPlain_query ?_ fun page => answersPlain_answer rfl)
  rw [h.summary u]
  rfl

theorem answersPlain_read (h : SameEmployees B d.users t) (hAB : A ≠ B) {q : Request cfg}
    (hq : q.readBy A) (hc : q.showsContacts = false) :
    AnswersPlain d { d with users := t } (program cfg q) := by
  cases q with
  | findItems dto => exact answersPlain_findItems h dto
  | profile u =>
    obtain rfl : u = A := hq
    exact answersPlain_profile h hAB
  | history u dto => exact answersPlain_history u dto
  | conversations u dto ties => exact answersPlain_conversations h u dto ties
  | findMyNotifications u dto =>
    have hmine : NotificationsService.mine d u (dto.unreadOnly.getD false) =
        NotificationsService.mine { d with users := t } u (dto.unreadOnly.getD false) := rfl
    exact answersPlain_getManyAndCount _ hmine fun page =>
      answersPlain_answer (r := .notifications page) rfl
  | countUnread u => exact answersPlain_query rfl fun n => answersPlain_answer (r := .count n) rfl
  | findItem | publicProfile | findOrder | findMyOrders => cases hc
  | _ => exact hq.elim

theorem answersBut_read (h : SameEmployees B d.users t) (hAB : A ≠ B) {q : Request cfg}
    (hq : q.readBy A) :
    ∃ x x', (program cfg q).RepliesOn d x ∧ (program cfg q).RepliesOn { d with users := t } x' ∧
      SameBut B d { d with users := t } x x' ∧ (q.showsContacts = false → contacts x = []) := by
  cases hc : q.showsContacts with
  | false =>
    obtain ⟨x, hx, hx', hplain⟩ := answersPlain_read h hAB hq hc
    refine ⟨x, x, hx, hx', ?_, fun _ => hplain⟩
    cases x with
    | error e => exact .error e
    | ok r => exact .plain hplain
  | true =>
    have hbut : AnswersBut B d { d with users := t } (program cfg q) (program cfg q) := by
      cases q with
      | findItem i => exact answersBut_findItem h i
      | publicProfile u => exact answersBut_publicProfile h u
      | findOrder o u => exact answersBut_findOrder h o u
      | findMyOrders u dto => exact answersBut_findMyOrders h u dto
      | _ => cases hc
    obtain ⟨x, x', hx, hx', hsame⟩ := hbut
    exact ⟨x, x', hx, hx', hsame, nofun⟩

end

theorem DifferInPhone.alike (h : DifferInPhone B d d') : Alike A d { d' with users := d.users } := by
  intro k r _
  cases k with
  | user u => exact Iff.rfl
  | item i => rw [h.2 (.item i) nofun]; exact Iff.rfl
  | order o => rw [h.2 (.order o) nofun]; exact Iff.rfl
  | message n => rw [h.2 (.message n) nofun]; exact Iff.rfl
  | notification n => rw [h.2 (.notification n) nofun]; exact Iff.rfl

theorem DifferInPhone.inbox_perm (h : DifferInPhone B d d') (ties ties' : ℤ × String → ℕ) :
    (inbox cfg d A ties).Perm (inbox cfg d' A ties') := by
  have hemployees : SameEmployees B ({ d' with users := d.users } : Database).users d'.users := h.1
  have hinbox : inbox cfg { d' with users := d.users } A ties' = inbox cfg d' A ties' := by
    rw [inbox, hemployees.summary A]
    rfl
  rw [← hinbox]
  exact h.alike.inbox_perm ties ties'

/-- **The reads of another employee on databases that differ in the phone number of `B`.** -/
theorem DifferInPhone.read (h : DifferInPhone B d d') (hAB : A ≠ B) {q : Request cfg}
    (hq : q.readBy A) :
    ∃ x x', Responds cfg d q x ∧ Responds cfg d' q x' ∧ SameBut B d d' x x' ∧
      (q.showsContacts = false → contacts x = []) := by
  -- first everything but the employees, then the employees
  obtain ⟨x₀, hx₀, hx₁⟩ := h.alike.same_read hq
  have hemployees : SameEmployees B ({ d' with users := d.users } : Database).users d'.users := h.1
  obtain ⟨x, x', hx, hx', hsame, hplain⟩ := answersBut_read hemployees hAB hq
  obtain rfl : x₀ = x := Responds.unique hx₁ hx
  refine ⟨x₀, x', hx₀, hx', ?_, hplain⟩
  cases hsame with
  | error e => exact .error e
  | ok hhide hs hs' => exact .ok hhide hs hs'

/-! ## Where the number is shown -/

/-- The reply shows `phone` as the number of `B`. -/
def Shows (B : String) (phone : Option String) (x : Except Thrown Response) : Prop :=
  ∃ p ∈ contacts x, p.userId = B ∧ p.phoneNumber = phone

variable (cfg d A B) in
/-- The reads of `A` that are answered with the contact data of `B`. -/
structure ContactShown (phone : Option String) : Prop where
  profile : ∃ x, Responds cfg d (.publicProfile B) x ∧ Shows B phone x
  item : ∀ i item, d.items.get i = some item → item.sellerId = B →
    ∃ x, Responds cfg d (.findItem i) x ∧ Shows B phone x
  order : ∀ o order, d.orders.get o = some order → order.buyerId = A ∨ order.sellerId = A →
    order.buyerId = B ∨ order.sellerId = B →
    ∃ x, Responds cfg d (.findOrder o A) x ∧ Shows B phone x
  orders : ∀ dto : ListOrdersQueryDto, dto.offset < 2 ^ 63 → ∃ p,
    Responds cfg d (.findMyOrders A dto) (.ok (.orders p)) ∧ ∀ o ∈ p.data,
      o.order.buyerId = B ∨ o.order.sellerId = B → Shows B phone (.ok (.order o))

section
variable {phone : Option String}

theorem exists_partyOf (h : phoneOf B d = some phone) (g : User → Option String) :
    ∃ p ∈ (d.users.get B).map (partyOf g B), p.userId = B ∧ p.phoneNumber = phone := by
  obtain ⟨r, hr, rfl⟩ := Option.map_eq_some_iff.1 h
  exact ⟨partyOf g B r, by rw [hr]; rfl, rfl, rfl⟩

theorem detail_shows (h : phoneOf B d = some phone) (orderId : ℤ) {o : Order}
    (ho : o.buyerId = B ∨ o.sellerId = B) :
    Shows B phone (.ok (.order (OrdersService.detail d orderId o))) := by
  rcases ho with rfl | rfl
  · obtain ⟨p, hp, hB⟩ := exists_partyOf h fun _ => none
    exact ⟨p, List.mem_append_left _ (Option.mem_toList.2 hp), hB⟩
  · obtain ⟨p, hp, hB⟩ := exists_partyOf h User.qrPaymentUrl
    exact ⟨p, List.mem_append_right _ (Option.mem_toList.2 hp), hB⟩

/-- **The contact data of `B` show the stored number.** -/
theorem contactShown (h : phoneOf B d = some phone) : ContactShown cfg d A B phone where
  profile := by
    obtain ⟨r, hr, hphone⟩ := Option.map_eq_some_iff.1 h
    refine ⟨_, replies_query (r := .ok (.publicProfile (partyOf User.qrPaymentUrl B r))) ?_,
      _, List.mem_singleton_self _, rfl, hphone⟩
    rw [hr]
    exact .done
  item i item hi hseller := by
    subst hseller
    obtain ⟨p, hp, hB⟩ := exists_partyOf h User.qrPaymentUrl
    refine ⟨_, replies_query (r := .ok (.item ⟨i, item, sellerParty d item.sellerId⟩)) ?_,
      p, Option.mem_toList.2 hp, hB⟩
    rw [hi]
    exact .done
  order o order ho hA hB := by
    refine ⟨_, replies_query (r := .ok (.order (OrdersService.detail d o order))) ?_,
      detail_shows h o hB⟩
    have hparty : ¬ (order.buyerId ≠ A ∧ order.sellerId ≠ A) := by tauto
    have hif : ¬ ((OrdersService.detail d o order).order.buyerId ≠ A ∧
        (OrdersService.detail d o order).order.sellerId ≠ A) := hparty
    rw [ho, Option.map_some]
    dsimp only
    rw [if_neg hif]
    exact .done
  orders dto hoffset := by
    refine ⟨_, (lists_orders A dto).responds _ hoffset, fun o ho hB => ?_⟩
    obtain ⟨x, -, rfl⟩ := List.mem_map.1 (List.mem_of_mem_drop (List.mem_of_mem_take ho))
    exact detail_shows h x.1 hB

end

/-! ## Sequences of reads -/

/-- Reads of `A`, each of which may depend on the replies to those before, that lead to a login
    request. -/
inductive Reading (cfg : Config) (A : String) where
  | done (dto : LoginDto cfg)
  | read (q : Request cfg) (hq : q.readBy A) (k : Except Thrown Response → Reading cfg A)

/-- The reply to a request that runs alone. -/
def reply (d : Database) (q : Request cfg) : Except Thrown Response :=
  ((program cfg q).eval (fun _ => Answer.done) 0 d fun _ => 0).2.2

theorem Responds.reply_eq {q : Request cfg} {x : Except Thrown Response} (h : Responds cfg d q x) :
    reply d q = x := h _ _ _

namespace Reading

/-- The login request the reads lead to. -/
def result (d : Database) : Reading cfg A → LoginDto cfg
  | .done dto => dto
  | .read q _ k => (k (reply d q)).result d

/-- None of the replies shows contact data of `B`. -/
def Blind (B : String) (d : Database) : Reading cfg A → Prop
  | .done _ => True
  | .read q _ k => (∀ p ∈ contacts (reply d q), p.userId ≠ B) ∧ (k (reply d q)).Blind B d

theorem result_eq (h : DifferInPhone B d d') (hAB : A ≠ B) {R : Reading cfg A}
    (hR : R.Blind B d) : R.result d = R.result d' := by
  induction R with
  | done dto => rfl
  | read q hq k ih =>
    obtain ⟨x, x', hx, hx', hsame, -⟩ := h.read hAB hq
    obtain ⟨hblind, hk⟩ := hR
    have hxx : x = x' := hsame.eq_iff.2 (Or.inr (hx.reply_eq ▸ hblind))
    rw [result, result, hx'.reply_eq, ← hxx, ← hx.reply_eq]
    exact ih _ hk

end Reading

theorem LogsIn.digest {dto : LoginDto cfg} (h : LogsIn cfg d dto) :
    ∃ p, phoneOf dto.userId d = some (some p) ∧
      cfg.sha256 (AuthService.normalizePhone dto.phoneNumber) =
        cfg.sha256 (AuthService.normalizePhone p) := by
  obtain ⟨r, hr⟩ := h
  have hres := login_responds d dto
  cases hu : d.users.get dto.userId with
  | none =>
    rw [hu] at hres
    cases hr.unique hres
  | some user =>
    rw [hu] at hres
    dsimp only at hres
    split_ifs at hres with hm
    · cases hp : user.phoneNumber with
      | none => simp [AuthService.phonesMatch, hp] at hm
      | some p =>
        refine ⟨p, by rw [phoneOf, hu, Option.map_some, hp], ?_⟩
        by_cases hempty : p = ""
        · simp [AuthService.phonesMatch, hp, hempty] at hm
        · have hf : (some p).filter (· ≠ "") = some p := by simp [hempty]
          simpa only [AuthService.phonesMatch, hp, hf, Option.isSome_some, Bool.and_true,
            decide_eq_true_eq] using hm
    · cases hr.unique hres

/-- **The phone number of an employee is shown in their contact data only**: the replies to a read
    of another employee `A` on databases that differ in the phone number of `B` are the same but
    for that number, and the same iff the number is or no contact data of `B` are in the reply; the
    lists of items, the history, the inbox and the notifications have no contact data, and the inbox is
    the same up to the ties, which each database orders as it likes; public profiles, items and orders
    show the number; and reads without contact data of `B`, with ties ordered alike, lead to the same
    login request, with which `A` cannot log in as `B` whatever the number is. -/
theorem phone_in_contact_data_only (hAB : A ≠ B) (h : DifferInPhone B d d') :
    (∀ q : Request cfg, q.readBy A → ∃ x x', Responds cfg d q x ∧ Responds cfg d' q x' ∧
      x.map (Response.hidePhone B) = x'.map (Response.hidePhone B) ∧
      (x = x' ↔ phoneOf B d = phoneOf B d' ∨ ∀ p ∈ contacts x, p.userId ≠ B) ∧
      (q.showsContacts = false → contacts x = [])) ∧
    (∀ dto (ties ties' : ℤ × String → ℕ), ∃ x x', Responds cfg d (.conversations A dto ties) x ∧
      Responds cfg d' (.conversations A dto ties') x' ∧ SameButTied x x') ∧
    (∀ phone, phoneOf B d = some phone → ContactShown cfg d A B phone) ∧
    ∀ R : Reading cfg A, R.Blind B d → R.result d = R.result d' ∧
      ∀ p p', (R.result d).userId = B → phoneOf B d = some (some p) →
        phoneOf B d' = some (some p') →
        cfg.sha256 (AuthService.normalizePhone p) ≠ cfg.sha256 (AuthService.normalizePhone p') →
        ¬ (LogsIn cfg d (R.result d) ∧ LogsIn cfg d' (R.result d)) := by
  refine ⟨fun q hq => ?_, fun dto ties ties' => ?_, fun phone => contactShown, fun R hR => ?_⟩
  · obtain ⟨x, x', hx, hx', hsame, hplain⟩ := h.read hAB hq
    refine ⟨x, x', hx, hx', ?_, hsame.eq_iff, hplain⟩
    cases hsame with
    | error e => rfl
    | ok hhide => exact congrArg Except.ok hhide
  · obtain ⟨x, x', hx, hx', htied, -⟩ := responds_of_inbox_perm cfg (h.inbox_perm ties ties') dto
    exact ⟨x, x', hx, hx', htied⟩
  · refine ⟨Reading.result_eq h hAB hR, fun p p' hB hp hp' hne ⟨hin, hin'⟩ => hne ?_⟩
    obtain ⟨p₁, hp₁, hdigest⟩ := hin.digest
    obtain ⟨p₂, hp₂, hdigest'⟩ := hin'.digest
    rw [hB, hp, Option.some.injEq, Option.some.injEq] at hp₁
    rw [hB, hp', Option.some.injEq, Option.some.injEq] at hp₂
    rw [hp₁, hp₂, ← hdigest, hdigest']

/-! ## Two numbers -/

/-- The databases list the same rows but for the phone number of `B`. -/
abbrev SameRowsBut (B : String) (d d' : Database) : Prop :=
  (d.users.rows.map fun x => (x.1, x.2.hidePhone B x.1)) =
    (d'.users.rows.map fun x => (x.1, x.2.hidePhone B x.1)) ∧
  d.items.rows = d'.items.rows ∧ d.orders.rows = d'.orders.rows ∧
  d.messages.rows = d'.messages.rows ∧ d.notifications.rows = d'.notifications.rows

theorem get_eq_of_rows {κ ρ : Type} [DecidableEq κ] {t t' : Table κ ρ} (h : t.rows = t'.rows)
    (k : κ) : t.get k = t'.get k :=
  Option.ext fun r => by rw [← Table.mem_rows, ← Table.mem_rows, h]

theorem differInPhone_of_rows (h : SameRowsBut B d d') : DifferInPhone B d d' := by
  obtain ⟨hu, hi, ho, hm, hn⟩ := h
  have mem {t : Table String User} (u : String) (r : User) :
      (t.get u).map (User.hidePhone B u) = some r ↔
        (u, r) ∈ t.rows.map fun x => (x.1, x.2.hidePhone B x.1) := by
    simp only [Option.map_eq_some_iff, List.mem_map, Prod.mk.injEq]
    constructor
    · rintro ⟨r₀, hr₀, rfl⟩
      exact ⟨(u, r₀), Table.mem_rows.2 hr₀, rfl, rfl⟩
    · rintro ⟨⟨v, r₀⟩, hr₀, rfl, rfl⟩
      exact ⟨r₀, Table.mem_rows.1 hr₀, rfl⟩
  refine ⟨fun u => Option.ext fun r => ?_, fun k hk => ?_⟩
  · rw [mem, mem, hu]
  · cases k with
    | user u => exact absurd rfl (hk u)
    | item i => exact get_eq_of_rows hi i
    | order o => exact get_eq_of_rows ho o
    | message n => exact get_eq_of_rows hm n
    | notification n => exact get_eq_of_rows hn n

/-- The buyer changes the phone number to another one. -/
def sampleOtherNumber : List (AppAction sample) := samplePatch "020-999-888" (by decide +kernel)

theorem sample_numbers : ∃ s s', runs sample sampleUsers sampleNewNumber = some s ∧
    runs sample sampleUsers sampleOtherNumber = some s' ∧ DifferInPhone "EMP00102" s.db s'.db ∧
    phoneOf "EMP00102" s.db = some (some "020-777-888") ∧
    phoneOf "EMP00102" s'.db = some (some "020-999-888") := by
  obtain ⟨s', hs', -⟩ : ∃ s', runs sample sampleUsers sampleOtherNumber = some s' ∧ true = true :=
    reaches (p := fun _ => true) (by decide +kernel)
  obtain ⟨s, hs, h⟩ : ∃ s, runs sample sampleUsers sampleNewNumber = some s ∧
      ((runs sample sampleUsers sampleOtherNumber).any fun s' =>
        SameRowsBut "EMP00102" s.db s'.db ∧ phoneOf "EMP00102" s.db = some (some "020-777-888") ∧
          phoneOf "EMP00102" s'.db = some (some "020-999-888")) = true :=
    reaches (by decide +kernel)
  rw [hs', Option.any_some, decide_eq_true_eq] at h
  obtain ⟨hrows, hp, hp'⟩ := h
  exact ⟨s, s', hs, hs', differInPhone_of_rows hrows, hp, hp'⟩

/-- The seller's list of items is the same, the profile shows the number, and without looking at the buyer's contact data the
    seller does not find a request that logs in as the buyer in both states. -/
theorem phone_in_contact_data_sample : ∃ s s', runs sample sampleUsers sampleNewNumber = some s ∧
    runs sample sampleUsers sampleOtherNumber = some s' ∧
    (∃ x, Responds sample s.db (.findItems ⟨⟨1, 10, by decide, by decide⟩, none, none, none, none,
        by simp, by simp⟩) x ∧
      Responds sample s'.db (.findItems ⟨⟨1, 10, by decide, by decide⟩, none, none, none, none,
        by simp, by simp⟩) x) ∧
    (∃ x, Responds sample s.db (.publicProfile "EMP00102") x ∧
      Shows "EMP00102" (some "020-777-888") x) ∧
    ¬ (LogsIn sample s.db (sampleLogin "020-777-888" (by decide +kernel)) ∧
      LogsIn sample s'.db (sampleLogin "020-777-888" (by decide +kernel))) := by
  obtain ⟨s, s', hs, hs', hd, hp, hp'⟩ := sample_numbers
  have hAB : "EMP00101" ≠ "EMP00102" := by decide
  have hB : (sampleLogin "020-777-888" (by decide +kernel)).userId = "EMP00102" := by decide +kernel
  refine ⟨s, s', hs, hs', ?_, ((phone_in_contact_data_only hAB hd).2.2.1 _ hp).profile, ?_⟩
  · obtain ⟨x, x', hx, hx', -, heq, hplain⟩ := (phone_in_contact_data_only hAB hd).1
      (.findItems ⟨⟨1, 10, by decide, by decide⟩, none, none, none, none, by simp, by simp⟩) trivial
    rw [hplain rfl] at heq
    exact ⟨x, hx, heq.2 (Or.inr nofun) ▸ hx'⟩
  · exact ((phone_in_contact_data_only hAB hd).2.2.2 (.done (sampleLogin "020-777-888" (by decide +kernel)))
      trivial).2 _ _ hB hp hp' (by decide +kernel)

/-- The public profile shows the number, with which the seller can log in as the buyer. -/
theorem phone_in_contact_data_counterexample : ∃ s s' u u',
    runs sample sampleUsers sampleNewNumber = some s ∧
    runs sample sampleUsers sampleOtherNumber = some s' ∧ DifferInPhone "EMP00102" s.db s'.db ∧
    Responds sample s.db (.publicProfile "EMP00102") (.ok (.publicProfile u)) ∧
    Responds sample s'.db (.publicProfile "EMP00102") (.ok (.publicProfile u')) ∧ u ≠ u' ∧
    u.phoneNumber = some "020-777-888" ∧
    LogsIn sample s.db (sampleLogin "020-777-888" (by decide +kernel)) := by
  obtain ⟨s, s', hs, hs', hd, hp, hp'⟩ := sample_numbers
  have responds {d : Database} {phone : Option String} (h : phoneOf "EMP00102" d = some phone) :
      ∃ u, Responds sample d (.publicProfile "EMP00102") (.ok (.publicProfile u)) ∧
        u.phoneNumber = phone := by
    obtain ⟨r, hr, rfl⟩ := Option.map_eq_some_iff.1 h
    refine ⟨partyOf User.qrPaymentUrl "EMP00102" r, replies_query ?_, rfl⟩
    rw [hr]
    exact .done
  obtain ⟨u, hu, hphone⟩ := responds hp
  obtain ⟨u', hu', hphone'⟩ := responds hp'
  refine ⟨s, s', u, u', hs, hs', hd, hu, hu', ?_, hphone, (logsIn_iff sample_sha256).2 ?_⟩
  · rintro rfl
    rw [hphone] at hphone'
    exact absurd hphone' (by decide)
  · obtain ⟨r, hr, hrp⟩ := Option.map_eq_some_iff.1 hp
    exact ⟨r, _, hr, hrp, by decide, by decide +kernel⟩

end Marketplace
