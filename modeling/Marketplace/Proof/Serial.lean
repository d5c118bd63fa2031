/-
  Trading is serializable.

  The row locks make a request that changes an item or an order do what it does
  alone when it commits, with one exception: the checks of a payment slip are
  made without a lock, before its UPDATE.  But a slip that comes after its order
  has been resolved might as well have come before.
-/
import Marketplace.Proof.Replays
import Marketplace.Proof.Notices
import Marketplace.Proof.Integrity
import Marketplace.Proof.PaymentSlips

namespace Marketplace

open ReadCommitted

variable {cfg : Config} {q : Request cfg} {e : Event} {L : List Key} {d d' : Database} {o : ℤ}
  {u : String} {dto : AttachPaymentSlipDto cfg}

/-- A commit changes items or orders. -/
def Changes (c : Commit market (Request cfg)) : Prop :=
  (overlay (S := market) c.writes c.db : Database).goods ≠ c.db.goods

theorem Emits.goods_eq {base : Database → Prop} (he : Emits cfg base q e L d d') :
    d'.goods = d.goods ∨ e.trades = true :=
  he.quiet.imp_left fun h => by rw [Database.goods, Database.goods, h.1, h.2]

/-! ## What a slip has been checked against -/

/-- A row of an order is written after order `o` has been read, PENDING. -/
def Checked (o : ℤ) (l : List Database) : Write market → Prop
  | ⟨.order _, _⟩ => ∃ d ∈ l, ∃ r, d.orders.get o = some r ∧ r.status = .pending
  | _ => True

theorem attachPaymentSlip_checked (o : ℤ) (u : String) (dto : AttachPaymentSlipDto cfg) :
    (program cfg (.attachPaymentSlip o u dto)).Vouches (Checked o) [] := by
  have rest (l : List Database) : (OrdersService.findOneForUser o u fun x =>
      NotificationsService.notifyPaymentSlipAttached cfg x (answer (.order x))).Vouches (Checked o) l :=
    vouches_findOneForUser fun _ _ _ =>
      vouches_notify (fun _ _ _ => trivial) (fun _ => vouches_answer _) fun _ _ => trivial
  simp only [program, OrdersService.attachPaymentSlip]
  cases StorageService.assertManagedUrls cfg [dto.paymentSlipUrl] with
  | error => exact vouches_fail _
  | ok =>
    refine vouches_query fun d => ?_
    cases hr : d.orders.get o with
    | none => exact vouches_fail _
    | some r =>
      dsimp only
      split_ifs with _ _ hp
      · exact vouches_fail _
      · exact vouches_fail _
      · exact vouches_fail _
      · have hread : ∃ d' ∈ [] ++ [d], ∃ r, d'.orders.get o = some r ∧ r.status = .pending :=
          ⟨d, List.mem_singleton_self d, r, hr, not_not.1 hp⟩
        exact ⟨⟨fun _ _ => hread, rest _, rest _⟩, fun _ _ => vouches_fail _⟩

theorem Emits.not_open {base : Database → Prop} (he : Emits cfg base q e L d d')
    (h : ¬ d.goods.Open o) : ¬ d'.goods.Open o := by
  simp only [Goods.Open, not_forall, exists_prop] at h ⊢
  obtain ⟨r, hr, hp⟩ := h
  rcases he.order_cases hr with h | ⟨_, _, _, _, hp', _⟩ | ⟨_, _, _, _, _, h⟩
  · exact ⟨r, h, hp⟩
  · exact absurd hp' hp
  · exact ⟨_, h, hp⟩

namespace Deployment

variable {D : Deployment} {acts as : List (AppAction cfg)} {s s' : AppState cfg} {i : ℕ}
  {st : Stage market}

/-- An order that a slip is written to has not always been resolved. -/
theorem open_of_slip (hrun : D.runs cfg as = some s)
    (hi : s.sessions[i]? = some (.attachPaymentSlip o u dto, st)) (hw : .order o ∈ st.writes.map Sigma.fst) :
    D.db.goods.Open o := by
  by_contra hres
  obtain ⟨⟨k, row⟩, hw, rfl⟩ := List.mem_map.1 hw
  obtain ⟨d₁, hd₁, r, hr, hp⟩ := vouched (C := Checked o) (A := fun q => q = .attachPaymentSlip o u dto)
    (by rintro _ rfl; exact attachPaymentSlip_checked o u dto) rfl hrun hi _ hw
  obtain ⟨as₁, bs, t, -, ht, rfl⟩ := State.mem_reads hrun hd₁
  refine always (I := fun d => ¬ d.goods.Open o) hres (fun _ _ _ _ _ he h => he.not_open h) ht
    fun r' hr' => ?_
  rw [show t.db.goods.orders o = some r from hr] at hr'
  cases hr'
  exact hp

theorem numbersNew (hrun : D.runs cfg as = some s) (hi : s.sessions[i]? = some (q, st))
    (hdb : s'.db = overlay st.writes s.db) : NumbersNew s.db s'.db := by
  have written {k : Key} (hn : s.db.get k = none) (hk : (s'.db.get k).isSome) :
      ∃ (t : Serial) (n : ℕ), k = t.key n := by
    obtain ⟨r, hr⟩ := Option.isSome_iff_exists.1 hk
    rw [hdb] at hr
    rcases State.writes_serial (fun _ _ => runs_guarded) hrun hi _ (mem_writes hr hn) with h | h
    · rw [show market.get s.db k = none from hn] at h
      cases h
    · exact h
  constructor
  · intro k hn hk
    obtain ⟨t, n, hkey⟩ := written (k := .item k) hn hk
    cases t <;> cases hkey
    exact Int.natCast_nonneg n
  · intro k hn hk
    obtain ⟨t, n, hkey⟩ := written (k := .order k) hn hk
    cases t <;> cases hkey
    exact Int.natCast_nonneg n

open scoped Classical in
/-- The request that changes items or orders by what it commits, if any. -/
noncomputable def tradeOf (c? : Option (Commit market (Request cfg))) : List (Request cfg) :=
  (c?.toList.filter fun c => Changes c).map Commit.request

theorem tradeOf_pos {c : Commit market (Request cfg)} (h : Changes c) :
    tradeOf (some c) = [c.request] := by
  rw [tradeOf, Option.toList_some, List.filter_cons_of_pos (by simpa using h)]
  rfl

theorem tradeOf_neg {c : Commit market (Request cfg)} (h : ¬ Changes c) : tradeOf (some c) = [] := by
  rw [tradeOf, Option.toList_some, List.filter_cons_of_neg (by simpa using h)]
  rfl

variable (cfg D acts)

open scoped Classical in
/-- The requests that have changed items or orders, in the order in which they have done so. -/
noncomputable def trades : List (Request cfg) :=
  (((D.start cfg).commits (program cfg) acts).filter fun c => Changes c).map Commit.request

/-- No payment slip comes after its order has been resolved. -/
def SlipsInTime : Prop :=
  ∀ c ∈ (D.start cfg).commits (program cfg) acts, Changes c → SlipInTime c.request c.db

variable {cfg D acts}

theorem trades_snoc {a : AppAction cfg} (hs : D.runs cfg as = some s) :
    D.trades cfg (as ++ [a]) = D.trades cfg as ++ tradeOf (s.commit? a) := by
  rw [trades, State.commits_snoc hs, List.filter_append, List.map_append]
  rfl

theorem SlipsInTime.of_snoc {a : AppAction cfg} (hs : D.runs cfg as = some s)
    (h : D.SlipsInTime cfg (as ++ [a])) :
    D.SlipsInTime cfg as ∧ ∀ c ∈ s.commit? a, Changes c → SlipInTime c.request c.db := by
  rw [SlipsInTime, State.commits_snoc hs] at h
  exact ⟨fun c hc => h c (List.mem_append_left _ hc), fun c hc =>
    h c (List.mem_append_right _ (Option.mem_toList.2 hc))⟩

theorem slip_written (he : Emits cfg (fun _ => True) (.attachPaymentSlip o u dto) e L d d')
    (htrades : e.trades = true) : StorageService.isManagedUrl cfg dto.paymentSlipUrl = true ∧
      Slips o u dto.paymentSlipUrl d.goods d'.goods := by
  cases he with
  | attachSlip hurl hr hu _ =>
    refine ⟨hurl, ⟨_, hr, hu⟩, ?_⟩
    rw [goods_put_order, Goods.reslip_eq hr]
  | readMessages | notify | readNotifications | forgetToken => cases htrades

theorem slip_mem_writes {ws : List (Write market)} {slip : String}
    (h : Slips o u slip d.goods (overlay ws d : Database).goods)
    (hne : (overlay ws d : Database).goods ≠ d.goods) : .order o ∈ ws.map Sigma.fst := by
  by_contra hw
  obtain ⟨⟨r, hr, -⟩, hslip⟩ := h
  have hsame : (overlay ws d : Database).goods.orders o = some r :=
    (get_overlay_of_not_mem (S := market) hw d).trans hr
  rw [hslip, Goods.reslip_eq hr] at hne hsame
  rw [Goods.orders_putOrder, if_pos rfl] at hsame
  rw [Option.some.inj hsame] at hne
  exact hne (Goods.putOrder_self _ hr)

/-- A commit adds a trade, or it leaves the goods alone. -/
theorem trades_step {h l : (Regime.any : Regime cfg).spec.History} {a : AppAction cfg}
    {qs : List (Request cfg)} (hs : D.runs cfg as = some s)
    (hout : (Regime.any : Regime cfg).spec.Outcome s h a s' l)
    (hturns : Turns Trade D.db.goods qs s.db.goods) :
    ∃ qs', Turns Trade D.db.goods qs' s'.db.goods ∧ qs'.Perm (qs ++ tradeOf (s.commit? a)) ∧
      ((∀ c ∈ s.commit? a, Changes c → SlipInTime c.request c.db) →
        qs' = qs ++ tradeOf (s.commit? a)) := by
  have quiet (hg : s'.db.goods = s.db.goods) (hnil : tradeOf (s.commit? a) = []) :
      ∃ qs', Turns Trade D.db.goods qs' s'.db.goods ∧ qs'.Perm (qs ++ tradeOf (s.commit? a)) ∧
        ((∀ c ∈ s.commit? a, Changes c → SlipInTime c.request c.db) →
          qs' = qs ++ tradeOf (s.commit? a)) := by
    rw [hnil, hg, List.append_nil]
    exact ⟨qs, hturns, .refl _, fun _ => rfl⟩
  cases hout with
  | silent hc hd => exact quiet (by rw [hd]) (by rw [hc]; rfl)
  | fault i f q st ha _ hd => exact quiet (by rw [hd]) (by rw [ha]; rfl)
  | call i q st c ha hi hc hd => exact quiet (by rw [hd]) (by rw [ha, State.commit?_eq_none hi hc]; rfl)
  | emit i q st e ha hi hc hd _ he =>
    have hcommit : s.commit? a = some ⟨i, q, st.writes, s.db, s.callsOf i⟩ := by
      rw [ha, State.commit?_eq hi hc]
    by_cases hch : Changes (⟨i, q, st.writes, s.db, s.callsOf i⟩ : Commit market (Request cfg))
    · have hne : s'.db.goods ≠ s.db.goods := by rwa [hd]
      have htrades : e.trades = true := he.1.goods_eq.resolve_left hne
      rw [hcommit, tradeOf_pos hch]
      by_cases hslip : SlipInTime q s.db
      · exact ⟨qs ++ [q], hturns.snoc (he.1.trade htrades (numbersNew hs hi hd) hslip), .refl _,
          fun _ => rfl⟩
      · -- a slip that comes too late
        rw [SlipInTime] at hslip
        simp only [not_forall] at hslip
        obtain ⟨o, u, dto, r, rfl, hr, hp⟩ := hslip
        obtain ⟨hurl, hslip⟩ := slip_written he.1 htrades
        have hlate : ¬ s.db.goods.Open o := fun h => hp (h r hr)
        have hopen : D.db.goods.Open o := open_of_slip hs hi (slip_mem_writes (by rwa [← hd]) hch)
        obtain ⟨l₁, l₂, rfl, hturns'⟩ := turns_slip hurl hturns hopen hlate hslip
        refine ⟨_, hturns', List.perm_middle.trans (List.perm_append_singleton _ _).symm, fun h => ?_⟩
        exact absurd (h _ rfl hch o u dto r rfl hr) hp
    · refine quiet ?_ (by rw [hcommit, tradeOf_neg hch])
      rw [hd]
      exact not_not.1 hch

/-- **Trading is serializable.**  The items and orders of a state are those of the requests that have
    changed them, made one at a time and answered, in some order: the order of their commits, if every
    payment slip is for an order that is PENDING. -/
theorem trades_serializable (answers : Call → Answer) (hrun : D.runs cfg acts = some s) :
    ∃ qs d, qs.Perm (D.trades cfg acts) ∧ Turns (MadeAlone answers) D.db qs d ∧
      d.goods = s.db.goods ∧ (D.SlipsInTime cfg acts → qs = D.trades cfg acts) := by
  obtain ⟨qs, hturns, hperm, horder⟩ : ∃ qs, Turns Trade D.db.goods qs s.db.goods ∧
      qs.Perm (D.trades cfg acts) ∧ (D.SlipsInTime cfg acts → qs = D.trades cfg acts) := by
    refine ((start_sim .any trivial).induction (fun q _ => program_ok q)
      (I := fun as s _ => ∃ qs, Turns Trade D.db.goods qs s.db.goods ∧
        qs.Perm (D.trades cfg as) ∧ (D.SlipsInTime cfg as → qs = D.trades cfg as))
      ⟨[], .nil, .nil, fun _ => rfl⟩ (fun as a bs s s' h l _ hs _ _ _ hout ih => ?_)
      (fun _ _ => trivial) hrun).elim fun _ h => h.2
    obtain ⟨qs, hturns, hperm, horder⟩ := ih
    obtain ⟨qs', hturns', hperm', horder'⟩ := trades_step hs hout hturns
    rw [trades_snoc hs]
    refine ⟨qs', hturns', hperm'.trans (hperm.append_right _), fun hin => ?_⟩
    obtain ⟨hin, hlast⟩ := hin.of_snoc hs
    rw [horder' hlast, horder hin]
  obtain ⟨d, hd, hgoods⟩ := hturns.sim (R := fun g (d : Database) => d.goods = g)
    (fun q g g' d ht hg => ht.madeAlone answers hg) rfl
  exact ⟨qs, d, hperm, hd, hgoods, horder⟩

/-- The order with a slip that came after it had been completed, from requests made one at a time. -/
theorem trades_serializable_sample : ∃ qs d,
    qs.Perm ((Deployment.migrated sampleUsers).trades sample sampleSlipLate) ∧
    Turns (MadeAlone fun _ => .done) (.migrated sampleUsers) qs d ∧
    (d.orders.get 1).any (fun r => r.status = .completed && r.paymentSlipUrl.isSome) = true := by
  obtain ⟨s, hrun, hs⟩ : ∃ s, Marketplace.runs sample sampleUsers sampleSlipLate = some s ∧
      ((s.db.orders.get 1).any fun r => r.status = .completed && r.paymentSlipUrl.isSome) = true :=
    reaches (by decide +kernel)
  obtain ⟨qs, d, hperm, hturns, hgoods, -⟩ :=
    trades_serializable (D := .migrated sampleUsers) (fun _ => .done) hrun
  refine ⟨qs, d, hperm, hturns, ?_⟩
  rw [show d.orders.get 1 = s.db.orders.get 1 from congrFun (congrArg Goods.orders hgoods) 1]
  exact hs

end Deployment

end Marketplace
