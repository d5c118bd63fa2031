/-
  Proof rules for the statements of a transaction.

  `TxOk` asks at every statement for a stable assertion.  The rules fix the
  usual one: what was known before, and the row that was just locked.
-/
import Marketplace.Lib.Interference
import Mathlib.Data.List.Induction

namespace ReadCommitted.Spec

variable {S : Sig} {Q : Type} {P : Spec S Q} {q : Q} {log : P.Trace} {β : Type}
  {C : Option P.Event → β → (S.Db → Prop) → Prop} {T : S.Error → (S.Db → Prop) → Prop}
  {held : List S.Key} {A B : S.Db → Prop} {ws : List (Write S)}

/-! ## Weakening -/

theorem TxOk.mono {body : Tx S β} (h : P.TxOk q log C T held B ws body) (hAB : ∀ d, A d → B d) :
    P.TxOk q log C T held A ws body := by
  cases body with
  | commit a =>
    obtain ⟨e, A', hA', hpost, he, hc⟩ := h
    refine ⟨e, A', hA', fun d hb hd => hpost d hb (hAB d hd), ?_, hc⟩
    cases e with
    | none => exact he
    | some e => exact ⟨he.1, he.2.1, fun d hb hd => he.2.2 d hb (hAB d hd)⟩
  | throw x =>
    obtain ⟨A', hA', hpost, hc⟩ := h
    exact ⟨A', hA', fun d hb hd => hpost d hb (hAB d hd), hc⟩
  | select | lock | update => exact fun d hb hd => h d hb (hAB d hd)
  | insert => exact fun d n now hb hd => h d n now hb (hAB d hd)

theorem ReqOk.mono {p : Req S} : ∀ {log : P.Trace} {A B : S.Db → Prop}, P.ReqOk q log B p →
    (∀ d, A d → B d) → P.ReqOk q log A p := by
  induction p with
  | done => exact fun h _ => h
  | tx body k ih => exact fun h hAB => ⟨h.1.mono hAB, fun f => ih _ (h.2 f) hAB⟩
  | call c k ih => exact fun h hAB => ⟨h.1, fun x => ih x (h.2 x) hAB⟩

theorem ReqOk.any {p : Req S} (h : P.ReqOk q log (fun _ => True) p) :
    P.ReqOk q log A p := h.mono fun _ _ => trivial

/-! ## Statements -/

theorem TxOk.select {γ : Type} {g : S.Db → γ} {c : γ → Tx S β} (hA : P.Stable held A)
    (h : ∀ d, P.base d → A d → P.TxOk q log C T held A ws (c (g (overlay ws d)))) :
    P.TxOk q log C T held A ws (.select g c) :=
  fun d hb hd => ⟨A, hA, hd, h d hb hd⟩

/-- SELECT ... FOR UPDATE before the first write: the row read is the row until the end. -/
theorem TxOk.lock {key : S.Key} {c : Option (S.Row key) → Tx S β} (hA : P.Stable held A)
    (hnone : ∀ d, P.base d → A d → S.get d key = none → P.TxOk q log C T held A [] (c none))
    (hsome : ∀ d r, P.base d → A d → S.get d key = some r →
      P.TxOk q log C T (key :: held) (fun d => A d ∧ S.get d key = some r) [] (c (some r))) :
    P.TxOk q log C T held A [] (.lock key c) := by
  intro d hb hd
  rw [overlay_nil]
  cases hg : S.get d key with
  | none => exact ⟨A, hA, hd, hnone d hb hd hg⟩
  | some r =>
    exact ⟨_, (hA.mono (List.subset_cons_self _ _)).and (.row List.mem_cons_self _), ⟨hd, hg⟩,
      hsome d r hb hd hg⟩

theorem TxOk.update {key : S.Key} {p : S.Row key → Bool} {f : S.Row key → S.Row key}
    {c : ℕ → Tx S β} (hA : P.Stable held A) (h₀ : P.TxOk q log C T held A [] (c 0))
    (h₁ : ∀ d r, P.base d → A d → S.get d key = some r → p r = true →
      P.TxOk q log C T (key :: held) (fun d => A d ∧ S.get d key = some r) [⟨key, f r⟩] (c 1)) :
    P.TxOk q log C T held A [] (.update key p f c) := by
  intro d hb hd
  rw [overlay_nil]
  cases hg : S.get d key with
  | none => exact ⟨A, hA, hd, h₀⟩
  | some r =>
    cases hp : p r with
    | false => simpa [hp] using ⟨A, hA, hd, h₀⟩
    | true =>
      simpa [hp] using ⟨_, (hA.mono (List.subset_cons_self _ _)).and (.row List.mem_cons_self _),
        ⟨hd, hg⟩, h₁ d r hb hd hg hp⟩

theorem TxOk.update_some {key : S.Key} {p : S.Row key → Bool} {f : S.Row key → S.Row key}
    {c : ℕ → Tx S β} (hA : P.Stable held A) (hw : ∀ w ∈ ws, w.1 ≠ key)
    (hex : ∀ d, P.base d → A d → ∃ r, S.get d key = some r ∧ p r = true)
    (h : ∀ d r, P.base d → A d → S.get d key = some r →
      P.TxOk q log C T (key :: held) (fun d => A d ∧ S.get d key = some r) (ws ++ [⟨key, f r⟩])
        (c 1)) :
    P.TxOk q log C T held A ws (.update key p f c) := by
  intro d hb hd
  obtain ⟨r, hg, hp⟩ := hex d hb hd
  rw [get_overlay_of_ne hw]
  simpa [hg, hp] using ⟨_, (hA.mono (List.subset_cons_self _ _)).and (.row List.mem_cons_self _),
    ⟨hd, hg⟩, h d r hb hd hg⟩

theorem TxOk.update_known {key : S.Key} {p : S.Row key → Bool} {f : S.Row key → S.Row key}
    {c : ℕ → Tx S β} (r : S.Row key) (hA : P.Stable held A)
    (hr : ∀ d, P.base d → A d → S.get (overlay ws d) key = some r) (hp : p r = true)
    (h : P.TxOk q log C T (key :: held) A (ws ++ [⟨key, f r⟩]) (c 1)) :
    P.TxOk q log C T held A ws (.update key p f c) := by
  intro d hb hd
  simpa [hr d hb hd, hp] using ⟨A, hA.mono (List.subset_cons_self _ _), hd, h⟩

/-- An INSERT: the key was free, and stays free until the commit. -/
theorem TxOk.insert {t : S.Tab} {row : ℕ → (n : ℕ) → S.Row (S.serial t n)}
    {c : (n : ℕ) → S.Row (S.serial t n) → Tx S β} (hA : P.Stable held A)
    (h : ∀ n now, P.first t ≤ n →
      P.TxOk q log C T (S.serial t n :: held) (fun d => A d ∧ S.get d (S.serial t n) = none)
      (ws ++ [⟨S.serial t n, row now n⟩]) (c n (row now n))) :
    P.TxOk q log C T held A ws (.insert t row c) :=
  fun _ n now _ hd hn hg =>
    ⟨_, (hA.mono (List.subset_cons_self _ _)).and (.row List.mem_cons_self _), ⟨hd, hg⟩, h n now hn⟩

theorem TxOk.commit_nil {a : β} (hB : P.Stable [] B) (hAB : ∀ d, P.base d → A d → B d)
    (h : C none a B) : P.TxOk q log C T held A [] (.commit a) :=
  ⟨none, B, hB, hAB, rfl, h⟩

theorem TxOk.commit_of {a : β} (e : P.Event) (hws : ws ≠ []) (hw : P.writes e ws)
    (he : ∀ d, P.base d → A d → P.emits q log e held d (overlay ws d)) (hB : P.Stable [] B)
    (hAB : ∀ d, P.base d → A d → B (overlay ws d)) (h : C (some e) a B) :
    P.TxOk q log C T held A ws (.commit a) :=
  ⟨some e, B, hB, hAB, ⟨hws, hw, he⟩, h⟩

theorem TxOk.commit {a : β} (e : P.Event) (hws : ws ≠ []) (hw : P.writes e ws)
    (he : ∀ d, P.base d → A d → P.emits q log e held d (overlay ws d))
    (h : C (some e) a fun _ => True) : P.TxOk q log C T held A ws (.commit a) :=
  .commit_of e hws hw he (.true []) (fun _ _ _ => trivial) h

theorem TxOk.throw {x : S.Error} (h : T x fun _ => True) : P.TxOk q log C T held A ws (.throw x) :=
  ⟨_, .true [], fun _ _ _ => trivial, h⟩

/-! ## An update of several rows -/

section UpdateEach

variable {ι : Type} {key : ι → S.Key} {p : (i : ι) → S.Row (key i) → Bool}
  {f : (i : ι) → S.Row (key i) → S.Row (key i)} {k : ℕ → Tx S β}

/-- The writes of an update of the rows `ks`. -/
def writesOf (key : ι → S.Key) (f : (i : ι) → S.Row (key i) → S.Row (key i))
    (ks : List (Σ i, S.Row (key i))) : List (Write S) :=
  ks.map fun x => ⟨key x.1, f x.1 x.2⟩

theorem get_overlay_writesOf (hkey : Function.Injective key) {i : ι} {d : S.Db} :
    ∀ {ks : List (Σ i, S.Row (key i))}, i ∈ ks.map Sigma.fst →
      ∃ r, (⟨i, r⟩ : Σ i, S.Row (key i)) ∈ ks ∧
        S.get (overlay (writesOf key f ks) d) (key i) = some (f i r) := by
  intro ks
  induction ks using List.reverseRecOn with
  | nil => simp
  | append_singleton ks x ih =>
    intro hi
    rw [writesOf, List.map_append, overlay_append]
    by_cases hx : i = x.1
    · subst hx
      exact ⟨x.2, by simp, S.get_put ..⟩
    · obtain ⟨r, hr, hg⟩ := ih (by simpa [hx] using hi)
      refine ⟨r, by simp [hr], ?_⟩
      rw [show overlay _ _ = S.put (overlay (writesOf key f ks) d) (key x.1) (f x.1 x.2) from rfl,
        S.get_put_ne _ _ _ _ fun e => hx (hkey e), hg]

theorem get_overlay_writesOf_cases (hkey : Function.Injective key) {d : S.Db}
    {ks : List (Σ i, S.Row (key i))} (hks : ∀ x ∈ ks, S.get d (key x.1) = some x.2) (i : ι) :
    S.get (overlay (writesOf key f ks) d) (key i) = S.get d (key i) ∨
      ∃ r, (⟨i, r⟩ : Σ i, S.Row (key i)) ∈ ks ∧ S.get d (key i) = some r ∧
        S.get (overlay (writesOf key f ks) d) (key i) = some (f i r) := by
  by_cases hi : i ∈ ks.map Sigma.fst
  · obtain ⟨r, hr, hg⟩ := get_overlay_writesOf (f := f) (d := d) hkey hi
    exact Or.inr ⟨r, hr, hks _ hr, hg⟩
  · refine Or.inl (get_overlay_of_ne fun w hw e => hi ?_)
    obtain ⟨x, hx, rfl⟩ := List.mem_map.1 hw
    exact List.mem_map.2 ⟨x, hx, hkey e⟩

theorem Stable.rows (hA : P.Stable [] A) {ks : List (Σ i, S.Row (key i))}
    (hk : ∀ x ∈ ks, key x.1 ∈ held) :
    P.Stable held fun d => A d ∧ ∀ x ∈ ks, S.get d (key x.1) = some x.2 := by
  rintro a b hr ⟨ha, h⟩
  exact ⟨hA.mono (List.nil_subset _) a b hr ha, fun x hx => Stable.row (hk x hx) _ a b hr (h x hx)⟩

/-- The rows updated are known to the end; a row that has been updated no longer satisfies the
    condition, so it is not counted twice. -/
theorem TxOk.updateEach (hkey : Function.Injective key)
    (hpf : ∀ i r, p i r = true → p i (f i r) = false)
    (hA : P.Stable [] A)
    (h : ∀ held ks, (∀ x ∈ ks, p x.1 x.2 = true) → (ks.map Sigma.fst).Nodup →
      (∀ x ∈ ks, key x.1 ∈ held) →
      P.TxOk q log C T held (fun d => A d ∧ ∀ x ∈ ks, S.get d (key x.1) = some x.2) (writesOf key f ks)
        (k ks.length)) (is : List ι) :
    P.TxOk q log C T [] A [] (.updateEach key p f k is 0) := by
  suffices H : ∀ (held : List S.Key) (ks : List (Σ i, S.Row (key i))),
    (∀ x ∈ ks, p x.1 x.2 = true) →
      (ks.map Sigma.fst).Nodup → (∀ x ∈ ks, key x.1 ∈ held) →
      P.TxOk q log C T held (fun d => A d ∧ ∀ x ∈ ks, S.get d (key x.1) = some x.2) (writesOf key f ks)
        (.updateEach key p f k is ks.length) by
    simpa [writesOf] using H [] [] (by simp) (by simp) (by simp)
  induction is with
  | nil => exact fun held ks hp hn hheld => h held ks hp hn hheld
  | cons i is ih =>
    intro held ks hp hn hheld d hb hd
    have hst := Stable.rows hA hheld
    by_cases hi : i ∈ ks.map Sigma.fst
    · obtain ⟨r, hr, hg⟩ := get_overlay_writesOf (f := f) (d := d) hkey hi
      simpa [hg, hpf i r (hp _ hr)] using ⟨_, hst, hd, ih held ks hp hn hheld⟩
    have hne : ∀ w ∈ writesOf key f ks, w.1 ≠ key i := by
      intro w hw e
      obtain ⟨x, hx, rfl⟩ := List.mem_map.1 hw
      exact hi (List.mem_map.2 ⟨x, hx, hkey e⟩)
    rw [get_overlay_of_ne hne]
    cases hg : S.get d (key i) with
    | none => exact ⟨_, hst, hd, ih held ks hp hn hheld⟩
    | some r =>
      cases hpr : p i r with
      | false => simpa [hpr] using ⟨_, hst, hd, ih held ks hp hn hheld⟩
      | true =>
        have hall : ∀ x ∈ ks ++ [⟨i, r⟩], key x.1 ∈ key i :: held := by
          simpa [or_imp, forall_and] using fun x hx => Or.inr (hheld x hx)
        have hnodup : ((ks ++ [(⟨i, r⟩ : Σ i, S.Row (key i))]).map Sigma.fst).Nodup := by
          rw [List.map_append, List.map_singleton, List.nodup_append]
          refine ⟨hn, List.nodup_singleton _, fun j hj j' hj' e => hi ?_⟩
          rw [e, List.mem_singleton.1 hj'] at hj
          exact hj
        have hnext := ih (key i :: held) (ks ++ [⟨i, r⟩])
          (by simpa [or_imp, forall_and] using ⟨hp, hpr⟩) hnodup hall
        have hd' : A d ∧ ∀ x ∈ ks ++ [⟨i, r⟩], S.get d (key x.1) = some x.2 :=
          ⟨hd.1, by simpa [or_imp, forall_and] using ⟨hd.2, hg⟩⟩
        simp only [hpr, if_true]
        exact ⟨_, Stable.rows hA hall, hd', by simpa [writesOf] using hnext⟩

end UpdateEach

/-! ## A SELECT outside of a transaction -/

theorem ReqOk.select {γ : Type} {g : S.Db → γ}
    {k : Except (Failure S.Fault S.Error) γ → Req S}
    (h : ∀ d, P.base d → A d → ∃ B, P.Stable [] B ∧ B d ∧ P.ReqOk q log B (k (.ok (g d))))
    (hf : ∀ f, P.ReqOk q (log ++ [.fault f]) A (k (.error (.db f)))) :
    P.ReqOk q log A (.tx (.select g .commit) k) := by
  refine ⟨fun d hb hd => ?_, hf⟩
  obtain ⟨B, hB, hBd, hk⟩ := h d hb hd
  exact ⟨B, hB, hBd, .commit_nil hB (fun _ _ h => h) (by simpa using hk)⟩

end ReadCommitted.Spec
