/-
  Two runs of a request: replies that do not depend on the store, and
  transactions that read the same on two stores.

  A relation `R` on stores says what they have in common.  A transaction all of
  whose statements read no more than that (`Tx.Reads`) has the same outcome on
  related stores, and related stores stay related under its writes.
-/
import Marketplace.Lib.Alone
import Marketplace.Lib.Rules

namespace ReadCommitted

variable {S : Sig} {α β : Type} {d d' : S.Db}

/-! ## Replies -/

/-- Alone on `d` the request is answered with `r`, at any time and whatever its calls answer. -/
def Req.RepliesOn (d : S.Db) (p : Req S) (r : S.Reply) : Prop :=
  ∀ answers now seq, (p.eval answers now d seq).2.2 = r

namespace Req.RepliesOn

variable {body : Tx S β} {k : Except (Failure S.Fault S.Error) β → Req S} {r : S.Reply}

theorem done : RepliesOn d (.done r) r := fun _ _ _ => rfl

theorem tx_ok {a : β} {ws : List (Write S)}
    (hbody : ∀ now seq, (body.eval d now [] seq).2 = .ok (a, ws))
    (hk : RepliesOn (overlay ws d) (k (.ok a)) r) : RepliesOn d (.tx body k) r := by
  intro answers now seq
  simp only [Req.eval, hbody]
  exact hk ..

theorem tx_error {e : S.Error} (hbody : ∀ now seq, (body.eval d now [] seq).2 = .error e)
    (hk : RepliesOn d (k (.error (.app e))) r) : RepliesOn d (.tx body k) r := by
  intro answers now seq
  simp only [Req.eval, hbody]
  exact hk ..

theorem tx_any (hk : ∀ d x, RepliesOn d (k x) r) : RepliesOn d (.tx body k) r := by
  intro answers now seq
  simp only [Req.eval]
  split <;> exact hk ..

theorem call {c : S.Call} {k : S.Answer → Req S} (hk : ∀ x, RepliesOn d (k x) r) :
    RepliesOn d (.call c k) r := fun _ _ _ => hk _ _ _ _

end Req.RepliesOn

/-- Alone on `d` and alone on `d'` the request is answered the same. -/
def Req.Same (d d' : S.Db) (p : Req S) : Prop := ∃ r, p.RepliesOn d r ∧ p.RepliesOn d' r

theorem Req.Same.of_replies {p : Req S} {r : S.Reply} (h : p.RepliesOn d r)
    (h' : p.RepliesOn d' r) :
    p.Same d d' := ⟨r, h, h'⟩

/-! ## Transactions -/

/-- The transaction inserts nothing, and its statements read the same on stores related by `R`. -/
def Tx.Reads (R : S.Db → S.Db → Prop) : Tx S α → Prop
  | .commit _ => True
  | .throw _ => True
  | .select q k => (∀ d d', R d d' → q d = q d') ∧ ∀ b, (k b).Reads R
  | .lock key k => (∀ d d', R d d' → S.get d key = S.get d' key) ∧ ∀ r, (k r).Reads R
  | .update key _ _ k => (∀ d d', R d d' → S.get d key = S.get d' key) ∧ ∀ n, (k n).Reads R
  | .insert .. => False

variable {R : S.Db → S.Db → Prop}

/-- Stores that are related stay so under equal writes. -/
theorem overlay_related (hput : ∀ d d' k r, R d d' → R (S.put d k r) (S.put d' k r)) (h : R d d')
    (ws : List (Write S)) : R (overlay ws d) (overlay ws d') := by
  induction ws generalizing d d' with
  | nil => exact h
  | cons w ws ih => exact ih (hput _ _ _ _ h)

/-- A transaction that reads what two stores have in common has the same outcome on both. -/
theorem Tx.Reads.eval (hput : ∀ d d' k r, R d d' → R (S.put d k r) (S.put d' k r)) (h : R d d')
    {now now' : ℕ} {seq seq' : S.Tab → ℕ} {body : Tx S α} (hb : body.Reads R)
    (ws : List (Write S)) :
    (body.eval d now ws seq).2 = (body.eval d' now' ws seq').2 := by
  induction body generalizing ws with
  | commit a => rfl
  | throw e => rfl
  | select q k ih =>
    simp only [Tx.eval, hb.1 _ _ (overlay_related hput h ws)]
    exact ih _ (hb.2 _) ws
  | lock key k ih =>
    simp only [Tx.eval, hb.1 _ _ (overlay_related hput h ws)]
    exact ih _ (hb.2 _) ws
  | update key p f k ih =>
    simp only [Tx.eval, hb.1 _ _ (overlay_related hput h ws)]
    split
    · exact ih _ (hb.2 _) ws
    · split
      · exact ih _ (hb.2 _) _
      · exact ih _ (hb.2 _) ws
  | insert => exact hb.elim

theorem Req.Same.tx (hput : ∀ d d' k r, R d d' → R (S.put d k r) (S.put d' k r)) (h : R d d')
    {body : Tx S β} {k : Except (Failure S.Fault S.Error) β → Req S} (hb : body.Reads R)
    (hk : ∀ d d' x, R d d' → (k x).Same d d') : Req.Same d d' (.tx body k) := by
  have hout (now : ℕ) (seq : S.Tab → ℕ) (now' : ℕ) (seq' : S.Tab → ℕ) :
      (body.eval d now [] seq).2 = (body.eval d' now' [] seq').2 := hb.eval hput h []
  cases hd : (body.eval d 0 [] fun _ => 0).2 with
  | ok out =>
    obtain ⟨a, ws⟩ := out
    obtain ⟨r, hr, hr'⟩ := hk _ _ (.ok a) (overlay_related hput h ws)
    have hd' := (hout 0 _ 0 fun _ => 0).symm.trans hd
    exact ⟨r, .tx_ok (fun now seq => (hout now seq 0 _).trans hd') hr,
      .tx_ok (fun now seq => (hout 0 _ now seq).symm.trans hd) hr'⟩
  | error e =>
    obtain ⟨r, hr, hr'⟩ := hk _ _ (.error (.app e)) h
    have hd' := (hout 0 _ 0 fun _ => 0).symm.trans hd
    exact ⟨r, .tx_error (fun now seq => (hout now seq 0 _).trans hd') hr,
      .tx_error (fun now seq => (hout 0 _ now seq).symm.trans hd) hr'⟩

/-- An UPDATE of rows that are there and meet its condition writes and counts them all. -/
theorem Tx.eval_updateEach {ι : Type} {key : ι → S.Key} (hkey : Function.Injective key)
    {p : (i : ι) → S.Row (key i) → Bool} {f : (i : ι) → S.Row (key i) → S.Row (key i)}
    {k : ℕ → Tx S α} (now : ℕ) (seq : S.Tab → ℕ) (ks : List (Σ i, S.Row (key i)))
    (hks : (ks.map Sigma.fst).Nodup) (n : ℕ) (ws : List (Write S))
    (hrows : ∀ x ∈ ks, S.get (overlay ws d) (key x.1) = some x.2 ∧ p x.1 x.2 = true) :
    (Tx.updateEach key p f k (ks.map Sigma.fst) n).eval d now ws seq =
      (k (n + ks.length)).eval d now (ws ++ Spec.writesOf key f ks) seq := by
  induction ks generalizing n ws with
  | nil => simp [Tx.updateEach, Spec.writesOf]
  | cons x ks ih =>
    obtain ⟨hx, hks⟩ := List.nodup_cons.1 hks
    obtain ⟨hget, hp⟩ := hrows x List.mem_cons_self
    have hrest := ih hks (n + 1) (ws ++ [⟨key x.1, f x.1 x.2⟩]) fun y hy => by
      obtain ⟨hget', hp'⟩ := hrows y (List.mem_cons_of_mem _ hy)
      refine ⟨?_, hp'⟩
      have hyx : key y.1 ≠ key x.1 := fun h => hx (hkey h ▸ List.mem_map_of_mem hy)
      rw [overlay_append, show overlay _ _ = S.put (overlay ws d) (key x.1) (f x.1 x.2) from rfl,
        S.get_put_ne _ _ _ _ hyx, hget']
    simp only [List.map_cons, Tx.updateEach, Tx.eval, hget, hp, if_true, hrest, List.length_cons,
      List.append_assoc, Spec.writesOf, List.cons_append, List.nil_append]
    rw [Nat.add_right_comm, Nat.add_assoc]

theorem Req.RepliesOn.updateEach {ι : Type} {key : ι → S.Key} (hkey : Function.Injective key)
    {p : (i : ι) → S.Row (key i) → Bool} {f : (i : ι) → S.Row (key i) → S.Row (key i)}
    {g : S.Db → List ι} {k : Except (Failure S.Fault S.Error) ℕ → Req S} {r : S.Reply}
    (hids : (g d).Nodup) (hrows : ∀ i ∈ g d, ∃ row, S.get d (key i) = some row ∧ p i row = true)
    (hk : ∀ d', RepliesOn d' (k (.ok (g d).length)) r) :
    RepliesOn d (.tx (.select g fun ids => .updateEach key p f .commit ids 0) k) r := by
  intro answers now seq
  obtain ⟨ks, hks, hmem⟩ : ∃ ks : List (Σ i, S.Row (key i)), ks.map Sigma.fst = g d ∧
      ∀ x ∈ ks, S.get d (key x.1) = some x.2 ∧ p x.1 x.2 = true := by
    clear hids hk
    revert hrows
    induction g d with
    | nil => exact fun _ => ⟨[], rfl, by simp⟩
    | cons i ids ih =>
      intro hrows
      obtain ⟨row, hrow⟩ := hrows i List.mem_cons_self
      obtain ⟨ks, hks, hmem⟩ := ih fun j hj => hrows j (List.mem_cons_of_mem _ hj)
      exact ⟨⟨i, row⟩ :: ks, by simp [hks], by simpa using ⟨hrow, hmem⟩⟩
  have hws := Tx.eval_updateEach (k := .commit) (f := f) hkey now seq ks (hks ▸ hids) 0 [] hmem
  simp only [Req.eval, Tx.eval, overlay_nil, ← hks, hws, Nat.zero_add, List.nil_append]
  have hlen : ks.length = (g d).length := by rw [← hks, List.length_map]
  rw [hlen]
  exact hk ..

end ReadCommitted
