/-
  Publish/subscribe rooms: sockets join and leave named rooms, a broadcast to
  several rooms reaches each connected socket in their union once.

  The state is the fold of the operations (`RoomState.after`), so who can sit
  in a room is read off the joins (`joined_of_mem`).
-/
import Mathlib.Data.List.Basic
import Mathlib.Data.List.Nodup
import Mathlib.Data.List.Induction

/-- What happens to a room server with sockets `σ`, room names `ρ` and events `ε`. -/
inductive RoomOp (σ ρ ε : Type) where
  | connect (x : σ)
  | disconnect (x : σ)
  | join (x : σ) (r : ρ)
  | leave (x : σ) (r : ρ)
  /-- broadcast to the union of the rooms, except to one socket -/
  | emit (rooms : List ρ) (except : Option σ) (e : ε)
  deriving DecidableEq

/-- The operation with its event changed. -/
def RoomOp.map {σ ρ ε ε' : Type} (f : ε → ε') : RoomOp σ ρ ε → RoomOp σ ρ ε'
  | .connect x => .connect x
  | .disconnect x => .disconnect x
  | .join x r => .join x r
  | .leave x r => .leave x r
  | .emit rooms except e => .emit rooms except (f e)

/-- The connected sockets, and who is in which room. -/
structure RoomState (σ ρ : Type) where
  connected : List σ
  members : List (ρ × σ)

namespace RoomState

variable {σ ρ ε : Type} [DecidableEq σ] [DecidableEq ρ]

def empty : RoomState σ ρ := ⟨[], []⟩

/-- The state after one operation; a socket that disconnects leaves all its rooms. -/
def step (s : RoomState σ ρ) : RoomOp σ ρ ε → RoomState σ ρ
  | .connect x => { s with connected := s.connected.insert x }
  | .disconnect x => ⟨s.connected.filter (· ≠ x), s.members.filter (·.2 ≠ x)⟩
  | .join x r => { s with members := s.members.insert (r, x) }
  | .leave x r => { s with members := s.members.filter (· ≠ (r, x)) }
  | .emit .. => s

/-- The state after the operations. -/
def after (ops : List (RoomOp σ ρ ε)) : RoomState σ ρ := ops.foldl step empty

/-- The sockets a broadcast reaches. -/
def recipients (s : RoomState σ ρ) (rooms : List ρ) (except : Option σ) : List σ :=
  s.connected.filter fun x => (rooms.any fun r => (r, x) ∈ s.members) && some x != except

theorem after_snoc (ops : List (RoomOp σ ρ ε)) (op : RoomOp σ ρ ε) :
    after (ops ++ [op]) = (after ops).step op := by simp [after]

theorem after_map {ε' : Type} (f : ε → ε') (ops : List (RoomOp σ ρ ε)) :
    after (ops.map (RoomOp.map f)) = after ops := by
  induction ops using List.reverseRecOn with
  | nil => rfl
  | append_singleton ops op ih =>
    rw [List.map_append, List.map_singleton, after_snoc, after_snoc, ih]
    cases op <;> rfl

theorem nodup_connected (ops : List (RoomOp σ ρ ε)) : (after ops).connected.Nodup := by
  induction ops using List.reverseRecOn with
  | nil => exact List.nodup_nil
  | append_singleton ops op ih =>
    rw [after_snoc]
    cases op with
    | connect x => exact ih.insert
    | disconnect x => exact ih.filter _
    | join | leave | emit => exact ih

theorem joined_of_mem {ops : List (RoomOp σ ρ ε)} {r : ρ} {x : σ}
    (h : (r, x) ∈ (after ops).members) :
    .join x r ∈ ops := by
  induction ops using List.reverseRecOn with
  | nil => simp [after, empty] at h
  | append_singleton ops op ih =>
    rw [after_snoc] at h
    cases op with
    | connect | emit => exact List.mem_append_left _ (ih h)
    | disconnect | leave => exact List.mem_append_left _ (ih (List.mem_of_mem_filter h))
    | join y r' =>
      rcases List.mem_insert_iff.1 h with h | h
      · cases h; simp
      · exact List.mem_append_left _ (ih h)

theorem mem_recipients {s : RoomState σ ρ} {rooms : List ρ} {except : Option σ} {x : σ} :
    x ∈ s.recipients rooms except ↔
      x ∈ s.connected ∧ (∃ r ∈ rooms, (r, x) ∈ s.members) ∧ some x ≠ except := by
  simp [recipients, bne_iff_ne]

/-- A broadcast reaches a socket at most once. -/
theorem count_recipients (ops : List (RoomOp σ ρ ε)) (rooms : List ρ) (except : Option σ) (x : σ) :
    ((after ops).recipients rooms except).count x =
      if x ∈ (after ops).recipients rooms except then 1 else 0 :=
  List.Nodup.count ((nodup_connected ops).filter _)

/-! ## Deliveries over a run -/

/-- How often the socket `x` receives an event that satisfies `p`. -/
def deliveries (p : ε → Bool) (x : σ) (s : RoomState σ ρ) : List (RoomOp σ ρ ε) → ℕ
  | [] => 0
  | op :: ops => (match op with
      | .emit rooms except e => if p e then (s.recipients rooms except).count x else 0
      | _ => 0) + deliveries p x (s.step op) ops

variable {p : ε → Bool} {x : σ}

theorem deliveries_append (s : RoomState σ ρ) (ops ops' : List (RoomOp σ ρ ε)) :
    s.deliveries p x (ops ++ ops') =
      s.deliveries p x ops + (ops.foldl step s).deliveries p x ops' := by
  induction ops generalizing s with
  | nil => simp [deliveries]
  | cons op ops ih => simp only [List.cons_append, deliveries, List.foldl_cons, ih, Nat.add_assoc]

theorem deliveries_eq_zero {s : RoomState σ ρ} {ops : List (RoomOp σ ρ ε)}
    (h : ∀ rooms except e, .emit rooms except e ∈ ops → p e = false) :
    s.deliveries p x ops = 0 := by
  induction ops generalizing s with
  | nil => rfl
  | cons op ops ih =>
    have htail := ih (s := s.step op)
      fun rooms except e he => h rooms except e (List.mem_cons_of_mem _ he)
    cases op with
    | emit rooms except e => simp [deliveries, htail, h rooms except e List.mem_cons_self]
    | _ => simp [deliveries, htail]

/-- An event that is broadcast once is received by the sockets this broadcast reaches. -/
theorem deliveries_once {pre post : List (RoomOp σ ρ ε)} {rooms : List ρ}
    {except : Option σ} {e : ε}
    (he : p e = true) (hpre : ∀ rooms except e, .emit rooms except e ∈ pre → p e = false)
    (hpost : ∀ rooms except e, .emit rooms except e ∈ post → p e = false) :
    (empty : RoomState σ ρ).deliveries p x (pre ++ .emit rooms except e :: post) =
      if x ∈ (after pre).recipients rooms except then 1 else 0 := by
  rw [deliveries_append, deliveries_eq_zero hpre, deliveries, deliveries_eq_zero hpost]
  simp only [he, if_true, Nat.zero_add, Nat.add_zero]
  exact count_recipients pre rooms except x

end RoomState
