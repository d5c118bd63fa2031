/-
  Transactions on a store that checks constraints.

  `Tx.checked` is a transaction that runs alone, where the database fails the
  INSERT of a row that violates a constraint, and fails no other statement.
-/
import Marketplace.Lib.Alone

namespace ReadCommitted

variable {S : Sig} {α : Type}

/-- The outcome of a transaction that runs alone, when `check` is what the database reports of a new
    row, if anything. -/
def Tx.checked (check : S.Db → Write S → Option S.Fault) (d : S.Db) (now : ℕ) :
    List (Write S) → (S.Tab → ℕ) → Tx S α → Except (Failure S.Fault S.Error) (α × List (Write S))
  | ws, _, .commit a => .ok (a, ws)
  | _, _, .throw e => .error (.app e)
  | ws, seq, .select q k => (k (q (overlay ws d))).checked check d now ws seq
  | ws, seq, .lock key k => (k (S.get (overlay ws d) key)).checked check d now ws seq
  | ws, seq, .update key p f k =>
    match S.get (overlay ws d) key with
    | none => (k 0).checked check d now ws seq
    | some r =>
      if p r then (k 1).checked check d now (ws ++ [⟨key, f r⟩]) seq
      else (k 0).checked check d now ws seq
  | ws, seq, .insert t row k =>
    let w : Write S := ⟨S.serial t (seq t), row now (seq t)⟩
    match check (overlay ws d) w with
    | some f => .error (.db f)
    | none => (k (seq t) w.2).checked check d now (ws ++ [w]) (Function.update seq t (seq t + 1))

end ReadCommitted
