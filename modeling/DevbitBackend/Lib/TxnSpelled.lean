import DevbitBackend.Lib.TxnSolo

/-!
# TxnSpelled

An autocommit statement is a transaction of its own. `Prog.query` runs it as one
move, which is exact as long as nobody can tell when it draws its id from when its
row becomes visible. `Prog.spelled` writes the statements that draw an id out as
the transactions that they are, so that other requests can move in between. A lone
run cannot tell the difference (`solo_spelled`).
-/

namespace Txn

variable {E : Engine} {α : Type}

/-- The code with each autocommit statement that draws an id written out. -/
def Prog.spelled : Prog E α → Prog E α
  | .query st k =>
      if E.draws st then .begin (.exec st fun r => .commit (k r).spelled)
      else .query st fun r => (k r).spelled
  | .begin k => .begin k.spelled
  | .lock l k => .lock l k.spelled
  | .exec st k => .exec st fun r => (k r).spelled
  | .commit k => .commit k.spelled
  | .rollback k => .rollback fun ok => (k ok).spelled
  | .clock k => .clock fun now => (k now).spelled
  | .emit n k => .emit n k.spelled
  | .done a => .done a

theorem spelled_query_of_draws {st : E.Stmt} {k : E.Result st → Prog E α} (h : E.draws st = true) :
    (Prog.query st k).spelled = .begin (.exec st fun r => .commit (k r).spelled) :=
  if_pos h

theorem spelled_query {st : E.Stmt} {k : E.Result st → Prog E α} (h : E.draws st = false) :
    (Prog.query st k).spelled = .query st fun r => (k r).spelled :=
  if_neg (by simp [h])

/-- A lone run whose database calls go through does the same. -/
theorem solo_spelled {failed : α} {now : Nat} (p : Prog E α) (n n' : Nat)
    (tx : Option (List E.Write)) (σ : Snap E) :
    p.spelled.solo failed noFailure now n tx σ = p.solo failed noFailure now n' tx σ := by
  induction p generalizing n n' tx σ with
  | query st k ih =>
      cases hd : E.draws st with
      | true =>
          -- spelled as begin, exec and commit, which make one more database call each
          rw [spelled_query_of_draws hd]
          cases tx with
          | some buf => rfl
          | none =>
              cases he : E.eval st now σ.seq σ.db with
              | none => simp [Prog.solo, noFailure, he]
              | some r => simp [Prog.solo, noFailure, he, ih r.1 _ (n' + 1)]
      | false =>
          rw [spelled_query hd]
          cases tx with
          | some buf => rfl
          | none =>
              cases he : E.eval st now σ.seq σ.db with
              | none => simp [Prog.solo, noFailure, he]
              | some r => simp [Prog.solo, noFailure, he, ih r.1 _ (n' + 1)]
  | begin k ih =>
      cases tx with
      | some buf => rfl
      | none => exact ih (n + 1) (n' + 1) _ _
  | lock l k ih =>
      cases tx with
      | none => rfl
      | some buf => exact ih (n + 1) (n' + 1) _ _
  | exec st k ih =>
      cases tx with
      | none => rfl
      | some buf =>
          cases he : E.eval st now σ.seq (E.applyAll buf σ.db) with
          | none => simp [Prog.spelled, Prog.solo, noFailure, he]
          | some r => simp [Prog.spelled, Prog.solo, noFailure, he, ih r.1 _ (n' + 1)]
  | commit k ih =>
      cases tx with
      | none => rfl
      | some buf => exact ih (n + 1) (n' + 1) _ _
  | rollback k ih =>
      cases tx with
      | none => rfl
      | some buf => exact ih _ (n + 1) (n' + 1) _ _
  | clock k ih => exact ih now n n' tx σ
  | emit note k ih => exact ih n n' tx σ
  | done a => rfl

end Txn
