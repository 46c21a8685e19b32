import Mathlib.Data.Prod.Lex
import DevbitBackend.Lib.Heap
import DevbitBackend.Account.Tables

/-!
# Migrations.VerifyCodes

Migration `202607140001` makes `LOWER(email)` unique in `verify_code`: it deletes what a
later row supersedes and then builds the index (`uniqueEmails_exact`). Nothing is assumed
of `LOWER`.
-/

namespace DevbitBackend.Migrations

open HeapTable

/-- A tuple identifier: the block, then the place in it. -/
abbrev Ctid := Nat ×ₗ Nat

/-- A row of `verify_code`, as this migration has it. -/
structure VerifyCode where
  email : String
  code : String
  expiresAt : Nat
  deriving DecidableEq, Repr

/-- `verify_code_email_lower_idx`. -/
def emailLowerIdx : String := "verify_code_email_lower_idx"

section

variable (lower : String → String)

/-- `DELETE FROM verify_code a USING verify_code b WHERE ...`. -/
def deleteDuplicates (t : Heap Ctid VerifyCode) : Heap Ctid VerifyCode :=
  t.deleteUsing fun a b => lower a.row.email = lower b.row.email && a.ctid < b.ctid

/-- The `DELETE`, then `CREATE UNIQUE INDEX IF NOT EXISTS ... (LOWER(email))`. -/
def uniqueEmails (t : Table Ctid VerifyCode) : Except SqlError (Table Ctid VerifyCode) :=
  createUniqueIndex emailLowerIdx (fun r => lower r.email)
    { t with heap := deleteDuplicates lower t.heap }

variable {lower}

theorem deleteDuplicates_eq_keepLast (t : Heap Ctid VerifyCode) :
    deleteDuplicates lower t = t.keepLast fun r => lower r.email := rfl

theorem unique_deleteDuplicates (lower : String → String) (t : Heap Ctid VerifyCode) :
    (deleteDuplicates lower t).Unique fun r => lower r.email := by
  rw [deleteDuplicates_eq_keepLast]
  exact Heap.unique_keepLast _ t

/-- What it leaves of the table. -/
theorem uniqueEmails_ok (lower : String → String) (t : Table Ctid VerifyCode) :
    ∃ indexes, emailLowerIdx ∈ indexes ∧
      uniqueEmails lower t = .ok ⟨deleteDuplicates lower t.heap, indexes⟩ :=
  createUniqueIndex_of_unique emailLowerIdx (unique_deleteDuplicates lower t.heap)

/-- **The migration deduplicates exactly.** It runs on every table; of the rows with one
`LOWER(email)` it leaves the one with the greatest `ctid`, as it was, and it deletes
nothing from a table where that is unique. -/
theorem uniqueEmails_exact (lower : String → String) (t : Table Ctid VerifyCode) :
    ∃ t', uniqueEmails lower t = .ok t' ∧ emailLowerIdx ∈ t'.indexes ∧
      t'.heap.tuples.Sublist t.heap.tuples ∧
      (∀ a ∈ t.heap.tuples, ∃ last ∈ t.heap.tuples,
        (∀ b ∈ t.heap.tuples, lower b.row.email = lower a.row.email → b.ctid ≤ last.ctid) ∧
        t'.heap.tuples.filter (fun b => lower b.row.email = lower a.row.email) = [last]) ∧
      (t.heap.Unique (fun r => lower r.email) → t'.heap = t.heap) := by
  obtain ⟨indexes, hindex, hok⟩ := uniqueEmails_ok lower t
  refine ⟨_, hok, hindex, Heap.sublist_deleteUsing _, ?_, fun h => h.keepLast_eq⟩
  intro a ha
  obtain ⟨last, hlast, hkey⟩ : ∃ last, Heap.IsLast (fun r => lower r.email) t.heap last ∧
      lower last.row.email = lower a.row.email := Heap.exists_isLast ha
  refine ⟨last, hlast.mem, fun b hb hsame => hlast.le b hb (hsame.trans hkey.symm), ?_⟩
  rw [← hkey]
  exact Heap.filter_keepLast hlast

/-- A second run changes nothing: there are no duplicates left, and the index is there. -/
theorem uniqueEmails_again {t t' : Table Ctid VerifyCode} (h : uniqueEmails lower t = .ok t') :
    uniqueEmails lower t' = .ok t' := by
  obtain ⟨indexes, hindex, hok⟩ := uniqueEmails_ok lower t
  obtain rfl := Except.ok.inj (hok.symm.trans h)
  have hsame : deleteDuplicates lower (deleteDuplicates lower t.heap) =
      deleteDuplicates lower t.heap := (unique_deleteDuplicates lower t.heap).keepLast_eq
  rw [uniqueEmails, hsame]
  exact createUniqueIndex_exists hindex

end

/-! ### The codes that the handlers find -/

/-- The columns that a row of `verify_code` has had from the start. -/
def initialColumns (r : Account.CodeRow) : VerifyCode := ⟨r.email, r.code, r.expiresAt⟩

/-- With the rows that are left, a mailbox has the code of its last row. -/
theorem codeOf_deleteDuplicates {env : Account.Env} {db : Account.Db} {t : Heap Ctid VerifyCode}
    (hcodes : db.codes.map initialColumns =
      (deleteDuplicates env.lower t).tuples.map Tuple.row)
    {last : Tuple Ctid VerifyCode} (hlast : Heap.IsLast (fun r => env.lower r.email) t last) :
    (db.codeOf env (env.lower last.row.email)).map initialColumns = some last.row := by
  have hfound : (db.codeOf env (env.lower last.row.email)).map initialColumns =
      (db.codes.map initialColumns).find? fun r =>
        env.lower r.email = env.lower last.row.email := by
    rw [Account.Db.codeOf, List.find?_map]
    congr 1
  have hleft : (deleteDuplicates env.lower t).tuples.filter
      ((fun r => decide (env.lower r.email = env.lower last.row.email)) ∘ Tuple.row) = [last] := by
    rw [deleteDuplicates_eq_keepLast]
    exact Heap.filter_keepLast hlast
  rw [hfound, hcodes, List.find?_map, ← List.head?_filter, hleft]
  rfl

end DevbitBackend.Migrations
