import DevbitBackend.Lib.Txn
import DevbitBackend.Account.Model

/-!
# Account.Tables

The tables `users` and `verify_code` and the SQL statements of registration, as a
`Txn.Engine`. A mailbox is the value of `LOWER(email)`; the unique index on it
leaves at most one row of `verify_code` for each.

`FOR UPDATE`, `UPDATE` and `DELETE` lock the row they match, the upsert locks its
row whether it is new or not, and an `INSERT` of a user holds its entry in the
unique index on `email`. `NOW()` is the start of the transaction.
-/

namespace DevbitBackend.Account

open Txn

structure UserRow where
  id : Int
  name : String
  email : String
  password : String
  isAdmin : Bool
  deriving DecidableEq, Repr

/-- A row of `verify_code`. -/
structure CodeRow where
  email : String
  code : String
  expiresAt : Nat
  createdAt : Nat
  attempts : Nat
  /-- History: how many codes had been stored before this one. -/
  issue : Nat
  deriving DecidableEq, Repr

structure Db where
  users : List UserRow
  codes : List CodeRow
  /-- History: how many codes have been stored. -/
  stored : Nat
  deriving DecidableEq, Repr

variable (env : Env)

/-- The row is the one of the mailbox. -/
def CodeRow.isOf (mailbox : String) (r : CodeRow) : Bool := env.lower r.email == mailbox

/-- `verify_code WHERE LOWER(email) = mailbox`. -/
def Db.codeOf (mailbox : String) (db : Db) : Option CodeRow := db.codes.find? (·.isOf env mailbox)

/-! ### Statements -/

inductive Stmt
  /-- `SELECT code, attempts ... AND expires_at > NOW() ... FOR UPDATE` -/
  | codeForUpdate (email : String)
  /-- `DELETE FROM verify_code WHERE LOWER(email) = LOWER($1)` -/
  | deleteCode (email : String)
  /-- `UPDATE verify_code SET attempts = attempts + 1` -/
  | addAttempt (email : String)
  /-- `INSERT INTO users ... RETURNING id`; `none` is a unique violation. -/
  | insertUser (name email password : String)
  /-- `SELECT created_at FROM verify_code` -/
  | lastSent (email : String)
  /-- `INSERT INTO verify_code ... ON CONFLICT (LOWER(email)) DO UPDATE` -/
  | storeCode (email code : String)
  deriving DecidableEq, Repr

@[reducible] def Stmt.Result : Stmt → Type
  | .codeForUpdate _ => Option CodeRow
  | .deleteCode _ => Unit
  | .addAttempt _ => Unit
  | .insertUser _ _ _ => Option Int
  | .lastSent _ => Option Nat
  | .storeCode _ _ => Unit

/-! ### Writes -/

inductive Write
  | insertUser (u : UserRow)
  | deleteCode (mailbox : String)
  | addAttempt (mailbox : String)
  | storeCode (email code : String) (expiresAt createdAt : Nat)
  deriving DecidableEq, Repr

/-- The row after `ON CONFLICT DO UPDATE`. -/
def CodeRow.renew (code : String) (expiresAt createdAt issue : Nat) (r : CodeRow) : CodeRow :=
  { r with code := code, expiresAt := expiresAt, createdAt := createdAt, attempts := 0,
           issue := issue }

/-- The effect of a row-level write. -/
def Write.apply : Write → Db → Db
  | .insertUser u, db => { db with users := db.users ++ [u] }
  | .deleteCode mailbox, db => { db with codes := db.codes.filter (!·.isOf env mailbox) }
  | .addAttempt mailbox, db =>
      { db with codes := db.codes.map fun r =>
          if r.isOf env mailbox then { r with attempts := r.attempts + 1 } else r }
  | .storeCode email code expiresAt createdAt, db =>
      let mailbox := env.lower email
      { db with
        codes :=
          if db.codes.any (·.isOf env mailbox) then
            db.codes.map fun r =>
              if r.isOf env mailbox then r.renew code expiresAt createdAt db.stored else r
          else
            db.codes ++ [{ email := email, code := code, expiresAt := expiresAt,
                           createdAt := createdAt, attempts := 0, issue := db.stored }]
        stored := db.stored + 1 }

/-! ### What the statements do -/

/-- The row of the mailbox, if it has not expired at `now`. -/
def Db.liveCode (email : String) (now : Nat) (db : Db) : Option CodeRow :=
  (db.codeOf env (env.lower email)).filter fun r => now < r.expiresAt

/-- The next value of `users_id_seq` when the last one was `seq`. -/
def nextval (seq : Nat) : Int := (seq : Int) + 1

/-- One statement at time `now`. -/
def eval : (st : Stmt) → (now seq : Nat) → Db → Option (st.Result × List Write)
  | .codeForUpdate email, now, _, db => some (db.liveCode env email now, [])
  | .deleteCode email, _, _, _ => some ((), [.deleteCode (env.lower email)])
  | .addAttempt email, _, _, _ => some ((), [.addAttempt (env.lower email)])
  | .insertUser name email password, _, seq, db =>
      -- `password` is `VARCHAR(255)`
      if 255 < charCount password ∨ !storable name then none
      else if db.users.any (·.email == email) then some (none, [])
      else
        some (some (nextval seq), [.insertUser
          { id := nextval seq, name := name, email := email, password := password,
            isAdmin := false }])
  | .lastSent email, _, _, db =>
      some ((db.codeOf env (env.lower email)).map (·.createdAt), [])
  | .storeCode email code, now, _, _ =>
      some ((), [.storeCode email code (now + verificationCodeExpiresSeconds * second) now])

/-! ### Locks and the engine -/

inductive Lock
  /-- The advisory lock `pg_advisory_xact_lock(hashtext(email), 0)`. -/
  | send (key : Int)
  /-- The row of `verify_code` of a mailbox. -/
  | code (mailbox : String)
  /-- The entry of an email in the unique index of `users`. -/
  | userEmail (email : String)
  deriving DecidableEq, Repr

/-- The rows a statement locks. -/
def rowLocks : Stmt → (now seq : Nat) → Db → List Lock
  | .codeForUpdate email, now, _, db =>
      if (db.liveCode env email now).isSome then [.code (env.lower email)] else []
  | .deleteCode email, _, _, db | .addAttempt email, _, _, db =>
      if (db.codeOf env (env.lower email)).isSome then [.code (env.lower email)] else []
  | .insertUser _ email _, _, _, _ => [.userEmail email]
  | .lastSent _, _, _, _ => []
  | .storeCode email _, _, _, _ => [.code (env.lower email)]

/-- History: the code `submitted` was compared with the stored row. -/
structure Comparison where
  row : CodeRow
  submitted : String
  deriving DecidableEq, Repr

def Stmt.draws : Stmt → Bool
  | .insertUser _ _ _ => true
  | _ => false

/-- The database of registration. -/
@[reducible] def engine : Engine where
  Db := Db
  Write := Write
  Stmt := Stmt
  Result := Stmt.Result
  Lock := Lock
  Note := Comparison
  apply := Write.apply env
  eval := eval env
  locks := rowLocks env
  draws := Stmt.draws

/-! ### The row of a mailbox after a write -/

variable {env} {db : Db} {m m' : String}

theorem isOf_disjoint (hm : m' ≠ m) {r : CodeRow} (h : r.isOf env m' = true) :
    r.isOf env m = false := by
  simp only [CodeRow.isOf, beq_iff_eq, beq_eq_false_iff_ne] at h ⊢
  rwa [h]

theorem codeOf_deleteCode (m : String) :
    (Write.apply env (.deleteCode m) db).codeOf env m = none := by
  simp [Write.apply, Db.codeOf]

theorem codeOf_deleteCode_other (hm : m' ≠ m) :
    (Write.apply env (.deleteCode m) db).codeOf env m' = db.codeOf env m' := by
  simp only [Write.apply, Db.codeOf, List.find?_filter]
  congr 1
  funext r
  cases h : r.isOf env m' <;> simp [h, isOf_disjoint hm]

/-- An update that keeps the email of every row. -/
theorem find_map_isOf (f : CodeRow → CodeRow) (hf : ∀ r, (f r).email = r.email)
    (codes : List CodeRow) :
    (codes.map f).find? (·.isOf env m) = (codes.find? (·.isOf env m)).map f := by
  rw [List.find?_map]
  congr 2
  funext r
  simp [CodeRow.isOf, hf]

/-- An update of the row of `m`, as the mailboxes see it. -/
theorem find_update (m m' : String) (f : CodeRow → CodeRow) (hf : ∀ r, (f r).email = r.email)
    (codes : List CodeRow) :
    (codes.map fun r => if r.isOf env m then f r else r).find? (·.isOf env m') =
      (codes.find? (·.isOf env m')).map fun r => if m' = m then f r else r := by
  rw [find_map_isOf _ (fun r => by split <;> simp [hf])]
  cases hr : codes.find? (·.isOf env m') with
  | none => rfl
  | some r =>
      have hof : r.isOf env m' = true := by simpa using List.find?_some hr
      have hiff : r.isOf env m = true ↔ m' = m := by
        simp only [CodeRow.isOf, beq_iff_eq] at hof ⊢
        rw [hof]
      simp [hiff]

theorem codeOf_addAttempt (m m' : String) :
    (Write.apply env (.addAttempt m) db).codeOf env m' =
      (db.codeOf env m').map fun r => if m' = m then { r with attempts := r.attempts + 1 } else r :=
  find_update m m' (fun r => { r with attempts := r.attempts + 1 }) (fun _ => rfl) db.codes

theorem codeOf_storeCode (env : Env) (db : Db) (email code : String)
    (expiresAt createdAt : Nat) :
    ∃ email', (Write.apply env (.storeCode email code expiresAt createdAt) db).codeOf env
      (env.lower email) = some ⟨email', code, expiresAt, createdAt, 0, db.stored⟩ := by
  simp only [Write.apply, Db.codeOf]
  split
  · rename_i hany
    rw [find_update _ _ (CodeRow.renew code expiresAt createdAt db.stored) (fun _ => rfl)]
    obtain ⟨r, hr⟩ := Option.isSome_iff_exists.mp (List.find?_isSome.mpr (List.any_eq_true.mp hany))
    exact ⟨r.email, by simp [hr, CodeRow.renew]⟩
  · rename_i hany
    have hnone : db.codes.find? (·.isOf env (env.lower email)) = none := by
      simpa using hany
    refine ⟨email, ?_⟩
    rw [List.find?_append, hnone, Option.none_or]
    simp [CodeRow.isOf]

theorem codeOf_storeCode_other (email code : String) (expiresAt createdAt : Nat)
    (hm : m' ≠ env.lower email) :
    (Write.apply env (.storeCode email code expiresAt createdAt) db).codeOf env m' =
      db.codeOf env m' := by
  simp only [Write.apply, Db.codeOf]
  split
  · rw [find_update _ _ (CodeRow.renew code expiresAt createdAt db.stored) (fun _ => rfl)]
    simp [hm]
  · simp [List.find?_append, CodeRow.isOf, hm.symm]

end DevbitBackend.Account
