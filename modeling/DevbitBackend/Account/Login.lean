import DevbitBackend.Lib.TxnEmbed
import DevbitBackend.Account.Avatar
import DevbitBackend.Account.Handlers
import DevbitBackend.Auth.Identity
import DevbitBackend.Auth.Password

/-!
# Account.Login

`login_check` (`account.rs`) over the tables of registration, and all the calls of
`auth_routes`. An account is looked up by `LOWER(email)`; where several rows match, the
first one is taken. A password that matches a text of an older kind is hashed again.
-/

namespace DevbitBackend.Login

open Txn
open Account (User UserRow)

/-- The salt that `hash_password` draws, of the number drawn. -/
def saltOf (salt : Nat) : Vector UInt8 16 := .ofFn fun i => UInt8.ofNat (salt >>> (8 * i.val))

structure Env extends Account.Env where
  crypto : Auth.Crypto
  hashPassword_eq : ∀ salt password,
    hashPassword salt password = Auth.hashPassword crypto (saltOf salt) password
  /-- `auth::generate_token`. -/
  generateToken : (now : Nat) → (userId : Int) → (email : String) → Option String
  /-- `auth::is_admin_user`. -/
  isAdminUser : Int → Bool

structure LoginRequest where
  email : String
  password : String
  deriving DecidableEq, Repr

inductive Response
  /-- An answer of registration. -/
  | registration (a : Account.Response)
  /-- `LoginResponse` with its cookie. -/
  | loggedIn (setCookie token : String) (user : User)
  | error (status : Account.StatusCode)
  deriving DecidableEq, Repr

/-- `auth_cookie`. -/
def setAuthCookie (token : String) : String :=
  Auth.authCookieName ++ "=" ++ token ++
    "; Path=/; HttpOnly; Secure; SameSite=Strict; Max-Age=86400"

/-! ### Tables -/

structure Db where
  registration : Account.Db
  /-- The column `users.avatar_url`. -/
  avatarUrl : Int → Option String

variable (env : Env)

/-- `users WHERE LOWER(email) = LOWER($1)`. -/
def Db.accounts (email : String) (db : Db) : List UserRow :=
  db.registration.users.filter fun u => env.lower u.email == env.lower email

/-- A row of `SELECT password, id, name, email, avatar_url`. -/
structure LoginRow where
  password : String
  id : Int
  name : String
  email : String
  avatarUrl : Option String
  deriving DecidableEq, Repr

def Db.loginRow (u : UserRow) (db : Db) : LoginRow :=
  ⟨u.password, u.id, u.name, u.email, db.avatarUrl u.id⟩

/-- The account of an e-mail address. -/
def Db.account (email : String) (db : Db) : Option LoginRow :=
  ((db.accounts env email).head?).map (Db.loginRow · db)

inductive Stmt
  | registration (st : Account.Stmt)
  /-- `SELECT ... FROM users WHERE LOWER(email) = LOWER($1)` -/
  | account (email : String)
  /-- `UPDATE users SET password = $1 WHERE id = $2` -/
  | setPassword (password : String) (id : Int)
  deriving DecidableEq, Repr

@[reducible] def Stmt.Result : Stmt → Type
  | .registration st => st.Result
  | .account _ => Option LoginRow
  | .setPassword _ _ => Unit

inductive Write
  | registration (w : Account.Write)
  | setPassword (password : String) (id : Int)
  deriving DecidableEq, Repr

/-- The row after `UPDATE users SET password`. -/
def withPassword (password : String) (id : Int) (u : UserRow) : UserRow :=
  if u.id = id then { u with password := password } else u

def Write.apply : Write → Db → Db
  | .registration w, db => { db with registration := w.apply env.toEnv db.registration }
  | .setPassword password id, db =>
      { db with registration :=
          { db.registration with users := db.registration.users.map (withPassword password id) } }

/-- One statement at time `now`. -/
def eval : (st : Stmt) → (now seq : Nat) → Db → Option (st.Result × List Write)
  | .registration st, now, seq, db =>
      (Account.eval env.toEnv st now seq db.registration).map
        fun res => (res.1, res.2.map .registration)
  | .account email, _, _, db => some (db.account env email, [])
  | .setPassword password id, _, _, _ =>
      -- `password` is `VARCHAR(255)`
      if 255 < charCount password ∨ !storable password then none
      else some ((), [.setPassword password id])

inductive Lock
  | registration (l : Account.Lock)
  /-- The row of a user. -/
  | user (id : Int)
  deriving DecidableEq, Repr

/-- The rows a statement locks. -/
def rowLocks : Stmt → (now seq : Nat) → Db → List Lock
  | .registration st, now, seq, db =>
      (Account.rowLocks env.toEnv st now seq db.registration).map .registration
  | .account _, _, _, _ => []
  | .setPassword _ id, _, _, _ => [.user id]

def Stmt.draws : Stmt → Bool
  | .registration st => st.draws
  | _ => false

/-- The database of `auth_routes`. -/
@[reducible] def engine : Engine where
  Db := Db
  Write := Write
  Stmt := Stmt
  Result := Stmt.Result
  Lock := Lock
  Note := Account.Comparison
  apply := Write.apply env
  eval := eval env
  locks := rowLocks env
  draws := Stmt.draws

/-- Registration is a part of it. -/
def registrationPart : Embedding (Account.engine env.toEnv) (engine env) where
  stmt := .registration
  write := .registration
  lock := .registration
  note := id
  view := Db.registration
  put d db := { db with registration := d }
  into _ r := r
  out _ r := r
  out_into _ _ := rfl
  put_view _ := rfl
  view_put _ _ := rfl
  put_put _ _ _ := rfl
  apply_write _ _ := rfl
  eval_stmt _ _ _ _ := rfl
  locks_stmt _ _ _ _ := rfl
  draws_stmt _ := rfl

/-! ### The handlers -/

abbrev Code := Prog (engine env) Response

/-- A database call of `login_check` failed. -/
def failed : Response := .error 500

/-- The answer to a login at `now`. -/
def issued (now : Nat) (row : LoginRow) : Response :=
  match env.generateToken now row.id row.email with
  | none => .error 500
  | some token =>
      .loggedIn (setAuthCookie token) token
        ⟨row.id, row.name, row.email, row.avatarUrl, env.isAdminUser row.id⟩

/-- `login_check` once the password is valid. -/
def issue (row : LoginRow) : Code env := .clock fun now => .done (issued env now row)

/-- `login_check` once the account is found. -/
def checkPassword (row : LoginRow) (password : String) (salt : Nat) : Code env :=
  if !Auth.verifyPassword env.crypto password row.password then .done (.error 401)
  else if Auth.passwordNeedsUpgrade row.password then
    .query (.setPassword (env.hashPassword salt password) row.id) fun _ => issue env row
  else issue env row

/-- `login_check`: the account is looked up by its address in any case, the password is
verified, and a stored text that is no current hash is replaced by one. -/
def loginCheck (payload : LoginRequest) (salt : Nat) : Code env :=
  if payload.password = "" ∨ Account.maxPasswordBytes < payload.password.utf8ByteSize then
    .done (.error 400)
  else match Account.normalizeEmail env.toEnv payload.email with
  | .error status => .done (.error status)
  | .ok email =>
  .query (.account email) fun (row : Option LoginRow) =>
  match row with
  | none => .done (.error 401)
  | some row => checkPassword env row payload.password salt

/-! ### The calls -/

/-- The calls of `auth_routes`. -/
inductive Call
  | registration (c : Account.Call)
  | loginCheck (payload : LoginRequest) (salt : Nat)
  deriving DecidableEq, Repr

def Call.code : Call → Code env
  | .registration c => (c.code env.toEnv).embed (registrationPart env) .registration
  | .loginCheck payload salt => Login.loginCheck env payload salt

/-- The answer when a database call fails. -/
def Call.failed : Call → Response
  | .registration _ => .registration Account.failed
  | .loginCheck _ _ => Login.failed

variable {ι : Type}

abbrev Server (ι : Type) := Sys (engine env) ι Response

def config (poolSize : Nat) (faulty : Bool) (calls : ι → Call) : Config ι Response :=
  ⟨poolSize, faulty, fun i => (calls i).failed⟩

/-- The server before the calls arrive. -/
def server (db : Db) (seq now : Nat) (calls : ι → Call) : Server env ι :=
  .start db seq now fun i => (calls i).code env

/-- One move of the server. -/
def serve [DecidableEq ι] (poolSize : Nat) (faulty : Bool) (calls : ι → Call) :
    Label ι → Server env ι → Option (Server env ι) :=
  step (config poolSize faulty calls)

end DevbitBackend.Login
