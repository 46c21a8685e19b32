import DevbitBackend.Account.Passwords
import DevbitBackend.Auth.Tokens
import DevbitBackend.Lib.TxnReads
import DevbitBackend.Lib.TxnWrites

/-!
# Account.Sessions

The server of `auth_routes` with `current_user` and `logout` (`account.rs`). Nothing is
stored for a session: the token that `login_check` answers with is the whole of it, and
`logout` tells the client to forget the cookie.
-/

namespace DevbitBackend.Sessions

open Txn Transition
open Account (UserRow ProfileRow User StatusCode)
open Auth (HeaderMap)
open Login (LoginRequest)

structure Env extends toLogin : Login.Env where
  jsonwebtoken : Auth.JsonWebToken
  /-- The variable `JWT_SECRET`. -/
  jwtSecret : Option String
  generateToken_eq : ∀ now userId email,
    generateToken now userId email = Auth.generateToken jsonwebtoken jwtSecret now userId email

inductive Response
  | auth (a : Login.Response)
  | user (u : User)
  /-- `LogoutResponse` with its cookie. -/
  | loggedOut (setCookie : String)
  | error (status : StatusCode)
  deriving DecidableEq, Repr

/-- `Utc::now().timestamp()`. -/
def timestamp (now : Nat) : Auth.Timestamp := (now / Account.second : Nat)

/-! ### Tables -/

/-- `SELECT id, name, email, avatar_url FROM users WHERE id = $1`. -/
def profile (db : Login.Db) (id : Int) : Option ProfileRow :=
  (db.registration.users.find? (·.id == id)).map fun u => ⟨u.id, u.name, u.email, db.avatarUrl u.id⟩

inductive Stmt
  | auth (st : Login.Stmt)
  | profile (id : Int)
  deriving DecidableEq, Repr

@[reducible] def Stmt.Result : Stmt → Type
  | .auth st => st.Result
  | .profile _ => Option ProfileRow

inductive Note
  | comparison (c : Account.Comparison)
  /-- `ws_state.disconnect_user`. -/
  | disconnect (userId : Int)
  deriving DecidableEq, Repr

variable (env : Env)

/-- One statement at time `now`. -/
def eval : (st : Stmt) → (now seq : Nat) → Login.Db → Option (st.Result × List Login.Write)
  | .auth st, now, seq, db => Login.eval env.toLogin st now seq db
  | .profile id, _, _, db => some (profile db id, [])

/-- The rows a statement locks. -/
def rowLocks : Stmt → (now seq : Nat) → Login.Db → List Login.Lock
  | .auth st, now, seq, db => Login.rowLocks env.toLogin st now seq db
  | .profile _, _, _, _ => []

def Stmt.draws : Stmt → Bool
  | .auth st => st.draws
  | .profile _ => false

/-- The database of the account pages. -/
@[reducible] def engine : Engine where
  Db := Login.Db
  Write := Login.Write
  Stmt := Stmt
  Result := Stmt.Result
  Lock := Login.Lock
  Note := Note
  apply := Login.Write.apply env.toLogin
  eval := eval env
  locks := rowLocks env
  draws := Stmt.draws

/-- `auth_routes` is a part of it. -/
def authPart : Embedding (Login.engine env.toLogin) (engine env) where
  stmt := .auth
  write := id
  lock := id
  note := .comparison
  view := id
  put d _ := d
  into _ r := r
  out _ r := r
  out_into _ _ := rfl
  put_view _ := rfl
  view_put _ _ := rfl
  put_put _ _ _ := rfl
  apply_write _ _ := rfl
  eval_stmt st now seq db := by
    cases h : Login.eval env.toLogin st now seq db <;> simp [eval, h]
  locks_stmt _ _ _ _ := (List.map_id _).symm
  draws_stmt _ := rfl

/-! ### The handlers -/

abbrev Code := Prog (engine env) Response

/-- A database call of a page failed. -/
def failed : Response := .error 500

/-- `identity_from_headers`, in the process. -/
def identity (now : Nat) (headers : HeaderMap) : Option Auth.AuthIdentity :=
  Auth.identityFromHeaders (env.jsonwebtoken.process env.jwtSecret) (timestamp now) headers

/-- The user of a row. -/
def userOf (row : ProfileRow) : User :=
  ⟨row.id, row.name, row.email, row.avatarUrl, env.isAdminUser row.id⟩

/-- `current_user`: the profile of the user that the token names; 401 without a valid
token or without such a user. -/
def currentUser (headers : HeaderMap) : Code env :=
  .clock fun now =>
  match identity env now headers with
  | none => .done (.error 401)
  | some identity =>
  .query (.profile identity.userId) fun (row : Option ProfileRow) =>
  match row with
  | none => .done (.error 401)
  | some row => .done (.user (userOf env row))

/-- `logout`: the connections of the user are closed, and the answer sets a cookie that has
expired. The token itself is not revoked. -/
def logout (headers : HeaderMap) : Code env :=
  .clock fun now =>
  match identity env now headers with
  | none => .done (.loggedOut Auth.expiredAuthCookie)
  | some identity =>
      .emit (.disconnect identity.userId) (.done (.loggedOut Auth.expiredAuthCookie))

/-! ### The calls -/

inductive Call
  | auth (c : Login.Call)
  | currentUser (headers : HeaderMap)
  | logout (headers : HeaderMap)
  deriving DecidableEq, Repr

def Call.code : Call → Code env
  | .auth c => (c.code env.toLogin).embed (authPart env) .auth
  | .currentUser headers => Sessions.currentUser env headers
  | .logout headers => Sessions.logout env headers

/-- The answer when a database call fails. -/
def Call.failed : Call → Response
  | .auth c => .auth c.failed
  | .currentUser _ | .logout _ => Sessions.failed

variable {ι : Type}

abbrev Server (ι : Type) := Sys (engine env) ι Response

def config (poolSize : Nat) (faulty : Bool) (calls : ι → Call) : Config ι Response :=
  ⟨poolSize, faulty, fun i => (calls i).failed⟩

/-- The server before the calls arrive. -/
def server (db : Login.Db) (seq now : Nat) (calls : ι → Call) : Server env ι :=
  .start db seq now fun i => (calls i).code env

/-- One move of the server. -/
def serve [DecidableEq ι] (poolSize : Nat) (faulty : Bool) (calls : ι → Call) :
    Label ι → Server env ι → Option (Server env ι) :=
  step (config poolSize faulty calls)

end DevbitBackend.Sessions
