import DevbitBackend.Account.Tables

/-!
# Account.Handlers

`create_user` and `send_verification_code` (`account.rs`), statement by statement.
-/

namespace DevbitBackend.Account

open Txn

variable (env : Env)

/-- The code of a registration call. -/
abbrev Code := Prog (engine env) Response

/-- A statement in the open transaction. -/
def exec {env : Env} (st : Stmt) (k : st.Result → Code env) : Code env := .exec st k

/-- Go on with a checked value. -/
def orFail {env : Env} {β : Type} (r : Except StatusCode β) (k : β → Code env) : Code env :=
  match r with
  | .error status => .done (.error status)
  | .ok b => k b

/-- What a handler answers when a database call fails: the `?` maps every error to 500. -/
def failed : Response := .error 500

/-! ### Registration -/

/-- `create_user` once the codes are equal. -/
def registerUser (name email passwordHash : String) : Code env :=
  exec (.insertUser name email passwordHash) fun (inserted : Option Int) =>
  match inserted with
  | none => .rollback fun _ => .done (.error 409)
  | some id =>
      exec (.deleteCode email) fun _ =>
      .commit <| .done (.created name email id)

/-- The transaction of `create_user`. The row of the code is locked first, so that the
calls for one mailbox come one after another; a wrong code is counted and committed. -/
def redeemCode (name email code passwordHash : String) : Code env :=
  .begin <|
  exec (.codeForUpdate email) fun (row : Option CodeRow) =>
  match row with
  | none => .done (.error 401)
  | some row =>
      if maxVerificationAttempts ≤ row.attempts then
        exec (.deleteCode email) fun _ =>
        .commit <| .done (.error 401)
      else
        -- the submitted code is compared with the stored one
        .emit ⟨row, code⟩ <|
        if row.code ≠ code then
          exec (.addAttempt email) fun _ =>
          .commit <| .done (.error 401)
        else registerUser env name email passwordHash

/-- `create_user`: the payload is checked and the password hashed before the transaction
begins. -/
def createUser (payload : CreateUserRequest) (salt : Nat) : Code env :=
  orFail (normalizeEmail env payload.email) fun email =>
  orFail (validateName payload.name) fun name =>
  orFail (validateNewPassword env payload.password) fun _ =>
  orFail (validateVerificationCode payload.code) fun code =>
  redeemCode env name email code (env.hashPassword salt payload.password)

/-! ### Sending codes -/

/-- `send_verification_code` after the commit. When the mail cannot be sent the row stays,
and with it the cooldown. -/
def deliver (email code : String) : Response :=
  let developmentCode := if env.developmentCodeIsAllowed then some code else none
  match env.smtpUsername.filter (trim · != "") with
  | none =>
      .codeSent "Verification code generated for development." verificationCodeExpiresSeconds
        developmentCode
  | some _ =>
      match env.sendMail email code with
      | .error e => .error e.status
      | .ok () =>
          .codeSent "Verification code sent. Please check your email."
            verificationCodeExpiresSeconds developmentCode

/-- `send_verification_code` once the cooldown is over. -/
def storeCode (email code : String) : Code env :=
  exec (.storeCode email code) fun _ =>
  .commit <| .done (deliver env email code)

/-- `signed_duration_since(last_sent).num_seconds()` at `now`: whole seconds, rounded
towards zero. -/
def elapsedSeconds (now lastSent : Nat) : Int := ((now : Int) - lastSent).tdiv second

/-- `send_verification_code`: under an advisory lock of the mailbox the time of the last
code is read, and within the cooldown the call is refused with the seconds that are left. -/
def sendVerificationCode (value : String) (draw : Fin 900000) : Code env :=
  orFail (normalizeEmail env value) fun email =>
  if (env.smtpUsername.filter (trim · != "")).isNone && !env.developmentCodeIsAllowed then
    .done (.error 503)
  else
  .begin <| .lock (.send (env.hashtext email)) <|
  exec (.lastSent email) fun (lastSent : Option Nat) =>
  match lastSent with
  | none => storeCode env email (drawnCode draw)
  | some lastSent =>
      .clock fun now =>
      let elapsed := elapsedSeconds now lastSent
      if elapsed < verificationResendSeconds then
        .rollback fun done =>
          .done (if done then
              rateLimitedVerificationResponse (verificationResendSeconds - elapsed)
            else failed)
      else storeCode env email (drawnCode draw)

/-! ### The calls -/

inductive Call
  | createUser (payload : CreateUserRequest) (salt : Nat)
  | sendVerificationCode (email : String) (draw : Fin 900000)
  deriving DecidableEq, Repr

def Call.code : Call → Code env
  | .createUser payload salt => Account.createUser env payload salt
  | .sendVerificationCode email draw => Account.sendVerificationCode env email draw

variable {ι : Type}

/-- A server of registration calls. -/
abbrev Server (ι : Type) := Sys (engine env) ι Response

def config (poolSize : Nat) (faulty : Bool) : Config ι Response :=
  ⟨poolSize, faulty, fun _ => failed⟩

/-- The server before the calls arrive. -/
def server (db : Db) (seq now : Nat) (calls : ι → Call) : Server env ι :=
  .start db seq now fun i => (calls i).code env

/-- One move of the server. -/
def serve [DecidableEq ι] (poolSize : Nat) (faulty : Bool) :
    Label ι → Server env ι → Option (Server env ι) :=
  step (config poolSize faulty)

end DevbitBackend.Account
