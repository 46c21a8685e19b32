import DevbitBackend.Text

/-!
# Account.Model

Registration as the API shows it (`account.rs`): the constants, the checks of the
arguments, and the answers.

What the handlers take from other crates and from the deployment is `Env`. Times
are microseconds, the resolution of `TIMESTAMPTZ`.
-/

namespace DevbitBackend.Account

def verificationCodeExpiresSeconds : Nat := 600
def verificationResendSeconds : Nat := 60
def maxVerificationAttempts : Nat := 5
def verificationCodeLength : Nat := 6
def maxNameChars : Nat := 50
def maxEmailChars : Nat := 254
def minPasswordChars : Nat := 8

/-- `auth::MAX_PASSWORD_BYTES`. -/
def maxPasswordBytes : Nat := 1024

/-- One second on the clock. -/
def second : Nat := 1000000

/-- Why the mail with a code is not sent, after the code has been stored. -/
inductive MailError
  /-- A setting is missing or the message or the relay cannot be built: 500. -/
  | misconfigured
  /-- The recipient does not parse: 400. -/
  | recipient
  /-- The relay does not take the message: 502. -/
  | rejected
  deriving DecidableEq, Repr

structure Env where
  /-- `str::parse::<Mailbox>`: the text of the address. -/
  parseMailbox : String → Option String
  /-- `str::to_lowercase`. -/
  toLowercase : String → String
  /-- `char::is_alphabetic`. -/
  isAlphabetic : Char → Bool
  /-- `auth::hash_password`, with the salt it draws. -/
  hashPassword : (salt : Nat) → String → String
  /-- `LOWER` of the database. -/
  lower : String → String
  /-- `hashtext` of the database. -/
  hashtext : String → Int
  /-- The variable `SMTP_USERNAME`. -/
  smtpUsername : Option String
  /-- `auth::should_expose_development_code`. -/
  developmentCodeIsAllowed : Bool
  /-- Build and send the mail with a code. -/
  sendMail : (email code : String) → Except MailError Unit

/-- `StatusCode`. -/
abbrev StatusCode := Nat

inductive Response
  /-- `CreateUserResponse`. -/
  | created (name email : String) (id : Int)
  /-- `SendCodeResponse`. -/
  | codeSent (message : String) (expiresInSeconds : Nat) (developmentCode : Option String)
  /-- 429 with its error object. -/
  | rateLimited (code message : String) (retryAfterSeconds : Int)
  | error (status : StatusCode)
  deriving DecidableEq, Repr

/-- `CreateUserRequest`. -/
structure CreateUserRequest where
  name : String
  email : String
  code : String
  password : String
  deriving DecidableEq, Repr

/-! ### Checks -/

def normalizeEmail (env : Env) (value : String) : Except StatusCode String :=
  match env.parseMailbox (trim value) with
  | none => .error 400
  | some address =>
      let email := env.toLowercase address
      if email = "" ∨ maxEmailChars < charCount email then .error 400 else .ok email

theorem normalizeEmail_status {env : Env} {value : String} {status : StatusCode}
    (h : normalizeEmail env value = .error status) : status = 400 := by
  unfold normalizeEmail at h
  split at h
  · exact (Except.error.inj h).symm
  dsimp only at h
  split at h
  · exact (Except.error.inj h).symm
  · cases h

/-- `char::is_control`: the general category Cc. -/
def isControl (c : Char) : Bool := c.val ≤ 0x1F || (0x7F ≤ c.val && c.val ≤ 0x9F)

def validateName (value : String) : Except StatusCode String :=
  let name := trim value
  if name = "" ∨ maxNameChars < charCount name ∨ name.toList.any isControl then .error 400
  else .ok name

/-- `char::is_ascii_digit`. -/
def isAsciiDigit (c : Char) : Bool := '0' ≤ c && c ≤ '9'

def validateNewPassword (env : Env) (value : String) : Except StatusCode Unit :=
  let hasLetter := value.toList.any env.isAlphabetic
  let hasDigit := value.toList.any isAsciiDigit
  if charCount value < minPasswordChars ∨ maxPasswordBytes < value.utf8ByteSize ∨
      !hasLetter ∨ !hasDigit then .error 400
  else .ok ()

def validateVerificationCode (value : String) : Except StatusCode String :=
  let code := trim value
  if code.utf8ByteSize = verificationCodeLength ∧ code.toList.all isAsciiDigit then .ok code
  else .error 400

/-- `rand::random_range(100000..=999999).to_string()`, of the number drawn. -/
def drawnCode (draw : Fin 900000) : String := toString (100000 + draw.val)

/-! ### Answers -/

def rateLimitedVerificationResponse (retryAfter : Int) : Response :=
  .rateLimited "RATE_LIMITED" "操作过于频繁，请稍后再试。" (max retryAfter 1)

def MailError.status : MailError → StatusCode
  | .misconfigured => 500
  | .recipient => 400
  | .rejected => 502

end DevbitBackend.Account
