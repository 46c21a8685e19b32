import DevbitBackend.Social.Model
import DevbitBackend.Text

/-!
# Auth.Identity

Who makes a request (`auth.rs`): the token in the headers, and the identity that a
valid token carries. `jsonwebtoken::decode` is `Jwt`: its answer depends on the
secret of the process and on the clock, which decides whether a token has expired.
-/

namespace DevbitBackend.Auth

open Social (UserId)

/-- `Utc::now().timestamp()`, in seconds. -/
abbrev Timestamp := Int

structure Claims where
  sub : UserId
  email : Option String
  exp : Nat
  deriving DecidableEq, Repr

structure AuthIdentity where
  userId : UserId
  expiresAt : Nat
  deriving DecidableEq, Repr

structure Jwt where
  /-- `decode::<Claims>(token, ..)` with the secret of the process. -/
  decode : String → Timestamp → Option Claims

/-- `identity_from_token`: whom a token that decodes is for, and until when. -/
def identityFromToken (jwt : Jwt) (now : Timestamp) (token : String) : Option AuthIdentity :=
  (jwt.decode token now).map fun claims => ⟨claims.sub, claims.exp⟩

/-- `HeaderValue`: its bytes. -/
abbrev HeaderValue := List UInt8

/-- `HeaderMap`: names in lower case, in the order of the request. -/
abbrev HeaderMap := List (String × HeaderValue)

/-- `headers.get(name)`: the first value. -/
def HeaderMap.get (headers : HeaderMap) (name : String) : Option HeaderValue :=
  (headers.find? fun entry => entry.1 == name).map Prod.snd

/-- `value.to_str().ok()`: visible ASCII and tabs only. -/
def toStr (value : HeaderValue) : Option String :=
  if value.all fun b => (32 ≤ b && b < 127) || b == 9 then
    some (String.ofList (value.map fun b => Char.ofNat b.toNat))
  else none

/-- `AUTH_COOKIE_NAME`. -/
def authCookieName : String := "auth_token"

/-- The token of one cookie, when it is ours and not empty. -/
def authCookie (cookie : String) : Option String :=
  (stripPrefix (authCookieName ++ "=") (trim cookie)).filter fun token => !token.isEmpty

/-- `token_from_headers`: a bearer token, or else the cookie of that name. -/
def tokenFromHeaders (headers : HeaderMap) : Option String :=
  let bearer := ((headers.get "authorization").bind toStr).bind (stripPrefix "Bearer ")
  match (bearer.map trim).filter fun value => !value.isEmpty with
  | some token => some token
  | none => ((headers.get "cookie").bind toStr).bind fun cookies =>
      (splitOn ';' cookies).findSome? authCookie

/-- `identity_from_headers`: the identity of the token that the headers present. No table
is read. -/
def identityFromHeaders (jwt : Jwt) (now : Timestamp) (headers : HeaderMap) :
    Option AuthIdentity :=
  (tokenFromHeaders headers).bind (identityFromToken jwt now)

/-- `remaining_token_lifetime`, in seconds: zero for a token that has expired. -/
def remainingTokenLifetime (now : Timestamp) (identity : AuthIdentity) : Nat :=
  identity.expiresAt - now.toNat

end DevbitBackend.Auth
