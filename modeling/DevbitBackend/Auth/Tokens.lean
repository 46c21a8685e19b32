import DevbitBackend.Account.Model
import DevbitBackend.Auth.Cookies
import DevbitBackend.Lib.Base64

/-!
# Auth.Tokens

The life of a token (`auth.rs`): which secret signs it, how long it is taken, and how a
client sends it back, in a header of its own or in the cookie that the server has set
(`Presents`). `jsonwebtoken` is a parameter, of which the law is that it reads back what it
has signed, until that has expired.
-/

namespace DevbitBackend.Auth

open Social (UserId)

/-- `DEFAULT_JWT_SECRET`. -/
def defaultJwtSecret : String := "devbit-local-secret"

/-- `jwt_secret`, of the variable `JWT_SECRET`. -/
def jwtSecret (variable_ : Option String) : String :=
  (variable_.filter fun value => !(trim value).isEmpty).getD defaultJwtSecret

structure JsonWebToken where
  /-- `encode` with `Header::default()`. -/
  encode : (secret : String) → Claims → Option String
  /-- `decode` with `Validation::default()`. -/
  decode : (secret token : String) → (now : Timestamp) → Option Claims

/-- `Validation::default().leeway`, in seconds. -/
def leeway : Nat := 60

/-- The characters of a token: its parts are in base64, with dots between them. -/
def isTokenChar (c : Char) : Bool := Base64.isUrlSafe c || c == '.'

/-- What `auth.rs` relies on: a token that was encoded with a secret decodes with it to
the claims until it has expired, leeway included. -/
structure JsonWebToken.Lawful (jsonwebtoken : JsonWebToken) : Prop where
  decode_encode : ∀ {secret claims token}, jsonwebtoken.encode secret claims = some token →
    ∀ now : Timestamp, jsonwebtoken.decode secret token now =
      if now ≤ claims.exp + leeway then some claims else none
  encode_chars : ∀ {secret claims token}, jsonwebtoken.encode secret claims = some token →
    token ≠ "" ∧ ∀ c ∈ token.toList, isTokenChar c = true

/-- The life of a token, in seconds. -/
def tokenSeconds : Nat := 24 * 60 * 60

/-- `generate_token` at `now`, in microseconds. -/
def generateToken (jsonwebtoken : JsonWebToken) (variable_ : Option String) (now : Nat)
    (userId : UserId) (email : String) : Option String :=
  jsonwebtoken.encode (jwtSecret variable_)
    ⟨userId, some email, (now + tokenSeconds * Account.second) / Account.second⟩

/-- The decoder of the process. -/
def JsonWebToken.process (jsonwebtoken : JsonWebToken) (variable_ : Option String) : Jwt :=
  ⟨jsonwebtoken.decode (jwtSecret variable_)⟩

/-- `expired_auth_cookie`. -/
def expiredAuthCookie : String :=
  authCookieName ++ "=; Path=/; HttpOnly; Secure; SameSite=Strict; Max-Age=0; " ++
    "Expires=Thu, 01 Jan 1970 00:00:00 GMT"

/-! ### The client -/

/-- What a client keeps of a `Set-Cookie` header: the pair in front of the attributes. -/
def cookiePair (setCookie : String) : String :=
  String.ofList (setCookie.toList.takeWhile (· ≠ ';'))

/-- The cookie of a server among others, with spaces around it. -/
structure Sent (pair : String) (header : HeaderValue) (before after : List HeaderValue) : Prop where
  header : ∃ left right : HeaderValue, (∀ b ∈ left, b = 32) ∧ (∀ b ∈ right, b = 32) ∧
    header = joinCookies (before ++ (left ++ asciiBytes pair ++ right) :: after)
  foreign : ∀ c ∈ before ++ after, Foreign c
  ascii : ∀ c ∈ before ++ after, Ascii c

/-- The headers of a client that sends a token back. -/
inductive Presents (setCookie token : String) (headers : HeaderMap) : Prop
  | bearer : headers.get "authorization" = some (asciiBytes ("Bearer " ++ token)) →
      Presents setCookie token headers
  | cookie {header : HeaderValue} {before after : List HeaderValue} : bearerToken headers = none →
      headers.get "cookie" = some header → Sent (cookiePair setCookie) header before after →
      Presents setCookie token headers

/-! ### Reading a token -/

theorem visible_tokenChar {c : Char} (h : isTokenChar c = true) :
    32 < c.toNat ∧ c.toNat < 127 := by
  rcases Bool.or_eq_true_iff.mp h with hsafe | hdot
  · exact Base64.visible_urlSafe hsafe
  · rw [beq_iff_eq.mp hdot]
    decide

section Token

variable {jsonwebtoken : JsonWebToken} {variable_ : Option String} {headers : HeaderMap}
  {token setCookie : String}

/-- A token is visible as it stands. -/
theorem visible_token (h : ∀ c ∈ token.toList, isTokenChar c = true) :
    ∀ c ∈ token.toList, 32 < c.toNat ∧ c.toNat < 127 :=
  fun c hc => visible_tokenChar (h c hc)

theorem cookieToken_token (hne : token ≠ "") (h : ∀ c ∈ token.toList, isTokenChar c = true) :
    CookieToken token where
  nonempty := hne
  visible c hc := ⟨(visible_token h c hc).1.le, (visible_token h c hc).2⟩
  single hc := absurd (h _ hc) (by decide)
  head hc := absurd (h _ (List.mem_of_mem_head? hc)) (by decide)
  last hc := absurd (h _ (List.mem_of_getLast? hc)) (by decide)

/-- Visible text is read as it stands. -/
theorem toStr_asciiBytes {s : String} (h : ∀ c ∈ s.toList, 32 ≤ c.toNat ∧ c.toNat < 127) :
    toStr (asciiBytes s) = some s := by
  have hbytes : ∀ b ∈ asciiBytes s, 32 ≤ b ∧ b < 127 := by
    intro b hb
    obtain ⟨c, hc, rfl⟩ := List.mem_map.mp hb
    obtain ⟨hlow, hhigh⟩ := h c hc
    have hval : (UInt8.ofNat c.toNat).toNat = c.toNat := by
      rw [UInt8.toNat_ofNat', Nat.mod_eq_of_lt (by omega)]
    rw [UInt8.le_iff_toNat_le, UInt8.lt_iff_toNat_lt, hval]
    exact ⟨hlow, hhigh⟩
  have hall : (asciiBytes s).all (fun b => (32 ≤ b && b < 127) || b == 9) = true := by
    rw [List.all_eq_true]
    intro b hb
    obtain ⟨hlow, hhigh⟩ := hbytes b hb
    simp [hlow, hhigh]
  have hchars : ∀ c ∈ s.toList, c.toNat < 256 := fun c hc => (h c hc).2.trans (by decide)
  rw [toStr, if_pos hall]
  exact congrArg some ((congrArg String.ofList (map_asciiBytes hchars)).trans String.ofList_toList)

/-- A token in a header of its own is found. -/
theorem tokenFromHeaders_bearer (hne : token ≠ "")
    (h : ∀ c ∈ token.toList, isTokenChar c = true)
    (hbearer : headers.get "authorization" = some (asciiBytes ("Bearer " ++ token))) :
    tokenFromHeaders headers = some token := by
  have hvisible : ∀ c ∈ ("Bearer " ++ token).toList, 32 ≤ c.toNat ∧ c.toNat < 127 := by
    intro c hc
    rw [String.toList_append, List.mem_append] at hc
    rcases hc with hc | hc
    · have hprefix : ∀ c ∈ "Bearer ".toList, 32 ≤ c.toNat ∧ c.toNat < 127 := by simp
      exact hprefix c hc
    · exact (cookieToken_token hne h).visible c hc
  have htrim : trim token = token := trim_visible hne (visible_token h)
  rw [tokenFromHeaders, hbearer]
  simp [toStr_asciiBytes hvisible, stripPrefix_append, htrim, Option.filter, hne]

/-- A token in the cookie that was set is found. -/
theorem tokenFromHeaders_cookie {header : HeaderValue} {before after : List HeaderValue}
    (ht : CookieToken token) (hpair : cookiePair setCookie = authCookieName ++ "=" ++ token)
    (hbearer : bearerToken headers = none) (hcookie : headers.get "cookie" = some header)
    (hsent : Sent (cookiePair setCookie) header before after) :
    tokenFromHeaders headers = some token := by
  obtain ⟨left, right, hleft, hright, rfl⟩ := hsent.header
  rw [hpair] at hcookie
  have hallowed := toStr_eq (allowed_header hsent.foreign ht hleft hright)
  rw [if_pos ((ascii_header ht hleft hright).mpr hsent.ascii)] at hallowed
  have hown : headers.get "cookie" = some (joinCookies (before ++ ownCookie left token right ::
      after)) := hcookie
  rw [tokenFromHeaders_eq_cookieToken hbearer, cookieToken, hown, Option.bind_some, hallowed,
    Option.bind_some]
  exact findSome?_cookies hsent.foreign ht hleft hright hsent.ascii

/-- **A token that a client sends back is found.** -/
theorem Presents.found (h : Presents setCookie token headers) (hne : token ≠ "")
    (hchars : ∀ c ∈ token.toList, isTokenChar c = true)
    (hpair : cookiePair setCookie = authCookieName ++ "=" ++ token) :
    tokenFromHeaders headers = some token := by
  cases h with
  | bearer hbearer => exact tokenFromHeaders_bearer hne hchars hbearer
  | cookie hnone hcookie hsent =>
      exact tokenFromHeaders_cookie (cookieToken_token hne hchars) hpair hnone hcookie hsent

end Token

end DevbitBackend.Auth
