import DevbitBackend.Auth.Identity
import DevbitBackend.RateLimit.Address
import DevbitBackend.RateLimit.Retry

/-!
# RateLimit.Middleware

The two middlewares of `rate_limit.rs`: whose budget a request is charged to, and what the
client is told. A request that its limiter lets in is passed on, and the answer to it says
what is left of the budget; any other is answered with 429 here.
-/

namespace DevbitBackend

open Auth (HeaderMap Jwt Timestamp toStr identityFromHeaders)

namespace Http

open RateLimit (IpAddr Instant)

inductive Method
  | get
  | head
  | options
  | post
  | put
  | patch
  | delete
  | other (name : String)
  deriving DecidableEq, Repr

/-- A request, with the two clocks as they stand when the middleware reads them. -/
structure HttpRequest (ρ : Type) where
  method : Method
  /-- The segments of the path. -/
  path : List String
  headers : HeaderMap
  /-- `ConnectInfo(address)`. -/
  peer : IpAddr
  /-- `Instant::now()`. -/
  now : Instant
  /-- `Utc::now()`. -/
  utc : Timestamp
  /-- The query and the body. -/
  rest : ρ

/-- `RateLimitErrorDetail`, of `rate_limit.rs`. -/
structure RateLimitErrorDetail where
  code : String
  message : String
  retryAfterSeconds : Nat
  deriving DecidableEq, Repr

/-- The body of an answer to a client: of a route, of the rate limiter, or none. -/
inductive Body (β : Type)
  | route (body : β)
  | rateLimit (error : RateLimitErrorDetail)
  | empty
  deriving DecidableEq, Repr

/-- The rate limiter has answered. -/
def Body.refused {β : Type} : Body β → Bool
  | .rateLimit _ => true
  | _ => false

/-- An answer. Header names are in lower case. -/
structure Response (β : Type) where
  status : Nat
  headers : List (String × String)
  body : β
  deriving DecidableEq, Repr

/-- The answer of a route, to the client. -/
def Response.routed {β : Type} (response : Response β) : Response (Body β) :=
  { response with body := .route response.body }

/-- What runs behind a middleware: `next.run(request)`, which changes the state of the
program. -/
abbrev Next (σ β : Type) := σ → Response β × σ

/-- `headers.insert(name, value)`: the values that stand there are replaced. -/
def insertHeader (name value : String) (headers : List (String × String)) :
    List (String × String) :=
  headers.filter (fun header => header.1 != name) ++ [(name, value)]

/-- The value of a header of an answer. -/
def Response.header {β : Type} (response : Response β) (name : String) : Option String :=
  (response.headers.find? fun header => header.1 == name).map Prod.snd

end Http

namespace RateLimit

open Http

/-- `client_ip`. -/
def clientIp (peerIp : IpAddr) (headers : HeaderMap) : IpAddr :=
  if !peerIp.isLoopback then peerIp
  else
    let realIp := ((headers.get "x-real-ip").bind toStr).bind fun value =>
      IpAddr.parse (trim value)
    let forwardedFor := ((headers.get "x-forwarded-for").bind toStr).bind fun value =>
      -- the last hop is the one that the proxy has appended
      (splitOn ',' value).getLast?.bind fun hop => IpAddr.parse (trim hop)
    (realIp.or forwardedFor).getD peerIp

/-- `RateKey::for_request`. -/
def RateKey.forRequest (jwt : Jwt) (utc : Timestamp) (headers : HeaderMap) (peerIp : IpAddr) :
    RateKey :=
  match identityFromHeaders jwt utc headers with
  | some identity => .user identity.userId
  | none => .ip (clientIp peerIp headers)

structure GeneralRateLimiters where
  read : RateLimiter
  write : RateLimiter

/-- `GeneralRateLimiters::new`, called at `now`. -/
def GeneralRateLimiters.new (readLimit writeLimit : Nat) (window : Duration) (now : Instant) :
    GeneralRateLimiters where
  read := .new readLimit window now
  write := .new writeLimit window now

/-- `add_rate_limit_headers`. -/
def addRateLimitHeaders (info : RateLimitInfo) (headers : List (String × String)) :
    List (String × String) :=
  insertHeader "x-ratelimit-reset" (toString (retryAfterSeconds info.resetAfter))
    (insertHeader "x-ratelimit-remaining" (toString info.remaining)
      (insertHeader "x-ratelimit-limit" (toString info.limit) headers))

/-- `rate_limited_response`. -/
def rateLimitedResponse {β : Type} (info : RateLimitInfo) : Response (Body β) :=
  let retryAfter := retryAfterSeconds info.resetAfter
  { status := 429
    headers := insertHeader "retry-after" (toString retryAfter)
      (addRateLimitHeaders info [("content-type", "application/json")])
    body := .rateLimit ⟨"RATE_LIMITED", "操作过于频繁，请稍后再试。", retryAfter⟩ }

section

variable {ρ σ β : Type}

/-- The answer of the middleware, when its limiter answers `info`. -/
def answerLimited (info : RateLimitInfo) (next : Next σ β) : Next σ (Body β) := fun app =>
  if info.allowed then
    let (response, app) := next app
    ({ response.routed with headers := addRateLimitHeaders info response.headers }, app)
  else (rateLimitedResponse info, app)

/-- `apply_limit`: the answer, the limiter and the program after it. -/
def applyLimit (limiter : RateLimiter) (key : RateKey) (now : Instant) (next : Next σ β)
    (app : σ) : Response (Body β) × RateLimiter × σ :=
  let (info, limiter) := limiter.checkAt key now
  let (response, app) := answerLimited info next app
  (response, limiter, app)

/-- `auth_middleware`. -/
def authMiddleware (limiter : RateLimiter) (request : HttpRequest ρ) (next : Next σ β) (app : σ) :
    Response (Body β) × RateLimiter × σ :=
  applyLimit limiter (.ip (clientIp request.peer request.headers)) request.now next app

/-- `general_middleware`. -/
def generalMiddleware (jwt : Jwt) (limiters : GeneralRateLimiters) (request : HttpRequest ρ)
    (next : Next σ β) (app : σ) : Response (Body β) × GeneralRateLimiters × σ :=
  let key := RateKey.forRequest jwt request.utc request.headers request.peer
  if request.method = .get ∨ request.method = .head ∨ request.method = .options then
    let (response, read, app) := applyLimit limiters.read key request.now next app
    (response, { limiters with read := read }, app)
  else
    let (response, write, app) := applyLimit limiters.write key request.now next app
    (response, { limiters with write := write }, app)

end

end RateLimit

end DevbitBackend
