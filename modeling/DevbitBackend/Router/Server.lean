import DevbitBackend.RateLimit.Middleware

/-!
# Router.Server

The router of `server.rs`: the routes in their three groups, each behind its rate limiter
or none, and the security headers around them all. What the routes do is the parameter
`App`; a path that is no route's is answered here.
-/

namespace DevbitBackend.Router

open Auth (Jwt)
open Http RateLimit

/-! ### Routes -/

/-- A segment of a route. -/
inductive Segment
  | lit (text : String)
  | param (name : String)
  deriving DecidableEq, Repr

instance instCoeSegment : Coe String Segment := ⟨.lit⟩

/-- A parameter stands for any text but the empty one. -/
def Segment.fits (segment : Segment) (text : String) : Bool :=
  match segment with
  | .lit s => s == text
  | .param _ => text != ""

/-- The segments of a route. -/
abbrev Route := List Segment

def Route.fits : Route → List String → Bool
  | [], [] => true
  | segment :: route, text :: path => segment.fits text && fits route path
  | _, _ => false

/-- `account::auth_routes`. -/
def authRoutes : List Route :=
  [["register", "send_code"],
   ["register"],
   ["login"],
   ["api", "register", "send_code"],
   ["api", "register"],
   ["api", "login"]]

/-- `account::account_routes`. -/
def accountRoutes : List Route :=
  [["me"],
   ["me", "avatar"],
   ["logout"],
   ["api", "me"],
   ["api", "me", "avatar"],
   ["api", "logout"]]

/-- `account::asset_routes`. -/
def assetRoutes : List Route :=
  [["avatars", .param "filename"],
   ["api", "avatars", .param "filename"]]

/-- `forum::forum_routes`. -/
def forumRoutes : List Route :=
  [["api", "forum", "bootstrap"],
   ["api", "forum", "users"],
   ["api", "forum", "posts"],
   ["api", "forum", "posts", "search"],
   ["api", "forum", "posts", .param "id"],
   ["api", "forum", "posts", .param "id", "pin"],
   ["api", "forum", "posts", .param "id", "lock"],
   ["api", "forum", "posts", .param "id", "like"],
   ["api", "forum", "posts", .param "id", "comments"],
   ["api", "forum", "comments", .param "id"],
   ["api", "forum", "messages"],
   ["api", "forum", "messages", .param "id", "read"],
   ["api", "forum", "messages", "conversation", .param "partner_id", "read"],
   ["api", "forum", "users", "search"],
   ["api", "forum", "posts", "myposts"],
   ["api", "forum", "posts", "myposts", "modify_post", .param "id"]]

/-- `social::v2_routes`. -/
def v2Routes : List Route :=
  [["v2", "social", "users"],
   ["v2", "social", "users", .param "user_id", "profile"],
   ["v2", "social", "feed"],
   ["v2", "social", "friends"],
   ["v2", "social", "friends", .param "user_id"],
   ["v2", "social", "friend-requests"],
   ["v2", "social", "friend-requests", .param "id", "accept"],
   ["v2", "social", "friend-requests", .param "id", "reject"],
   ["v2", "social", "friend-requests", .param "id"],
   ["v2", "social", "blocks"],
   ["v2", "social", "blocks", .param "user_id"],
   ["v2", "social", "preferences"],
   ["v2", "social", "presence"],
   ["v2", "social", "conversations", .param "partner_id", "history"]]

/-- `social::social_routes`. -/
def socialRoutes : List Route := v2Routes ++ v2Routes.map fun route => .lit "api" :: route

def generalRoutes : List Route := accountRoutes ++ forumRoutes ++ socialRoutes

def infrastructureRoutes : List Route :=
  assetRoutes.append
    [["health"],
     ["api", "health"],
     ["ws"],
     ["api", "ws"]]

inductive RouteGroup
  | auth
  | general
  | infrastructure
  deriving DecidableEq, Repr

/-- The group of the route that a path fits. -/
def routeGroup (path : List String) : Option RouteGroup :=
  if authRoutes.any (·.fits path) then some .auth
  else if generalRoutes.any (·.fits path) then some .general
  else if infrastructureRoutes.any (·.fits path) then some .infrastructure
  else none

/-! ### Configuration -/

/-- `usize::from_str`. -/
def parseUsize (s : String) : Option Nat :=
  let value : Option Nat :=
    match s.toList with
    | '+' :: digits => parseDigits digits
    | digits => parseDigits digits
  value.filter fun n => n ≤ 18446744073709551615

/-- `rate_limit_from_env`. -/
def rateLimitFromEnv (env : String → Option String) (name : String) (default : Nat) : Nat :=
  (((env name).bind fun value => parseUsize (trim value)).filter fun value => 0 < value).getD
    default

/-- `RATE_LIMIT_WINDOW`: a minute. -/
def rateLimitWindow : Duration := 60 * 1000000000

/-- `DEFAULT_AUTH_RATE_LIMIT`. -/
def defaultAuthRateLimit : Nat := 20

/-- `DEFAULT_READ_RATE_LIMIT`. -/
def defaultReadRateLimit : Nat := 600

/-- `DEFAULT_WRITE_RATE_LIMIT`. -/
def defaultWriteRateLimit : Nat := 120

/-! ### The server -/

/-- What the routes do, and the tokens of the process. -/
structure App (ρ σ β : Type) where
  jwt : Jwt
  route : HttpRequest ρ → Next σ β

/-- The state of the server: its limiters, and what the routes change. -/
structure Server (σ : Type) where
  auth : RateLimiter
  general : GeneralRateLimiters
  app : σ

/-- `security_headers_middleware`. -/
def securityHeaders {β : Type} (response : Response β) : Response β :=
  { response with
    headers := insertHeader "strict-transport-security"
      "max-age=63072000; includeSubDomains; preload"
      (insertHeader "x-frame-options" "DENY"
        (insertHeader "x-content-type-options" "nosniff" response.headers)) }

/-- The answer to a path that is no route's. -/
def notFound {β : Type} : Response (Body β) := ⟨404, [], .empty⟩

/-- `build_router`, called at `now`. -/
def buildRouter {σ : Type} (env : String → Option String) (now : Instant) (app : σ) :
    Server σ where
  auth := .new (rateLimitFromEnv env "RATE_LIMIT_AUTH_PER_MINUTE" defaultAuthRateLimit)
    rateLimitWindow now
  general := .new (rateLimitFromEnv env "RATE_LIMIT_READ_PER_MINUTE" defaultReadRateLimit)
    (rateLimitFromEnv env "RATE_LIMIT_WRITE_PER_MINUTE" defaultWriteRateLimit) rateLimitWindow now
  app := app

section

variable {ρ σ β : Type}

/-- One request: the answer, and the server after it. -/
def Server.handle (app : App ρ σ β) (s : Server σ) (request : HttpRequest ρ) :
    Response (Body β) × Server σ :=
  match routeGroup request.path with
  | some .auth =>
      let (response, auth, state) := authMiddleware s.auth request (app.route request) s.app
      (securityHeaders response, { s with auth := auth, app := state })
  | some .general =>
      let (response, general, state) :=
        generalMiddleware app.jwt s.general request (app.route request) s.app
      (securityHeaders response, { s with general := general, app := state })
  | some .infrastructure =>
      let (response, state) := app.route request s.app
      (securityHeaders response.routed, { s with app := state })
  | none => (securityHeaders notFound, s)

/-- Requests one after another: each with its answer, and the server they leave. -/
def Server.run (app : App ρ σ β) : Server σ → List (HttpRequest ρ) →
    List (HttpRequest ρ × Response (Body β)) × Server σ
  | s, [] => ([], s)
  | s, request :: requests =>
      let (response, s) := s.handle app request
      let (log, s) := s.run app requests
      ((request, response) :: log, s)

end

end DevbitBackend.Router
