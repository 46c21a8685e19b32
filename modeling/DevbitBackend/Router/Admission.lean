import DevbitBackend.Router.Server

/-!
# Router.Admission

The server against one that counts exactly. The exact server remembers every request that
was let in, with its bucket and its time, and lets a request in while fewer of its bucket
than the limit are less than a minute old. The limiters of the router trim, sweep and share
their tables between buckets; requests do not see it (`run_eq_exact`).
-/

namespace DevbitBackend.Router

open Auth (Jwt)
open Http RateLimit
open SlidingWindow (Window)

/-- The three budgets of the router. -/
inductive Budget
  | auth
  | read
  | write
  deriving DecidableEq, Repr

/-- Whose requests are counted together, and against which limit. -/
structure Bucket where
  budget : Budget
  key : RateKey
  deriving DecidableEq, Repr

section

variable {ρ : Type}

/-- The budget of a general route. -/
def generalBudget (method : Method) : Budget :=
  if method = .get ∨ method = .head ∨ method = .options then .read else .write

/-- The bucket of a request, when it is limited at all. -/
def bucket (jwt : Jwt) (request : HttpRequest ρ) : Option Bucket :=
  match routeGroup request.path with
  | some .auth => some ⟨.auth, .ip (clientIp request.peer request.headers)⟩
  | some .general => some ⟨generalBudget request.method,
      .forRequest jwt request.utc request.headers request.peer⟩
  | _ => none

end

/-- The limit of each budget. -/
def limits (env : String → Option String) : Budget → Nat
  | .auth => rateLimitFromEnv env "RATE_LIMIT_AUTH_PER_MINUTE" defaultAuthRateLimit
  | .read => rateLimitFromEnv env "RATE_LIMIT_READ_PER_MINUTE" defaultReadRateLimit
  | .write => rateLimitFromEnv env "RATE_LIMIT_WRITE_PER_MINUTE" defaultWriteRateLimit

theorem rateLimitFromEnv_pos (env : String → Option String) (name : String) {default : Nat}
    (h : 0 < default) : 0 < rateLimitFromEnv env name default := by
  unfold rateLimitFromEnv
  cases hvalue : ((env name).bind fun value => parseUsize (trim value)).filter fun value =>
      0 < value with
  | none => exact h
  | some value => exact of_decide_eq_true (Option.filter_eq_some_iff.mp hvalue).2

theorem limits_pos (env : String → Option String) (budget : Budget) : 1 ≤ limits env budget := by
  cases budget <;> exact rateLimitFromEnv_pos env _ (by decide)

/-! ### The exact server -/

/-- The requests that were let in, oldest first. -/
abbrev History := List (Bucket × Instant)

/-- The times on one bucket. -/
def History.times (history : History) (b : Bucket) : List Instant :=
  (history.filter fun e => e.1 = b).map Prod.snd

/-- The requests of a bucket that count at `now`: those less than a minute old. -/
def History.counted (history : History) (b : Bucket) (now : Instant) : List Instant :=
  (history.times b).filter fun t => saturatingDurationSince now t < rateLimitWindow

/-- What the exact server says about a request on `b`. -/
def History.info (limits : Budget → Nat) (history : History) (b : Bucket) (now : Instant) :
    RateLimitInfo :=
  exactInfo (limits b.budget) rateLimitWindow now (history.counted b now)

/-- The history after a request on `b`. -/
def History.record (limits : Budget → Nat) (history : History) (b : Bucket) (now : Instant) :
    History :=
  if (history.info limits b now).allowed then history ++ [(b, now)] else history

structure ExactServer (σ : Type) where
  history : History
  app : σ

section

variable {ρ σ β : Type}

/-- The answer to a request that is not limited. -/
def answerFree (path : List String) (next : Next σ β) : Next σ (Body β) := fun state =>
  if routeGroup path = none then (notFound, state)
  else
    let (response, state) := next state
    (response.routed, state)

def ExactServer.handle (app : App ρ σ β) (limits : Budget → Nat) (e : ExactServer σ)
    (request : HttpRequest ρ) : Response (Body β) × ExactServer σ :=
  match bucket app.jwt request with
  | some b =>
      let info := e.history.info limits b request.now
      let (response, state) := answerLimited info (app.route request) e.app
      (securityHeaders response, ⟨e.history.record limits b request.now, state⟩)
  | none =>
      let (response, state) := answerFree request.path (app.route request) e.app
      (securityHeaders response, { e with app := state })

def ExactServer.run (app : App ρ σ β) (limits : Budget → Nat) : ExactServer σ →
    List (HttpRequest ρ) → List (HttpRequest ρ × Response (Body β)) × ExactServer σ
  | e, [] => ([], e)
  | e, request :: requests =>
      let (response, e) := e.handle app limits request
      let (log, e) := e.run app limits requests
      ((request, response) :: log, e)

end

/-! ### The server counts exactly -/

theorem History.counted_eq (history : History) (b : Bucket) (now : Instant) :
    history.counted b now = (slidingWindow rateLimitWindow).live now (history.times b) := by
  refine List.filter_congr fun t _ => ?_
  rw [slidingWindow, ← decide_not]
  exact decide_eq_decide.mpr Nat.not_le.symm

theorem History.times_record (limits : Budget → Nat) (history : History) (b b' : Bucket)
    (now : Instant) : (history.record limits b now).times b' = history.times b' ++
      if b = b' ∧ (history.info limits b now).allowed = true then [now] else [] := by
  unfold History.record
  cases hallowed : (history.info limits b now).allowed with
  | false => simp [History.times]
  | true =>
      by_cases hb : b = b'
      · simp [History.times, hb]
      · simp [History.times, hb]

/-- A limiter that stands for the requests of one budget. -/
structure Stands (limit : Nat) (limiter : RateLimiter) (times : RateKey → List Instant)
    (now : Instant) : Prop where
  maxRequests : limiter.maxRequests = limit
  window : limiter.window = rateLimitWindow
  exact : ∃ log, limiter.Exact log now ∧ ∀ key, allowedTimes key log = times key

section

variable {limit : Nat} {limiter : RateLimiter} {times times' : RateKey → List Instant}
  {now now' : Instant}

theorem Stands.later (h : Stands limit limiter times now) (hnow : now ≤ now') :
    Stands limit limiter times now' := by
  obtain ⟨log, hexact, htimes⟩ := h.exact
  exact ⟨h.maxRequests, h.window, log, hexact.later hnow, htimes⟩

theorem Stands.congr (h : Stands limit limiter times now) (htimes : ∀ key, times' key = times key) :
    Stands limit limiter times' now := by
  obtain rfl : times' = times := funext htimes
  exact h

theorem stands_new {limit : Nat} (h : 1 ≤ limit) (now : Instant) :
    Stands limit (.new limit rateLimitWindow now) (fun _ => []) now :=
  ⟨max_eq_left h, rfl, [], RateLimiter.exact_new limit rateLimitWindow now, fun _ => rfl⟩

/-- **One call** of the limiter answers as the times of the bucket say, and records the
time if it lets the call in. -/
theorem Stands.checkAt (h : Stands limit limiter times now) (hnow : now ≤ now') (key : RateKey) :
    let info := exactInfo limit rateLimitWindow now'
      ((slidingWindow rateLimitWindow).live now' (times key))
    (limiter.checkAt key now').1 = info ∧
      Stands limit (limiter.checkAt key now').2
        (fun k => times k ++ if k = key ∧ info.allowed = true then [now'] else []) now' := by
  intro info
  obtain ⟨log, hexact, htimes⟩ := h.exact
  obtain ⟨hinfo, hexact', hlimits⟩ := hexact.checkAt hnow key
  rw [h.maxRequests, h.window, htimes key] at hinfo hexact'
  refine ⟨hinfo, hlimits.maxRequests.trans h.maxRequests, hlimits.window.trans h.window,
    _, hexact', fun k => ?_⟩
  by_cases hk : k = key
  · subst hk
    rw [RateLimiter.allowedTimes_concat, htimes k]
    simp [info]
  · rw [RateLimiter.allowedTimes_concat_ne hk, htimes k]
    simp [hk]

end

section

variable {ρ σ β : Type} {app : App ρ σ β} {lim : Budget → Nat} {s : Server σ} {e : ExactServer σ}
  {now : Instant}

/-- The limiter of a budget. -/
def Server.limiter (s : Server σ) : Budget → RateLimiter
  | .auth => s.auth
  | .read => s.general.read
  | .write => s.general.write

/-- A request that is charged to a bucket goes through one limiter. -/
theorem handle_bucket {request : HttpRequest ρ} {b : Bucket} (h : bucket app.jwt request = some b) :
    let call := (s.limiter b.budget).checkAt b.key request.now
    let answer := answerLimited call.1 (app.route request) s.app
    (s.handle app request).1 = securityHeaders answer.1 ∧
      (s.handle app request).2.app = answer.2 ∧
      ∀ budget, (s.handle app request).2.limiter budget =
        if budget = b.budget then call.2 else s.limiter budget := by
  unfold bucket at h
  unfold Server.handle
  cases hgroup : routeGroup request.path with
  | none => simp [hgroup] at h
  | some group =>
      cases group with
      | infrastructure => simp [hgroup] at h
      | auth =>
          simp only [hgroup, Option.some.injEq] at h
          subst h
          refine ⟨rfl, rfl, ?_⟩
          rintro (_ | _ | _) <;> rfl
      | general =>
          simp only [hgroup, Option.some.injEq] at h
          subst h
          simp only [generalMiddleware, generalBudget]
          split <;>
          · refine ⟨rfl, rfl, ?_⟩
            rintro (_ | _ | _) <;> rfl

/-- Any other request leaves the limiters as they are. -/
theorem handle_free {request : HttpRequest ρ} (h : bucket app.jwt request = none) :
    let answer := answerFree request.path (app.route request) s.app
    (s.handle app request).1 = securityHeaders answer.1 ∧
      (s.handle app request).2.app = answer.2 ∧
      ∀ budget, (s.handle app request).2.limiter budget = s.limiter budget := by
  unfold bucket at h
  unfold Server.handle answerFree
  cases hgroup : routeGroup request.path with
  | none => exact ⟨rfl, rfl, fun _ => rfl⟩
  | some group =>
      cases group with
      | auth => simp [hgroup] at h
      | general => simp [hgroup] at h
      | infrastructure =>
          refine ⟨rfl, rfl, ?_⟩
          rintro (_ | _ | _) <;> rfl

/-- The server has the state of the exact one, and limiters that stand for its history. -/
structure Refines (lim : Budget → Nat) (s : Server σ) (e : ExactServer σ) (now : Instant) :
    Prop where
  app : s.app = e.app
  stands : ∀ budget, Stands (lim budget) (s.limiter budget)
    (fun key => e.history.times ⟨budget, key⟩) now

theorem refines_buildRouter (env : String → Option String) (created : Instant) (state : σ) :
    Refines (limits env) (buildRouter env created state) ⟨[], state⟩ created := by
  refine ⟨rfl, ?_⟩
  rintro (_ | _ | _) <;> exact stands_new (limits_pos env _) created

/-- **One request** is answered alike by both servers, and the limiters stand for the
history after it. -/
theorem Refines.handle (app : App ρ σ β) (h : Refines lim s e now) (request : HttpRequest ρ)
    (hnow : now ≤ request.now) :
    (s.handle app request).1 = (e.handle app lim request).1 ∧
      Refines lim (s.handle app request).2 (e.handle app lim request).2 request.now := by
  cases hb : bucket app.jwt request with
  | none =>
      obtain ⟨hanswer, hstate, hlimiter⟩ := handle_free (s := s) hb
      have hexact : e.handle app lim request =
          (securityHeaders (answerFree request.path (app.route request) e.app).1,
            { e with app := (answerFree request.path (app.route request) e.app).2 }) := by
        simp only [ExactServer.handle, hb]
      rw [h.app] at hanswer hstate
      rw [hexact]
      refine ⟨hanswer, hstate, fun budget => ?_⟩
      rw [hlimiter budget]
      exact (h.stands budget).later hnow
  | some b =>
      obtain ⟨hanswer, hstate, hlimiter⟩ := handle_bucket (s := s) hb
      obtain ⟨hinfo, hstands⟩ := (h.stands b.budget).checkAt hnow b.key
      rw [← History.counted_eq] at hinfo hstands
      rw [hinfo, h.app] at hanswer hstate
      have hexact : e.handle app lim request =
          (securityHeaders (answerLimited (e.history.info lim b request.now) (app.route request)
            e.app).1, ⟨e.history.record lim b request.now,
              (answerLimited (e.history.info lim b request.now) (app.route request) e.app).2⟩) := by
        simp only [ExactServer.handle, hb]
      rw [hexact]
      refine ⟨hanswer, hstate, fun budget => ?_⟩
      rw [hlimiter budget]
      split
      · rename_i hbudget
        -- the limiter of the request has recorded it, if it let it in
        subst hbudget
        refine hstands.congr fun key => ?_
        rw [History.times_record]
        congr 1
        refine if_congr ⟨?_, ?_⟩ rfl rfl
        · rintro ⟨hkey, hallowed⟩
          exact ⟨(congrArg Bucket.key hkey).symm, hallowed⟩
        · rintro ⟨rfl, hallowed⟩
          exact ⟨rfl, hallowed⟩
      · rename_i hbudget
        -- the limiters of other budgets have not seen the request
        refine ((h.stands budget).later hnow).congr fun key => ?_
        rw [History.times_record, if_neg, List.append_nil]
        rintro ⟨rfl, -⟩
        exact hbudget rfl

/-- **Every run** is answered alike, by induction over its requests. -/
theorem Refines.run (h : Refines lim s e now) {requests : List (HttpRequest ρ)}
    (htimes : (now :: requests.map (·.now)).Pairwise (· ≤ ·)) :
    (s.run app requests).1 = (e.run app lim requests).1 ∧
      (s.run app requests).2.app = (e.run app lim requests).2.app := by
  induction requests generalizing s e now with
  | nil => exact ⟨rfl, h.app⟩
  | cons request requests ih =>
      rw [List.map_cons, List.pairwise_cons] at htimes
      obtain ⟨hanswer, hnext⟩ := h.handle app request (htimes.1 _ List.mem_cons_self)
      obtain ⟨hlog, hstate⟩ := ih hnext htimes.2
      simp only [Server.run, ExactServer.run, hanswer, hlog, hstate, and_self]

end

/-- **The limits are exact.** Whatever the environment sets, the routes do and the clients
send, the server answers a run of requests, and changes its state, as the one does that lets
a request in exactly while fewer than the limit of its bucket were let in in the last
minute. -/
theorem run_eq_exact {ρ σ β : Type} (app : App ρ σ β) (env : String → Option String)
    (created : Instant) (state : σ) (requests : List (HttpRequest ρ))
    (htimes : (created :: requests.map (·.now)).Pairwise (· ≤ ·)) :
    ((buildRouter env created state).run app requests).1 =
        (ExactServer.run app (limits env) ⟨[], state⟩ requests).1 ∧
      ((buildRouter env created state).run app requests).2.app =
        (ExactServer.run app (limits env) ⟨[], state⟩ requests).2.app :=
  (refines_buildRouter env created state).run htimes

/-- Two sign-ins of one client, with a budget of one. -/
theorem run_eq_exact_signIns :
    let requests : List (HttpRequest Unit) :=
      [⟨.post, ["login"], [], .v4 0xC0000201#32, 5, 0, ()⟩,
       ⟨.post, ["api", "login"], [], .v4 0xC0000201#32, 7, 0, ()⟩]
    let env := fun name => if name = "RATE_LIMIT_AUTH_PER_MINUTE" then some " 1 " else none
    let app : App Unit Nat Unit := ⟨⟨fun _ _ => none⟩, fun _ n => (⟨200, [], ()⟩, n + 1)⟩
    ((buildRouter env 0 0).run app requests).2.app = 1 := by
  intro requests env app
  rw [(run_eq_exact app env 0 0 requests (by decide)).2]
  decide

end DevbitBackend.Router
