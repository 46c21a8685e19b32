import DevbitBackend.Lib.SlidingWindow
import DevbitBackend.Social.Model

/-!
# RateLimit.Limiter

The sliding-window limiter of `rate_limit.rs`: a map from a bucket to the times
of its requests, trimmed when the bucket is used and swept as a whole once a
window. Calls wait for the two mutexes of the limiter, so they run one after
another.
-/

namespace DevbitBackend.RateLimit

open Social (UserId)

/-- `std::time::Instant`, in nanoseconds. -/
abbrev Instant := Nat

/-- `std::time::Duration`, in nanoseconds. -/
abbrev Duration := Nat

inductive IpAddr
  | v4 (bits : BitVec 32)
  | v6 (bits : BitVec 128)
  deriving DecidableEq, Repr

/-- A bucket: a signed-in user, or the address of an anonymous client. -/
inductive RateKey
  | ip (addr : IpAddr)
  | user (userId : UserId)
  deriving DecidableEq, Repr

/-- `now.saturating_duration_since(earlier)`. -/
def saturatingDurationSince (now earlier : Instant) : Duration := now - earlier

structure RateLimiter where
  requests : AList fun _ : RateKey => List Instant
  lastSweep : Instant
  maxRequests : Nat
  window : Duration
  maxRequests_pos : 1 ≤ maxRequests

structure RateLimitInfo where
  allowed : Bool
  limit : Nat
  remaining : Nat
  resetAfter : Duration
  deriving DecidableEq, Repr

namespace RateLimiter

/-- `RateLimiter::new`, called at `now`. -/
def new (maxRequests : Nat) (window : Duration) (now : Instant) : RateLimiter where
  requests := ∅
  lastSweep := now
  maxRequests := max maxRequests 1
  window := window
  maxRequests_pos := le_max_right _ _

/-- Under the mutex of `last_sweep`: whether this call sweeps. -/
def shouldSweep (now : Instant) (l : RateLimiter) : Bool × RateLimiter :=
  if l.window ≤ saturatingDurationSince now l.lastSweep then (true, { l with lastSweep := now })
  else (false, l)

/-- One entry of `requests.retain(..)`. -/
def retainEntry (window : Duration) (now : Instant) (entries : List Instant) :
    Option (List Instant) :=
  let entries := entries.filter fun timestamp => saturatingDurationSince now timestamp < window
  if entries.isEmpty then none else some entries

/-- `requests.retain(..)`. -/
def sweep (now : Instant) (l : RateLimiter) : RateLimiter :=
  { l with requests := SlidingWindow.retain (fun _ => retainEntry l.window now) l.requests }

/-- `while entries.front().is_some_and(..) { entries.pop_front(); }`. -/
def popExpired (window : Duration) (now : Instant) (entries : List Instant) : List Instant :=
  entries.dropWhile fun timestamp => window ≤ saturatingDurationSince now timestamp

/-- Under the mutex of `requests`, after the sweep. -/
def checkEntries (key : RateKey) (now : Instant) (l : RateLimiter) : RateLimitInfo × RateLimiter :=
  let entries := popExpired l.window now ((l.requests.lookup key).getD [])
  if h : l.maxRequests ≤ entries.length then
    have : 0 < entries.length := Nat.lt_of_lt_of_le l.maxRequests_pos h
    let resetAfter := l.window - saturatingDurationSince now entries[0]
    (⟨false, l.maxRequests, 0, resetAfter⟩, { l with requests := l.requests.insert key entries })
  else
    let entries := entries ++ [now]
    have : 0 < entries.length := by simp [entries]
    let resetAfter := l.window - saturatingDurationSince now entries[0]
    (⟨true, l.maxRequests, l.maxRequests - entries.length, resetAfter⟩,
      { l with requests := l.requests.insert key entries })

/-- `check_at`. -/
def checkAt (key : RateKey) (now : Instant) (l : RateLimiter) : RateLimitInfo × RateLimiter :=
  let (swept, l) := l.shouldSweep now
  (if swept then l.sweep now else l).checkEntries key now

end RateLimiter

/-- The arguments of one call of `check_at`. -/
structure Check where
  key : RateKey
  now : Instant
  deriving DecidableEq, Repr

/-- Calls one after another: each with its answer, and the limiter they leave. -/
def RateLimiter.run : RateLimiter → List Check → List (Check × RateLimitInfo) × RateLimiter
  | l, [] => ([], l)
  | l, c :: calls =>
      let (info, l) := l.checkAt c.key c.now
      let (log, l) := l.run calls
      ((c, info) :: log, l)

end DevbitBackend.RateLimit
