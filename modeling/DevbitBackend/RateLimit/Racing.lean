import DevbitBackend.Lib.Transition
import DevbitBackend.RateLimit.Exact

/-!
# RateLimit.Racing

Requests that race for a limiter. `apply_limit` reads the clock before `check_at` waits
for the mutex of `last_sweep` and then for that of `requests`, so the times of a bucket
need not be in order, and a time may be dropped while an older request that it counts
for is still on its way. Unless that happens, the limit holds (`racing_within`).
-/

namespace DevbitBackend.RateLimit

open SlidingWindow Transition

/-! ### The machine -/

/-- Where a request stands in `apply_limit`. -/
inductive Request
  | waiting
  /-- It has read the clock. -/
  | timed (now : Instant)
  /-- It has been through the mutex of `last_sweep`. -/
  | swept (now : Instant) (shouldSweep : Bool)
  | answered (now : Instant) (info : RateLimitInfo)

/-- The limiter, the clock and the requests; `log` is the history of the answers. -/
structure Racing (ι : Type) where
  limiter : RateLimiter
  clock : Instant
  requests : ι → Request
  log : List (Check × RateLimitInfo)

/-- Time passes, or a request goes on: it reads the clock, or goes through a mutex. -/
inductive Move (ι : Type)
  | tick (duration : Duration)
  | readClock (i : ι)
  | lastSweep (i : ι)
  | requests (i : ι)

section Machine

variable {ι : Type} [DecidableEq ι]

/-- No request has come. -/
def racing (maxRequests : Nat) (window : Duration) (created : Instant) : Racing ι where
  limiter := .new maxRequests window created
  clock := created
  requests := fun _ => .waiting
  log := []

/-- One move. What a call does under a mutex is done at once. -/
def race (keys : ι → RateKey) : Move ι → Racing ι → Option (Racing ι)
  | .tick duration, s => some { s with clock := s.clock + duration }
  | .readClock i, s =>
      match s.requests i with
      | .waiting => some { s with requests := Function.update s.requests i (.timed s.clock) }
      | _ => none
  | .lastSweep i, s =>
      match s.requests i with
      | .timed now =>
          let (shouldSweep, limiter) := s.limiter.shouldSweep now
          some { s with
            limiter := limiter
            requests := Function.update s.requests i (.swept now shouldSweep) }
      | _ => none
  | .requests i, s =>
      match s.requests i with
      | .swept now shouldSweep =>
          let limiter := if shouldSweep then s.limiter.sweep now else s.limiter
          let (info, limiter) := limiter.checkEntries (keys i) now
          some { s with
            limiter := limiter
            requests := Function.update s.requests i (.answered now info)
            log := s.log ++ [(⟨keys i, now⟩, info)] }
      | _ => none

/-- A request that goes through both mutexes in one go calls `check_at`. -/
theorem race_checkAt {keys : ι → RateKey} {s : Racing ι} {i : ι} {now : Instant}
    (hi : s.requests i = .timed now) :
    (race keys (.lastSweep i) s).bind (race keys (.requests i)) =
      some { s with
        limiter := (s.limiter.checkAt (keys i) now).2
        requests := Function.update s.requests i
          (.answered now (s.limiter.checkAt (keys i) now).1)
        log := s.log ++ [(⟨keys i, now⟩, (s.limiter.checkAt (keys i) now).1)] } := by
  simp [race, hi, RateLimiter.checkAt]

end Machine

/-! ### The limit -/

/-- The requests on `key` that were allowed and have read a time in
`[start, start + window)`. -/
def allowedIn (key : RateKey) (start : Instant) (window : Duration)
    (log : List (Check × RateLimitInfo)) : Nat :=
  (allowedTimes key log).countP fun t => start ≤ t && t < start + window

/-- The two times are less than a window apart. -/
def near (window : Duration) (now t : Instant) : Bool := t < now + window && now < t + window

/-- Of the allowed times on `key`, the bucket still has all those that are less than a
window from `now`. -/
def noneMissing (l : RateLimiter) (log : List (Check × RateLimitInfo)) (key : RateKey)
    (now : Instant) : Bool :=
  (allowedTimes key log).filter (near l.window now) == (l.stored key).filter (near l.window now)

/-- Counts that look at times near `now` only. -/
theorem countP_stored {l : RateLimiter} {log : List (Check × RateLimitInfo)} {key : RateKey}
    {now : Instant} (h : noneMissing l log key now = true) {q : Instant → Bool}
    (hq : ∀ t, q t = true → near l.window now t = true) :
    (l.stored key).countP q = (allowedTimes key log).countP q := by
  have hnear : ∀ ts : List Instant, ts.countP q = (ts.filter (near l.window now)).countP q := by
    intro ts
    rw [List.countP_filter]
    refine List.countP_congr fun t _ => ?_
    simpa using hq t
  rw [hnear, ← beq_iff_eq.mp h, ← hnear]

/-- The move is not one of a request that comes to the mutex of `requests` when a time that
counts for it is missing in its bucket. -/
def sees {ι : Type} (keys : ι → RateKey) (m : Move ι) (s : Racing ι) : Bool :=
  match m with
  | .requests i =>
      match s.requests i with
      | .swept now _ => noneMissing s.limiter s.log (keys i) now
      | _ => true
  | _ => true

namespace RateLimiter

variable {l : RateLimiter} {log : List (Check × RateLimitInfo)} {now start : Instant}
  {key : RateKey} {shouldSweep : Bool}

/-- The limiter behind the mutex of `requests`, before the bucket is looked at. -/
def sweptIf (shouldSweep : Bool) (now : Instant) (l : RateLimiter) : RateLimiter :=
  if shouldSweep then l.sweep now else l

theorem sameLimits_sweptIf (shouldSweep : Bool) (now : Instant) (l : RateLimiter) :
    SameLimits l (l.sweptIf shouldSweep now) := by
  cases shouldSweep <;> exact ⟨rfl, rfl⟩

theorem stored_sweptIf (shouldSweep : Bool) (now : Instant) (l : RateLimiter) (key : RateKey) :
    (l.sweptIf shouldSweep now).stored key =
      if shouldSweep then (slidingWindow l.window).live now (l.stored key) else l.stored key := by
  cases shouldSweep with
  | true => exact stored_sweep now l key
  | false => rfl

/-- What a call leaves in the buckets. -/
theorem stored_checkEntries (key k : RateKey) (now : Instant) (l : RateLimiter) :
    (l.checkEntries key now).2.stored k =
      if k = key then
        (slidingWindow l.window).trim now (l.stored key) ++
          if (l.checkEntries key now).1.allowed then [now] else []
      else l.stored k := by
  rw [checkEntries_eq]
  by_cases hk : k = key
  · subst hk
    have hleft : ∀ entries, stored { l with requests := l.requests.insert k entries } k = entries :=
      fun entries => by simp [stored]
    rw [hleft, if_pos rfl]
    change (if (popExpired l.window now (l.stored k)).length < l.maxRequests then _ else _) = _ ++
      if decide ((popExpired l.window now (l.stored k)).length < l.maxRequests) = true then _ else _
    simp only [decide_eq_true_eq]
    split
    · rfl
    · rw [List.append_nil]
      rfl
  · simp [stored, AList.lookup_insert_ne hk, hk]

/-- A request is let in where there is room. -/
theorem lt_of_allowed (h : (l.checkEntries key now).1.allowed = true) :
    ((slidingWindow l.window).trim now (l.stored key)).length < l.maxRequests := by
  rw [checkEntries_eq] at h
  exact of_decide_eq_true h

/-- **One call** that misses no time keeps the limit. -/
theorem allowedIn_checkEntries (hsees : noneMissing l log key now = true)
    (hwithin : ∀ k start, allowedIn k start l.window log ≤ l.maxRequests) (shouldSweep : Bool)
    (k : RateKey) (start : Instant) :
    allowedIn k start l.window
      (log ++ [(⟨key, now⟩, ((l.sweptIf shouldSweep now).checkEntries key now).1)]) ≤
        l.maxRequests := by
  have hsame := sameLimits_sweptIf shouldSweep now l
  by_cases hk : k = key
  · subst hk
    have hbefore := hwithin k start
    unfold allowedIn at hbefore ⊢
    rw [allowedTimes_concat, List.countP_append]
    split
    · rename_i hallowed
      by_cases hin : start ≤ now ∧ now < start + l.window
      · have hnear : ∀ t, (start ≤ t && t < start + l.window) = true →
            near l.window now t = true := by
          intro t ht
          simp only [near, Bool.and_eq_true, decide_eq_true_eq] at ht ⊢
          unfold Instant Duration at *
          omega
        have hlive : ∀ t, (start ≤ t && t < start + l.window) = true →
            (slidingWindow l.window).stale now t = false := by
          intro t ht
          simp only [Bool.and_eq_true, decide_eq_true_eq] at ht
          refine decide_eq_false ?_
          unfold saturatingDurationSince Instant Duration at *
          omega
        -- what is counted is still in the bucket, and is neither swept nor trimmed
        have hstored : ((l.sweptIf shouldSweep now).stored k).countP
            (fun t => start ≤ t && t < start + l.window) =
              (l.stored k).countP fun t => start ≤ t && t < start + l.window := by
          rw [stored_sweptIf]
          split
          · exact Window.countP_live hlive
          · rfl
        have hroom := lt_of_allowed hallowed
        rw [hsame.maxRequests, hsame.window] at hroom
        have hcount := (List.countP_le_length (p := fun t => start ≤ t && t < start + l.window)
          (l := (slidingWindow l.window).trim now ((l.sweptIf shouldSweep now).stored k)))
        rw [Window.countP_trim hlive, hstored, countP_stored hsees hnear] at hcount
        have hone : [now].countP (fun t => start ≤ t && t < start + l.window) ≤ 1 :=
          List.countP_le_length
        exact (Nat.add_le_add (Nat.le_refl _) hone).trans (Nat.lt_of_le_of_lt hcount hroom)
      · have hout : [now].countP (fun t => start ≤ t && t < start + l.window) = 0 := by
          simpa [List.countP_cons] using hin
        rw [hout]
        exact hbefore
    · exact hbefore
  · unfold allowedIn
    rw [allowedTimes_concat_ne hk]
    exact hwithin k start

end RateLimiter

/-! ### Runs -/

section Runs

variable {ι : Type} [DecidableEq ι] {keys : ι → RateKey} {maxRequests : Nat} {window : Duration}
  {created : Instant} {s s' : Racing ι} {m : Move ι}

/-- What a move does to the limiter and the log: next to nothing, or one call. -/
theorem race_cases (h : race keys m s = some s') :
    ((∃ lastSweep, s'.limiter = { s.limiter with lastSweep := lastSweep }) ∧ s'.log = s.log) ∨
    ∃ i now shouldSweep, m = .requests i ∧ s.requests i = .swept now shouldSweep ∧
      s'.limiter = ((s.limiter.sweptIf shouldSweep now).checkEntries (keys i) now).2 ∧
      s'.log = s.log ++
        [(⟨keys i, now⟩, ((s.limiter.sweptIf shouldSweep now).checkEntries (keys i) now).1)] := by
  cases m with
  | tick duration =>
      obtain rfl := Option.some.inj h
      exact .inl ⟨⟨_, rfl⟩, rfl⟩
  | readClock i =>
      simp only [race] at h
      split at h
      · obtain rfl := Option.some.inj h
        exact .inl ⟨⟨_, rfl⟩, rfl⟩
      · cases h
  | lastSweep i =>
      simp only [race] at h
      split at h
      · rename_i now hi
        obtain rfl := Option.some.inj h
        refine .inl ⟨?_, rfl⟩
        unfold RateLimiter.shouldSweep
        split <;> exact ⟨_, rfl⟩
      · cases h
  | requests i =>
      simp only [race] at h
      split at h
      · rename_i now shouldSweep hi
        obtain rfl := Option.some.inj h
        -- the only statement that looks at the map
        exact .inr ⟨i, now, shouldSweep, rfl, hi, rfl, rfl⟩
      · cases h

/-- The limit, in a state of a run. -/
structure Limited (maxRequests : Nat) (window : Duration) (s : Racing ι) : Prop where
  limit_eq : s.limiter.maxRequests = maxRequests
  window_eq : s.limiter.window = window
  within : ∀ key start, allowedIn key start window s.log ≤ maxRequests

theorem Limited.step (h : Limited maxRequests window s) (hsees : sees keys m s = true)
    (hstep : race keys m s = some s') : Limited maxRequests window s' := by
  obtain ⟨rfl, rfl, hwithin⟩ := h
  rcases race_cases hstep with
    ⟨⟨_, hlimiter⟩, hlog⟩ | ⟨i, now, shouldSweep, rfl, hi, hlimiter, hlog⟩
  · refine ⟨by rw [hlimiter], by rw [hlimiter], ?_⟩
    rw [hlog]
    exact hwithin
  · have hsame := RateLimiter.sameLimits_sweptIf shouldSweep now s.limiter
    refine ⟨?_, ?_, ?_⟩
    · rw [hlimiter, RateLimiter.checkEntries_eq]
      exact hsame.maxRequests
    · rw [hlimiter, RateLimiter.checkEntries_eq]
      exact hsame.window
    · simp only [sees, hi] at hsees
      rw [hlog]
      exact RateLimiter.allowedIn_checkEntries hsees hwithin shouldSweep

theorem limited_of_sees (hmax : 1 ≤ maxRequests)
    (h : ReachableBy (fun m s => sees keys m s) (race keys) (racing maxRequests window created) s) :
    Limited maxRequests window s :=
  h.invariant (fun _ _ _ hI hsees hstep => hI.step hsees hstep)
    ⟨max_eq_left hmax, rfl, fun _ _ => Nat.zero_le _⟩

/-- **The limit holds for racing requests** in every run in which no request comes to its
bucket when a time that counts for it is missing there. -/
theorem racing_within (hmax : 1 ≤ maxRequests)
    (h : ReachableBy (fun m s => sees keys m s) (race keys) (racing maxRequests window created) s)
    (key : RateKey) (start : Instant) : allowedIn key start window s.log ≤ maxRequests :=
  (limited_of_sees hmax h).within key start

/-! ### Requests that keep their order -/

/-- A request comes to the mutex of `requests` before all that have read a later time. -/
def InOrder : Move ι → Racing ι → Prop
  | .requests i, s => ∀ now shouldSweep, s.requests i = .swept now shouldSweep →
      ∀ e ∈ s.log, e.1.now ≤ now
  | _, _ => True

/-- Only times that are stale for all later requests have been dropped. -/
def Traced (s : Racing ι) : Prop :=
  ∀ key now, (∀ e ∈ s.log, e.1.now ≤ now) →
    (slidingWindow s.limiter.window).live now (allowedTimes key s.log) =
      (slidingWindow s.limiter.window).live now (s.limiter.stored key)

omit [DecidableEq ι] in
theorem Traced.sees_all (h : Traced s) {key : RateKey} {now : Instant}
    (hlog : ∀ e ∈ s.log, e.1.now ≤ now) : noneMissing s.limiter s.log key now = true := by
  have hlive : ∀ ts : List Instant, ts.filter (near s.limiter.window now) =
      ((slidingWindow s.limiter.window).live now ts).filter (near s.limiter.window now) := by
    intro ts
    unfold Window.live
    rw [List.filter_filter]
    refine List.filter_congr fun t _ => ?_
    simp only [slidingWindow, near, saturatingDurationSince]
    unfold Instant Duration at *
    grind
  rw [noneMissing, hlive, h key now hlog, ← hlive, beq_self_eq_true]

theorem Traced.step (h : Traced s) (hstep : race keys m s = some s') : Traced s' := by
  intro key now' hnow'
  rcases race_cases hstep with ⟨⟨_, hlimiter⟩, hlog⟩ | ⟨i, now, shouldSweep, -, hi, hlimiter, hlog⟩
  · rw [hlimiter, hlog]
    exact h key now' (hlog ▸ hnow')
  · have hsame := RateLimiter.sameLimits_sweptIf shouldSweep now s.limiter
    have hwindow : s'.limiter.window = s.limiter.window := by
      rw [hlimiter, RateLimiter.checkEntries_eq]
      exact hsame.window
    rw [hlog] at hnow'
    have hpast : now ≤ now' := hnow' _ (List.mem_append_right _ (List.mem_singleton_self _))
    have hbefore := h key now' fun e he => hnow' e (List.mem_append_left _ he)
    -- a sweep takes out nothing that is still live
    have hswept : (slidingWindow s.limiter.window).live now'
        ((s.limiter.sweptIf shouldSweep now).stored key) =
          (slidingWindow s.limiter.window).live now' (s.limiter.stored key) := by
      rw [RateLimiter.stored_sweptIf]
      split
      · exact Window.live_live hpast
      · rfl
    rw [hwindow, hlog, hlimiter, RateLimiter.stored_checkEntries, hsame.window]
    -- only the bucket of the call has changed
    by_cases hk : key = keys i
    · subst hk
      rw [if_pos rfl, RateLimiter.allowedTimes_concat, Window.live_append, Window.live_append,
        Window.live_trim hpast, hswept, hbefore]
    · rw [if_neg hk, RateLimiter.allowedTimes_concat_ne hk, hswept, hbefore]

/-- Then no time is missing: every request that was judged before had read the clock before. -/
theorem sees_of_inOrder
    (h : ReachableBy InOrder (race keys) (racing maxRequests window created) s) :
    ReachableBy (fun m s => sees keys m s) (race keys) (racing maxRequests window created) s ∧
      Traced s := by
  induction h with
  | refl => exact ⟨.refl, fun _ _ _ => rfl⟩
  | @tail s s' m _ horder hstep ih =>
      refine ⟨ih.1.tail ?_ hstep, ih.2.step hstep⟩
      cases m with
      | requests i =>
          cases hi : s.requests i with
          | swept now shouldSweep =>
              simp only [sees, hi]
              exact ih.2.sees_all (horder now shouldSweep hi)
          | _ => simp only [sees, hi]
      | _ => rfl

/-- **Requests that come to their bucket in the order of their times** keep the limit. -/
theorem racing_in_order (hmax : 1 ≤ maxRequests)
    (h : ReachableBy InOrder (race keys) (racing maxRequests window created) s) (key : RateKey)
    (start : Instant) : allowedIn key start window s.log ≤ maxRequests :=
  (limited_of_sees hmax (sees_of_inOrder h).1).within key start

end Runs

/-! Requests of one user, two of which are let in every ten nanoseconds. -/

/-- The request reads the clock and goes through both mutexes. -/
def checkAtOnce (i : Nat) : List (Move Nat) := [.readClock i, .lastSweep i, .requests i]

/-- Request 0 is overtaken by request 1, which has read a later time. -/
theorem racing_within_overtaken : ∃ s : Racing Nat, s.log.map (fun e => (e.1.now, e.2.allowed)) =
    [(3, true), (0, true)] ∧ allowedIn (.user 7) 0 10 s.log ≤ 2 := by
  have hrun : (replay (fun m s => if sees (fun _ => .user 7) m s then race (fun _ => .user 7) m s
      else none) (racing 2 10 0) ([.readClock 0, .tick 3] ++ checkAtOnce 1 ++
        [.lastSweep 0, .requests 0])).map (fun s => s.log.map fun e => (e.1.now, e.2.allowed)) =
          some [(3, true), (0, true)] := by
    decide
  obtain ⟨s, hs, hlog⟩ := Option.map_eq_some_iff.mp hrun
  have hreached := ReachableBy.of_replay (fun _ _ h => h) hs .refl
  exact ⟨s, hlog, racing_within (by decide) hreached (.user 7) 0⟩

/-- Request 2 has read the time 9, and request 3 drops the times 0 and 0 before it. -/
theorem limit_exceeded : ¬ ∀ s : Racing Nat, Reachable (race fun _ => .user 7) (racing 2 10 0) s →
    ∀ key start, allowedIn key start 10 s.log ≤ 2 := by
  intro hclaim
  have hrun : (replay (race fun _ => .user 7) (racing 2 10 0) (checkAtOnce 0 ++ checkAtOnce 1 ++
      [.tick 9, .readClock 2, .tick 1] ++ checkAtOnce 3 ++ [.lastSweep 2, .requests 2])).map
        (fun s => allowedIn (.user 7) 0 10 s.log) = some 3 := by
    decide
  obtain ⟨s, hs, hcount⟩ := exists_reachable_of_replay _ _ hrun
  have hle := hclaim s hs (.user 7) 0
  rw [hcount] at hle
  exact absurd hle (by decide)

end DevbitBackend.RateLimit
