import Mathlib.Algebra.Group.Nat.Even
import DevbitBackend.RateLimit.Exact

/-!
# RateLimit.Retry

What a refused client is told. The bucket of a refused call is full, so the time that
leaves it first decides when the next call is served (`live_until`, `live_from`):
refused calls in between are not recorded and change nothing.
-/

namespace DevbitBackend.RateLimit

open SlidingWindow

/-- `duration.as_secs()`. -/
def asSecs (duration : Duration) : Nat := duration / 1000000000

/-- `duration.subsec_nanos()`. -/
def subsecNanos (duration : Duration) : Nat := duration % 1000000000

/-- `a.saturating_add(b)` of two `u64`. -/
def saturatingAdd (a b : Nat) : Nat := min (a + b) (2 ^ 64 - 1)

/-- `retry_after_seconds`. -/
def retryAfterSeconds (duration : Duration) : Nat :=
  max (saturatingAdd (asSecs duration) (decide (0 < subsecNanos duration)).toNat) 1

/-- Whole seconds, rounded up: not less than the time itself, and less than a second more. -/
theorem retryAfterSeconds_bounds {duration : Duration} (hpos : 0 < duration)
    (hlt : duration < 2 ^ 63 * 1000000000) :
    duration ≤ retryAfterSeconds duration * 1000000000 ∧
      retryAfterSeconds duration * 1000000000 < duration + 1000000000 := by
  unfold retryAfterSeconds saturatingAdd asSecs subsecNanos Duration at *
  have hdiv := Nat.div_add_mod duration 1000000000
  cases hrest : decide (0 < duration % 1000000000) with
  | true =>
      rw [decide_eq_true_iff] at hrest
      rw [Bool.toNat_true]
      omega
  | false =>
      rw [decide_eq_false_iff_not] at hrest
      rw [Bool.toNat_false]
      omega

/-! ### A full bucket -/

section

variable {maxRequests : Nat} {window : Duration} {now later oldest : Instant}
  {history rest : List Instant}

theorem mem_live {ts : List Instant} {t : Instant} :
    t ∈ (slidingWindow window).live now ts ↔
      t ∈ ts ∧ saturatingDurationSince now t < window := by
  simp [Window.live, slidingWindow]

/-- A call is refused when the requests that count are as many as the limit. -/
theorem exactInfo_refused {counted : List Instant} :
    (exactInfo maxRequests window now counted).allowed = false ↔ maxRequests ≤ counted.length := by
  rw [exactInfo, decide_eq_false_iff_not, Nat.not_lt]

/-- The oldest request that counts leaves the window when the client is told. -/
theorem now_add_resetAfter (hpast : oldest ≤ now)
    (hlive : saturatingDurationSince now oldest < window) :
    now + (exactInfo maxRequests window now (oldest :: rest)).resetAfter = oldest + window := by
  simp only [exactInfo, List.headD_cons]
  unfold saturatingDurationSince Duration Instant at *
  omega

/-- Until then all of them count: the oldest is still inside the window. -/
theorem live_until (hsorted : (oldest :: rest).Pairwise (· ≤ ·)) (hlater : later < oldest + window)
    (hwindow : 0 < window) :
    (slidingWindow window).live later (oldest :: rest) = oldest :: rest := by
  refine List.filter_eq_self.mpr fun t ht => ?_
  have hle : oldest ≤ t := by
    rcases List.mem_cons.mp ht with rfl | ht
    · exact le_rfl
    · exact (List.pairwise_cons.mp hsorted).1 t ht
  have hlt : saturatingDurationSince later t < window := by
    unfold saturatingDurationSince Duration Instant at *
    omega
  simpa [slidingWindow] using hlt

/-- From then on the oldest does not count any more. -/
theorem live_from (hlater : oldest + window ≤ later) :
    ((slidingWindow window).live later (oldest :: rest)).length ≤ rest.length := by
  have hstale : (slidingWindow window).stale later oldest = true := by
    refine decide_eq_true ?_
    unfold saturatingDurationSince Duration Instant at *
    omega
  rw [Window.live, List.filter_cons_of_neg (by simp [hstale])]
  exact List.length_filter_le _ _

end

/-! ### Runs -/

namespace RateLimiter

variable {l : RateLimiter} {log : List (Check × RateLimitInfo)} {now : Instant}

/-- No bucket counts more requests than the limit. -/
def Within (l : RateLimiter) (log : List (Check × RateLimitInfo)) (now : Instant) : Prop :=
  ∀ key, ((slidingWindow l.window).live now (allowedTimes key log)).length ≤ l.maxRequests

theorem Within.later {now' : Instant} (h : l.Within log now) (hnow : now ≤ now') :
    l.Within log now' := by
  intro key
  rw [← Window.live_live hnow]
  exact (List.length_filter_le _ _).trans (h key)

/-- A call is recorded only where there is room. -/
theorem Within.concat (h : l.Within log now) (key : RateKey) :
    let info := exactInfo l.maxRequests l.window now
      ((slidingWindow l.window).live now (allowedTimes key log))
    l.Within (log ++ [(⟨key, now⟩, info)]) now := by
  intro info k
  by_cases hk : k = key
  · subst hk
    rw [allowedTimes_concat, Window.live_append, List.length_append]
    cases hallowed : info.allowed with
    | false => exact h k
    | true =>
        have hroom := of_decide_eq_true hallowed
        have hone := List.length_filter_le (fun t => !(slidingWindow l.window).stale now t) [now]
        rw [if_pos rfl]
        exact (Nat.add_le_add_left hone _).trans hroom
  · rw [allowedTimes_concat_ne hk]
    exact h k

theorem Within.checkAt (hwithin : l.Within log now) (h : l.Exact log now) (c : Check)
    (hnow : now ≤ c.now) :
    (l.checkAt c.key c.now).2.Within (log ++ [(c, (l.checkAt c.key c.now).1)]) c.now := by
  obtain ⟨hinfo, -, hlimits⟩ := h.checkAt hnow c.key
  intro key
  rw [hinfo, hlimits.maxRequests, hlimits.window]
  exact (hwithin.later hnow).concat c.key key

theorem Exact.length_live_le {calls : List Check} (h : l.Exact log now) (hwithin : l.Within log now)
    (htimes : (now :: calls.map (·.now)).Pairwise (· ≤ ·))
    {before after : List (Check × RateLimitInfo)} {c : Check} {info : RateLimitInfo}
    (hlog : (l.run calls).1 = before ++ (c, info) :: after) :
    ((slidingWindow l.window).live c.now (allowedTimes c.key (log ++ before))).length ≤
      l.maxRequests := by
  obtain ⟨l', now', -, hwithin', hlimits, hle, -⟩ :=
    h.at_call (W := Within) (fun d h hnow hW => hW.checkAt h d hnow) hwithin htimes hlog
  rw [← hlimits.maxRequests, ← hlimits.window]
  exact hwithin'.later hle c.key

end RateLimiter

/-- The requests that count at a refused call, oldest first. -/
structure Full (maxRequests : Nat) (window : Duration) (now : Instant) (history : List Instant)
    (oldest : Instant) (rest : List Instant) : Prop where
  counted : (slidingWindow window).live now history = oldest :: rest
  length_eq : (oldest :: rest).length = maxRequests
  sorted : (oldest :: rest).Pairwise (· ≤ ·)
  past : oldest ≤ now

section Answers

variable {maxRequests : Nat} {window : Duration} {created : Instant} {calls : List Check}
  {before mid after : List (Check × RateLimitInfo)} {c d : Check} {info info' : RateLimitInfo}

theorem answer_eq (hmax : 1 ≤ maxRequests)
    (htimes : (created :: calls.map (·.now)).Pairwise (· ≤ ·))
    (hlog : ((RateLimiter.new maxRequests window created).run calls).1 =
      before ++ (c, info) :: after) :
    info = exactInfo maxRequests window c.now
      ((slidingWindow window).live c.now (allowedTimes c.key before)) := by
  have hinfo := (RateLimiter.exact_new maxRequests window created).run htimes hlog
  have hlimit : (RateLimiter.new maxRequests window created).maxRequests = maxRequests :=
    max_eq_left hmax
  rw [hlimit, List.nil_append] at hinfo
  exact hinfo

/-- The times of a log are in the order of its calls. -/
theorem log_sorted (htimes : (created :: calls.map (·.now)).Pairwise (· ≤ ·))
    (hlog : ((RateLimiter.new maxRequests window created).run calls).1 =
      before ++ (c, info) :: after) :
    (before.map fun e => e.1.now).Pairwise (· ≤ ·) ∧ (∀ e ∈ before, e.1.now ≤ c.now) ∧
      ∀ e ∈ after, c.now ≤ e.1.now := by
  have hcalls := (List.pairwise_cons.mp htimes).2
  rw [← RateLimiter.map_fst_run (RateLimiter.new maxRequests window created) calls, hlog,
    List.map_map, List.map_append, List.pairwise_append, List.map_cons,
    List.pairwise_cons] at hcalls
  obtain ⟨hbefore, ⟨hafter, -⟩, hcross⟩ := hcalls
  refine ⟨hbefore, fun e he => ?_, fun e he => ?_⟩
  · exact hcross _ (List.mem_map_of_mem he) _ List.mem_cons_self
  · exact hafter _ (List.mem_map_of_mem he)

/-- A call is refused with a full bucket. -/
theorem full_of_refused (hmax : 1 ≤ maxRequests)
    (htimes : (created :: calls.map (·.now)).Pairwise (· ≤ ·))
    (hlog : ((RateLimiter.new maxRequests window created).run calls).1 =
      before ++ (c, info) :: after) (hrefused : info.allowed = false) :
    ∃ oldest rest, Full maxRequests window c.now (allowedTimes c.key before) oldest rest := by
  have hlimit : (RateLimiter.new maxRequests window created).maxRequests = maxRequests :=
    max_eq_left hmax
  have hroom := (RateLimiter.exact_new maxRequests window created).length_live_le
    (fun key => Nat.zero_le _) htimes hlog
  rw [hlimit, List.nil_append] at hroom
  rw [answer_eq hmax htimes hlog, exactInfo_refused] at hrefused
  obtain ⟨hsorted, hpast, -⟩ := log_sorted htimes hlog
  cases hcounted : (slidingWindow window).live c.now (allowedTimes c.key before) with
  | nil =>
      rw [hcounted] at hrefused
      exact absurd (hmax.trans hrefused) (by decide)
  | cons oldest rest =>
      rw [hcounted] at hrefused
      have hsub : (oldest :: rest).Sublist (before.map fun e => e.1.now) := by
        rw [← hcounted]
        exact List.filter_sublist.trans (List.filter_sublist.map _)
      obtain ⟨e, he, htime⟩ := List.mem_map.mp (hsub.subset List.mem_cons_self)
      refine ⟨oldest, rest, hcounted, ?_, hsorted.sublist hsub, htime ▸ hpast e he⟩
      exact Nat.le_antisymm (hcounted ▸ hroom) hrefused

/-- A later call counts what is left of the full bucket, and what was allowed since. -/
theorem answer_later (hmax : 1 ≤ maxRequests)
    (htimes : (created :: calls.map (·.now)).Pairwise (· ≤ ·))
    (hlog : ((RateLimiter.new maxRequests window created).run calls).1 =
      before ++ (c, info) :: (mid ++ (d, info') :: after)) (hrefused : info.allowed = false)
    (hkey : d.key = c.key) {oldest : Instant} {rest : List Instant}
    (hfull : Full maxRequests window c.now (allowedTimes c.key before) oldest rest) :
    info' = exactInfo maxRequests window d.now
      ((slidingWindow window).live d.now (oldest :: rest) ++
        (slidingWindow window).live d.now (allowedTimes c.key mid)) := by
  have hle : c.now ≤ d.now := (log_sorted htimes hlog).2.2 (d, info') (by simp)
  rw [List.append_cons, ← List.append_assoc] at hlog
  have hsince : allowedTimes c.key (before ++ [(c, info)] ++ mid) =
      allowedTimes c.key before ++ allowedTimes c.key mid := by
    rw [allowedTimes_append, allowedTimes_append, allowedTimes_other fun _ => hrefused,
      List.append_nil]
  rw [answer_eq hmax htimes hlog, hkey, hsince, Window.live_append, ← hfull.counted,
    Window.live_live hle]

/-- Until the oldest request leaves the window, nothing is served. -/
theorem refused_until (hmax : 1 ≤ maxRequests) (hwindow : 0 < window)
    (htimes : (created :: calls.map (·.now)).Pairwise (· ≤ ·))
    (hlog : ((RateLimiter.new maxRequests window created).run calls).1 =
      before ++ (c, info) :: (mid ++ (d, info') :: after)) (hrefused : info.allowed = false)
    (hkey : d.key = c.key) {oldest : Instant} {rest : List Instant}
    (hfull : Full maxRequests window c.now (allowedTimes c.key before) oldest rest)
    (huntil : d.now < oldest + window) : info'.allowed = false := by
  rw [answer_later hmax htimes hlog hrefused hkey hfull, exactInfo_refused, List.length_append,
    live_until hfull.sorted huntil hwindow, hfull.length_eq]
  exact Nat.le_add_right _ _

/-- The first call after that is served: nothing was recorded in between. -/
theorem allowed_from (hmax : 1 ≤ maxRequests) (hwindow : 0 < window)
    (htimes : (created :: calls.map (·.now)).Pairwise (· ≤ ·))
    (hlog : ((RateLimiter.new maxRequests window created).run calls).1 =
      before ++ (c, info) :: (mid ++ (d, info') :: after)) (hrefused : info.allowed = false)
    (hkey : d.key = c.key) {oldest : Instant} {rest : List Instant}
    (hfull : Full maxRequests window c.now (allowedTimes c.key before) oldest rest)
    (hfrom : oldest + window ≤ d.now)
    (hfirst : ∀ e ∈ mid, e.1.key = c.key → e.1.now < oldest + window) : info'.allowed = true := by
  have hnone : allowedTimes c.key mid = [] := by
    rw [allowedTimes, List.map_eq_nil_iff, List.filter_eq_nil_iff]
    intro e he hallowed
    rw [Bool.and_eq_true, beq_iff_eq] at hallowed
    obtain ⟨front, back, rfl⟩ := List.append_of_mem he
    rw [List.append_assoc, List.cons_append] at hlog
    have hrefused' := refused_until hmax hwindow htimes hlog hrefused hallowed.1 hfull
      (hfirst e he hallowed.1)
    rw [hallowed.2] at hrefused'
    cases hrefused'
  have hlen := hfull.length_eq
  rw [List.length_cons] at hlen
  rw [answer_later hmax htimes hlog hrefused hkey hfull, hnone]
  refine decide_eq_true ?_
  rw [Window.live_nil, List.append_nil, ← hlen]
  exact Nat.lt_succ_of_le (live_from hfrom)

end Answers

/-- **`Retry-After` is honest.** A refused call names the moment `now + resetAfter`: on
its key everything before is refused, and the first call from then on is served. The
seconds that are announced are that time, rounded up, so who waits for them is served. -/
theorem retry_after_honest (maxRequests : Nat) (window : Duration) (created : Instant)
    (calls : List Check) (hmax : 1 ≤ maxRequests) (hwindow : 0 < window)
    (hbound : window < 2 ^ 63 * 1000000000)
    (htimes : (created :: calls.map (·.now)).Pairwise (· ≤ ·)) :
    ∀ before c info after,
      ((RateLimiter.new maxRequests window created).run calls).1 = before ++ (c, info) :: after →
      info.allowed = false →
      0 < info.resetAfter ∧
        (∀ mid d info' rest, after = mid ++ (d, info') :: rest → d.key = c.key →
          (d.now < c.now + info.resetAfter → info'.allowed = false) ∧
          ((∀ e ∈ mid, e.1.key = c.key → e.1.now < c.now + info.resetAfter) →
            (c.now + info.resetAfter ≤ d.now → info'.allowed = true) ∧
            (d.now = c.now + retryAfterSeconds info.resetAfter * 1000000000 →
              info'.allowed = true))) ∧
        info.resetAfter ≤ retryAfterSeconds info.resetAfter * 1000000000 ∧
        retryAfterSeconds info.resetAfter * 1000000000 < info.resetAfter + 1000000000 := by
  intro before c info after hlog hrefused
  obtain ⟨oldest, counted, hfull⟩ := full_of_refused hmax htimes hlog hrefused
  have hinfo := answer_eq hmax htimes hlog
  rw [hfull.counted] at hinfo
  have hlive : saturatingDurationSince c.now oldest < window := by
    have hmem : oldest ∈ (slidingWindow window).live c.now (allowedTimes c.key before) := by
      rw [hfull.counted]
      exact List.mem_cons_self
    exact (mem_live.mp hmem).2
  -- the moment at which the oldest counted call leaves the window
  have hmoment : c.now + info.resetAfter = oldest + window := by
    rw [hinfo]
    exact now_add_resetAfter hfull.past hlive
  have hpos : 0 < info.resetAfter := by
    rw [hinfo]
    exact Nat.sub_pos_of_lt hlive
  have hlt : info.resetAfter < 2 ^ 63 * 1000000000 := by
    refine lt_of_le_of_lt ?_ hbound
    rw [hinfo]
    exact Nat.sub_le _ _
  obtain ⟨hup, hsecond⟩ := retryAfterSeconds_bounds hpos hlt
  refine ⟨hpos, ?_, hup, hsecond⟩
  -- the seconds are rounded up, so they end after that moment
  rintro mid d info' rest rfl hkey
  rw [hmoment]
  refine ⟨refused_until hmax hwindow htimes hlog hrefused hkey hfull, fun hfirst => ?_⟩
  have hserved := fun hfrom =>
    allowed_from hmax hwindow htimes hlog hrefused hkey hfull hfrom hfirst
  refine ⟨hserved, fun hwait => hserved ?_⟩
  rw [← hmoment, hwait]
  exact Nat.add_le_add_left hup _

/-- A budget of one request a minute, used up at 0 and asked again after 10.5 s: the
client is told 50 s. -/
theorem retry_after_honest_minute :
    let log := ((RateLimiter.new 1 60000000000 0).run [⟨.user 7, 0⟩, ⟨.user 7, 10500000000⟩,
      ⟨.user 7, 60500000000⟩]).1
    ∃ before c info d info', log = before ++ [(c, info), (d, info')] ∧ info.allowed = false ∧
      retryAfterSeconds info.resetAfter = 50 ∧ info'.allowed = true := by
  have hrun := retry_after_honest 1 60000000000 0 [⟨.user 7, 0⟩, ⟨.user 7, 10500000000⟩,
    ⟨.user 7, 60500000000⟩] (by decide) (by decide) (by decide) (by decide)
    [(⟨.user 7, 0⟩, ⟨true, 1, 0, 60000000000⟩)] ⟨.user 7, 10500000000⟩ ⟨false, 1, 0, 49500000000⟩
    [(⟨.user 7, 60500000000⟩, ⟨true, 1, 0, 60000000000⟩)] (by decide) rfl
  obtain ⟨-, hlater, -⟩ := hrun
  refine ⟨[(⟨.user 7, 0⟩, ⟨true, 1, 0, 60000000000⟩)], ⟨.user 7, 10500000000⟩,
    ⟨false, 1, 0, 49500000000⟩, ⟨.user 7, 60500000000⟩, ⟨true, 1, 0, 60000000000⟩, by decide, rfl,
    by decide, ?_⟩
  exact ((hlater [] _ _ [] rfl rfl).2 (by simp)).2 (by decide)

end DevbitBackend.RateLimit
