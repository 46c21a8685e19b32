import DevbitBackend.RateLimit.Limiter

/-!
# RateLimit.Exact

The limiter **is** an exact sliding window per bucket. What a bucket stores is
compared with the times of all the requests that were ever allowed on it: lazy
trimming, sweeps and refused calls lose stale times only, so a later call counts
the same requests in both.
-/

namespace DevbitBackend.RateLimit

open SlidingWindow

/-- The times that a limiter with this window counts. -/
def slidingWindow (window : Duration) : Window Instant where
  stale now timestamp := decide (window ≤ saturatingDurationSince now timestamp)
  later h hs := by
    rw [decide_eq_true_iff] at hs ⊢
    exact hs.trans (Nat.sub_le_sub_right h _)
  older h hs := by
    rw [decide_eq_true_iff] at hs ⊢
    exact hs.trans (Nat.sub_le_sub_left h _)

/-- What an exact sliding window answers when the requests at `counted`, oldest
first, count at `now`. -/
def exactInfo (maxRequests : Nat) (window : Duration) (now : Instant) (counted : List Instant) :
    RateLimitInfo where
  allowed := decide (counted.length < maxRequests)
  limit := maxRequests
  remaining := maxRequests - counted.length - 1
  resetAfter := window - saturatingDurationSince now (counted.headD now)

/-- The times of the requests that were allowed on `key`, oldest first. -/
def allowedTimes (key : RateKey) (log : List (Check × RateLimitInfo)) : List Instant :=
  (log.filter fun e => e.1.key == key && e.2.allowed).map fun e => e.1.now

theorem allowedTimes_append (key : RateKey) (log log' : List (Check × RateLimitInfo)) :
    allowedTimes key (log ++ log') = allowedTimes key log ++ allowedTimes key log' := by
  simp [allowedTimes]

/-- A request on another bucket, or a refused one. -/
theorem allowedTimes_other {key : RateKey} {c : Check} {info : RateLimitInfo}
    (h : c.key = key → info.allowed = false) : allowedTimes key [(c, info)] = [] := by
  by_cases hk : c.key = key
  · simp [allowedTimes, h hk]
  · simp [allowedTimes, hk]

theorem allowedTimes_self {c : Check} {info : RateLimitInfo} (h : info.allowed = true) :
    allowedTimes c.key [(c, info)] = [c.now] := by
  simp [allowedTimes, h]

namespace RateLimiter

/-- What a bucket stores. -/
def stored (l : RateLimiter) (key : RateKey) : List Instant := (l.requests.lookup key).getD []

theorem getD_retainEntry (window : Duration) (now : Instant) (entries : List Instant) :
    (retainEntry window now entries).getD [] = (slidingWindow window).live now entries := by
  have hlive : entries.filter (fun timestamp => saturatingDurationSince now timestamp < window) =
      (slidingWindow window).live now entries := by
    refine List.filter_congr fun timestamp _ => ?_
    rw [slidingWindow, ← decide_not]
    exact decide_eq_decide.mpr Nat.not_le.symm
  unfold retainEntry
  rw [hlive]
  cases (slidingWindow window).live now entries <;> rfl

theorem stored_sweep (now : Instant) (l : RateLimiter) (key : RateKey) :
    (l.sweep now).stored key = (slidingWindow l.window).live now (l.stored key) := by
  unfold stored sweep
  rw [lookup_retain]
  cases l.requests.lookup key with
  | none => rfl
  | some entries => exact getD_retainEntry l.window now entries

/-! ### The invariant -/

/-- At `now`, each bucket covers the requests that were allowed on it. -/
def Exact (l : RateLimiter) (log : List (Check × RateLimitInfo)) (now : Instant) : Prop :=
  ∀ key, (slidingWindow l.window).Covers now (l.stored key) (allowedTimes key log)

/-- `new` and `check_at` set the limits of a limiter once. -/
structure SameLimits (l l' : RateLimiter) : Prop where
  maxRequests : l'.maxRequests = l.maxRequests
  window : l'.window = l.window

variable {l l' : RateLimiter} {log : List (Check × RateLimitInfo)} {now now' : Instant}
  {key : RateKey}

theorem SameLimits.refl (l : RateLimiter) : SameLimits l l := ⟨rfl, rfl⟩

theorem SameLimits.trans {l'' : RateLimiter} (h : SameLimits l l') (h' : SameLimits l' l'') :
    SameLimits l l'' :=
  ⟨h'.maxRequests.trans h.maxRequests, h'.window.trans h.window⟩

theorem exact_new (maxRequests : Nat) (window : Duration) (now : Instant) :
    (new maxRequests window now).Exact [] now := fun _ => Window.Covers.nil

theorem Exact.later (h : l.Exact log now) (hnow : now ≤ now') : l.Exact log now' :=
  fun key => (h key).later hnow

/-- The limiter that `checkEntries` finds. -/
def swept (now : Instant) (l : RateLimiter) : RateLimiter :=
  if (l.shouldSweep now).1 then (l.shouldSweep now).2.sweep now else (l.shouldSweep now).2

theorem checkAt_eq (key : RateKey) (now : Instant) (l : RateLimiter) :
    l.checkAt key now = (l.swept now).checkEntries key now := rfl

theorem sameLimits_swept (now : Instant) (l : RateLimiter) : SameLimits l (l.swept now) := by
  unfold swept shouldSweep
  split <;> split <;> exact ⟨rfl, rfl⟩

/-- A sweep loses stale times only, so the limiter still stands for the log. -/
theorem Exact.swept (h : l.Exact log now) : (l.swept now).Exact log now := by
  intro key
  unfold RateLimiter.swept shouldSweep
  split
  · rw [if_pos rfl]
    have hsweep := stored_sweep now { l with lastSweep := now } key
    rw [hsweep]
    exact (h key).live
  · exact h key

/-- The bucket of the call is replaced by `entries`. -/
theorem Exact.insert {entries : List Instant} {log' : List (Check × RateLimitInfo)}
    (h : l.Exact log now)
    (hkey : (slidingWindow l.window).Covers now entries (allowedTimes key log'))
    (hother : ∀ k, k ≠ key → allowedTimes k log' = allowedTimes k log) :
    Exact { l with requests := l.requests.insert key entries } log' now := by
  intro k
  by_cases hk : k = key
  · subst hk
    have hl : stored { l with requests := l.requests.insert k entries } k = entries := by
      simp [stored]
    rw [hl]
    exact hkey
  · have hl : stored { l with requests := l.requests.insert key entries } k = l.stored k := by
      simp [stored, AList.lookup_insert_ne hk]
    rw [hl, hother k hk]
    exact h k

/-- The log after one more call on the bucket `key`. -/
theorem allowedTimes_concat {info : RateLimitInfo} :
    allowedTimes key (log ++ [(⟨key, now⟩, info)]) =
      allowedTimes key log ++ if info.allowed then [now] else [] := by
  rw [allowedTimes_append]
  cases ha : info.allowed with
  | true => rw [allowedTimes_self (c := ⟨key, now⟩) ha, if_pos rfl]
  | false => rw [allowedTimes_other fun _ => ha, if_neg Bool.false_ne_true]

theorem allowedTimes_concat_ne {info : RateLimitInfo} {k : RateKey} (hk : k ≠ key) :
    allowedTimes k (log ++ [(⟨key, now⟩, info)]) = allowedTimes k log := by
  rw [allowedTimes_append, allowedTimes_other fun h => absurd h hk.symm, List.append_nil]

theorem getElem_zero_concat {xs : List Instant} (h : 0 < (xs ++ [now]).length) :
    (xs ++ [now])[0] = xs.headD now := by
  cases xs <;> rfl

theorem getElem_zero {xs : List Instant} (h : 0 < xs.length) : xs[0] = xs.headD now := by
  cases xs with
  | nil => simp at h
  | cons x xs => rfl

/-- The answer, and what the bucket stores after it. -/
theorem checkEntries_eq (key : RateKey) (now : Instant) (l : RateLimiter) :
    let entries := popExpired l.window now (l.stored key)
    let left := if entries.length < l.maxRequests then entries ++ [now] else entries
    l.checkEntries key now = (exactInfo l.maxRequests l.window now entries,
      { l with requests := l.requests.insert key left }) := by
  intro entries left
  have hentries : popExpired l.window now ((l.requests.lookup key).getD []) = entries := rfl
  unfold RateLimiter.checkEntries exactInfo
  simp only [hentries]
  split
  · rename_i hfull
    have hnot : ¬ entries.length < l.maxRequests := Nat.not_lt.mpr hfull
    have hzero : l.maxRequests - entries.length - 1 = 0 := by omega
    have hleft : left = entries := if_neg hnot
    rw [getElem_zero, hleft, decide_eq_false hnot, hzero]
  · rename_i hroom
    have hlt : entries.length < l.maxRequests := Nat.not_le.mp hroom
    have hleft : left = entries ++ [now] := if_pos hlt
    rw [getElem_zero_concat, hleft, decide_eq_true hlt, List.length_append,
      List.length_singleton, Nat.sub_add_eq]

/-- **One call** answers as the exact sliding window does, and keeps the
invariant. -/
theorem Exact.checkEntries (h : l.Exact log now) (key : RateKey) :
    let info := exactInfo l.maxRequests l.window now
      ((slidingWindow l.window).live now (allowedTimes key log))
    (l.checkEntries key now).1 = info ∧
      (l.checkEntries key now).2.Exact (log ++ [(⟨key, now⟩, info)]) now ∧
      SameLimits l (l.checkEntries key now).2 := by
  intro info
  have hpop : popExpired l.window now (l.stored key) =
      (slidingWindow l.window).live now (allowedTimes key log) := (h key).trim_eq
  have hcov := (h key).trim
  rw [(h key).trim_eq] at hcov
  rw [checkEntries_eq, hpop]
  refine ⟨rfl, ?_, rfl, rfl⟩
  refine h.insert ?_ fun k hk => allowedTimes_concat_ne hk
  rw [allowedTimes_concat]
  split
  · rename_i hlt
    have hallowed : info.allowed = true := decide_eq_true hlt
    rw [if_pos hallowed]
    exact hcov.push
  · rename_i hnot
    have hrefused : info.allowed = false := decide_eq_false hnot
    rw [hrefused, if_neg Bool.false_ne_true, List.append_nil]
    exact hcov

theorem Exact.checkAt (h : l.Exact log now) (hnow : now ≤ now') (key : RateKey) :
    let info := exactInfo l.maxRequests l.window now'
      ((slidingWindow l.window).live now' (allowedTimes key log))
    (l.checkAt key now').1 = info ∧
      (l.checkAt key now').2.Exact (log ++ [(⟨key, now'⟩, info)]) now' ∧
      SameLimits l (l.checkAt key now').2 := by
  have hsame := sameLimits_swept now' l
  obtain ⟨hinfo, hexact, hlimits⟩ := (h.later hnow).swept.checkEntries key
  rw [hsame.maxRequests, hsame.window] at hinfo hexact
  rw [checkAt_eq]
  exact ⟨hinfo, hexact, hsame.trans hlimits⟩

/-! ### Whole runs -/

theorem run_cons (l : RateLimiter) (c : Check) (calls : List Check) :
    l.run (c :: calls) = ((c, (l.checkAt c.key c.now).1) :: ((l.checkAt c.key c.now).2.run calls).1,
      ((l.checkAt c.key c.now).2.run calls).2) := rfl

/-- The log of a run holds its calls in order. -/
theorem map_fst_run (l : RateLimiter) (calls : List Check) :
    (l.run calls).1.map Prod.fst = calls := by
  induction calls generalizing l with
  | nil => rfl
  | cons c calls ih => rw [run_cons, List.map_cons, ih]

/-- The limiter that meets a call of a run. It stands for the log up to the call, and what
every call keeps (`W`) holds of it. -/
theorem Exact.at_call {W : RateLimiter → List (Check × RateLimitInfo) → Instant → Prop}
    (hkept : ∀ {l log now} (d : Check), l.Exact log now → now ≤ d.now → W l log now →
      W (l.checkAt d.key d.now).2 (log ++ [(d, (l.checkAt d.key d.now).1)]) d.now)
    {calls : List Check} (h : l.Exact log now) (hW : W l log now)
    (htimes : (now :: calls.map (·.now)).Pairwise (· ≤ ·))
    {before after : List (Check × RateLimitInfo)} {c : Check} {info : RateLimitInfo}
    (hlog : (l.run calls).1 = before ++ (c, info) :: after) :
    ∃ l' now', l'.Exact (log ++ before) now' ∧ W l' (log ++ before) now' ∧ SameLimits l l' ∧
      now' ≤ c.now ∧ info = (l'.checkAt c.key c.now).1 := by
  induction calls generalizing l log now before with
  | nil => simp [RateLimiter.run] at hlog
  | cons d calls ih =>
      rw [List.map_cons, List.pairwise_cons] at htimes
      have hnow : now ≤ d.now := htimes.1 _ List.mem_cons_self
      obtain ⟨hinfo, hexact, hlimits⟩ := h.checkAt hnow d.key
      rw [run_cons] at hlog
      -- the call in question is the first, or one of the rest of the run
      cases before with
      | nil =>
          obtain ⟨hhead, -⟩ := List.cons.inj hlog
          obtain ⟨rfl, rfl⟩ := Prod.mk.inj hhead
          rw [List.append_nil]
          exact ⟨l, now, h, hW, ⟨rfl, rfl⟩, hnow, rfl⟩
      | cons e before =>
          obtain ⟨rfl, hrest⟩ := List.cons.inj hlog
          rw [← hinfo] at hexact
          obtain ⟨l', now', hexact', hW', hlimits', hle, hanswer⟩ :=
            ih hexact (hkept d h hnow hW) htimes.2 hrest
          rw [List.append_assoc] at hexact' hW'
          exact ⟨l', now', hexact', hW', hlimits.trans hlimits', hle, hanswer⟩

/-- **Every answer of a run** is that of the exact sliding window over the
requests allowed before it. -/
theorem Exact.run {calls : List Check} (h : l.Exact log now)
    (htimes : (now :: calls.map (·.now)).Pairwise (· ≤ ·))
    {before after : List (Check × RateLimitInfo)} {c : Check} {info : RateLimitInfo}
    (hlog : (l.run calls).1 = before ++ (c, info) :: after) :
    info = exactInfo l.maxRequests l.window c.now
      ((slidingWindow l.window).live c.now (allowedTimes c.key (log ++ before))) := by
  obtain ⟨l', now', hexact, -, hlimits, hle, hanswer⟩ :=
    h.at_call (W := fun _ _ _ => True) (fun _ _ _ _ => trivial) trivial htimes hlog
  obtain ⟨hinfo, -, -⟩ := hexact.checkAt hle c.key
  rw [hanswer, hinfo, hlimits.maxRequests, hlimits.window]

/-- Calls on other buckets change no answer on `key`. -/
theorem Exact.filter_run {calls : List Check} {log' : List (Check × RateLimitInfo)}
    (h : l.Exact log now) (h' : l'.Exact log' now) (hlimits : SameLimits l l')
    (hlog : allowedTimes key log' = allowedTimes key log)
    (htimes : (now :: calls.map (·.now)).Pairwise (· ≤ ·)) :
    (l.run calls).1.filter (fun e => e.1.key == key) =
      (l'.run (calls.filter fun c => c.key == key)).1 := by
  induction calls generalizing l l' log log' now with
  | nil => rfl
  | cons c calls ih =>
      rw [List.map_cons, List.pairwise_cons] at htimes
      have hnow : now ≤ c.now := htimes.1 _ List.mem_cons_self
      obtain ⟨hinfo, hexact, hsame⟩ := h.checkAt hnow c.key
      rw [run_cons]
      -- a call on `key` is made in both runs, another in the long one only
      by_cases hk : c.key = key
      · subst hk
        obtain ⟨hinfo', hexact', hsame'⟩ := h'.checkAt hnow c.key
        rw [hlimits.maxRequests, hlimits.window, hlog, ← hinfo] at hinfo' hexact'
        rw [← hinfo] at hexact
        have hlimits' : SameLimits (l.checkAt c.key c.now).2 (l'.checkAt c.key c.now).2 :=
          ⟨by rw [hsame'.maxRequests, hlimits.maxRequests, hsame.maxRequests],
            by rw [hsame'.window, hlimits.window, hsame.window]⟩
        have hrest := ih hexact hexact' hlimits'
          (by rw [allowedTimes_append, allowedTimes_append, hlog]) htimes.2
        rw [List.filter_cons_of_pos (by simp), List.filter_cons_of_pos (by simp), run_cons, hinfo',
          hrest]
      · have hrest := ih hexact (h'.later hnow)
          ⟨by rw [hlimits.maxRequests, hsame.maxRequests], by rw [hlimits.window, hsame.window]⟩
          (by rw [allowedTimes_concat_ne (Ne.symm hk), hlog]) htimes.2
        rw [List.filter_cons_of_neg (by simpa using hk),
          List.filter_cons_of_neg (by simpa using hk), hrest]

end RateLimiter

/-- The calls before `c` on the same bucket that were allowed less than a window
before it. -/
def earlierAllowed (window : Duration) (c : Check) (before : List (Check × RateLimitInfo)) : Nat :=
  before.countP fun e =>
    e.1.key == c.key && e.2.allowed && decide (saturatingDurationSince c.now e.1.now < window)

theorem length_live (window : Duration) (c : Check) (before : List (Check × RateLimitInfo)) :
    ((slidingWindow window).live c.now (allowedTimes c.key before)).length =
      earlierAllowed window c before := by
  unfold earlierAllowed allowedTimes Window.live
  rw [List.filter_map, List.length_map, List.filter_filter, List.countP_eq_length_filter]
  refine congrArg List.length (List.filter_congr fun e _ => ?_)
  have hlive : (!(slidingWindow window).stale c.now e.1.now) =
      decide (saturatingDurationSince c.now e.1.now < window) := by
    rw [slidingWindow, ← decide_not]
    exact decide_eq_decide.mpr Nat.not_le
  rw [Function.comp_apply, hlive, Bool.and_comm]

/-- **The limiter is an exact sliding window per key.** A call is allowed exactly
when fewer than `maxRequests` allowed calls on its key are less than a window
old, and the calls on a key are answered as if there were no others. -/
theorem run_slidingWindow (maxRequests : Nat) (window : Duration) (created : Instant)
    (calls : List Check) (hmax : 1 ≤ maxRequests)
    (htimes : (created :: calls.map (·.now)).Pairwise (· ≤ ·)) :
    let answers (calls : List Check) := ((RateLimiter.new maxRequests window created).run calls).1
    (answers calls).map Prod.fst = calls ∧
      (∀ before c info after, answers calls = before ++ (c, info) :: after →
        (info.allowed = true ↔ earlierAllowed window c before < maxRequests) ∧
        (info.allowed = true → info.remaining = maxRequests - earlierAllowed window c before - 1) ∧
        (info.allowed = false → info.remaining = 0)) ∧
      ∀ key, (answers calls).filter (fun e => e.1.key == key) =
        answers (calls.filter fun c => c.key == key) := by
  intro answers
  have hexact := RateLimiter.exact_new maxRequests window created
  have hlimit : (RateLimiter.new maxRequests window created).maxRequests = maxRequests :=
    max_eq_left hmax
  refine ⟨RateLimiter.map_fst_run _ _, ?_, ?_⟩
  · intro before c info after hlog
    -- the limiter that meets the call stands for the log before it
    have hinfo := hexact.run htimes hlog
    rw [hlimit, List.nil_append] at hinfo
    have hcount := length_live window c before
    have hallowed : info.allowed = decide (earlierAllowed window c before < maxRequests) := by
      rw [hinfo, ← hcount]
      rfl
    have hremaining : info.remaining = maxRequests - earlierAllowed window c before - 1 := by
      rw [hinfo, ← hcount]
      rfl
    refine ⟨by rw [hallowed, decide_eq_true_iff], fun _ => hremaining, fun hrefused => ?_⟩
    rw [hallowed, decide_eq_false_iff_not] at hrefused
    omega
  · intro key
    exact hexact.filter_run hexact (.refl _) rfl htimes

/-- The second of two calls within a window, on a budget of one. -/
theorem run_slidingWindow_full :
    let log := ((RateLimiter.new 1 60 0).run [⟨.user 7, 0⟩, ⟨.user 7, 59⟩]).1
    ∃ before c info, log = before ++ [(c, info)] ∧ earlierAllowed 60 c before = 1 ∧
      info.allowed = false := by
  have hrun := (run_slidingWindow 1 60 0 [⟨.user 7, 0⟩, ⟨.user 7, 59⟩] (by decide) (by decide)).2.1
    [(⟨.user 7, 0⟩, ⟨true, 1, 0, 60⟩)] ⟨.user 7, 59⟩ ⟨false, 1, 0, 1⟩ [] (by decide)
  refine ⟨[(⟨.user 7, 0⟩, ⟨true, 1, 0, 60⟩)], ⟨.user 7, 59⟩, ⟨false, 1, 0, 1⟩, by decide,
    by decide, ?_⟩
  rw [← Bool.not_eq_true]
  exact fun hallowed => absurd (hrun.1.mp hallowed) (by decide)

end DevbitBackend.RateLimit
