import Mathlib.Data.List.Dedup
import DevbitBackend.RateLimit.Exact

/-!
# RateLimit.Memory

What the limiter stores is bounded by recent traffic. A bucket that is not used again
is dropped by a sweep only, and a sweep comes at most once a window. So the newest time
of a bucket is compared with the last sweep and not with the present (`Kept.recent`),
and after a call the last sweep is less than a window old.
-/

namespace DevbitBackend.RateLimit

namespace RateLimiter

variable {l : RateLimiter} {log : List (Check × RateLimitInfo)} {now now' : Instant}
  {key : RateKey} {history entries : List Instant}

/-- What a bucket may store since `lastSweep`, when the requests at `history` were
allowed on it. -/
structure Kept (maxRequests : Nat) (window : Duration) (lastSweep : Instant)
    (history entries : List Instant) : Prop where
  length_le : entries.length ≤ maxRequests
  recorded : entries.Sublist history
  recent : ∃ t, entries.getLast? = some t ∧ saturatingDurationSince lastSweep t < window

/-- The limiter, after the requests of `log` and at `now`. -/
structure Bounded (l : RateLimiter) (log : List (Check × RateLimitInfo)) (now : Instant) :
    Prop where
  past : l.lastSweep ≤ now
  kept : ∀ key entries, l.requests.lookup key = some entries →
    Kept l.maxRequests l.window l.lastSweep (allowedTimes key log) entries

theorem bounded_new (maxRequests : Nat) (window : Duration) (now : Instant) :
    (new maxRequests window now).Bounded [] now :=
  ⟨le_rfl, fun _ _ h => nomatch h⟩

theorem Bounded.later (h : l.Bounded log now) (hnow : now ≤ now') : l.Bounded log now' :=
  ⟨h.past.trans hnow, h.kept⟩

section Bucket

variable {maxRequests : Nat} {window : Duration} {lastSweep : Instant}

/-- What a sweep keeps is less than a window old. -/
theorem Kept.retainEntry {entries' : List Instant}
    (h : Kept maxRequests window lastSweep history entries)
    (hretain : retainEntry window now entries = some entries') :
    Kept maxRequests window now history entries' := by
  simp only [RateLimiter.retainEntry] at hretain
  split at hretain
  · cases hretain
  · rename_i hne
    obtain rfl := Option.some.inj hretain
    refine ⟨(List.length_filter_le _ _).trans h.length_le, List.filter_sublist.trans h.recorded, ?_⟩
    rw [List.isEmpty_iff] at hne
    refine ⟨_, List.getLast?_eq_some_getLast hne, ?_⟩
    exact of_decide_eq_true (List.mem_filter.mp (List.getLast_mem hne)).2

/-- What is left of a bucket has the same newest time. -/
theorem Kept.popExpired (h : Kept maxRequests window lastSweep history entries)
    (hne : popExpired window now entries ≠ []) :
    Kept maxRequests window lastSweep history (popExpired window now entries) := by
  unfold RateLimiter.popExpired at hne ⊢
  have hsuffix := List.dropWhile_suffix (l := entries)
    fun timestamp => decide (window ≤ saturatingDurationSince now timestamp)
  refine ⟨hsuffix.length_le.trans h.length_le, hsuffix.sublist.trans h.recorded, ?_⟩
  obtain ⟨t, hlast, hrecent⟩ := h.recent
  obtain ⟨front, hfront⟩ := hsuffix
  rw [← hfront, List.getLast?_append_of_ne_nil _ hne] at hlast
  exact ⟨t, hlast, hrecent⟩

/-- The time of an allowed request is added. -/
theorem Kept.push (hsub : entries.Sublist history) (hlt : entries.length < maxRequests)
    (hpast : lastSweep ≤ now) (hwindow : 0 < window) :
    Kept maxRequests window lastSweep (history ++ [now]) (entries ++ [now]) := by
  refine ⟨?_, hsub.append (.refl _), now, List.getLast?_concat, ?_⟩
  · rw [List.length_append, List.length_singleton]
    exact hlt
  · have hzero : saturatingDurationSince lastSweep now = 0 := Nat.sub_eq_zero_of_le hpast
    rw [hzero]
    exact hwindow

end Bucket

/-- Before the bucket is looked at, the last sweep is less than a window old. -/
theorem Bounded.swept (h : l.Bounded log now) (hwindow : 0 < l.window) :
    (l.swept now).Bounded log now ∧
      saturatingDurationSince now (l.swept now).lastSweep < l.window := by
  unfold RateLimiter.swept shouldSweep
  split
  · rw [if_pos rfl]
    refine ⟨⟨le_rfl, fun key entries hlookup => ?_⟩, ?_⟩
    · unfold sweep at hlookup
      rw [SlidingWindow.lookup_retain] at hlookup
      obtain ⟨old, hold, hretain⟩ := Option.bind_eq_some_iff.mp hlookup
      exact (h.kept key old hold).retainEntry hretain
    · simpa [sweep, saturatingDurationSince] using hwindow
  · rename_i hlate
    exact ⟨h, Nat.not_le.mp hlate⟩

/-- What the call finds in its bucket was allowed, and is kept unless it is empty. -/
theorem Bounded.popExpired (h : l.Bounded log now) (key : RateKey) :
    let entries := popExpired l.window now (l.stored key)
    entries.Sublist (allowedTimes key log) ∧
      (entries ≠ [] → Kept l.maxRequests l.window l.lastSweep (allowedTimes key log) entries) := by
  intro entries
  cases hlookup : l.requests.lookup key with
  | none =>
      have hnil : entries = [] := by simp [entries, stored, hlookup, RateLimiter.popExpired]
      rw [hnil]
      exact ⟨List.nil_sublist _, fun hne => absurd rfl hne⟩
  | some old =>
      have hold : entries = RateLimiter.popExpired l.window now old := by
        simp [entries, stored, hlookup]
      have hkept := h.kept key old hlookup
      rw [hold]
      exact ⟨(List.dropWhile_sublist _).trans hkept.recorded, hkept.popExpired⟩

theorem Bounded.checkEntries (h : l.Bounded log now) (hwindow : 0 < l.window) (key : RateKey) :
    (l.checkEntries key now).2.Bounded (log ++ [(⟨key, now⟩, (l.checkEntries key now).1)]) now ∧
      (l.checkEntries key now).2.lastSweep = l.lastSweep := by
  obtain ⟨hsub, hkept⟩ := h.popExpired key
  rw [checkEntries_eq]
  refine ⟨⟨h.past, fun k entries hlookup => ?_⟩, rfl⟩
  by_cases hk : k = key
  · subst hk
    rw [AList.lookup_insert] at hlookup
    obtain rfl := Option.some.inj hlookup
    rw [allowedTimes_concat]
    simp only [exactInfo, decide_eq_true_eq]
    split
    · rename_i hlt
      exact .push hsub hlt h.past hwindow
    · rename_i hfull
      rw [List.append_nil]
      -- a refused call leaves a full bucket, which is not empty
      exact hkept (List.ne_nil_of_length_pos (l.maxRequests_pos.trans (Nat.not_lt.mp hfull)))
  · rw [AList.lookup_insert_ne hk] at hlookup
    rw [allowedTimes_concat_ne hk]
    exact h.kept k entries hlookup

/-- **One call** keeps the bound, and leaves a recent sweep. -/
theorem Bounded.checkAt (h : l.Bounded log now) (hwindow : 0 < l.window) (hnow : now ≤ now')
    (key : RateKey) :
    (l.checkAt key now').2.Bounded (log ++ [(⟨key, now'⟩, (l.checkAt key now').1)]) now' ∧
      saturatingDurationSince now' (l.checkAt key now').2.lastSweep < l.window := by
  have hsame := sameLimits_swept now' l
  obtain ⟨hswept, hrecent⟩ := (h.later hnow).swept hwindow
  rw [← hsame.window] at hwindow
  obtain ⟨hbounded, hlast⟩ := hswept.checkEntries hwindow key
  rw [checkAt_eq, hlast]
  exact ⟨hbounded, hrecent⟩

/-! ### Whole runs -/

theorem run_concat (l : RateLimiter) (calls : List Check) (c : Check) :
    l.run (calls ++ [c]) =
      ((l.run calls).1 ++ [(c, ((l.run calls).2.checkAt c.key c.now).1)],
        ((l.run calls).2.checkAt c.key c.now).2) := by
  induction calls generalizing l with
  | nil => rfl
  | cons d calls ih => rw [List.cons_append, run_cons, ih, run_cons, List.cons_append]

theorem sameLimits_checkAt (l : RateLimiter) (key : RateKey) (now : Instant) :
    SameLimits l (l.checkAt key now).2 := by
  have hsame := sameLimits_swept now l
  rw [checkAt_eq, checkEntries_eq]
  exact ⟨hsame.maxRequests, hsame.window⟩

theorem sameLimits_run (l : RateLimiter) (calls : List Check) : SameLimits l (l.run calls).2 := by
  induction calls generalizing l with
  | nil => exact .refl l
  | cons c calls ih => exact (sameLimits_checkAt l c.key c.now).trans (ih _)

/-- Calls up to `now` keep the bound. -/
theorem Bounded.run {calls : List Check} {created : Instant} (h : l.Bounded log created)
    (hwindow : 0 < l.window) (htimes : (created :: calls.map (·.now)).Pairwise (· ≤ ·))
    (hnow : ∀ t ∈ created :: calls.map (·.now), t ≤ now) :
    (l.run calls).2.Bounded (log ++ (l.run calls).1) now := by
  induction calls generalizing l log created with
  | nil =>
      rw [RateLimiter.run, List.append_nil]
      exact h.later (hnow created List.mem_cons_self)
  | cons c calls ih =>
      rw [List.map_cons, List.pairwise_cons] at htimes
      have hstep := (h.checkAt hwindow (htimes.1 c.now List.mem_cons_self) c.key).1
      rw [← (sameLimits_checkAt l c.key c.now).window] at hwindow
      have hrest := ih hstep hwindow htimes.2 fun t ht => hnow t (List.mem_cons_of_mem _ ht)
      rw [List.append_assoc] at hrest
      rw [run_cons]
      exact hrest

/-- After a run that ends with a call, the last sweep is recent too. -/
theorem Bounded.run_concat {calls : List Check} {c : Check} {created : Instant}
    (h : l.Bounded log created) (hwindow : 0 < l.window)
    (htimes : (created :: (calls ++ [c]).map (·.now)).Pairwise (· ≤ ·)) :
    (l.run (calls ++ [c])).2.Bounded (log ++ (l.run (calls ++ [c])).1) c.now ∧
      saturatingDurationSince c.now (l.run (calls ++ [c])).2.lastSweep < l.window := by
  rw [List.map_append, List.map_singleton, ← List.cons_append, List.pairwise_append] at htimes
  have hpast := h.run hwindow htimes.1 fun t ht =>
    htimes.2.2 t ht c.now (List.mem_singleton_self _)
  have hsame := (sameLimits_run l calls).window
  rw [← hsame] at hwindow
  have hstep := hpast.checkAt hwindow le_rfl c.key
  rw [List.append_assoc, hsame] at hstep
  rw [RateLimiter.run_concat]
  exact hstep

theorem saturatingDurationSince_triangle (t t' t'' : Instant) :
    saturatingDurationSince t t'' ≤
      saturatingDurationSince t t' + saturatingDurationSince t' t'' := by
  unfold saturatingDurationSince Instant Duration
  omega

/-- Then the newest time of a bucket is less than two windows old. -/
theorem Bounded.newest (h : l.Bounded log now)
    (hswept : saturatingDurationSince now l.lastSweep < l.window)
    (hlookup : l.requests.lookup key = some entries) :
    ∃ t, entries.getLast? = some t ∧ saturatingDurationSince now t < 2 * l.window := by
  obtain ⟨t, hlast, hrecent⟩ := (h.kept key entries hlookup).recent
  refine ⟨t, hlast, ?_⟩
  calc saturatingDurationSince now t
      ≤ saturatingDurationSince now l.lastSweep + saturatingDurationSince l.lastSweep t :=
        saturatingDurationSince_triangle _ _ _
    _ < l.window + l.window := Nat.add_lt_add hswept hrecent
    _ = 2 * l.window := (Nat.two_mul _).symm

end RateLimiter

/-- The log of a run has its times in order. -/
theorem allowedTimes_pairwise {log : List (Check × RateLimitInfo)}
    (htimes : (log.map fun e => e.1.now).Pairwise (· ≤ ·)) (key : RateKey) :
    (allowedTimes key log).Pairwise (· ≤ ·) :=
  htimes.sublist (List.filter_sublist.map _)

/-- The keys that were allowed a request less than two windows before `now`. -/
def recentKeys (window : Duration) (now : Instant) (log : List (Check × RateLimitInfo)) :
    List RateKey :=
  (log.filter fun e => e.2.allowed && decide (saturatingDurationSince now e.1.now < 2 * window)).map
    fun e => e.1.key

theorem mem_recentKeys {window : Duration} {now t : Instant} {log : List (Check × RateLimitInfo)}
    {key : RateKey} (ht : t ∈ allowedTimes key log)
    (hrecent : saturatingDurationSince now t < 2 * window) : key ∈ recentKeys window now log := by
  obtain ⟨e, he, rfl⟩ := List.mem_map.mp ht
  obtain ⟨hmem, he⟩ := List.mem_filter.mp he
  rw [Bool.and_eq_true, beq_iff_eq] at he
  refine List.mem_map.mpr ⟨e, List.mem_filter.mpr ⟨hmem, ?_⟩, he.1⟩
  rw [he.2, Bool.true_and]
  exact decide_eq_true hrecent

/-- So no more keys are stored than were allowed a request lately. -/
theorem RateLimiter.Bounded.keys_length_le {l : RateLimiter} {log : List (Check × RateLimitInfo)}
    {now : Instant} (h : l.Bounded log now)
    (hswept : saturatingDurationSince now l.lastSweep < l.window) :
    l.requests.keys.length ≤ (recentKeys l.window now log).dedup.length := by
  refine (List.subperm_of_subset (AList.keys_nodup _) fun key hkey => ?_).length_le
  obtain ⟨entries, hlookup⟩ := Option.isSome_iff_exists.mp (AList.lookup_isSome.mpr hkey)
  obtain ⟨t, hlast, hrecent⟩ := h.newest hswept hlookup
  have hmem := (h.kept key entries hlookup).recorded.subset (List.mem_of_getLast? hlast)
  exact List.mem_dedup.mpr (mem_recentKeys hmem hrecent)

/-- **Memory is bounded by recent traffic.** After every call each bucket of the map
holds some of the latest requests, the newest less than two windows old, so there are
no more buckets than keys that were allowed a request in the last two windows. -/
theorem run_bounded (maxRequests : Nat) (window : Duration) (created : Instant)
    (calls : List Check) (c : Check) (hwindow : 0 < window)
    (htimes : (created :: (calls ++ [c]).map (·.now)).Pairwise (· ≤ ·)) :
    let limiter := RateLimiter.new maxRequests window created
    let (log, l) := limiter.run (calls ++ [c])
    (∀ key entries, l.requests.lookup key = some entries →
      entries.length ≤ limiter.maxRequests ∧ entries.Pairwise (· ≤ ·) ∧
        ∃ t, entries.getLast? = some t ∧ saturatingDurationSince c.now t < 2 * window) ∧
      l.requests.keys.length ≤ (recentKeys window c.now log).dedup.length := by
  intro limiter
  have hsame := RateLimiter.sameLimits_run limiter (calls ++ [c])
  have hwin : (limiter.run (calls ++ [c])).2.window = window := hsame.window
  obtain ⟨hbounded, hswept⟩ :=
    (RateLimiter.bounded_new maxRequests window created).run_concat hwindow htimes
  have hsorted : ((limiter.run (calls ++ [c])).1.map fun e => e.1.now).Pairwise (· ≤ ·) := by
    have hcalls := (List.pairwise_cons.mp htimes).2
    rw [← RateLimiter.map_fst_run limiter (calls ++ [c]), List.map_map] at hcalls
    exact hcalls
  -- the last sweep is less than a window ago, so no bucket outlives two
  have hrecent : saturatingDurationSince c.now (limiter.run (calls ++ [c])).2.lastSweep <
      (limiter.run (calls ++ [c])).2.window := hswept.trans_eq hsame.window.symm
  constructor
  · intro key entries hlookup
    have hkept := hbounded.kept key entries hlookup
    obtain ⟨t, hlast, hnewest⟩ := hbounded.newest hrecent hlookup
    rw [hwin] at hnewest
    exact ⟨hkept.length_le.trans_eq hsame.maxRequests,
      (allowedTimes_pairwise hsorted key).sublist hkept.recorded, t, hlast, hnewest⟩
  · have hkeys := hbounded.keys_length_le hrecent
    rw [hwin] at hkeys
    exact hkeys

/-- A request a window and a half later sweeps the other key. -/
theorem run_bounded_sweep :
    let limiter := RateLimiter.new 1 60 0
    let (log, l) := limiter.run ([⟨.user 7, 0⟩] ++ [⟨.user 8, 90⟩])
    (∀ key entries, l.requests.lookup key = some entries →
      entries.length ≤ limiter.maxRequests ∧ entries.Pairwise (· ≤ ·) ∧
        ∃ t, entries.getLast? = some t ∧ saturatingDurationSince 90 t < 2 * 60) ∧
      l.requests.keys.length ≤ (recentKeys 60 90 log).dedup.length :=
  run_bounded 1 60 0 [⟨.user 7, 0⟩] ⟨.user 8, 90⟩ (by decide) (by decide)

end DevbitBackend.RateLimit
