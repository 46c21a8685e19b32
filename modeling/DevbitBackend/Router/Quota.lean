import DevbitBackend.Router.History

/-!
# Router.Quota

What a client may count on. An answer says how many requests are left and when the oldest
one leaves the window. So many more requests of the bucket are let in, whenever they come,
and until that moment no others are. Both are read off the room in the bucket: a request of
the bucket takes at most one place, and no place is made before the oldest request leaves
(`room_step`, `full_step`).
-/

namespace DevbitBackend.Router

open Auth (Jwt)
open Http RateLimit
open SlidingWindow (Window)

/-! ### Headers -/

section

variable {name name' value : String} {headers : List (String × String)}

theorem find?_insertHeader :
    (insertHeader name value headers).find? (fun header => header.1 == name) =
      some (name, value) := by
  have hnone : (headers.filter fun header => header.1 != name).find?
      (fun header => header.1 == name) = none := by
    rw [List.find?_eq_none]
    intro header hmem
    simpa using (List.mem_filter.mp hmem).2
  rw [insertHeader, List.find?_append, hnone]
  simp

theorem find?_insertHeader_ne (h : name ≠ name') :
    (insertHeader name value headers).find? (fun header => header.1 == name') =
      headers.find? fun header => header.1 == name' := by
  have hfilter : (headers.filter fun header => header.1 != name).find?
      (fun header => header.1 == name') = headers.find? fun header => header.1 == name' := by
    rw [List.find?_filter]
    congr 1
    funext header
    by_cases hname : header.1 = name'
    · simp [hname, h.symm]
    · simp [hname]
  rw [insertHeader, List.find?_append, hfilter, List.find?_singleton, if_neg (by simpa using h),
    Option.or_none]

end

section

variable {ρ σ β : Type} {jwt : Jwt} {app : App ρ σ β} {lim : Budget → Nat} {b : Bucket}
  {history : History} {requests : List (HttpRequest ρ)} {request : HttpRequest ρ}
  {now later : Instant}

/-- The security headers replace no others. -/
theorem header_securityHeaders (response : Response (Body β)) {name : String}
    (h : "strict-transport-security" ≠ name ∧ "x-frame-options" ≠ name ∧
      "x-content-type-options" ≠ name) :
    (securityHeaders response).header name = response.header name := by
  simp only [Response.header, securityHeaders, find?_insertHeader_ne h.1,
    find?_insertHeader_ne h.2.1, find?_insertHeader_ne h.2.2]

theorem find?_addRateLimitHeaders (info : RateLimitInfo) (headers : List (String × String)) :
    (addRateLimitHeaders info headers).find? (fun h => h.1 == "x-ratelimit-remaining") =
        some ("x-ratelimit-remaining", toString info.remaining) ∧
      (addRateLimitHeaders info headers).find? (fun h => h.1 == "x-ratelimit-reset") =
        some ("x-ratelimit-reset", toString (retryAfterSeconds info.resetAfter)) := by
  refine ⟨?_, find?_insertHeader⟩
  rw [addRateLimitHeaders, find?_insertHeader_ne (by decide), find?_insertHeader]

theorem header_answerLimited (info : RateLimitInfo) (next : Next σ β) (state : σ) :
    (answerLimited info next state).1.header "x-ratelimit-remaining" =
        some (toString info.remaining) ∧
      (answerLimited info next state).1.header "x-ratelimit-reset" =
        some (toString (retryAfterSeconds info.resetAfter)) := by
  unfold answerLimited Response.header
  split
  · obtain ⟨hremaining, hreset⟩ := find?_addRateLimitHeaders info (next state).1.headers
    simp only [hremaining, hreset, Option.map_some, and_self]
  · obtain ⟨hremaining, hreset⟩ :=
      find?_addRateLimitHeaders info [("content-type", "application/json")]
    have hother : "retry-after" ≠ "x-ratelimit-remaining" ∧ "retry-after" ≠ "x-ratelimit-reset" :=
      by decide
    simp only [rateLimitedResponse, find?_insertHeader_ne hother.1,
      find?_insertHeader_ne hother.2, hremaining, hreset, Option.map_some, and_self]

/-- **Each answer on a bucket** shows what its limiter has said, whatever headers the route
has set. -/
theorem header_handle (lim : Budget → Nat) (e : ExactServer σ)
    (hb : chargedTo app.jwt b request = true) :
    let info := e.history.info lim b request.now
    (e.handle app lim request).1.header "x-ratelimit-remaining" =
        some (toString info.remaining) ∧
      (e.handle app lim request).1.header "x-ratelimit-reset" =
        some (toString (retryAfterSeconds info.resetAfter)) := by
  have hbucket : bucket app.jwt request = some b := of_decide_eq_true hb
  unfold ExactServer.handle
  simp only [hbucket]
  rw [header_securityHeaders _ (by decide), header_securityHeaders _ (by decide)]
  exact header_answerLimited _ _ _

/-! ### Room in a bucket -/

/-- Requests count less and less: with the time going on, none comes back into the window. -/
theorem counted_later (history : History) (b : Bucket) (hnow : now ≤ later) :
    (history.counted b later).length ≤ (history.counted b now).length := by
  rw [History.counted_eq, History.counted_eq, ← Window.live_live hnow]
  exact List.length_filter_le _ _

theorem counted_step (request : HttpRequest ρ) (now : Instant) :
    (history.step jwt lim request).counted b now = history.counted b now ++
      (if chargedTo jwt b request ∧ history.admits jwt lim request = true then [request.now]
        else []).filter fun t => saturatingDurationSince now t < rateLimitWindow := by
  rw [History.counted, History.times_step, List.filter_append]
  rfl

/-- **One request** takes at most one place. -/
theorem room_step (jwt : Jwt) {room : Nat} (hnow : now ≤ request.now)
    (hroom : (history.counted b now).length + room ≤ lim b.budget) :
    ((history.step jwt lim request).counted b request.now).length +
      (room - (chargedTo jwt b request).toNat) ≤ lim b.budget := by
  have hlater := counted_later history b hnow
  rw [counted_step, List.length_append]
  cases hb : chargedTo jwt b request with
  | false =>
      simp only [Bool.false_eq_true, false_and, if_false, List.filter_nil, List.length_nil,
        Bool.toNat_false]
      omega
  | true =>
      rw [admits_eq hb]
      by_cases hlt : (history.counted b request.now).length < lim b.budget
      · have hone := List.length_filter_le
          (fun t => decide (saturatingDurationSince request.now t < rateLimitWindow)) [request.now]
        simp only [hlt, decide_true, and_self, if_true, Bool.toNat_true]
        simp only [List.length_singleton] at hone
        omega
      · simp only [hlt, decide_false, Bool.false_eq_true, and_false, if_false, List.filter_nil,
          List.length_nil, Bool.toNat_true]
        omega

/-- As long as the requests on a bucket are not more than its free places, there is room. -/
theorem room_after {room : Nat} (htimes : (now :: requests.map (·.now)).Pairwise (· ≤ ·))
    (hlater : ∀ t ∈ now :: requests.map (·.now), t ≤ later)
    (hroom : (history.counted b now).length + room ≤ lim b.budget) :
    ((history.after jwt lim requests).counted b later).length +
      (room - requests.countP (chargedTo jwt b)) ≤ lim b.budget := by
  induction requests generalizing history now room with
  | nil =>
      have hcount := counted_later history b (hlater now List.mem_cons_self)
      have hnil : history.after jwt lim ([] : List (HttpRequest ρ)) = history := rfl
      rw [List.countP_nil, hnil]
      omega
  | cons request requests ih =>
      rw [List.map_cons, List.pairwise_cons] at htimes
      have hstep := room_step jwt (htimes.1 _ List.mem_cons_self) hroom
      have hrest := ih htimes.2 (fun t ht => hlater t (List.mem_cons_of_mem _ ht)) hstep
      have hcount : (request :: requests).countP (chargedTo jwt b) =
          requests.countP (chargedTo jwt b) + (chargedTo jwt b request).toNat := by
        rw [List.countP_cons]
        cases chargedTo jwt b request <;> rfl
      rw [History.after_cons, hcount]
      omega

/-! ### A full bucket -/

/-- From `now` on, what counts on the bucket counts until `moment`. -/
def Lasts (b : Bucket) (history : History) (now moment : Instant) : Prop :=
  ∀ t ∈ history.times b, now < t + rateLimitWindow → moment ≤ t + rateLimitWindow

/-- The requests of the bucket that count until `moment`. -/
def lasting (b : Bucket) (history : History) (moment : Instant) : Nat :=
  (history.times b).countP fun t => moment ≤ t + rateLimitWindow

theorem length_counted {moment : Instant} (h : Lasts b history now moment) (hnow : now ≤ later)
    (hlater : later < moment) : (history.counted b later).length = lasting b history moment := by
  unfold History.counted lasting
  rw [List.countP_eq_length_filter]
  congr 1
  refine List.filter_congr fun t ht => decide_eq_decide.mpr ?_
  rw [counts_iff]
  exact ⟨fun hcounts => h t ht (hnow.trans_lt hcounts), fun hlasts => hlater.trans_le hlasts⟩

theorem Lasts.step (jwt : Jwt) (lim : Budget → Nat) {moment : Instant}
    (h : Lasts b history now moment)
    (hmoment : moment ≤ now + rateLimitWindow) (hnow : now ≤ request.now) :
    Lasts b (history.step jwt lim request) request.now moment := by
  intro t ht hcounts
  rw [History.times_step] at ht
  rcases List.mem_append.mp ht with ht | ht
  · exact h t ht (hnow.trans_lt hcounts)
  · split at ht
    · rw [List.mem_singleton.mp ht]
      exact hmoment.trans (Nat.add_le_add_right hnow _)
    · cases ht

/-- **One request** before the moment takes a place, until there is none. -/
theorem full_step (jwt : Jwt) (lim : Budget → Nat) {moment : Instant}
    (h : Lasts b history now moment)
    (hmoment : moment ≤ now + rateLimitWindow) (hnow : now ≤ request.now)
    (hbefore : request.now < moment) :
    min (lim b.budget) (lasting b history moment + (chargedTo jwt b request).toNat) ≤
      lasting b (history.step jwt lim request) moment := by
  have hcount : lasting b (history.step jwt lim request) moment = lasting b history moment +
      (if chargedTo jwt b request ∧ history.admits jwt lim request = true then 1 else 0) := by
    unfold lasting
    rw [History.times_step, List.countP_append]
    congr 1
    split
    -- a request that is let in stays counted until the moment
    · have hlasts : moment ≤ request.now + rateLimitWindow :=
        hmoment.trans (Nat.add_le_add_right hnow _)
      simp [hlasts]
    · rfl
  rw [hcount]
  cases hb : chargedTo jwt b request with
  | false => simp
  | true =>
      rw [admits_eq hb, length_counted h hnow hbefore]
      -- let in while a place is left; a refused request finds all of them taken
      by_cases hlt : lasting b history moment < lim b.budget
      · simp [hlt]
      · simp only [hlt, decide_false, Bool.false_eq_true, and_false, if_false, Nat.add_zero]
        exact (min_le_left _ _).trans (Nat.not_lt.mp hlt)

theorem full_after (jwt : Jwt) (lim : Budget → Nat) {moment : Instant}
    (h : Lasts b history now moment)
    (hmoment : moment ≤ now + rateLimitWindow)
    (htimes : (now :: requests.map (·.now)).Pairwise (· ≤ ·))
    (hlater : ∀ t ∈ now :: requests.map (·.now), t ≤ later) (hbefore : later < moment) :
    min (lim b.budget) (lasting b history moment + requests.countP (chargedTo jwt b)) ≤
      ((history.after jwt lim requests).counted b later).length := by
  induction requests generalizing history now with
  | nil =>
      have hnil : history.after jwt lim ([] : List (HttpRequest ρ)) = history := rfl
      rw [hnil, length_counted h (hlater now List.mem_cons_self) hbefore]
      exact min_le_right _ _
  | cons request requests ih =>
      rw [List.map_cons, List.pairwise_cons] at htimes
      have hnow := htimes.1 _ List.mem_cons_self
      have hrest := ih (h.step jwt lim hmoment hnow)
        (hmoment.trans (Nat.add_le_add_right hnow _)) htimes.2
        (fun t ht => hlater t (List.mem_cons_of_mem _ ht))
      have hstep := full_step jwt lim h hmoment hnow
        ((hlater _ (List.mem_cons_of_mem _ List.mem_cons_self)).trans_lt hbefore)
      have hcount : (request :: requests).countP (chargedTo jwt b) =
          requests.countP (chargedTo jwt b) + (chargedTo jwt b request).toNat := by
        rw [List.countP_cons]
        cases chargedTo jwt b request <;> rfl
      rw [History.after_cons, hcount]
      omega

/-! ### What an answer promises -/

/-- The oldest request that counts leaves the window when the answer says. -/
theorem lasts_info (lim : Budget → Nat) (hsorted : (history.times b).Pairwise (· ≤ ·))
    (hpast : ∀ t ∈ history.times b, t ≤ now) :
    Lasts b history now (now + (history.info lim b now).resetAfter) := by
  intro t ht hcounts
  have hmem : t ∈ history.counted b now :=
    List.mem_filter.mpr ⟨ht, decide_eq_true (counts_iff.mpr hcounts)⟩
  have hcounted : (history.counted b now).Pairwise (· ≤ ·) := hsorted.sublist List.filter_sublist
  unfold History.info exactInfo
  cases hlist : history.counted b now with
  | nil => exact absurd (hlist ▸ hmem) List.not_mem_nil
  | cons oldest rest =>
      rw [hlist] at hmem hcounted
      have hle : oldest ≤ t := by
        rcases List.mem_cons.mp hmem with rfl | hrest
        · exact le_rfl
        · exact (List.pairwise_cons.mp hcounted).1 t hrest
      have hold : oldest ∈ history.counted b now := hlist ▸ List.mem_cons_self
      have hpast' := hpast oldest (List.mem_of_mem_filter hold)
      simp only [List.headD_cons, saturatingDurationSince]
      unfold rateLimitWindow Instant Duration at *
      omega

theorem resetAfter_pos : 0 < (history.info lim b now).resetAfter := by
  have hhead : saturatingDurationSince now ((history.counted b now).headD now) <
      rateLimitWindow := by
    cases hlist : history.counted b now with
    | nil => exact counts_iff.mpr (Nat.lt_add_of_pos_right (by decide))
    | cons oldest rest =>
        have hold : oldest ∈ history.counted b now := hlist ▸ List.mem_cons_self
        exact of_decide_eq_true (List.mem_filter.mp hold).2
  exact Nat.sub_pos_of_lt hhead

/-- What the answer to one request promises about a later one. -/
theorem info_promise (lim : Budget → Nat)
    (hnow : ∀ t ∈ request.now :: requests.map (·.now), t ≤ later)
    (htimes : (request.now :: requests.map (·.now)).Pairwise (· ≤ ·))
    (hsorted : (history.times b).Pairwise (· ≤ ·))
    (hpast : ∀ t ∈ history.times b, t ≤ request.now) (hb : chargedTo jwt b request = true) :
    let info := history.info lim b request.now
    let counted := ((history.step jwt lim request).after jwt lim requests).counted b later
    (requests.countP (chargedTo jwt b) < info.remaining → counted.length < lim b.budget) ∧
      (info.remaining ≤ requests.countP (chargedTo jwt b) →
        later < request.now + info.resetAfter → lim b.budget ≤ counted.length) := by
  intro info counted
  have hremaining : info.remaining =
      lim b.budget - (history.counted b request.now).length - 1 := rfl
  refine ⟨fun hfew => ?_, fun hmany hbefore => ?_⟩
  · have hplaces : (history.counted b request.now).length + (info.remaining + 1) ≤
        lim b.budget := by omega
    -- `remaining` leaves out the request itself
    have hroom := room_step jwt (le_refl request.now) hplaces
    rw [hb, Bool.toNat_true, Nat.add_sub_cancel] at hroom
    have hcounted : counted.length + (info.remaining - requests.countP (chargedTo jwt b)) ≤
        lim b.budget := room_after htimes hnow hroom
    omega
  -- at `resetAfter` the oldest counted request leaves the window
  · have hmoment : request.now + info.resetAfter ≤ request.now + rateLimitWindow :=
      Nat.add_le_add_left (Nat.sub_le _ _) _
    have hlasts := lasts_info lim hsorted hpast
    have hstep := full_step jwt lim hlasts hmoment (le_refl request.now)
      (Nat.lt_add_of_pos_right resetAfter_pos)
    have hafter := full_after jwt lim
      (hlasts.step jwt lim hmoment (le_refl request.now)) hmoment htimes hnow
      hbefore
    rw [hb, ← length_counted hlasts (le_refl request.now)
      (Nat.lt_add_of_pos_right resetAfter_pos)] at hstep
    simp only [Bool.toNat_true] at hstep
    have hcounted : min (lim b.budget) (lasting b (history.step jwt lim request)
        (request.now + info.resetAfter) + requests.countP (chargedTo jwt b)) ≤ counted.length :=
      hafter
    have hlasting : min (lim b.budget) ((history.counted b request.now).length + 1) ≤
        lasting b (history.step jwt lim request) (request.now + info.resetAfter) := hstep
    omega

end

theorem toString_inj {m n : Nat} (h : toString m = toString n) : m = n := by
  have hdigits := congrArg (fun s => Nat.ofDigitChars 10 s.toList 0) h
  simpa [Nat.toString_eq_ofList_toDigits, Nat.ofDigitChars_ten_toDigits] using hdigits

/-- **The announced budget is honest.** In every run of the server, whose requests are handled
one after the other at nondecreasing clock readings, the answer to a request on a bucket
announces how many requests are left, and the seconds until the oldest one leaves the
window. So many more requests of the bucket are let in whenever they come, and none after
them up to a second before that moment. -/
theorem remaining_honest {ρ σ β : Type} (app : App ρ σ β) (env : String → Option String)
    (created : Instant) (state : σ) (requests : List (HttpRequest ρ))
    (htimes : (created :: requests.map (·.now)).Pairwise (· ≤ ·)) :
    ∀ before request response after b,
      ((buildRouter env created state).run app requests).1 =
        before ++ (request, response) :: after →
      bucket app.jwt request = some b →
      ∃ remaining seconds,
        response.header "x-ratelimit-remaining" = some (toString remaining) ∧
        response.header "x-ratelimit-reset" = some (toString seconds) ∧
        ∀ mid request' response' rest, after = mid ++ (request', response') :: rest →
          bucket app.jwt request' = some b →
          ((mid.map Prod.fst).countP (fun r => bucket app.jwt r = some b) < remaining →
            response'.body.refused = false) ∧
          (remaining ≤ (mid.map Prod.fst).countP (fun r => bucket app.jwt r = some b) →
            request'.now + 1000000000 ≤ request.now + seconds * 1000000000 →
            response'.body.refused = true) := by
  intro before request response after b hlog hb
  have hcharged : chargedTo app.jwt b request = true := decide_eq_true hb
  have hall := map_fst_run app env state htimes
  obtain ⟨state', hresponse⟩ := answer_at htimes hlog
  let history := History.after app.jwt (limits env) [] (before.map Prod.fst)
  let info := history.info (limits env) b request.now
  obtain ⟨hremaining, hreset⟩ := header_handle (limits env) ⟨history, state'⟩ hcharged
  rw [← hresponse] at hremaining hreset
  refine ⟨info.remaining, retryAfterSeconds info.resetAfter, hremaining, hreset, ?_⟩
  -- the later request, and those in between
  rintro mid request' response' rest rfl hb'
  have hcharged' : chargedTo app.jwt b request' = true := decide_eq_true hb'
  rw [List.append_cons, ← List.append_assoc] at hlog
  obtain ⟨state'', hresponse'⟩ := answer_at htimes hlog
  have hhistory : History.after app.jwt (limits env) []
      ((before ++ [(request, response)] ++ mid).map Prod.fst) =
        (history.step app.jwt (limits env) request).after app.jwt (limits env)
          (mid.map Prod.fst) := by
    rw [List.map_append, List.map_append, History.after_append, History.after_append]
    rfl
  -- the times of the run, around the two requests
  have htimes' : ((before.map Prod.fst).map (·.now) ++ (request.now ::
      (mid.map Prod.fst).map (·.now)) ++ request'.now :: (rest.map Prod.fst).map (·.now)).Pairwise
        (· ≤ ·) := by
    have hsorted := (List.pairwise_cons.mp htimes).2
    rw [← hall, hlog] at hsorted
    simpa using hsorted
  obtain ⟨hfront, -, hlast⟩ := List.pairwise_append.mp htimes'
  obtain ⟨hbefore, hmid, hcross⟩ := List.pairwise_append.mp hfront
  have hkept : (history.times b).Sublist ((before.map Prod.fst).map (·.now)) := by
    have htimesAfter : history.times b = History.times [] b ++ _ := History.times_after
    rw [htimesAfter]
    exact admittedTimes_sublist
  obtain ⟨hroom, hfull⟩ := info_promise (limits env) (fun t ht => hlast t
    (List.mem_append_right _ ht) _ List.mem_cons_self) hmid (hbefore.sublist hkept)
    (fun t ht => hcross t (hkept.subset ht) _ List.mem_cons_self) hcharged
  rw [hresponse', refused_handle, hhistory, admits_eq hcharged', Bool.not_eq_false',
    Bool.not_eq_true', decide_eq_true_iff, decide_eq_false_iff_not, Nat.not_lt]
  refine ⟨hroom, fun hmany hbefore => hfull hmany ?_⟩
  have hpos : 0 < info.resetAfter := resetAfter_pos
  have hwindow : info.resetAfter ≤ rateLimitWindow := Nat.sub_le _ _
  have hseconds := (retryAfterSeconds_bounds hpos (hwindow.trans_lt (by decide))).2
  have hmoment := hbefore.trans_lt (Nat.add_lt_add_left hseconds request.now)
  rw [← Nat.add_assoc] at hmoment
  exact Nat.lt_of_add_lt_add_right hmoment

/-- Three sign-ins of one client within a second, with a budget of two: the first answer
leaves one. -/
theorem remaining_honest_signIns :
    let request (now : Instant) : HttpRequest Unit :=
      ⟨.post, ["login"], [], .v4 0xC0000201#32, now, 0, ()⟩
    let env := fun name => if name = "RATE_LIMIT_AUTH_PER_MINUTE" then some "2" else none
    let app : App Unit Unit Unit := ⟨⟨fun _ _ => none⟩, fun _ _ => (⟨401, [], ()⟩, ())⟩
    ∃ first second third, ((buildRouter env 0 ()).run app [request 1, request 2, request 3]).1 =
        [(request 1, first), (request 2, second), (request 3, third)] ∧
      third.body.refused = true := by
  intro request env app
  let first := ((buildRouter env 0 ()).handle app (request 1)).1
  have hlog : ∃ second third, ((buildRouter env 0 ()).run app
      [request 1, request 2, request 3]).1 =
        [] ++ (request 1, first) :: ([(request 2, second)] ++ (request 3, third) :: []) :=
    ⟨_, _, rfl⟩
  obtain ⟨second, third, hlog⟩ := hlog
  obtain ⟨remaining, seconds, hremaining, hreset, hlater⟩ := remaining_honest app env 0 () _
    (by decide) [] _ _ _ ⟨.auth, .ip (.v4 0xC0000201#32)⟩ hlog (by decide)
  obtain ⟨-, hfull⟩ := hlater [(request 2, second)] _ third [] rfl (by decide)
  have hone : first.header "x-ratelimit-remaining" = some (toString 1) := by decide
  have hminute : first.header "x-ratelimit-reset" = some (toString 60) := by decide
  obtain rfl := toString_inj (Option.some.inj (hremaining.symm.trans hone))
  obtain rfl := toString_inj (Option.some.inj (hreset.symm.trans hminute))
  exact ⟨first, second, third, hlog, hfull (Nat.le_of_eq rfl) (by decide)⟩

end DevbitBackend.Router
