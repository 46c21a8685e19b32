import DevbitBackend.Auth.Cookies
import DevbitBackend.Router.History

/-!
# Router.Clients

Clients in front of the server. A request comes over a connection of its own from another
host, or through a proxy on the host of the server, which tells the address of the client in
a header that it sets. The proxy is a parameter, and `Proxy.Documented` is what the server
relies on. What a client sends does not change whose budget it uses (`bucket_arrives`). In
a run whose requests are handled one after the other, at clock readings that never go back,
no bucket gets more than its limit in a minute, and what happens on the other buckets does
not matter to it.
-/

namespace DevbitBackend.Router

open Auth (HeaderMap HeaderValue Jwt toStr)
open Http RateLimit
open SlidingWindow (Window)

/-! ### The proxy -/

section

variable {ρ : Type}

/-- A reverse proxy. -/
structure Proxy (ρ : Type) where
  /-- `$remote_addr`: the address of the client as text. -/
  remoteAddr : IpAddr → HeaderValue
  /-- The request that the server gets for one of a client. -/
  forward : HttpRequest ρ → HttpRequest ρ

/-- What the server relies on: the proxy runs on its host and passes on the request line and
the credentials, and `X-Real-IP` is set to `$remote_addr`, whatever the client has sent. -/
structure Proxy.Documented (proxy : Proxy ρ) : Prop where
  readable : ∀ addr, ((toStr (proxy.remoteAddr addr)).bind fun value =>
    IpAddr.parse (trim value)) = some addr
  localPeer : ∀ request, (proxy.forward request).peer.isLoopback = true
  line : ∀ request, (proxy.forward request).method = request.method ∧
    (proxy.forward request).path = request.path
  realIp : ∀ request, HeaderMap.get (proxy.forward request).headers "x-real-ip" =
    some (proxy.remoteAddr request.peer)
  credentials : ∀ request, ∀ name ∈ ["authorization", "cookie"],
    HeaderMap.get (proxy.forward request).headers name = HeaderMap.get request.headers name

/-- How a request of a client gets to the server. A peer on its own host is taken for the
proxy. -/
inductive Arrives (proxy : Proxy ρ) : HttpRequest ρ → HttpRequest ρ → Prop
  | direct {request : HttpRequest ρ} (h : request.peer.isLoopback = false) :
      Arrives proxy request request
  | proxied (request : HttpRequest ρ) : Arrives proxy request (proxy.forward request)

/-- The bucket of a client, told by its address and by its credentials at the time `utc`. -/
def clientBucket (jwt : Jwt) (utc : Auth.Timestamp) (request : HttpRequest ρ) : Option Bucket :=
  match routeGroup request.path with
  | some .auth => some ⟨.auth, .ip request.peer⟩
  | some .general => some ⟨generalBudget request.method,
      match Auth.identityFromHeaders jwt utc request.headers with
      | some identity => .user identity.userId
      | none => .ip request.peer⟩
  | _ => none

variable {proxy : Proxy ρ}

/-- The credentials come through: the proxy passes both headers on as they were sent. -/
theorem identity_forward (h : proxy.Documented) (jwt : Jwt) (utc : Auth.Timestamp)
    (request : HttpRequest ρ) :
    Auth.identityFromHeaders jwt utc (proxy.forward request).headers =
      Auth.identityFromHeaders jwt utc request.headers := by
  have hauthorization := h.credentials request "authorization" (by decide)
  have hcookie := h.credentials request "cookie" (by decide)
  simp only [Auth.identityFromHeaders, Auth.tokenFromHeaders, hauthorization, hcookie]

/-- The server reads the address that the proxy has seen. -/
theorem clientIp_forward (h : proxy.Documented) (request : HttpRequest ρ) :
    clientIp (proxy.forward request).peer (proxy.forward request).headers = request.peer := by
  simp only [clientIp, h.localPeer request, h.realIp request, Option.bind_some, h.readable]
  rfl

/-- **What a client sends does not change its bucket**, but for its credentials. -/
theorem bucket_arrives {sent request : HttpRequest ρ} (hproxy : proxy.Documented) (jwt : Jwt)
    (h : Arrives proxy sent request) :
    bucket jwt request = clientBucket jwt request.utc sent := by
  cases h with
  | direct h =>
      have hip : clientIp sent.peer sent.headers = sent.peer := by simp [clientIp, h]
      unfold bucket clientBucket RateKey.forRequest
      rewrite [hip]
      rfl
  | proxied =>
      have hip := clientIp_forward hproxy sent
      have hidentity := identity_forward hproxy jwt (proxy.forward sent).utc sent
      obtain ⟨hmethod, hpath⟩ := hproxy.line sent
      unfold bucket clientBucket RateKey.forRequest
      rewrite [hip, hidentity, hmethod, hpath]
      rfl

end

/-! ### One bucket -/

section

variable {ρ σ β σ' β' : Type} {app : App ρ σ β} {app' : App ρ σ' β'} {jwt : Jwt}
  {lim : Budget → Nat} {b : Bucket} {history : History} {requests : List (HttpRequest ρ)}
  {now : Instant}

/-- The requests on a bucket that were let in from `start` on, for a minute. -/
def History.inMinute (history : History) (b : Bucket) (start : Instant) : Nat :=
  (history.times b).countP fun t => start ≤ t ∧ t < start + rateLimitWindow

/-- **One request** is let in only where its minute has room. -/
theorem inMinute_step (request : HttpRequest ρ) {start : Instant}
    (h : history.inMinute b start ≤ lim b.budget) :
    (history.step jwt lim request).inMinute b start ≤ lim b.budget := by
  unfold History.inMinute at h ⊢
  rw [History.times_step, List.countP_append]
  split
  · rename_i hin
    obtain ⟨hb, hroom⟩ := hin
    rw [admits_eq hb, decide_eq_true_iff] at hroom
    by_cases hnow : start ≤ request.now ∧ request.now < start + rateLimitWindow
    · -- what was let in since `start` still counts
      have hcounted : (history.times b).countP (fun t => start ≤ t ∧ t < start + rateLimitWindow) ≤
          (history.counted b request.now).length := by
        rw [History.counted, ← List.countP_eq_length_filter]
        refine List.countP_mono_left fun t _ ht => decide_eq_true (counts_iff.mpr ?_)
        have hstart : start ≤ t := (of_decide_eq_true ht).1
        exact hnow.2.trans_le (Nat.add_le_add_right hstart _)
      have hone : [request.now].countP (fun t => start ≤ t ∧ t < start + rateLimitWindow) ≤ 1 :=
        List.countP_le_length
      exact (Nat.add_le_add hcounted hone).trans hroom
    · have hnone : [request.now].countP (fun t => start ≤ t ∧ t < start + rateLimitWindow) =
          0 := by
        simpa [List.countP_cons] using hnow
      rw [hnone]
      exact h
  · exact h

theorem inMinute_after (jwt : Jwt) (requests : List (HttpRequest ρ)) {start : Instant}
    (h : history.inMinute b start ≤ lim b.budget) :
    (history.after jwt lim requests).inMinute b start ≤ lim b.budget := by
  induction requests generalizing history with
  | nil => exact h
  | cons request requests ih => exact ih (inMinute_step request h)

/-- The answers of routes on a bucket are those to the requests that were let in. -/
theorem served_eq (app : App ρ σ β) (lim : Budget → Nat) (b : Bucket) (e : ExactServer σ)
    (requests : List (HttpRequest ρ)) : (((e.run app lim requests).1.filter fun entry =>
      chargedTo app.jwt b entry.1 && !entry.2.body.refused).map fun entry => entry.1.now) =
        e.history.admittedTimes app.jwt lim b requests := by
  induction requests generalizing e with
  | nil => rfl
  | cons request requests ih =>
      have hrefused := refused_handle app lim e request
      have hrest := ih (e.handle app lim request).2
      rw [handle_history] at hrest
      simp only [ExactServer.run, History.admittedTimes, List.filter_cons, hrefused, Bool.not_not,
        ← hrest]
      by_cases hin : chargedTo app.jwt b request ∧ e.history.admits app.jwt lim request = true
      · simp [hin]
      · rw [if_neg hin, if_neg (by simpa using hin)]
        rfl

/-- Whether a request is refused depends on its own bucket only. -/
theorem refused_own (e : ExactServer σ) (e' : ExactServer σ') (hjwt : app'.jwt = app.jwt)
    (htimes : e'.history.times b = e.history.times b) (requests : List (HttpRequest ρ)) :
    (((e.run app lim requests).1.filter fun entry => chargedTo app.jwt b entry.1).map
      fun entry => entry.2.body.refused) =
        (e'.run app' lim (requests.filter (chargedTo app.jwt b))).1.map
          fun entry => entry.2.body.refused := by
  induction requests generalizing e e' with
  | nil => rfl
  | cons request requests ih =>
      cases hb : chargedTo app.jwt b request with
      | false =>
          -- a request of another bucket leaves no trace in this one
          have hkept : (e.handle app lim request).2.history.times b = e.history.times b := by
            rw [handle_history, History.times_step]
            simp [hb]
          rw [List.filter_cons_of_neg (by simp [hb])]
          simp only [ExactServer.run, List.filter_cons, hb]
          exact ih _ e' (htimes.trans hkept.symm)
      | true =>
          -- the decision looks at the times of the bucket, which agree
          have hadmits : e'.history.admits app'.jwt lim request =
              e.history.admits app.jwt lim request := by
            rw [hjwt, admits_eq hb, admits_eq hb, History.counted, History.counted, htimes]
          have hkept : (e'.handle app' lim request).2.history.times b =
              (e.handle app lim request).2.history.times b := by
            rw [handle_history, handle_history, History.times_step, History.times_step, hadmits,
              htimes, hjwt]
          rw [List.filter_cons_of_pos hb]
          simp only [ExactServer.run, List.filter_cons, hb, if_true, List.map_cons,
            refused_handle, hadmits]
          rw [ih _ _ hkept]

end

/-- **No client takes the budget of another**, or more than its own. Whether a request comes
directly from another host or through a documented proxy, and whatever headers a client
sends, its address and its credentials tell its bucket. When the requests are handled one
after the other at nondecreasing clock readings, on each bucket at most the limit is let in
from any moment on for a minute, and whether a request is refused depends on the requests of
its bucket only: they are refused alike when they come alone, whatever the routes do. -/
theorem clients_isolated {ρ σ β σ' β' : Type} {proxy : Proxy ρ} (hproxy : proxy.Documented)
    (app : App ρ σ β) (app' : App ρ σ' β') (hjwt : app'.jwt = app.jwt)
    (env : String → Option String) (created : Instant) (state : σ) (state' : σ')
    (requests : List (HttpRequest ρ))
    (htimes : (created :: requests.map (·.now)).Pairwise (· ≤ ·)) :
    (∀ sent request : HttpRequest ρ, Arrives proxy sent request →
      bucket app.jwt request = clientBucket app.jwt request.utc sent) ∧
    ∀ b : Bucket,
      (∀ start, ((buildRouter env created state).run app requests).1.countP (fun entry =>
        bucket app.jwt entry.1 = some b ∧ entry.2.body.refused = false ∧
          start ≤ entry.1.now ∧ entry.1.now < start + rateLimitWindow) ≤ limits env b.budget) ∧
      (((buildRouter env created state).run app requests).1.filter fun entry =>
          bucket app.jwt entry.1 = some b).map (fun entry => entry.2.body.refused) =
        ((buildRouter env created state').run app'
          (requests.filter fun request => bucket app.jwt request = some b)).1.map
            fun entry => entry.2.body.refused := by
  refine ⟨fun sent request h => bucket_arrives hproxy app.jwt h, fun b => ⟨fun start => ?_, ?_⟩⟩
  · rw [((refines_buildRouter env created state).run htimes).1]
    have hserved := served_eq app (limits env) b ⟨[], state⟩ requests
    have hempty : History.inMinute [] b start ≤ limits env b.budget := Nat.zero_le _
    have hlimit := inMinute_after app.jwt requests hempty
    have hafter : History.times (History.after app.jwt (limits env) [] requests) b =
        History.times [] b ++ _ := History.times_after
    rw [History.inMinute, hafter, ← hserved] at hlimit
    refine le_trans (le_of_eq ?_) hlimit
    have hnil : History.times [] b = [] := rfl
    rw [hnil, List.nil_append, List.countP_map, List.countP_filter]
    refine List.countP_congr fun entry _ => ?_
    simp only [chargedTo, Function.comp_apply, Bool.and_eq_true, Bool.not_eq_true',
      decide_eq_true_eq]
    tauto
  -- the requests that are left are in the same order of time
  · have hsub : (created :: (requests.filter fun request =>
        bucket app.jwt request = some b).map (·.now)).Pairwise (· ≤ ·) :=
      htimes.sublist ((List.filter_sublist.map _).cons_cons _)
    rw [((refines_buildRouter env created state).run htimes).1,
      ((refines_buildRouter env created state').run hsub).1]
    exact refused_own _ _ hjwt rfl requests

/-! ### A proxy that writes addresses in full -/

theorem visible_digit {radix d : Nat} {c : Char} (h : Numeral.toDigit radix c = some d) :
    32 < c.toNat ∧ c.toNat < 127 := by
  have hval : c.toNat = c.val.toNat := rfl
  simp only [Numeral.toDigit, Char.le_def, UInt32.le_iff_toNat_le] at h
  obtain ⟨hvalue, -⟩ := Option.filter_eq_some_iff.mp h
  split_ifs at hvalue with hdigit hlower hupper
  · simp at hdigit
    omega
  · simp at hlower
    omega
  · simp at hupper
    omega

theorem visible_separated {sep c : Char} {radix i : Nat} {ns : List Nat} (hone : 1 < radix)
    (hradix : radix ≤ 16) (hsep : 32 < sep.toNat ∧ sep.toNat < 127)
    (hc : c ∈ separated sep radix i ns) : 32 < c.toNat ∧ c.toNat < 127 := by
  rcases mem_separated hone hradix hc with rfl | ⟨d, hd⟩
  · exact hsep
  · exact visible_digit hd

theorem visible_display (addr : IpAddr) :
    addr.display ≠ "" ∧ ∀ c ∈ addr.display.toList, 32 < c.toNat ∧ c.toNat < 127 := by
  refine ⟨fun hempty => ?_, fun c hc => ?_⟩
  · have hparse := addr.parse_display
    have hnone : IpAddr.parse "" = none := by decide
    rw [hempty, hnone] at hparse
    cases hparse
  · cases addr with
    | v4 bits =>
        rw [IpAddr.display, String.toList_ofList] at hc
        exact visible_separated (by decide) (by decide) (by decide) hc
    | v6 bits =>
        rw [IpAddr.display, String.toList_ofList] at hc
        exact visible_separated (by decide) (by decide) (by decide) hc

theorem toStr_asciiBytes {s : String} (h : ∀ c ∈ s.toList, 32 < c.toNat ∧ c.toNat < 127) :
    toStr (Auth.asciiBytes s) = some s := by
  have hvalid : ∀ b ∈ Auth.asciiBytes s, Auth.Allowed b ∧ b < 128 := by
    intro b hb
    obtain ⟨c, hc, rfl⟩ := List.mem_map.mp hb
    obtain ⟨hlow, hhigh⟩ := h c hc
    have hbyte : (UInt8.ofNat c.toNat).toNat = c.toNat := by
      rw [UInt8.toNat_ofNat', Nat.mod_eq_of_lt (by omega)]
    simp only [Auth.Allowed, UInt8.le_iff_toNat_le, UInt8.lt_iff_toNat_lt, ne_eq,
      ← UInt8.toNat_inj, hbyte]
    simp
    omega
  have hascii : Auth.Ascii (Auth.asciiBytes s) := fun b hb => (hvalid b hb).2
  rw [Auth.toStr_eq fun b hb => (hvalid b hb).1, if_pos hascii,
    Auth.map_asciiBytes fun c hc => (h c hc).2.trans (by decide), String.ofList_toList]

/-- A proxy on this host with `X-Real-IP` set to `$remote_addr` and `X-Forwarded-For` to
`$proxy_add_x_forwarded_for`, which writes addresses as four octets, or as eight groups. -/
def plainProxy (ρ : Type) : Proxy ρ where
  remoteAddr addr := Auth.asciiBytes addr.display
  forward request :=
    let sent := request.headers.filter fun header => header.1 == "x-forwarded-for"
    let remote := Auth.asciiBytes request.peer.display
    { request with
      peer := .v4 0x7F000001#32
      headers :=
        ("x-real-ip", remote) ::
        ("x-forwarded-for", [44, 32].intercalate (sent.map Prod.snd ++ [remote])) ::
        request.headers.filter fun header =>
          header.1 ≠ "x-real-ip" ∧ header.1 ≠ "x-forwarded-for" }

theorem plainProxy_documented (ρ : Type) : (plainProxy ρ).Documented where
  readable addr := by
    obtain ⟨hne, hvisible⟩ := visible_display addr
    have htext : (plainProxy ρ).remoteAddr addr = Auth.asciiBytes addr.display := rfl
    rw [htext, toStr_asciiBytes hvisible, Option.bind_some, trim_visible hne hvisible,
      IpAddr.parse_display]
  localPeer _ := rfl
  line _ := ⟨rfl, rfl⟩
  realIp _ := rfl
  credentials request name hname := by
    -- the headers that are set come first, and are none of these
    have hreal : ("x-real-ip" == name) = false := by
      rcases List.mem_cons.mp hname with rfl | hname
      · rfl
      · rw [List.mem_singleton.mp hname]
        rfl
    have hforwarded : ("x-forwarded-for" == name) = false := by
      rcases List.mem_cons.mp hname with rfl | hname
      · rfl
      · rw [List.mem_singleton.mp hname]
        rfl
    have hkept : (request.headers.filter fun header =>
        header.1 ≠ "x-real-ip" ∧ header.1 ≠ "x-forwarded-for").find? (·.1 == name) =
          request.headers.find? (·.1 == name) := by
      rw [List.find?_filter]
      congr 1
      funext header
      by_cases heq : header.1 = name
      · have h₁ := beq_eq_false_iff_ne.mp hreal
        have h₂ := beq_eq_false_iff_ne.mp hforwarded
        simp [heq, h₁.symm, h₂.symm]
      · simp [heq]
    simp only [plainProxy, HeaderMap.get, List.find?_cons, hreal, hforwarded, hkept]

/-- A client that forges the address of another in front of the proxy, and the other. -/
theorem clients_isolated_forged :
    let headers := [("x-real-ip", Auth.asciiBytes "198.51.100.8"),
      ("x-forwarded-for", Auth.asciiBytes "198.51.100.8")]
    let forged : HttpRequest Unit := ⟨.post, ["login"], headers, .v4 0xC0000201#32, 1, 0, ()⟩
    bucket ⟨fun _ _ => none⟩ ((plainProxy Unit).forward forged) =
      some ⟨.auth, .ip (.v4 0xC0000201#32)⟩ := by
  intro headers forged
  let app : App Unit Unit Unit := ⟨⟨fun _ _ => none⟩, fun _ _ => (⟨401, [], ()⟩, ())⟩
  rw [(clients_isolated (plainProxy_documented Unit) app app rfl (fun _ => none) 0 () ()
    [(plainProxy Unit).forward forged] (by decide)).1 forged _ (.proxied forged)]
  decide

end DevbitBackend.Router
