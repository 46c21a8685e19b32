import DevbitBackend.Router.Admission

/-!
# Router.History

What the requests of a run leave behind. Whether a request is let in depends on the
requests before it only, not on what the routes do: the history is a fold over the requests
(`History.after`), and each answer of a run is told by the history up to it (`answer_at`).
-/

namespace DevbitBackend.Router

open Auth (Jwt)
open Http RateLimit
open SlidingWindow (Window)

section

variable {ρ σ β : Type} {jwt : Jwt} {app : App ρ σ β} {lim : Budget → Nat} {b : Bucket}
  {history history' : History} {requests requests' : List (HttpRequest ρ)} {request : HttpRequest ρ}
  {now : Instant}

/-- The request is charged to this bucket. -/
def chargedTo (jwt : Jwt) (b : Bucket) (request : HttpRequest ρ) : Bool :=
  bucket jwt request = some b

/-- The history after one request. -/
def History.step (jwt : Jwt) (lim : Budget → Nat) (history : History) (request : HttpRequest ρ) :
    History :=
  match bucket jwt request with
  | some b => history.record lim b request.now
  | none => history

/-- The history after some requests. -/
def History.after (jwt : Jwt) (lim : Budget → Nat) (history : History)
    (requests : List (HttpRequest ρ)) : History :=
  requests.foldl (History.step jwt lim) history

/-- A request is let in when it is not limited, or there is room in its bucket. -/
def History.admits (jwt : Jwt) (lim : Budget → Nat) (history : History) (request : HttpRequest ρ) :
    Bool :=
  match bucket jwt request with
  | some b => (history.info lim b request.now).allowed
  | none => true

theorem History.after_append : history.after jwt lim (requests ++ requests') =
    (history.after jwt lim requests).after jwt lim requests' :=
  List.foldl_append ..

theorem History.after_cons {request : HttpRequest ρ} : history.after jwt lim (request :: requests) =
    (history.step jwt lim request).after jwt lim requests := rfl

/-- One more time on the bucket of a request that is let in. -/
theorem History.times_step (request : HttpRequest ρ) :
    (history.step jwt lim request).times b = history.times b ++
      if chargedTo jwt b request ∧ history.admits jwt lim request = true then [request.now]
      else [] := by
  unfold History.step History.admits chargedTo
  cases hb : bucket jwt request with
  | none => simp
  | some b' => simp [History.times_record]

/-- The times of the requests on the bucket that were let in. -/
def History.admittedTimes (jwt : Jwt) (lim : Budget → Nat) (b : Bucket) :
    History → List (HttpRequest ρ) → List Instant
  | _, [] => []
  | history, request :: requests =>
      (if chargedTo jwt b request ∧ history.admits jwt lim request = true then [request.now]
        else []) ++ admittedTimes jwt lim b (history.step jwt lim request) requests

theorem History.times_after : (history.after jwt lim requests).times b =
    history.times b ++ history.admittedTimes jwt lim b requests := by
  induction requests generalizing history with
  | nil => exact (List.append_nil _).symm
  | cons request requests ih =>
      rw [History.after_cons, ih, History.times_step, History.admittedTimes, List.append_assoc]

theorem admittedTimes_sublist : (history.admittedTimes jwt lim b requests).Sublist
    (requests.map (·.now)) := by
  induction requests generalizing history with
  | nil => exact .slnil
  | cons request requests ih =>
      rw [History.admittedTimes, List.map_cons]
      split
      · exact ih.cons_cons _
      · exact ih.cons _

/-- A time counts for less than a minute. -/
theorem counts_iff {t : Instant} :
    saturatingDurationSince now t < rateLimitWindow ↔ now < t + rateLimitWindow := by
  unfold saturatingDurationSince rateLimitWindow Instant Duration at *
  omega

theorem admits_eq (hb : chargedTo jwt b request = true) : history.admits jwt lim request =
    decide ((history.counted b request.now).length < lim b.budget) := by
  have hbucket : bucket jwt request = some b := of_decide_eq_true hb
  simp only [History.admits, hbucket]
  rfl

/-! ### Answers -/

@[simp] theorem securityHeaders_body (response : Response (Body β)) :
    (securityHeaders response).body = response.body := rfl

theorem handle_history (e : ExactServer σ) (request : HttpRequest ρ) :
    (e.handle app lim request).2.history = e.history.step app.jwt lim request := by
  unfold ExactServer.handle History.step
  cases bucket app.jwt request <;> rfl

/-- The limiter answers the requests that are not let in, and no others. -/
theorem refused_handle (app : App ρ σ β) (lim : Budget → Nat) (e : ExactServer σ)
    (request : HttpRequest ρ) : (e.handle app lim request).1.body.refused =
      !e.history.admits app.jwt lim request := by
  unfold ExactServer.handle History.admits
  cases hb : bucket app.jwt request with
  | none =>
      simp only [answerFree]
      split <;> rfl
  | some b =>
      simp only [answerLimited]
      cases hallowed : (e.history.info lim b request.now).allowed <;> simp <;> rfl

theorem map_fst_exactRun (e : ExactServer σ) (requests : List (HttpRequest ρ)) :
    (e.run app lim requests).1.map Prod.fst = requests := by
  induction requests generalizing e with
  | nil => rfl
  | cons request requests ih => simp only [ExactServer.run, List.map_cons, ih]

/-- The server that meets a request of a run. -/
theorem exact_at {e : ExactServer σ} {before after : List (HttpRequest ρ × Response (Body β))}
    {request : HttpRequest ρ} {response : Response (Body β)}
    (hlog : (e.run app lim requests).1 = before ++ (request, response) :: after) :
    ∃ state, response =
      (ExactServer.handle app lim ⟨e.history.after app.jwt lim (before.map Prod.fst), state⟩
        request).1 := by
  induction requests generalizing e before with
  | nil => simp [ExactServer.run] at hlog
  | cons first requests ih =>
      simp only [ExactServer.run] at hlog
      cases before with
      | nil =>
          obtain ⟨hhead, -⟩ := List.cons.inj hlog
          obtain ⟨rfl, rfl⟩ := Prod.mk.inj hhead
          exact ⟨e.app, rfl⟩
      | cons entry before =>
          obtain ⟨rfl, hrest⟩ := List.cons.inj hlog
          obtain ⟨state, hresponse⟩ := ih hrest
          rw [handle_history] at hresponse
          exact ⟨state, hresponse⟩

end

/-- **The answer to a request of a run** is told by the requests before it. -/
theorem answer_at {ρ σ β : Type} {app : App ρ σ β} {env : String → Option String}
    {created : Instant} {state : σ} {requests : List (HttpRequest ρ)}
    (htimes : (created :: requests.map (·.now)).Pairwise (· ≤ ·))
    {before after : List (HttpRequest ρ × Response (Body β))} {request : HttpRequest ρ}
    {response : Response (Body β)}
    (hlog : ((buildRouter env created state).run app requests).1 =
      before ++ (request, response) :: after) :
    ∃ state', response = (ExactServer.handle app (limits env)
      ⟨History.after app.jwt (limits env) [] (before.map Prod.fst), state'⟩ request).1 := by
  rw [((refines_buildRouter env created state).run htimes).1] at hlog
  exact exact_at hlog

theorem map_fst_run {ρ σ β : Type} (app : App ρ σ β) (env : String → Option String)
    {created : Instant} (state : σ) {requests : List (HttpRequest ρ)}
    (htimes : (created :: requests.map (·.now)).Pairwise (· ≤ ·)) :
    ((buildRouter env created state).run app requests).1.map Prod.fst = requests := by
  rw [((refines_buildRouter env created state).run htimes).1, map_fst_exactRun]

end DevbitBackend.Router
