import DevbitBackend.Lib.TxnNotes
import DevbitBackend.Social.Failures

/-!
# Social.Events

Relationship events and relationship changes. Each handler pushes its events after its
commit. The handlers that settle a request know that it was pending, and `create_request`
pushes only what it has inserted. The other three push whether or not their statements have
met a row, so `events_match_iff` holds of them when there is one.
-/

namespace DevbitBackend.Social

open Txn

/-! ### Events and changes -/

/-- The user an event about a relationship is pushed to. -/
def Event.receiver : Event → Option UserId
  | .social user type _ _ =>
      if type = "friend_request_received" ∨ type = "friend_request_updated" ∨
        type = "friendship_changed" then some user else none
  | .newMessage _ _ _ _ _ => none

/-- The rows between two users. -/
def Db.between (db : Db) (a b : UserId) : List RequestRow × List FriendshipRow × List BlockRow :=
  (db.requestsBetween a b, db.friendships.filter (·.isOf a b), db.blocks.filter (·.between a b))

/-- The user who makes the call. -/
def Call.viewer : Call → Option UserId
  | .createRequest v _ _ | .acceptRequest v _ | .rejectRequest v _ | .cancelRequest v _
  | .removeFriend v _ | .blockUser v _ | .unblockUser v _ | .updatePreferences v _ _
  | .sendMessage v _ _ => v

/-- The pair that a call to a relationship handler is about. -/
def Call.pair (db : Db) : Call → Option (UserId × UserId)
  | .createRequest (some v) recipientId _ =>
      ((positiveId (recipientId.getD 0) "recipientId").toOption).map fun t => (v, t)
  | .acceptRequest _ id | .rejectRequest _ id | .cancelRequest _ id =>
      (db.request id).map fun r => (r.sender, r.recipient)
  | .removeFriend (some v) id | .blockUser (some v) id | .unblockUser (some v) id =>
      ((positiveId id "userId").toOption).map fun t => (v, t)
  | _ => none

/-- The handlers that change a relationship. -/
def Call.relational : Call → Bool
  | .updatePreferences _ _ _ | .sendMessage _ _ _ => false
  | _ => true

/-- What a lone call tells agrees with what it changes: an event is about a change between
the pair, and goes to one of the two, and of a change the other one is told. -/
structure EventsMatch (c : Call) (σ : State) (out : State × Answer) (events : List Event) :
    Prop where
  caused : ∀ e ∈ events, ∀ u, e.receiver = some u → ∃ a b, c.pair σ.db = some (a, b) ∧
    Db.between out.1.db a b ≠ Db.between σ.db a b ∧ (u = a ∨ u = b)
  noticed : out.2.isOk = true → ∀ v a b, c.viewer = some v → c.pair σ.db = some (a, b) →
    Db.between out.1.db a b ≠ Db.between σ.db a b →
      ∃ e ∈ events, e.receiver = some (if v = a then b else a)

/-- The checks of a call to `remove_friend`, `block_user` or `unblock_user` are passed. -/
def Db.admits (db : Db) (identity : Option UserId) (userId : Int) (v t : UserId) : Prop :=
  identity = some v ∧ db.userExists v = true ∧ positiveId userId "userId" = .ok t ∧ t ≠ v

/-- `v` has blocked `t`. -/
def Db.blockedBy (db : Db) (v t : UserId) : Bool :=
  db.blocks.any fun k => k.user == v && k.blocked == t

/-- The call goes through, and there is no row for it to change. -/
def Pointless (fails : Nat → Bool) (db : Db) : Call → Prop
  | .removeFriend identity userId => NoneBefore fails 5 ∧
      ∃ v t, db.admits identity userId v t ∧ db.areFriends v t = false
  | .blockUser identity userId => NoneBefore fails 7 ∧
      ∃ v t, db.admits identity userId v t ∧ db.userExists t = true ∧
        db.blockedBy v t = true ∧ db.pendingBetween v t = []
  | .unblockUser identity userId => NoneBefore fails 2 ∧
      ∃ v t, db.admits identity userId v t ∧ db.blockedBy v t = false
  | _ => False

/-! ### Changed rows -/

section Changes

variable {db db' : Db} {a b : UserId}

/-- A pending request between the two is not pending any more. -/
theorem between_ne_of_settled {r : RequestRow} (hr : r ∈ db.requests)
    (hpair : r.between a b = true) (hp : r.isPending = true)
    (h : ∀ r' ∈ db'.requests, r'.id = r.id → r'.isPending = false) :
    db'.between a b ≠ db.between a b := by
  intro heq
  have hrows : db'.requestsBetween a b = db.requestsBetween a b := congrArg Prod.fst heq
  have hmem : r ∈ db.requestsBetween a b := List.mem_filter.mpr ⟨hr, hpair⟩
  rw [← hrows] at hmem
  rw [h r (List.mem_filter.mp hmem).1 rfl] at hp
  cases hp

/-- One `UPDATE` leaves no row with these ids pending. -/
theorem settleRows_settled {rows : List RequestRow} {st : RequestStatus} {id : RequestId}
    (hst : st ≠ .pending) (hid : id ∈ rows.map (·.id)) (now : Nat) (db : Db) :
    ∀ r ∈ (engine.applyAll (settleRows rows st now) db).requests, r.id = id →
      r.isPending = false := by
  have hne : rows.isEmpty = false := by
    cases rows with
    | nil => cases hid
    | cons r rows => rfl
  intro r hr hrid
  unfold settleRows at hr
  rw [hne] at hr
  obtain ⟨r₀, -, rfl⟩ := List.mem_map.mp hr
  by_cases hin : r₀.id ∈ rows.map (·.id)
  · rw [if_pos hin]
    simpa [RequestRow.isPending, RequestRow.settle] using hst
  · rw [if_neg hin] at hrid
    exact absurd (hrid ▸ hid) hin

/-- Later updates do not make it pending again. -/
theorem Restatus.settled (h : Restatus db db') {id : RequestId}
    (hall : ∀ r ∈ db.requests, r.id = id → r.isPending = false) :
    ∀ r ∈ db'.requests, r.id = id → r.isPending = false := by
  obtain ⟨f, hf, hrow⟩ := h.rows
  intro r hr hid
  rw [hf] at hr
  obtain ⟨r₀, hr₀, rfl⟩ := List.mem_map.mp hr
  exact (hrow r₀).2.2.2 (hall r₀ hr₀ ((hrow r₀).1.symm.trans hid))

end Changes

/-! ### The handlers -/

section Handlers

variable {c : Call} {fails : Nat → Bool} {now n : Nat} {failed : Answer} {σ σ' : State} {a : Answer}
  {events : List Event}

/-- Nothing is told, and nothing has changed or the call has failed. -/
theorem match_quiet (h : a.isOk = false ∨ σ'.db = σ.db) : EventsMatch c σ (σ', a) [] where
  caused := fun _ he => absurd he List.not_mem_nil
  noticed hok v x y _ _ hne := by
    rcases h with hfailed | hsame
    · rw [hfailed] at hok
      cases hok
    · exact absurd (congrArg (Db.between · x y) hsame) hne

/-- A change that both are told, or the one who has not made it. -/
theorem match_told {v x y : UserId} (hv : c.viewer = some v) (hpair : c.pair σ.db = some (x, y))
    (hchanged : Db.between σ'.db x y ≠ Db.between σ.db x y)
    (hparties : ∀ e ∈ events, ∀ u, e.receiver = some u → u = x ∨ u = y)
    (hother : ∃ e ∈ events, e.receiver = some (if v = x then y else x)) :
    EventsMatch c σ (σ', a) events where
  caused := fun e he u hu => ⟨x, y, hpair, hchanged, hparties e he u hu⟩
  noticed _ v' x' y' hv' hpair' _ := by
    obtain rfl := Option.some.inj (hv.symm.trans hv')
    obtain ⟨rfl, rfl⟩ := Prod.mk.inj (Option.some.inj (hpair.symm.trans hpair'))
    exact hother

/-- An event without a change. -/
theorem not_match_told {e : Event} {u : UserId} (hdb : σ'.db = σ.db) (he : e ∈ events)
    (hu : e.receiver = some u) : ¬ EventsMatch c σ (σ', a) events := by
  intro h
  obtain ⟨x, y, -, hne, -⟩ := h.caused e he u hu
  exact hne (congrArg (Db.between · x y) hdb)

/-- `require_viewer` lets only an existing user pass. -/
theorem tells_requireViewer {Q : State × Answer → List Event → Prop} {identity : Option UserId}
    {k : UserId → Code} (hfail : FirstFailure fails n → Q (σ, failed) [])
    (hrefused : (∀ v, identity = some v → Db.userExists σ.db v = false) →
      Q (σ, .error .unauthenticated) [])
    (hk : ∀ v, identity = some v → Db.userExists σ.db v = true →
      Tells Q failed fails now (k v) (n + 1) none σ) :
    Tells Q failed fails now (requireViewer identity k) n none σ := by
  cases identity with
  | none => exact .done fun _ => hrefused nofun
  | some v =>
      refine .query_read (fun db => Db.userExists db v) (fun _ _ _ => rfl) rfl hfail ?_
      cases hu : Db.userExists σ.db v with
      | false => exact .done fun _ => hrefused fun v' hv' => Option.some.inj hv' ▸ hu
      | true => exact hk v rfl hu

/-! #### `create_request` -/

/-- The `INSERT` of a request when none is pending. -/
theorem eval_insertRequest_row {db : Db} {v t : UserId} (hp : db.pendingFrom v t = none)
    (m : String) (now seq : Nat) :
    eval (.insertRequest v t m) now seq db = none ∨ ∃ row : RequestRow, row.sender = v ∧
      row.recipient = t ∧
        eval (.insertRequest v t m) now seq db = some (some row.id, [.insertRequest row]) := by
  by_cases hrow : v = t ∨ !storable m ∨ 200 < charCount m
  · exact .inl (if_pos hrow)
  have hnone : ¬ (db.pendingFrom v t).isSome = true := by simp [hp]
  by_cases hexists : (db.userExists v && db.userExists t) = true
  · exact .inr ⟨⟨nextval seq, v, t, m, .pending, now, now⟩, rfl, rfl,
      (if_neg hrow).trans ((if_neg hnone).trans (if_pos hexists))⟩
  · exact .inl ((if_neg hrow).trans ((if_neg hnone).trans (if_neg hexists)))

theorem between_insertRequest {db : Db} {row : RequestRow} {x y : UserId}
    (hs : row.sender = x) (hr : row.recipient = y) :
    (Write.apply (.insertRequest row) db).between x y ≠ db.between x y := by
  intro heq
  have hrows := congrArg (fun rows => (Prod.fst rows).length) heq
  have hrow : row.between x y = true := by simp [RequestRow.between, hs, hr]
  simp [Db.between, Db.requestsBetween, Write.apply, hrow] at hrows

theorem tells_createRequest (env : Env) (identity : Option UserId) (recipientId : Option Int)
    (message : Option String) (hfailed : failed.isOk = false) :
    Tells (EventsMatch (.createRequest identity recipientId message) σ) failed fails now
      (createRequest env identity recipientId message) 0 none σ := by
  have hquit : ∀ {m : Nat} {σ' : State}, FirstFailure fails m →
      EventsMatch (.createRequest identity recipientId message) σ (σ', failed) [] :=
    fun _ => match_quiet (.inl hfailed)
  refine tells_requireViewer hquit (fun _ => match_quiet (.inl rfl)) fun v hv hu => ?_
  subst hv
  cases hpos : positiveId (recipientId.getD 0) "recipientId" with
  | error e => exact .done fun _ => match_quiet (.inl rfl)
  | ok t =>
  simp only [orFail]
  split
  · exact .done fun _ => match_quiet (.inl rfl)
  cases validateOptionalMessage message maxFriendRequestMessageChars with
  | error e => exact .done fun _ => match_quiet (.inl rfl)
  | ok text =>
  refine .begin hquit (.lock hquit ?_)
  refine .exec_read (fun db => Db.userExists db t) (fun _ _ _ => rfl) rfl hquit ?_
  split
  · exact .done fun _ => match_quiet (.inl rfl)
  refine .exec_read (fun db => Db.blockExists db v t) (fun _ _ _ => rfl) rfl hquit ?_
  split
  · exact .done fun _ => match_quiet (.inl rfl)
  refine .exec_read (fun db => (Db.preferencesOf db t).map (·.friendRequestPolicy))
    (fun _ _ _ => rfl) rfl hquit ?_
  split
  · exact .done fun _ => match_quiet (.inl rfl)
  refine .exec_read (fun db => Db.areFriends db v t) (fun _ _ _ => rfl) rfl hquit ?_
  split
  · exact .done fun _ => match_quiet (.inl rfl)
  refine .exec_read (fun db => (Db.pendingFrom db v t).map (·.id)) (fun _ _ _ => rfl) rfl hquit ?_
  cases hpending : Db.pendingFrom σ.db v t with
  | some r =>
      -- the request is there already, and is answered without an event
      refine .commit hquit (.query_read (fun db => Db.requestView db r.id) (fun _ _ _ => rfl) rfl
        hquit ?_)
      split
      · exact .done fun _ => match_quiet (.inl rfl)
      · exact .done fun _ => match_quiet (.inr rfl)
  | none =>
  refine .exec_read (fun db => (Db.pendingFrom db t v).isSome) (fun _ _ _ => rfl) rfl hquit ?_
  split
  · exact .done fun _ => match_quiet (.inl rfl)
  rcases eval_insertRequest_row hpending text now σ.seq with hrejected | ⟨row, hs, hr, heval⟩
  · exact .exec_rejected hrejected (match_quiet (.inl hfailed))
  have htold : ∀ {σ' : State} {a : Answer}, σ'.db = Write.apply (.insertRequest row) σ.db →
      EventsMatch (.createRequest (some v) recipientId message) σ (σ', a)
        [.social t "friend_request_received" (some row.id) (some v)] := by
    intro σ' a hdb
    have hpair : (Call.createRequest (some v) recipientId message).pair σ.db = some (v, t) := by
      rw [Call.pair, hpos]
      rfl
    have hchanged : Db.between σ'.db v t ≠ Db.between σ.db v t := hdb ▸ between_insertRequest hs hr
    refine match_told rfl hpair hchanged ?_ ⟨_, List.mem_singleton_self _, ?_⟩
    · intro e he u hu
      obtain rfl := List.mem_singleton.mp he
      exact .inr (Option.some.inj hu).symm
    · rw [if_pos rfl]
      rfl
  refine .exec heval hquit (.commit hquit (.emit ?_))
  refine .query_read (fun db => Db.requestView db row.id) (fun _ _ _ => rfl) rfl
    (fun _ => htold rfl) ?_
  split
  · exact .done fun _ => htold rfl
  · exact .done fun _ => htold rfl

/-! #### `accept_request`, `reject_request`, `cancel_request` -/

/-- The calls up to the row lock: what follows runs on a pending request of which the
caller is the party. -/
theorem tells_withPendingRequest {identity : Option UserId} {requestId : Int} {party : Party}
    {refusal : String} {k : UserId → RequestId → UserId → UserId → Code}
    (hfailed : failed.isOk = false)
    (hk : ∀ r, r ∈ Db.requests σ.db → Db.request σ.db r.id = some r → r.isPending = true →
      identity = some (party.of r.sender r.recipient) → requestId = r.id →
      Tells (EventsMatch c σ) failed fails now
        (k (party.of r.sender r.recipient) r.id r.sender r.recipient) 5 (some []) σ) :
    Tells (EventsMatch c σ) failed fails now
      (withPendingRequest identity requestId party refusal k) 0 none σ := by
  have hquit : ∀ {m : Nat}, FirstFailure fails m → EventsMatch c σ (σ, failed) [] :=
    fun _ => match_quiet (.inl hfailed)
  -- a refusal sends no event, which is right for an answer that changes nothing
  have hrefused : ∀ {e : SocialError} {m : Nat} {tx : Option (List Write)},
      Tells (EventsMatch c σ) failed fails now (fail e) m tx σ :=
    .done fun _ => match_quiet (.inl rfl)
  refine tells_requireViewer hquit (fun _ => match_quiet (.inl rfl)) fun v hv hu => ?_
  by_cases hpos : requestId ≤ 0
  · simp only [validatePositiveI64, if_pos hpos, orFail]
    exact hrefused
  simp only [validatePositiveI64, if_neg hpos, orFail]
  refine .begin hquit ?_
  refine .exec_read (fun db => (Db.request db requestId).map fun r => (r.sender, r.recipient))
    (fun _ _ _ => rfl) rfl hquit ?_
  cases hreq : Db.request σ.db requestId with
  | none => exact hrefused
  | some r =>
  -- the same row is read again under its lock
  refine .lock hquit ?_
  refine .exec_read (fun db => (Db.request db requestId).map fun r =>
    (r.sender, r.recipient, r.status)) (fun _ _ _ => rfl) rfl hquit ?_
  rw [hreq]
  simp only [Option.map_some]
  split
  · exact hrefused
  rename_i hparty
  obtain rfl := not_not.mp hparty
  split
  · exact hrefused
  rename_i hst
  obtain rfl : r.id = requestId := by simpa using List.find?_some hreq
  have hp : r.isPending = true := by simpa [RequestRow.isPending] using hst
  exact hk r (List.mem_of_find?_eq_some hreq) hreq hp hv rfl

/-- The `UPDATE` by id leaves no request with the id pending. -/
theorem eval_setStatus_settled {db : Db} {r : RequestRow} (hr : r ∈ db.requests)
    {st : RequestStatus} (hst : st ≠ .pending) (now seq : Nat) :
    ∃ ws, eval (.setStatus r.id st) now seq db = some ((), ws) ∧
      ∀ r' ∈ (engine.applyAll ws db).requests, r'.id = r.id → r'.isPending = false := by
  have hmem : r ∈ db.requests.filter (·.id == r.id) := List.mem_filter.mpr ⟨hr, by simp⟩
  exact ⟨_, rfl, settleRows_settled hst (List.mem_map_of_mem hmem) now db⟩

theorem requests_insertFriendship {db : Db} {x y : UserId} {now seq : Nat} {ws : List Write}
    (h : eval (.insertFriendship x y) now seq db = some ((), ws)) :
    (engine.applyAll ws db).requests = db.requests := by
  simp only [eval] at h
  split at h
  · cases h
  split at h
  · cases h
    rfl
  split at h
  · cases h
    rfl
  · cases h

/-- A settled request, of which both parties are told. -/
theorem match_settled {v : UserId} {r : RequestRow} (hv : c.viewer = some v)
    (hpair : c.pair σ.db = some (r.sender, r.recipient)) (hr : r ∈ Db.requests σ.db)
    (hp : r.isPending = true)
    (hsettled : ∀ r' ∈ Db.requests σ'.db, r'.id = r.id → r'.isPending = false)
    (hparties : ∀ e ∈ events, ∀ u, e.receiver = some u → u = r.sender ∨ u = r.recipient)
    (hsender : ∃ e ∈ events, e.receiver = some r.sender)
    (hrecipient : ∃ e ∈ events, e.receiver = some r.recipient) :
    EventsMatch c σ (σ', a) events := by
  have hbetween : r.between r.sender r.recipient = true := by simp [RequestRow.between]
  refine match_told hv hpair (between_ne_of_settled hr hbetween hp hsettled) hparties ?_
  split
  · exact hrecipient
  · exact hsender

/-- Both parties are told that the request was updated. -/
theorem match_updated {v : UserId} {r : RequestRow} (hv : c.viewer = some v)
    (hpair : c.pair σ.db = some (r.sender, r.recipient)) (hr : r ∈ Db.requests σ.db)
    (hp : r.isPending = true)
    (hsettled : ∀ r' ∈ Db.requests σ'.db, r'.id = r.id → r'.isPending = false) :
    EventsMatch c σ (σ', a) [.social r.sender "friend_request_updated" (some r.id) (some v),
      .social r.recipient "friend_request_updated" (some r.id) (some v)] := by
  refine match_settled hv hpair hr hp hsettled ?_ ⟨_, List.mem_cons_self, rfl⟩
    ⟨_, List.mem_cons_of_mem _ List.mem_cons_self, rfl⟩
  intro e he u hu
  rcases List.mem_pair.mp he with rfl | rfl
  · exact .inl (Option.some.inj hu).symm
  · exact .inr (Option.some.inj hu).symm

theorem tells_rejectRequest (env : Env) (identity : Option UserId) (requestId : Int)
    (hfailed : failed.isOk = false) :
    Tells (EventsMatch (.rejectRequest identity requestId) σ) failed fails now
      (rejectRequest env identity requestId) 0 none σ := by
  refine tells_withPendingRequest hfailed fun r hr hreq hp hv hid => ?_
  subst hv hid
  have hquit : ∀ {m : Nat} {σ' : State}, FirstFailure fails m →
      EventsMatch (.rejectRequest (some r.recipient) r.id) σ (σ', failed) [] :=
    fun _ => match_quiet (.inl hfailed)
  have hpair : (Call.rejectRequest (some r.recipient) r.id).pair σ.db =
      some (r.sender, r.recipient) := congrArg (Option.map _) hreq
  obtain ⟨ws, heval, hsettled⟩ :=
    eval_setStatus_settled hr (show RequestStatus.rejected ≠ .pending by decide) now σ.seq
  refine .exec heval hquit (.commit hquit ?_)
  refine .query_read (fun db => Db.requestView db r.id) (fun _ _ _ => rfl) rfl hquit ?_
  split
  · exact .done fun _ => match_quiet (.inl rfl)
  · exact .emit (.emit (.done fun _ => match_updated rfl hpair hr hp hsettled))

theorem tells_cancelRequest (identity : Option UserId) (requestId : Int)
    (hfailed : failed.isOk = false) :
    Tells (EventsMatch (.cancelRequest identity requestId) σ) failed fails now
      (cancelRequest identity requestId) 0 none σ := by
  refine tells_withPendingRequest hfailed fun r hr hreq hp hv hid => ?_
  subst hv hid
  have hquit : ∀ {m : Nat} {σ' : State}, FirstFailure fails m →
      EventsMatch (.cancelRequest (some r.sender) r.id) σ (σ', failed) [] :=
    fun _ => match_quiet (.inl hfailed)
  have hpair : (Call.cancelRequest (some r.sender) r.id).pair σ.db =
      some (r.sender, r.recipient) := congrArg (Option.map _) hreq
  obtain ⟨ws, heval, hsettled⟩ :=
    eval_setStatus_settled hr (show RequestStatus.cancelled ≠ .pending by decide) now σ.seq
  refine .exec heval hquit (.commit hquit ?_)
  exact .emit (.emit (.done fun _ => match_updated rfl hpair hr hp hsettled))

/-- Both parties are told twice. -/
theorem tells_acceptRequest (env : Env) (identity : Option UserId) (requestId : Int)
    (hfailed : failed.isOk = false) :
    Tells (EventsMatch (.acceptRequest identity requestId) σ) failed fails now
      (acceptRequest env identity requestId) 0 none σ := by
  refine tells_withPendingRequest hfailed fun r hr hreq hp hv hid => ?_
  subst hv hid
  have hquit : ∀ {m : Nat} {σ' : State}, FirstFailure fails m →
      EventsMatch (.acceptRequest (some r.recipient) r.id) σ (σ', failed) [] :=
    fun _ => match_quiet (.inl hfailed)
  have hpair : (Call.acceptRequest (some r.recipient) r.id).pair σ.db =
      some (r.sender, r.recipient) := congrArg (Option.map _) hreq
  cases heval₁ : eval (.insertFriendship r.recipient r.sender) now σ.seq σ.db with
  | none => exact .exec_rejected heval₁ (match_quiet (.inl hfailed))
  | some res =>
  obtain ⟨⟨⟩, ws₁⟩ := res
  have hrows₁ : Db.requests (engine.applyAll ws₁ σ.db) = Db.requests σ.db :=
    requests_insertFriendship heval₁
  have hr₁ : r ∈ Db.requests (engine.applyAll ws₁ σ.db) := hrows₁ ▸ hr
  -- the request is accepted, and cancelling the others leaves it so
  obtain ⟨ws₂, heval₂, hsettled₂⟩ :=
    eval_setStatus_settled hr₁ (show RequestStatus.accepted ≠ .pending by decide) now σ.seq
  obtain ⟨ws₃, heval₃, hrows₃⟩ := eval_cancelOthers_rows
    (engine.applyAll (ws₁ ++ ws₂) σ.db) r.id r.recipient r.sender now σ.seq
  refine .exec heval₁ hquit (.exec heval₂ hquit (.exec heval₃ hquit (.commit hquit ?_)))
  refine .query_read (fun db => Db.requestView db r.id) (fun _ _ _ => rfl) rfl hquit ?_
  split
  · exact .done fun _ => match_quiet (.inl rfl)
  have hdb : engine.applyAll (ws₁ ++ ws₂ ++ ws₃) σ.db =
      engine.applyAll ws₃ (engine.applyAll (ws₁ ++ ws₂) σ.db) := engine.applyAll_append _ _ _
  rw [← engine.applyAll_append] at hsettled₂
  have hsettled := hrows₃.settled hsettled₂
  rw [← hdb] at hsettled
  -- two events for each party, after the commit and the read-back
  refine .emit (.emit (.emit (.emit (.done fun _ => ?_))))
  refine match_settled rfl hpair hr hp hsettled ?_ ⟨_, List.mem_cons_self, rfl⟩
    ⟨_, List.mem_cons_of_mem _ (List.mem_cons_of_mem _ List.mem_cons_self), rfl⟩
  intro e he u hu
  simp only [List.mem_cons, List.not_mem_nil, or_false] at he
  rcases he with rfl | rfl | rfl | rfl
  · exact .inl (Option.some.inj hu).symm
  · exact .inl (Option.some.inj hu).symm
  · exact .inr (Option.some.inj hu).symm
  · exact .inr (Option.some.inj hu).symm

/-! #### `remove_friend`, `block_user`, `unblock_user` -/

/-- What `notifyFriendshipChanged` pushes. -/
def friendshipChanged (v t : UserId) : List Event :=
  [.social v "friendship_changed" none (some t), .social t "friendship_changed" none (some v)]

theorem match_friendshipChanged {v t : UserId} (hv : c.viewer = some v)
    (hpair : c.pair σ.db = some (v, t))
    (hchanged : Db.between σ'.db v t ≠ Db.between σ.db v t) :
    EventsMatch c σ (σ', a) (friendshipChanged v t) := by
  refine match_told hv hpair hchanged ?_ ⟨_, List.mem_cons_of_mem _ List.mem_cons_self, ?_⟩
  · intro e he u hu
    rcases List.mem_pair.mp he with rfl | rfl
    · exact .inl (Option.some.inj hu).symm
    · exact .inr (Option.some.inj hu).symm
  · rw [if_pos rfl]
    rfl

theorem not_match_friendshipChanged {v t : UserId} (hdb : σ'.db = σ.db) :
    ¬ EventsMatch c σ (σ', a) (friendshipChanged v t) :=
  not_match_told hdb List.mem_cons_self rfl

theorem Db.admits.inj {db : Db} {identity : Option UserId} {userId : Int} {v t v' t' : UserId}
    (h : db.admits identity userId v t) (h' : db.admits identity userId v' t') :
    v' = v ∧ t' = t :=
  ⟨Option.some.inj (h'.1.symm.trans h.1), Except.ok.inj (h'.2.2.1.symm.trans h.2.2.1)⟩

/-- The checks of the arguments, which the three handlers share. -/
theorem tells_admitted {Q : State × Answer → List Event → Prop} {identity : Option UserId}
    {userId : Int} {message : String} {k : UserId → UserId → Code}
    (hquit : FirstFailure fails 0 → Q (σ, failed) [])
    (hrefused : (∀ v t, ¬ Db.admits σ.db identity userId v t) → ∀ e, Q (σ, .error e) [])
    (hk : ∀ v t, Db.admits σ.db identity userId v t →
      Tells Q failed fails now (k v t) 1 none σ) :
    Tells Q failed fails now (requireViewer identity fun viewer =>
      orFail (positiveId userId "userId") fun target =>
      if target = viewer then fail (.validation "userId" message) else k viewer target) 0 none
      σ := by
  refine tells_requireViewer hquit (fun hno => hrefused ?_ _) fun v hv hu => ?_
  · intro v t h
    have hexists := h.2.1
    rw [hno v h.1] at hexists
    cases hexists
  cases hpos : positiveId userId "userId" with
  | error e =>
      refine .done fun _ => hrefused ?_ _
      -- the id of the target is refused, so no arguments are admitted
      intro v t h
      have hok := h.2.2.1
      rw [hpos] at hok
      cases hok
  | ok t =>
  simp only [orFail]
  split
  -- the two ids are one: refused with 400
  · rename_i hself
    refine .done fun _ => hrefused ?_ _
    intro v' t' h
    obtain rfl := Except.ok.inj (hpos.symm.trans h.2.2.1)
    exact h.2.2.2 (hself.trans (Option.some.inj (hv.symm.trans h.1)))
  · rename_i hne
    exact hk v t ⟨hv, hu, hpos, hne⟩

theorem not_noneBefore {k m : Nat} (hm : m < k) (hf : FirstFailure fails m) :
    ¬ NoneBefore fails k := fun hn => by
  have hfalse := hn m hm
  rw [hf.1] at hfalse
  cases hfalse

theorem between_deleteFriendship {db : Db} {v t : UserId} (h : db.areFriends v t = true) :
    (Write.apply (.deleteFriendship (min v t) (max v t)) db).between v t ≠ db.between v t := by
  intro heq
  have hrows := congrArg (fun rows => rows.2.1) heq
  obtain ⟨f, hf, hof⟩ := List.any_eq_true.mp h
  have hmem : f ∈ db.friendships.filter (·.isOf v t) := List.mem_filter.mpr ⟨hf, hof⟩
  rw [← (show _ = db.friendships.filter (·.isOf v t) from hrows)] at hmem
  obtain ⟨hkept, -⟩ := List.mem_filter.mp hmem
  have hother := (List.mem_filter.mp hkept).2
  rw [show (f.userLow == min v t && f.userHigh == max v t) = true from hof] at hother
  cases hother

theorem tells_removeFriend (identity : Option UserId) (userId : Int)
    (hfailed : failed.isOk = false) :
    Tells (fun out events => EventsMatch (.removeFriend identity userId) σ out events ↔
      ¬ Pointless fails σ.db (.removeFriend identity userId)) failed fails now
      (removeFriend identity userId) 0 none σ := by
  have hquit : ∀ {m : Nat} {σ' : State}, m < 5 → FirstFailure fails m →
      (EventsMatch (.removeFriend identity userId) σ (σ', failed) [] ↔
        ¬ Pointless fails σ.db (.removeFriend identity userId)) := fun hm hf =>
    iff_of_true (match_quiet (.inl hfailed)) fun h => not_noneBefore hm hf h.1
  refine tells_admitted (hquit (by decide)) (fun hno e => ?_) fun v t hadmits => ?_
  · refine iff_of_true (match_quiet (.inl rfl)) ?_
    rintro ⟨-, v, t, hadmits, -⟩
    exact hno v t hadmits
  obtain ⟨rfl, -, hpos, -⟩ := id hadmits
  have hpair : (Call.removeFriend (some v) userId).pair σ.db = some (v, t) := by
    rw [Call.pair, hpos]
    rfl
  refine .begin (hquit (by decide)) (.lock (hquit (by decide)) ?_)
  -- no friends: nothing is deleted, and the events are sent all the same
  cases hfriends : Db.areFriends σ.db v t with
  | true =>
      have heval : eval (.deleteFriendship v t) now σ.seq σ.db =
          some ((), [.deleteFriendship (min v t) (max v t)]) := by simp [eval, hfriends]
      refine .exec heval (hquit (by decide)) (.commit (hquit (by decide)) ?_)
      refine .emit (.emit (.done fun _ => iff_of_true ?_ ?_))
      · exact match_friendshipChanged rfl hpair (between_deleteFriendship hfriends)
      · rintro ⟨-, v', t', hadmits', hstrangers⟩
        obtain ⟨rfl, rfl⟩ := hadmits.inj hadmits'
        rw [hfriends] at hstrangers
        cases hstrangers
  | false =>
      have heval : eval (.deleteFriendship v t) now σ.seq σ.db = some ((), []) := by
        simp [eval, hfriends]
      refine .exec heval (hquit (by decide)) (.commit (hquit (by decide)) ?_)
      refine .emit (.emit (.done fun hn => iff_of_false ?_ (not_not_intro ?_)))
      · exact not_match_friendshipChanged rfl
      · exact ⟨hn, v, t, hadmits, hfriends⟩

theorem between_insertBlock {db db' : Db} {v t : UserId} {now : Nat}
    (h : db'.blocks = db.blocks ++ [⟨v, t, now⟩]) : db'.between v t ≠ db.between v t := by
  intro heq
  have hrows := congrArg (fun rows => rows.2.2.length) heq
  simp [Db.between, h, BlockRow.between] at hrows

theorem between_deleteBlock {db : Db} {v t : UserId} (h : db.blockedBy v t = true) :
    (Write.apply (.deleteBlock v t) db).between v t ≠ db.between v t := by
  intro heq
  have hrows := congrArg (fun rows => rows.2.2) heq
  obtain ⟨k, hk, hof⟩ := List.any_eq_true.mp h
  have hbetween : k.between v t = true := by rw [BlockRow.between, hof, Bool.true_or]
  have hmem : k ∈ db.blocks.filter (·.between v t) := List.mem_filter.mpr ⟨hk, hbetween⟩
  rw [← (show _ = db.blocks.filter (·.between v t) from hrows)] at hmem
  obtain ⟨hkept, -⟩ := List.mem_filter.mp hmem
  have hother := (List.mem_filter.mp hkept).2
  rw [hof] at hother
  cases hother

/-- The statements of `block_user`. They meet no row if the block is there and nothing is
pending, and else there is a change. -/
theorem eval_block {db : Db} {v t : UserId} (hne : t ≠ v) (hv : db.userExists v = true)
    (ht : db.userExists t = true) (now seq : Nat) :
    ∃ ws₁ ws₂, eval (.insertBlock v t) now seq db = some ((), ws₁) ∧
      eval (.cancelPending v t) now seq (engine.applyAll ws₁ db) = some ((), ws₂) ∧
      if db.blockedBy v t = true ∧ db.pendingBetween v t = [] then ws₁ ++ ws₂ = []
      else (engine.applyAll (ws₁ ++ ws₂) db).between v t ≠ db.between v t := by
  cases hblocked : db.blockedBy v t with
  | false =>
      have heval : eval (.insertBlock v t) now seq db = some ((), [.insertBlock ⟨v, t, now⟩]) := by
        rw [Db.blockedBy] at hblocked
        simp [eval, Ne.symm hne, hblocked, hv, ht]
      refine ⟨_, _, heval, rfl, ?_⟩
      -- a new block is a change by itself, whatever is pending
      rw [if_neg (fun h => Bool.false_ne_true h.1), engine.applyAll_append]
      exact between_insertBlock (blocks_settleRows _ _ now _)
  | true =>
      have heval : eval (.insertBlock v t) now seq db = some ((), []) := by
        rw [Db.blockedBy] at hblocked
        simp [eval, Ne.symm hne, hblocked]
      refine ⟨_, _, heval, rfl, ?_⟩
      change if true = true ∧ db.pendingBetween v t = [] then
        settleRows (db.pendingBetween v t) .cancelled now = []
        else (engine.applyAll (settleRows (db.pendingBetween v t) .cancelled now) db).between v t ≠
          db.between v t
      cases hpending : db.pendingBetween v t with
      | nil => rw [if_pos ⟨rfl, rfl⟩]; rfl
      | cons r rows =>
          have hr : r ∈ db.pendingBetween v t := hpending ▸ List.mem_cons_self
          obtain ⟨hrow, hp⟩ := List.mem_filter.mp hr
          obtain ⟨hmem, hbetween⟩ := List.mem_filter.mp hrow
          rw [if_neg (fun h => List.cons_ne_nil _ _ h.2)]
          -- the block is there, but a pending request of the pair is cancelled
          exact between_ne_of_settled hmem hbetween hp
            (settleRows_settled (by decide) List.mem_cons_self now db)

theorem tells_blockUser (identity : Option UserId) (userId : Int)
    (hfailed : failed.isOk = false) :
    Tells (fun out events => EventsMatch (.blockUser identity userId) σ out events ↔
      ¬ Pointless fails σ.db (.blockUser identity userId)) failed fails now
      (blockUser identity userId) 0 none σ := by
  have hquit : ∀ {m : Nat} {σ' : State}, m < 7 → FirstFailure fails m →
      (EventsMatch (.blockUser identity userId) σ (σ', failed) [] ↔
        ¬ Pointless fails σ.db (.blockUser identity userId)) := fun hm hf =>
    iff_of_true (match_quiet (.inl hfailed)) fun h => not_noneBefore hm hf h.1
  refine tells_admitted (hquit (by decide)) (fun hno e => ?_) fun v t hadmits => ?_
  · refine iff_of_true (match_quiet (.inl rfl)) ?_
    rintro ⟨-, v, t, hadmits, -⟩
    exact hno v t hadmits
  obtain ⟨rfl, hv, hpos, hne⟩ := id hadmits
  have hpair : (Call.blockUser (some v) userId).pair σ.db = some (v, t) := by
    rw [Call.pair, hpos]
    rfl
  refine .query_read (fun db => Db.loadUser db t) (fun _ _ _ => rfl) rfl (hquit (by decide)) ?_
  have ht := loadUser_isSome σ.db t
  cases hrow : Db.loadUser σ.db t with
  | none =>
      refine .done fun _ => iff_of_true (match_quiet (.inl rfl)) ?_
      rintro ⟨-, v', t', hadmits', hexists, -⟩
      obtain ⟨rfl, rfl⟩ := hadmits.inj hadmits'
      rw [← ht, hrow] at hexists
      cases hexists
  | some row =>
  rw [hrow] at ht
  obtain ⟨ws₁, ws₂, heval₁, heval₂, hchange⟩ := eval_block hne hv ht.symm now σ.seq
  refine .begin (hquit (by decide)) (.lock (hquit (by decide)) ?_)
  refine .exec heval₁ (hquit (by decide)) (.exec heval₂ (hquit (by decide))
    (.commit (hquit (by decide)) (.emit (.emit (.done fun hn => ?_)))))
  split at hchange
  -- both statements met no row: two events tell of no change
  · rename_i hidle
    refine iff_of_false (not_match_friendshipChanged ?_) (not_not_intro ?_)
    · exact congrArg (fun ws => engine.applyAll ws σ.db) hchange
    · exact ⟨hn, v, t, hadmits, ht.symm, hidle⟩
  · rename_i hbusy
    refine iff_of_true (match_friendshipChanged rfl hpair hchange) ?_
    rintro ⟨-, v', t', hadmits', -, hidle⟩
    obtain ⟨rfl, rfl⟩ := hadmits.inj hadmits'
    exact hbusy hidle

theorem tells_unblockUser (identity : Option UserId) (userId : Int)
    (hfailed : failed.isOk = false) :
    Tells (fun out events => EventsMatch (.unblockUser identity userId) σ out events ↔
      ¬ Pointless fails σ.db (.unblockUser identity userId)) failed fails now
      (unblockUser identity userId) 0 none σ := by
  have hquit : ∀ {m : Nat} {σ' : State}, m < 2 → FirstFailure fails m →
      (EventsMatch (.unblockUser identity userId) σ (σ', failed) [] ↔
        ¬ Pointless fails σ.db (.unblockUser identity userId)) := fun hm hf =>
    iff_of_true (match_quiet (.inl hfailed)) fun h => not_noneBefore hm hf h.1
  refine tells_admitted (hquit (by decide)) (fun hno e => ?_) fun v t hadmits => ?_
  · refine iff_of_true (match_quiet (.inl rfl)) ?_
    rintro ⟨-, v, t, hadmits, -⟩
    exact hno v t hadmits
  obtain ⟨rfl, -, hpos, -⟩ := id hadmits
  have hpair : (Call.unblockUser (some v) userId).pair σ.db = some (v, t) := by
    rw [Call.pair, hpos]
    rfl
  -- without a block the `DELETE` meets no row
  cases hblocked : Db.blockedBy σ.db v t with
  | true =>
      have heval : eval (.deleteBlock v t) now σ.seq σ.db = some ((), [.deleteBlock v t]) :=
        congrArg (fun found : Bool => some ((), if found then [Write.deleteBlock v t] else []))
          hblocked
      refine .query heval (hquit (by decide)) (.emit (.emit (.done fun _ => iff_of_true ?_ ?_)))
      · exact match_friendshipChanged rfl hpair (between_deleteBlock hblocked)
      · rintro ⟨-, v', t', hadmits', hfree⟩
        obtain ⟨rfl, rfl⟩ := hadmits.inj hadmits'
        rw [hblocked] at hfree
        cases hfree
  | false =>
      have heval : eval (.deleteBlock v t) now σ.seq σ.db = some ((), []) :=
        congrArg (fun found : Bool => some ((), if found then [Write.deleteBlock v t] else []))
          hblocked
      refine .query heval (hquit (by decide)) (.emit (.emit (.done fun hn => iff_of_false ?_
        (not_not_intro ?_))))
      · exact not_match_friendshipChanged rfl
      · exact ⟨hn, v, t, hadmits, hblocked⟩

end Handlers

/-- **Relationship events match relationship changes.** Whatever the state, the caller, the
arguments and the database calls that fail, what a relationship handler tells agrees with
what it changes, if and only if it is not a `remove_friend`, a `block_user` or an
`unblock_user` that goes through without a row to change. -/
theorem events_match_iff (env : Env) (c : Call) (hc : c.relational = true) (σ : State)
    (fails : Nat → Bool) (now : Nat) :
    EventsMatch c σ ((c.code env).solo c.failed fails now 0 none σ)
        ((c.code env).told fails now 0 none σ) ↔ ¬ Pointless fails σ.db c := by
  have hzero := noneBefore_zero fails
  cases c with
  | createRequest v r m => exact iff_of_true (tells_createRequest env v r m rfl hzero) not_false
  | acceptRequest v id => exact iff_of_true (tells_acceptRequest env v id rfl hzero) not_false
  | rejectRequest v id => exact iff_of_true (tells_rejectRequest env v id rfl hzero) not_false
  | cancelRequest v id => exact iff_of_true (tells_cancelRequest v id rfl hzero) not_false
  | removeFriend v u => exact tells_removeFriend v u rfl hzero
  | blockUser v u => exact tells_blockUser v u rfl hzero
  | unblockUser v u => exact tells_unblockUser v u rfl hzero
  | _ => cases hc

/-- 1 asks 2 to be friends. -/
theorem events_match_asked :
    EventsMatch lostCall lostStart
        ((lostCall.code demoEnv).solo lostCall.failed noFailure 0 0 none lostStart)
        ((lostCall.code demoEnv).told noFailure 0 0 none lostStart) ↔
      ¬ Pointless noFailure lostStart.db lostCall :=
  events_match_iff demoEnv lostCall rfl lostStart noFailure 0

/-! 1 removes 2 from its friends, who never was one. -/

def removeStranger : Call := .removeFriend (some 1) 2

/-- Nothing changes, and 2 is told that the friendship did. -/
theorem event_without_change :
    ((removeStranger.code demoEnv).solo removeStranger.failed noFailure 0 0 none lostStart).1 =
        lostStart ∧
      (removeStranger.code demoEnv).told noFailure 0 0 none lostStart = friendshipChanged 1 2 ∧
      ¬ EventsMatch removeStranger lostStart
        ((removeStranger.code demoEnv).solo removeStranger.failed noFailure 0 0 none lostStart)
        ((removeStranger.code demoEnv).told noFailure 0 0 none lostStart) := by
  refine ⟨rfl, by decide, ?_⟩
  exact not_match_friendshipChanged (v := 1) (t := 2) rfl

end DevbitBackend.Social
