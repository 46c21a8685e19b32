import DevbitBackend.Social.Failures
import DevbitBackend.Social.Friendship

/-!
# Social.Repeats

The relationship calls that may be repeated: `remove_friend`, `block_user`,
`unblock_user` and `create_request`. For each there is a state of the tables in
which the call succeeds and writes nothing, and a call that succeeds leaves the
tables in such a state.
-/

namespace DevbitBackend.Social

open Txn

/-- The request a successful answer names. -/
def Answer.requestId : Answer → Option RequestId
  | .request _ view => some view.id
  | _ => none

/-- The calls that may be repeated. -/
def Call.idempotent : Call → Bool
  | .createRequest _ _ _ | .removeFriend _ _ | .blockUser _ _ | .unblockUser _ _ => true
  | _ => false

/-- The outcome `out` of a call that is followed by the same call: if the first
succeeds, so does the second, with the same request, and the tables stay. -/
def Repeatable (env : Env) (c : Call) (out : State × Answer) : Prop :=
  out.2.isOk = true → ∀ now, ∃ a,
    (c.code env).solo c.failed noFailure now 0 none out.1 = (out.1, a) ∧
      a.isOk = true ∧ a.requestId = out.2.requestId

theorem repeatable_refused {env : Env} {c : Call} {σ : State} {a : Answer} (h : a.isOk = false) :
    Repeatable env c (σ, a) := by
  intro hok
  rw [h] at hok
  cases hok

section Rules

variable {Q : State × Answer → Prop} {fails : Nat → Bool} {now n : Nat} {failed : Answer}
  {σ : State} {v : UserId}

/-- `?` on a checked value. -/
theorem ends_orFail {β : Type} {r : Except SocialError β} {k : β → Code}
    (hrefused : ∀ a : Answer, a.isOk = false → Q (σ, a))
    (hk : ∀ b, r = .ok b → Ends Q failed fails now (k b) n none σ) :
    Ends Q failed fails now (orFail r k) n none σ := by
  cases r with
  | error e => exact .done fun _ => hrefused _ rfl
  | ok b => exact hk b rfl

/-- The viewer and another user: what the calls on a pair of users check first. -/
theorem ends_viewerAndOther {identity : Option UserId} {id : Int} {field text : String}
    {k : UserId → UserId → Code} (hrefused : ∀ a : Answer, a.isOk = false → Q (σ, a))
    (hfailed : failed.isOk = false)
    (hk : ∀ v t, identity = some v → Db.userExists σ.db v = true → positiveId id field = .ok t →
      t ≠ v → Ends Q failed fails now (k v t) (n + 1) none σ) :
    Ends Q failed fails now
      (requireViewer identity fun v => orFail (positiveId id field) fun t =>
        if t = v then fail (.validation field text) else k v t) n none σ := by
  refine ends_requireViewer (fun _ => hrefused _ hfailed) (fun _ => hrefused _ rfl) ?_
  intro v hv hexists
  refine ends_orFail hrefused fun t ht => ?_
  split
  · exact .done fun _ => hrefused _ rfl
  · rename_i hne
    exact hk v t hv hexists ht hne

end Rules

section Again

variable {env : Env} {now : Nat} {failed : Answer} {σ : State} {v t : UserId} {u : Int}

/-- A viewer who exists passes again. -/
theorem ends_viewer_again {Q : State × Answer → Prop} {n : Nat} {k : UserId → Code}
    (hv : Db.userExists σ.db v = true) (hk : Ends Q failed noFailure now (k v) (n + 1) none σ) :
    Ends Q failed noFailure now (requireViewer (some v) k) n none σ := by
  refine ends_requireViewer not_firstFailure (fun hno => ?_) fun v' hv' _ => ?_
  · rw [hno v rfl] at hv
    cases hv
  · obtain rfl := Option.some.inj hv'
    exact hk

/-- `remove_friend` of somebody who is no friend. -/
theorem removeFriend_again (hv : Db.userExists σ.db v = true) (hu : positiveId u "userId" = .ok t)
    (hne : t ≠ v) (hf : Db.areFriends σ.db v t = false) :
    (removeFriend (some v) u).solo failed noFailure now 0 none σ = (σ, .noContent) := by
  refine (?_ : Ends (· = (σ, .noContent)) failed noFailure now _ 0 none σ) (noneBefore_zero _)
  refine ends_viewer_again hv ?_
  rw [hu]
  dsimp only [orFail]
  rw [if_neg hne]
  refine .begin not_firstFailure (.lock not_firstFailure ?_)
  have heval : eval (.deleteFriendship v t) now σ.seq σ.db = some ((), []) := by simp [eval, hf]
  exact .exec heval not_firstFailure
    (.commit not_firstFailure (.emit (.emit (.done fun _ => rfl))))

/-- `block_user` of somebody who is blocked. -/
theorem blockUser_again (hv : Db.userExists σ.db v = true) (hu : positiveId u "userId" = .ok t)
    (hne : t ≠ v) (hload : (Db.loadUser σ.db t).isSome = true)
    (hblock : (Db.blocks σ.db).any (fun k => k.user == v && k.blocked == t) = true)
    (hpending : Db.pendingBetween σ.db v t = []) :
    (blockUser (some v) u).solo failed noFailure now 0 none σ = (σ, .noContent) := by
  refine (?_ : Ends (· = (σ, .noContent)) failed noFailure now _ 0 none σ) (noneBefore_zero _)
  refine ends_viewer_again hv ?_
  rw [hu]
  dsimp only [orFail]
  rw [if_neg hne]
  refine .query_read (fun db => Db.loadUser db t) (fun _ _ _ => rfl) rfl not_firstFailure ?_
  rw [if_neg (by simp [Option.isSome_iff_ne_none.mp hload])]
  refine .begin not_firstFailure (.lock not_firstFailure ?_)
  have hinsert : eval (.insertBlock v t) now σ.seq σ.db = some ((), []) := by
    simp [eval, hne.symm, hblock]
  have hcancel : eval (.cancelPending v t) now σ.seq σ.db = some ((), []) := by
    simp [eval, hpending, settleRows]
  exact .exec hinsert not_firstFailure (.exec hcancel not_firstFailure
    (.commit not_firstFailure (.emit (.emit (.done fun _ => rfl)))))

/-- `unblock_user` of somebody who is not blocked. -/
theorem unblockUser_again (hv : Db.userExists σ.db v = true) (hu : positiveId u "userId" = .ok t)
    (hne : t ≠ v) (hblock : (Db.blocks σ.db).any (fun k => k.user == v && k.blocked == t) = false) :
    (unblockUser (some v) u).solo failed noFailure now 0 none σ = (σ, .noContent) := by
  refine (?_ : Ends (· = (σ, .noContent)) failed noFailure now _ 0 none σ) (noneBefore_zero _)
  refine ends_viewer_again hv ?_
  rw [hu]
  dsimp only [orFail]
  rw [if_neg hne]
  have heval : eval (.deleteBlock v t) now σ.seq σ.db = some ((), []) := by simp [eval, hblock]
  exact .query heval not_firstFailure (.emit (.emit (.done fun _ => rfl)))

/-- `create_request` while the request is pending answers it. -/
theorem createRequest_again {recipientId : Option Int} {message : Option String} {text : String}
    {id : RequestId} {row : RequestRow × UserRow × UserRow} (hv : Db.userExists σ.db v = true)
    (hu : positiveId (recipientId.getD 0) "recipientId" = .ok t) (hne : t ≠ v)
    (hm : validateOptionalMessage message maxFriendRequestMessageChars = .ok text)
    (hopen : Db.OpenTo σ.db v t) (hid : (Db.pendingFrom σ.db v t).map (·.id) = some id)
    (hview : Db.requestView σ.db id = some row) :
    (createRequest env (some v) recipientId message).solo failed noFailure now 0 none σ =
      (σ, .request 200 (friendRequestFromRow env row)) := by
  refine (?_ : Ends (· = (σ, .request 200 (friendRequestFromRow env row))) failed noFailure now _ 0
    none σ) (noneBefore_zero _)
  refine ends_viewer_again hv ?_
  rw [hu]
  dsimp only [orFail]
  rw [if_neg hne, hm]
  refine .begin not_firstFailure (.lock not_firstFailure ?_)
  refine ends_requestChecks (fun _ _ => not_firstFailure) (fun h => absurd hopen h) fun _ => ?_
  rw [hid]
  refine .commit not_firstFailure ?_
  refine .query_read (fun db => Db.requestView db id) (fun _ _ _ => rfl) rfl not_firstFailure ?_
  have hdb : (σ.write []).db = σ.db := rfl
  rw [hdb, hview]
  exact .done fun _ => rfl

end Again

/-! ### What the writes leave -/

section Left

variable {db : Db} {v t : UserId} {now seq : Nat}

/-- No social write touches the users. -/
theorem users_applyAll (ws : List Write) (db : Db) :
    Db.users (engine.applyAll ws db) = db.users := by
  induction ws generalizing db with
  | nil => rfl
  | cons w ws ih =>
      rw [engine.applyAll_cons, ih]
      cases w <;> rfl

theorem userExists_applyAll (ws : List Write) (db : Db) (u : UserId) :
    Db.userExists (engine.applyAll ws db) u = db.userExists u := by
  rw [Db.userExists, users_applyAll, Db.userExists]

theorem not_friends_deleteFriendship (db : Db) (v t : UserId) :
    Db.areFriends (engine.applyAll
      (if db.areFriends v t then [.deleteFriendship (min v t) (max v t)] else []) db) v t =
        false := by
  cases h : db.areFriends v t with
  | false => exact h
  | true =>
      change Db.areFriends (Write.apply (.deleteFriendship (min v t) (max v t)) db) v t = false
      simp [areFriends_delete, samePair_self]

theorem not_blocked_deleteBlock (db : Db) (v t : UserId) :
    (Db.blocks (engine.applyAll
      (if db.blocks.any (fun k => k.user == v && k.blocked == t) then [.deleteBlock v t] else [])
        db)).any (fun k => k.user == v && k.blocked == t) = false := by
  cases h : db.blocks.any (fun k => k.user == v && k.blocked == t) with
  | false => exact h
  | true =>
      change (Db.blocks (Write.apply (.deleteBlock v t) db)).any _ = false
      rw [List.any_eq_false]
      intro k hk hvt
      have hkept := (List.mem_filter.mp hk).2
      rw [hvt] at hkept
      cases hkept

theorem blocked_insertBlock {ws : List Write}
    (h : eval (.insertBlock v t) now seq db = some ((), ws)) :
    (Db.blocks (engine.applyAll ws db)).any (fun k => k.user == v && k.blocked == t) = true := by
  simp only [eval] at h
  split at h
  · cases h
  split at h
  · rename_i hblock
    cases h
    exact hblock
  split at h
  · cases h
    change List.any (db.blocks ++ [_]) _ = true
    simp
  · cases h

/-- Nothing is pending once what was pending is settled. -/
theorem pendingBetween_settleRows (db : Db) (v t : UserId) {st : RequestStatus}
    (hst : st ≠ .pending) :
    Db.pendingBetween (engine.applyAll (settleRows (db.pendingBetween v t) st now) db) v t =
      [] := by
  rw [List.eq_nil_iff_forall_not_mem]
  intro r hr
  unfold settleRows at hr
  split at hr
  · rename_i hnil
    rw [engine.applyAll_nil, List.isEmpty_iff.mp hnil] at hr
    exact List.not_mem_nil hr
  · obtain ⟨hmem, hbetween, hp⟩ := Db.mem_pendingBetween.mp hr
    obtain ⟨r₀, hr₀, rfl⟩ := List.mem_map.mp hmem
    split at hbetween
    · rename_i hid
      rw [if_pos hid] at hp
      exact hst (by simpa using hp)
    · rename_i hid
      rw [if_neg hid] at hp
      exact hid (List.mem_map_of_mem (Db.mem_pendingBetween.mpr ⟨hr₀, hbetween, hp⟩))

/-- An `INSERT` of a request that does not conflict: the request is the pending one. -/
theorem eval_insertRequest_new {text : String} {inserted : Option RequestId} {ws : List Write}
    (hnone : db.pendingFrom v t = none)
    (h : eval (.insertRequest v t text) now seq db = some (inserted, ws)) :
    ∃ row : RequestRow, ws = [.insertRequest row] ∧ inserted = some row.id ∧
      (Db.pendingFrom (engine.applyAll ws db) v t).map (·.id) = some row.id := by
  simp only [eval, hnone, Option.isSome_none] at h
  split at h
  · cases h
  rw [if_neg Bool.false_ne_true] at h
  split at h
  · cases h
    refine ⟨_, rfl, rfl, ?_⟩
    change (List.find? _ (db.requests ++ [_])).map _ = _
    rw [List.find?_append, show List.find? _ db.requests = none from hnone]
    simp [RequestRow.isPending]
  · cases h

end Left

/-! ### What a call that succeeds leaves -/

section First

variable {env : Env} {fails : Nat → Bool} {now : Nat} {failed : Answer} {σ : State}

theorem ends_removeFriend_repeatable (identity : Option UserId) (u : Int)
    (hfailed : failed.isOk = false) :
    Ends (Repeatable env (.removeFriend identity u)) failed fails now (removeFriend identity u) 0
      none σ := by
  have hrefused : ∀ a : Answer, a.isOk = false → Repeatable env (.removeFriend identity u) (σ, a) :=
    fun _ => repeatable_refused
  refine ends_viewerAndOther hrefused hfailed fun v t hv hexists hu hne => ?_
  subst hv
  refine .begin (fun _ => hrefused _ hfailed) (.lock (fun _ => hrefused _ hfailed) ?_)
  refine .exec rfl (fun _ => hrefused _ hfailed) (.commit (fun _ => hrefused _ hfailed) ?_)
  refine .emit (.emit (.done fun _ hok now' => ⟨_, removeFriend_again ?_ hu hne ?_, rfl, rfl⟩))
  · exact (userExists_applyAll _ σ.db v).trans hexists
  · exact not_friends_deleteFriendship σ.db v t

theorem ends_unblockUser_repeatable (identity : Option UserId) (u : Int)
    (hfailed : failed.isOk = false) :
    Ends (Repeatable env (.unblockUser identity u)) failed fails now (unblockUser identity u) 0
      none σ := by
  have hrefused : ∀ a : Answer, a.isOk = false → Repeatable env (.unblockUser identity u) (σ, a) :=
    fun _ => repeatable_refused
  refine ends_viewerAndOther hrefused hfailed fun v t hv hexists hu hne => ?_
  subst hv
  refine .query rfl (fun _ => hrefused _ hfailed) ?_
  refine .emit (.emit (.done fun _ hok now' => ⟨_, unblockUser_again ?_ hu hne ?_, rfl, rfl⟩))
  · exact (userExists_applyAll _ σ.db v).trans hexists
  · exact not_blocked_deleteBlock σ.db v t

theorem ends_blockUser_repeatable (identity : Option UserId) (u : Int)
    (hfailed : failed.isOk = false) :
    Ends (Repeatable env (.blockUser identity u)) failed fails now (blockUser identity u) 0
      none σ := by
  have hrefused : ∀ a : Answer, a.isOk = false → Repeatable env (.blockUser identity u) (σ, a) :=
    fun _ => repeatable_refused
  refine ends_viewerAndOther hrefused hfailed fun v t hv hexists hu hne => ?_
  subst hv
  refine .query_read (fun db => Db.loadUser db t) (fun _ _ _ => rfl) rfl
    (fun _ => hrefused _ hfailed) ?_
  split
  · exact .done fun _ => hrefused _ rfl
  rename_i hload
  refine .begin (fun _ => hrefused _ hfailed) (.lock (fun _ => hrefused _ hfailed) ?_)
  cases hblock : eval (.insertBlock v t) now σ.seq σ.db with
  | none => exact .exec_rejected hblock (hrefused _ hfailed)
  | some res =>
      obtain ⟨⟨⟩, ws⟩ := res
      refine .exec hblock (fun _ => hrefused _ hfailed) (.exec rfl (fun _ => hrefused _ hfailed)
        (.commit (fun _ => hrefused _ hfailed) ?_))
      -- the block stands and nothing is pending now, so a second call writes nothing
      refine .emit (.emit (.done fun _ hok now' =>
        ⟨_, blockUser_again ?_ hu hne ?_ ?_ ?_, rfl, rfl⟩))
      · exact (userExists_applyAll _ σ.db v).trans hexists
      · change (List.find? _ (Db.users (engine.applyAll _ σ.db))).isSome = true
        rw [users_applyAll]
        exact Option.isSome_iff_ne_none.mpr fun hnone => hload (Option.isNone_iff_eq_none.mpr hnone)
      · change (Db.blocks (engine.applyAll _ σ.db)).any _ = true
        rw [engine.applyAll_append, blocks_settleRows]
        exact blocked_insertBlock hblock
      · change Db.pendingBetween (engine.applyAll _ σ.db) v t = []
        rw [engine.applyAll_append]
        exact pendingBetween_settleRows _ v t (by decide)

/-- What the reading back answers. -/
theorem currentFriendRequestView_repeatable {c : Call} {id : RequestId} {status n : Nat}
    (hfailed : failed.isOk = false)
    (hagain : ∀ row, Db.requestView σ.db id = some row → ∀ now,
      (c.code env).solo c.failed noFailure now 0 none σ =
        (σ, .request 200 (friendRequestFromRow env row))) :
    Ends (Repeatable env c) failed fails now
      (currentFriendRequestView env id fun view => .done (.request status view)) n none σ := by
  refine .query_read (fun db => Db.requestView db id) (fun _ _ _ => rfl) rfl
    (fun _ => repeatable_refused hfailed) ?_
  cases hview : Db.requestView σ.db id with
  | none => exact .done fun _ => repeatable_refused rfl
  | some row => exact .done fun _ _ now' => ⟨_, hagain row hview now', rfl, rfl⟩

theorem ends_createRequest_repeatable (identity : Option UserId) (recipientId : Option Int)
    (message : Option String) (hfailed : failed.isOk = false) :
    Ends (Repeatable env (.createRequest identity recipientId message)) failed fails now
      (createRequest env identity recipientId message) 0 none σ := by
  have hrefused : ∀ a : Answer, a.isOk = false →
      Repeatable env (.createRequest identity recipientId message) (σ, a) :=
    fun _ => repeatable_refused
  have hlost : ∀ {σ' : State} n, FirstFailure fails n →
      Repeatable env (.createRequest identity recipientId message) (σ', failed) :=
    fun _ _ => repeatable_refused hfailed
  refine ends_viewerAndOther hrefused hfailed fun v t hv hexists hu hne => ?_
  subst hv
  refine ends_orFail hrefused fun text hm => .begin (hlost _) (.lock (hlost _) ?_)
  refine ends_requestChecks (fun m _ => hlost m) (fun _ _ _ => hrefused _ rfl) fun hopen => ?_
  cases hpending : Db.pendingFrom σ.db v t with
  | some r =>
      -- the request was pending before, and both calls answer it
      refine .commit (hlost _) (currentFriendRequestView_repeatable hfailed ?_)
      intro row hview now'
      have hid : (Db.pendingFrom σ.db v t).map (·.id) = some r.id := by rw [hpending]; rfl
      exact createRequest_again hexists hu hne hm hopen hid hview
  | none =>
      refine .exec_read (fun db => (Db.pendingFrom db t v).isSome) (fun _ _ _ => rfl) rfl
        (hlost _) ?_
      split
      · exact .done fun _ => hrefused _ rfl
      cases hinsert : eval (.insertRequest v t text) now σ.seq σ.db with
      | none => exact .exec_rejected hinsert (hrefused _ hfailed)
      | some res =>
          obtain ⟨inserted, ws⟩ := res
          obtain ⟨row, hws, hid, hnew⟩ := eval_insertRequest_new hpending hinsert
          subst hws hid
          refine .exec hinsert (hlost _) (.commit (hlost _) (.emit ?_))
          refine currentFriendRequestView_repeatable hfailed fun view hview now' => ?_
          have hviewer := (userExists_applyAll [.insertRequest row] σ.db v).trans hexists
          refine createRequest_again hviewer hu hne hm ?_ hnew hview
          exact ⟨(userExists_applyAll _ σ.db t).trans hopen.found, hopen.unblocked, hopen.receives,
            hopen.strangers⟩

/-- A call that may be repeated is followed by a repetition that changes nothing. -/
theorem repeatable_solo (env : Env) {c : Call} (hc : c.idempotent = true) (σ : State)
    (fails : Nat → Bool) (now : Nat) :
    Repeatable env c ((c.code env).solo c.failed fails now 0 none σ) := by
  cases c with
  | createRequest v r m => exact ends_createRequest_repeatable v r m rfl (noneBefore_zero _)
  | removeFriend v u => exact ends_removeFriend_repeatable v u rfl (noneBefore_zero _)
  | blockUser v u => exact ends_blockUser_repeatable v u rfl (noneBefore_zero _)
  | unblockUser v u => exact ends_unblockUser_repeatable v u rfl (noneBefore_zero _)
  | _ => cases hc

end First

end DevbitBackend.Social
