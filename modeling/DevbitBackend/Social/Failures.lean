import DevbitBackend.Lib.TxnSolo
import DevbitBackend.Social.Runs

/-!
# Social.Failures

What a failed call leaves behind. Each handler runs alone, any of its database
calls may fail, and a handler that answers an error should have changed nothing.
An early failure drops the transaction, but `create_request`, `accept_request`
and `reject_request` read the request back after their commit, and when that
read fails they answer an error about a change that stays. `failed_write_traceless`
says that nothing else can go wrong.
-/

namespace DevbitBackend.Social

open Txn Transition

/-! ### When a call changes something -/

/-- `v` may send `t` a friend request, and none is pending between them. -/
def Db.admitsRequest (db : Db) (v t : UserId) : Bool :=
  db.userExists t && !db.blockExists v t &&
    ((db.preferencesOf t).map (·.friendRequestPolicy) != some "nobody") &&
    !db.areFriends v t && (db.pendingFrom v t).isNone && (db.pendingFrom t v).isNone

/-- The checks of `create_request` before it looks for a pending request. -/
structure Db.OpenTo (db : Db) (v t : UserId) : Prop where
  found : db.userExists t = true
  unblocked : db.blockExists v t = false
  receives : (db.preferencesOf t).map (·.friendRequestPolicy) ≠ some "nobody"
  strangers : db.areFriends v t = false

theorem Db.admitsRequest_iff {db : Db} {v t : UserId} :
    db.admitsRequest v t = true ↔
      db.OpenTo v t ∧ db.pendingFrom v t = none ∧ db.pendingFrom t v = none := by
  simp only [Db.admitsRequest, Bool.and_eq_true, Bool.not_eq_true', bne_iff_ne,
    Option.isNone_iff_eq_none]
  constructor
  · rintro ⟨⟨⟨⟨⟨hfound, hblock⟩, hpolicy⟩, hfriends⟩, hpending⟩, hreverse⟩
    exact ⟨⟨hfound, hblock, hpolicy, hfriends⟩, hpending, hreverse⟩
  · rintro ⟨h, hpending, hreverse⟩
    exact ⟨⟨⟨⟨⟨h.found, h.unblocked⟩, h.receives⟩, h.strangers⟩, hpending⟩, hreverse⟩

/-- The request `id` is pending, and `v` is its recipient. -/
def Db.awaits (db : Db) (v : UserId) (id : RequestId) : Bool :=
  (db.request id).any fun r => r.recipient == v && r.isPending

/-- The number of the database call that reads the request back after the
commit. -/
def Call.readBack : Call → Option Nat
  | .createRequest _ _ _ => some 11
  | .acceptRequest _ _ => some 9
  | .rejectRequest _ _ => some 7
  | _ => none

/-- The arguments and the tables pass every check of a handler that reads the
request back, and its transaction changes a row. -/
def Call.changes (db : Db) : Call → Prop
  | .createRequest (some v) recipientId message =>
      db.userExists v = true ∧ ∃ t text, positiveId (recipientId.getD 0) "recipientId" = .ok t ∧
        t ≠ v ∧ validateOptionalMessage message maxFriendRequestMessageChars = .ok text ∧
        storable text = true ∧ db.admitsRequest v t = true
  | .acceptRequest (some v) id | .rejectRequest (some v) id =>
      db.userExists v = true ∧ 0 < id ∧ db.awaits v id = true
  | _ => False

/-- The change of the call is committed, and then its reply is lost: the first
database call that fails is the one that reads the request back. -/
def LosesReply (c : Call) (fails : Nat → Bool) (db : Db) : Prop :=
  ∃ n, c.readBack = some n ∧ FirstFailure fails n ∧ c.changes db

/-- The outcome of a lone call in the state `σ`: an error has left no trace,
unless the reply was lost. -/
def Traceless (c : Call) (fails : Nat → Bool) (σ : State) (out : State × Answer) : Prop :=
  (out.2.isOk = false → out.1.db = σ.db) ↔ ¬ LosesReply c fails σ.db

section Outcome

variable {c : Call} {fails : Nat → Bool} {σ σ' : State} {a : Answer}

/-- Nothing has changed, and the call is not one that loses its reply. -/
theorem traceless_unchanged (hdb : σ'.db = σ.db) (hn : ¬ LosesReply c fails σ.db) :
    Traceless c fails σ (σ', a) :=
  ⟨fun _ => hn, fun _ _ => hdb⟩

theorem traceless_ok (ha : a.isOk = true) (hn : ¬ LosesReply c fails σ.db) :
    Traceless c fails σ (σ', a) :=
  ⟨fun _ => hn, fun _ hf => by rw [ha] at hf; cases hf⟩

theorem traceless_lost (ha : a.isOk = false) (hdb : σ'.db ≠ σ.db)
    (hl : LosesReply c fails σ.db) : Traceless c fails σ (σ', a) :=
  ⟨fun h => absurd (h ha) hdb, fun hn => absurd hl hn⟩

/-- Another database call is the first to fail. -/
theorem not_losesReply_of_failure {n : Nat} (hn : c.readBack ≠ some n)
    (hf : FirstFailure fails n) : ¬ LosesReply c fails σ.db := by
  rintro ⟨m, hm, hf', -⟩
  rw [hf.unique hf'] at hn
  exact hn hm

theorem not_losesReply_of_check (h : ¬ c.changes σ.db) : ¬ LosesReply c fails σ.db :=
  fun ⟨_, _, _, hc⟩ => h hc

/-- A failure before anything is committed leaves no trace: the transaction is rolled back
with it. -/
theorem traceless_failure {n : Nat} (hn : c.readBack ≠ some n) (hdb : σ'.db = σ.db)
    (hf : FirstFailure fails n) : Traceless c fails σ (σ', a) :=
  traceless_unchanged hdb (not_losesReply_of_failure hn hf)

/-- No database call up to the reading back has failed. -/
theorem not_losesReply_of_none {m n : Nat} (hm : c.readBack = some m) (hlt : m < n)
    (h : NoneBefore fails n) : ¬ LosesReply c fails σ.db := by
  rintro ⟨m', hm', hf, -⟩
  obtain rfl := Option.some.inj (hm.symm.trans hm')
  exact absurd hf.1 (by simp [h m hlt])

/-- A check refuses the call, which would have changed nothing anyway. -/
theorem traceless_refused (h : ¬ c.changes σ.db) : Traceless c fails σ (σ, a) :=
  traceless_unchanged rfl (not_losesReply_of_check h)

end Outcome

theorem loadUser_isSome (db : Db) (id : UserId) : (db.loadUser id).isSome = db.userExists id := by
  rw [Bool.eq_iff_iff, Db.loadUser, Db.userExists, List.find?_isSome, List.any_eq_true]

/-! ### The handlers -/

section Handlers

variable {c : Call} {fails : Nat → Bool} {now n : Nat} {failed : Answer} {σ : State}

/-- `require_viewer` lets only an existing user pass. -/
theorem ends_requireViewer {Q : State × Answer → Prop} {identity : Option UserId}
    {k : UserId → Code} (hfail : FirstFailure fails n → Q (σ, failed))
    (hrefused : (∀ v, identity = some v → Db.userExists σ.db v = false) →
      Q (σ, .error .unauthenticated))
    (hk : ∀ v, identity = some v → Db.userExists σ.db v = true →
      Ends Q failed fails now (k v) (n + 1) none σ) :
    Ends Q failed fails now (requireViewer identity k) n none σ := by
  cases identity with
  | none => exact .done fun _ => hrefused nofun
  | some v =>
      refine .query_read (fun db => Db.userExists db v) (fun _ _ _ => rfl) rfl hfail ?_
      cases hu : Db.userExists σ.db v with
      | false => exact .done fun _ => hrefused fun v' hv' => Option.some.inj hv' ▸ hu
      | true => exact hk v rfl hu

/-- The read after the commit finds a request whose parties exist. -/
theorem requestView_eq_some {db : Db} {id : RequestId}
    (hparties : ∀ r ∈ db.requests, db.userExists r.sender = true ∧ db.userExists r.recipient = true)
    (h : ∃ r ∈ db.requests, r.id = id) : ∃ row, db.requestView id = some row := by
  obtain ⟨r, hr, rfl⟩ := h
  have hfound : (db.requests.find? (·.id == r.id)).isSome = true := by
    rw [List.find?_isSome]
    exact ⟨r, hr, by simp⟩
  obtain ⟨row, hrow⟩ := Option.isSome_iff_exists.mp hfound
  obtain ⟨hs, ht⟩ := hparties row (List.mem_of_find?_eq_some hrow)
  obtain ⟨s, hs'⟩ := Option.isSome_iff_exists.mp (List.find?_isSome.mpr (List.any_eq_true.mp hs))
  obtain ⟨t, ht'⟩ := Option.isSome_iff_exists.mp (List.find?_isSome.mpr (List.any_eq_true.mp ht))
  exact ⟨(row, s, t), by simp [Db.requestView, Db.request, Db.loadUser, hrow, hs', ht']⟩

/-- After a commit that changed something the reply is read back: an error then
is a lost reply. -/
theorem ends_readBack {env : Env} {id : RequestId} {σ' : State} {k : FriendRequest → Code}
    (hn : c.readBack = some n) (hfailed : failed.isOk = false) (hc : c.changes σ.db)
    (hdb : σ'.db ≠ σ.db) (hview : ∃ row, Db.requestView σ'.db id = some row)
    (hk : ∀ view, Ends (Traceless c fails σ) failed fails now (k view) (n + 1) none σ') :
    Ends (Traceless c fails σ) failed fails now (currentFriendRequestView env id k) n none σ' := by
  refine .query_read (fun db => Db.requestView db id) (fun _ _ _ => rfl) rfl
    (fun hf => traceless_lost hfailed hdb ⟨n, hn, hf, hc⟩) ?_
  obtain ⟨row, hrow⟩ := hview
  simp only [hrow]
  exact hk _

/-! ### `create_request` -/

/-- The calls of `create_request` up to the lookup of a pending request. -/
theorem ends_requestChecks {Q : State × Answer → Prop} {v t : UserId} {k : Option RequestId → Code}
    (hfail : ∀ m < n + 5, FirstFailure fails m → Q (σ, failed))
    (hrefused : ¬ Db.OpenTo σ.db v t → ∀ e, e.status ≠ 500 → Q (σ, .error e))
    (hk : Db.OpenTo σ.db v t → Ends Q failed fails now
      (k ((Db.pendingFrom σ.db v t).map (·.id))) (n + 5) (some []) σ) :
    Ends Q failed fails now
      (exec (.userExists t) fun (found : Bool) => if !found then fail .userNotFound else
        exec (.blockExists v t) fun (blocked : Bool) =>
        if blocked then fail (.forbidden "当前关系不允许发送好友申请") else
        exec (.friendRequestPolicy t) fun (policy : Option String) =>
        if policy = some "nobody" then fail (.forbidden "对方当前不接收好友申请") else
        exec (.areFriends v t) fun (friends : Bool) =>
        if friends then fail .relationshipChanged else exec (.pendingId v t) k)
      n (some []) σ := by
  -- each check is one read, and the first that fails refuses the pair
  refine .exec_read (fun db => Db.userExists db t) (fun _ _ _ => rfl) rfl
    (hfail _ (by omega)) ?_
  cases ht : Db.userExists σ.db t with
  | false => exact .done fun _ => hrefused (fun h => by simp [h.found] at ht) _ (by decide)
  | true =>
  refine .exec_read (fun db => Db.blockExists db v t) (fun _ _ _ => rfl) rfl
    (hfail _ (by omega)) ?_
  cases hb : Db.blockExists σ.db v t with
  | true => exact .done fun _ => hrefused (fun h => by simp [h.unblocked] at hb) _ (by decide)
  | false =>
  refine .exec_read (fun db => (Db.preferencesOf db t).map (·.friendRequestPolicy))
    (fun _ _ _ => rfl) rfl (hfail _ (by omega)) ?_
  by_cases hpol : (Db.preferencesOf σ.db t).map (·.friendRequestPolicy) = some "nobody"
  · rw [if_pos hpol]
    exact .done fun _ => hrefused (fun h => h.receives hpol) _ (by decide)
  rw [if_neg hpol]
  refine .exec_read (fun db => Db.areFriends db v t) (fun _ _ _ => rfl) rfl
    (hfail _ (by omega)) ?_
  cases hf : Db.areFriends σ.db v t with
  | true => exact .done fun _ => hrefused (fun h => by simp [h.strangers] at hf) _ (by decide)
  | false =>
  exact .exec_read (fun db => (Db.pendingFrom db v t).map (·.id)) (fun _ _ _ => rfl) rfl
    (hfail _ (by omega)) (hk ⟨ht, hb, hpol, hf⟩)

/-- The checks of a call whose arguments are accepted. -/
theorem changes_createRequest (db : Db) (v : UserId) {t : UserId} {rid : Option Int}
    {msg : Option String} {text : String} (hpos : positiveId (rid.getD 0) "recipientId" = .ok t)
    (hmsg : validateOptionalMessage msg maxFriendRequestMessageChars = .ok text) :
    (Call.createRequest (some v) rid msg).changes db ↔
      db.userExists v = true ∧ t ≠ v ∧ storable text = true ∧ db.admitsRequest v t = true := by
  constructor
  · rintro ⟨hv, t', text', hpos', hne, hmsg', hst, hadm⟩
    obtain rfl := Except.ok.inj (hpos.symm.trans hpos')
    obtain rfl := Except.ok.inj (hmsg.symm.trans hmsg')
    exact ⟨hv, hne, hst, hadm⟩
  · rintro ⟨hv, hne, hst, hadm⟩
    exact ⟨hv, t, text, hpos, hne, hmsg, hst, hadm⟩

/-- A failure before the eleventh call, the read after the commit. -/
theorem early_createRequest {identity : Option UserId} {rid : Option Int} {msg : Option String}
    {m : Nat} {σ' : State} {a : Answer} (hm : m < 11) (hdb : σ'.db = σ.db)
    (hf : FirstFailure fails m) :
    Traceless (.createRequest identity rid msg) fails σ (σ', a) :=
  traceless_failure (fun h => absurd (Option.some.inj h) (Nat.ne_of_gt hm)) hdb hf

/-- All checks are passed: the insert, its commit and the read after it. -/
theorem ends_insertRequest {env : Env} {rid : Option Int} {msg : Option String} {v t : UserId}
    {text : String} {k : Option RequestId → Code}
    (hpos : positiveId (rid.getD 0) "recipientId" = .ok t)
    (hmsg : validateOptionalMessage msg maxFriendRequestMessageChars = .ok text) (hne : v ≠ t)
    (hfailed : failed.isOk = false) (hs : SchemaOk σ.db) (hu : Db.userExists σ.db v = true)
    (hadm : Db.admitsRequest σ.db v t = true)
    (hk : ∀ id, k (some id) = .commit (notify t "friend_request_received" (some id) (some v)
      (currentFriendRequestView env id fun view => .done (.request 201 view)))) :
    Ends (Traceless (.createRequest (some v) rid msg) fails σ) failed fails now
      (exec (.insertRequest v t text) k) 9 (some []) σ := by
  have hchanges := changes_createRequest σ.db v hpos hmsg
  obtain ⟨⟨ht, -, -, -⟩, hp, -⟩ := Db.admitsRequest_iff.mp hadm
  by_cases hstor : storable text = true
  · have heval := eval_insertRequest hne (validateOptionalMessage_le hmsg) hstor hp hu ht now σ.seq
    refine .exec heval (early_createRequest (by decide) rfl) ?_
    rw [hk]
    refine .commit (early_createRequest (by decide) rfl) (.emit ?_)
    -- the read-back comes after the commit: its failure loses the reply only
    apply ends_readBack rfl hfailed (hchanges.mpr ⟨hu, hne.symm, hstor, hadm⟩)
    · intro hdb
      have hlen := congrArg (fun db => (Db.requests db).length) hdb
      simp [Snap.write, Engine.applyAll, Write.apply, Snap.bump] at hlen
    · apply requestView_eq_some
      · intro r hr
        rcases List.mem_append.mp hr with hr | hr
        · exact (hs.requestParties r hr).2
        · obtain rfl := List.mem_singleton.mp hr
          exact ⟨hu, ht⟩
      · exact ⟨_, List.mem_append_right _ (List.mem_singleton_self _), rfl⟩
    · intro view
      exact .done fun hn => traceless_ok rfl
        (not_losesReply_of_none (c := .createRequest (some v) rid msg) rfl (by decide) hn)
  -- a NUL in the message makes the `INSERT` fail
  · have heval := eval_insertRequest_rejected hstor v t now σ.seq σ.db
    exact .exec_rejected heval (traceless_refused fun hc => hstor (hchanges.mp hc).2.2.1)

theorem ends_createRequest (env : Env) (identity : Option UserId) (rid : Option Int)
    (msg : Option String) (hfailed : failed.isOk = false) (hs : SchemaOk σ.db) :
    Ends (Traceless (.createRequest identity rid msg) fails σ) failed fails now
      (createRequest env identity rid msg) 0 none σ := by
  refine ends_requireViewer (early_createRequest (by decide) rfl)
    (fun hno => traceless_refused fun hc => ?_) fun v hv hu => ?_
  · cases identity with
    | none => exact hc
    | some v => exact absurd hc.1 (by simp [hno v rfl])
  subst hv
  cases hpos : positiveId (rid.getD 0) "recipientId" with
  | error e =>
      refine .done fun _ => traceless_refused ?_
      rintro ⟨-, t, text, hpos', -⟩
      rw [hpos] at hpos'
      cases hpos'
  | ok t =>
  simp only [orFail]
  by_cases htv : t = v
  · rw [if_pos htv]
    refine .done fun _ => traceless_refused ?_
    rintro ⟨-, t', text, hpos', hne, -⟩
    exact hne ((Except.ok.inj (hpos'.symm.trans hpos)).trans htv)
  rw [if_neg htv]
  cases hmsg : validateOptionalMessage msg maxFriendRequestMessageChars with
  | error e =>
      refine .done fun _ => traceless_refused ?_
      rintro ⟨-, t', text, -, -, hmsg', -⟩
      rw [hmsg] at hmsg'
      cases hmsg'
  | ok text =>
  have hchanges := changes_createRequest σ.db v hpos hmsg
  have refuse : ∀ {e : SocialError}, ¬ Db.admitsRequest σ.db v t = true →
      Traceless (.createRequest (some v) rid msg) fails σ (σ, .error e) := fun hadm =>
    traceless_refused fun hc => hadm (hchanges.mp hc).2.2.2
  refine .begin (early_createRequest (by decide) rfl) ?_
  refine .lock (early_createRequest (by decide) rfl) ?_
  refine ends_requestChecks (fun m hm => early_createRequest (by omega) rfl)
    (fun hopen e _ => refuse fun h => hopen (Db.admitsRequest_iff.mp h).1) fun hopen => ?_
  cases hpend : Db.pendingFrom σ.db v t with
  | some r =>
      -- the request is already there: whatever happens, nothing is written
      have hn : ¬ LosesReply (.createRequest (some v) rid msg) fails σ.db :=
        not_losesReply_of_check fun hc => by
          have hnone := (Db.admitsRequest_iff.mp (hchanges.mp hc).2.2.2).2.1
          rw [hpend] at hnone
          cases hnone
      refine .commit (early_createRequest (by decide) rfl) ?_
      refine .query_read (fun db => Db.requestView db r.id) (fun _ _ _ => rfl) rfl
        (fun _ => traceless_unchanged rfl hn) ?_
      split <;> exact .done fun _ => traceless_unchanged rfl hn
  | none =>
  refine .exec_read (fun db => (Db.pendingFrom db t v).isSome) (fun _ _ _ => rfl) rfl
    (early_createRequest (by decide) rfl) ?_
  cases hrev : Db.pendingFrom σ.db t v with
  | some r =>
      refine .done fun _ => refuse fun h => ?_
      have hnone := (Db.admitsRequest_iff.mp h).2.2
      rw [hrev] at hnone
      cases hnone
  | none =>
  exact ends_insertRequest hpos hmsg (Ne.symm htv) hfailed hs hu
    (Db.admitsRequest_iff.mpr ⟨hopen, hpend, hrev⟩) fun _ => rfl

/-! ### `accept_request`, `reject_request`, `cancel_request` -/

/-- The calls up to the row lock: what follows runs on a pending request of which
the caller is the party. -/
theorem ends_withPendingRequest {identity : Option UserId} {requestId : Int} {party : Party}
    {refusal : String} {k : UserId → RequestId → UserId → UserId → Code}
    (hn : ∀ m < 5, c.readBack ≠ some m)
    (hchanges : c.changes σ.db → ∃ v, identity = some v ∧ Db.userExists σ.db v = true ∧
      0 < requestId ∧ ∃ r, Db.request σ.db requestId = some r ∧
        party.of r.sender r.recipient = v ∧ r.status = .pending)
    (hk : ∀ r, identity = some (party.of r.sender r.recipient) →
      Db.userExists σ.db (party.of r.sender r.recipient) = true → 0 < requestId →
      Db.request σ.db requestId = some r → r.status = .pending →
      Ends (Traceless c fails σ) failed fails now
        (k (party.of r.sender r.recipient) requestId r.sender r.recipient) 5 (some []) σ) :
    Ends (Traceless c fails σ) failed fails now
      (withPendingRequest identity requestId party refusal k) 0 none σ := by
  have early : ∀ {m : Nat}, m < 5 → FirstFailure fails m → Traceless c fails σ (σ, failed) :=
    fun hm hf => traceless_failure (hn _ hm) rfl hf
  -- a refused call changes nothing, so it must be one that had nothing to change
  have refuse : ∀ {e : SocialError} {m : Nat} {tx : Option (List Write)}, ¬ c.changes σ.db →
      Ends (Traceless c fails σ) failed fails now (fail e) m tx σ :=
    fun hc => .done fun _ => traceless_refused hc
  refine ends_requireViewer (early (by decide)) (fun hno => traceless_refused fun hc => ?_)
    fun v hv hu => ?_
  · obtain ⟨v, hv, hu, -⟩ := hchanges hc
    rw [hno v hv] at hu
    cases hu
  subst hv
  by_cases hpos : requestId ≤ 0
  · simp only [validatePositiveI64, if_pos hpos, orFail]
    refine refuse fun hc => ?_
    obtain ⟨-, -, -, hpos', -⟩ := hchanges hc
    exact absurd hpos' (Int.not_lt.mpr hpos)
  simp only [validatePositiveI64, if_neg hpos, orFail]
  refine .begin (early (by decide)) ?_
  refine .exec_read (fun db => (Db.request db requestId).map fun r => (r.sender, r.recipient))
    (fun _ _ _ => rfl) rfl (early (by decide)) ?_
  cases hreq : Db.request σ.db requestId with
  | none =>
      refine refuse fun hc => ?_
      obtain ⟨-, -, -, -, r, hr, -⟩ := hchanges hc
      rw [hreq] at hr
      cases hr
  | some r =>
  refine .lock (early (by decide)) ?_
  refine .exec_read (fun db => (Db.request db requestId).map fun r =>
    (r.sender, r.recipient, r.status)) (fun _ _ _ => rfl) rfl (early (by decide)) ?_
  rw [hreq]
  simp only [Option.map_some]
  by_cases hparty : party.of r.sender r.recipient = v
  · rw [if_neg (not_not.mpr hparty)]
    by_cases hst : r.status = .pending
    · rw [if_neg (not_not.mpr hst)]
      subst hparty
      -- pending, and the caller is its party: the rest of the handler runs
      exact hk r rfl hu (Int.not_le.mp hpos) hreq hst
    · rw [if_pos hst]
      refine refuse fun hc => ?_
      obtain ⟨-, -, -, -, r', hr', -, hst'⟩ := hchanges hc
      obtain rfl := Option.some.inj (hreq.symm.trans hr')
      exact hst hst'
  · rw [if_pos hparty]
    refine refuse fun hc => ?_
    obtain ⟨v', hv', -, -, r', hr', hparty', -⟩ := hchanges hc
    obtain rfl := Option.some.inj (hreq.symm.trans hr')
    exact hparty (hparty'.trans (Option.some.inj hv').symm)

/-- Only statuses have changed, and nothing has become pending. -/
structure Restatus (db db' : Db) : Prop where
  users : db'.users = db.users
  rows : ∃ f : RequestRow → RequestRow, db'.requests = db.requests.map f ∧
    ∀ r, (f r).id = r.id ∧ (f r).sender = r.sender ∧ (f r).recipient = r.recipient ∧
      (r.isPending = false → (f r).isPending = false)

namespace Restatus

variable {db db' : Db}

theorem of_requests (hu : db'.users = db.users) (hr : db'.requests = db.requests) :
    Restatus db db' :=
  ⟨hu, id, by simpa using hr, fun r => ⟨rfl, rfl, rfl, fun h => h⟩⟩

theorem trans {db₁ db₂ db₃ : Db} (h : Restatus db₁ db₂) (h' : Restatus db₂ db₃) :
    Restatus db₁ db₃ := by
  obtain ⟨f, hf, hrow⟩ := h.rows
  obtain ⟨g, hg, hrow'⟩ := h'.rows
  refine ⟨h'.users.trans h.users, g ∘ f, by rw [hg, hf, List.map_map], fun r => ?_⟩
  obtain ⟨hid, hs, ht, hp⟩ := hrow r
  obtain ⟨hid', hs', ht', hp'⟩ := hrow' (f r)
  exact ⟨hid'.trans hid, hs'.trans hs, ht'.trans ht, fun h => hp' (hp h)⟩

/-- One `UPDATE` of the requests. -/
theorem settleRows (rows : List RequestRow) {st : RequestStatus} (hst : st ≠ .pending)
    (now : Nat) (db : Db) :
    Restatus db (engine.applyAll (Social.settleRows rows st now) db) := by
  unfold Social.settleRows
  split
  · exact .of_requests rfl rfl
  · refine ⟨rfl, _, rfl, fun r => ?_⟩
    split
    · exact ⟨rfl, rfl, rfl, fun _ => by simpa using hst⟩
    · exact ⟨rfl, rfl, rfl, fun h => h⟩

theorem mem (h : Restatus db db') {r : RequestRow} (hr : r ∈ db.requests) :
    ∃ r' ∈ db'.requests, r'.id = r.id ∧ (r.isPending = false → r'.isPending = false) := by
  obtain ⟨f, hf, hrow⟩ := h.rows
  exact ⟨f r, hf ▸ List.mem_map_of_mem hr, (hrow r).1, (hrow r).2.2.2⟩

/-- The reply can be read back. -/
theorem requestView (h : Restatus db db') (hs : SchemaOk db) {r : RequestRow}
    (hr : r ∈ db.requests) : ∃ row, db'.requestView r.id = some row := by
  obtain ⟨r', hr', hid, -⟩ := h.mem hr
  refine requestView_eq_some (fun r₁ hr₁ => ?_) ⟨r', hr', hid⟩
  obtain ⟨f, hf, hrow⟩ := h.rows
  rw [hf] at hr₁
  obtain ⟨r₀, hr₀, rfl⟩ := List.mem_map.mp hr₁
  have hexists : ∀ u, db'.userExists u = db.userExists u := by
    intro u
    rw [Db.userExists, h.users, Db.userExists]
  rw [(hrow r₀).2.1, (hrow r₀).2.2.1, hexists, hexists]
  exact (hs.requestParties r₀ hr₀).2

end Restatus

/-- The `UPDATE` by id goes through and leaves the request settled. -/
theorem eval_setStatus_settles {db : Db} {r : RequestRow} (hr : r ∈ db.requests)
    {st : RequestStatus} (hst : st ≠ .pending) (now seq : Nat) :
    ∃ ws, eval (.setStatus r.id st) now seq db = some ((), ws) ∧
      Restatus db (engine.applyAll ws db) ∧
      ∃ r' ∈ Db.requests (engine.applyAll ws db), r'.id = r.id ∧ r'.isPending = false := by
  have hmem : r ∈ db.requests.filter (·.id == r.id) := List.mem_filter.mpr ⟨hr, by simp⟩
  have hne : (db.requests.filter (·.id == r.id)).isEmpty = false := by
    rw [List.isEmpty_eq_false_iff]
    exact List.ne_nil_of_mem hmem
  refine ⟨_, rfl, .settleRows _ hst now db, ?_⟩
  unfold settleRows
  rw [hne]
  refine ⟨_, List.mem_map_of_mem hr, ?_⟩
  rw [if_pos (List.mem_map_of_mem hmem)]
  exact ⟨rfl, by simpa using hst⟩

/-- Tables in which a pending request is not pending any more are other tables. -/
theorem ne_of_settled {db db' : Db} (hs : SchemaOk db) {r : RequestRow} (hr : r ∈ db.requests)
    (hp : r.status = .pending)
    (h : ∃ r' ∈ db'.requests, r'.id = r.id ∧ r'.isPending = false) : db' ≠ db := by
  rintro rfl
  obtain ⟨r', hr', hid, hp'⟩ := h
  obtain rfl := List.inj_on_of_nodup_map hs.requestKeys hr' hr hid
  simp [RequestRow.isPending, hp] at hp'

/-- The checks of `accept_request` and `reject_request`. -/
theorem changes_settle (db : Db) {identity : Option UserId} {requestId : Int}
    (hc : c = .acceptRequest identity requestId ∨ c = .rejectRequest identity requestId) :
    c.changes db ↔ ∃ v, identity = some v ∧ db.userExists v = true ∧ 0 < requestId ∧
      ∃ r, db.request requestId = some r ∧
        Party.recipient.of r.sender r.recipient = v ∧ r.status = .pending := by
  have hawaits : ∀ v, db.awaits v requestId = true ↔ ∃ r, db.request requestId = some r ∧
      Party.recipient.of r.sender r.recipient = v ∧ r.status = .pending := by
    intro v
    simp [Db.awaits, Option.any_eq_true, Party.of, RequestRow.isPending]
  cases identity with
  | none => rcases hc with rfl | rfl <;> simp [Call.changes]
  | some v =>
      have hsome : c.changes db ↔ db.userExists v = true ∧ 0 < requestId ∧
          db.awaits v requestId = true := by rcases hc with rfl | rfl <;> exact Iff.rfl
      rw [hsome, hawaits]
      constructor
      · intro h
        exact ⟨v, rfl, h⟩
      · rintro ⟨v', hv, h⟩
        obtain rfl := Option.some.inj hv
        exact h

theorem ends_rejectRequest (env : Env) (identity : Option UserId) (requestId : Int)
    (hfailed : failed.isOk = false) (hs : SchemaOk σ.db) :
    Ends (Traceless (.rejectRequest identity requestId) fails σ) failed fails now
      (rejectRequest env identity requestId) 0 none σ := by
  have early : ∀ {m : Nat} {σ' : State}, m < 7 → σ'.db = σ.db → FirstFailure fails m →
      Traceless (.rejectRequest identity requestId) fails σ (σ', failed) :=
    fun hm hdb hf => traceless_failure
      (fun h => absurd (Option.some.inj h) (Nat.ne_of_gt hm)) hdb hf
  have hchanges := changes_settle (c := .rejectRequest identity requestId) σ.db (.inr rfl)
  refine ends_withPendingRequest (fun m hm h => absurd (Option.some.inj h) (by omega))
    hchanges.mp fun r hv hu hpos hreq hst => ?_
  have hmem : r ∈ Db.requests σ.db := List.mem_of_find?_eq_some hreq
  obtain rfl : r.id = requestId := by simpa using List.find?_some hreq
  obtain ⟨ws, heval, hrows, hsettled⟩ :=
    eval_setStatus_settles hmem (show RequestStatus.rejected ≠ .pending by decide) now σ.seq
  refine .exec heval (early (by decide) rfl) (.commit (early (by decide) rfl) ?_)
  refine ends_readBack rfl hfailed (hchanges.mpr ⟨_, hv, hu, hpos, r, hreq, rfl, hst⟩)
    (ne_of_settled hs hmem hst hsettled) (hrows.requestView hs hmem) fun view => ?_
  exact .emit (.emit (.done fun hn => traceless_ok rfl
    (not_losesReply_of_none (c := .rejectRequest identity r.id) rfl (by decide) hn)))

/-- The `INSERT` of a friendship between existing users is not rejected, and leaves
the requests alone. -/
theorem eval_insertFriendship {db : Db} {a b : UserId} (hne : a ≠ b)
    (ha : db.userExists a = true) (hb : db.userExists b = true) (now seq : Nat) :
    ∃ ws, eval (.insertFriendship a b) now seq db = some ((), ws) ∧
      Restatus db (engine.applyAll ws db) := by
  by_cases hf : db.areFriends a b = true
  · exact ⟨[], by simp [eval, hne, hf], .of_requests rfl rfl⟩
  · exact ⟨_, by simp [eval, hne, hf, ha, hb]; rfl, .of_requests rfl rfl⟩

theorem eval_cancelOthers_rows (db : Db) (id : RequestId) (a b : UserId) (now seq : Nat) :
    ∃ ws, eval (.cancelOthers id a b) now seq db = some ((), ws) ∧
      Restatus db (engine.applyAll ws db) :=
  ⟨_, rfl, .settleRows _ (by decide) now db⟩

theorem ends_acceptRequest (env : Env) (identity : Option UserId) (requestId : Int)
    (hfailed : failed.isOk = false) (hs : SchemaOk σ.db) :
    Ends (Traceless (.acceptRequest identity requestId) fails σ) failed fails now
      (acceptRequest env identity requestId) 0 none σ := by
  have early : ∀ {m : Nat} {σ' : State}, m < 9 → σ'.db = σ.db → FirstFailure fails m →
      Traceless (.acceptRequest identity requestId) fails σ (σ', failed) :=
    fun hm hdb hf => traceless_failure
      (fun h => absurd (Option.some.inj h) (Nat.ne_of_gt hm)) hdb hf
  have hchanges := changes_settle (c := .acceptRequest identity requestId) σ.db (.inl rfl)
  refine ends_withPendingRequest (fun m hm h => absurd (Option.some.inj h) (by omega))
    hchanges.mp fun r hv hu hpos hreq hst => ?_
  have hmem : r ∈ Db.requests σ.db := List.mem_of_find?_eq_some hreq
  obtain rfl : r.id = requestId := by simpa using List.find?_some hreq
  obtain ⟨hne, hsender, hrecipient⟩ := hs.requestParties r hmem
  -- the friendship, then the two updates
  obtain ⟨ws₁, heval₁, hrows₁⟩ :=
    eval_insertFriendship (Ne.symm hne) hrecipient hsender now σ.seq
  obtain ⟨r₁, hr₁, hid₁, -⟩ := hrows₁.mem hmem
  obtain ⟨ws₂, heval₂, hrows₂, r₂, hr₂, hid₂, hp₂⟩ :=
    eval_setStatus_settles hr₁ (show RequestStatus.accepted ≠ .pending by decide) now σ.seq
  rw [hid₁] at heval₂ hid₂
  obtain ⟨ws₃, heval₃, hrows₃⟩ := eval_cancelOthers_rows
    (engine.applyAll (ws₁ ++ ws₂) σ.db) r.id r.recipient r.sender now σ.seq
  refine .exec heval₁ (early (by decide) rfl) (.exec heval₂ (early (by decide) rfl)
    (.exec heval₃ (early (by decide) rfl) (.commit (early (by decide) rfl) ?_)))
  have hdb : engine.applyAll (ws₁ ++ ws₂ ++ ws₃) σ.db =
      engine.applyAll ws₃ (engine.applyAll ws₂ (engine.applyAll ws₁ σ.db)) := by
    rw [engine.applyAll_append, engine.applyAll_append]
  rw [engine.applyAll_append] at hrows₃
  refine ends_readBack rfl hfailed (hchanges.mpr ⟨_, hv, hu, hpos, r, hreq, rfl, hst⟩) ?_ ?_
    fun view => ?_
  · obtain ⟨r₃, hr₃, hid₃, hp₃⟩ := hrows₃.mem hr₂
    refine ne_of_settled hs hmem hst ⟨r₃, ?_, hid₃.trans hid₂, hp₃ hp₂⟩
    rw [← hdb] at hr₃
    exact hr₃
  · have hview := ((hrows₁.trans hrows₂).trans hrows₃).requestView hs hmem
    rw [← hdb] at hview
    exact hview
  · exact .emit (.emit (.emit (.emit (.done fun hn => traceless_ok rfl
      (not_losesReply_of_none (c := .acceptRequest identity r.id) rfl (by decide) hn)))))

/-! ### The calls that read nothing back -/

theorem not_losesReply (hc : c.readBack = none) : ¬ LosesReply c fails σ.db := by
  rintro ⟨n, hn, -⟩
  rw [hc] at hn
  cases hn

theorem ends_cancelRequest (identity : Option UserId) (requestId : Int) :
    Ends (Traceless (.cancelRequest identity requestId) fails σ) failed fails now
      (cancelRequest identity requestId) 0 none σ := by
  have hn : ¬ LosesReply (.cancelRequest identity requestId) fails σ.db := not_losesReply rfl
  refine ends_withPendingRequest (fun _ _ h => by cases h) (fun h => h.elim)
    fun r hv hu hpos hreq hst => ?_
  refine .exec rfl (fun _ => traceless_unchanged rfl hn)
    (.commit (fun _ => traceless_unchanged rfl hn) ?_)
  exact .emit (.emit (.done fun _ => traceless_ok rfl hn))

theorem ends_removeFriend (identity : Option UserId) (friendId : Int) :
    Ends (Traceless (.removeFriend identity friendId) fails σ) failed fails now
      (removeFriend identity friendId) 0 none σ := by
  have hn : ¬ LosesReply (.removeFriend identity friendId) fails σ.db := not_losesReply rfl
  refine ends_requireViewer (fun _ => traceless_unchanged rfl hn)
    (fun _ => traceless_unchanged rfl hn) fun v hv hu => ?_
  cases positiveId friendId "userId" with
  | error e => exact .done fun _ => traceless_unchanged rfl hn
  | ok friend =>
      simp only [orFail]
      split
      · exact .done fun _ => traceless_unchanged rfl hn
      refine .begin (fun _ => traceless_unchanged rfl hn)
        (.lock (fun _ => traceless_unchanged rfl hn) ?_)
      refine .exec rfl (fun _ => traceless_unchanged rfl hn)
        (.commit (fun _ => traceless_unchanged rfl hn) ?_)
      exact .emit (.emit (.done fun _ => traceless_ok rfl hn))

theorem ends_blockUser (identity : Option UserId) (userId : Int) :
    Ends (Traceless (.blockUser identity userId) fails σ) failed fails now
      (blockUser identity userId) 0 none σ := by
  have hn : ¬ LosesReply (.blockUser identity userId) fails σ.db := not_losesReply rfl
  refine ends_requireViewer (fun _ => traceless_unchanged rfl hn)
    (fun _ => traceless_unchanged rfl hn) fun v hv hu => ?_
  cases positiveId userId "userId" with
  | error e => exact .done fun _ => traceless_unchanged rfl hn
  | ok target =>
      simp only [orFail]
      split
      · exact .done fun _ => traceless_unchanged rfl hn
      refine .query_read (fun db => Db.loadUser db target) (fun _ _ _ => rfl) rfl
        (fun _ => traceless_unchanged rfl hn) ?_
      split
      · exact .done fun _ => traceless_unchanged rfl hn
      refine .begin (fun _ => traceless_unchanged rfl hn)
        (.lock (fun _ => traceless_unchanged rfl hn) ?_)
      cases heval : eval (.insertBlock v target) now σ.seq σ.db with
      | none => exact .exec_rejected heval (traceless_unchanged rfl hn)
      | some res =>
          refine .exec heval (fun _ => traceless_unchanged rfl hn) (.exec rfl
            (fun _ => traceless_unchanged rfl hn)
              (.commit (fun _ => traceless_unchanged rfl hn) ?_))
          exact .emit (.emit (.done fun _ => traceless_ok rfl hn))

end Handlers

/-! ### Every relationship call -/

/-- **Failed writes leave no trace, unless the reply is lost.** Whatever the state,
the caller, the arguments and the database calls that fail, an error of a
relationship handler means that the tables are as before, if and only if the
first failing call is not the one that reads a committed change back. -/
theorem failed_write_traceless (env : Env) (c : Call) (hc : c.transactional = true) (σ : State)
    (hs : SchemaOk σ.db) (fails : Nat → Bool) (now : Nat) :
    ((((c.code env).solo c.failed fails now 0 none σ).2.isOk = false →
      ((c.code env).solo c.failed fails now 0 none σ).1.db = σ.db) ↔
        ¬ LosesReply c fails σ.db) := by
  have hends : Ends (Traceless c fails σ) c.failed fails now (c.code env) 0 none σ := by
    cases c with
    | createRequest v rid msg => exact ends_createRequest env v rid msg rfl hs
    | acceptRequest v id => exact ends_acceptRequest env v id rfl hs
    | rejectRequest v id => exact ends_rejectRequest env v id rfl hs
    | cancelRequest v id => exact ends_cancelRequest v id
    | removeFriend v u => exact ends_removeFriend v u
    | blockUser v u => exact ends_blockUser v u
    | _ => cases hc
  exact hends (noneBefore_zero fails)

/-- A lone call is served: some run of the server with this call only ends in its
outcome. -/
theorem served_alone (env : Env) (c : Call) {db : Db} {seq : Nat} (hdb : Consistent ⟨seq, db⟩)
    (fails : Nat → Bool) (now : Nat) :
    Finished (config 1 true fun _ : Unit => c) (server env db seq now fun _ => c) ()
      ((c.code env).solo c.failed fails now 0 none ⟨seq, db⟩) :=
  solo_run_idle (.inl rfl) (serverInv_of_consistent hdb (.refl _)) (fun _ _ h => by cases h) rfl
    Nat.one_pos

/-- 1 asks 2 to be friends, and the read after the commit fails. -/
def lostCall : Call := .createRequest (some 1) (some 2) none

def eleventhFails (n : Nat) : Bool := n == 11

def lostStart : State := ⟨0, freshDb demoUsers []⟩

theorem failed_write_traceless_lost :
    ((((lostCall.code demoEnv).solo lostCall.failed eleventhFails 0 0 none lostStart).2.isOk =
        false →
      ((lostCall.code demoEnv).solo lostCall.failed eleventhFails 0 0 none lostStart).1.db =
        lostStart.db) ↔ ¬ LosesReply lostCall eleventhFails lostStart.db) :=
  failed_write_traceless demoEnv lostCall rfl lostStart (freshDb_consistent demoUsers [] 0).schema
    eleventhFails 0

/-- An error is answered, and the request is there. -/
theorem failed_write_leaves_request : ¬ ∀ (c : Call) (σ : State) (fails : Nat → Bool) (now : Nat),
    c.transactional = true → SchemaOk σ.db →
      ((c.code demoEnv).solo c.failed fails now 0 none σ).2.isOk = false →
        ((c.code demoEnv).solo c.failed fails now 0 none σ).1.db = σ.db := by
  intro hclaim
  have hdb := hclaim lostCall lostStart eleventhFails 0 rfl
    (freshDb_consistent demoUsers [] 0).schema (by decide)
  have hlen : ((lostCall.code demoEnv).solo lostCall.failed eleventhFails 0 0 none
      lostStart).1.db.requests.length = 1 := by decide
  rw [hdb] at hlen
  cases hlen

end DevbitBackend.Social
