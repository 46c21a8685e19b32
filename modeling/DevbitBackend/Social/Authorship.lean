import DevbitBackend.Lib.TxnWrites
import DevbitBackend.Social.Contracts

/-!
# Social.Authorship

What a call of the social handlers can write, row by row (`Call.Asks`): a row that it
inserts is one that its payload asks for, on behalf of the user whose token it carries, and
it deletes no rows but those. The handlers look the ids of the caller and of the other user
up before they use them, so the proof follows what those statements answer (`Call.writes`).
-/

namespace DevbitBackend.Social

open Txn

/-- The write is one that the call asks for. -/
def Call.Asks (c : Call) : Write → Prop
  | .insertRequest r => ∃ message, c = .createRequest (some r.sender) (some r.recipient) message ∧
      validateOptionalMessage message maxFriendRequestMessageChars = .ok r.message ∧
      r.status = .pending
  | .setStatus ids st _ => ∃ v,
      (∃ id, (∀ k ∈ ids, k = id) ∧ (c = .acceptRequest (some v) id ∧ st = .accepted ∨
        c = .rejectRequest (some v) id ∧ st = .rejected ∨
        c = .cancelRequest (some v) id ∧ st = .cancelled)) ∨
      st = .cancelled ∧ ((∃ id, c = .acceptRequest (some v) id) ∨ ∃ t, c = .blockUser (some v) t)
  | .insertFriendship f => ∃ v id t, c = .acceptRequest (some v) id ∧ f.isOf v t = true
  | .deleteFriendship low high => ∃ v t, c = .removeFriend (some v) t ∧
      low = min v t ∧ high = max v t
  | .insertBlock k => c = .blockUser (some k.user) k.blocked
  | .deleteBlock u b => c = .unblockUser (some u) b
  | .insertMessage m => ∃ content, c = .sendMessage (some m.sender) m.recipient content ∧
      validateContent content maxMessageChars = some m.content ∧ m.isRead = false
  | .setPreferences p => p.wellFormed = true ∧ ∃ messagePolicy friendRequestPolicy,
      c = .updatePreferences (some p.user) messagePolicy friendRequestPolicy

/-- The code writes nothing but what `W` allows. -/
abbrev Writing (W : Write → Prop) (p : Code) : Prop := Prog.Writes (E := engine) W p

variable {env : Env} {identity : Option UserId} {W : Write → Prop} {c : Call}

/-! ### The parts of the handlers -/

theorem writes_requireViewer {k : UserId → Code}
    (hk : ∀ v, identity = some v → Writing W (k v)) : Writing W (requireViewer identity k) := by
  cases identity with
  | none => exact .done
  | some v =>
      exact .query_read (fun db => Db.userExists db v) (fun _ _ _ => rfl) fun db =>
        .ite .done (hk v rfl)

theorem writes_orFail {β : Type} {r : Except SocialError β} {k : β → Code}
    (hk : ∀ b, r = .ok b → Writing W (k b)) : Writing W (orFail r k) := by
  cases r with
  | error e => exact .done
  | ok b => exact hk b rfl

/-- A call about another user. -/
theorem writes_viewerAndOther {id : Int} {field text : String} {k : UserId → UserId → Code}
    (hk : ∀ v, identity = some v → Writing W (k v id)) :
    Writing W (requireViewer identity fun v => orFail (positiveId id field) fun t =>
      if t = v then fail (.validation field text) else k v t) := by
  refine writes_requireViewer fun v hv => writes_orFail fun t ht => ?_
  rw [positiveId_ok ht]
  exact .ite .done (hk v hv)

theorem writes_currentFriendRequestView {id : RequestId} {k : FriendRequest → Code}
    (hk : ∀ view, Writing W (k view)) : Writing W (currentFriendRequestView env id k) := by
  refine .query_read (fun db => Db.requestView db id) (fun _ _ _ => rfl) fun db => ?_
  cases Db.requestView db id with
  | none => exact .done
  | some row => exact hk _

/-- The user that is found is the one that was looked up. -/
theorem writes_getCurrentUser {id : UserId} {k : ForumUser → Code}
    (hk : ∀ user, user.id = id → Writing W (k user)) : Writing W (getCurrentUser env id k) := by
  refine .query_read (fun db => Db.loadUser db id) (fun _ _ _ => rfl) fun db => ?_
  cases hrow : Db.loadUser db id with
  | none => exact .done
  | some row =>
      have hid : row.id = id := by simpa [Db.loadUser] using List.find?_some hrow
      exact hk _ hid

theorem writes_messagePermission {sender recipient : UserId} {k : MessagePermission → Code}
    (hk : ∀ permission, Writing W (k permission)) :
    Writing W (messagePermission sender recipient k) :=
  .ite (hk _) (.query_read (fun db => Db.permissionRow db sender recipient) (fun _ _ _ => rfl)
    fun _ => hk _)

/-- The request that is settled is the one of the payload. -/
theorem writes_withPendingRequest {requestId : Int} {party : Party} {refusal : String}
    {k : UserId → RequestId → UserId → UserId → Code}
    (hk : ∀ v sender recipient, identity = some v → Writing W (k v requestId sender recipient)) :
    Writing W (withPendingRequest identity requestId party refusal k) := by
  refine writes_requireViewer fun v hv => writes_orFail fun id hid => ?_
  have hrequest : id = requestId := by
    unfold validatePositiveI64 at hid
    split at hid
    · cases hid
    · exact (Except.ok.inj hid).symm
  subst hrequest
  refine .begin (.exec_read
    (fun db => (Db.request db id).map fun r => (r.sender, r.recipient)) (fun _ _ _ => rfl)
    fun db => ?_)
  cases (Db.request db id).map fun r => (r.sender, r.recipient) with
  | none => exact .done
  | some pair =>
  refine .lock (.exec_read
    (fun db => (Db.request db id).map fun r => (r.sender, r.recipient, r.status))
    (fun _ _ _ => rfl) fun db => ?_)
  cases (Db.request db id).map fun r => (r.sender, r.recipient, r.status) with
  | none => exact .done
  | some row => exact .ite .done (.ite .done (hk v _ _ hv))

/-- An `UPDATE` of requests: the call has to be one that may settle these. -/
theorem writes_settle {st : Stmt} {k : st.Result → Code} {status : RequestStatus}
    (rows : Db → List RequestRow)
    (heval : ∀ now seq db r ws, eval st now seq db = some (r, ws) →
      ws = settleRows (rows db) status now)
    (hW : ∀ db now, W (.setStatus ((rows db).map (·.id)) status now))
    (hk : ∀ r, Writing W (k r)) : Writing W (exec st k) := by
  refine .exec (fun r ws hy w hw => ?_) fun r _ _ => hk r
  obtain ⟨now, seq, db, he⟩ := hy
  rw [heval now seq db r ws he, settleRows] at hw
  split at hw
  · cases hw
  · rw [List.mem_singleton.mp hw]
    exact hW db now

/-- An `UPDATE` of the request with the key `id`. -/
theorem writes_setStatus {id : RequestId} {status : RequestStatus} {k : Unit → Code}
    (hW : ∀ ids now, (∀ key ∈ ids, key = id) → W (.setStatus ids status now))
    (hk : ∀ r, Writing W (k r)) : Writing W (exec (.setStatus id status) k) := by
  refine writes_settle (fun db => db.requests.filter (·.id == id)) (fun now seq db r ws he => ?_)
    (fun db now => hW _ now ?_) hk
  · cases he
    rfl
  · refine List.forall_mem_map.mpr fun r hr => ?_
    exact eq_of_beq (List.mem_filter.mp hr).2

/-! ### The handlers -/

theorem writes_createRequest {recipientId : Option Int} {message : Option String} :
    Writing (Call.createRequest identity recipientId message).Asks
      (createRequest env identity recipientId message) := by
  refine writes_requireViewer fun v hv => writes_orFail fun t ht => ?_
  have hrecipient : recipientId = some t := by
    cases recipientId with
    | none => cases ht
    | some id => rw [positiveId_ok ht, Option.getD_some]
  refine .ite .done (writes_orFail fun text htext => ?_)
  refine .begin (.lock ?_)
  refine .exec_read (fun db => Db.userExists db t) (fun _ _ _ => rfl) fun _ => .ite .done ?_
  refine .exec_read (fun db => Db.blockExists db v t) (fun _ _ _ => rfl) fun _ => .ite .done ?_
  refine .exec_read (fun db => (Db.preferencesOf db t).map (·.friendRequestPolicy))
    (fun _ _ _ => rfl) fun _ => .ite .done ?_
  refine .exec_read (fun db => Db.areFriends db v t) (fun _ _ _ => rfl) fun _ => .ite .done ?_
  refine .exec_read (fun db => (Db.pendingFrom db v t).map (·.id)) (fun _ _ _ => rfl)
    fun db => ?_
  cases (Db.pendingFrom db v t).map (·.id) with
  | some id => exact .commit (writes_currentFriendRequestView fun _ => .done)
  | none =>
  refine .exec_read (fun db => (Db.pendingFrom db t v).isSome) (fun _ _ _ => rfl) fun _ => ?_
  refine .ite .done (.exec (fun inserted ws hy => ?_) fun inserted _ _ => ?_)
  -- the `INSERT` is the only write, and it takes the parties and the text of the call
  · obtain ⟨now, seq, db, he⟩ := hy
    simp only [eval] at he
    split at he
    · cases he
    split at he
    · cases he
      simp
    split at he
    · cases he
      refine List.forall_mem_singleton.mpr ⟨message, ?_, htext, rfl⟩
      rw [hv, hrecipient]
    · cases he
  -- whether or not the `INSERT` met a conflict, what is left only reads
  cases inserted with
  | some id => exact .commit (.emit (writes_currentFriendRequestView fun _ => .done))
  | none =>
  refine .exec_read (fun db => (Db.pendingFrom db v t).map (·.id)) (fun _ _ _ => rfl)
    fun db => ?_
  cases (Db.pendingFrom db v t).map (·.id) with
  | some id => exact .commit (.emit (writes_currentFriendRequestView fun _ => .done))
  | none => exact .done

theorem writes_acceptRequest {requestId : Int} :
    Writing (Call.acceptRequest identity requestId).Asks
      (acceptRequest env identity requestId) := by
  refine writes_withPendingRequest fun v sender recipient hv => ?_
  subst hv
  -- the friendship, the accepted row and the cancelled ones, in this order
  refine .exec (fun r ws hy => ?_) fun _ _ _ => ?_
  · obtain ⟨now, seq, db, he⟩ := hy
    simp only [eval] at he
    split at he
    · cases he
    split at he
    · cases he
      simp
    split at he
    · cases he
      exact List.forall_mem_singleton.mpr ⟨v, requestId, sender, rfl, by simp [FriendshipRow.isOf]⟩
    · cases he
  refine writes_setStatus (fun ids now hids => ⟨v, .inl ⟨requestId, hids, .inl ⟨rfl, rfl⟩⟩⟩)
    fun _ => ?_
  refine writes_settle (fun db => db.otherPending requestId v sender) (fun now seq db r ws he => ?_)
    (fun db now => ⟨v, .inr ⟨rfl, .inl ⟨requestId, rfl⟩⟩⟩) fun _ => ?_
  · cases he
    rfl
  · exact .commit (writes_currentFriendRequestView fun _ =>
      .emit (.emit (.emit (.emit .done))))

theorem writes_rejectRequest {requestId : Int} :
    Writing (Call.rejectRequest identity requestId).Asks
      (rejectRequest env identity requestId) := by
  refine writes_withPendingRequest fun v sender recipient hv => ?_
  subst hv
  refine writes_setStatus
    (fun ids now hids => ⟨v, .inl ⟨requestId, hids, .inr (.inl ⟨rfl, rfl⟩)⟩⟩) fun _ => ?_
  exact .commit (writes_currentFriendRequestView fun _ => .emit (.emit .done))

theorem writes_cancelRequest {requestId : Int} :
    Writing (Call.cancelRequest identity requestId).Asks (cancelRequest identity requestId) := by
  refine writes_withPendingRequest fun v sender recipient hv => ?_
  subst hv
  refine writes_setStatus
    (fun ids now hids => ⟨v, .inl ⟨requestId, hids, .inr (.inr ⟨rfl, rfl⟩)⟩⟩) fun _ => ?_
  exact .commit (.emit (.emit .done))

theorem writes_removeFriend {friendId : Int} :
    Writing (Call.removeFriend identity friendId).Asks (removeFriend identity friendId) := by
  refine writes_viewerAndOther fun v hv => ?_
  refine .begin (.lock (.exec (fun r ws hy => ?_) fun _ _ _ => .commit (.emit (.emit .done))))
  obtain ⟨now, seq, db, he⟩ := hy
  cases he
  split
  · exact List.forall_mem_singleton.mpr ⟨v, friendId, by rw [hv], rfl, rfl⟩
  · simp

theorem writes_blockUser {userId : Int} :
    Writing (Call.blockUser identity userId).Asks (blockUser identity userId) := by
  refine writes_viewerAndOther fun v hv => ?_
  subst hv
  refine .query_read (fun db => Db.loadUser db userId) (fun _ _ _ => rfl) fun db => ?_
  refine .ite .done (.begin (.lock (.exec (fun r ws hy => ?_) fun _ _ _ => ?_)))
  · obtain ⟨now, seq, db, he⟩ := hy
    simp only [eval] at he
    split at he
    · cases he
    split at he
    · cases he
      simp
    split at he
    · cases he
      exact List.forall_mem_singleton.mpr rfl
    · cases he
  · refine writes_settle (fun db => db.pendingBetween v userId) (fun now seq db r ws he => ?_)
      (fun db now => ⟨v, .inr ⟨rfl, .inr ⟨userId, rfl⟩⟩⟩)
      fun _ => .commit (.emit (.emit .done))
    cases he
    rfl

theorem writes_unblockUser {userId : Int} :
    Writing (Call.unblockUser identity userId).Asks (unblockUser identity userId) := by
  refine writes_viewerAndOther fun v hv => ?_
  refine .query (fun r ws hy => ?_) fun _ _ _ => .emit (.emit .done)
  obtain ⟨now, seq, db, he⟩ := hy
  cases he
  split
  · exact List.forall_mem_singleton.mpr (congrArg (Call.unblockUser · userId) hv)
  · simp

theorem writes_updatePreferences {messagePolicy friendRequestPolicy : Option String} :
    Writing (Call.updatePreferences identity messagePolicy friendRequestPolicy).Asks
      (updatePreferences identity messagePolicy friendRequestPolicy) := by
  refine writes_requireViewer fun v hv => ?_
  refine .ite .done (.ite .done ?_)
  refine .query (fun r ws hy => ?_) fun _ _ _ => .done
  obtain ⟨now, seq, db, he⟩ := hy
  simp only [eval] at he
  split at he
  · rename_i hok
    cases he
    exact List.forall_mem_singleton.mpr
      ⟨(Bool.and_eq_true_iff.mp hok).2, messagePolicy, friendRequestPolicy, by rw [hv]⟩
  · cases he

theorem writes_sendMessage {recipientId : Int} {content : String} :
    Writing (Call.sendMessage identity recipientId content).Asks
      (sendMessage env identity recipientId content) := by
  cases identity with
  | none => exact .done
  | some id =>
  unfold sendMessage
  generalize htext : validateContent content maxMessageChars = checked
  refine writes_getCurrentUser fun sender hsender => ?_
  refine .ite .done ?_
  cases checked with
  | none => exact .done
  | some text =>
  refine writes_getCurrentUser fun recipient _ => writes_messagePermission fun permission => ?_
  refine .ite .done (.query (fun row ws hy => ?_) fun _ _ _ => .emit (.emit (.emit .done)))
  obtain ⟨now, seq, db, he⟩ := hy
  simp only [eval] at he
  split at he
  · cases he
    exact List.forall_mem_singleton.mpr ⟨content, by rw [hsender], htext, rfl⟩
  · cases he

/-- **A call writes nothing but what it asks for.** -/
theorem Call.writes (env : Env) (c : Call) : Writing c.Asks (c.code env) := by
  cases c with
  | createRequest v r m => exact writes_createRequest
  | acceptRequest v id => exact writes_acceptRequest
  | rejectRequest v id => exact writes_rejectRequest
  | cancelRequest v id => exact writes_cancelRequest
  | removeFriend v u => exact writes_removeFriend
  | blockUser v u => exact writes_blockUser
  | unblockUser v u => exact writes_unblockUser
  | updatePreferences v m f => exact writes_updatePreferences
  | sendMessage v u t => exact writes_sendMessage

end DevbitBackend.Social
