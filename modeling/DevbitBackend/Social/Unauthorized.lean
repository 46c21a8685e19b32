import DevbitBackend.Lib.TxnAnswers
import DevbitBackend.Social.Cursors
import DevbitBackend.Social.Repeats
import DevbitBackend.Ws.Snapshot

/-!
# Social.Unauthorized

Who is answered 401 by the social handlers. Behind `require_viewer` none of them has a
401 in its text (`Prog.Answers`), except that `send_message` looks its recipient up with
the helper for the caller (`ends_sendMessage_judged`). The handlers that only read are
evaluated on one state of the tables.
-/

namespace DevbitBackend.Social

open Txn

/-- The answer has status 401. -/
def Answer.unauthorized : Answer → Bool
  | .error e => e.status == 401
  | .failure status => status == 401
  | _ => false

/-- There is no valid token, or its user does not exist. -/
def Db.Unauthenticated (db : Db) (identity : Option UserId) : Prop :=
  ∀ v, identity = some v → db.userExists v = false

/-- The answer is not about the caller. -/
abbrev Authorized (a : Answer) : Prop := a.unauthorized = false

section Handlers

variable {failed : Answer} {fails : Nat → Bool} {now n : Nat} {σ : State} {env : Env}

/-- A 401 is about the caller. -/
abbrev Judged (identity : Option UserId) (σ : State) (out : State × Answer) : Prop :=
  out.2.unauthorized = true → Db.Unauthenticated σ.db identity

theorem judged_of_authorized {identity : Option UserId} {out : State × Answer}
    (h : Authorized out.2) : Judged identity σ out := fun hout => by
  rw [h] at hout
  cases hout

/-- Behind `require_viewer` the text of the handler decides. -/
theorem ends_viewer {identity : Option UserId} {k : UserId → Code} (hfailed : Authorized failed)
    (hk : ∀ v, (k v).Answers Authorized) :
    Ends (Judged identity σ) failed fails now (requireViewer identity k) n none σ := by
  refine ends_requireViewer (fun _ => judged_of_authorized hfailed) (fun hno _ => hno) ?_
  intro v _ _ hn
  exact judged_of_authorized ((hk v).solo hfailed)

theorem answers_fail {e : SocialError} (h : e.status ≠ 401) : (fail e).Answers Authorized :=
  .done (beq_eq_false_iff_ne.mpr h)

theorem answers_orFail {β : Type} {r : Except SocialError β} {k : β → Code}
    (hr : ∀ e, r = .error e → e.status ≠ 401) (hk : ∀ b, (k b).Answers Authorized) :
    (orFail r k).Answers Authorized := by
  cases r with
  | error e => exact answers_fail (hr e rfl)
  | ok b => exact hk b

theorem validation_status (field message : String) :
    (SocialError.validation field message).status ≠ 401 :=
  show 422 ≠ 401 by decide

theorem forbidden_status (message : String) : (SocialError.forbidden message).status ≠ 401 :=
  show 403 ≠ 401 by decide

theorem positiveId_status {id : Int} {field : String} {e : SocialError}
    (h : positiveId id field = .error e) : e.status ≠ 401 := by
  unfold positiveId at h
  split at h
  · cases h
    exact validation_status _ _
  · cases h

theorem validatePositiveI64_status {id : Int} {field : String} {e : SocialError}
    (h : validatePositiveI64 id field = .error e) : e.status ≠ 401 := by
  unfold validatePositiveI64 at h
  split at h
  · cases h
    exact validation_status _ _
  · cases h

theorem validateOptionalMessage_status {value : Option String} {maxChars : Nat} {e : SocialError}
    (h : validateOptionalMessage value maxChars = .error e) : e.status ≠ 401 := by
  simp only [validateOptionalMessage] at h
  split at h
  · cases h
    exact validation_status _ _
  · cases h

theorem answers_currentFriendRequestView {id : RequestId} {k : FriendRequest → Code}
    (hk : ∀ view, (k view).Answers Authorized) :
    (currentFriendRequestView env id k).Answers Authorized := by
  refine .query fun row => ?_
  cases row with
  | none => exact answers_fail (by decide)
  | some row => exact hk _

/-- The handlers that settle a request: 401 comes from `require_viewer` only, before
anything is read of the request. -/
theorem ends_settling {identity : Option UserId} {requestId : Int} {party : Party}
    {refusal : String} {k : UserId → RequestId → UserId → UserId → Code}
    (hfailed : Authorized failed)
    (hk : ∀ viewer id sender recipient, (k viewer id sender recipient).Answers Authorized) :
    Ends (Judged identity σ) failed fails now
      (withPendingRequest identity requestId party refusal k) n none σ := by
  refine ends_viewer hfailed fun v => ?_
  refine answers_orFail (fun _ => validatePositiveI64_status) fun id => ?_
  refine .begin (.exec fun row => ?_)
  cases row with
  | none => exact answers_fail (by decide)
  | some pair =>
  refine .lock (.exec fun row => ?_)
  cases row with
  | none => exact answers_fail (by decide)
  | some row =>
      exact .ite (answers_fail (forbidden_status _)) (.ite (answers_fail (by decide)) (hk _ _ _ _))

theorem ends_createRequest_judged {identity : Option UserId} {recipientId : Option Int}
    {message : Option String} (hfailed : Authorized failed) :
    Ends (Judged identity σ) failed fails now (createRequest env identity recipientId message) n
      none σ := by
  refine ends_viewer hfailed fun v => ?_
  refine answers_orFail (fun _ => positiveId_status) fun recipient => ?_
  refine .ite (answers_fail (validation_status _ _)) ?_
  refine answers_orFail (fun _ => validateOptionalMessage_status) fun text => ?_
  -- none of the refusals after the viewer is loaded is a 401
  refine .begin (.lock (.exec fun found => .ite (answers_fail (by decide)) ?_))
  refine .exec fun blocked => .ite (answers_fail (forbidden_status _)) ?_
  refine .exec fun policy => .ite (answers_fail (forbidden_status _)) ?_
  refine .exec fun friends => .ite (answers_fail (by decide)) (.exec fun existing => ?_)
  cases existing with
  | some id => exact .commit (answers_currentFriendRequestView fun _ => .done rfl)
  | none =>
  refine .exec fun reverse => .ite (answers_fail (by decide)) (.exec fun inserted => ?_)
  have hcreated : ∀ id, Prog.Answers (E := engine) Authorized (.commit <|
      notify recipient "friend_request_received" (some id) (some v) <|
      currentFriendRequestView env id fun view => .done (.request 201 view)) := fun id =>
    .commit (.emit (answers_currentFriendRequestView fun _ => .done rfl))
  cases inserted with
  | some id => exact hcreated id
  | none =>
  refine .exec fun existing => ?_
  cases existing with
  | some id => exact hcreated id
  | none => exact answers_fail (by decide)

theorem ends_removeFriend_judged {identity : Option UserId} {friendId : Int}
    (hfailed : Authorized failed) :
    Ends (Judged identity σ) failed fails now (removeFriend identity friendId) n none σ := by
  refine ends_viewer hfailed fun v => ?_
  refine answers_orFail (fun _ => positiveId_status) fun friend => ?_
  refine .ite (answers_fail (validation_status _ _)) ?_
  exact .begin (.lock (.exec fun _ => .commit (.emit (.emit (.done rfl)))))

theorem ends_blockUser_judged {identity : Option UserId} {userId : Int}
    (hfailed : Authorized failed) :
    Ends (Judged identity σ) failed fails now (blockUser identity userId) n none σ := by
  refine ends_viewer hfailed fun v => ?_
  refine answers_orFail (fun _ => positiveId_status) fun target => ?_
  refine .ite (answers_fail (validation_status _ _)) (.query fun user => ?_)
  refine .ite (answers_fail (by decide)) (.begin (.lock (.exec fun _ => .exec fun _ => ?_)))
  exact .commit (.emit (.emit (.done rfl)))

theorem ends_unblockUser_judged {identity : Option UserId} {userId : Int}
    (hfailed : Authorized failed) :
    Ends (Judged identity σ) failed fails now (unblockUser identity userId) n none σ := by
  refine ends_viewer hfailed fun v => ?_
  refine answers_orFail (fun _ => positiveId_status) fun target => ?_
  refine .ite (answers_fail (validation_status _ _)) (.query fun _ => ?_)
  exact .emit (.emit (.done rfl))

theorem ends_updatePreferences_judged {identity : Option UserId}
    {messagePolicy friendRequestPolicy : Option String} (hfailed : Authorized failed) :
    Ends (Judged identity σ) failed fails now
      (updatePreferences identity messagePolicy friendRequestPolicy) n none σ := by
  refine ends_viewer hfailed fun v => ?_
  refine .ite (answers_fail (validation_status _ _)) ?_
  exact .ite (answers_fail (validation_status _ _)) (.query fun row => .done rfl)

/-- A message to a user that does not exist, from one that does. -/
def Db.StrandedMessage (db : Db) (identity : Option UserId) (recipientId : Int)
    (content : String) : Prop :=
  ∃ v, identity = some v ∧ db.userExists v = true ∧ recipientId ≠ v ∧
    (validateContent content maxMessageChars).isSome = true ∧ db.userExists recipientId = false

/-- `send_message` once both users are there. -/
theorem answers_deliver (sender recipient : ForumUser) (recipientId : Int) (content : String) :
    (messagePermission sender.id recipient.id fun permission =>
      if permission ≠ .allowed then .done (.failure 403) else
      query (.insertMessage sender.id recipientId content) fun (row : Int × Nat) =>
      send (.newMessage recipientId row.1 sender.id sender.name (messagePreview content)) <|
      notify recipient.id "conversation_changed" none (some sender.id) <|
      notify sender.id "conversation_changed" none (some recipient.id) <|
      .done (.message
        { id := row.1, sender := sender, recipient := recipient, content := content,
          createdAt := row.2, isRead := false })).Answers Authorized := by
  have hpermission : ∀ permission : MessagePermission,
      (if permission ≠ .allowed then .done (.failure 403) else
      query (.insertMessage sender.id recipientId content) fun (row : Int × Nat) =>
      send (.newMessage recipientId row.1 sender.id sender.name (messagePreview content)) <|
      notify recipient.id "conversation_changed" none (some sender.id) <|
      notify sender.id "conversation_changed" none (some recipient.id) <|
      .done (.message
        { id := row.1, sender := sender, recipient := recipient, content := content,
          createdAt := row.2, isRead := false }) : Code).Answers Authorized := fun permission =>
    .ite (.done rfl) (.query fun row => .emit (.emit (.emit (.done rfl))))
  exact .ite (hpermission _) (.query fun row => hpermission _)

/-- `get_current_user`, when no call fails. -/
theorem ends_loadedUser {Q : State × Answer → Prop} {id : UserId} {k : ForumUser → Code}
    (hnone : Db.userExists σ.db id = false → Q (σ, .failure 401))
    (hk : ∀ user, user.id = id → Db.userExists σ.db id = true →
      Ends Q failed noFailure now (k user) (n + 1) none σ) :
    Ends Q failed noFailure now (getCurrentUser env id k) n none σ := by
  refine .query_read (fun db => Db.loadUser db id) (fun _ _ _ => rfl) rfl not_firstFailure ?_
  have hexists := loadUser_isSome σ.db id
  cases hrow : Db.loadUser σ.db id with
  | none =>
      rw [hrow] at hexists
      exact .done fun _ => hnone hexists.symm
  | some row =>
      rw [hrow] at hexists
      obtain rfl : row.id = id := by simpa [Db.loadUser] using List.find?_some hrow
      exact hk _ rfl hexists.symm

/-- The 401 of `send_message` is about the caller, unless the message is stranded. -/
theorem ends_sendMessage_judged (identity : Option UserId) (recipientId : Int) (content : String) :
    Ends (fun out => Judged identity σ out ↔ ¬ Db.StrandedMessage σ.db identity recipientId content)
      (.failure 500) noFailure now (sendMessage env identity recipientId content) n none σ := by
  unfold sendMessage
  cases identity with
  | none =>
      refine .done fun _ => iff_of_true (fun _ v hv => nomatch hv) ?_
      rintro ⟨v, hv, -⟩
      cases hv
  | some id =>
  refine ends_loadedUser (fun hcaller => ?_) fun sender hsender hcaller => ?_
  · refine iff_of_true (fun _ v hv => Option.some.inj hv ▸ hcaller) ?_
    rintro ⟨v, hv, hexists, -⟩
    rw [← Option.some.inj hv, hcaller] at hexists
    cases hexists
  subst hsender
  -- from here on a 401 is not about the caller
  split
  · rename_i hself
    refine .done fun _ => iff_of_true (judged_of_authorized rfl) ?_
    rintro ⟨v, hv, -, hne, -⟩
    exact hne (hself.symm.trans (Option.some.inj hv))
  rename_i hne
  cases hbody : validateContent content maxMessageChars with
  | none =>
      refine .done fun _ => iff_of_true (judged_of_authorized rfl) ?_
      rintro ⟨-, -, -, -, hvalid, -⟩
      rw [hbody] at hvalid
      cases hvalid
  | some body =>
  refine ends_loadedUser (fun hmissing => ?_) fun recipient hrecipient hexists => ?_
  · refine iff_of_false (fun hjudged => ?_) (not_not_intro ?_)
    · have hnobody := hjudged rfl sender.id rfl
      rw [hcaller] at hnobody
      cases hnobody
    · exact ⟨sender.id, rfl, hcaller, Ne.symm hne, by rw [hbody]; rfl, hmissing⟩
  · have hdeliver := answers_deliver sender recipient recipientId body
    refine fun _ => iff_of_true (judged_of_authorized (hdeliver.solo rfl)) ?_
    rintro ⟨-, -, -, -, -, hmissing⟩
    rw [hexists] at hmissing
    cases hmissing

/-- Every other handler of the social part. -/
theorem judged_social (c : Call) (hc : ∀ v r m, c ≠ .sendMessage v r m) (identity : Option UserId)
    (hidentity : identity = (Forum.Call.social c).caller) :
    Ends (Judged identity σ) c.failed fails now (c.code env) 0 none σ := by
  subst hidentity
  cases c with
  | createRequest v r m => exact ends_createRequest_judged rfl
  | acceptRequest v id =>
      refine ends_settling rfl fun viewer id sender recipient => ?_
      refine .exec fun _ => .exec fun _ => .exec fun _ => .commit ?_
      exact answers_currentFriendRequestView fun view => .emit (.emit (.emit (.emit (.done rfl))))
  | rejectRequest v id =>
      refine ends_settling rfl fun viewer id sender recipient => .exec fun _ => .commit ?_
      exact answers_currentFriendRequestView fun view => .emit (.emit (.done rfl))
  | cancelRequest v id =>
      refine ends_settling rfl fun viewer id sender recipient => .exec fun _ => ?_
      exact .commit (.emit (.emit (.done rfl)))
  | removeFriend v u => exact ends_removeFriend_judged rfl
  | blockUser v u => exact ends_blockUser_judged rfl
  | unblockUser v u => exact ends_unblockUser_judged rfl
  | updatePreferences v m f => exact ends_updatePreferences_judged rfl
  | sendMessage v r m => exact absurd rfl (hc v r m)

end Handlers

/-! ### Reads -/

/-- `get_preferences`, for a caller that is signed in. -/
def getPreferences (db : Db) (viewer : UserId) : SocialPreferences :=
  match db.preferencesOf viewer with
  | some row =>
      { messagePolicy := .fromDb row.messagePolicy,
        friendRequestPolicy := .fromDb row.friendRequestPolicy }
  | none => { messagePolicy := .everyone, friendRequestPolicy := .everyone }

/-- A request to one of the handlers that only read. -/
inductive Read
  | searchUsers (q cursor : Option String) (limit : Option Nat)
  | getProfile (userId : Int)
  | friendFeed (cursor : Option String) (limit : Option Nat)
  | listFriends (q cursor : Option String) (limit : Option Nat)
  | listRequests (direction status cursor : Option String) (limit : Option Nat)
  | listBlocks (cursor : Option String) (limit : Option Nat)
  | getPreferences
  | presence (userIds : Option String)
  deriving DecidableEq, Repr

/-- What a read shows. -/
inductive Shown
  | users (page : SentPage SocialUser)
  | profile (p : SocialProfile)
  | posts (page : SentPage Forum.ForumPost)
  | friends (page : SentPage Friendship)
  | requests (page : SentPage FriendRequest)
  | preferences (p : SocialPreferences)
  /-- The registry is asked about these users. -/
  | presence (q : Ws.Query)

/-- The read behind `require_viewer`. -/
def Read.answer (codec : CursorCodec) (env : Env) (text : Forum.UserSearch) (db : Forum.Db)
    (viewer : UserId) : Read → Except Failed Shown
  | .searchUsers q cursor limit =>
      (Endpoint.searchUsers codec env text db.social viewer q cursor limit).map .users
  | .getProfile userId =>
      orRefuse (Social.getProfile env db viewer userId) fun p => .ok (.profile p)
  | .friendFeed cursor limit => (Endpoint.friendFeed codec env viewer db cursor limit).map .posts
  | .listFriends q cursor limit =>
      (Endpoint.listFriends codec env text db.social viewer q cursor limit).map .friends
  | .listRequests direction status cursor limit =>
      (Endpoint.listRequests codec env db.social viewer direction status cursor limit).map .requests
  | .listBlocks cursor limit =>
      (Endpoint.listBlocks codec env db.social viewer cursor limit).map .users
  | .getPreferences => .ok (.preferences (Social.getPreferences db.social viewer))
  | .presence userIds =>
      orRefuse (Ws.requestedIds userIds) fun _ =>
        .ok (.presence (Ws.presence db.social viewer userIds))

/-- The whole read. -/
def Read.serve (codec : CursorCodec) (env : Env) (text : Forum.UserSearch) (db : Forum.Db)
    (identity : Option UserId) (r : Read) : Except Failed Shown :=
  match identity with
  | none => .error (.error .unauthenticated)
  | some viewer =>
      if !db.social.userExists viewer then .error (.error .unauthenticated)
      else r.answer codec env text db viewer

/-- The answer has status 401. -/
def refused {β : Type} : Except Failed β → Bool
  | .error (.error e) => e.status == 401
  | _ => false

section Reads

variable {β γ : Type}

theorem refused_map {answer : Except Failed β} {f : β → γ} :
    refused (answer.map f) = refused answer := by
  cases answer with
  | error e => cases e <;> rfl
  | ok b => rfl

theorem refused_orRefuse {checked : Except SocialError β} {k : β → Except Failed γ}
    (hchecked : ∀ e, checked = .error e → e.status ≠ 401) (hk : ∀ b, refused (k b) = false) :
    refused (orRefuse checked k) = false := by
  cases checked with
  | error e => exact beq_eq_false_iff_ne.mpr (hchecked e rfl)
  | ok b => exact hk b

theorem refused_keysetPage {use : IdUse} {key : β → TimeCursor} {cursor : Option TimeCursor}
    {limit : Nat} {item : β → γ} {rows : List β} :
    refused (keysetPage use key cursor limit item rows) = false := by
  rw [keysetPage, refused_map]
  unfold keysetRows
  split
  · rfl
  dsimp only
  split
  · split <;> rfl
  · rfl

theorem decodeTimeCursor_status {codec : CursorCodec} {raw : Option String} {e : SocialError}
    (h : decodeTimeCursor codec raw = .error e) : e.status ≠ 401 := by
  rw [decodeTimeCursor_error h]
  decide

theorem decodeOffsetCursor_status {codec : CursorCodec} {raw : Option String} {e : SocialError}
    (h : decodeOffsetCursor codec raw = .error e) : e.status ≠ 401 := by
  rw [decodeOffsetCursor_error h]
  decide

theorem validateQuery_status {q : Option String} {e : SocialError}
    (h : validateQuery q = .error e) : e.status ≠ 401 := by
  obtain ⟨message, rfl⟩ := validateQuery_error h
  exact validation_status _ _

theorem refused_sendList {codec : CursorCodec} {raw : Option String}
    {list : Option TimeCursor → Except Failed (Page β)}
    (hlist : ∀ cursor, refused (list cursor) = false) :
    refused (sendList codec raw list) = false :=
  refused_orRefuse (fun _ => decodeTimeCursor_status) fun cursor => refused_map.trans (hlist cursor)

theorem checkDirection_status {direction : Option String} {e : SocialError}
    (h : checkDirection direction = .error e) : e.status ≠ 401 := by
  obtain ⟨message, rfl⟩ := checkDirection_error h
  exact validation_status _ _

theorem checkStatus_status {status : Option String} {e : SocialError}
    (h : checkStatus status = .error e) : e.status ≠ 401 := by
  obtain ⟨message, rfl⟩ := checkStatus_error h
  exact validation_status _ _

theorem searchUsers_status {env : Env} {text : Forum.UserSearch} {db : Db} {viewer : UserId}
    {q : Option String} {offset : Nat} {limit : Option Nat} {e : SocialError}
    (h : Social.searchUsers env text db viewer q offset limit = .error e) : e.status ≠ 401 := by
  rcases searchUsers_error h with hquery | rfl
  · exact validateQuery_status hquery
  · decide

theorem getProfile_status {env : Env} {db : Forum.Db} {viewer : UserId} {userId : Int}
    {e : SocialError} (h : Social.getProfile env db viewer userId = .error e) : e.status ≠ 401 := by
  unfold Social.getProfile at h
  split at h
  · rename_i hid
    cases h
    exact positiveId_status hid
  split at h
  · cases h
    decide
  · cases h

theorem presenceId_status {value : String} {e : SocialError}
    (h : Ws.presenceId value = .error e) : e.status ≠ 401 := by
  unfold Ws.presenceId at h
  split at h
  · cases h
  · cases h
    exact validation_status _ _

/-- The error of a `collect` is that of an element. -/
theorem exists_of_mapM_error {f : β → Except SocialError γ} {l : List β} {e : SocialError}
    (h : l.mapM f = .error e) : ∃ b ∈ l, f b = .error e := by
  induction l with
  | nil => cases h
  | cons b l ih =>
      rw [List.mapM_cons] at h
      cases hb : f b with
      | error e' =>
          rw [hb] at h
          cases h
          exact ⟨b, List.mem_cons_self, hb⟩
      | ok c =>
          rw [hb] at h
          cases hl : l.mapM f with
          | error e' =>
              rw [hl] at h
              cases h
              obtain ⟨b', hb', hf⟩ := ih hl
              exact ⟨b', List.mem_cons_of_mem b hb', hf⟩
          | ok cs =>
              rw [hl] at h
              cases h

theorem requestedIds_status {userIds : Option String} {e : SocialError}
    (h : Ws.requestedIds userIds = .error e) : e.status ≠ 401 := by
  unfold Ws.requestedIds at h
  dsimp only at h
  split at h
  · rename_i hmap
    cases h
    obtain ⟨value, -, hvalue⟩ := exists_of_mapM_error hmap
    exact presenceId_status hvalue
  split at h
  · cases h
    exact validation_status _ _
  · cases h

variable {codec : CursorCodec} {env : Env} {text : Forum.UserSearch} {db : Forum.Db}

/-- Behind `require_viewer` no read is refused. -/
theorem refused_answer (viewer : UserId) (r : Read) :
    refused (r.answer codec env text db viewer) = false := by
  cases r with
  | searchUsers q cursor limit =>
      rw [Read.answer, refused_map]
      refine refused_orRefuse (fun _ => validateQuery_status) fun _ => ?_
      refine refused_orRefuse (fun _ => decodeOffsetCursor_status) fun offset => ?_
      exact refused_orRefuse (fun _ => searchUsers_status) fun page => rfl
  | getProfile userId => exact refused_orRefuse (fun _ => getProfile_status) fun p => rfl
  | friendFeed cursor limit =>
      exact refused_map.trans (refused_sendList fun cursor => refused_keysetPage)
  | listFriends q cursor limit =>
      rw [Read.answer, refused_map]
      refine refused_orRefuse (fun _ => validateQuery_status) fun _ => ?_
      refine refused_sendList fun cursor => ?_
      unfold Social.listFriends
      split
      · rename_i hquery
        exact beq_eq_false_iff_ne.mpr (validateQuery_status hquery)
      -- a filter with NUL is an error of the database
      split
      · rfl
      · exact refused_keysetPage
  | listRequests direction status cursor limit =>
      refine refused_map.trans (refused_orRefuse (fun _ => checkDirection_status) fun _ => ?_)
      refine refused_orRefuse (fun _ => checkStatus_status) fun _ => ?_
      exact refused_sendList fun cursor => refused_keysetPage
  | listBlocks cursor limit =>
      exact refused_map.trans (refused_sendList fun cursor => refused_keysetPage)
  | getPreferences => rfl
  | presence userIds => exact refused_orRefuse (fun _ => requestedIds_status) fun _ => rfl

/-- A read that is refused is about its caller. -/
theorem unauthenticated_of_refused {identity : Option UserId} {r : Read}
    (h : refused (r.serve codec env text db identity) = true) :
    db.social.Unauthenticated identity := by
  intro v hv
  subst hv
  cases hexists : db.social.userExists v with
  | false => rfl
  | true =>
      have hserve : r.serve codec env text db (some v) = r.answer codec env text db v :=
        if_neg (by rw [hexists]; decide)
      rw [hserve, refused_answer v r] at h
      cases h

end Reads

end DevbitBackend.Social
