import DevbitBackend.Migrations.Columns
import DevbitBackend.Account.Contracts
import DevbitBackend.Forum.Unauthorized

/-!
# Forum.Storable

A text that a handler has accepted should never be refused by the database. The statements
name the columns they bind texts for (`Stmt.binds`). What is bound fits, and no handler
answers 500 for it, if and only if an accepted payload contains no NUL (`stored_iff`):
only the name of a user is checked for it.
-/

namespace DevbitBackend

open Txn

theorem fit_nil : Bindings.fit [] := by simp [Bindings.fit]

theorem fit_singleton {c : Column} {v : Option Value} :
    Bindings.fit [(c, v)] ↔ c.accepts v = true := by
  simp [Bindings.fit]

/-! ### Social handlers -/

namespace Social

/-- The texts a statement binds. -/
def Stmt.binds : Stmt → Bindings
  | .insertRequest _ _ message => [(requestMessage, some (.text message))]
  | .insertMessage _ _ content => [(messageContent, some (.text content))]
  | _ => []

/-- The answer has status 500. -/
def Answer.internal : Answer → Bool
  | .error e => e.status == 500
  | .failure status => status == 500
  | _ => false

/-- The texts of the statements fit their columns. -/
abbrev Fitting (p : Code) : Prop :=
  Prog.Issues (E := engine) (fun st : Stmt => st.binds.fit) p

variable {env : Env} {identity : Option UserId} {now n : Nat} {σ : State}

theorem fitting_viewer {k : UserId → Code} (hk : ∀ v, Fitting (k v)) :
    Fitting (requireViewer identity k) := by
  cases identity with
  | none => exact trivial
  | some v => exact ⟨fit_nil, fun found => .ite trivial (hk v)⟩

theorem fitting_currentFriendRequestView {id : RequestId} {k : FriendRequest → Code}
    (hk : ∀ view, Fitting (k view)) : Fitting (currentFriendRequestView env id k) := by
  refine ⟨fit_nil, fun row => ?_⟩
  cases row with
  | none => exact trivial
  | some row => exact hk _

theorem fitting_createRequest {recipientId : Option Int} {message : Option String}
    (hmessage : ∀ text, validateOptionalMessage message maxFriendRequestMessageChars = .ok text →
      storable text = true) :
    Fitting (createRequest env identity recipientId message) := by
  refine fitting_viewer fun v => ?_
  cases positiveId (recipientId.getD 0) "recipientId" with
  | error e => exact trivial
  | ok recipient =>
  refine .ite trivial ?_
  cases htext : validateOptionalMessage message maxFriendRequestMessageChars with
  | error e => exact trivial
  | ok text =>
  -- the only text that is bound is the message
  have hfit : Column.accepts requestMessage (some (.text text)) = true :=
    Bool.and_eq_true_iff.mpr
      ⟨hmessage text htext, decide_eq_true (validateOptionalMessage_le htext)⟩
  have hanswer : ∀ status (view : FriendRequest), Fitting (.done (.request status view)) :=
    fun _ _ => trivial
  refine ⟨fit_nil, fun found => .ite trivial ⟨fit_nil, fun blocked => .ite trivial ?_⟩⟩
  refine ⟨fit_nil, fun policy => .ite trivial ⟨fit_nil, fun friends => .ite trivial ?_⟩⟩
  refine ⟨fit_nil, fun existing => ?_⟩
  cases existing with
  | some id => exact fitting_currentFriendRequestView (hanswer 200)
  | none =>
  refine ⟨fit_nil, fun reverse => .ite trivial ⟨fit_singleton.mpr hfit, fun inserted => ?_⟩⟩
  cases inserted with
  | some id => exact fitting_currentFriendRequestView (hanswer 201)
  | none =>
  refine ⟨fit_nil, fun existing => ?_⟩
  cases existing with
  | some id => exact fitting_currentFriendRequestView (hanswer 201)
  | none => exact trivial

/-- `send_message` once both users are loaded. -/
theorem fitting_deliver {sender recipient recipientId : UserId} {content : String}
    {k : Int × Nat → Code}
    (hcontent : Column.accepts messageContent (some (.text content)) = true)
    (hk : ∀ row, Fitting (k row)) :
    Fitting (messagePermission sender recipient fun permission =>
      if permission ≠ .allowed then .done (.failure 403) else
      query (.insertMessage sender recipientId content) k) := by
  have hinsert : ∀ permission : MessagePermission,
      Fitting (if permission ≠ .allowed then .done (.failure 403) else
        query (.insertMessage sender recipientId content) k) := fun permission =>
    .ite trivial ⟨fit_singleton.mpr hcontent, hk⟩
  exact .ite (hinsert _) ⟨fit_nil, fun row => hinsert _⟩

theorem fitting_sendMessage {recipientId : Int} {content : String}
    (hcontent : ∀ text, validateContent content maxMessageChars = some text →
      storable text = true) :
    Fitting (sendMessage env identity recipientId content) := by
  cases identity with
  | none => exact trivial
  | some id =>
  refine ⟨fit_nil, fun row => ?_⟩
  cases row with
  | none => exact trivial
  | some row =>
  refine .ite trivial ?_
  cases htext : validateContent content maxMessageChars with
  | none => exact trivial
  | some text =>
  refine ⟨fit_nil, fun row => ?_⟩
  cases row with
  | none => exact trivial
  | some row => exact fitting_deliver (hcontent text htext) fun _ => trivial

/-! A lone run in which no database call fails. -/

/-- The handler did not fail. -/
abbrev Handled (out : State × Answer) : Prop := out.2.internal = false

theorem ends_fail {failed : Answer} {tx : Option (List Write)} {e : SocialError}
    (h : e.status ≠ 500) : Ends Handled failed noFailure now (fail e) n tx σ :=
  .done fun _ => beq_eq_false_iff_ne.mpr h

theorem ends_readView {failed : Answer} {id : RequestId} {status : Nat} :
    Ends Handled failed noFailure now
      (currentFriendRequestView env id fun view => .done (.request status view)) n none σ := by
  refine .query_read (fun db => Db.requestView db id) (fun _ _ _ => rfl) rfl not_firstFailure ?_
  cases Db.requestView σ.db id with
  | none => exact ends_fail (by decide)
  | some row => exact .done fun _ => rfl

theorem positiveId_not_internal {id : Int} {field : String} {e : SocialError}
    (h : positiveId id field = .error e) : e.status ≠ 500 := by
  unfold positiveId at h
  split at h
  · cases h
    exact show 422 ≠ 500 by decide
  · cases h

theorem validateOptionalMessage_not_internal {value : Option String} {maxChars : Nat}
    {e : SocialError} (h : validateOptionalMessage value maxChars = .error e) :
    e.status ≠ 500 := by
  simp only [validateOptionalMessage] at h
  split at h
  · cases h
    exact show 422 ≠ 500 by decide
  · cases h

theorem handled_createRequest {failed : Answer} {recipientId : Option Int}
    {message : Option String}
    (hmessage : ∀ text, validateOptionalMessage message maxFriendRequestMessageChars = .ok text →
      storable text = true) :
    Ends Handled failed noFailure now (createRequest env identity recipientId message) n none
      σ := by
  refine ends_requireViewer not_firstFailure (fun _ => rfl) fun v _ hviewer => ?_
  cases hpos : positiveId (recipientId.getD 0) "recipientId" with
  | error e => exact ends_fail (positiveId_not_internal hpos)
  | ok t =>
  simp only [orFail]
  split
  · exact ends_fail (by decide)
  rename_i hne
  cases htext : validateOptionalMessage message maxFriendRequestMessageChars with
  | error e => exact ends_fail (validateOptionalMessage_not_internal htext)
  | ok text =>
  refine .begin not_firstFailure (.lock not_firstFailure ?_)
  refine ends_requestChecks (fun _ _ => not_firstFailure)
    (fun _ e he => beq_eq_false_iff_ne.mpr he) fun hopen => ?_
  cases hpending : Db.pendingFrom σ.db v t with
  | some r => exact .commit not_firstFailure ends_readView
  | none =>
  refine .exec_read (fun db => (Db.pendingFrom db t v).isSome) (fun _ _ _ => rfl) rfl
    not_firstFailure ?_
  split
  · exact ends_fail (by decide)
  have heval := eval_insertRequest (Ne.symm hne) (validateOptionalMessage_le htext)
    (hmessage text htext) hpending hviewer hopen.found now σ.seq
  exact .exec heval not_firstFailure (.commit not_firstFailure (.emit ends_readView))

theorem handled_sendMessage {failed : Answer} {recipientId : Int} {content : String}
    (hcontent : ∀ text, validateContent content maxMessageChars = some text →
      storable text = true) :
    Ends Handled failed noFailure now (sendMessage env identity recipientId content) n none σ := by
  unfold sendMessage
  cases identity with
  | none => exact .done fun _ => rfl
  | some id =>
  refine ends_loadedUser (fun _ => rfl) fun sender hsender hcaller => ?_
  subst hsender
  split
  · exact .done fun _ => rfl
  cases htext : validateContent content maxMessageChars with
  | none => exact .done fun _ => rfl
  | some text =>
  refine ends_loadedUser (fun _ => rfl) fun recipient hrecipient hexists => ?_
  -- the `INSERT` goes through: the text fits and both users exist
  have hinsert : ∀ m, Ends Handled failed noFailure now
      (query (.insertMessage sender.id recipientId text) fun (row : Int × Nat) =>
        send (.newMessage recipientId row.1 sender.id sender.name (messagePreview text)) <|
        notify recipient.id "conversation_changed" none (some sender.id) <|
        notify sender.id "conversation_changed" none (some recipient.id) <|
        .done (.message
          { id := row.1, sender := sender, recipient := recipient, content := text,
            createdAt := row.2, isRead := false })) m none σ := by
    intro m
    have heval : ∀ seq, eval (.insertMessage sender.id recipientId text) now seq σ.db = _ :=
      fun _ => if_pos (by simp [hcontent text htext, hcaller, hexists])
    exact .query (heval σ.seq) not_firstFailure (.emit (.emit (.emit (.done fun _ => rfl))))
  unfold messagePermission
  split
  · exact .done fun _ => rfl
  · refine .query_read (fun db => Db.permissionRow db sender.id recipient.id) (fun _ _ _ => rfl) rfl
      not_firstFailure ?_
    dsimp only
    split
    · exact .done fun _ => rfl
    · exact hinsert _

end Social

/-! ### Registration -/

namespace Account

/-- The texts a statement binds: of a payload, only the name. -/
def Stmt.binds : Stmt → Bindings
  | .insertUser name _ _ => [(userName, some (.text name))]
  | _ => []

variable {env : Env} {payload : CreateUserRequest} {salt now n : Nat} {σ : State env}

/-- The texts of the statements fit their columns. -/
abbrev Fitting (p : Code env) : Prop :=
  Prog.Issues (E := engine env) (fun st : Stmt => st.binds.fit) p

theorem fitting_createUser : Fitting (createUser env payload salt) := by
  unfold createUser
  cases normalizeEmail env payload.email with
  | error status => exact trivial
  | ok email =>
  cases hname : validateName payload.name with
  | error status => exact trivial
  | ok name =>
  cases validateNewPassword env payload.password with
  | error status => exact trivial
  | ok _ =>
  cases validateVerificationCode payload.code with
  | error status => exact trivial
  | ok code =>
  refine ⟨fit_nil, fun row => ?_⟩
  cases row with
  | none => exact trivial
  | some row =>
  refine .ite ⟨fit_nil, fun _ => trivial⟩ (.ite ⟨fit_nil, fun _ => trivial⟩ ?_)
  refine ⟨fit_singleton.mpr (storable_of_validateName hname).2, fun inserted => ?_⟩
  cases inserted with
  | none => exact fun _ => trivial
  | some id => exact ⟨fit_nil, fun _ => trivial⟩

/-- The handler did not fail. -/
abbrev Handled (out : State env × Response) : Prop := out.2 ≠ .error 500

theorem handled_error {status : StatusCode} {tx : Option (List Write)} (h : status ≠ 500) :
    Ends Handled failed noFailure now (.done (.error status) : Code env) n tx σ :=
  .done fun _ he => h (Response.error.inj he)

theorem validateName_status {value : String} {status : StatusCode}
    (h : validateName value = .error status) : status = 400 := by
  simp only [validateName] at h
  split at h
  · exact (Except.error.inj h).symm
  · cases h

theorem validateNewPassword_status {value : String} {status : StatusCode}
    (h : validateNewPassword env value = .error status) : status = 400 := by
  simp only [validateNewPassword] at h
  split at h
  · exact (Except.error.inj h).symm
  · cases h

theorem validateVerificationCode_status {value : String} {status : StatusCode}
    (h : validateVerificationCode value = .error status) : status = 400 := by
  simp only [validateVerificationCode] at h
  split at h
  · cases h
  · exact (Except.error.inj h).symm

theorem handled_registerUser {name email passwordHash : String} (hname : storable name = true)
    (hhash : charCount passwordHash ≤ 255) :
    Ends Handled failed noFailure now (registerUser env name email passwordHash) n (some []) σ := by
  have hfit : ¬ (255 < charCount passwordHash ∨ (!storable name) = true) := by
    rw [hname]
    rintro (hlong | h)
    · exact absurd hlong (Nat.not_lt.mpr hhash)
    · cases h
  by_cases htaken : σ.db.users.any (·.email == email) = true
  · refine .exec ((if_neg hfit).trans (if_pos htaken)) not_firstFailure fun _ h => ?_
    cases h
  · refine .exec ((if_neg hfit).trans (if_neg htaken)) not_firstFailure ?_
    refine .exec rfl not_firstFailure (.commit not_firstFailure (.done fun _ h => ?_))
    cases h

theorem handled_createUser (hhash : charCount (env.hashPassword salt payload.password) ≤ 255) :
    Ends Handled failed noFailure now (createUser env payload salt) n none σ := by
  have hrefused : ∀ {β : Type} {r : Except StatusCode β} {k : β → Code env} {m : Nat},
      (∀ status, r = .error status → status = 400) →
      (∀ b, r = .ok b → Ends Handled failed noFailure now (k b) m none σ) →
      Ends Handled failed noFailure now (orFail r k) m none σ := by
    intro β r k m herror hk
    cases r with
    | error status => exact handled_error (by rw [herror status rfl]; decide)
    | ok b => exact hk b rfl
  refine hrefused (fun _ => normalizeEmail_status) fun email _ => ?_
  refine hrefused (fun _ => validateName_status) fun name hname => ?_
  refine hrefused (fun _ => validateNewPassword_status) fun _ _ => ?_
  refine hrefused (fun _ => validateVerificationCode_status) fun code _ => ?_
  refine .begin not_firstFailure ?_
  refine .exec rfl not_firstFailure ?_
  cases Db.liveCode env email now (engine env |>.applyAll [] σ.db) with
  | none => exact handled_error (by decide)
  | some row =>
  dsimp only
  split
  · exact .exec rfl not_firstFailure (.commit not_firstFailure (handled_error (by decide)))
  refine .emit ?_
  split
  · exact .exec rfl not_firstFailure (.commit not_firstFailure (handled_error (by decide)))
  · exact handled_registerUser (storable_of_validateName hname).2 hhash

end Account

/-! ### Forum handlers -/

namespace Forum

open Social

/-- The texts a statement binds. -/
def Stmt.binds : Stmt → Bindings
  | .social st => st.binds
  | .insertPost _ title content category tags =>
      [(postTitle, some (.text title)), (postContent, some (.text content)),
        (postCategory, some (.text category)), (postTags, some (.array tags))]
  | .editPost _ content => [(postContent, some (.text content))]
  | .insertComment _ _ content => [(commentContent, some (.text content))]
  | _ => []

/-- The answer has status 500. -/
def Answer.internal : Answer → Bool
  | .social a => a.internal
  | .failure code => code == 500
  | _ => false

/-- The texts of the statements fit their columns. -/
abbrev Fitting (p : Code) : Prop :=
  Prog.Issues (E := engine) (fun st : Stmt => st.binds.fit) p

variable {env : Env} {identity : Option UserId} {now n : Nat} {σ : State}

theorem fitting_caller {k : ForumUser → Code} (hk : ∀ user, Fitting (k user)) :
    Fitting (requireCurrentUser env identity k) := by
  cases identity with
  | none => exact trivial
  | some id =>
  refine ⟨fit_nil, fun row => ?_⟩
  cases row with
  | none => exact trivial
  | some row => exact hk _

theorem fitting_createPost {p : CreatePostRequest}
    (hclean : (Payload.createPost p).accepted = true → (Payload.createPost p).clean = true) :
    Fitting (createPost env identity p) := by
  refine fitting_caller fun user => ?_
  cases htitle : validateContent p.title maxPostTitleChars with
  | none => exact trivial
  | some title =>
  cases hcontent : validateContent p.content maxPostContentChars with
  | none => exact trivial
  | some content =>
  cases hcategory : checkCategory p.category with
  | none => exact trivial
  | some category =>
  cases htags : checkTags p.tags with
  | none => exact trivial
  | some tags =>
  refine ⟨?_, fun _ => trivial⟩
  have hfit := hclean (by simp [Payload.accepted, htitle, hcontent, hcategory, htags])
  simp only [Payload.clean, ← storable_content htitle, ← storable_content hcontent,
    ← storable_category hcategory, ← storable_tags htags, Bool.and_eq_true] at hfit
  obtain ⟨⟨⟨hfitTitle, hfitContent⟩, hfitCategory⟩, hfitTags⟩ := hfit
  have hshort := (checkCategory_spec hcategory).2
  have hcategoryFits : Column.accepts postCategory (some (.text category)) = true :=
    Bool.and_eq_true_iff.mpr ⟨hfitCategory, decide_eq_true hshort⟩
  exact List.forall_mem_cons.mpr ⟨hfitTitle, List.forall_mem_cons.mpr ⟨hfitContent,
    List.forall_mem_cons.mpr ⟨hcategoryFits, fit_singleton.mpr hfitTags⟩⟩⟩

theorem fitting_postModerator {id : PostId} {user : ForumUser} {k : Code} (hk : Fitting k) :
    Fitting (requirePostModerator id user k) := by
  refine .ite hk ⟨fit_nil, fun author => ?_⟩
  cases author with
  | none => exact trivial
  | some author => exact .ite hk trivial

theorem fitting_modifyPost {id : PostId} {content : String}
    (hcontent : ∀ text, validateContent content maxPostContentChars = some text →
      storable text = true) :
    Fitting (modifyPost env identity id content) := by
  refine fitting_caller fun user => fitting_postModerator ?_
  cases htext : validateContent content maxPostContentChars with
  | none => exact trivial
  | some text =>
      exact ⟨fit_singleton.mpr (hcontent text htext), fun rows => .ite trivial trivial⟩

theorem fitting_createComment {postId : PostId} {content : String}
    (hcontent : ∀ text, validateContent content maxCommentChars = some text →
      storable text = true) :
    Fitting (createComment env identity postId content) := by
  refine fitting_caller fun user => ?_
  cases htext : validateContent content maxCommentChars with
  | none => exact trivial
  | some text =>
  refine ⟨fit_nil, fun post => ?_⟩
  cases post with
  | none => exact trivial
  | some locked => exact .ite trivial ⟨fit_singleton.mpr (hcontent text htext), fun _ => trivial⟩

/-! A lone run in which no database call fails. -/

/-- The handler did not fail. -/
abbrev Handled (out : State × Answer) : Prop := out.2.internal = false

/-- Behind the check of the caller, who is in the tables. -/
theorem handled_caller {k : ForumUser → Code}
    (hk : ∀ user, Db.userExists (Db.social σ.db) user.id = true →
      Ends Handled (.failure 500) noFailure now (k user) (n + 1) none σ) :
    Ends Handled (.failure 500) noFailure now (requireCurrentUser env identity k) n none σ := by
  cases identity with
  | none => exact .done fun _ => rfl
  | some id =>
  refine .query_read (fun db => db.social.loadUser id) (fun _ _ _ => rfl) rfl not_firstFailure ?_
  cases hrow : (Db.social σ.db).loadUser id with
  | none => exact .done fun _ => rfl
  | some row =>
      refine hk _ (List.any_eq_true.mpr ⟨row, ?_, beq_self_eq_true _⟩)
      exact List.mem_of_find?_eq_some hrow

theorem handled_createPost {p : CreatePostRequest}
    (hclean : (Payload.createPost p).accepted = true → (Payload.createPost p).clean = true) :
    Ends Handled (.failure 500) noFailure now (createPost env identity p) n none σ := by
  refine handled_caller fun user hcaller => ?_
  cases htitle : validateContent p.title maxPostTitleChars with
  | none => exact .done fun _ => rfl
  | some title =>
  cases hcontent : validateContent p.content maxPostContentChars with
  | none => exact .done fun _ => rfl
  | some content =>
  cases hcategory : checkCategory p.category with
  | none => exact .done fun _ => rfl
  | some category =>
  cases htags : checkTags p.tags with
  | none => exact .done fun _ => rfl
  | some tags =>
  have hfit := hclean (by simp [Payload.accepted, htitle, hcontent, hcategory, htags])
  simp only [Payload.clean, ← storable_content htitle, ← storable_content hcontent,
    ← storable_category hcategory, ← storable_tags htags] at hfit
  have heval : eval (.insertPost user.id title content category tags) now σ.seq σ.db = _ :=
    if_pos (by
      simp only [hfit, (checkCategory_spec hcategory).2, hcaller, decide_true, Bool.and_self])
  exact .query heval not_firstFailure (.done fun _ => rfl)

theorem handled_postModerator {id : PostId} {user : ForumUser} {k : Code}
    (hk : ∀ m, Ends Handled (.failure 500) noFailure now k m none σ) :
    Ends Handled (.failure 500) noFailure now (requirePostModerator id user k) n none σ := by
  unfold requirePostModerator requireAuthor
  split
  · exact hk _
  refine .query_read (fun db => (Db.post db id).map (·.author)) (fun _ _ _ => rfl) rfl
    not_firstFailure ?_
  cases Db.post σ.db id with
  | none => exact .done fun _ => rfl
  | some post =>
      dsimp only [Option.map_some]
      split
      · exact hk _
      · exact .done fun _ => rfl

theorem handled_modifyPost {id : PostId} {content : String}
    (hcontent : ∀ text, validateContent content maxPostContentChars = some text →
      storable text = true) :
    Ends Handled (.failure 500) noFailure now (modifyPost env identity id content) n none σ := by
  refine handled_caller fun user hcaller => handled_postModerator fun m => ?_
  cases htext : validateContent content maxPostContentChars with
  | none => exact .done fun _ => rfl
  | some text =>
  have heval : eval (.editPost id text) now σ.seq σ.db = _ := if_pos (hcontent text htext)
  refine .query heval not_firstFailure ?_
  unfold affected
  split
  · exact .done fun _ => rfl
  · exact .done fun _ => rfl

theorem handled_createComment {postId : PostId} {content : String}
    (hcontent : ∀ text, validateContent content maxCommentChars = some text →
      storable text = true) :
    Ends Handled (.failure 500) noFailure now (createComment env identity postId content) n none
      σ := by
  refine handled_caller fun user hcaller => ?_
  cases htext : validateContent content maxCommentChars with
  | none => exact .done fun _ => rfl
  | some text =>
  refine .query_read (fun db => (Db.post db postId).map (·.isLocked)) (fun _ _ _ => rfl) rfl
    not_firstFailure ?_
  cases hpost : Db.post σ.db postId with
  | none => exact .done fun _ => rfl
  | some post =>
  dsimp only [Option.map_some]
  split
  · exact .done fun _ => rfl
  have heval : eval (.insertComment postId user.id text) now σ.seq σ.db = _ :=
    if_pos (by simp [hcontent text htext, hpost, hcaller])
  exact .query heval not_firstFailure (.done fun _ => rfl)

end Forum

/-! ### Payloads -/

open Social Forum

/-- The payload of a request to a forum or social handler. -/
def Forum.Call.payload : Forum.Call → Option Payload
  | .createPost _ p => some (.createPost p)
  | .modifyPost _ _ content => some (.modifyPost content)
  | .createComment _ _ content => some (.createComment content)
  | .social (.sendMessage _ _ content) => some (.sendMessage content)
  | .social (.createRequest _ _ message) => some (.createRequest message)
  | _ => none

/-- Whatever brings the payload, the texts that are bound satisfy the constraints of their
columns, and the answer is not 500 while no database call fails. A user can still be refused
for a password hash that does not fit. -/
def Payload.Stored : Payload → Prop
  | .createUser name => ∀ (env : Account.Env) (payload : Account.CreateUserRequest) (salt : Nat),
      payload.name = name → Account.Fitting (Account.createUser env payload salt) ∧
        ∀ now σ, charCount (env.hashPassword salt payload.password) ≤ 255 →
          Account.Handled ((Account.createUser env payload salt).solo Account.failed noFailure now 0
            none σ)
  | p => ∀ (c : Forum.Call), c.payload = some p → ∀ (env : Social.Env) (text : UserSearch),
      Forum.Fitting (c.code env text) ∧
        ∀ now σ, Forum.Handled ((c.code env text).solo c.failed noFailure now 0 none σ)

/-- A social program inside the server binds the same texts. -/
theorem fitting_social {p : Social.Code} :
    Forum.Fitting (p.embed socialPart Forum.Answer.social) ↔ Social.Fitting p :=
  issues_embed p

section Sharp

variable {env : Social.Env} {text : UserSearch} {id : Int}

theorem clean_createPost {p : CreatePostRequest}
    (h : Forum.Fitting (Forum.createPost env (some id) p))
    (ha : (Payload.createPost p).accepted = true) : (Payload.createPost p).clean = true := by
  simp only [Payload.accepted, Bool.and_eq_true, Option.isSome_iff_exists] at ha
  obtain ⟨⟨⟨⟨title, htitle⟩, ⟨content, hcontent⟩⟩, ⟨category, hcategory⟩⟩, ⟨tags, htags⟩⟩ := ha
  simp only [Forum.createPost, htitle, hcontent, hcategory, htags, orBadRequest] at h
  obtain ⟨hfit, -⟩ := h.2 (some ⟨id, "", none⟩)
  obtain ⟨hfitTitle, hfit⟩ := List.forall_mem_cons.mp hfit
  obtain ⟨hfitContent, hfit⟩ := List.forall_mem_cons.mp hfit
  obtain ⟨hfitCategory, hfit⟩ := List.forall_mem_cons.mp hfit
  have hfitTags := fit_singleton.mp hfit
  simp only [Payload.clean, ← storable_content htitle, ← storable_content hcontent,
    ← storable_category hcategory, ← storable_tags htags, Bool.and_eq_true]
  exact ⟨⟨⟨hfitTitle, hfitContent⟩, (Bool.and_eq_true_iff.mp hfitCategory).1⟩, hfitTags⟩

theorem clean_modifyPost {content : String}
    (h : Forum.Fitting
      (Forum.modifyPost { env with isAdminUser := fun _ => true } (some id) 1 content))
    (ha : (Payload.modifyPost content).accepted = true) : storable content = true := by
  rw [Payload.accepted, Option.isSome_iff_exists] at ha
  obtain ⟨text, htext⟩ := ha
  simp only [Forum.modifyPost, htext, orBadRequest] at h
  obtain ⟨hfit, -⟩ := h.2 (some ⟨id, "", none⟩)
  exact (storable_content htext).symm.trans (fit_singleton.mp hfit)

theorem clean_createComment {content : String}
    (h : Forum.Fitting (Forum.createComment env (some id) 1 content))
    (ha : (Payload.createComment content).accepted = true) : storable content = true := by
  rw [Payload.accepted, Option.isSome_iff_exists] at ha
  obtain ⟨text, htext⟩ := ha
  simp only [Forum.createComment, htext, orBadRequest] at h
  obtain ⟨hfit, -⟩ := (h.2 (some ⟨id, "", none⟩)).2 (some false)
  exact (storable_content htext).symm.trans (fit_singleton.mp hfit)

theorem clean_sendMessage {content : String}
    (h : Social.Fitting ((Social.Call.sendMessage (some 1) 2 content).code env))
    (ha : (Payload.sendMessage content).accepted = true) : storable content = true := by
  rw [Payload.accepted, Option.isSome_iff_exists] at ha
  obtain ⟨text, htext⟩ := ha
  simp only [Social.Call.code, Social.sendMessage, htext] at h
  obtain ⟨-, hpermission⟩ := (h.2 (some ⟨1, "", none⟩)).2 (some ⟨2, "", none⟩)
  obtain ⟨hfit, -⟩ := hpermission (false, "everyone", false)
  exact (storable_content htext).symm.trans (fit_singleton.mp hfit)

theorem clean_createRequest {message : Option String}
    (h : Social.Fitting ((Social.Call.createRequest (some 1) (some 2) message).code env))
    (ha : (Payload.createRequest message).accepted = true) :
    (Payload.createRequest message).clean = true := by
  cases htext : validateOptionalMessage message maxFriendRequestMessageChars with
  | error e =>
      rw [Payload.accepted, htext] at ha
      cases ha
  | ok text =>
  simp only [Social.Call.code, Social.createRequest, htext] at h
  obtain ⟨-, hblock⟩ := (h.2 true).2 true
  obtain ⟨-, hreverse⟩ := (((hblock false).2 none).2 false).2 none
  obtain ⟨hfit, -⟩ := hreverse false
  exact (storable_message htext).symm.trans (Bool.and_eq_true_iff.mp (fit_singleton.mp hfit)).1

end Sharp

theorem storable_of_clean {content : String} {maxChars : Nat}
    (hclean : (validateContent content maxChars).isSome = true → storable content = true)
    (text : String) (htext : validateContent content maxChars = some text) : storable text = true :=
  (storable_content htext).trans (hclean (by rw [htext]; rfl))

/-- A forum or social request with a payload that contains no NUL. -/
theorem stored_of_clean {c : Forum.Call} {p : Payload} (hp : c.payload = some p)
    (hclean : p.accepted = true → p.clean = true) (env : Social.Env) (text : UserSearch) :
    Forum.Fitting (c.code env text) ∧
      ∀ now σ, Forum.Handled ((c.code env text).solo c.failed noFailure now 0 none σ) := by
  cases c with
  | createPost v q =>
      cases hp
      exact ⟨fitting_createPost hclean, fun _ _ => handled_createPost hclean (noneBefore_zero _)⟩
  | modifyPost v id content =>
      cases hp
      rw [Payload.accepted, Payload.clean] at hclean
      have htext := @storable_of_clean content _ hclean
      exact ⟨fitting_modifyPost htext, fun _ _ => handled_modifyPost htext (noneBefore_zero _)⟩
  | createComment v id content =>
      cases hp
      rw [Payload.accepted, Payload.clean] at hclean
      have htext := @storable_of_clean content _ hclean
      exact ⟨fitting_createComment htext,
        fun _ _ => handled_createComment htext (noneBefore_zero _)⟩
  | social sc =>
      have hsolo : ∀ now σ, ((Call.social sc).code env text).solo (Call.social sc).failed noFailure
          now 0 none σ = _ := fun now σ => solo_embed (sc.code env) 0 σ
      cases sc with
      | sendMessage v r content =>
          cases hp
          rw [Payload.accepted, Payload.clean] at hclean
          have htext := @storable_of_clean content _ hclean
          have hfit := @fitting_sendMessage env v r content htext
          refine ⟨fitting_social.mpr hfit, fun now σ => ?_⟩
          have hhandled := @handled_sendMessage env v now 0 (socialPart.snap σ) (.failure 500) r
            content htext (noneBefore_zero _)
          exact (congrArg Forum.Handled (hsolo now σ)).mpr hhandled
      | createRequest v r message =>
          cases hp
          have htext : ∀ t, validateOptionalMessage message maxFriendRequestMessageChars = .ok t →
              storable t = true := fun t ht =>
            (storable_message ht).trans (hclean (by rw [Payload.accepted, ht]; rfl))
          refine ⟨fitting_social.mpr (fitting_createRequest htext), fun now σ => ?_⟩
          rw [hsolo]
          exact handled_createRequest htext (noneBefore_zero _)
      | _ => cases hp
  | _ => cases hp

/-- **An accepted text is stored**, for every payload, if and only if it contains no NUL
when the checks accept it. -/
theorem stored_iff (p : Payload) : p.Stored ↔ (p.accepted = true → p.clean = true) := by
  constructor
  · intro h ha
    cases p with
    | createPost p =>
        exact clean_createPost (h (.createPost (some 1) p) rfl demoEnv demoText).1 ha
    | modifyPost content =>
        -- the edit is made by an administrator, so that it gets to the `UPDATE`
        let admin : Social.Env := { demoEnv with isAdminUser := fun _ => true }
        have hfit := (h (.modifyPost (some 1) 1 content) rfl admin demoText).1
        exact @clean_modifyPost demoEnv 1 content hfit ha
    | createComment content =>
        exact clean_createComment (h (.createComment (some 1) 1 content) rfl demoEnv demoText).1 ha
    | sendMessage content =>
        have hfit := (h (.social (.sendMessage (some 1) 2 content)) rfl demoEnv demoText).1
        exact clean_sendMessage (fitting_social.mp hfit) ha
    | createRequest message =>
        have hfit := (h (.social (.createRequest (some 1) (some 2) message)) rfl demoEnv demoText).1
        exact clean_createRequest (fitting_social.mp hfit) ha
    | createUser name =>
        cases hname : Account.validateName name with
        | error status =>
            rw [Payload.accepted, hname] at ha
            cases ha
        | ok text =>
            obtain ⟨rfl, hstor⟩ := storable_of_validateName hname
            exact (storable_trim name).symm.trans hstor
  · intro hclean
    cases p with
    | createUser name =>
        exact fun env payload salt _ => ⟨Account.fitting_createUser, fun now σ hhash =>
          Account.handled_createUser hhash (noneBefore_zero _)⟩
    | _ => exact fun c hc => stored_of_clean hc hclean

/-! 1 comments on a post of its own with a NUL between two letters. -/

def nulText : String := String.ofList ['a', Char.ofNat 0, 'b']

/-- The check accepts it, no database call fails, and the answer is 500. -/
theorem nul_comment_fails : (Payload.createComment nulText).accepted = true ∧
    (((Forum.Call.createComment (some 1) 1 nulText).code demoEnv demoText).solo (.failure 500)
      noFailure 0 0 none ⟨0, Forum.demoDb⟩).2 = .failure 500 ∧
    ¬ (Payload.createComment nulText).Stored := by
  have haccepted : (Payload.createComment nulText).accepted = true := by decide
  refine ⟨haccepted, by decide, fun h => ?_⟩
  have hfit := (h (.createComment (some 1) 1 nulText) rfl demoEnv demoText).1
  exact absurd (clean_createComment hfit haccepted) (by decide)

end DevbitBackend
