import DevbitBackend.Social.Tables

/-!
# Social.Handlers

The handlers of `social/relationships.rs` and `send_message` of `forum.rs`, as
programs over the tables. A `?` on a database call is built into `Txn`: a failed
call answers the handler's internal error, and an early return drops the open
transaction.
-/

namespace DevbitBackend.Social

open Txn

/-- The code of one call. -/
abbrev Code := Prog engine Answer

/-! ### Statements as code -/

/-- A statement on the pool. -/
@[reducible] def query (st : Stmt) (k : st.Result → Code) : Code := Prog.query (E := engine) st k

/-- A statement in the open transaction. -/
@[reducible] def exec (st : Stmt) (k : st.Result → Code) : Code := Prog.exec (E := engine) st k

/-- `lock_pair`: the transaction-level advisory lock of two users, whichever comes first,
which the commit or the rollback releases. -/
@[reducible] def lockPair (first second : UserId) (k : Code) : Code :=
  Prog.lock (E := engine) (pairKey first second) k

/-- `send_to_user` with one event. It changes no table, and a push that fails is not
noticed by the handler. -/
@[reducible] def send (e : Event) (k : Code) : Code := Prog.emit (E := engine) e k

/-- Answer an error. -/
@[reducible] def fail (e : SocialError) : Code := .done (.error e)

/-- The `?` on a checked value. -/
def orFail {β : Type} (r : Except SocialError β) (k : β → Code) : Code :=
  match r with
  | .error e => fail e
  | .ok b => k b

/-! ### Shared plumbing -/

/-- `require_viewer`. `identity` is the user id of a valid token. -/
def requireViewer (identity : Option UserId) (k : UserId → Code) : Code :=
  match identity with
  | none => fail .unauthenticated
  | some id => query (.userExists id) fun (found : Bool) =>
      if !found then fail .unauthenticated else k id

/-- `friend_request_from_row`: the view of a request with its two parties, from the row
joined with both users. -/
def friendRequestFromRow (env : Env) (row : RequestRow × UserRow × UserRow) : FriendRequest where
  id := row.1.id
  sender := forumUser env row.2.1.id row.2.1.name row.2.1.avatarUrl
  recipient := forumUser env row.2.2.id row.2.2.name row.2.2.avatarUrl
  message := row.1.message
  status := row.1.status
  createdAt := row.1.createdAt
  updatedAt := row.1.updatedAt

/-- `current_friend_request_view`: the request as it is stored now, read on the pool after
the commit; 404 if it is gone. -/
def currentFriendRequestView (env : Env) (id : RequestId) (k : FriendRequest → Code) : Code :=
  query (.requestView id) fun (row : Option (RequestRow × UserRow × UserRow)) =>
    match row with
    | none => fail .requestNotFound
    | some row => k (friendRequestFromRow env row)

/-- `notify`: a social event of this type to all connections of `user`. -/
@[reducible] def notify (user : UserId) (type : String) (requestId : Option RequestId)
    (actor : Option UserId) (k : Code) : Code :=
  send (.social user type requestId actor) k

/-- Both sides of `a` and `b` learn that their relationship changed. -/
def notifyFriendshipChanged (viewer target : UserId) (k : Code) : Code :=
  notify viewer "friendship_changed" none (some target) <|
  notify target "friendship_changed" none (some viewer) k

/-- `lock_request_pair`: read the pair of a request and lock it, before any row. -/
def lockRequestPair (id : RequestId) (k : Code) : Code :=
  exec (.requestPair id) fun (row : Option (UserId × UserId)) =>
    match row with
    | none => fail .requestNotFound
    | some (sender, recipient) => lockPair sender recipient k

/-! ### Friend requests -/

/-- `create_request`. The arguments are checked first, the two users and what is between
them under the lock of the pair. A pending request that is there already is answered with
200, a new one with 201 and an event to the recipient. -/
def createRequest (env : Env) (identity : Option UserId) (recipientId : Option Int)
    (message : Option String) : Code :=
  requireViewer identity fun viewer =>
  orFail (positiveId (recipientId.getD 0) "recipientId") fun recipient =>
  if recipient = viewer then fail (.validation "recipientId" "不能向自己发送好友申请") else
  orFail (validateOptionalMessage message maxFriendRequestMessageChars) fun message =>
  .begin <| lockPair viewer recipient <|
  -- all checks run in the transaction, under the lock of the pair
  exec (.userExists recipient) fun (found : Bool) =>
  if !found then fail .userNotFound else
  exec (.blockExists viewer recipient) fun (blocked : Bool) =>
  if blocked then fail (.forbidden "当前关系不允许发送好友申请") else
  exec (.friendRequestPolicy recipient) fun (policy : Option String) =>
  if policy = some "nobody" then fail (.forbidden "对方当前不接收好友申请") else
  exec (.areFriends viewer recipient) fun (friends : Bool) =>
  if friends then fail .relationshipChanged else
  exec (.pendingId viewer recipient) fun (existing : Option RequestId) =>
  match existing with
  | some id =>
      .commit <| currentFriendRequestView env id fun view => .done (.request 200 view)
  | none =>
      exec (.pendingExists recipient viewer) fun (reverse : Bool) =>
      if reverse then fail .relationshipChanged else
      -- `ON CONFLICT DO NOTHING`: no id comes back if the row was there
      exec (.insertRequest viewer recipient message) fun (inserted : Option RequestId) =>
      let created (id : RequestId) : Code :=
        .commit <|
        notify recipient "friend_request_received" (some id) (some viewer) <|
        currentFriendRequestView env id fun view => .done (.request 201 view)
      match inserted with
      | some id => created id
      | none =>
          exec (.pendingId viewer recipient) fun (existing : Option RequestId) =>
          match existing with
          | some id => created id
          | none => fail .relationshipChanged

/-- The side of a request whose call settles it. -/
inductive Party
  | sender
  | recipient
  deriving DecidableEq, Repr

def Party.of (p : Party) (sender recipient : UserId) : UserId :=
  match p with
  | .sender => sender
  | .recipient => recipient

/-- The common part of `accept_request`, `reject_request` and `cancel_request`:
authenticate, lock the pair, lock and read the row, and check that the caller is
the `party` and the request is pending. -/
def withPendingRequest (identity : Option UserId) (requestId : Int) (party : Party)
    (refusal : String)
    (k : (viewer : UserId) → (id : RequestId) → (sender recipient : UserId) → Code) : Code :=
  requireViewer identity fun viewer =>
  orFail (validatePositiveI64 requestId "id") fun id =>
  .begin <| lockRequestPair id <|
  exec (.requestForUpdate id) fun (row : Option (UserId × UserId × RequestStatus)) =>
  match row with
  | none => fail .requestNotFound
  | some (sender, recipient, status) =>
      if party.of sender recipient ≠ viewer then fail (.forbidden refusal)
      else if status ≠ .pending then fail .requestNotPending
      else k viewer id sender recipient

/-- Both parties learn that the request `id` was settled by `actor`. -/
def notifyRequestUpdated (id : RequestId) (actor sender recipient : UserId) (k : Code) : Code :=
  notify sender "friend_request_updated" (some id) (some actor) <|
  notify recipient "friend_request_updated" (some id) (some actor) k

/-- `accept_request`: in one transaction the friendship is inserted, the request accepted
and every other pending request of the pair cancelled. Both parties are told after the
commit. -/
def acceptRequest (env : Env) (identity : Option UserId) (requestId : Int) : Code :=
  withPendingRequest identity requestId .recipient "只有接收方可以接受好友申请"
    fun viewer id sender recipient =>
  exec (.insertFriendship viewer sender) fun _ =>
  exec (.setStatus id .accepted) fun _ =>
  exec (.cancelOthers id viewer sender) fun _ =>
  .commit <|
  currentFriendRequestView env id fun view =>
  notify sender "friend_request_updated" (some id) (some viewer) <|
  notify sender "friendship_changed" none (some recipient) <|
  notify recipient "friend_request_updated" (some id) (some viewer) <|
  notify recipient "friendship_changed" none (some sender) <|
  .done (.request 200 view)

/-- `reject_request`: the recipient settles the request, and both parties are told after
the commit. -/
def rejectRequest (env : Env) (identity : Option UserId) (requestId : Int) : Code :=
  withPendingRequest identity requestId .recipient "只有接收方可以拒绝好友申请"
    fun viewer id sender recipient =>
  exec (.setStatus id .rejected) fun _ =>
  .commit <|
  currentFriendRequestView env id fun view =>
  notifyRequestUpdated id viewer sender recipient <|
  .done (.request 200 view)

/-- `cancel_request`: the sender withdraws the request. There is nothing to show, so
nothing is read back after the commit. -/
def cancelRequest (identity : Option UserId) (requestId : Int) : Code :=
  withPendingRequest identity requestId .sender "只有发送方可以撤回好友申请"
    fun viewer id sender recipient =>
  exec (.setStatus id .cancelled) fun _ =>
  .commit <|
  notifyRequestUpdated id viewer sender recipient <|
  .done .noContent

/-! ### Friendships and blocks -/

/-- `remove_friend`: a `DELETE` under the lock of the pair. Both users are told, also when
there was no friendship to delete. -/
def removeFriend (identity : Option UserId) (friendId : Int) : Code :=
  requireViewer identity fun viewer =>
  orFail (positiveId friendId "userId") fun friend =>
  if friend = viewer then fail (.validation "userId" "不能删除自己") else
  .begin <| lockPair viewer friend <|
  exec (.deleteFriendship viewer friend) fun _ =>
  .commit <|
  notifyFriendshipChanged viewer friend <|
  .done .noContent

/-- `block_user`: the block is inserted and the pending requests of the pair are cancelled
in one transaction. A friendship stays. -/
def blockUser (identity : Option UserId) (userId : Int) : Code :=
  requireViewer identity fun viewer =>
  orFail (positiveId userId "userId") fun target =>
  if target = viewer then fail (.validation "userId" "不能屏蔽自己") else
  query (.loadUser target) fun (user : Option UserRow) =>
  if user.isNone then fail .userNotFound else
  .begin <| lockPair viewer target <|
  exec (.insertBlock viewer target) fun _ =>
  exec (.cancelPending viewer target) fun _ =>
  .commit <|
  notifyFriendshipChanged viewer target <|
  .done .noContent

/-- `unblock_user`: one autocommit `DELETE`, without the pair lock. -/
def unblockUser (identity : Option UserId) (userId : Int) : Code :=
  requireViewer identity fun viewer =>
  orFail (positiveId userId "userId") fun target =>
  if target = viewer then fail (.validation "userId" "不能解除对自己的屏蔽") else
  query (.deleteBlock viewer target) fun _ =>
  notifyFriendshipChanged viewer target <|
  .done .noContent

/-! ### Preferences and messages -/

/-- `update_preferences`: a field that is left out keeps its stored value, or the default
of a row that is new. -/
def updatePreferences (identity : Option UserId)
    (messagePolicy friendRequestPolicy : Option String) : Code :=
  requireViewer identity fun viewer =>
  if messagePolicy.any fun v => v != "everyone" && v != "friends" && v != "nobody" then
    fail (.validation "messagePolicy" "messagePolicy 必须是 everyone、friends 或 nobody")
  else if friendRequestPolicy.any fun v => v != "everyone" && v != "nobody" then
    fail (.validation "friendRequestPolicy" "friendRequestPolicy 必须是 everyone 或 nobody")
  else
    query (.upsertPreferences viewer messagePolicy friendRequestPolicy)
      fun (row : String × String) =>
    .done (.preferences
      { messagePolicy := .fromDb row.1, friendRequestPolicy := .fromDb row.2 })

/-- The decision of `message_permission` on the row it reads. -/
def permissionOfRow (row : Bool × String × Bool) : MessagePermission :=
  if row.1 then .blocked
  else if row.2.1 = "nobody" then .restricted
  else if row.2.1 = "friends" ∧ !row.2.2 then .restricted
  else .allowed

/-- What `message_permission` answers in the state `db`. -/
def Db.messagePermission (db : Db) (sender recipient : UserId) : MessagePermission :=
  if sender = recipient then .restricted else permissionOfRow (db.permissionRow sender recipient)

/-- `message_permission`: one query for the blocks, the policy of the recipient and the
friendship, and the decision on the row that comes back. -/
def messagePermission (sender recipient : UserId) (k : MessagePermission → Code) : Code :=
  if sender = recipient then k .restricted
  else query (.messagePermission sender recipient) fun (row : Bool × String × Bool) =>
    k (permissionOfRow row)

/-- `get_current_user`: 401 when the user is not there. -/
def getCurrentUser (env : Env) (id : UserId) (k : ForumUser → Code) : Code :=
  query (.loadUser id) fun (row : Option UserRow) =>
  match row with
  | none => .done (.failure 401)
  | some row => k (forumUser env row.id row.name row.avatarUrl)

/-- `send_message` of the forum: the permission and the insert are two
autocommit statements. -/
def sendMessage (env : Env) (identity : Option UserId) (recipientId : Int) (content : String) :
    Code :=
  match identity with
  | none => .done (.failure 401)
  | some id =>
      getCurrentUser env id fun sender =>
      if sender.id = recipientId then .done (.failure 400) else
      match validateContent content maxMessageChars with
      | none => .done (.failure 400)
      | some content =>
          getCurrentUser env recipientId fun recipient =>
          messagePermission sender.id recipient.id fun permission =>
          if permission ≠ .allowed then .done (.failure 403) else
          query (.insertMessage sender.id recipientId content) fun (row : Int × Nat) =>
          send (.newMessage recipientId row.1 sender.id sender.name (messagePreview content)) <|
          notify recipient.id "conversation_changed" none (some sender.id) <|
          notify sender.id "conversation_changed" none (some recipient.id) <|
          .done (.message
            { id := row.1, sender := sender, recipient := recipient, content := content,
              createdAt := row.2, isRead := false })

/-! ### Calls -/

/-- One request to the server: its handler, the identity of its token, and its
arguments. -/
inductive Call
  | createRequest (identity : Option UserId) (recipientId : Option Int) (message : Option String)
  | acceptRequest (identity : Option UserId) (requestId : Int)
  | rejectRequest (identity : Option UserId) (requestId : Int)
  | cancelRequest (identity : Option UserId) (requestId : Int)
  | removeFriend (identity : Option UserId) (friendId : Int)
  | blockUser (identity : Option UserId) (userId : Int)
  | unblockUser (identity : Option UserId) (userId : Int)
  | updatePreferences (identity : Option UserId) (messagePolicy friendRequestPolicy : Option String)
  | sendMessage (identity : Option UserId) (recipientId : Int) (content : String)
  deriving DecidableEq, Repr

def Call.code (env : Env) : Call → Code
  | .createRequest v r m => Social.createRequest env v r m
  | .acceptRequest v id => Social.acceptRequest env v id
  | .rejectRequest v id => Social.rejectRequest env v id
  | .cancelRequest v id => Social.cancelRequest v id
  | .removeFriend v u => Social.removeFriend v u
  | .blockUser v u => Social.blockUser v u
  | .unblockUser v u => Social.unblockUser v u
  | .updatePreferences v m f => Social.updatePreferences v m f
  | .sendMessage v u c => Social.sendMessage env v u c

/-- The answer when a database call fails. -/
def Call.failed : Call → Answer
  | .sendMessage _ _ _ => .failure 500
  | _ => .error .internal

/-- A deployment serving the given calls. -/
def config {ι : Type} (poolSize : Nat) (faulty : Bool) (calls : ι → Call) : Config ι Answer where
  poolSize := poolSize
  faulty := faulty
  failed := fun i => (calls i).failed

/-- A state of the server and its database. -/
abbrev Server (ι : Type) := Sys engine ι Answer

/-- The server before any of the calls has arrived. -/
def server {ι : Type} (env : Env) (db : Db) (seq now : Nat) (calls : ι → Call) : Server ι :=
  Sys.start (E := engine) db seq now fun i => (calls i).code env

/-- One move of the server. -/
abbrev serve {ι : Type} [DecidableEq ι] (poolSize : Nat) (faulty : Bool) (calls : ι → Call) :
    Label ι → Server ι → Option (Server ι) :=
  step (E := engine) (config poolSize faulty calls)

end DevbitBackend.Social
