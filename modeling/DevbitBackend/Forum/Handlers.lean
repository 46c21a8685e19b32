import DevbitBackend.Social.Listings
import DevbitBackend.Forum.Tables

/-!
# Forum.Handlers

The handlers of `forum.rs` and `clear_history` of `social/messages.rs`, as
programs over the tables, and the calls whose runs are studied (`Call`). These are the
requests to `forum.rs`, the social requests that write, and `clear_history`; the eight
social requests that only read and the account pages are not among them. The forum handlers
use autocommit statements only. `send_message` is the program of the social part
(`socialPart`), as are the handlers of `social/relationships.rs`.
-/

namespace DevbitBackend.Forum

open Txn Social

/-- The code of one call. -/
abbrev Code := Prog engine Answer

/-- A statement on the pool. -/
@[reducible] def query (st : Stmt) (k : st.Result → Code) : Code := Prog.query (E := engine) st k

/-- `Err(StatusCode)`. -/
@[reducible] def fail (code : Nat) : Code := .done (.failure code)

/-- Text and order functions of the search: lower-casing and `LIKE`, `POSITION`,
and the collation of `LOWER(name)`. -/
structure UserSearch extends TextSearch where
  position : String → String → Nat
  collate : String → String → Bool

/-! ### Rows as the API shows them -/

/-- `row_to_post`. -/
def rowToPost (env : Env) (row : PostView) : ForumPost where
  id := row.post.id
  title := row.post.title
  content := row.post.content
  author := forumUser env row.post.author row.author.name row.author.avatarUrl
  category := row.post.category
  tags := row.post.tags
  createdAt := row.post.createdAt
  updatedAt := row.post.updatedAt
  viewCount := row.post.viewCount
  commentCount := row.commentCount
  likeCount := row.likeCount
  likedByMe := row.likedByMe
  isPinned := row.post.isPinned
  isLocked := row.post.isLocked

/-- `row_to_comment`. -/
def rowToComment (env : Env) (row : CommentRow × UserRow) : ForumComment where
  id := row.1.id
  postId := row.1.post
  author := forumUser env row.1.author row.2.name row.2.avatarUrl
  content := row.1.content
  createdAt := row.1.createdAt

/-- `row_to_message`. -/
def rowToMessage (env : Env) (row : MessageView) : ForumMessage where
  id := row.message.id
  sender := forumUser env row.message.sender row.sender.name row.sender.avatarUrl
  recipient := forumUser env row.message.recipient row.recipient.name row.recipient.avatarUrl
  content := row.message.content
  createdAt := row.message.createdAt
  isRead := row.message.isRead

def rowToUser (env : Env) (row : UserRow) : ForumUser := forumUser env row.id row.name row.avatarUrl

/-! ### Shared plumbing -/

/-- `get_current_user`: 401 when the user is not there. -/
def getCurrentUser (env : Env) (id : UserId) (k : ForumUser → Code) : Code :=
  query (.social (.loadUser id)) fun (row : Option UserRow) =>
  match row with
  | none => fail 401
  | some row => k (rowToUser env row)

/-- `require_user_id`. `identity` is the user id of a valid token. -/
def requireUserId (identity : Option UserId) (k : UserId → Code) : Code :=
  match identity with
  | none => fail 401
  | some id => k id

/-- `require_current_user`: 401 without a valid token, and also for a token whose user is
not there any more. -/
def requireCurrentUser (env : Env) (identity : Option UserId) (k : ForumUser → Code) : Code :=
  requireUserId identity fun id => getCurrentUser env id k

/-- `require_admin`: 403 unless the id of the user is one of the administrators. -/
def requireAdmin (user : ForumUser) (k : Code) : Code := if user.isAdmin then k else fail 403

/-- The common part of `require_post_moderator` and `require_comment_moderator`:
`author` reads who wrote the row. -/
def requireAuthor (user : ForumUser) (author : (Option UserId → Code) → Code) (k : Code) : Code :=
  if user.isAdmin then k
  else author fun authorId =>
    match authorId with
    | none => fail 404
    | some authorId => if authorId = user.id then k else fail 403

/-- `require_post_moderator`: administrators may do it with every post, others with their
own. -/
def requirePostModerator (id : PostId) (user : ForumUser) (k : Code) : Code :=
  requireAuthor user (fun next => query (.postAuthor id) next) k

/-- `require_comment_moderator`: the same for comments. The author of the post has no say. -/
def requireCommentModerator (id : CommentId) (user : ForumUser) (k : Code) : Code :=
  requireAuthor user (fun next => query (.commentAuthor id) next) k

/-- A checked text, or 400: all checks of the forum handlers fail with this status. -/
def orBadRequest {β : Type} (checked : Option β) (k : β → Code) : Code :=
  match checked with
  | none => fail 400
  | some value => k value

/-- The answer to an `UPDATE` or a `DELETE` that affected `rows` rows. -/
def affected (rows : Nat) (k : Code) : Code := if rows = 0 then fail 404 else k

/-- `fetch_post_by_id`, and the answer: the post with its counters as `viewer` sees it, or
404. -/
def fetchPostById (env : Env) (id : PostId) (viewer : Option UserId) : Code :=
  query (.postView viewer id) fun (row : Option PostView) =>
  match row with
  | none => fail 404
  | some row => .done (.post (rowToPost env row))

/-! ### Reading -/

/-- `bootstrap`: three lists, and the messages of the caller when there is a valid token.
Each list is a query of its own. -/
def bootstrap (env : Env) (identity : Option UserId) : Code :=
  query .users fun (users : List UserRow) =>
  query (.postList identity none) fun (posts : List PostView) =>
  query (.commentList none) fun (comments : List (CommentRow × UserRow)) =>
  let answer (messages : List MessageView) : Code := .done (.bootstrap
    { users := users.map (rowToUser env), posts := posts.map (rowToPost env),
      comments := comments.map (rowToComment env), messages := messages.map (rowToMessage env) })
  match identity with
  | none => answer []
  | some user => query (.messagesFor user) fun (messages : List MessageView) => answer messages

/-- `list_users`: all accounts, for everybody, signed in or not. -/
def listUsers (env : Env) : Code :=
  query .users fun (users : List UserRow) => .done (.users (users.map (rowToUser env)))

/-- `list_posts`: the posts of a category, or all of them when there is none to filter by. -/
def listPosts (env : Env) (identity : Option UserId) (category : Option String) : Code :=
  query (.postList identity (categoryFilter category)) fun (posts : List PostView) =>
  .done (.posts (posts.map (rowToPost env)))

/-- `search_posts`. The `WHERE` of its query is applied to the rows of the query
without it, which binds the same pattern. -/
def searchPosts (env : Env) (text : UserSearch) (identity : Option UserId) (q : Option String) :
    Code :=
  match searchTerm text.toLowercase q with
  | none => .done (.posts [])
  | some term =>
      let pattern := "%" ++ escapeLikePattern term ++ "%"
      query (.likePosts identity pattern) fun (posts : List PostView) =>
      .done (.posts ((posts.filter fun row =>
        text.like (text.lower row.post.title) pattern ||
          text.like (text.lower row.post.content) pattern).map (rowToPost env)))

/-- `my_posts`: the user need not exist. -/
def myPosts (env : Env) (identity : Option UserId) : Code :=
  requireUserId identity fun user =>
  query (.postsOf user) fun (posts : List PostView) => .done (.posts (posts.map (rowToPost env)))

/-- `list_comments` of a post. That there is such a post is not checked. -/
def listComments (env : Env) (postId : PostId) : Code :=
  query (.commentList (some postId)) fun (comments : List (CommentRow × UserRow)) =>
  .done (.comments (comments.map (rowToComment env)))

/-- `list_messages`: the messages that the caller sent or received and did not clear. -/
def listMessages (env : Env) (identity : Option UserId) : Code :=
  requireCurrentUser env identity fun user =>
  query (.messagesFor user.id) fun (messages : List MessageView) =>
  .done (.messages (messages.map (rowToMessage env)))

/-- `ORDER BY` of `search_users`. -/
def searchOrder (text : UserSearch) (term prefixPattern : String) (a b : UserRow) : Bool :=
  let rank (u : UserRow) : Nat := if text.like (text.lower u.name) prefixPattern then 0 else 1
  let place (u : UserRow) : Nat := text.position term (text.lower u.name)
  if rank a ≠ rank b then rank a < rank b
  else if place a ≠ place b then place a < place b
  else if text.lower a.name ≠ text.lower b.name then
    text.collate (text.lower a.name) (text.lower b.name)
  else a.id ≤ b.id

/-- `search_users`. The `WHERE`, `ORDER BY` and `LIMIT` of its query are applied
to the rows of the query without them, which binds the same texts. -/
def searchUsers (env : Env) (text : UserSearch) (identity : Option UserId) (q : Option String) :
    Code :=
  requireCurrentUser env identity fun _ =>
  match searchTerm text.toLowercase q with
  | none => .done (.users [])
  | some term =>
      let containsPattern := "%" ++ escapeLikePattern term ++ "%"
      let prefixPattern := escapeLikePattern term ++ "%"
      query (.likeUsers containsPattern prefixPattern term) fun (users : List UserRow) =>
      .done (.users ((((users.filter fun u =>
        text.like (text.lower u.name) containsPattern).mergeSort
          (searchOrder text term prefixPattern)).take 20).map (rowToUser env)))

/-! ### Posts -/

/-- `get_post`: the view is counted by an `UPDATE`, and then the post is read. Two
autocommit statements. -/
def getPost (env : Env) (identity : Option UserId) (id : PostId) : Code :=
  query (.viewPost id) fun _ => fetchPostById env id identity

/-- `create_post`: title, content, category and tags are checked in this order. The answer
is put together from the checked values; the row is not read back. -/
def createPost (env : Env) (identity : Option UserId) (payload : CreatePostRequest) : Code :=
  requireCurrentUser env identity fun user =>
  orBadRequest (validateContent payload.title maxPostTitleChars) fun title =>
  orBadRequest (validateContent payload.content maxPostContentChars) fun content =>
  orBadRequest (checkCategory payload.category) fun category =>
  orBadRequest (checkTags payload.tags) fun tags =>
  query (.insertPost user.id title content category tags) fun (row : PostId × Nat × Nat) =>
  .done (.post
    { id := row.1, title := title, content := content, author := user, category := category,
      tags := tags, createdAt := row.2.1, updatedAt := row.2.2, viewCount := 0, commentCount := 0,
      likeCount := 0, likedByMe := false, isPinned := false, isLocked := false })

/-- `modify_post`: who may is decided before the content is checked. -/
def modifyPost (env : Env) (identity : Option UserId) (id : PostId) (content : String) : Code :=
  requireCurrentUser env identity fun user =>
  requirePostModerator id user <|
  orBadRequest (validateContent content maxPostContentChars) fun content =>
  query (.editPost id content) fun (rows : Nat) =>
  affected rows <| .done (.status 200)

/-- `delete_post`: comments and likes go with it, by the foreign keys. -/
def deletePost (env : Env) (identity : Option UserId) (id : PostId) : Code :=
  requireCurrentUser env identity fun user =>
  requirePostModerator id user <|
  query (.deletePost id) fun (rows : Nat) =>
  affected rows <| .done (.status 204)

/-- `toggle_pin`: one `UPDATE` that negates the column, by an administrator. The post is
answered as nobody in particular sees it. -/
def togglePin (env : Env) (identity : Option UserId) (id : PostId) : Code :=
  requireCurrentUser env identity fun user =>
  requireAdmin user <|
  query (.togglePin id) fun (rows : Nat) =>
  affected rows <| fetchPostById env id none

/-- `toggle_lock`: as `toggle_pin`, for the column that `create_comment` reads. -/
def toggleLock (env : Env) (identity : Option UserId) (id : PostId) : Code :=
  requireCurrentUser env identity fun user =>
  requireAdmin user <|
  query (.toggleLock id) fun (rows : Nat) =>
  affected rows <| fetchPostById env id none

/-- `toggle_like`: the like is read, and what was read decides between a `DELETE` and an
`INSERT`. No lock is held in between. -/
def toggleLike (env : Env) (identity : Option UserId) (id : PostId) : Code :=
  requireUserId identity fun user =>
  getCurrentUser env user fun _ =>
  query (.postExists id) fun (exists_ : Bool) =>
  if !exists_ then fail 404 else
  query (.liked id user) fun (liked : Bool) =>
  if liked then
    query (.deleteLike id user) fun _ => fetchPostById env id (some user)
  else
    query (.insertLike id user) fun _ => fetchPostById env id (some user)

/-! ### Comments -/

/-- `create_comment`: the lock is read before the `INSERT`. -/
def createComment (env : Env) (identity : Option UserId) (postId : PostId) (content : String) :
    Code :=
  requireCurrentUser env identity fun user =>
  orBadRequest (validateContent content maxCommentChars) fun content =>
  query (.postLocked postId) fun (post : Option Bool) =>
  match post with
  | none => fail 404
  | some locked =>
      if locked then fail 403 else
      query (.insertComment postId user.id content) fun (row : CommentId × Nat) =>
      .done (.comment
        { id := row.1, postId := postId, author := user, content := content, createdAt := row.2 })

/-- `delete_comment`, by its author or an administrator. A locked post does not prevent
it. -/
def deleteComment (env : Env) (identity : Option UserId) (id : CommentId) : Code :=
  requireCurrentUser env identity fun user =>
  requireCommentModerator id user <|
  query (.deleteComment id) fun (rows : Nat) =>
  affected rows <| .done (.status 204)

/-! ### Messages -/

/-- `mark_message_read`: only the recipient can, and for anybody else the message is not
there. -/
def markMessageRead (env : Env) (identity : Option UserId) (id : Int) : Code :=
  requireCurrentUser env identity fun user =>
  query (.markMessageRead id user.id) fun (rows : Nat) =>
  affected rows <| .done (.status 204)

/-- `mark_conversation_read`: all messages from `partner` to the caller that were unread;
404 when there are none. -/
def markConversationRead (env : Env) (identity : Option UserId) (partner : UserId) : Code :=
  requireCurrentUser env identity fun user =>
  query (.markConversationRead partner user.id) fun (rows : Nat) =>
  affected rows <| .done (.status 204)

/-- `clear_history`: the `MAX(id)` and the upsert are two autocommit statements. -/
def clearHistory (identity : Option UserId) (partnerId : Int) : Code :=
  let error (e : SocialError) : Code := .done (.social (.error e))
  match identity with
  | none => error .unauthenticated
  | some viewer =>
      query (.social (.userExists viewer)) fun (found : Bool) =>
      if !found then error .unauthenticated else
      match positiveId partnerId "partnerId" with
      | .error e => error e
      | .ok partner =>
          if partner = viewer then error (.validation "partnerId" "不能清除与自己的会话") else
          query (.maxMessageId viewer partner) fun (through : Int) =>
          query (.upsertClear viewer partner through) fun _ =>
          .emit (.social viewer "conversation_changed" none (some partner)) <|
          .done (.social .noContent)

/-! ### Calls -/

/-- One request: its handler, the identity of its token, and its arguments. Every one that
writes the forum or the social tables is here, and those that list the forum tables. -/
inductive Call
  /-- A handler of the social part; `send_message` is one of them. -/
  | social (c : Social.Call)
  | bootstrap (identity : Option UserId)
  | listUsers
  | listPosts (identity : Option UserId) (category : Option String)
  | searchPosts (identity : Option UserId) (q : Option String)
  | getPost (identity : Option UserId) (id : PostId)
  | createPost (identity : Option UserId) (payload : CreatePostRequest)
  | myPosts (identity : Option UserId)
  | modifyPost (identity : Option UserId) (id : PostId) (content : String)
  | deletePost (identity : Option UserId) (id : PostId)
  | togglePin (identity : Option UserId) (id : PostId)
  | toggleLock (identity : Option UserId) (id : PostId)
  | toggleLike (identity : Option UserId) (id : PostId)
  | listComments (postId : PostId)
  | createComment (identity : Option UserId) (postId : PostId) (content : String)
  | deleteComment (identity : Option UserId) (id : CommentId)
  | listMessages (identity : Option UserId)
  | markMessageRead (identity : Option UserId) (id : Int)
  | markConversationRead (identity : Option UserId) (partner : UserId)
  | searchUsers (identity : Option UserId) (q : Option String)
  | clearHistory (identity : Option UserId) (partnerId : Int)
  deriving DecidableEq, Repr

def Call.code (env : Env) (text : UserSearch) : Call → Code
  | .social c => (c.code env).embed socialPart Answer.social
  | .bootstrap v => Forum.bootstrap env v
  | .listUsers => Forum.listUsers env
  | .listPosts v c => Forum.listPosts env v c
  | .searchPosts v q => Forum.searchPosts env text v q
  | .getPost v id => Forum.getPost env v id
  | .createPost v p => Forum.createPost env v p
  | .myPosts v => Forum.myPosts env v
  | .modifyPost v id c => Forum.modifyPost env v id c
  | .deletePost v id => Forum.deletePost env v id
  | .togglePin v id => Forum.togglePin env v id
  | .toggleLock v id => Forum.toggleLock env v id
  | .toggleLike v id => Forum.toggleLike env v id
  | .listComments id => Forum.listComments env id
  | .createComment v id c => Forum.createComment env v id c
  | .deleteComment v id => Forum.deleteComment env v id
  | .listMessages v => Forum.listMessages env v
  | .markMessageRead v id => Forum.markMessageRead env v id
  | .markConversationRead v p => Forum.markConversationRead env v p
  | .searchUsers v q => Forum.searchUsers env text v q
  | .clearHistory v p => Forum.clearHistory v p

/-- The user whose token a call carries. -/
def Call.caller : Call → Option UserId
  | .social c =>
      match c with
      | .createRequest v _ _ | .acceptRequest v _ | .rejectRequest v _ | .cancelRequest v _
      | .removeFriend v _ | .blockUser v _ | .unblockUser v _ | .updatePreferences v _ _
      | .sendMessage v _ _ => v
  | .listUsers | .listComments _ => none
  | .bootstrap v | .listPosts v _ | .searchPosts v _ | .getPost v _ | .createPost v _ | .myPosts v
  | .modifyPost v _ _ | .deletePost v _ | .togglePin v _ | .toggleLock v _ | .toggleLike v _
  | .createComment v _ _ | .deleteComment v _ | .listMessages v | .markMessageRead v _
  | .markConversationRead v _ | .searchUsers v _ | .clearHistory v _ => v

/-- The answer when a database call fails. -/
def Call.failed : Call → Answer
  | .social c => .social c.failed
  | .clearHistory _ _ => .social (.error .internal)
  | _ => .failure 500

/-- A deployment serving the given calls, and nothing else. -/
def config {ι : Type} (poolSize : Nat) (faulty : Bool) (calls : ι → Call) : Config ι Answer where
  poolSize := poolSize
  faulty := faulty
  failed := fun i => (calls i).failed

/-- A state of the server and its database. -/
abbrev Server (ι : Type) := Sys engine ι Answer

/-- The server before any of the calls has arrived. -/
def server {ι : Type} (env : Env) (text : UserSearch) (db : Db) (seq now : Nat)
    (calls : ι → Call) : Server ι :=
  Sys.start (E := engine) db seq now fun i => (calls i).code env text

/-- One move of the server. -/
abbrev serve {ι : Type} [DecidableEq ι] (poolSize : Nat) (faulty : Bool) (calls : ι → Call) :
    Label ι → Server ι → Option (Server ι) :=
  step (E := engine) (config poolSize faulty calls)

end DevbitBackend.Forum
