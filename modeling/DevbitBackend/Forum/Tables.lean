import DevbitBackend.Lib.TxnEmbed
import DevbitBackend.Social.Handlers
import DevbitBackend.Forum.Model

/-!
# Forum.Tables

The forum tables next to the social ones, and the SQL statements of `forum.rs`
and of `clear_history`, as a `Txn.Engine`. The engine of the social handlers is a
part of it (`socialPart`), so both kinds of handlers run against one database;
`forum_messages` belongs to that part, because `send_message` was modelled there.

A `DELETE` of a post takes its comments and likes with it (`ON DELETE CASCADE`).
The statements here run outside transactions and hold no row lock.
-/

namespace DevbitBackend.Forum

open Txn Social

/-! ### Rows -/

/-- A row of `forum_posts`. -/
structure PostRow where
  id : PostId
  title : String
  content : String
  author : UserId
  category : String
  tags : List String
  createdAt : Nat
  updatedAt : Nat
  viewCount : Int
  isPinned : Bool
  isLocked : Bool
  deriving DecidableEq, Repr

/-- A row of `forum_comments`. -/
structure CommentRow where
  id : CommentId
  post : PostId
  author : UserId
  content : String
  createdAt : Nat
  deriving DecidableEq, Repr

/-- A row of `forum_post_likes`. -/
structure LikeRow where
  post : PostId
  user : UserId
  createdAt : Nat
  deriving DecidableEq, Repr

/-- A row of `social_message_clears`. -/
structure ClearRow where
  user : UserId
  partner : UserId
  clearedThrough : Int
  updatedAt : Nat
  deriving DecidableEq, Repr

/-- The tables. `postSeq` and `commentSeq` are the values last given out by the
sequences behind `forum_posts.id` and `forum_comments.id`. -/
structure Db where
  social : Social.Db
  posts : List PostRow
  postSeq : Int
  comments : List CommentRow
  commentSeq : Int
  likes : List LikeRow
  clears : List ClearRow
  deriving DecidableEq, Repr

/-! ### Joined rows -/

/-- A row of the post queries: the post, its author and the aggregates. -/
structure PostView where
  post : PostRow
  author : UserRow
  commentCount : Nat
  likeCount : Nat
  likedByMe : Bool
  deriving DecidableEq, Repr

/-- A row of the message query: the message, its sender and its recipient. -/
structure MessageView where
  message : MessageRow
  sender : UserRow
  recipient : UserRow
  deriving DecidableEq, Repr

namespace Db

/-- The `JOIN`, the `LEFT JOIN` of the likes and the aggregates of one post. -/
def postViews (db : Db) (viewer : Option UserId) (p : PostRow) : List PostView :=
  (db.social.users.filter (·.id == p.author)).map fun u =>
    let likes := db.likes.filter (·.post == p.id)
    { post := p
      author := u
      commentCount := (db.comments.filter (·.post == p.id)).length
      likeCount := likes.length
      likedByMe := likes.any fun l => viewer == some l.user }

/-- `ORDER BY p.is_pinned DESC, p.created_at DESC`. -/
def pinnedFirst (a b : PostView) : Bool :=
  if a.post.isPinned = b.post.isPinned then b.post.createdAt ≤ a.post.createdAt
  else a.post.isPinned

/-- The post queries with a condition on the post. -/
def postList (db : Db) (viewer : Option UserId) (where_ : PostRow → Bool) : List PostView :=
  ((db.posts.filter where_).flatMap (db.postViews viewer)).mergeSort pinnedFirst

/-- The comment queries with a condition on the comment, `ORDER BY created_at ASC`. -/
def commentList (db : Db) (where_ : CommentRow → Bool) : List (CommentRow × UserRow) :=
  ((db.comments.filter where_).flatMap fun c =>
    (db.social.users.filter (·.id == c.author)).map fun u => (c, u)).mergeSort
      fun a b => a.1.createdAt ≤ b.1.createdAt

/-- The `CASE` of `fetch_messages_for_user`: the other side of a message. -/
def partnerOf (user : UserId) (m : MessageRow) : UserId :=
  if m.sender = user then m.recipient else m.sender

/-- The `EXISTS` of `fetch_messages_for_user`: the viewer has cleared the message. -/
def cleared (db : Db) (user : UserId) (m : MessageRow) : Bool :=
  db.clears.any fun c => c.user == user && c.partner == partnerOf user m && m.id ≤ c.clearedThrough

/-- The query of `fetch_messages_for_user`. -/
def messagesFor (db : Db) (user : UserId) : List MessageView :=
  ((db.social.messages.filter fun m =>
      (m.sender == user || m.recipient == user) && !db.cleared user m).flatMap fun m =>
    (db.social.users.filter (·.id == m.sender)).flatMap fun s =>
      (db.social.users.filter (·.id == m.recipient)).map fun r =>
        { message := m, sender := s, recipient := r }).mergeSort
      fun a b => a.message.createdAt ≤ b.message.createdAt

/-- `COALESCE(MAX(id), 0)` over the messages between two users. -/
def maxMessageId (db : Db) (user partner : UserId) : Int :=
  ((db.social.messages.filter fun m =>
    (m.sender == user && m.recipient == partner) ||
      (m.sender == partner && m.recipient == user)).map (·.id)).max?.getD 0

def clearOf (db : Db) (user partner : UserId) : Option ClearRow :=
  db.clears.find? fun c => c.user == user && c.partner == partner

def post (db : Db) (id : PostId) : Option PostRow := db.posts.find? (·.id == id)

def comment (db : Db) (id : CommentId) : Option CommentRow := db.comments.find? (·.id == id)

end Db

/-! ### Statements -/

inductive Stmt
  /-- A statement of the social handlers. -/
  | social (st : Social.Stmt)
  /-- `SELECT id, name, avatar_url FROM users`, in the order of the ids -/
  | users
  /-- The posts with their authors and counts, of one category or of all -/
  | postList (viewer : Option UserId) (category : Option String)
  /-- The same of one author -/
  | postsOf (author : UserId)
  /-- The query of `search_posts` with its bound pattern, before its `WHERE` -/
  | likePosts (viewer : Option UserId) (containsPattern : String)
  /-- The query of `search_users` with its bound texts, before its `WHERE`, `ORDER BY` and
  `LIMIT` -/
  | likeUsers (containsPattern prefixPattern query : String)
  /-- The query of `fetch_post_by_id` -/
  | postView (viewer : Option UserId) (id : PostId)
  /-- `UPDATE forum_posts SET view_count = view_count + 1 WHERE id = $1` -/
  | viewPost (id : PostId)
  | insertPost (author : UserId) (title content category : String) (tags : List String)
  /-- `SELECT author_id FROM forum_posts WHERE id = $1` -/
  | postAuthor (id : PostId)
  /-- `UPDATE forum_posts SET content = $1, updated_at = NOW() WHERE id = $2` -/
  | editPost (id : PostId) (content : String)
  | deletePost (id : PostId)
  /-- `UPDATE forum_posts SET is_pinned = NOT is_pinned WHERE id = $1` -/
  | togglePin (id : PostId)
  /-- `UPDATE forum_posts SET is_locked = NOT is_locked WHERE id = $1` -/
  | toggleLock (id : PostId)
  /-- `SELECT EXISTS(SELECT 1 FROM forum_posts WHERE id = $1)` -/
  | postExists (id : PostId)
  | liked (id : PostId) (user : UserId)
  | deleteLike (id : PostId) (user : UserId)
  /-- `INSERT INTO forum_post_likes ... ON CONFLICT DO NOTHING` -/
  | insertLike (id : PostId) (user : UserId)
  /-- The comments with their authors, of one post or of all -/
  | commentList (post : Option PostId)
  /-- `SELECT is_locked FROM forum_posts WHERE id = $1` -/
  | postLocked (id : PostId)
  | insertComment (post : PostId) (author : UserId) (content : String)
  /-- `SELECT author_id FROM forum_comments WHERE id = $1` -/
  | commentAuthor (id : CommentId)
  | deleteComment (id : CommentId)
  /-- The query of `fetch_messages_for_user` -/
  | messagesFor (user : UserId)
  /-- `UPDATE forum_messages SET is_read = true WHERE id = $1 AND recipient_id = $2` -/
  | markMessageRead (id : Int) (recipient : UserId)
  /-- `... WHERE sender_id = $1 AND recipient_id = $2 AND is_read = false` -/
  | markConversationRead (sender recipient : UserId)
  /-- `SELECT COALESCE(MAX(id), 0)` of the messages between two users -/
  | maxMessageId (user partner : UserId)
  /-- The upsert of `clear_history` -/
  | upsertClear (user partner : UserId) (clearedThrough : Int)
  deriving DecidableEq, Repr

/-- The result of a statement. An `UPDATE` or a `DELETE` answers how many rows it
affected. -/
@[reducible] def Stmt.Result : Stmt → Type
  | .social st => st.Result
  | .users => List UserRow
  | .postList _ _ => List PostView
  | .postsOf _ => List PostView
  | .likePosts _ _ => List PostView
  | .likeUsers _ _ _ => List UserRow
  | .postView _ _ => Option PostView
  | .viewPost _ => Nat
  | .insertPost _ _ _ _ _ => PostId × Nat × Nat
  | .postAuthor _ => Option UserId
  | .editPost _ _ => Nat
  | .deletePost _ => Nat
  | .togglePin _ => Nat
  | .toggleLock _ => Nat
  | .postExists _ => Bool
  | .liked _ _ => Bool
  | .deleteLike _ _ => Nat
  | .insertLike _ _ => Nat
  | .commentList _ => List (CommentRow × UserRow)
  | .postLocked _ => Option Bool
  | .insertComment _ _ _ => CommentId × Nat
  | .commentAuthor _ => Option UserId
  | .deleteComment _ => Nat
  | .messagesFor _ => List MessageView
  | .markMessageRead _ _ => Nat
  | .markConversationRead _ _ => Nat
  | .maxMessageId _ _ => Int
  | .upsertClear _ _ _ => Unit

/-! ### Writes -/

/-- The row-level writes. Each is the effect of its statement on the rows that
its `WHERE` selects. -/
inductive Write
  | social (w : Social.Write)
  | viewPost (id : PostId)
  | insertPost (p : PostRow)
  | editPost (id : PostId) (content : String) (at_ : Nat)
  | deletePost (id : PostId)
  | togglePin (id : PostId)
  | toggleLock (id : PostId)
  | deleteLike (id : PostId) (user : UserId)
  | insertLike (l : LikeRow)
  | insertComment (c : CommentRow)
  | deleteComment (id : CommentId)
  | markMessageRead (id : Int) (recipient : UserId)
  | markConversationRead (sender recipient : UserId)
  | setClear (c : ClearRow)
  deriving DecidableEq, Repr

namespace Db

/-- An `UPDATE` of the post `id`. -/
def updatePost (db : Db) (id : PostId) (f : PostRow → PostRow) : Db :=
  { db with posts := db.posts.map fun p => if p.id = id then f p else p }

/-- An `UPDATE` that marks messages as read. -/
def markRead (db : Db) (where_ : MessageRow → Bool) : Db :=
  { db with social := { db.social with
      messages := db.social.messages.map fun m =>
        if where_ m then { m with isRead := true } else m } }

end Db

/-- The effect of a row-level write. -/
def Write.apply : Write → Db → Db
  | .social w, db => { db with social := w.apply db.social }
  | .viewPost id, db => db.updatePost id fun p => { p with viewCount := p.viewCount + 1 }
  | .insertPost p, db => { db with posts := db.posts ++ [p], postSeq := p.id }
  | .editPost id content t, db =>
      db.updatePost id fun p => { p with content := content, updatedAt := t }
  | .deletePost id, db =>
      { db with
        posts := db.posts.filter (·.id != id)
        comments := db.comments.filter (·.post != id)
        likes := db.likes.filter (·.post != id) }
  | .togglePin id, db => db.updatePost id fun p => { p with isPinned := !p.isPinned }
  | .toggleLock id, db => db.updatePost id fun p => { p with isLocked := !p.isLocked }
  | .deleteLike id u, db =>
      { db with likes := db.likes.filter fun l => !(l.post == id && l.user == u) }
  | .insertLike l, db => { db with likes := db.likes ++ [l] }
  | .insertComment c, db => { db with comments := db.comments ++ [c], commentSeq := c.id }
  | .deleteComment id, db => { db with comments := db.comments.filter (·.id != id) }
  | .markMessageRead id u, db => db.markRead fun m => m.id == id && m.recipient == u
  | .markConversationRead s u, db => db.markRead fun m => m.sender == s && m.recipient == u
  | .setClear c, db =>
      { db with
        clears := db.clears.filter (fun d => !(d.user == c.user && d.partner == c.partner)) ++ [c] }

/-! ### What the statements do -/

namespace Db

/-- How many posts have the id. -/
def postCount (db : Db) (id : PostId) : Nat := db.posts.countP (·.id == id)

end Db

/-- The largest value of an `INT` column. -/
def int32Max : Int := 2147483647

/-- One statement at time `now`. No bound text may contain a U+0000. -/
def eval : (st : Stmt) → (now seq : Nat) → Db → Option (st.Result × List Write)
  | .social st, now, seq, db =>
      (Social.eval st now seq db.social).map fun res => (res.1, res.2.map .social)
  | .users, _, _, db => some (db.social.users.mergeSort fun a b => a.id ≤ b.id, [])
  | .postList viewer category, _, _, db =>
      if category.all storable then
        some (db.postList viewer fun p => category.all (p.category == ·), [])
      else none
  | .postsOf author, _, _, db => some (db.postList (some author) (·.author == author), [])
  | .likePosts viewer containsPattern, _, _, db =>
      if storable containsPattern then some (db.postList viewer fun _ => true, []) else none
  | .likeUsers containsPattern prefixPattern query, _, _, db =>
      if storable containsPattern && storable prefixPattern && storable query then
        some (db.social.users.mergeSort fun a b => a.id ≤ b.id, [])
      else none
  | .postView viewer id, _, _, db => some ((db.postList viewer (·.id == id)).head?, [])
  | .viewPost id, _, _, db =>
      -- the new value has to fit the column
      if db.posts.any fun p => p.id == id && int32Max ≤ p.viewCount then none
      else some (db.postCount id, [.viewPost id])
  | .insertPost author title content category tags, now, _, db =>
      if storable title && storable content && storable category && tags.all storable &&
          charCount category ≤ 32 && db.social.userExists author then
        some ((db.postSeq + 1, now, now), [.insertPost
          { id := db.postSeq + 1, title := title, content := content, author := author,
            category := category, tags := tags, createdAt := now, updatedAt := now,
            viewCount := 0, isPinned := false, isLocked := false }])
      else none
  | .postAuthor id, _, _, db => some ((db.post id).map (·.author), [])
  | .editPost id content, now, _, db =>
      if storable content then some (db.postCount id, [.editPost id content now]) else none
  | .deletePost id, _, _, db => some (db.postCount id, [.deletePost id])
  | .togglePin id, _, _, db => some (db.postCount id, [.togglePin id])
  | .toggleLock id, _, _, db => some (db.postCount id, [.toggleLock id])
  | .postExists id, _, _, db => some ((db.post id).isSome, [])
  | .liked id u, _, _, db => some (db.likes.any fun l => l.post == id && l.user == u, [])
  | .deleteLike id u, _, _, db =>
      some (db.likes.countP fun l => l.post == id && l.user == u, [.deleteLike id u])
  | .insertLike id u, now, _, db =>
      -- the conflict comes before the foreign keys
      if db.likes.any fun l => l.post == id && l.user == u then some (0, [])
      else if (db.post id).isSome && db.social.userExists u then
        some (1, [.insertLike { post := id, user := u, createdAt := now }])
      else none
  | .commentList post, _, _, db => some (db.commentList fun c => post.all (c.post == ·), [])
  | .postLocked id, _, _, db => some ((db.post id).map (·.isLocked), [])
  | .insertComment post author content, now, _, db =>
      if storable content && (db.post post).isSome && db.social.userExists author then
        some ((db.commentSeq + 1, now), [.insertComment
          { id := db.commentSeq + 1, post := post, author := author, content := content,
            createdAt := now }])
      else none
  | .commentAuthor id, _, _, db => some ((db.comment id).map (·.author), [])
  | .deleteComment id, _, _, db =>
      some (db.comments.countP (·.id == id), [.deleteComment id])
  | .messagesFor u, _, _, db => some (db.messagesFor u, [])
  | .markMessageRead id u, _, _, db =>
      some (db.social.messages.countP fun m => m.id == id && m.recipient == u,
        [.markMessageRead id u])
  | .markConversationRead s u, _, _, db =>
      some (db.social.messages.countP fun m => m.sender == s && m.recipient == u && !m.isRead,
        [.markConversationRead s u])
  | .maxMessageId u p, _, _, db => some (db.maxMessageId u p, [])
  | .upsertClear u p through, now, _, db =>
      -- the column checks come first, then the conflict, then the foreign keys
      if u = p then none
      else match db.clearOf u p with
        | some c =>
            some ((), [.setClear
              { c with clearedThrough := max c.clearedThrough through, updatedAt := now }])
        | none =>
            if db.social.userExists u && db.social.userExists p then
              some ((), [.setClear
                { user := u, partner := p, clearedThrough := through, updatedAt := now }])
            else none

/-! ### The engine -/

/-- The rows a statement locks. -/
def rowLocks : Stmt → (now seq : Nat) → Db → List Lock
  | .social st, now, seq, db => Social.rowLocks st now seq db.social
  | _, _, _, _ => []

/-- The statement consumes a value of the sequence of the social tables. The other
sequences are in `Db`. -/
def drawsId : Stmt → Bool
  | .social st => Social.drawsId st
  | _ => false

/-- The database of all handlers. -/
abbrev engine : Engine where
  Db := Db
  Write := Write
  Stmt := Stmt
  Result := Stmt.Result
  Lock := Lock
  Note := Event
  apply := Write.apply
  eval := eval
  locks := rowLocks
  draws := drawsId

/-! The queries of the listings write nothing, whatever text they bind. -/

theorem silent_postList (viewer : Option UserId) (category : Option String) :
    engine.Silent (.postList viewer category) :=
  .of_guard (fun db => db.postList viewer fun p => category.all (p.category == ·))
    fun _ _ _ => rfl

theorem silent_likePosts (viewer : Option UserId) (containsPattern : String) :
    engine.Silent (.likePosts viewer containsPattern) :=
  .of_guard (fun db => db.postList viewer fun _ => true) fun _ _ _ => rfl

theorem silent_likeUsers (containsPattern prefixPattern query : String) :
    engine.Silent (.likeUsers containsPattern prefixPattern query) :=
  .of_guard (fun db => db.social.users.mergeSort fun a b => a.id ≤ b.id) fun _ _ _ => rfl

/-- The social tables and statements are a part of it. -/
def socialPart : Embedding Social.engine engine where
  stmt := .social
  write := .social
  lock := id
  note := id
  view := Db.social
  put d db := { db with social := d }
  into _ r := r
  out _ r := r
  out_into _ _ := rfl
  put_view _ := rfl
  view_put _ _ := rfl
  put_put _ _ _ := rfl
  apply_write _ _ := rfl
  eval_stmt _ _ _ _ := rfl
  locks_stmt st now seq db := (List.map_id (Social.rowLocks st now seq db.social)).symm
  draws_stmt _ := rfl

end DevbitBackend.Forum
