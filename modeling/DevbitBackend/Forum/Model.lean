import DevbitBackend.Social.Model

/-!
# Forum.Model

Wire types and argument checks of the forum API (`forum.rs`). Times are the
numbers of the clock; the source formats them as text.
-/

namespace DevbitBackend.Forum

open Social

/-- `forum_posts.id`, an `i32`. -/
abbrev PostId := Int

/-- `forum_comments.id`, an `i32`. -/
abbrev CommentId := Int

/-! ### Wire types -/

structure ForumPost where
  id : PostId
  title : String
  content : String
  author : ForumUser
  category : String
  tags : List String
  createdAt : Nat
  updatedAt : Nat
  viewCount : Int
  commentCount : Nat
  likeCount : Nat
  likedByMe : Bool
  isPinned : Bool
  isLocked : Bool
  deriving DecidableEq, Repr

structure ForumComment where
  id : CommentId
  postId : PostId
  author : ForumUser
  content : String
  createdAt : Nat
  deriving DecidableEq, Repr

structure ForumBootstrap where
  users : List ForumUser
  posts : List ForumPost
  comments : List ForumComment
  messages : List ForumMessage
  deriving DecidableEq, Repr

structure CreatePostRequest where
  title : String
  content : String
  category : Option String
  tags : Option (List String)
  deriving DecidableEq, Repr

/-- The answer of a handler: what it returns as `Ok`, or the status of its `Err`.
The social handlers of the same server answer `social`. -/
inductive Answer
  | social (a : Social.Answer)
  | bootstrap (b : ForumBootstrap)
  | users (us : List ForumUser)
  | posts (ps : List ForumPost)
  | post (p : ForumPost)
  | comments (cs : List ForumComment)
  | comment (c : ForumComment)
  | messages (ms : List ForumMessage)
  | status (code : Nat)
  | failure (code : Nat)
  deriving DecidableEq, Repr

/-! ### Argument checks -/

/-- `MAX_POST_TITLE_CHARS`. -/
def maxPostTitleChars : Nat := 200

/-- `MAX_POST_CONTENT_CHARS`. -/
def maxPostContentChars : Nat := 50000

/-- `MAX_COMMENT_CHARS`. -/
def maxCommentChars : Nat := 10000

/-- `MAX_CATEGORY_CHARS`. -/
def maxCategoryChars : Nat := 32

/-- `MAX_TAGS`. -/
def maxTags : Nat := 10

/-- `MAX_TAG_CHARS`. -/
def maxTagChars : Nat := 24

/-- The category of `create_post`: none is 400. -/
def checkCategory (category : Option String) : Option String :=
  let category := trim (category.getD "general")
  if category.toList.isEmpty ∨ maxCategoryChars < charCount category then none else some category

/-- The tags of `create_post`: none is 400. -/
def checkTags (tags : Option (List String)) : Option (List String) :=
  let tags := ((tags.getD []).map trim).filter fun tag => !tag.toList.isEmpty
  if maxTags < tags.length ∨ tags.any fun tag => maxTagChars < charCount tag then none
  else some tags

/-- The search term of `search_posts` and `search_users`: none answers an empty
list. -/
def searchTerm (toLowercase : String → String) (q : Option String) : Option String :=
  match q with
  | some s => if (trim s).toList.isEmpty then none else some (toLowercase (trim s))
  | none => none

/-- The category filter of `fetch_posts`. -/
def categoryFilter (category : Option String) : Option String :=
  category.filter fun value => !value.isEmpty && value != "all"

end DevbitBackend.Forum
