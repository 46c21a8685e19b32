import DevbitBackend.Text

/-!
# Social.Model

Wire types, errors and argument checks of the social API (`social/model.rs`,
`social/mod.rs`). Error codes, messages and field names are those of the source.
-/

namespace DevbitBackend.Social

/-- `users.id`, an `i32`. -/
abbrev UserId := Int

/-- `social_friend_requests.id`, an `i64`. -/
abbrev RequestId := Int

/-! ### Enumerations -/

inductive MessagePolicy
  | everyone
  | friends
  | nobody
  deriving DecidableEq, Repr

/-- `MessagePolicy::from_db`. -/
def MessagePolicy.fromDb (value : String) : MessagePolicy :=
  if value = "friends" then .friends
  else if value = "nobody" then .nobody
  else .everyone

inductive FriendRequestPolicy
  | everyone
  | nobody
  deriving DecidableEq, Repr

/-- `FriendRequestPolicy::from_db`. -/
def FriendRequestPolicy.fromDb (value : String) : FriendRequestPolicy :=
  if value = "nobody" then .nobody else .everyone

inductive RequestStatus
  | pending
  | accepted
  | rejected
  | cancelled
  deriving DecidableEq, Repr

inductive MessagePermission
  | allowed
  | blocked
  | restricted
  deriving DecidableEq, Repr

/-! ### Users as the API shows them -/

/-- What the server knows besides its tables: the administrators loaded at start
and the Unicode upper-case mapping. -/
structure Env where
  isAdminUser : UserId → Bool
  toUppercase : String → String

structure ForumUser where
  id : UserId
  name : String
  avatar : String
  avatarUrl : Option String
  isAdmin : Bool
  deriving DecidableEq, Repr

/-- `avatar_for_user`: up to two initials. -/
def avatarForUser (env : Env) (id : UserId) (name : String) : String :=
  if id = 1 then "CD"
  else if id = 2 then "EH"
  else
    match (name.toList.filter Char.isUpper).take 2 with
    | [] => env.toUppercase (String.ofList (name.toList.take 2))
    | [c] =>
        match name.toList.find? Char.isLower with
        | some next => String.ofList [c, next.toUpper]
        | none => String.ofList [c]
    | initials => String.ofList initials

def forumUser (env : Env) (id : UserId) (name : String) (avatarUrl : Option String) :
    ForumUser where
  id := id
  name := name
  avatar := avatarForUser env id name
  avatarUrl := avatarUrl
  isAdmin := env.isAdminUser id

/-- A friend request as the API answers it. -/
structure FriendRequest where
  id : RequestId
  sender : ForumUser
  recipient : ForumUser
  message : String
  status : RequestStatus
  createdAt : Nat
  updatedAt : Nat
  deriving DecidableEq, Repr

/-- A direct message as the API answers it. -/
structure ForumMessage where
  id : Int
  sender : ForumUser
  recipient : ForumUser
  content : String
  createdAt : Nat
  isRead : Bool
  deriving DecidableEq, Repr

structure SocialPreferences where
  messagePolicy : MessagePolicy
  friendRequestPolicy : FriendRequestPolicy
  deriving DecidableEq, Repr

/-! ### Errors -/

structure SocialError where
  status : Nat
  code : String
  message : String
  fieldErrors : List (String × String)
  retryAfterSeconds : Option Nat
  deriving DecidableEq, Repr

namespace SocialError

def new (status : Nat) (code message : String) : SocialError where
  status := status
  code := code
  message := message
  fieldErrors := []
  retryAfterSeconds := none

def unauthenticated : SocialError := new 401 "UNAUTHENTICATED" "登录状态已失效，请重新登录"

def validation (field message : String) : SocialError :=
  { new 422 "VALIDATION_FAILED" "请求参数不合法" with fieldErrors := [(field, message)] }

def badCursor : SocialError := new 400 "BAD_CURSOR" "分页游标已失效，请重新加载"

def forbidden (message : String) : SocialError := new 403 "FORBIDDEN" message

def userNotFound : SocialError := new 404 "USER_NOT_FOUND" "用户不存在或已注销"

def requestNotFound : SocialError := new 404 "REQUEST_NOT_FOUND" "好友申请不存在"

def relationshipChanged : SocialError :=
  new 409 "RELATIONSHIP_CHANGED" "关系已发生变化，请刷新后重试"

def requestNotPending : SocialError := new 409 "REQUEST_NOT_PENDING" "该好友申请已处理"

def internal : SocialError := new 500 "INTERNAL_ERROR" "服务暂时不可用，请稍后重试"

end SocialError

/-- The answer of a handler. The social handlers answer `error`, the forum
handlers a bare status code. -/
inductive Answer
  | request (status : Nat) (view : FriendRequest)
  | noContent
  | message (m : ForumMessage)
  | preferences (p : SocialPreferences)
  | error (e : SocialError)
  | failure (status : Nat)
  deriving DecidableEq, Repr

/-- The handler returned `Ok`. -/
def Answer.isOk : Answer → Bool
  | .error _ | .failure _ => false
  | _ => true

/-! ### Argument checks -/

def i32Max : Int := 2147483647

/-- `positive_id`. -/
def positiveId (id : Int) (field : String) : Except SocialError UserId :=
  if id ≤ 0 ∨ i32Max < id then .error (.validation field "标识必须是正整数") else .ok id

/-- `validate_positive_i64`. -/
def validatePositiveI64 (id : Int) (field : String) : Except SocialError RequestId :=
  if id ≤ 0 then .error (.validation field "标识必须是正整数") else .ok id

/-- `MAX_FRIEND_REQUEST_MESSAGE_CHARS`. -/
def maxFriendRequestMessageChars : Nat := 200

/-- `validate_optional_message`. -/
def validateOptionalMessage (value : Option String) (maxChars : Nat) : Except SocialError String :=
  let trimmed := trim (value.getD "")
  if maxChars < charCount trimmed then
    .error (.validation "message" ("长度不能超过 " ++ toString maxChars ++ " 个字符"))
  else .ok trimmed

/-- `MAX_MESSAGE_CHARS`. -/
def maxMessageChars : Nat := 10000

/-- `validate_content` of the forum: none is 400. -/
def validateContent (value : String) (maxChars : Nat) : Option String :=
  let trimmed := trim value
  if trimmed.toList.isEmpty ∨ maxChars < charCount trimmed then none else some trimmed

/-- A checked message fits the bound it was checked against. -/
theorem validateOptionalMessage_le {value : Option String} {n : Nat} {m : String}
    (h : validateOptionalMessage value n = .ok m) : charCount m ≤ n := by
  unfold validateOptionalMessage at h
  dsimp only at h
  split at h
  · cases h
  · rename_i hle
    cases h
    omega

/-! ### Events -/

/-- What a handler pushes to the sockets of one user. -/
inductive Event
  /-- `notify`: a relationship event. -/
  | social (user : UserId) (type : String) (requestId : Option RequestId) (userId : Option UserId)
  | newMessage (user : UserId) (messageId : Int) (senderId : UserId) (senderName : String)
      (contentPreview : String)
  deriving DecidableEq, Repr

/-- `message_preview`: at most 60 characters. -/
def messagePreview (content : String) : String :=
  if charCount content ≤ 60 then content
  else String.ofList (content.toList.take 57) ++ "..."

end DevbitBackend.Social
