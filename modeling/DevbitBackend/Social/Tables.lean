import DevbitBackend.Lib.Txn
import DevbitBackend.Social.Model

/-!
# Social.Tables

The tables of the social migrations and the SQL statements of the handlers, as
a `Txn.Engine`. Each statement is the query text of its handler read over lists
of rows; `none` is a statement that a constraint of its table rejects.

`FOR UPDATE` and `UPDATE` lock the request rows they match, and an `INSERT` locks
the row it creates. `NOW()` is the start of the transaction.
-/

namespace DevbitBackend.Social

open Txn

/-! ### Rows -/

structure UserRow where
  id : UserId
  name : String
  avatarUrl : Option String
  deriving DecidableEq, Repr

/-- A row of `social_friend_requests`. -/
structure RequestRow where
  id : RequestId
  sender : UserId
  recipient : UserId
  message : String
  status : RequestStatus
  createdAt : Nat
  updatedAt : Nat
  deriving DecidableEq, Repr

/-- A row of `social_friendships`. -/
structure FriendshipRow where
  userLow : UserId
  userHigh : UserId
  createdAt : Nat
  deriving DecidableEq, Repr

/-- A row of `social_blocks`. -/
structure BlockRow where
  user : UserId
  blocked : UserId
  createdAt : Nat
  deriving DecidableEq, Repr

/-- A row of `social_preferences`. -/
structure PreferencesRow where
  user : UserId
  messagePolicy : String
  friendRequestPolicy : String
  deriving DecidableEq, Repr

/-- A row of `forum_messages`. -/
structure MessageRow where
  id : Int
  sender : UserId
  recipient : UserId
  content : String
  createdAt : Nat
  isRead : Bool
  deriving DecidableEq, Repr

structure Db where
  users : List UserRow
  requests : List RequestRow
  friendships : List FriendshipRow
  blocks : List BlockRow
  preferences : List PreferencesRow
  messages : List MessageRow
  deriving DecidableEq, Repr

/-! ### Conditions of the queries -/

/-- The request is between `a` and `b`, in either direction. -/
def RequestRow.between (a b : UserId) (r : RequestRow) : Bool :=
  (r.sender == a && r.recipient == b) || (r.sender == b && r.recipient == a)

def RequestRow.isPending (r : RequestRow) : Bool := r.status == .pending

/-- The row after `SET status = st, updated_at = NOW()`. -/
def RequestRow.settle (st : RequestStatus) (at_ : Nat) (r : RequestRow) : RequestRow :=
  { r with status := st, updatedAt := at_ }

/-- The row is the friendship of `a` and `b`. -/
def FriendshipRow.isOf (a b : UserId) (f : FriendshipRow) : Bool :=
  f.userLow == min a b && f.userHigh == max a b

/-- The block is between `a` and `b`, in either direction. -/
def BlockRow.between (a b : UserId) (k : BlockRow) : Bool :=
  (k.user == a && k.blocked == b) || (k.user == b && k.blocked == a)

namespace Db

def userExists (db : Db) (id : UserId) : Bool := db.users.any (·.id == id)

def loadUser (db : Db) (id : UserId) : Option UserRow := db.users.find? (·.id == id)

/-- A block between `a` and `b` exists, in either direction. -/
def blockExists (db : Db) (a b : UserId) : Bool := db.blocks.any (·.between a b)

def areFriends (db : Db) (a b : UserId) : Bool := db.friendships.any (·.isOf a b)

def request (db : Db) (id : RequestId) : Option RequestRow := db.requests.find? (·.id == id)

/-- The requests between `a` and `b`, in either direction. -/
def requestsBetween (db : Db) (a b : UserId) : List RequestRow := db.requests.filter (·.between a b)

/-- The pending requests between `a` and `b`, in either direction. -/
def pendingBetween (db : Db) (a b : UserId) : List RequestRow :=
  (db.requestsBetween a b).filter RequestRow.isPending

/-- The pending request from `sender` to `recipient`. -/
def pendingFrom (db : Db) (sender recipient : UserId) : Option RequestRow :=
  db.requests.find? fun r => r.sender == sender && r.recipient == recipient && r.isPending

def preferencesOf (db : Db) (user : UserId) : Option PreferencesRow :=
  db.preferences.find? (·.user == user)

end Db

/-! ### Statements -/

inductive Stmt
  /-- `SELECT EXISTS(SELECT 1 FROM users WHERE id = $1)` -/
  | userExists (id : UserId)
  /-- `SELECT id, name, avatar_url FROM users WHERE id = $1` -/
  | loadUser (id : UserId)
  /-- `SELECT EXISTS` of a block, in either direction -/
  | blockExists (a b : UserId)
  | friendRequestPolicy (user : UserId)
  | areFriends (a b : UserId)
  /-- `SELECT id` of the pending request of one direction -/
  | pendingId (sender recipient : UserId)
  | pendingExists (sender recipient : UserId)
  /-- `INSERT INTO social_friend_requests ... ON CONFLICT DO NOTHING RETURNING id` -/
  | insertRequest (sender recipient : UserId) (message : String)
  /-- `SELECT sender_id, recipient_id FROM social_friend_requests WHERE id = $1` -/
  | requestPair (id : RequestId)
  /-- `SELECT sender_id, recipient_id, status ... WHERE id = $1 FOR UPDATE` -/
  | requestForUpdate (id : RequestId)
  | insertFriendship (a b : UserId)
  /-- `UPDATE ... SET status = $2 WHERE id = $1` -/
  | setStatus (id : RequestId) (st : RequestStatus)
  /-- `accept_request`: cancel the other pending requests of the pair. -/
  | cancelOthers (id : RequestId) (a b : UserId)
  /-- `block_user`: cancel the pending requests of the pair. -/
  | cancelPending (a b : UserId)
  | deleteFriendship (a b : UserId)
  | insertBlock (user blocked : UserId)
  | deleteBlock (user blocked : UserId)
  /-- The joined read of `current_friend_request_view`. -/
  | requestView (id : RequestId)
  /-- The row of `message_permission`: blocked, policy, friends. -/
  | messagePermission (sender recipient : UserId)
  | insertMessage (sender recipient : UserId) (content : String)
  | upsertPreferences (user : UserId) (messagePolicy friendRequestPolicy : Option String)
  deriving DecidableEq, Repr

@[reducible] def Stmt.Result : Stmt → Type
  | .userExists _ => Bool
  | .loadUser _ => Option UserRow
  | .blockExists _ _ => Bool
  | .friendRequestPolicy _ => Option String
  | .areFriends _ _ => Bool
  | .pendingId _ _ => Option RequestId
  | .pendingExists _ _ => Bool
  | .insertRequest _ _ _ => Option RequestId
  | .requestPair _ => Option (UserId × UserId)
  | .requestForUpdate _ => Option (UserId × UserId × RequestStatus)
  | .insertFriendship _ _ => Unit
  | .setStatus _ _ => Unit
  | .cancelOthers _ _ _ => Unit
  | .cancelPending _ _ => Unit
  | .deleteFriendship _ _ => Unit
  | .insertBlock _ _ => Unit
  | .deleteBlock _ _ => Unit
  | .requestView _ => Option (RequestRow × UserRow × UserRow)
  | .messagePermission _ _ => Bool × String × Bool
  | .insertMessage _ _ _ => Int × Nat
  | .upsertPreferences _ _ _ => String × String

/-! ### Writes -/

inductive Write
  | insertRequest (r : RequestRow)
  /-- One `UPDATE`: the rows `ids` get the status `st`. -/
  | setStatus (ids : List RequestId) (st : RequestStatus) (at_ : Nat)
  | insertFriendship (f : FriendshipRow)
  | deleteFriendship (low high : UserId)
  | insertBlock (k : BlockRow)
  | deleteBlock (user blocked : UserId)
  | insertMessage (m : MessageRow)
  | setPreferences (p : PreferencesRow)
  deriving DecidableEq, Repr

/-- The effect of a row-level write. -/
def Write.apply : Write → Db → Db
  | .insertRequest r, db => { db with requests := db.requests ++ [r] }
  | .setStatus ids st t, db =>
      { db with requests := db.requests.map fun r => if r.id ∈ ids then r.settle st t else r }
  | .insertFriendship f, db => { db with friendships := db.friendships ++ [f] }
  | .deleteFriendship low high, db =>
      { db with
        friendships := db.friendships.filter fun f => !(f.userLow == low && f.userHigh == high) }
  | .insertBlock k, db => { db with blocks := db.blocks ++ [k] }
  | .deleteBlock u b, db =>
      { db with blocks := db.blocks.filter fun k => !(k.user == u && k.blocked == b) }
  | .insertMessage m, db => { db with messages := db.messages ++ [m] }
  | .setPreferences p, db =>
      { db with preferences := db.preferences.filter (fun q => q.user != p.user) ++ [p] }

/-! ### What the statements do -/

/-- The ids an `UPDATE` of the requests matches, as one write. -/
def settleRows (rows : List RequestRow) (st : RequestStatus) (now : Nat) : List Write :=
  if rows.isEmpty then [] else [.setStatus (rows.map (·.id)) st now]

/-- The rows `cancelOthers` matches. -/
def Db.otherPending (db : Db) (id : RequestId) (a b : UserId) : List RequestRow :=
  (db.pendingBetween a b).filter (·.id != id)

/-- The `CHECK`s of `social_preferences`. -/
def PreferencesRow.wellFormed (p : PreferencesRow) : Bool :=
  (p.messagePolicy == "everyone" || p.messagePolicy == "friends" || p.messagePolicy == "nobody") &&
    (p.friendRequestPolicy == "everyone" || p.friendRequestPolicy == "nobody")

/-- The joined row of `current_friend_request_view`. -/
def Db.requestView (db : Db) (id : RequestId) : Option (RequestRow × UserRow × UserRow) :=
  (db.request id).bind fun r =>
    (db.loadUser r.sender).bind fun s => (db.loadUser r.recipient).map fun t => (r, s, t)

/-- The row of `message_permission`: blocked, policy, friends. -/
def Db.permissionRow (db : Db) (sender recipient : UserId) : Bool × String × Bool :=
  (db.blockExists sender recipient,
    ((db.preferencesOf recipient).map (·.messagePolicy)).getD "everyone",
    db.areFriends sender recipient)

/-- The next value of a sequence that last gave out `seq`. -/
def nextval (seq : Nat) : Int := (seq : Int) + 1

/-- One statement at time `now`. -/
def eval : (st : Stmt) → (now seq : Nat) → Db → Option (st.Result × List Write)
  | .userExists id, _, _, db => some (db.userExists id, [])
  | .loadUser id, _, _, db => some (db.loadUser id, [])
  | .blockExists a b, _, _, db => some (db.blockExists a b, [])
  | .friendRequestPolicy u, _, _, db =>
      some ((db.preferencesOf u).map (·.friendRequestPolicy), [])
  | .areFriends a b, _, _, db => some (db.areFriends a b, [])
  | .pendingId s r, _, _, db => some ((db.pendingFrom s r).map (·.id), [])
  | .pendingExists s r, _, _, db => some ((db.pendingFrom s r).isSome, [])
  | .insertRequest s r message, now, seq, db =>
      -- the column checks come first, then the conflict, then the foreign keys
      if s = r ∨ !storable message ∨ 200 < charCount message then none
      else if (db.pendingFrom s r).isSome then some (none, [])
      else if db.userExists s && db.userExists r then
        some (some (nextval seq), [.insertRequest
          { id := nextval seq, sender := s, recipient := r, message := message,
            status := .pending, createdAt := now, updatedAt := now }])
      else none
  | .requestPair id, _, _, db => some ((db.request id).map fun r => (r.sender, r.recipient), [])
  | .requestForUpdate id, _, _, db =>
      some ((db.request id).map fun r => (r.sender, r.recipient, r.status), [])
  | .insertFriendship a b, now, _, db =>
      if a = b then none
      else if db.areFriends a b then some ((), [])
      else if db.userExists a && db.userExists b then
        some ((), [.insertFriendship
          { userLow := min a b, userHigh := max a b, createdAt := now }])
      else none
  | .setStatus id st, now, _, db =>
      some ((), settleRows (db.requests.filter (·.id == id)) st now)
  | .cancelOthers id a b, now, _, db =>
      some ((), settleRows (db.otherPending id a b) .cancelled now)
  | .cancelPending a b, now, _, db =>
      some ((), settleRows (db.pendingBetween a b) .cancelled now)
  | .deleteFriendship a b, _, _, db =>
      some ((), if db.areFriends a b then [.deleteFriendship (min a b) (max a b)] else [])
  | .insertBlock u b, now, _, db =>
      if u = b then none
      else if db.blocks.any (fun k => k.user == u && k.blocked == b) then some ((), [])
      else if db.userExists u && db.userExists b then
        some ((), [.insertBlock { user := u, blocked := b, createdAt := now }])
      else none
  | .deleteBlock u b, _, _, db =>
      some ((), if db.blocks.any (fun k => k.user == u && k.blocked == b)
        then [.deleteBlock u b] else [])
  | .requestView id, _, _, db => some (db.requestView id, [])
  | .messagePermission s r, _, _, db => some (db.permissionRow s r, [])
  | .insertMessage s r content, now, seq, db =>
      if storable content && db.userExists s && db.userExists r then
        some ((nextval seq, now), [.insertMessage
          { id := nextval seq, sender := s, recipient := r, content := content,
            createdAt := now, isRead := false }])
      else none
  | .upsertPreferences u mp fp, _, _, db =>
      let old := (db.preferencesOf u).getD
        { user := u, messagePolicy := "everyone", friendRequestPolicy := "everyone" }
      let new : PreferencesRow :=
        { user := u, messagePolicy := mp.getD old.messagePolicy,
          friendRequestPolicy := fp.getD old.friendRequestPolicy }
      if db.userExists u && new.wellFormed then
        some ((new.messagePolicy, new.friendRequestPolicy), [.setPreferences new])
      else none

/-! ### Locks and the engine -/

inductive Lock
  /-- The advisory lock `pg_advisory_xact_lock(low, high)`. -/
  | pair (low high : UserId)
  /-- The row lock of a friend request. -/
  | request (id : RequestId)
  deriving DecidableEq, Repr

/-- The key of `lock_pair`. -/
def pairKey (first second : UserId) : Lock := .pair (min first second) (max first second)

/-- The request rows a statement locks. -/
def rowLocks : Stmt → (now seq : Nat) → Db → List Lock
  | .insertRequest s r _, _, seq, db =>
      if (db.pendingFrom s r).isSome then [] else [.request (nextval seq)]
  | .requestForUpdate id, _, _, db =>
      (db.requests.filter (·.id == id)).map fun r => .request r.id
  | .setStatus id _, _, _, db => (db.requests.filter (·.id == id)).map fun r => .request r.id
  | .cancelOthers id a b, _, _, db => (db.otherPending id a b).map fun r => .request r.id
  | .cancelPending a b, _, _, db => (db.pendingBetween a b).map fun r => .request r.id
  | _, _, _, _ => []

/-- The statement consumes a value of a sequence. One counter stands for the
sequences of both tables: all that matters is that ids are fresh and growing. -/
def drawsId : Stmt → Bool
  | .insertRequest _ _ _ => true
  | .insertMessage _ _ _ => true
  | _ => false

/-- The database of the social handlers. -/
abbrev engine : Engine where
  Db := Db
  Write := Write
  Stmt := Stmt
  Result := Stmt.Result
  Lock := Lock
  Note := Event
  apply := Write.apply
  eval := eval
  locks := rowLocks
  draws := drawsId

instance : DecidableEq engine.Lock := inferInstanceAs (DecidableEq Lock)

end DevbitBackend.Social
