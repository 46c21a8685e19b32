import DevbitBackend.Lib.TxnSolo
import DevbitBackend.Social.Relationship

/-!
# Social.Listings

The friend list and the block list (`list_friends`, `list_blocks`), with the
messaging permission each of them shows. A page comes from a keyset query: rows
below the cursor, newest first, one more than the page holds.

`permission_shown` compares the four places that state the messaging rule.
-/

namespace DevbitBackend.Social

open Txn

/-! ### Pages -/

/-- A decoded time cursor: the key of the last row of the page before. The time is in
microseconds since 1970, and a cursor from outside may carry any. -/
structure TimeCursor where
  createdAt : Int
  id : Int
  deriving DecidableEq, Repr

/-- A page, with the cursor of the next one before it is encoded. -/
structure Page (α : Type) where
  items : List α
  nextCursor : Option TimeCursor
  deriving DecidableEq, Repr

/-- Why a list endpoint gives no page. -/
inductive Failed
  | error (e : SocialError)
  /-- `Row::get` of a column at a Rust type that does not fit its type. -/
  | panicked
  deriving DecidableEq, Repr

/-- `page_limit`: `DEFAULT_PAGE_SIZE` is 20 and `MAX_PAGE_SIZE` is 50. -/
def pageLimit (limit : Option Nat) : Nat := max 1 (min 50 (limit.getD 20))

/-- A `bigint` parameter cast to `int`: out of range is an error. -/
def castInt (n : Int) : Option Int :=
  if -2147483648 ≤ n ∧ n ≤ 2147483647 then some n else none

/-- A `timestamptz` parameter: from 4713 BC to 294276 AD, anything else is an error. -/
def castTimestamp (t : Int) : Option Int :=
  if -210866803200000000 ≤ t ∧ t < 9224318016000000000 then some t else none

/-- The integer types: `INT` is read as `i32`, `BIGINT` as `i64`. -/
inductive IntType
  | int
  | bigint
  deriving DecidableEq, Repr

/-- What an endpoint does with the id of its keys. -/
structure IdUse where
  /-- The type of the column. -/
  column : IntType
  /-- The type that the query casts the id of the cursor to, which is bound as an `i64`. -/
  cast : IntType
  /-- The type as which the column is read for the next cursor. -/
  read : IntType
  deriving DecidableEq, Repr

/-- The parameters of the cursor are accepted by the database. -/
def bindable (use : IdUse) : Option TimeCursor → Bool
  | none => true
  | some c =>
      (castTimestamp c.createdAt).isSome &&
        match use.cast with
        | .int => (castInt c.id).isSome
        | .bigint => true

/-- The row comes after the cursor in descending order. -/
def below (cursor : Option TimeCursor) (createdAt id : Int) : Bool :=
  match cursor with
  | none => true
  | some c => createdAt < c.createdAt || (createdAt == c.createdAt && id < c.id)

/-- `ORDER BY created_at DESC, id DESC LIMIT limit + 1`, and the split of the
result into a page and its cursor. -/
def keysetRows {α : Type} (use : IdUse) (key : α → TimeCursor) (cursor : Option TimeCursor)
    (limit : Nat) (rows : List α) : Except Failed (Page α) :=
  if !bindable use cursor then .error (.error .internal) else
  let found := ((rows.filter fun r => below cursor (key r).createdAt (key r).id).mergeSort
    fun r r' => !below (some (key r')) (key r).createdAt (key r).id).take (limit + 1)
  let page := found.take limit
  if limit < found.length then
    if use.read = use.column then .ok ⟨page, page.getLast?.map key⟩ else .error .panicked
  else .ok ⟨page, none⟩

/-- The rows of a page as the endpoint shows them. -/
def Page.map {α β : Type} (item : α → β) (page : Page α) : Page β :=
  ⟨page.items.map item, page.nextCursor⟩

def keysetPage {α β : Type} (use : IdUse) (key : α → TimeCursor) (cursor : Option TimeCursor)
    (limit : Nat) (item : α → β) (rows : List α) : Except Failed (Page β) :=
  (keysetRows use key cursor limit rows).map (Page.map item)

/-- A page is the first of the rows that are found, with the key of its last row if there
are more. -/
theorem keysetRows_eq_ok {α : Type} {use : IdUse} {key : α → TimeCursor}
    {cursor : Option TimeCursor} {limit : Nat} {rows : List α} {page : Page α}
    (h : keysetRows use key cursor limit rows = .ok page) :
    (∀ r ∈ page.items, r ∈ rows) ∧
      (page.nextCursor = none ∨ page.nextCursor = page.items.getLast?.map key) := by
  have hrows : ∀ r ∈ ((rows.filter fun r => below cursor (key r).createdAt (key r).id).mergeSort
      fun r r' => !below (some (key r')) (key r).createdAt (key r).id), r ∈ rows :=
    fun r hr => List.mem_of_mem_filter (List.mem_mergeSort.mp hr)
  unfold keysetRows at h
  split at h
  · cases h
  dsimp only at h
  split at h
  · split at h
    · cases h
      exact ⟨fun r hr => hrows r (List.mem_of_mem_take (List.mem_of_mem_take hr)), .inr rfl⟩
    · cases h
  · cases h
    exact ⟨fun r hr => hrows r (List.mem_of_mem_take (List.mem_of_mem_take hr)), .inl rfl⟩

/-- What a result is made of. -/
theorem map_eq_ok {ε α β : Type} {f : α → β} {result : Except ε α} {b : β}
    (h : result.map f = .ok b) : ∃ a, result = .ok a ∧ f a = b := by
  cases result with
  | error e => cases h
  | ok a => exact ⟨a, rfl, Except.ok.inj h⟩

theorem map_eq_error_iff {ε α β : Type} {f : α → β} {result : Except ε α} {e : ε} :
    result.map f = .error e ↔ result = .error e := by
  cases result <;> simp [Except.map]

/-- Every item of a page is made of one of the rows. -/
theorem mem_keysetPage {α β : Type} {use : IdUse} {key : α → TimeCursor}
    {cursor : Option TimeCursor} {limit : Nat} {item : α → β} {rows : List α} {page : Page β}
    (h : keysetPage use key cursor limit item rows = .ok page) {b : β} (hb : b ∈ page.items) :
    ∃ r ∈ rows, item r = b := by
  obtain ⟨found, hfound, rfl⟩ := map_eq_ok h
  obtain ⟨r, hr, rfl⟩ := List.mem_map.mp hb
  exact ⟨r, (keysetRows_eq_ok hfound).1 r hr, rfl⟩

/-- The cursor of a page is the key of one of the rows. -/
theorem key_of_keysetPage {α β : Type} {use : IdUse} {key : α → TimeCursor}
    {cursor : Option TimeCursor} {limit : Nat} {item : α → β} {rows : List α} {page : Page β}
    {c : TimeCursor} (h : keysetPage use key cursor limit item rows = .ok page)
    (hc : page.nextCursor = some c) : ∃ r ∈ rows, key r = c := by
  obtain ⟨found, hfound, rfl⟩ := map_eq_ok h
  obtain ⟨hrows, hnone | hlast⟩ := keysetRows_eq_ok hfound
  · rw [Page.map, hnone] at hc
    cases hc
  · rw [Page.map, hlast] at hc
    obtain ⟨r, hr, rfl⟩ := Option.map_eq_some_iff.mp hc
    exact ⟨r, hrows r (List.mem_of_getLast? hr), rfl⟩

/-! ### The name filter -/

/-- The text functions of the search: lower-casing by the server, and `LOWER` and
`LIKE ... ESCAPE` of the database. -/
structure TextSearch where
  toLowercase : String → String
  lower : String → String
  like : String → String → Bool

/-- `escape_like_pattern`: a backslash before each character that `LIKE` treats in its own
way. -/
def escapeLikePattern (query : String) : String :=
  String.ofList (query.toList.flatMap fun ch =>
    if ch = '%' ∨ ch = '_' ∨ ch = '\\' then ['\\', ch] else [ch])

/-- `validate_query`: the trimmed term, which must not be too long. No term is the empty
one. -/
def validateQuery (value : Option String) : Except SocialError String :=
  let trimmed := trim (value.getD "")
  if 50 < charCount trimmed then .error (.validation "q" "搜索词不能超过 50 个字符") else .ok trimmed

/-- The `name_pattern` of `list_friends`. -/
def namePattern (text : TextSearch) (searchTerm : String) : String :=
  if searchTerm.isEmpty then "%"
  else "%" ++ escapeLikePattern (text.toLowercase searchTerm) ++ "%"

/-! ### `list_friends` -/

/-- The rows of a `LEFT JOIN` on the right-hand side. -/
def leftJoin {α : Type} (rows : List α) : List (Option α) :=
  if rows.isEmpty then [none] else rows.map some

/-- A row of the `list_friends` query. -/
structure FriendRow where
  createdAt : Nat
  user : UserRow
  blockedByMe : Bool
  canMessage : Bool
  deriving DecidableEq, Repr

/-- The joined rows of `list_friends`, before the name filter and the paging. -/
def Db.friendRows (db : Db) (viewer : UserId) : List FriendRow :=
  (db.friendships.filter fun f => f.userLow == viewer || f.userHigh == viewer).flatMap fun f =>
    (db.users.filter (·.id == Db.other viewer f)).flatMap fun u =>
      (leftJoin (db.preferences.filter (·.user == u.id))).map fun p =>
        { createdAt := f.createdAt
          user := u
          blockedByMe := db.blocks.any fun k => k.user == viewer && k.blocked == u.id
          canMessage := !db.blockExists viewer u.id &&
            (p.map (·.messagePolicy)).getD "everyone" != "nobody" }

structure Friendship where
  user : SocialUser
  createdAt : Nat
  deriving DecidableEq, Repr

def FriendRow.friendship (env : Env) (row : FriendRow) : Friendship where
  user := .new (forumUser env row.user.id row.user.name row.user.avatarUrl)
    (if row.blockedByMe then .blocked else .friends) none row.canMessage
  createdAt := row.createdAt

/-- The key of a row: `created_at` and the id of the friend. -/
def FriendRow.key (row : FriendRow) : TimeCursor := ⟨row.createdAt, row.user.id⟩

/-- The last id of a page is read as an `i64`, but `users.id` is an `INT`. -/
def userIdUse : IdUse := ⟨.int, .int, .bigint⟩

/-- The rows of `list_friends` that match the name filter. -/
def Db.friendMatches (text : TextSearch) (db : Db) (viewer : UserId) (searchTerm : String) :
    List FriendRow :=
  let pattern := namePattern text searchTerm
  (db.friendRows viewer).filter fun r =>
    pattern == "%" || text.like (text.lower r.user.name) pattern

/-- `list_friends`, for a caller that is signed in and a cursor that decodes. -/
def listFriends (env : Env) (text : TextSearch) (db : Db) (viewer : UserId) (q : Option String)
    (cursor : Option TimeCursor) (limit : Option Nat) : Except Failed (Page Friendship) :=
  match validateQuery q with
  | .error e => .error (.error e)
  | .ok searchTerm =>
      -- a text parameter must not contain NUL
      if !storable (namePattern text searchTerm) then .error (.error .internal) else
      keysetPage userIdUse FriendRow.key cursor (pageLimit limit) (FriendRow.friendship env)
        (db.friendMatches text viewer searchTerm)

/-! ### `list_blocks` -/

/-- The joined rows of `list_blocks`: `created_at` and the blocked user. -/
def Db.blockRows (db : Db) (viewer : UserId) : List (Nat × UserRow) :=
  (db.blocks.filter (·.user == viewer)).flatMap fun k =>
    (db.users.filter (·.id == k.blocked)).map fun u => (k.createdAt, u)

/-- The key of a row: `created_at` and the id of the blocked user. -/
def blockKey (row : Nat × UserRow) : TimeCursor := ⟨row.1, row.2.id⟩

/-- A blocked user as the API shows it. -/
def blockItem (env : Env) (row : Nat × UserRow) : SocialUser :=
  .new (forumUser env row.2.id row.2.name row.2.avatarUrl) .blocked none false

/-- `list_blocks`, for a caller that is signed in and a cursor that decodes. -/
def listBlocks (env : Env) (db : Db) (viewer : UserId) (cursor : Option TimeCursor)
    (limit : Option Nat) : Except Failed (Page SocialUser) :=
  keysetPage userIdUse blockKey cursor (pageLimit limit) (blockItem env) (db.blockRows viewer)

/-! ### The permission that is shown -/

section Shown

variable {db : Db} {viewer target : UserId}

/-- What a row of the friend list is made of. -/
theorem mem_friendRows {row : FriendRow} (h : row ∈ db.friendRows viewer) :
    ∃ f ∈ db.friendships, (f.userLow = viewer ∨ f.userHigh = viewer) ∧
      Db.other viewer f = row.user.id ∧
      ∃ p ∈ leftJoin (db.preferences.filter (·.user == row.user.id)),
        row.canMessage = (!db.blockExists viewer row.user.id &&
          (p.map (·.messagePolicy)).getD "everyone" != "nobody") := by
  obtain ⟨f, hf, hrow⟩ := List.mem_flatMap.mp h
  obtain ⟨u, hu, hrow⟩ := List.mem_flatMap.mp hrow
  obtain ⟨p, hp, rfl⟩ := List.mem_map.mp hrow
  obtain ⟨hf, hside⟩ := List.mem_filter.mp hf
  obtain ⟨-, hid⟩ := List.mem_filter.mp hu
  exact ⟨f, hf, by simpa using hside, by simpa using (beq_iff_eq.mp hid).symm, p, hp, rfl⟩

/-- The stored policy of a user, as the join finds it. -/
theorem leftJoin_preferences (hs : SchemaOk db) {p : Option PreferencesRow}
    (h : p ∈ leftJoin (db.preferences.filter (·.user == target))) :
    db.preferencesOf target = p := by
  unfold leftJoin at h
  split at h
  · rename_i hnil
    obtain rfl := List.mem_singleton.mp h
    have hnone : ∀ q ∈ db.preferences, ¬ (q.user == target) = true :=
      List.filter_eq_nil_iff.mp (List.isEmpty_iff.mp hnil)
    exact List.find?_eq_none.mpr hnone
  · obtain ⟨q, hq, rfl⟩ := List.mem_map.mp h
    obtain ⟨hmem, huser⟩ := List.mem_filter.mp hq
    obtain ⟨q', hq'⟩ := Option.isSome_iff_exists.mp
      (List.find?_isSome.mpr ⟨q, hmem, huser⟩ : (db.preferencesOf target).isSome = true)
    have huser' : q'.user = q.user := by
      rw [beq_iff_eq.mp huser]
      simpa using List.find?_some hq'
    obtain rfl := List.inj_on_of_nodup_map hs.preferencesKeys
      (List.mem_of_find?_eq_some hq') hmem huser'
    exact hq'

/-- A row of the friend list is about a friend, and shows the enforced permission. -/
theorem canMessage_friendRows (hs : SchemaOk db) {row : FriendRow}
    (h : row ∈ db.friendRows viewer) :
    row.canMessage = (db.messagePermission viewer row.user.id == .allowed) := by
  obtain ⟨f, hf, hside, hother, p, hp, hcan⟩ := mem_friendRows h
  have hlt := (hs.friendshipParties f hf).1
  have hfriends : db.areFriends viewer row.user.id = true :=
    List.any_eq_true.mpr ⟨f, hf, (FriendshipRow.isOf_iff hlt).mpr ⟨hside, hother⟩⟩
  have hne : viewer ≠ row.user.id := by
    rw [← hother]
    unfold Db.other
    grind
  rw [hcan, Db.messagePermission, if_neg hne, Db.permissionRow, leftJoin_preferences hs hp,
    hfriends]
  generalize (p.map (·.messagePolicy)).getD "everyone" = policy
  cases db.blockExists viewer row.user.id with
  | true => simp [permissionOfRow]
  | false => by_cases hnobody : policy = "nobody" <;> simp [permissionOfRow, hnobody]

/-- Every friend has a row in the friend list. -/
theorem exists_friendRow (hs : SchemaOk db) (h : db.areFriends viewer target = true) :
    ∃ row ∈ db.friendRows viewer, row.user.id = target := by
  obtain ⟨f, hf, hof⟩ := List.any_eq_true.mp h
  obtain ⟨hlt, hlow, hhigh⟩ := hs.friendshipParties f hf
  obtain ⟨hside, hother⟩ := (FriendshipRow.isOf_iff hlt).mp hof
  have hexists : db.userExists target = true := by
    rw [← hother, Db.other]
    split
    · exact hhigh
    · exact hlow
  obtain ⟨u, hu, hid⟩ := List.any_eq_true.mp hexists
  obtain rfl : u.id = target := beq_iff_eq.mp hid
  have hjoin : leftJoin (db.preferences.filter (·.user == u.id)) ≠ [] := by
    unfold leftJoin
    split
    · exact List.cons_ne_nil _ _
    · rename_i hne
      simpa using hne
  obtain ⟨p, hp⟩ := List.exists_mem_of_ne_nil _ hjoin
  refine ⟨_, List.mem_flatMap.mpr ⟨f, List.mem_filter.mpr ⟨hf, by simpa using hside⟩,
    List.mem_flatMap.mpr ⟨u, List.mem_filter.mpr ⟨hu, by simp [hother]⟩,
      List.mem_map.mpr ⟨p, hp, rfl⟩⟩⟩, rfl⟩

/-- A user in the block list is blocked. -/
theorem permission_blockRows (hs : SchemaOk db) {row : Nat × UserRow}
    (h : row ∈ db.blockRows viewer) : db.messagePermission viewer row.2.id = .blocked := by
  obtain ⟨k, hk, hrow⟩ := List.mem_flatMap.mp h
  obtain ⟨u, hu, rfl⟩ := List.mem_map.mp hrow
  obtain ⟨hmem, huser⟩ := List.mem_filter.mp hk
  obtain rfl : k.user = viewer := beq_iff_eq.mp huser
  have hid : u.id = k.blocked := beq_iff_eq.mp (List.mem_filter.mp hu).2
  have hblock : db.blockExists k.user u.id = true :=
    List.any_eq_true.mpr ⟨k, hmem, by rw [hid]; simp [BlockRow.between]⟩
  rw [Db.messagePermission, if_neg (hid ▸ (hs.blockParties k hmem).1), Db.permissionRow, hblock]
  rfl

/-- `message_permission` goes on with the permission of the state it reads. -/
theorem messagePermission_solo {σ : State} {failed : Answer} {now n : Nat} {v t : UserId}
    {k : MessagePermission → Code} :
    (messagePermission v t k).solo failed noFailure now n none σ =
      (k (Db.messagePermission σ.db v t)).solo failed noFailure now (if v = t then n else n + 1)
        none σ := by
  by_cases h : v = t
  · simp [messagePermission, Db.messagePermission, h]
  · simp only [messagePermission, Db.messagePermission, if_neg h]
    rfl

end Shown

/-- **The shown permission is the enforced one.** In every state that satisfies the
constraints of the tables, the flag computed from a loaded context, the column of
`list_friends` and the constant of `list_blocks` are what `message_permission`
decides. -/
theorem permission_shown {db : Db} (hs : SchemaOk db) (viewer : UserId) :
    (∀ targets : List UserId, ∀ target ∈ targets,
      (RelationshipContext.load db viewer targets).canMessage viewer target =
        (db.messagePermission viewer target == .allowed)) ∧
    (∀ target, db.areFriends viewer target = true →
      ∃ row ∈ db.friendRows viewer, row.user.id = target) ∧
    (∀ row ∈ db.friendRows viewer,
      row.canMessage = (db.messagePermission viewer row.user.id == .allowed)) ∧
    (∀ env text q cursor limit page, listFriends env text db viewer q cursor limit = .ok page →
      ∀ f ∈ page.items, f.user.canMessage = (db.messagePermission viewer f.user.id == .allowed)) ∧
    (∀ env cursor limit page, listBlocks env db viewer cursor limit = .ok page →
      ∀ u ∈ page.items, u.canMessage = false ∧
        u.canMessage = (db.messagePermission viewer u.id == .allowed)) := by
  refine ⟨fun targets target h => RelationshipContext.canMessage_load hs h,
    fun target h => exists_friendRow hs h, fun row h => canMessage_friendRows hs h, ?_, ?_⟩
  · intro env text q cursor limit page h f hf
    unfold listFriends at h
    split at h
    · cases h
    · split at h
      · cases h
      · obtain ⟨row, hrow, rfl⟩ := mem_keysetPage h hf
        exact canMessage_friendRows hs (List.mem_of_mem_filter hrow)
  · intro env cursor limit page h u hu
    obtain ⟨row, hrow, rfl⟩ := mem_keysetPage h hu
    refine ⟨rfl, ?_⟩
    change false = (db.messagePermission viewer row.2.id == .allowed)
    rw [permission_blockRows hs hrow]
    rfl

/-! 1 has a friend, 2, who takes messages from friends, and has blocked 3. -/

def shownDb : Db where
  users := [⟨1, "Ada", none⟩, ⟨2, "Bob", none⟩, ⟨3, "Eve", none⟩]
  requests := []
  friendships := [⟨1, 2, 0⟩]
  blocks := [⟨1, 3, 0⟩]
  preferences := [⟨2, "friends", "everyone"⟩]
  messages := []

theorem shownDb_schemaOk : SchemaOk shownDb := by
  constructor <;> decide

theorem permission_shown_demo :
    (RelationshipContext.load shownDb 1 [2, 3]).canMessage 1 2 =
      (shownDb.messagePermission 1 2 == .allowed) ∧
    shownDb.messagePermission 1 2 = .allowed ∧ shownDb.messagePermission 1 3 = .blocked :=
  ⟨(permission_shown shownDb_schemaOk 1).1 [2, 3] 2 (by decide), by decide, by decide⟩

end DevbitBackend.Social
