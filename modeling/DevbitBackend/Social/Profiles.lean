import DevbitBackend.Social.Blocking
import DevbitBackend.Forum.Handlers

/-!
# Social.Profiles

The read handlers of `social/relationships.rs` that show other users to a viewer:
`search_users`, `get_profile` and `friend_feed`. Each is evaluated on one state of
the tables, for a caller that is signed in and a cursor that decodes.

`block_enforced` collects what a block does, in both directions, at every place
that checks it, and what is left of it once it is removed.
-/

namespace DevbitBackend.Social

open Txn Transition
open Forum (UserSearch searchOrder rowToUser PostId PostRow PostView ForumPost rowToPost)

/-! ### `search_users` -/

/-- A page, with the offset of the next one before it is encoded. -/
structure OffsetPage (α : Type) where
  items : List α
  nextOffset : Option Nat

/-- A row as its viewer sees it. -/
def contextUser (env : Env) (context : RelationshipContext) (viewer : UserId) (row : UserRow) :
    SocialUser :=
  let (relationship, requestId) := context.relationship row.id
  .new (rowToUser env row) relationship requestId (context.canMessage viewer row.id)

/-- `search_users`: one page of the ranked users by offset, each with the relationship to
the viewer. -/
def searchUsers (env : Env) (text : UserSearch) (db : Db) (viewer : UserId)
    (q : Option String) (offset : Nat) (limit : Option Nat) :
    Except SocialError (OffsetPage SocialUser) :=
  match validateQuery q with
  | .error e => .error e
  | .ok term =>
      let limit := pageLimit limit
      if term.isEmpty then .ok ⟨[], none⟩ else
      let normalized := text.toLowercase term
      -- a text parameter must not contain NUL
      if !storable normalized then .error .internal else
      let escaped := escapeLikePattern normalized
      let found := (((db.users.filter fun u =>
        u.id != viewer && text.like (text.lower u.name) ("%" ++ escaped ++ "%")).mergeSort
          (searchOrder text normalized (escaped ++ "%"))).drop offset).take (limit + 1)
      let rows := found.take limit
      let context := RelationshipContext.load db viewer (rows.map (·.id))
      .ok { items := rows.map (contextUser env context viewer)
            nextOffset := if limit < found.length then some (offset + limit) else none }

/-! ### `get_profile` -/

structure RecentPost where
  id : PostId
  title : String
  deriving DecidableEq, Repr

structure SocialProfile where
  user : SocialUser
  recentPosts : List RecentPost
  deriving DecidableEq, Repr

/-- `ORDER BY created_at DESC, id DESC`. -/
def newestFirst (p p' : PostRow) : Bool := !below (some ⟨p'.createdAt, p'.id⟩) p.createdAt p.id

/-- `get_profile`: the user with the relationship to the viewer, whether a message may be
sent, and the five latest posts. -/
def getProfile (env : Env) (db : Forum.Db) (viewer : UserId) (userId : Int) :
    Except SocialError SocialProfile :=
  match positiveId userId "userId" with
  | .error e => .error e
  | .ok targetId =>
      match db.social.loadUser targetId with
      | none => .error .userNotFound
      | some target =>
          let context := RelationshipContext.load db.social viewer [targetId]
          let (relationship, requestId) :=
            if targetId = viewer then (.current, none) else context.relationship targetId
          let canMessage := targetId != viewer && context.canMessage viewer targetId
          let rows := ((db.posts.filter (·.author == targetId)).mergeSort newestFirst).take 5
          .ok { user := .new (rowToUser env target) relationship requestId canMessage
                recentPosts := rows.map fun p => ⟨p.id, p.title⟩ }

/-! ### `friend_feed` -/

/-- The first sub-select: the friends of the viewer. -/
def feedFriends (db : Db) (viewer : UserId) : List UserId :=
  (db.friendships.filter fun f => f.userLow == viewer || f.userHigh == viewer).map
    (Db.other viewer)

/-- The second sub-select: whom the viewer has blocked, or who has blocked the viewer. -/
def feedBlocked (db : Db) (viewer : UserId) : List UserId :=
  (db.blocks.filter fun k => k.user == viewer || k.blocked == viewer).map fun k =>
    if k.user = viewer then k.blocked else k.user

/-- The rows of the `friend_feed` query, before the paging. -/
def feedRows (db : Forum.Db) (viewer : UserId) : List PostView :=
  (db.posts.filter fun p => (feedFriends db.social viewer).contains p.author &&
    !(feedBlocked db.social viewer).contains p.author).flatMap (db.postViews (some viewer))

/-- The key of a row: `created_at` and the id of the post. -/
def feedKey (row : PostView) : TimeCursor := ⟨row.post.createdAt, row.post.id⟩

/-- The last id of a page is read as an `i32`, the type of `forum_posts.id`. -/
def postIdUse : IdUse := ⟨.int, .int, .int⟩

/-- The id of the cursor is 0 if it is no `i32`. -/
def clampId (cursor : Option TimeCursor) : Option TimeCursor :=
  cursor.map fun c => { c with id := (castInt c.id).getD 0 }

/-- `friend_feed`: the posts of friends, newest first, without those of users who are
blocked in either direction. -/
def friendFeed (env : Env) (db : Forum.Db) (viewer : UserId) (cursor : Option TimeCursor)
    (limit : Option Nat) : Except Failed (Page ForumPost) :=
  keysetPage postIdUse feedKey (clampId cursor) (pageLimit limit) (rowToPost env)
    (feedRows db viewer)

/-! ### What is shown of a user -/

section Shown

variable {env : Env} {viewer target : UserId}

/-- The search shows the permission that is enforced. -/
theorem canMessage_searchUsers {db : Db} (hs : SchemaOk db) {text : UserSearch}
    {q : Option String} {offset : Nat} {limit : Option Nat} {page : OffsetPage SocialUser}
    (h : searchUsers env text db viewer q offset limit = .ok page) {u : SocialUser}
    (hu : u ∈ page.items) : u.canMessage = (db.messagePermission viewer u.id == .allowed) := by
  unfold searchUsers at h
  split at h
  · cases h
  · dsimp only at h
    split at h
    · cases h
      cases hu
    split at h
    · cases h
    · cases h
      obtain ⟨row, hrow, rfl⟩ := List.mem_map.mp hu
      have hid : row.id ∈ _ := List.mem_map_of_mem hrow
      exact RelationshipContext.canMessage_load hs hid

/-- The profile shows the permission that is enforced. -/
theorem canMessage_getProfile {db : Forum.Db} (hs : SchemaOk db.social) {userId : Int}
    {profile : SocialProfile} (h : getProfile env db viewer userId = .ok profile) :
    profile.user.canMessage =
      (db.social.messagePermission viewer profile.user.id == .allowed) := by
  unfold getProfile at h
  split at h
  · cases h
  · rename_i targetId hpos
    split at h
    · cases h
    · rename_i row hload
      have hid : row.id = targetId := by simpa using List.find?_some hload
      cases h
      subst hid
      change (row.id != viewer && _) = (Db.messagePermission db.social viewer row.id == .allowed)
      rw [RelationshipContext.canMessage_load hs List.mem_cons_self]
      by_cases hself : row.id = viewer
      · simp [hself, Db.messagePermission]
      · simp [hself]

/-- The feed shows posts of friends who are not blocked, in either direction. -/
theorem author_feedRows {db : Forum.Db} (hs : SchemaOk db.social) {row : PostView}
    (h : row ∈ feedRows db viewer) :
    db.social.areFriends viewer row.post.author = true ∧
      db.social.blockExists viewer row.post.author = false := by
  obtain ⟨p, hp, hrow⟩ := List.mem_flatMap.mp h
  obtain ⟨u, -, rfl⟩ := List.mem_map.mp hrow
  obtain ⟨-, hwhere⟩ := List.mem_filter.mp hp
  simp only [Bool.and_eq_true, Bool.not_eq_true', List.contains_iff_mem] at hwhere
  obtain ⟨hfriend, hblocked⟩ := hwhere
  constructor
  -- the subquery of friends looks at both sides of a friendship
  · obtain ⟨f, hf, hother⟩ := List.mem_map.mp hfriend
    obtain ⟨hmem, hside⟩ := List.mem_filter.mp hf
    have hlt := (hs.friendshipParties f hmem).1
    exact List.any_eq_true.mpr
      ⟨f, hmem, (FriendshipRow.isOf_iff hlt).mpr ⟨by simpa using hside, hother⟩⟩
  · rw [Bool.eq_false_iff]
    intro hb
    obtain ⟨k, hk, hbetween⟩ := List.any_eq_true.mp hb
    have hnot : p.author ∉ feedBlocked db.social viewer := by simpa using hblocked
    have hne := (hs.blockParties k hk).1
    -- a block in either direction puts the author on the list of the blocked
    refine hnot (List.mem_map.mpr ⟨k, List.mem_filter.mpr ⟨hk, ?_⟩, ?_⟩)
    · rcases BlockRow.between_iff.mp hbetween with ⟨h₁, -⟩ | ⟨-, h₂⟩
      · simp [h₁]
      · simp [h₂]
    · rcases BlockRow.between_iff.mp hbetween with ⟨h₁, h₂⟩ | ⟨h₁, h₂⟩
      · simpa [h₁] using h₂
      · rw [if_neg (fun heq => hne (heq.trans h₂.symm))]
        exact h₁

end Shown

/-! ### What a block denies -/

/-- What a block between `x` and `y` denies `x`, in one state of the tables. -/
structure BlockEnforced (env : Env) (σ : State) (x y : UserId) : Prop where
  request : ∀ recipientId message text,
    positiveId (recipientId.getD 0) "recipientId" = .ok y →
    validateOptionalMessage message maxFriendRequestMessageChars = .ok text →
    ∀ fails now, Forbids σ fails "当前关系不允许发送好友申请"
      ((createRequest env (some x) recipientId message).solo (.error .internal) fails now 0 none σ)
  accept : ∀ r ∈ Db.requests σ.db, r.between x y = true → ∀ fails now,
    Refused σ ((acceptRequest env (some x) r.id).solo (.error .internal) fails now 0 none σ)
  message : Db.messagePermission σ.db x y = .blocked
  /-- Where no database call fails, `message_permission` goes on with `Blocked`. -/
  permission : ∀ (k : MessagePermission → Code) failed now n,
    (messagePermission x y k).solo failed noFailure now n none σ =
      (k .blocked).solo failed noFailure now (n + 1) none σ
  search : ∀ text q offset limit page, searchUsers env text σ.db x q offset limit = .ok page →
    ∀ u ∈ page.items, u.id = y → u.canMessage = false
  profile : ∀ db : Forum.Db, db.social = σ.db → ∀ userId profile,
    getProfile env db x userId = .ok profile → profile.user.id = y →
      profile.user.canMessage = false
  friendList : ∀ text q cursor limit page, listFriends env text σ.db x q cursor limit = .ok page →
    ∀ f ∈ page.items, f.user.id = y → f.user.canMessage = false
  feed : ∀ db : Forum.Db, db.social = σ.db → ∀ cursor limit page,
    friendFeed env db x cursor limit = .ok page → ∀ p ∈ page.items, p.author.id ≠ y

/-- One block is enough, whoever of the two made it. -/
theorem blockEnforced_of_blocked (env : Env) {σ : State} {x y : UserId} (hinv : Consistent σ)
    (hb : Db.blockExists σ.db x y = true) : BlockEnforced env σ x y := by
  have hmessage : Db.messagePermission σ.db x y = .blocked :=
    messagePermission_blocked hinv.schema hb
  -- all the lists show what `message_permission` decides
  have hshown : ∀ {u : SocialUser},
      u.canMessage = (Db.messagePermission σ.db x u.id == .allowed) → u.id = y →
        u.canMessage = false := by
    intro u hu hid
    rw [hu, hid, hmessage]
    rfl
  constructor
  case request =>
    intro recipientId message text hpos hmsg fails now
    exact createRequest_blocked env hinv.schema hb hpos hmsg fails now
  case accept =>
    intro r hr hbetween fails now
    exact acceptRequest_notPending env x (request_eq_some hinv.schema hr)
      (notPending_of_blocked hinv hb hr hbetween) fails now
  case message => exact hmessage
  case permission =>
    intro k failed now n
    have hne : x ≠ y := (hinv.schema.blockParties_of_exists hb).1
    rw [messagePermission_solo, hmessage, if_neg hne]
  case search =>
    intro text q offset limit page h u hu
    exact hshown (canMessage_searchUsers hinv.schema h hu)
  case profile =>
    intro db hdb userId profile h
    rw [← hdb] at hshown
    exact hshown (canMessage_getProfile (hdb ▸ hinv.schema) h)
  case friendList =>
    intro text q cursor limit page h f hf
    exact hshown ((permission_shown hinv.schema x).2.2.2.1 env text q cursor limit page h f hf)
  case feed =>
    intro db hdb cursor limit page h p hp hid
    obtain ⟨row, hrow, rfl⟩ := mem_keysetPage h hp
    have hnone := (author_feedRows (hdb ▸ hinv.schema) hrow).2
    obtain rfl : row.post.author = y := hid
    rw [hdb, hb] at hnone
    cases hnone

section Runs

variable {ι : Type} [DecidableEq ι] {env : Env} {db : Db} {seq now poolSize : Nat}
  {faulty : Bool} {calls : ι → Call}

/-- **A block is enforced everywhere, and leaves the friendship as it was.** In every
reachable state it denies both users everything of `BlockEnforced`; and over every
`BlockPeriod` the two lose their friendship by `remove_friend` only, and are left
with no pending request. -/
theorem block_enforced (hdb : Consistent ⟨seq, db⟩) (a b : UserId) :
    (∀ s, Reachable (serve poolSize faulty calls) (server env db seq now calls) s →
      (∃ k ∈ Db.blocks s.db, k.user = a ∧ k.blocked = b) →
        ∀ x y, SamePair a b x y → BlockEnforced env s.snap x y) ∧
    (∀ s₀ s₁ s₂ s₃,
      Reachable (serve poolSize faulty calls) (server env db seq now calls) s₀ →
      BlockPeriod poolSize faulty calls a b s₀ s₁ s₂ s₃ →
        SameFriends calls a b s₀ s₃ ∧ Db.pendingBetween s₃.db a b = []) := by
  constructor
  · intro s hs hblock x y hxy
    obtain ⟨k, hk, rfl, rfl⟩ := hblock
    have hb : Db.blockExists s.db k.user k.blocked = true :=
      List.any_eq_true.mpr ⟨k, hk, by simp [BlockRow.between]⟩
    exact blockEnforced_of_blocked env (serverInv_of_consistent hdb hs).inv (hxy.blockExists ▸ hb)
  · intro s₀ s₁ s₂ s₃ hs₀ hperiod
    exact friends_over_blockPeriod (serverInv_of_consistent hdb hs₀) hperiod

end Runs

/-! 1 and 2 are friends; 1 blocks 2, and unblocks 2 again. -/

def friendsDb : Db := { freshDb demoUsers [] with friendships := [⟨1, 2, 0⟩] }

theorem friendsDb_consistent : Consistent ⟨0, friendsDb⟩ where
  schema := by constructor <;> decide
  ids := by simp [friendsDb, freshDb]
  pairs a b := pairOk_of_nil rfl

def quarrelCalls : Bool → Call
  | false => .blockUser (some 1) 2
  | true => .unblockUser (some 1) 2

/-- While the block is in force 2 is denied what it denies, and after it the two are
friends again. -/
theorem block_enforced_demo : ∃ s₀ s₁ s₂ s₃ : Server Bool,
    BlockPeriod 1 false quarrelCalls 1 2 s₀ s₁ s₂ s₃ ∧ Db.areFriends s₀.db 1 2 = true ∧
      BlockEnforced demoEnv s₁.snap 2 1 ∧ SameFriends quarrelCalls 1 2 s₀ s₃ ∧
      Db.areFriends s₃.db 1 2 = true := by
  have hrun : (((replay (serve 1 false quarrelCalls)
      (server demoEnv friendsDb 0 0 quarrelCalls) (List.replicate 9 (.run false))).bind
        fun s₀ => (serve 1 false quarrelCalls (.run false) s₀).bind
        fun s₁ => (replay (fun l s => if Db.blockExists s.db 1 2 then
          serve 1 false quarrelCalls l s else none) s₁
            (List.replicate 2 (.run false) ++ List.replicate 4 (.run true))).bind
        fun s₂ => (serve 1 false quarrelCalls (.run true) s₂).map
        fun s₃ => ((Db.blockExists s₀.db 1 2, Db.areFriends s₀.db 1 2),
          (Db.blocks s₁.db).contains ⟨1, 2, 0⟩, Db.blockExists s₂.db 1 2,
          (Db.blockExists s₃.db 1 2, Db.areFriends s₃.db 1 2)))) =
      some ((false, true), true, true, (false, true)) := by
    decide
  obtain ⟨s₀, hs₀, hrest⟩ := Option.bind_eq_some_iff.mp hrun
  obtain ⟨s₁, hs₁, hrest⟩ := Option.bind_eq_some_iff.mp hrest
  obtain ⟨s₂, hs₂, hrest⟩ := Option.bind_eq_some_iff.mp hrest
  obtain ⟨s₃, hs₃, hobs⟩ := Option.map_eq_some_iff.mp hrest
  simp only [Prod.mk.injEq] at hobs
  obtain ⟨⟨hbefore, hfriends⟩, hblock, hstill, hafter, hfriends'⟩ := hobs
  have hk : (⟨1, 2, 0⟩ : BlockRow) ∈ Db.blocks s₁.db := List.contains_iff_mem.mp hblock
  have hperiod : BlockPeriod 1 false quarrelCalls 1 2 s₀ s₁ s₂ s₃ :=
    { before := hbefore
      blocks := ⟨_, hs₁⟩
      blocked := List.any_eq_true.mpr ⟨_, hk, rfl⟩
      runs := .of_replay (fun _ _ h => h) hs₂ .refl
      stillBlocked := hstill
      unblocks := ⟨_, hs₃⟩
      after := hafter }
  obtain ⟨henforced, hrestored⟩ :=
    @block_enforced Bool _ demoEnv friendsDb 0 0 1 false quarrelCalls friendsDb_consistent 1 2
  exact ⟨s₀, s₁, s₂, s₃, hperiod, hfriends,
    henforced s₁ ((reachable_of_replay hs₀).tail hs₁) ⟨_, hk, rfl, rfl⟩ 2 1 (.inr ⟨rfl, rfl⟩),
    (hrestored s₀ s₁ s₂ s₃ (reachable_of_replay hs₀) hperiod).1, hfriends'⟩

end DevbitBackend.Social
