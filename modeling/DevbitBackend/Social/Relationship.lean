import DevbitBackend.Social.Handlers
import DevbitBackend.Social.Invariant

/-!
# Social.Relationship

How the API shows a user to a viewer: `RelationshipContext` of `social/mod.rs`,
which four queries load for a batch of targets, and the flags computed from it.

The sets and maps of the source are lists here. An insertion goes to the front,
so that a look-up finds the last one.
-/

namespace DevbitBackend.Social

/-! ### Wire types -/

inductive Relationship
  | current
  | none
  | outgoingPending
  | incomingPending
  | friends
  | blocked
  deriving DecidableEq, Repr

structure SocialUser where
  id : UserId
  name : String
  avatar : String
  avatarUrl : Option String
  isAdmin : Bool
  relationship : Relationship
  requestId : Option RequestId
  canMessage : Bool
  deriving DecidableEq, Repr

/-- `SocialUser::new`: a user with what the viewer has to know about the relationship. -/
def SocialUser.new (base : ForumUser) (relationship : Relationship) (requestId : Option RequestId)
    (canMessage : Bool) : SocialUser where
  id := base.id
  name := base.name
  avatar := base.avatar
  avatarUrl := base.avatarUrl
  isAdmin := base.isAdmin
  relationship := relationship
  requestId := requestId
  canMessage := canMessage

/-! ### The queries -/

namespace Db

/-- The other side of a friendship of `viewer`. -/
def other (viewer : UserId) (f : FriendshipRow) : UserId :=
  if f.userLow = viewer then f.userHigh else f.userLow

def contextFriends (db : Db) (viewer : UserId) (targets : List UserId) : List UserId :=
  (db.friendships.filter fun f =>
    (f.userLow == viewer && targets.contains f.userHigh) ||
      (f.userHigh == viewer && targets.contains f.userLow)).map (other viewer)

/-- `user_id` and `blocked_id` of the blocks between `viewer` and a target. -/
def contextBlocks (db : Db) (viewer : UserId) (targets : List UserId) : List (UserId × UserId) :=
  (db.blocks.filter fun k =>
    (k.user == viewer && targets.contains k.blocked) ||
      (k.blocked == viewer && targets.contains k.user)).map fun k => (k.user, k.blocked)

/-- `id`, `sender_id` and `recipient_id` of the pending requests between `viewer`
and a target. -/
def contextRequests (db : Db) (viewer : UserId) (targets : List UserId) :
    List (RequestId × UserId × UserId) :=
  (db.requests.filter fun r => r.isPending &&
    ((r.sender == viewer && targets.contains r.recipient) ||
      (r.recipient == viewer && targets.contains r.sender))).map
    fun r => (r.id, r.sender, r.recipient)

def contextPolicies (db : Db) (targets : List UserId) : List (UserId × String) :=
  (db.preferences.filter fun p => targets.contains p.user).map fun p => (p.user, p.messagePolicy)

end Db

/-! ### `RelationshipContext` -/

structure RelationshipContext where
  friends : List UserId
  blockedByMe : List UserId
  blockingMe : List UserId
  outgoing : List (UserId × RequestId)
  incoming : List (UserId × RequestId)
  policies : List (UserId × MessagePolicy)
  deriving DecidableEq, Repr

namespace RelationshipContext

/-- `RelationshipContext::default`. -/
def default : RelationshipContext where
  friends := []
  blockedByMe := []
  blockingMe := []
  outgoing := []
  incoming := []
  policies := []

def addBlock (viewer : UserId) (ctx : RelationshipContext) (row : UserId × UserId) :
    RelationshipContext :=
  if row.1 = viewer then { ctx with blockedByMe := row.2 :: ctx.blockedByMe }
  else { ctx with blockingMe := row.1 :: ctx.blockingMe }

def addRequest (viewer : UserId) (ctx : RelationshipContext) (row : RequestId × UserId × UserId) :
    RelationshipContext :=
  if row.2.1 = viewer then { ctx with outgoing := (row.2.2, row.1) :: ctx.outgoing }
  else { ctx with incoming := (row.2.1, row.1) :: ctx.incoming }

def addPolicy (ctx : RelationshipContext) (row : UserId × String) : RelationshipContext :=
  { ctx with policies := (row.1, .fromDb row.2) :: ctx.policies }

/-- The context built from the rows of the four queries. -/
def ofRows (viewer : UserId) (friends : List UserId) (blocks : List (UserId × UserId))
    (requests : List (RequestId × UserId × UserId)) (policies : List (UserId × String)) :
    RelationshipContext :=
  let ctx := { default with friends := friends }
  let ctx := blocks.foldl (addBlock viewer) ctx
  let ctx := requests.foldl (addRequest viewer) ctx
  policies.foldl addPolicy ctx

/-- `RelationshipContext::load`, with the four queries run on one state. -/
def load (db : Db) (viewer : UserId) (targets : List UserId) : RelationshipContext :=
  if targets.isEmpty then default
  else ofRows viewer (db.contextFriends viewer targets) (db.contextBlocks viewer targets)
    (db.contextRequests viewer targets) (db.contextPolicies targets)

/-- `RelationshipContext::relationship`: a block hides everything else, a friendship every
request. -/
def relationship (ctx : RelationshipContext) (target : UserId) :
    Relationship × Option RequestId :=
  if ctx.blockedByMe.contains target then (.blocked, none)
  else if ctx.friends.contains target then (.friends, none)
  else match ctx.outgoing.lookup target with
    | some requestId => (.outgoingPending, some requestId)
    | none =>
        match ctx.incoming.lookup target with
        | some requestId => (.incomingPending, some requestId)
        | none => (.none, none)

/-- `RelationshipContext::can_message`: the decision of `message_permission`, on what was
loaded. -/
def canMessage (ctx : RelationshipContext) (viewer target : UserId) : Bool :=
  if viewer = target ∨ ctx.blockedByMe.contains target ∨ ctx.blockingMe.contains target then false
  else match (ctx.policies.lookup target).getD .everyone with
    | .everyone => true
    | .nobody => false
    | .friends => ctx.friends.contains target

/-! ### What a context holds -/

variable {viewer target : UserId} {ctx : RelationshipContext}

theorem foldl_addBlock (rows : List (UserId × UserId)) :
    rows.foldl (addBlock viewer) ctx =
      { ctx with
        blockedByMe := ((rows.filter (·.1 == viewer)).map (·.2)).reverse ++ ctx.blockedByMe
        blockingMe := ((rows.filter (·.1 != viewer)).map (·.1)).reverse ++ ctx.blockingMe } := by
  induction rows generalizing ctx with
  | nil => rfl
  | cons row rows ih => by_cases h : row.1 = viewer <;> simp [ih, addBlock, h]

theorem foldl_addRequest (rows : List (RequestId × UserId × UserId)) :
    rows.foldl (addRequest viewer) ctx =
      { ctx with
        outgoing := ((rows.filter (·.2.1 == viewer)).map fun row => (row.2.2, row.1)).reverse ++
          ctx.outgoing
        incoming := ((rows.filter (·.2.1 != viewer)).map fun row => (row.2.1, row.1)).reverse ++
          ctx.incoming } := by
  induction rows generalizing ctx with
  | nil => rfl
  | cons row rows ih => by_cases h : row.2.1 = viewer <;> simp [ih, addRequest, h]

theorem foldl_addPolicy (rows : List (UserId × String)) :
    rows.foldl addPolicy ctx =
      { ctx with
        policies := (rows.map fun row => (row.1, MessagePolicy.fromDb row.2)).reverse ++
          ctx.policies } := by
  induction rows generalizing ctx with
  | nil => rfl
  | cons row rows ih => simp [ih, addPolicy]

variable {db : Db} {targets : List UserId}

/-- The context of a batch that is not empty, field by field. -/
theorem load_eq (h : target ∈ targets) : load db viewer targets =
    { friends := db.contextFriends viewer targets
      blockedByMe := (((db.contextBlocks viewer targets).filter (·.1 == viewer)).map (·.2)).reverse
      blockingMe := (((db.contextBlocks viewer targets).filter (·.1 != viewer)).map (·.1)).reverse
      outgoing := (((db.contextRequests viewer targets).filter (·.2.1 == viewer)).map
        fun row => (row.2.2, row.1)).reverse
      incoming := (((db.contextRequests viewer targets).filter (·.2.1 != viewer)).map
        fun row => (row.2.1, row.1)).reverse
      policies := ((db.contextPolicies targets).map
        fun row => (row.1, MessagePolicy.fromDb row.2)).reverse } := by
  have hne : targets.isEmpty = false := by
    rw [List.isEmpty_eq_false_iff]
    exact List.ne_nil_of_mem h
  simp [load, hne, ofRows, foldl_addBlock, foldl_addRequest, foldl_addPolicy, default]

theorem mem_blockedByMe (h : target ∈ targets) :
    target ∈ (load db viewer targets).blockedByMe ↔
      ∃ k ∈ db.blocks, k.user = viewer ∧ k.blocked = target := by
  rw [load_eq h]
  simp only [Db.contextBlocks, List.mem_reverse, List.mem_map, List.mem_filter]
  constructor
  · rintro ⟨row, ⟨⟨k, ⟨hk, -⟩, rfl⟩, hu⟩, ht⟩
    exact ⟨k, hk, by simpa using hu, ht⟩
  · rintro ⟨k, hk, rfl, rfl⟩
    exact ⟨_, ⟨⟨k, ⟨hk, by simp [h]⟩, rfl⟩, by simp⟩, rfl⟩

theorem mem_blockingMe (h : target ∈ targets) (hne : viewer ≠ target) :
    target ∈ (load db viewer targets).blockingMe ↔
      ∃ k ∈ db.blocks, k.user = target ∧ k.blocked = viewer := by
  rw [load_eq h]
  simp only [Db.contextBlocks, List.mem_reverse, List.mem_map, List.mem_filter]
  constructor
  · rintro ⟨row, ⟨⟨k, ⟨hk, hwhere⟩, rfl⟩, hu⟩, ht⟩
    have hnot : k.user ≠ viewer := by simpa using hu
    exact ⟨k, hk, ht, by simpa [hnot] using (by simpa [hnot] using hwhere : _ ∧ _).1⟩
  · rintro ⟨k, hk, rfl, rfl⟩
    exact ⟨_, ⟨⟨k, ⟨hk, by simp [h]⟩, rfl⟩, by simpa using Ne.symm hne⟩, rfl⟩

/-- The loaded context knows the blocks between the viewer and a target, in both
directions. -/
theorem blocked_load (h : target ∈ targets) (hne : viewer ≠ target) :
    (target ∈ (load db viewer targets).blockedByMe ∨
      target ∈ (load db viewer targets).blockingMe) ↔ db.blockExists viewer target = true := by
  rw [mem_blockedByMe h, mem_blockingMe h hne, Db.blockExists, List.any_eq_true]
  simp only [BlockRow.between_iff, SamePair]
  constructor
  · rintro (⟨k, hk, hu, hb⟩ | ⟨k, hk, hu, hb⟩)
    · exact ⟨k, hk, .inl ⟨hu, hb⟩⟩
    · exact ⟨k, hk, .inr ⟨hu, hb⟩⟩
  · rintro ⟨k, hk, ⟨hu, hb⟩ | ⟨hu, hb⟩⟩
    · exact .inl ⟨k, hk, hu, hb⟩
    · exact .inr ⟨k, hk, hu, hb⟩

end RelationshipContext

/-- A friendship row names the viewer on one side and the other user on the other. -/
theorem FriendshipRow.isOf_iff {f : FriendshipRow} (hlt : f.userLow < f.userHigh) {a b : UserId} :
    f.isOf a b = true ↔ (f.userLow = a ∨ f.userHigh = a) ∧ Db.other a f = b := by
  simp only [FriendshipRow.isOf, Db.other, Bool.and_eq_true, beq_iff_eq]
  grind

namespace RelationshipContext

variable {db : Db} {viewer target : UserId} {targets : List UserId}

/-- The loaded context knows the friends among the targets. -/
theorem friends_load (hs : SchemaOk db) (h : target ∈ targets) :
    target ∈ (load db viewer targets).friends ↔ db.areFriends viewer target = true := by
  rw [load_eq h, Db.areFriends, List.any_eq_true]
  simp only [Db.contextFriends, List.mem_map, List.mem_filter]
  constructor
  · rintro ⟨f, ⟨hf, hwhere⟩, hother⟩
    refine ⟨f, hf, (FriendshipRow.isOf_iff (hs.friendshipParties f hf).1).mpr ⟨?_, hother⟩⟩
    simp only [Bool.or_eq_true, Bool.and_eq_true, beq_iff_eq] at hwhere
    exact hwhere.imp And.left And.left
  · rintro ⟨f, hf, hof⟩
    obtain ⟨hside, hother⟩ := (FriendshipRow.isOf_iff (hs.friendshipParties f hf).1).mp hof
    refine ⟨f, ⟨hf, ?_⟩, hother⟩
    simp only [Db.other] at hother
    simp only [Bool.or_eq_true, Bool.and_eq_true, beq_iff_eq, List.contains_iff_mem]
    by_cases hlow : f.userLow = viewer
    · rw [if_pos hlow] at hother
      exact .inl ⟨hlow, hother ▸ h⟩
    · rw [if_neg hlow] at hother
      exact .inr ⟨hside.resolve_left hlow, hother ▸ h⟩

/-- With distinct keys a look-up finds the entry of its key. -/
theorem lookup_of_mem {β : Type} {l : List (UserId × β)} (hn : (l.map Prod.fst).Nodup)
    {k : UserId} {b : β} (h : (k, b) ∈ l) : l.lookup k = some b := by
  induction l with
  | nil => cases h
  | cons e l ih =>
      obtain ⟨hnot, hn⟩ := List.nodup_cons.mp hn
      rcases List.mem_cons.mp h with rfl | h
      · simp
      · have hne : (k == e.1) = false := by
          rw [beq_eq_false_iff_ne]
          rintro rfl
          exact hnot (List.mem_map.mpr ⟨_, h, rfl⟩)
        rw [List.lookup_cons, hne]
        exact ih hn h

/-- The loaded context knows the stored policy of every target. -/
theorem policies_load (hs : SchemaOk db) (h : target ∈ targets) :
    (load db viewer targets).policies.lookup target =
      (db.preferencesOf target).map fun p => .fromDb p.messagePolicy := by
  rw [load_eq h]
  simp only [Db.contextPolicies, List.map_map]
  cases hp : db.preferencesOf target with
  | none =>
      rw [Option.map_none, List.lookup_eq_none_iff]
      intro e he
      obtain ⟨p, hp', rfl⟩ := List.mem_map.mp (List.mem_reverse.mp he)
      have hnone := List.find?_eq_none.mp hp p (List.mem_of_mem_filter hp')
      rw [bne_iff_ne]
      intro heq
      exact hnone (beq_iff_eq.mpr heq.symm)
  | some p =>
      obtain rfl : p.user = target := by simpa using List.find?_some hp
      refine lookup_of_mem ?_ (List.mem_reverse.mpr (List.mem_map.mpr ⟨p, ?_, rfl⟩))
      · rw [List.map_reverse, List.nodup_reverse, List.map_map]
        exact hs.preferencesKeys.sublist (List.filter_sublist.map _)
      · exact List.mem_filter.mpr ⟨List.mem_of_find?_eq_some hp, by simpa using h⟩

/-- The two ways to decide on a policy agree. -/
theorem permission_fromDb (policy : String) (friends : Bool) :
    (permissionOfRow (false, policy, friends) == .allowed) =
      match MessagePolicy.fromDb policy with
      | .everyone => true
      | .nobody => false
      | .friends => friends := by
  by_cases hn : policy = "nobody"
  · subst hn
    rfl
  · by_cases hf : policy = "friends"
    · subst hf
      cases friends <;> rfl
    · simp [permissionOfRow, MessagePolicy.fromDb, hn, hf]

/-- **The shown permission is the enforced one**, for every target of a batch. -/
theorem canMessage_load (hs : SchemaOk db) (h : target ∈ targets) :
    (load db viewer targets).canMessage viewer target =
      (db.messagePermission viewer target == .allowed) := by
  by_cases hne : viewer = target
  · simp [canMessage, Db.messagePermission, hne]
  have hfriends : (load db viewer targets).friends.contains target =
      db.areFriends viewer target := by
    rw [Bool.eq_iff_iff, List.contains_iff_mem]
    exact friends_load hs h
  simp only [canMessage, Db.messagePermission, hne, if_false, false_or, List.contains_iff_mem,
    blocked_load h hne, policies_load hs h, hfriends, Db.permissionRow]
  cases hb : db.blockExists viewer target with
  | true => simp [permissionOfRow]
  | false =>
      rw [if_neg Bool.false_ne_true, permission_fromDb]
      cases db.preferencesOf target with
      | none => rfl
      | some p => rfl

end RelationshipContext

end DevbitBackend.Social
