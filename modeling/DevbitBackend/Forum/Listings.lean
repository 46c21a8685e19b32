import DevbitBackend.Lib.Select
import DevbitBackend.Lib.TxnReads
import DevbitBackend.Forum.References
import DevbitBackend.Social.Failures
import DevbitBackend.Social.Searches

/-!
# Forum.Listings

What the reading endpoints of the forum answer while other calls write
(`listings_exact`). A listing shows each row it should exactly once, with its author and
its counts, in its order, as the tables are at one moment while the request is being
served. `bootstrap` reads its parts one after the other: each part is exact at a moment of
its own, and the moments come in that order. A search finds the term literally, and a
filter or a term with a U+0000 is an error of the database. The other calls are those of
`Forum.Call`, none of which changes the table of the users.
-/

namespace DevbitBackend.Forum

open Txn Social Transition

/-! ### What is listed -/

/-- A post as the API shows it to `viewer`. -/
structure PostShown (env : Env) (db : Db) (viewer : Option UserId) (row : PostRow)
    (p : ForumPost) : Prop where
  head : p.id = row.id ∧ p.title = row.title ∧ p.category = row.category ∧ p.tags = row.tags ∧
    p.createdAt = row.createdAt
  state : p.content = row.content ∧ p.updatedAt = row.updatedAt ∧ p.viewCount = row.viewCount ∧
    p.isPinned = row.isPinned ∧ p.isLocked = row.isLocked
  author : ∃ u ∈ db.social.users, u.id = row.author ∧ p.author = rowToUser env u
  comments : p.commentCount = db.comments.countP fun c => c.post == row.id
  likes : ∃ likers : List UserId, likers.Nodup ∧ p.likeCount = likers.length ∧
    (∀ u, u ∈ likers ↔ ∃ l ∈ db.likes, l.post = row.id ∧ l.user = u) ∧
      (p.likedByMe = true ↔ ∃ u ∈ likers, viewer = some u)

/-- A comment as the API shows it. -/
structure CommentShown (env : Env) (db : Db) (row : CommentRow) (c : ForumComment) : Prop where
  columns : c.id = row.id ∧ c.postId = row.post ∧ c.content = row.content ∧
    c.createdAt = row.createdAt
  author : ∃ u ∈ db.social.users, u.id = row.author ∧ c.author = rowToUser env u

/-- A message as the API shows it. -/
structure MessageShown (env : Env) (db : Db) (row : MessageRow) (m : ForumMessage) : Prop where
  columns : m.id = row.id ∧ m.content = row.content ∧ m.createdAt = row.createdAt ∧
    m.isRead = row.isRead
  sender : ∃ u ∈ db.social.users, u.id = row.sender ∧ m.sender = rowToUser env u
  recipient : ∃ u ∈ db.social.users, u.id = row.recipient ∧ m.recipient = rowToUser env u

/-- Pinned posts first, then the newest. -/
def PinnedNewest (a b : PostRow) : Prop :=
  if a.isPinned = b.isPinned then b.createdAt ≤ a.createdAt else a.isPinned = true

/-- The category filter of a client: none, an empty one and `all` stand for every category. -/
def InCategory (category : Option String) (row : PostRow) : Prop :=
  category = none ∨ category = some "" ∨ category = some "all" ∨ category = some row.category

instance decidableInCategory (category : Option String) : DecidablePred (InCategory category) :=
  fun _ => inferInstanceAs (Decidable (_ ∨ _))

/-- The title or the content contains the term, in lower case. -/
def Mentions (text : UserSearch) (term : String) (row : PostRow) : Prop :=
  term.toList <:+: (text.lower row.title).toList ∨
    term.toList <:+: (text.lower row.content).toList

instance decidableMentions (text : UserSearch) (term : String) :
    DecidablePred (Mentions text term) :=
  fun _ => inferInstanceAs (Decidable (_ ∨ _))

/-- The message is one of the user's, who has not cleared it. -/
def InMailbox (db : Db) (u : UserId) (m : MessageRow) : Prop :=
  (m.sender = u ∨ m.recipient = u) ∧ ∀ c ∈ db.clears,
    c.user = u → c.partner = Db.partnerOf u m → c.clearedThrough < m.id

instance decidableInMailbox (db : Db) (u : UserId) : DecidablePred (InMailbox db u) :=
  fun _ => inferInstanceAs (Decidable (_ ∧ _))

/-- The name contains the term, in lower case. -/
def Named (text : UserSearch) (term : String) (u : UserRow) : Prop :=
  term.toList <:+: (text.lower u.name).toList

instance decidableNamed (text : UserSearch) (term : String) : DecidablePred (Named text term) :=
  fun _ => inferInstanceAs (Decidable (_ <:+: _))

/-- Names that start with the term come first, then those in which it comes earlier, then
the names in their order, and last the ids. -/
def RanksBefore (text : UserSearch) (term : String) (a b : UserRow) : Prop :=
  let starts (u : UserRow) : Prop := term.toList <+: (text.lower u.name).toList
  let place (u : UserRow) : Nat := text.position term (text.lower u.name)
  starts a ∧ ¬ starts b ∨ (starts a ↔ starts b) ∧ (place a < place b ∨ place a = place b ∧
    (text.lower a.name ≠ text.lower b.name ∧
        text.collate (text.lower a.name) (text.lower b.name) = true ∨
      text.lower a.name = text.lower b.name ∧ a.id ≤ b.id))

section Lists

variable (env : Env) (db : Db)

/-- All users. -/
abbrev ListsUsers : List ForumUser → Prop :=
  Select.Lists db.social.users (fun _ => True) (fun a b => a.id ≤ b.id)
    fun u x => x = rowToUser env u

/-- The posts that satisfy the condition, as `viewer` sees them. -/
abbrev ListsPosts (viewer : Option UserId) (where_ : PostRow → Prop) [DecidablePred where_] :
    List ForumPost → Prop :=
  Select.Lists db.posts where_ PinnedNewest (PostShown env db viewer)

/-- The comments that satisfy the condition, the oldest first. -/
abbrev ListsComments (where_ : CommentRow → Prop) [DecidablePred where_] :
    List ForumComment → Prop :=
  Select.Lists db.comments where_ (fun a b => a.createdAt ≤ b.createdAt) (CommentShown env db)

/-- The messages of `u`, the oldest first. -/
abbrev ListsMessages (u : UserId) : List ForumMessage → Prop :=
  Select.Lists db.social.messages (InMailbox db u) (fun a b => a.createdAt ≤ b.createdAt)
    (MessageShown env db)

end Lists

/-- The answer of a reading endpoint whose statements have seen the tables `dbs`. A text
with a U+0000 cannot be bound: the query is rejected, and the answer is 500. -/
inductive Call.Answered (env : Env) (text : UserSearch) : Call → List Db → Answer → Prop
  | users {db us} : ListsUsers env db us → Answered env text .listUsers [db] (.users us)
  | posts {v category db ps} : category.all storable = true →
      ListsPosts env db v (InCategory category) ps →
      Answered env text (.listPosts v category) [db] (.posts ps)
  | badCategory {v category db} : category.all storable = false →
      Answered env text (.listPosts v category) [db] (.failure 500)
  | noTerm {v q} : searchTerm text.toLowercase q = none →
      Answered env text (.searchPosts v q) [] (.posts [])
  | found {v q term db ps} : searchTerm text.toLowercase q = some term → storable term = true →
      ListsPosts env db v (Mentions text term) ps →
      Answered env text (.searchPosts v q) [db] (.posts ps)
  | badTerm {v q term db} : searchTerm text.toLowercase q = some term → storable term = false →
      Answered env text (.searchPosts v q) [db] (.failure 500)
  | myPosts {u db ps} : ListsPosts env db (some u) (fun row => row.author = u) ps →
      Answered env text (.myPosts (some u)) [db] (.posts ps)
  | comments {id db cs} : ListsComments env db (fun row => row.post = id) cs →
      Answered env text (.listComments id) [db] (.comments cs)
  | messages {u db₀ db ms} : db₀.social.userExists u = true → ListsMessages env db u ms →
      Answered env text (.listMessages (some u)) [db₀, db] (.messages ms)
  | noUser {u q db₀} : db₀.social.userExists u = true → searchTerm text.toLowercase q = none →
      Answered env text (.searchUsers (some u) q) [db₀] (.users [])
  | foundUsers {u q term db₀ db ranked} : db₀.social.userExists u = true →
      searchTerm text.toLowercase q = some term → storable term = true →
      Select.Lists db.social.users (Named text term) (RanksBefore text term)
        (fun u x => x = rowToUser env u) ranked →
      Answered env text (.searchUsers (some u) q) [db₀, db] (.users (ranked.take 20))
  | badName {u q term db₀ db} : db₀.social.userExists u = true →
      searchTerm text.toLowercase q = some term → storable term = false →
      Answered env text (.searchUsers (some u) q) [db₀, db] (.failure 500)
  | anonymous {c} : c = .myPosts none ∨ c = .listMessages none ∨ (∃ q, c = .searchUsers none q) →
      Answered env text c [] (.failure 401)
  | unknown {c u db} : c = .listMessages (some u) ∨ (∃ q, c = .searchUsers (some u) q) →
      db.social.userExists u = false → Answered env text c [db] (.failure 401)
  | guest {b db₁ db₂ db₃} : ListsUsers env db₁ b.users →
      ListsPosts env db₂ none (fun _ => True) b.posts →
      ListsComments env db₃ (fun _ => True) b.comments → b.messages = [] →
      Answered env text (.bootstrap none) [db₁, db₂, db₃] (.bootstrap b)
  | bootstrap {u b db₁ db₂ db₃ db₄} : ListsUsers env db₁ b.users →
      ListsPosts env db₂ (some u) (fun _ => True) b.posts →
      ListsComments env db₃ (fun _ => True) b.comments → ListsMessages env db₄ u b.messages →
      Answered env text (.bootstrap (some u)) [db₁, db₂, db₃, db₄] (.bootstrap b)

/-- The reading endpoints. -/
def Call.lists : Call → Bool
  | .listUsers | .listPosts _ _ | .searchPosts _ _ | .myPosts _ | .listComments _
  | .listMessages _ | .searchUsers _ _ | .bootstrap _ => true
  | _ => false

/-! ### The queries -/

section Queries

variable {env : Env} {text : UserSearch} {db : Db} {viewer : Option UserId} {u : UserId}

/-- The pattern of a search finds what contains the term. -/
theorem like_iff_infix (h : Documented text) (term value : String) :
    text.like value ("%" ++ escapeLikePattern term ++ "%") = true ↔
      term.toList <:+: value.toList := by
  rw [h.like, ← Like.likes_contains]
  simp [escapeLikePattern_toList]

/-- The other one, what starts with it. -/
theorem like_iff_prefix (h : Documented text) (term value : String) :
    text.like value (escapeLikePattern term ++ "%") = true ↔ term.toList <+: value.toList := by
  rw [h.like, ← Like.likes_startsWith]
  simp [escapeLikePattern_toList]

/-- The join with `users` finds one row. -/
theorem join_user (hkeys : (db.social.users.map (·.id)).Nodup)
    (hexists : db.social.userExists u = true) :
    ∃ row ∈ db.social.users, row.id = u ∧ (db.social.users.filter (·.id == u)) = [row] := by
  obtain ⟨row, hrow, hid⟩ := List.any_eq_true.mp hexists
  obtain rfl := beq_iff_eq.mp hid
  refine ⟨row, hrow, rfl, List.perm_singleton.mp ?_⟩
  have hnodup := (hkeys.of_map).filter fun r => r.id == row.id
  refine (List.perm_ext_iff_of_nodup hnodup (List.nodup_singleton row)).mpr fun r => ?_
  rw [List.mem_filter, List.mem_singleton, beq_iff_eq]
  refine ⟨fun ⟨hr, hsame⟩ => List.inj_on_of_nodup_map hkeys hr hrow hsame, ?_⟩
  rintro rfl
  exact ⟨hrow, rfl⟩

theorem pinnedFirst_trans (a b c : PostView) (hab : Db.pinnedFirst a b = true)
    (hbc : Db.pinnedFirst b c = true) : Db.pinnedFirst a c = true := by
  unfold Db.pinnedFirst at *
  grind

theorem pinnedFirst_total (a b : PostView) :
    (Db.pinnedFirst a b || Db.pinnedFirst b a) = true := by
  unfold Db.pinnedFirst
  grind

/-- The rows of a post query. -/
theorem lists_postList (h : Referenced db) (g : PostRow → Bool) :
    Select.Lists db.posts (fun p => g p = true) PinnedNewest
      (fun row k => row ∈ db.posts ∧ db.postViews viewer row = [k] ∧ k.post = row)
      (db.postList viewer g) := by
  refine Select.lists_join (fun row hrow => ?_) pinnedFirst_trans pinnedFirst_total
    fun a b hab => ?_
  · obtain ⟨u, -, -, hjoin⟩ := join_user h.users (h.posts row hrow)
    refine ⟨_, by rw [Db.postViews, hjoin, List.map_singleton], rfl⟩
  · unfold Db.pinnedFirst at hab
    unfold PinnedNewest
    split at hab
    · rename_i hpinned
      rw [if_pos hpinned]
      exact of_decide_eq_true hab
    · rename_i hpinned
      rw [if_neg hpinned]
      exact hab

theorem rowToUser_eq {row : UserRow} (hid : row.id = u) :
    forumUser env u row.name row.avatarUrl = rowToUser env row := by
  rw [rowToUser, hid]

/-- A user likes a post once, so the count of the rows is that of the users. -/
theorem likers_nodup (h : Referenced db) (id : PostId) :
    ((db.likes.filter (·.post == id)).map (·.user)).Nodup := by
  have hkeys := h.likes.sublist ((List.filter_sublist (p := (·.post == id))).map _)
  have hpairs : (db.likes.filter (·.post == id)).map (fun l => (l.post, l.user)) =
      ((db.likes.filter (·.post == id)).map (·.user)).map fun u => (id, u) := by
    rw [List.map_map]
    refine List.map_congr_left fun l hl => ?_
    rw [beq_iff_eq.mp (List.mem_filter.mp hl).2]
    rfl
  rw [hpairs] at hkeys
  exact hkeys.of_map

/-- How a row of a post query is shown. -/
theorem postShown (h : Referenced db) {row : PostRow} {k : PostView}
    (hk : row ∈ db.posts ∧ db.postViews viewer row = [k] ∧ k.post = row) :
    PostShown env db viewer row (rowToPost env k) := by
  obtain ⟨hrow, hviews, hpost⟩ := hk
  obtain ⟨u, hu, hid, hjoin⟩ := join_user h.users (h.posts row hrow)
  rw [Db.postViews, hjoin, List.map_singleton] at hviews
  obtain rfl := List.singleton_inj.mp hviews
  refine ⟨⟨rfl, rfl, rfl, rfl, rfl⟩, ⟨rfl, rfl, rfl, rfl, rfl⟩,
    ⟨u, hu, hid, rowToUser_eq hid⟩, ?_, ?_⟩
  · exact List.countP_eq_length_filter.symm
  · have hmem : ∀ v, v ∈ (db.likes.filter (·.post == row.id)).map (·.user) ↔
        ∃ l ∈ db.likes, l.post = row.id ∧ l.user = v := by
      simp [and_assoc]
    refine ⟨_, likers_nodup h row.id, (List.length_map _).symm, hmem, ?_⟩
    simp only [hmem]
    simp only [rowToPost, List.any_eq_true, List.mem_filter, beq_iff_eq]
    constructor
    · rintro ⟨l, ⟨hl, hpost⟩, hviewer⟩
      exact ⟨l.user, ⟨l, hl, hpost, rfl⟩, hviewer⟩
    · rintro ⟨v, ⟨l, hl, hpost, rfl⟩, hviewer⟩
      exact ⟨l, ⟨hl, hpost⟩, hviewer⟩

/-- **A post query lists the posts** that its `WHERE` lets through, each once, with its
counters. -/
theorem lists_posts (h : Referenced db) {where_ : PostRow → Prop} [DecidablePred where_]
    {g : PostRow → Bool} (hg : ∀ p, g p = true ↔ where_ p) :
    ListsPosts env db viewer where_ ((db.postList viewer g).map (rowToPost env)) :=
  ((lists_postList h g).congr (.refl _) fun p _ => hg p).map fun _ _ hk => postShown h hk

/-- A search filters the rows of the query for all posts. -/
theorem lists_found (h : Referenced db) (htext : Documented text) (term : String) :
    ListsPosts env db viewer (Mentions text term)
      (((db.postList viewer fun _ => true).filter fun row =>
        text.like (text.lower row.post.title) ("%" ++ escapeLikePattern term ++ "%") ||
          text.like (text.lower row.post.content) ("%" ++ escapeLikePattern term ++ "%")).map
            (rowToPost env)) := by
  have hmentions : ∀ (row : PostRow) (k : PostView),
      row ∈ db.posts ∧ db.postViews viewer row = [k] ∧ k.post = row →
      ((text.like (text.lower k.post.title) ("%" ++ escapeLikePattern term ++ "%") ||
        text.like (text.lower k.post.content) ("%" ++ escapeLikePattern term ++ "%")) = true ↔
          Mentions text term row) := by
    rintro row k ⟨-, -, rfl⟩
    rw [Bool.or_eq_true, like_iff_infix htext, like_iff_infix htext]
    exact Iff.rfl
  have hrows := (lists_postList h fun _ => true).filter hmentions
  exact (hrows.congr (.refl _) fun p _ => and_iff_right rfl).map fun _ _ hk => postShown h hk

/-- **A comment query lists the comments** of the post, or all of them, each once with its
author. -/
theorem lists_comments (h : Referenced db) {where_ : CommentRow → Prop} [DecidablePred where_]
    {g : CommentRow → Bool} (hg : ∀ row, g row = true ↔ where_ row) :
    ListsComments env db where_ ((db.commentList g).map (rowToComment env)) := by
  have hrows : Select.Lists db.comments (fun row => g row = true)
      (fun a b => a.createdAt ≤ b.createdAt)
      (fun row k => row ∈ db.comments ∧ ((db.social.users.filter (·.id == row.author)).map
        fun u => (row, u)) = [k] ∧ k.1 = row) (db.commentList g) := by
    refine Select.lists_join (fun row hrow => ?_) (fun a b c hab hbc => ?_) (fun a b => ?_)
      fun a b hab => of_decide_eq_true hab
    · obtain ⟨u, -, -, hjoin⟩ := join_user h.users (h.comments row hrow)
      exact ⟨_, by rw [hjoin, List.map_singleton], rfl⟩
    · exact decide_eq_true ((of_decide_eq_true hab).trans (of_decide_eq_true hbc))
    · simpa using Nat.le_total _ _
  refine (hrows.congr (.refl _) fun p _ => hg p).map fun row k hk => ?_
  obtain ⟨hrow, hviews, -⟩ := hk
  obtain ⟨u, hu, hid, hjoin⟩ := join_user h.users (h.comments row hrow)
  rw [hjoin, List.map_singleton] at hviews
  obtain rfl := List.singleton_inj.mp hviews
  exact ⟨⟨rfl, rfl, rfl, rfl⟩, u, hu, hid, rowToUser_eq hid⟩

/-- **The query of the messages lists the mailbox.** -/
theorem lists_messages (h : Referenced db) (u : UserId) :
    ListsMessages env db u ((db.messagesFor u).map (rowToMessage env)) := by
  have hrows : Select.Lists db.social.messages
      (fun m => ((m.sender == u || m.recipient == u) && !db.cleared u m) = true)
      (fun a b => a.createdAt ≤ b.createdAt)
      (fun m k => m ∈ db.social.messages ∧ ((db.social.users.filter (·.id == m.sender)).flatMap
        fun s => (db.social.users.filter (·.id == m.recipient)).map fun r =>
          ({ message := m, sender := s, recipient := r } : MessageView)) = [k] ∧ k.message = m)
      (db.messagesFor u) := by
    refine Select.lists_join (fun m hm => ?_) (fun a b c hab hbc => ?_) (fun a b => ?_)
      fun a b hab => of_decide_eq_true hab
    · obtain ⟨s, -, -, hsender⟩ := join_user h.users (h.messages m hm).1
      obtain ⟨r, -, -, hrecipient⟩ := join_user h.users (h.messages m hm).2
      exact ⟨_, by rw [hsender, hrecipient, List.flatMap_singleton, List.map_singleton], rfl⟩
    · exact decide_eq_true ((of_decide_eq_true hab).trans (of_decide_eq_true hbc))
    · simpa using Nat.le_total _ _
  refine (hrows.congr (.refl _) fun m _ => ?_).map fun m k hk => ?_
  · simp [InMailbox, Db.cleared]
  · obtain ⟨hm, hviews, -⟩ := hk
    obtain ⟨s, hs, hsid, hsender⟩ := join_user h.users (h.messages m hm).1
    obtain ⟨r, hr, hrid, hrecipient⟩ := join_user h.users (h.messages m hm).2
    rw [hsender, hrecipient, List.flatMap_singleton, List.map_singleton] at hviews
    obtain rfl := List.singleton_inj.mp hviews
    exact ⟨⟨rfl, rfl, rfl, rfl⟩, ⟨s, hs, hsid, rowToUser_eq hsid⟩, r, hr, hrid, rowToUser_eq hrid⟩

/-- Rows of one table, which are sorted and shown one by one. -/
theorem lists_sorted {rows : List UserRow} {g : UserRow → Bool} {where_ : UserRow → Prop}
    [DecidablePred where_] (hg : ∀ u, g u = true ↔ where_ u) {le : UserRow → UserRow → Bool}
    {before : UserRow → UserRow → Prop} (htrans : ∀ a b c, le a b = true → le b c = true →
      le a c = true) (htotal : ∀ a b, (le a b || le b a) = true)
    (hbefore : ∀ a b, le a b = true → before a b) :
    Select.Lists rows where_ before (fun u x => x = rowToUser env u)
      (((rows.filter g).mergeSort le).map (rowToUser env)) := by
  have hrows : Select.Lists rows (fun u => g u = true) before
      (fun u k => u ∈ rows ∧ [u] = [k] ∧ k = u)
      (((rows.filter g).flatMap fun u => [u]).mergeSort le) :=
    Select.lists_join (fun u _ => ⟨u, rfl, rfl⟩) htrans htotal hbefore
  rw [List.flatMap_singleton'] at hrows
  exact (hrows.congr (.refl _) fun u _ => hg u).map fun u k hk => by rw [hk.2.2]

/-- **The query of the users lists them.** -/
theorem lists_users :
    ListsUsers env db ((db.social.users.mergeSort fun a b => a.id ≤ b.id).map (rowToUser env)) := by
  have hrows : ListsUsers env db (((db.social.users.filter fun _ => true).mergeSort
      fun a b => a.id ≤ b.id).map (rowToUser env)) :=
    lists_sorted (fun _ => ⟨fun _ => trivial, fun _ => rfl⟩)
      (fun a b c hab hbc => decide_eq_true ((of_decide_eq_true hab).trans (of_decide_eq_true hbc)))
      (fun a b => by simpa using Int.le_total _ _) fun a b hab => of_decide_eq_true hab
  rwa [List.filter_true] at hrows

theorem ranksBefore_of_searchOrder (htext : Documented text) (term : String) {a b : UserRow}
    (h : searchOrder text term (escapeLikePattern term ++ "%") a b = true) :
    RanksBefore text term a b := by
  have ha := like_iff_prefix htext term (text.lower a.name)
  have hb := like_iff_prefix htext term (text.lower b.name)
  unfold searchOrder at h
  unfold RanksBefore
  simp only [← ha, ← hb]
  grind

/-- **The search of the users ranks them.** -/
theorem lists_ranked (htext : Documented text) (term : String) :
    Select.Lists db.social.users (Named text term) (RanksBefore text term)
      (fun u x => x = rowToUser env u)
      ((((db.social.users.mergeSort fun a b => a.id ≤ b.id).filter fun u =>
        text.like (text.lower u.name) ("%" ++ escapeLikePattern term ++ "%")).mergeSort
          (searchOrder text term (escapeLikePattern term ++ "%"))).map (rowToUser env)) := by
  refine Select.Lists.congr ?_ (List.mergeSort_perm _ fun a b => a.id ≤ b.id) fun _ _ => Iff.rfl
  exact lists_sorted (fun u => like_iff_infix htext term (text.lower u.name))
    (searchOrder_trans htext) (searchOrder_total htext)
    fun a b hab => ranksBefore_of_searchOrder htext term hab

end Queries

/-! ### The handlers -/

section Handlers

variable {env : Env} {text : UserSearch} {Q : List (Nat × Db) → Answer → Prop} {c : Call}
  {failed : Answer}

/-- What a reading endpoint promises of tables whose keys are in order. -/
abbrev Call.Promised (env : Env) (text : UserSearch) (c : Call) (seen : List (Nat × Db))
    (a : Answer) : Prop :=
  (∀ m ∈ seen, Referenced m.2) → c.Answered env text (seen.map Prod.snd) a

theorem reads_getCurrentUser {u : UserId} {k : ForumUser → Code}
    (hnone : ∀ (now : Nat) (db : Db), db.social.userExists u = false →
      Q [(now, db)] (.failure 401))
    (hk : ∀ (now : Nat) (db : Db) (user : ForumUser), db.social.userExists u = true →
      user.id = u → (k user).Reads failed fun seen a => Q ((now, db) :: seen) a) :
    (getCurrentUser env u k).Reads failed Q := by
  refine .read (fun db => db.social.loadUser u) (fun _ _ _ => rfl) fun now db => ?_
  have hfound := loadUser_isSome db.social u
  cases hload : db.social.loadUser u with
  | none =>
      rw [hload] at hfound
      exact .done (hnone now db hfound.symm)
  | some row =>
      rw [hload] at hfound
      have hid : (row.id == u) = true := List.find?_some (p := fun r : UserRow => r.id == u) hload
      refine hk now db (rowToUser env row) hfound.symm ?_
      exact beq_iff_eq.mp hid

theorem reads_requireCurrentUser {v : Option UserId} {k : ForumUser → Code}
    (hanonymous : v = none → Q [] (.failure 401))
    (hnone : ∀ u (now : Nat) (db : Db), v = some u → db.social.userExists u = false →
      Q [(now, db)] (.failure 401))
    (hk : ∀ (now : Nat) (db : Db) (user : ForumUser), v = some user.id →
      db.social.userExists user.id = true →
        (k user).Reads failed fun seen a => Q ((now, db) :: seen) a) :
    (requireCurrentUser env v k).Reads failed Q := by
  cases v with
  | none => exact .done (hanonymous rfl)
  | some u =>
      refine reads_getCurrentUser (fun now db hgone => hnone u now db rfl hgone) ?_
      rintro now db user hexists rfl
      exact hk now db user rfl hexists

theorem reads_listUsers :
    (listUsers env).Reads failed (Call.listUsers.Promised env text) := by
  refine .read (fun db => db.social.users.mergeSort fun a b => a.id ≤ b.id) (fun _ _ _ => rfl)
    fun now db => .done fun _ => ?_
  exact .users lists_users

theorem categoryFilter_iff (category : Option String) (p : PostRow) :
    (categoryFilter category).all (p.category == ·) = true ↔ InCategory category p := by
  cases category with
  | none => exact ⟨fun _ => .inl rfl, fun _ => rfl⟩
  | some c =>
      simp only [InCategory, Option.some.injEq, reduceCtorEq, false_or]
      by_cases hany : c = "" ∨ c = "all"
      · have hnone : categoryFilter (some c) = none := by
          rcases hany with rfl | rfl <;> rfl
        rw [hnone]
        exact ⟨fun _ => hany.imp_right .inl, fun _ => rfl⟩
      · obtain ⟨hempty, hall⟩ := not_or.mp hany
        have hsome : categoryFilter (some c) = some c := by
          simp [categoryFilter, Option.filter, hempty, hall]
        rw [hsome, Option.all_some, beq_iff_eq]
        exact ⟨fun h => .inr (.inr h.symm),
          fun h => (h.resolve_left hempty).resolve_left hall ▸ rfl⟩

/-- The values that mean every category hold no NUL. -/
theorem storable_categoryFilter (category : Option String) :
    (categoryFilter category).all storable = category.all storable := by
  cases category with
  | none => rfl
  | some c =>
      by_cases hany : c = "" ∨ c = "all"
      · rcases hany with rfl | rfl <;> rfl
      · obtain ⟨hempty, hall⟩ := not_or.mp hany
        simp [categoryFilter, Option.filter, hempty, hall]

/-- The patterns of a search hold the NULs of its term. -/
theorem storable_patterns (term : String) :
    storable ("%" ++ escapeLikePattern term ++ "%") = storable term ∧
      storable (escapeLikePattern term ++ "%") = storable term := by
  have hpercent : storable "%" = true := rfl
  simp [hpercent]

theorem reads_listPosts (v : Option UserId) (category : Option String) :
    (listPosts env v category).Reads (.failure 500)
      ((Call.listPosts v category).Promised env text) := by
  cases hstorable : category.all storable with
  | true =>
      refine .read
        (fun db => db.postList v fun p => (categoryFilter category).all (p.category == ·))
        (fun _ _ _ => ?_) fun now db => .done fun hrefs => ?_
      · exact if_pos ((storable_categoryFilter category).trans hstorable)
      · have hdb := hrefs (now, db) List.mem_cons_self
        exact .posts hstorable (lists_posts hdb (categoryFilter_iff category))
  | false =>
      refine .rejected (fun _ _ _ => ?_) fun now db _ => .badCategory hstorable
      exact if_neg (ne_true_of_eq_false ((storable_categoryFilter category).trans hstorable))

/-- A search of posts binds its pattern, which must not hold a NUL. -/
theorem eval_likePosts {viewer : Option UserId} {pattern : String}
    (h : storable pattern = true) (now seq : Nat) (db : Db) :
    engine.eval (.likePosts viewer pattern) now seq db =
      some (db.postList viewer fun _ => true, []) := by
  simp only [eval, h, if_true]

theorem eval_likePosts_rejected {viewer : Option UserId} {pattern : String}
    (h : storable pattern = false) (now seq : Nat) (db : Db) :
    engine.eval (.likePosts viewer pattern) now seq db = none := by
  simp only [eval, h, Bool.false_eq_true, if_false]

theorem reads_searchPosts (htext : Documented text) (v : Option UserId) (q : Option String) :
    (searchPosts env text v q).Reads (.failure 500)
      ((Call.searchPosts v q).Promised env text) := by
  unfold searchPosts
  cases hterm : searchTerm text.toLowercase q with
  | none => exact .done fun _ => .noTerm hterm
  | some term =>
      have hpattern := (storable_patterns term).1
      cases hstorable : storable term with
      | true =>
          refine .read (fun db => db.postList v fun _ => true) (fun now seq db => ?_)
            fun now db => .done fun hrefs => ?_
          · exact eval_likePosts (hpattern.trans hstorable) now seq db
          · have hdb := hrefs (now, db) List.mem_cons_self
            exact .found hterm hstorable (lists_found hdb htext term)
      | false =>
          refine .rejected (fun now seq db => ?_) fun now db _ => .badTerm hterm hstorable
          exact eval_likePosts_rejected (hpattern.trans hstorable) now seq db

theorem reads_myPosts (v : Option UserId) :
    (myPosts env v).Reads failed ((Call.myPosts v).Promised env text) := by
  cases v with
  | none => exact .done fun _ => .anonymous (.inl rfl)
  | some u =>
      refine .read (fun db => db.postList (some u) (·.author == u)) (fun _ _ _ => rfl)
        fun now db => .done fun hrefs => ?_
      exact .myPosts (lists_posts (hrefs (now, db) List.mem_cons_self) fun _ => beq_iff_eq)

theorem reads_listComments (id : PostId) :
    (listComments env id).Reads failed ((Call.listComments id).Promised env text) := by
  refine .read (fun db => db.commentList fun c => (some id).all (c.post == ·)) (fun _ _ _ => rfl)
    fun now db => .done fun hrefs => ?_
  exact .comments (lists_comments (hrefs (now, db) List.mem_cons_self) fun _ => beq_iff_eq)

theorem reads_listMessages (v : Option UserId) :
    (listMessages env v).Reads failed ((Call.listMessages v).Promised env text) := by
  refine reads_requireCurrentUser ?_ ?_ fun now₀ db₀ user hv hexists => ?_
  · rintro rfl _
    exact .anonymous (.inr (.inl rfl))
  · rintro u now db rfl hnone _
    exact .unknown (.inl rfl) hnone
  · subst hv
    refine .read (fun db => db.messagesFor user.id) (fun _ _ _ => rfl)
      fun now db => .done fun hrefs => ?_
    exact .messages hexists (lists_messages (hrefs (now, db) (by simp)) user.id)

/-- Both patterns and the term itself are bound, the term for the order. -/
theorem eval_likeUsers {containsPattern prefixPattern query : String}
    (hcontains : storable containsPattern = true) (hstarts : storable prefixPattern = true)
    (hquery : storable query = true) (now seq : Nat) (db : Db) :
    engine.eval (.likeUsers containsPattern prefixPattern query) now seq db =
      some (db.social.users.mergeSort fun a b => a.id ≤ b.id, []) := by
  simp only [eval, hcontains, hstarts, hquery, Bool.and_true, if_true]

theorem eval_likeUsers_rejected {containsPattern prefixPattern query : String}
    (hquery : storable query = false) (now seq : Nat) (db : Db) :
    engine.eval (.likeUsers containsPattern prefixPattern query) now seq db = none := by
  simp only [eval, hquery, Bool.and_false, Bool.false_eq_true, if_false]

theorem reads_searchUsers (htext : Documented text) (v : Option UserId) (q : Option String) :
    (searchUsers env text v q).Reads (.failure 500)
      ((Call.searchUsers v q).Promised env text) := by
  refine reads_requireCurrentUser ?_ ?_ fun now₀ db₀ user hv hexists => ?_
  · rintro rfl _
    exact .anonymous (.inr (.inr ⟨q, rfl⟩))
  · rintro u now db rfl hnone _
    exact .unknown (.inr ⟨q, rfl⟩) hnone
  · subst hv
    cases hterm : searchTerm text.toLowercase q with
    | none => exact .done fun _ => .noUser hexists hterm
    | some term =>
        obtain ⟨hcontains, hstarts⟩ := storable_patterns term
        cases hstorable : storable term with
        | true =>
            refine .read (fun db => db.social.users.mergeSort fun a b => a.id ≤ b.id)
              (fun now seq db => ?_) fun now db => .done fun _ => ?_
            · exact eval_likeUsers (hcontains.trans hstorable) (hstarts.trans hstorable) hstorable
                now seq db
            · rw [List.map_take]
              exact .foundUsers hexists hterm hstorable (lists_ranked htext term)
        | false =>
            refine .rejected (fun now seq db => ?_) fun now db _ => ?_
            -- the database refuses a pattern with a NUL
            · exact eval_likeUsers_rejected hstorable now seq db
            · exact .badName hexists hterm hstorable

theorem reads_bootstrap (v : Option UserId) :
    (bootstrap env v).Reads failed ((Call.bootstrap v).Promised env text) := by
  refine .read (fun db => db.social.users.mergeSort fun a b => a.id ≤ b.id) (fun _ _ _ => rfl)
    fun now₁ db₁ => .read (fun db => db.postList v fun _ => true) (fun _ _ _ => rfl)
    fun now₂ db₂ => .read (fun db => db.commentList fun _ => true) (fun _ _ _ => rfl)
    fun now₃ db₃ => ?_
  cases v with
  | none =>
      refine .done fun hrefs => .guest lists_users ?_ ?_ rfl
      · exact lists_posts (hrefs (now₂, db₂) (by simp)) fun _ => ⟨fun _ => trivial, fun _ => rfl⟩
      · exact lists_comments (hrefs (now₃, db₃) (by simp)) fun _ => ⟨fun _ => trivial, fun _ => rfl⟩
  | some u =>
      refine .read (fun db => db.messagesFor u) (fun _ _ _ => rfl)
        fun now₄ db₄ => .done fun hrefs => .bootstrap lists_users ?_ ?_ ?_
      · exact lists_posts (hrefs (now₂, db₂) (by simp)) fun _ => ⟨fun _ => trivial, fun _ => rfl⟩
      · exact lists_comments (hrefs (now₃, db₃) (by simp)) fun _ => ⟨fun _ => trivial, fun _ => rfl⟩
      · exact lists_messages (hrefs (now₄, db₄) (by simp)) u

/-- **Every reading endpoint keeps its promise** as a program of reads, one moment for
each of its statements. -/
theorem Call.reads (htext : Documented text) (hlists : c.lists = true) :
    (c.code env text).Reads c.failed (c.Promised env text) := by
  cases c with
  | listUsers => exact reads_listUsers
  | listPosts v category => exact reads_listPosts v category
  | searchPosts v q => exact reads_searchPosts htext v q
  | myPosts v => exact reads_myPosts v
  | listComments id => exact reads_listComments id
  | listMessages v => exact reads_listMessages v
  | searchUsers v q => exact reads_searchUsers htext v q
  | bootstrap v => exact reads_bootstrap v
  | _ => cases hlists

end Handlers

/-- **Listings.** A reading endpoint that has not arrived yet, and answers some time later in
a run of these calls, has met a failing database call, or its answer is exact: it is
the listing of the tables of moments in between, one for each of its statements and in
their order. -/
theorem listings_exact {ι : Type} [DecidableEq ι] {env : Env} {text : UserSearch} {db : Db}
    {seq now poolSize : Nat} {faulty : Bool} {calls : ι → Call} {s s' : Server ι}
    {ls : List (Label ι)} {i : ι} {a : Answer} (htext : Documented text)
    (hdb : Consistent ⟨seq, db⟩) (hkeys : Referenced db)
    (h : Reachable (serve poolSize faulty calls) (server env text db seq now calls) s)
    (hrun : Run (serve poolSize faulty calls) s ls s') (hlists : (calls i).lists = true)
    (hidle : s.calls i = .idle ((calls i).code env text)) (hdone : s'.calls i = .done a) :
    (.fail i ∈ ls ∧ a = (calls i).failed) ∨ ∃ ts : List (Server ι),
      Through (serve poolSize faulty calls) s ts s' ∧
        (calls i).Answered env text (ts.map Sys.db) a := by
  refine (reads_run hrun hidle ((calls i).reads htext hlists) hdone).imp_right ?_
  rintro ⟨ts, hts, hanswer⟩
  have hseen : (ts.map Sys.seen).map Prod.snd = ts.map Sys.db := by
    rw [List.map_map]
    rfl
  refine ⟨ts, hts, hseen ▸ hanswer fun m hm => ?_⟩
  obtain ⟨t, ht, rfl⟩ := List.mem_map.mp hm
  exact referenced_reachable hdb hkeys (h.trans (hts.between ht).1)

/-! 1 asks for its posts and deletes the only one, before it has been answered. -/

def listAndDelete : Bool → Call
  | false => .myPosts (some 1)
  | true => .deletePost (some 1) 1

theorem demoDb_referenced : Referenced demoDb where
  users := by decide
  posts := by decide
  comments := by decide
  messages := by decide
  likes := by decide

theorem listings_exact_deleted : ∃ (s t : Server Bool) (ps : List ForumPost),
    (Db.posts s.db).map (·.id) = [2] ∧ s.calls false = .done (.posts ps) ∧
      Reachable (serve 1 false listAndDelete) t s ∧
      ListsPosts demoEnv t.db (some 1) (fun row => row.author = 1) ps := by
  let ls : List (Label Bool) :=
    List.replicate 3 (.run false) ++ List.replicate 8 (.run true) ++ [.run false]
  have hrun : (replay (serve 1 false listAndDelete)
      (server demoEnv plainText demoDb 0 0 listAndDelete) ls).map
        (fun s => ((Db.posts s.db).map (·.id), (s.calls false).isDone)) = some ([2], true) := by
    decide +kernel
  obtain ⟨s, hs, hobs⟩ := Option.map_eq_some_iff.mp hrun
  obtain ⟨hposts, hdone⟩ := Prod.mk.inj hobs
  obtain ⟨a, ha⟩ := Phase.isDone_iff.mp hdone
  have hexact := listings_exact plainText_documented demoDb_consistent demoDb_referenced
    (.refl _) (run_of_replay hs) (i := false) rfl rfl ha
  rcases hexact with ⟨hfail, -⟩ | ⟨ts, hts, hanswer⟩
  · exact absurd hfail (by decide)
  · change (Call.myPosts (some 1)).Answered _ _ (ts.map Sys.db) a at hanswer
    generalize hdbs : ts.map Sys.db = dbs at hanswer
    cases hanswer with
    | @myPosts _ db ps hlists =>
        obtain ⟨t, ht, rfl⟩ := List.mem_map.mp (hdbs ▸ List.mem_singleton_self db)
        exact ⟨s, t, ps, hposts, ha, (hts.between ht).2, hlists⟩
    | anonymous hc => rcases hc with hc | hc | ⟨q, hc⟩ <;> cases hc
    | unknown hc _ => rcases hc with hc | ⟨q, hc⟩ <;> cases hc

end DevbitBackend.Forum
