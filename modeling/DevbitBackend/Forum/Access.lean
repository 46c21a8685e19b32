import Mathlib.Data.List.Forall2
import DevbitBackend.Social.Messages
import DevbitBackend.Forum.Contracts

/-!
# Forum.Access

Access control of the forum as a frame law: what the calls of a user who is not
an administrator leave as it was (`Frame`). The handlers check the right to write
in different ways; what they write has been classified by `Acts`, so the law is
proved by cases on it, and along a run by transitivity. The social handlers write
none of the forum tables, and of the messages they only add to.
-/

namespace DevbitBackend.Forum

open Txn Social Transition

/-! ### The law -/

/-- The post keeps what only its author and the administrators may change. -/
structure PostRow.Kept (p p' : PostRow) : Prop where
  id : p'.id = p.id
  title : p'.title = p.title
  content : p'.content = p.content
  author : p'.author = p.author
  category : p'.category = p.category
  tags : p'.tags = p.tags
  isPinned : p'.isPinned = p.isPinned
  isLocked : p'.isLocked = p.isLocked

/-- The message stays the same, except that `u` may have read a message to it. -/
structure MessageKept (u : UserId) (m m' : MessageRow) : Prop where
  id : m'.id = m.id
  sender : m'.sender = m.sender
  recipient : m'.recipient = m.recipient
  content : m'.content = m.content
  createdAt : m'.createdAt = m.createdAt
  isRead : m'.isRead = m.isRead ∨ m.recipient = u ∧ m.isRead = false ∧ m'.isRead = true

/-- A post of `u` with the key `id` has been deleted. -/
def DeletedOwn (u : UserId) (db db' : Db) (id : PostId) : Prop :=
  (∃ p ∈ db.posts, p.id = id ∧ p.author = u) ∧ ∀ p' ∈ db'.posts, p'.id ≠ id

/-- What `u` leaves alone: the rows of others and, of them, the fields that only others
may change. -/
structure Frame (u : UserId) (db db' : Db) : Prop where
  posts : ∀ p ∈ db.posts, p.author ≠ u → ∃ p' ∈ db'.posts, p.Kept p'
  flags : ∀ p ∈ db.posts, ∀ p' ∈ db'.posts, p'.id = p.id →
    p'.isPinned = p.isPinned ∧ p'.isLocked = p.isLocked
  comments : ∀ c ∈ db.comments, c.author ≠ u → c ∈ db'.comments ∨ DeletedOwn u db db' c.post
  likes : ∀ l ∈ db.likes, l.user ≠ u → l ∈ db'.likes ∨ DeletedOwn u db db' l.post
  /-- Row by row. -/
  messages : List.SublistForall₂ (MessageKept u) db.social.messages db'.social.messages

/-! ### It is a law of runs -/

theorem PostRow.Kept.refl (p : PostRow) : p.Kept p := ⟨rfl, rfl, rfl, rfl, rfl, rfl, rfl, rfl⟩

theorem PostRow.Kept.trans {p₁ p₂ p₃ : PostRow} (h : p₁.Kept p₂) (h' : p₂.Kept p₃) :
    p₁.Kept p₃ where
  id := h'.id.trans h.id
  title := h'.title.trans h.title
  content := h'.content.trans h.content
  author := h'.author.trans h.author
  category := h'.category.trans h.category
  tags := h'.tags.trans h.tags
  isPinned := h'.isPinned.trans h.isPinned
  isLocked := h'.isLocked.trans h.isLocked

instance (u : UserId) : Std.Refl (MessageKept u) where
  refl _ := ⟨rfl, rfl, rfl, rfl, rfl, .inl rfl⟩

instance (u : UserId) : IsTrans MessageRow (MessageKept u) where
  trans m₁ m₂ m₃ h h' := by
    refine ⟨h'.id.trans h.id, h'.sender.trans h.sender, h'.recipient.trans h.recipient,
      h'.content.trans h.content, h'.createdAt.trans h.createdAt, ?_⟩
    rcases h.isRead with he | ⟨hu, hbefore, hafter⟩
    · rcases h'.isRead with he' | ⟨hu', hbefore', hafter'⟩
      · exact .inl (he'.trans he)
      · exact .inr ⟨h.recipient ▸ hu', he ▸ hbefore', hafter'⟩
    · rcases h'.isRead with he' | ⟨-, hbefore', -⟩
      · exact .inr ⟨hu, hbefore, he'.trans hafter⟩
      · rw [hafter] at hbefore'
        cases hbefore'

variable {env : Env} {u : UserId} {db db' db₁ db₂ db₃ : Db}

theorem Frame.refl (hok : TablesOk db) : Frame u db db where
  posts p hp _ := ⟨p, hp, .refl p⟩
  flags p hp p' hp' hid := by
    rw [hok.posts.eq_of_key hp' hp hid]
    exact ⟨rfl, rfl⟩
  comments c hc _ := .inl hc
  likes l hl _ := .inl hl
  messages := Std.Refl.refl _

/-- A post of `u` that is gone stays gone. -/
theorem DeletedOwn.later {id : PostId} (h : DeletedOwn u db₁ db₂ id) (hok : TablesOk db₁)
    (hs : Settled db₁ db₂) (hs' : Settled db₂ db₃) : DeletedOwn u db₁ db₃ id := by
  obtain ⟨⟨p, hp, rfl, hu⟩, hgone⟩ := h
  exact ⟨⟨p, hp, rfl, hu⟩,
    hs'.posts.gone ((hok.posts.drawn p hp).trans hs.posts.advanced) hgone⟩

/-- A post of `u` deleted later was a post of `u` before. -/
theorem DeletedOwn.earlier {id : PostId} (h : DeletedOwn u db₂ db₃ id)
    (hid : ∃ p ∈ db₁.posts, p.id = id) (hok : TablesOk db₁) (hs : Settled db₁ db₂) :
    DeletedOwn u db₁ db₃ id := by
  obtain ⟨⟨p₂, hp₂, rfl, hu⟩, hgone⟩ := h
  obtain ⟨p, hp, hkey⟩ := hid
  obtain ⟨p₁, hp₁, hkey₁, hu₁⟩ := hs.posts.owners p₂ hp₂
    (show p₂.id ≤ db₁.postSeq from hkey ▸ hok.posts.drawn p hp)
  exact ⟨⟨p₁, hp₁, hkey₁, hu₁.trans hu⟩, hgone⟩

theorem Frame.trans (h : Frame u db₁ db₂) (h' : Frame u db₂ db₃) (hok : TablesOk db₁)
    (hs : Settled db₁ db₂) (hs' : Settled db₂ db₃) : Frame u db₁ db₃ where
  posts p hp hu := by
    obtain ⟨p₂, hp₂, hk⟩ := h.posts p hp hu
    obtain ⟨p₃, hp₃, hk'⟩ := h'.posts p₂ hp₂ (hk.author ▸ hu)
    exact ⟨p₃, hp₃, hk.trans hk'⟩
  flags p hp p₃ hp₃ hid := by
    -- a key of both ends is there in between
    obtain ⟨p₂, hp₂, hkey, -⟩ := hs'.posts.owners p₃ hp₃
      ((show p₃.id ≤ db₁.postSeq from hid ▸ hok.posts.drawn p hp).trans hs.posts.advanced)
    obtain ⟨hpin, hlock⟩ := h.flags p hp p₂ hp₂ (hkey.trans hid)
    obtain ⟨hpin', hlock'⟩ := h'.flags p₂ hp₂ p₃ hp₃ hkey.symm
    exact ⟨hpin'.trans hpin, hlock'.trans hlock⟩
  comments c hc hu := by
    rcases h.comments c hc hu with hc₂ | hd
    · exact (h'.comments c hc₂ hu).imp id fun hd =>
        hd.earlier (hok.commentPosts c hc) hok hs
    · exact .inr (hd.later hok hs hs')
  likes l hl hu := by
    rcases h.likes l hl hu with hl₂ | hd
    · exact (h'.likes l hl₂ hu).imp id fun hd => hd.earlier (hok.likePosts l hl) hok hs
    · exact .inr (hd.later hok hs hs')
  messages := IsTrans.trans _ _ _ h.messages h'.messages

/-! ### It is a law of every statement -/

/-- A change of the other tables. -/
theorem frame_of_posts (hok : TablesOk db) (hposts : db'.posts = db.posts)
    (hcomments : ∀ c ∈ db.comments, c.author ≠ u → c ∈ db'.comments)
    (hlikes : ∀ l ∈ db.likes, l.user ≠ u → l ∈ db'.likes)
    (hmessages : List.SublistForall₂ (MessageKept u) db.social.messages db'.social.messages) :
    Frame u db db' where
  posts p hp _ := ⟨p, hposts ▸ hp, .refl p⟩
  flags p hp p' hp' hid := by
    rw [hok.posts.eq_of_key (hposts ▸ hp') hp hid]
    exact ⟨rfl, rfl⟩
  comments c hc hu := .inl (hcomments c hc hu)
  likes l hl hu := .inl (hlikes l hl hu)
  messages := hmessages

/-- An `UPDATE` of a post that leaves its flags alone, and its text unless it is of
`u`. -/
theorem frame_updatePost (hok : TablesOk db) {id : PostId} {f : PostRow → PostRow}
    (hid : ∀ p, (f p).id = p.id)
    (hflags : ∀ p, (f p).isPinned = p.isPinned ∧ (f p).isLocked = p.isLocked)
    (hkept : ∀ p ∈ db.posts, p.id = id → p.author ≠ u → p.Kept (f p)) :
    Frame u db (db.updatePost id f) where
  posts p hp hu := by
    refine ⟨_, List.mem_map_of_mem hp, ?_⟩
    split
    · rename_i hp'
      exact hkept p hp hp' hu
    · exact .refl p
  flags p hp p' hp' hid' := by
    obtain ⟨q, hq, rfl⟩ := List.mem_map.mp hp'
    have hkey : (if q.id = id then f q else q).id = q.id := by
      split
      · exact hid q
      · rfl
    -- the ids are unique, so this is the same row
    obtain rfl := hok.posts.eq_of_key hq hp (hkey.symm.trans hid')
    split
    · exact hflags q
    · exact ⟨rfl, rfl⟩
  comments c hc _ := .inl hc
  likes l hl _ := .inl hl
  messages := Std.Refl.refl _

/-- An `UPDATE` that marks messages to `u` as read. -/
theorem messages_markRead {where_ : MessageRow → Bool}
    (h : ∀ m, where_ m = true → m.recipient = u) : List.SublistForall₂ (MessageKept u)
      db.social.messages (db.markRead where_).social.messages := by
  refine List.sublistForall₂_iff.mpr ⟨_, ?_, List.Sublist.refl _⟩
  refine List.forall₂_map_right_iff.mpr (List.forall₂_same.mpr fun m _ => ?_)
  split
  · rename_i hm
    refine ⟨rfl, rfl, rfl, rfl, rfl, ?_⟩
    cases hread : m.isRead with
    | true => exact .inl rfl
    | false => exact .inr ⟨h m hm, rfl, rfl⟩
  · exact Std.Refl.refl m

/-- **The law holds of every statement of a forum handler.** -/
theorem Acts.frame {caller : Option UserId} {ws : List Write} (h : Acts env caller db ws)
    (hok : TablesOk db) (hcaller : ∀ v, caller = some v → v = u)
    (hu : env.isAdminUser u = false) : Frame u db (engine.applyAll ws db) := by
  -- only the owner of a row gets through a moderator check
  have howner : ∀ {α : Type} {c : Serial.Columns α UserId} {rows : List α} {last id : Int}
      {v : UserId}, caller = some v → Moderates env c rows last id v →
        ∀ r ∈ rows, c.key r = id → c.owner r = u := by
    intro α c rows last id v hv hm r hr hkey
    obtain rfl := hcaller v hv
    rcases hm with hadmin | ho
    · rw [hu] at hadmin
      cases hadmin
    · exact ho.owner r hr hkey
  cases h with
  | read => exact .refl hok
  | viewed =>
      exact frame_updatePost hok (fun _ => rfl) (fun _ => ⟨rfl, rfl⟩)
        fun _ _ _ _ => ⟨rfl, rfl, rfl, rfl, rfl, rfl, rfl, rfl⟩
  | @posted p hauthor hid =>
      refine ⟨fun q hq _ => ⟨q, List.mem_append_left _ hq, .refl q⟩, fun q hq q' hq' hkey => ?_,
        fun c hc _ => .inl hc, fun l hl _ => .inl hl, Std.Refl.refl _⟩
      rcases List.mem_append.mp hq' with hq' | hq'
      · rw [hok.posts.eq_of_key hq' hq hkey]
        exact ⟨rfl, rfl⟩
      · rw [List.mem_singleton.mp hq', hid] at hkey
        have hle : db.postSeq + 1 ≤ db.postSeq := hkey ▸ hok.posts.drawn q hq
        exact absurd hle (Int.not_le.mpr (Int.lt_succ _))
  | edited hv hm =>
      exact frame_updatePost hok (fun _ => rfl) (fun _ => ⟨rfl, rfl⟩)
        fun p hp hid hne => absurd (howner hv hm p hp hid) hne
  | @deleted v id hv hm =>
      have hmine := howner hv hm
      have hgone : ∀ k, k = id → (∃ p ∈ db.posts, p.id = k) →
          DeletedOwn u db (engine.applyAll [.deletePost id] db) k := by
        intro k hk hp
        obtain ⟨p, hp, rfl⟩ := hp
        refine ⟨⟨p, hp, rfl, hmine p hp hk⟩, fun p' hp' hid => ?_⟩
        have hne : p'.id ≠ id := by simpa using (List.mem_filter.mp hp').2
        exact hne (hid.trans hk)
      refine ⟨fun p hp hne => ⟨p, List.mem_filter.mpr ⟨hp, ?_⟩, .refl p⟩,
        fun p hp p' hp' hkey => ?_, fun c hc _ => ?_, fun l hl _ => ?_, Std.Refl.refl _⟩
      · have hid : p.id ≠ id := fun hid => hne (hmine p hp hid)
        simpa using hid
      · rw [hok.posts.eq_of_key (List.mem_of_mem_filter hp') hp hkey]
        exact ⟨rfl, rfl⟩
      · by_cases hid : c.post = id
        · exact .inr (hgone _ hid (hok.commentPosts c hc))
        · exact .inl (List.mem_filter.mpr ⟨hc, by simpa using hid⟩)
      · by_cases hid : l.post = id
        · exact .inr (hgone _ hid (hok.likePosts l hl))
        · exact .inl (List.mem_filter.mpr ⟨hl, by simpa using hid⟩)
  | pinned hv hadmin =>
      rw [hcaller _ hv, hu] at hadmin
      cases hadmin
  | locked hv hadmin =>
      rw [hcaller _ hv, hu] at hadmin
      cases hadmin
  | @unliked v id hv =>
      obtain rfl := hcaller v hv
      refine frame_of_posts hok rfl (fun c hc _ => hc) (fun l hl hne => ?_) (Std.Refl.refl _)
      exact List.mem_filter.mpr ⟨hl, by simp [hne]⟩
  | liked =>
      exact frame_of_posts hok rfl (fun c hc _ => hc) (fun l hl _ => List.mem_append_left _ hl)
        (Std.Refl.refl _)
  | commented =>
      exact frame_of_posts hok rfl (fun c hc _ => List.mem_append_left _ hc) (fun l hl _ => hl)
        (Std.Refl.refl _)
  | @uncommented v id hv hm =>
      refine frame_of_posts hok rfl (fun c hc hne => ?_) (fun l hl _ => hl) (Std.Refl.refl _)
      have hid : c.id ≠ id := fun hid => hne (howner hv hm c hc hid)
      exact List.mem_filter.mpr ⟨hc, by simpa using hid⟩
  | @readMessage v id hv =>
      refine frame_of_posts hok rfl (fun c hc _ => hc) (fun l hl _ => hl) (messages_markRead ?_)
      intro m hm
      obtain rfl := hcaller v hv
      simpa using (Bool.and_eq_true_iff.mp hm).2
  | @readConversation v s hv =>
      refine frame_of_posts hok rfl (fun c hc _ => hc) (fun l hl _ => hl) (messages_markRead ?_)
      intro m hm
      obtain rfl := hcaller v hv
      simpa using (Bool.and_eq_true_iff.mp hm).2
  | cleared => exact frame_of_posts hok rfl (fun c hc _ => hc) (fun l hl _ => hl) (Std.Refl.refl _)

/-- The law holds of the social handlers: of what it is about, they only add
messages. -/
theorem frame_social (hok : TablesOk db) {ws : List Social.Write} (new : List MessageRow)
    (h : Social.Db.messages (Social.engine.applyAll ws db.social) = db.social.messages ++ new) :
    Frame u db (engine.applyAll (ws.map socialPart.write) db) := by
  rw [forum_applyAll]
  refine frame_of_posts hok rfl (fun c hc _ => hc) (fun l hl _ => hl) ?_
  refine List.sublistForall₂_iff.mpr ⟨db.social.messages, List.forall₂_refl _, ?_⟩
  change db.social.messages.Sublist
    (Social.Db.messages (Social.engine.applyAll ws db.social))
  rw [h]
  exact List.sublist_append_left _ _

/-- What an autocommit statement of a social handler does to the messages. -/
theorem autos_messages {σ : Social.State} {c : Social.Call} {ws : List Social.Write}
    (h : Autos σ c ws) : ∃ new,
      Social.Db.messages (Social.engine.applyAll ws σ.db) = Social.Db.messages σ.db ++ new := by
  cases h with
  | messaged => exact ⟨_, rfl⟩
  | read => exact ⟨[], (List.append_nil _).symm⟩
  | unblocked => exact ⟨[], (List.append_nil _).symm⟩
  | preferred => exact ⟨[], (List.append_nil _).symm⟩

/-! ### It is a law of the server -/

/-- The call carries the token of `u`, or none. -/
def Call.madeBy (u : UserId) (c : Call) : Prop := ∀ v, c.caller = some v → v = u

section Server

variable {ι : Type} [DecidableEq ι] {text : UserSearch} {seq now poolSize : Nat} {faulty : Bool}
  {calls : ι → Call} {σ₀ : State} {s s' : Server ι}

/-- The move is one of a call of `u`, or time passes. -/
def MoveOf (calls : ι → Call) (u : UserId) : Label ι → Prop
  | .run i => (calls i).madeBy u
  | .fail i => (calls i).madeBy u
  | .tick _ => True

/-- The law holds of every single move of a call of `u`, whatever the other calls
have done between the statements of that call. -/
theorem frame_of_step {l : Label ι} (hinv : ServerInv env poolSize faulty calls σ₀ s)
    (hu : env.isAdminUser u = false) (hl : MoveOf calls u l)
    (hstep : serve poolSize faulty calls l s = some s') : Frame u s.db s'.db := by
  have hok : TablesOk s.db := hinv.inv.tables
  cases hinv.effect hstep with
  | silent hdb _ =>
      rw [hdb]
      exact .refl hok
  | @commit i start H ws notes k _ hc hsnap _ =>
      have hdb : s'.db = engine.applyAll ws s.db := congrArg Snap.db hsnap
      rw [hdb]
      revert hc
      cases calls i with
      | social c =>
          intro hc
          obtain ⟨H₀, ws₀, notes₀, -, rfl, -, v, t, -, hc⟩ := hc
          exact frame_social hok [] (hc.messages.trans (List.append_nil _).symm)
      | _ => exact fun hc => hc.elim
  | @auto i st H k r ws _ _ ha hsnap _ =>
      have hdb : s'.db = engine.applyAll ws s.db := congrArg Snap.db hsnap
      rw [hdb]
      have hmade : (calls i).madeBy u := hl
      revert ha hmade
      cases calls i with
      | social c =>
          intro ha _
          obtain ⟨H₀, ws₀, -, rfl, -, ha⟩ := ha
          -- an autocommit statement of the social part inserts a message at most
          obtain ⟨new, hnew⟩ := autos_messages ha
          exact frame_social hok new hnew
      | _ => exact fun ha hmade => ha.2.frame hok hmade hu

/-- **Access control of the forum.** In every state that any interleaving of any
calls reaches, a run in which only calls of `u` move leaves alone what is not
`u`'s. -/
theorem access_frame (hdb : Consistent ⟨seq, db⟩)
    (h : Reachable (serve poolSize faulty calls) (server env text db seq now calls) s)
    (hu : env.isAdminUser u = false) {ls : List (Label ι)}
    (hrun : Run (serve poolSize faulty calls) s ls s') (hls : ∀ l ∈ ls, MoveOf calls u l) :
    Frame u s.db s'.db := by
  have hinv := serverInv_of_consistent hdb h
  clear h
  induction hrun with
  | nil => exact .refl hinv.inv.tables
  | @cons s s₁ s' l ls hstep hrest ih =>
      have hinv₁ := sysInv_step hinv hstep
      have hfirst := frame_of_step hinv hu (hls l List.mem_cons_self) hstep
      have hafter := ih (fun l hl => hls l (List.mem_cons_of_mem _ hl)) hinv₁
      exact hfirst.trans hafter hinv.inv.tables (hinv.base hstep).2
        (hinv₁.base_of_reachable ⟨ls, hrest⟩).2

end Server

/-! 2 deletes its own post, on which 1 has commented. -/

def demoText : UserSearch where
  toLowercase := id
  lower := id
  like _ _ := false
  position _ _ := 0
  collate _ _ := true

/-- A post of 1, and a post of 2 with a comment of 1. -/
def demoDb : Db where
  social := freshDb demoUsers []
  posts := [⟨1, "a", "a", 1, "general", [], 0, 0, 0, false, false⟩,
    ⟨2, "b", "b", 2, "general", [], 0, 0, 0, false, false⟩]
  postSeq := 2
  comments := [⟨1, 2, 1, "hi", 0⟩]
  commentSeq := 1
  likes := [⟨1, 1, 0⟩]
  clears := []

theorem demoDb_consistent : Consistent ⟨0, demoDb⟩ where
  social := freshDb_consistent demoUsers [] 0
  tables :=
    { posts := ⟨by decide, by decide⟩
      comments := ⟨by decide, by decide⟩
      commentPosts := by decide
      likePosts := by decide }

def deletion : Unit → Call := fun _ => .deletePost (some 2) 2

theorem deletion_run : ∃ s', Run (serve 1 false deletion)
    (server demoEnv demoText demoDb 0 0 deletion) (List.replicate 8 (.run ())) s' ∧
      ((Db.posts s'.db).map (·.id), Db.comments s'.db) = ([1], []) := by
  have hrun : (replay (serve 1 false deletion) (server demoEnv demoText demoDb 0 0 deletion)
      (List.replicate 8 (.run ()))).map (fun s => ((Db.posts s.db).map (·.id), Db.comments s.db)) =
        some ([1], []) := by
    decide
  obtain ⟨s', hs', hb⟩ := Option.map_eq_some_iff.mp hrun
  exact ⟨s', run_of_replay hs', hb⟩

/-- The post of 1 is still there. -/
theorem access_frame_deletion : ∃ s' : Server Unit,
    ((Db.posts s'.db).map (·.id), Db.comments s'.db) = ([1], []) ∧ Frame 2 demoDb s'.db := by
  obtain ⟨s', hrun, hs'⟩ := deletion_run
  refine ⟨s', hs', access_frame demoDb_consistent (.refl _) rfl hrun fun l hl => ?_⟩
  rw [List.eq_of_mem_replicate hl]
  intro v hv
  exact (Option.some.inj hv).symm

end DevbitBackend.Forum
