import DevbitBackend.Forum.Access
import DevbitBackend.Forum.Authorship
import DevbitBackend.Social.Provenance

/-!
# Forum.Provenance

Where the rows of the tables come from and where they go, between any two moments of any
run of the calls of `Call` (`rows_accounted`). A new row is one that a call with the token of
its author asked for, in these words, and a post is pinned, unpinned, locked and unlocked by
administrators only (`Attributed`). A row that is gone was taken away by a call of the user
it is of, or of somebody whom the moderation lets do it (`Retained`). Messages and friend
requests stay for good. For the social tables both are those of `Social.Provenance`.

Both are shown move by move (`run_keeps`): a write of a forum handler is one that its call
asks for (`Call.writes`), and one that the checks before it still allow when it happens
(`Acts.allowed`); the social handlers commit what their contract says (`CallWrites`).
-/

namespace DevbitBackend.Forum

open Txn Social Transition

/-! ### Rows through updates -/

/-- The columns of a post that no `UPDATE` changes. -/
structure PostRow.Head (p p' : PostRow) : Prop where
  id : p'.id = p.id
  title : p'.title = p.title
  author : p'.author = p.author
  category : p'.category = p.category
  tags : p'.tags = p.tags
  createdAt : p'.createdAt = p.createdAt

theorem PostRow.Head.refl (p : PostRow) : p.Head p := ⟨rfl, rfl, rfl, rfl, rfl, rfl⟩

theorem PostRow.Head.trans {p₁ p₂ p₃ : PostRow} (h : p₁.Head p₂) (h' : p₂.Head p₃) :
    p₁.Head p₃ where
  id := h'.id.trans h.id
  title := h'.title.trans h.title
  author := h'.author.trans h.author
  category := h'.category.trans h.category
  tags := h'.tags.trans h.tags
  createdAt := h'.createdAt.trans h.createdAt

/-! ### What the checks before a write still say at the write -/

/-- The moderation lets the caller make the write, which is one of a forum handler. -/
def Write.Allowed (env : Env) (caller : Option UserId) (db : Db) : Write → Prop
  | .editPost id _ _ | .deletePost id => ∃ u, caller = some u ∧
      Moderates env postColumns db.posts db.postSeq id u
  | .deleteComment id => ∃ u, caller = some u ∧
      Moderates env commentColumns db.comments db.commentSeq id u
  | .togglePin _ | .toggleLock _ => ∃ u, caller = some u ∧ env.isAdminUser u = true
  | .social _ => False
  | _ => True

section Allowed

variable {env : Env} {caller : Option UserId} {db : Db} {ws : List Write} {u : UserId}

/-- A statement of a forum handler makes one write at most, which is allowed. -/
theorem Acts.allowed (h : Acts env caller db ws) :
    ws = [] ∨ ∃ w, ws = [w] ∧ w.Allowed env caller db := by
  cases h with
  | read => exact .inl rfl
  | edited hcaller hmod => exact .inr ⟨_, rfl, _, hcaller, hmod⟩
  | deleted hcaller hmod => exact .inr ⟨_, rfl, _, hcaller, hmod⟩
  | uncommented hcaller hmod => exact .inr ⟨_, rfl, _, hcaller, hmod⟩
  | pinned hcaller hadmin => exact .inr ⟨_, rfl, _, hcaller, hadmin⟩
  | locked hcaller hadmin => exact .inr ⟨_, rfl, _, hcaller, hadmin⟩
  | _ => exact .inr ⟨_, rfl, trivial⟩

/-- Who moderates a row that is there is its owner or an administrator. -/
theorem Moderates.entitled {α : Type} {c : Serial.Columns α UserId} {rows : List α}
    {last id : Int} (h : Moderates env c rows last id u) {r : α} (hr : r ∈ rows)
    (hid : c.key r = id) : u = c.owner r ∨ env.isAdminUser u = true :=
  h.symm.imp_left fun howned => (howned.owner r hr hid).symm

end Allowed

/-! ### Move by move -/

/-- The writes of one move of the call `c`, in the state `σ`. -/
inductive CallWrites (env : Env) (c : Call) (σ : State) : List Write → Prop
  | read : CallWrites env c σ []
  | write {w} : c.Asks w → w.Allowed env c.caller σ.db → CallWrites env c σ [w]
  | commit {sc H start v t ws} : c = .social sc → pairKey v t ∈ H →
      Commits (socialPart.snap σ) H start sc v t ws → (∀ w ∈ ws, sc.Asks w) →
      CallWrites env c σ (ws.map socialPart.write)
  | auto {sc ws} : c = .social sc → Autos (socialPart.snap σ) sc ws → (∀ w ∈ ws, sc.Asks w) →
      CallWrites env c σ (ws.map socialPart.write)

section Server

variable {ι : Type} [DecidableEq ι] {env : Env} {text : UserSearch} {db : Db}
  {seq now poolSize : Nat} {faulty : Bool} {calls : ι → Call} {s s' : Server ι}
  {ls : List (Label ι)} {J : Db → Prop}

/-- The call is one that moves in the run. -/
def Moves (calls : ι → Call) (ls : List (Label ι)) (c : Call) : Prop :=
  ∃ i, .run i ∈ ls ∧ calls i = c

/-- The writes of a social handler, in its own terms. -/
theorem asks_social {sc : Social.Call} {ws : List Social.Write}
    (h : ∀ w ∈ ws.map socialPart.write, (Call.social sc).Asks w) : ∀ w ∈ ws, sc.Asks w := by
  intro w hw
  obtain ⟨sc', hsc, hasks⟩ := h _ (List.mem_map_of_mem hw)
  cases hsc
  exact hasks

/-- **What every move of a run keeps holds at its end.** -/
theorem run_keeps (hdb : Consistent ⟨seq, db⟩)
    (h : Reachable (serve poolSize faulty calls) (server env text db seq now calls) s)
    (hrun : Run (serve poolSize faulty calls) s ls s') (hJ : J s.db)
    (hmove : ∀ c σ ws, Moves calls ls c → Consistent σ → CallWrites env c σ ws → J σ.db →
      J (engine.applyAll ws σ.db)) : J s'.db := by
  have hinv := serverInv_of_consistent hdb h
  have hsigned := signed_reachable (W := fun i => (calls i).Asks)
    (fun i => (calls i).writes env text) h
  refine hinv.keeps hsigned hrun hJ ?_ ?_
  · intro i start H σ ws notes hi hσ hc hws hJ
    refine hmove (calls i) σ ws ⟨i, hi, rfl⟩ hσ ?_ hJ
    -- only the social handlers commit a transaction
    revert hc hws
    cases calls i with
    | social c =>
        rintro ⟨H₀, ws₀, notes₀, -, rfl, -, v, t, hH, hcommit⟩ hws
        exact .commit rfl hH hcommit (asks_social hws)
    | _ => exact fun hc => hc.elim
  · intro i time H σ ws hi hσ ha hws hJ
    refine hmove (calls i) σ ws ⟨i, hi, rfl⟩ hσ ?_ hJ
    have hforum : ∀ {c : Call}, Acts env c.caller σ.db ws → (∀ w ∈ ws, c.Asks w) →
        CallWrites env c σ ws := by
      intro c hacts hws
      rcases hacts.allowed with rfl | ⟨w, rfl, hallowed⟩
      · exact .read
      · exact .write (hws w (List.mem_singleton_self w)) hallowed
    revert ha hws
    cases calls i with
    | social c =>
        rintro ⟨H₀, ws₀, -, rfl, -, hauto⟩ hws
        exact .auto rfl hauto (asks_social hws)
    | _ => exact fun ha hws => hforum ha.2 hws

end Server

/-! ### Where the rows come from -/

/-- The call marks the message as read, for its recipient. -/
def Call.Reads (c : Call) (m : MessageRow) : Prop :=
  c = .markMessageRead (some m.recipient) m.id ∨
    c = .markConversationRead (some m.recipient) m.sender

/-- The call is a social one, which has been made. -/
def BySocial (made : Call → Prop) (sc : Social.Call) : Prop := made (.social sc)

/-- Where a mark of a post comes from: it was there, or the post is new and has none, or an
administrator has toggled it. -/
def MarkAttributed (env : Env) (made : Call → Prop) (before : List PostRow)
    (mark : PostRow → Bool) (toggle : UserId → Call) (p : PostRow) : Prop :=
  (∃ p₀ ∈ before, p₀.Head p ∧ mark p₀ = mark p) ∨
    ((∃ c p₀, made c ∧ c.Posts p₀ ∧ p₀.Head p) ∧ mark p = false) ∨
    ∃ u, made (toggle u) ∧ env.isAdminUser u = true

/-- Where a post of now comes from, which was not one of `before`: its author created it,
and what it says is from its author or from an administrator. -/
structure PostAttributed (env : Env) (made : Call → Prop) (before : List PostRow) (p : PostRow) :
    Prop where
  origin : (∃ p₀ ∈ before, p₀.Head p) ∨ ∃ c p₀, made c ∧ c.Posts p₀ ∧ p₀.Head p
  content : (∃ p₀ ∈ before, p₀.Head p ∧ p₀.content = p.content) ∨
    (∃ c p₀, made c ∧ c.Posts p₀ ∧ p₀.Head p ∧ p₀.content = p.content) ∨
    ∃ c u, made c ∧ c.Edits u p.id p.content ∧ (u = p.author ∨ env.isAdminUser u = true)
  isPinned : MarkAttributed env made before (·.isPinned) (fun u => .togglePin (some u) p.id) p
  isLocked : MarkAttributed env made before (·.isLocked) (fun u => .toggleLock (some u) p.id) p

/-- Where the rows of `db'` come from, which were not in `db`. -/
structure Attributed (env : Env) (made : Call → Prop) (db db' : Db) : Prop where
  posts : ∀ p ∈ db'.posts, PostAttributed env made db.posts p
  comments : ∀ row ∈ db'.comments, row ∈ db.comments ∨ ∃ c, made c ∧ c.Comments row
  likes : ∀ l ∈ db'.likes, l ∈ db.likes ∨ made (.toggleLike (some l.user) l.post)
  clears : ∀ row ∈ db'.clears, row ∈ db.clears ∨ made (.clearHistory (some row.user) row.partner)
  isRead : ∀ m ∈ db'.social.messages, m.isRead = true →
    (∃ m₀ ∈ db.social.messages, SameMessage m₀ m ∧ m₀.isRead = true) ∨ ∃ c, made c ∧ c.Reads m
  social : Social.Attributed (BySocial made) db.social db'.social

/-- A call of its author or of an administrator has deleted the post. -/
def Deleted (env : Env) (made : Call → Prop) (p : PostRow) : Prop :=
  ∃ u, made (.deletePost (some u) p.id) ∧ (u = p.author ∨ env.isAdminUser u = true)

/-- Where the rows of `db` are in `db'`, or who has taken them away. -/
structure Retained (env : Env) (made : Call → Prop) (db db' : Db) : Prop where
  posts : ∀ p ∈ db.posts, (∃ p' ∈ db'.posts, p.Head p') ∨ Deleted env made p
  comments : ∀ row ∈ db.comments, row ∈ db'.comments ∨
    (∃ u, made (.deleteComment (some u) row.id) ∧
      (u = row.author ∨ env.isAdminUser u = true)) ∨
    ∃ p ∈ db.posts, p.id = row.post ∧ Deleted env made p
  likes : ∀ l ∈ db.likes, l ∈ db'.likes ∨ made (.toggleLike (some l.user) l.post) ∨
    ∃ p ∈ db.posts, p.id = l.post ∧ Deleted env made p
  clears : ∀ row ∈ db.clears, row ∈ db'.clears ∨ made (.clearHistory (some row.user) row.partner)
  social : Social.Retained (BySocial made) db.social db'.social

section Attributed

variable {env : Env} {made : Call → Prop} {c : Call} {db db' : Db} {w : Write}
  {before : List PostRow} {p p' : PostRow}

theorem MarkAttributed.refl {mark : PostRow → Bool} {toggle : UserId → Call} (hp : p ∈ before) :
    MarkAttributed env made before mark toggle p :=
  .inl ⟨p, hp, .refl p, rfl⟩

theorem PostAttributed.refl (hp : p ∈ before) : PostAttributed env made before p where
  origin := .inl ⟨p, hp, .refl p⟩
  content := .inl ⟨p, hp, .refl p, rfl⟩
  isPinned := .refl hp
  isLocked := .refl hp

theorem Attributed.refl : Attributed env made db db where
  posts _ hp := .refl hp
  comments _ h := .inl h
  likes _ h := .inl h
  clears _ h := .inl h
  isRead m hm hread := .inl ⟨m, hm, .refl m, hread⟩
  social := .refl

/-- An `UPDATE` of a post leaves the mark alone, or it is a toggle of an administrator. -/
theorem MarkAttributed.update {mark : PostRow → Bool} {toggle : UserId → Call}
    (h : MarkAttributed env made before mark toggle p) (hhead : p.Head p')
    (hmark : mark p' = mark p ∨ ∃ u, made (toggle u) ∧ env.isAdminUser u = true) :
    MarkAttributed env made before mark toggle p' := by
  rcases hmark with heq | htoggle
  · rcases h with ⟨p₀, hp₀, hh, he⟩ | ⟨⟨c, p₀, hc, hposts, hh⟩, hnew⟩ | htoggle
    · exact .inl ⟨p₀, hp₀, hh.trans hhead, he.trans heq.symm⟩
    · exact .inr (.inl ⟨⟨c, p₀, hc, hposts, hh.trans hhead⟩, heq.trans hnew⟩)
    · exact .inr (.inr htoggle)
  · exact .inr (.inr htoggle)

/-- An `UPDATE` of a post keeps where it comes from. -/
theorem PostAttributed.update (h : PostAttributed env made before p) (hhead : p.Head p')
    (hcontent : p'.content = p.content ∨ ∃ c u, made c ∧ c.Edits u p.id p'.content ∧
      (u = p.author ∨ env.isAdminUser u = true))
    (hpinned : p'.isPinned = p.isPinned ∨
      ∃ u, made (.togglePin (some u) p.id) ∧ env.isAdminUser u = true)
    (hlocked : p'.isLocked = p.isLocked ∨
      ∃ u, made (.toggleLock (some u) p.id) ∧ env.isAdminUser u = true) :
    PostAttributed env made before p' where
  origin := by
    rcases h.origin with ⟨p₀, hp₀, hh⟩ | ⟨c, p₀, hc, hposts, hh⟩
    · exact .inl ⟨p₀, hp₀, hh.trans hhead⟩
    · exact .inr ⟨c, p₀, hc, hposts, hh.trans hhead⟩
  content := by
    rw [hhead.id, hhead.author]
    rcases hcontent with heq | hedit
    · rcases h.content with ⟨p₀, hp₀, hh, he⟩ | ⟨c, p₀, hc, hposts, hh, he⟩ | ⟨c, u, hc, he, hu⟩
      · exact .inl ⟨p₀, hp₀, hh.trans hhead, he.trans heq.symm⟩
      · exact .inr (.inl ⟨c, p₀, hc, hposts, hh.trans hhead, he.trans heq.symm⟩)
      · exact .inr (.inr ⟨c, u, hc, heq ▸ he, hu⟩)
    -- the content is that of the last edit
    · exact .inr (.inr hedit)
  isPinned := by
    rw [hhead.id]
    exact h.isPinned.update hhead hpinned
  isLocked := by
    rw [hhead.id]
    exact h.isLocked.update hhead hlocked

/-- An `UPDATE` of the post `id`. -/
theorem attributed_updatePost (h : Attributed env made db db') {id : PostId} {f : PostRow → PostRow}
    (hhead : ∀ p : PostRow, p.Head (f p))
    (hcontent : ∀ p ∈ db'.posts, p.id = id → (f p).content = p.content ∨
      ∃ c u, made c ∧ c.Edits u p.id (f p).content ∧ (u = p.author ∨ env.isAdminUser u = true))
    (hpinned : ∀ p, p.id = id → (f p).isPinned = p.isPinned ∨
      ∃ u, made (.togglePin (some u) p.id) ∧ env.isAdminUser u = true)
    (hlocked : ∀ p, p.id = id → (f p).isLocked = p.isLocked ∨
      ∃ u, made (.toggleLock (some u) p.id) ∧ env.isAdminUser u = true) :
    Attributed env made db (db'.updatePost id f) := by
  refine { h with posts := fun p' hp' => ?_ }
  obtain ⟨p, hp, rfl⟩ := List.mem_map.mp hp'
  split
  · rename_i hid
    exact (h.posts p hp).update (hhead p) (hcontent p hp hid) (hpinned p hid) (hlocked p hid)
  · exact h.posts p hp

/-- An `UPDATE` that marks messages as read. -/
theorem attributed_markRead (h : Attributed env made db db') {where_ : MessageRow → Bool}
    (hreads : ∀ m, where_ m = true → ∃ c, made c ∧ c.Reads m) :
    Attributed env made db (db'.markRead where_) where
  posts := h.posts
  comments := h.comments
  likes := h.likes
  clears := h.clears
  isRead m' hm' hread := by
    obtain ⟨m, hm, rfl⟩ := List.mem_map.mp hm'
    split at hread
    · rename_i hwhere
      rw [if_pos hwhere]
      exact .inr (hreads m hwhere)
    · rename_i hwhere
      rw [if_neg hwhere]
      exact h.isRead m hm hread
  social := by
    refine { h.social with messages := fun m' hm' => ?_ }
    obtain ⟨m, hm, rfl⟩ := List.mem_map.mp hm'
    rcases h.social.messages m hm with ⟨m₀, hm₀, hsame⟩ | hsent
    · refine .inl ⟨m₀, hm₀, hsame.trans ?_⟩
      split
      · exact ⟨rfl, rfl, rfl, rfl, rfl⟩
      · exact .refl m
    · refine .inr ?_
      split
      · exact hsent
      · exact hsent

/-- **A write that its call asks for, and that the moderation allows, keeps where the rows
come from.** -/
theorem Attributed.write (h : Attributed env made db db') (hc : made c) (hasks : c.Asks w)
    (hallowed : w.Allowed env c.caller db') : Attributed env made db (w.apply db') := by
  cases w with
  | social w => exact hallowed.elim
  | viewPost id =>
      exact attributed_updatePost h (fun _ => ⟨rfl, rfl, rfl, rfl, rfl, rfl⟩)
        (fun _ _ _ => .inl rfl) (fun _ _ => .inl rfl) fun _ _ => .inl rfl
  | insertPost p =>
      obtain ⟨hposts, -, hpin, hlock⟩ := hasks
      have hnew : ∃ c' p₀, made c' ∧ c'.Posts p₀ ∧ p₀.Head p := ⟨c, p, hc, hposts, .refl p⟩
      have hrow : PostAttributed env made db.posts p :=
        ⟨.inr hnew, .inr (.inl ⟨c, p, hc, hposts, .refl p, rfl⟩), .inr (.inl ⟨hnew, hpin⟩),
          .inr (.inl ⟨hnew, hlock⟩)⟩
      exact { h with posts := forall_mem_insert h.posts hrow }
  | editPost id content t =>
      obtain ⟨u, hedits⟩ := hasks
      obtain ⟨v, hcaller, hmod⟩ := hallowed
      -- the author of the edit is the caller that the moderation has let through
      have huv : u = v := by
        obtain ⟨text, rfl, -⟩ := hedits
        exact Option.some.inj hcaller
      refine attributed_updatePost h (fun _ => ⟨rfl, rfl, rfl, rfl, rfl, rfl⟩)
        (fun p hp hid => .inr ⟨c, u, hc, hid ▸ hedits, ?_⟩)
        (fun _ _ => .inl rfl) fun _ _ => .inl rfl
      rw [huv]
      exact hmod.entitled hp hid
  | deletePost id =>
      exact { h with
        posts := fun p hp => h.posts p (List.mem_of_mem_filter hp)
        comments := fun row hrow => h.comments row (List.mem_of_mem_filter hrow)
        likes := fun l hl => h.likes l (List.mem_of_mem_filter hl) }
  | togglePin id =>
      obtain ⟨u, rfl⟩ := hasks
      obtain ⟨v, hcaller, hadmin⟩ := hallowed
      obtain rfl : u = v := Option.some.inj hcaller
      exact attributed_updatePost h (fun _ => ⟨rfl, rfl, rfl, rfl, rfl, rfl⟩)
        (fun _ _ _ => .inl rfl) (fun p hid => .inr ⟨u, hid ▸ hc, hadmin⟩) fun _ _ => .inl rfl
  | toggleLock id =>
      obtain ⟨u, rfl⟩ := hasks
      obtain ⟨v, hcaller, hadmin⟩ := hallowed
      obtain rfl : u = v := Option.some.inj hcaller
      exact attributed_updatePost h (fun _ => ⟨rfl, rfl, rfl, rfl, rfl, rfl⟩)
        (fun _ _ _ => .inl rfl) (fun _ _ => .inl rfl) fun p hid => .inr ⟨u, hid ▸ hc, hadmin⟩
  | deleteLike id u =>
      exact { h with likes := fun l hl => h.likes l (List.mem_of_mem_filter hl) }
  | insertLike l =>
      obtain rfl := hasks
      exact { h with likes := forall_mem_insert h.likes (.inr hc) }
  | insertComment row =>
      exact { h with comments := forall_mem_insert h.comments (.inr ⟨c, hc, hasks⟩) }
  | deleteComment id =>
      exact { h with comments := fun row hrow => h.comments row (List.mem_of_mem_filter hrow) }
  | markMessageRead id u =>
      obtain rfl := hasks
      refine attributed_markRead h fun m hm => ⟨_, hc, .inl ?_⟩
      obtain ⟨rfl, rfl⟩ : m.id = id ∧ m.recipient = u := by simpa using hm
      rfl
  | markConversationRead a u =>
      obtain rfl := hasks
      refine attributed_markRead h fun m hm => ⟨_, hc, .inr ?_⟩
      obtain ⟨rfl, rfl⟩ : m.sender = a ∧ m.recipient = u := by simpa using hm
      rfl
  | setClear row =>
      obtain rfl := hasks
      exact { h with
        clears := forall_mem_insert (fun d hd => h.clears d (List.mem_of_mem_filter hd))
          (.inr hc) }

/-- **A commit of a social handler** touches the social tables only, where its call
accounts for it. -/
theorem Attributed.commit {σ : State} {sc : Social.Call} {H : List Social.Lock} {start : Nat}
    {v t : UserId} {ws : List Social.Write} (h : Attributed env made db σ.db)
    (hinv : Consistent σ) (hc : made (.social sc))
    (hcommit : Commits (socialPart.snap σ) H start sc v t ws) (hasks : ∀ w ∈ ws, sc.Asks w) :
    Attributed env made db (engine.applyAll (ws.map socialPart.write) σ.db) := by
  rw [forum_applyAll]
  refine { h with isRead := ?_, social := hcommit.attributed hinv.social h.social hc hasks }
  have hmessages : (Social.engine.applyAll ws (Db.social σ.db)).messages = _ := hcommit.messages
  rw [hmessages]
  exact h.isRead

/-- **A statement of a social handler.** A message that is sent is unread. -/
theorem Attributed.auto {σ : State} {sc : Social.Call} {ws : List Social.Write}
    (h : Attributed env made db σ.db)
    (hret : Social.Retained (BySocial made) db.social (Db.social σ.db)) (hc : made (.social sc))
    (hauto : Autos (socialPart.snap σ) sc ws) (hasks : ∀ w ∈ ws, sc.Asks w) :
    Attributed env made db (engine.applyAll (ws.map socialPart.write) σ.db) := by
  rw [forum_applyAll]
  refine { h with isRead := ?_, social := hauto.attributed h.social hret hc hasks }
  cases hauto with
  | messaged _ _ =>
      obtain ⟨content, -, -, hunread⟩ := hasks _ (List.mem_singleton_self _)
      refine forall_mem_insert h.isRead fun hread => ?_
      rw [hunread] at hread
      cases hread
  | _ => exact h.isRead

end Attributed

/-! ### Where the rows go -/

section Retained

variable {env : Env} {made : Call → Prop} {c : Call} {db db' : Db} {w : Write}

theorem Retained.refl : Retained env made db db where
  posts p hp := .inl ⟨p, hp, .refl p⟩
  comments _ h := .inl h
  likes _ h := .inl h
  clears _ h := .inl h
  social := .refl

/-- An `UPDATE` of the post `id`. -/
theorem retained_updatePost (h : Retained env made db db') (id : PostId) {f : PostRow → PostRow}
    (hhead : ∀ p : PostRow, p.Head (f p)) : Retained env made db (db'.updatePost id f) := by
  refine { h with posts := fun p hp => ?_ }
  rcases h.posts p hp with ⟨p', hp', hh⟩ | hdeleted
  · refine .inl ⟨_, List.mem_map_of_mem hp', ?_⟩
    split
    · exact hh.trans (hhead p')
    · exact hh
  · exact .inr hdeleted

/-- An `UPDATE` that marks messages as read. -/
theorem retained_markRead (h : Retained env made db db') (where_ : MessageRow → Bool) :
    Retained env made db (db'.markRead where_) := by
  refine { h with social := { h.social with
    grows := ⟨h.social.grows.users, h.social.grows.rows⟩
    messages := fun m hm => ?_ } }
  obtain ⟨m', hm', hsame, hread⟩ := h.social.messages m hm
  refine ⟨_, List.mem_map_of_mem hm', ?_⟩
  split
  · exact ⟨hsame.trans ⟨rfl, rfl, rfl, rfl, rfl⟩, fun _ => rfl⟩
  · exact ⟨hsame, hread⟩

/-- A post that was there, and that a moderator deletes now if not before. -/
theorem Retained.deletes (h : Retained env made db db') {u : UserId} {p : PostRow}
    (hp : p ∈ db.posts) (hc : made (.deletePost (some u) p.id))
    (hmod : Moderates env postColumns db'.posts db'.postSeq p.id u) : Deleted env made p := by
  rcases h.posts p hp with ⟨p', hp', hh⟩ | hdeleted
  · have hentitled := hmod.entitled hp' hh.id
    exact ⟨u, hc, hh.author ▸ hentitled⟩
  · exact hdeleted

/-- **A write that its call asks for, and that the moderation allows, takes away only what
the call may.** -/
theorem Retained.write (h : Retained env made db db') (hok : TablesOk db) (hc : made c)
    (hasks : c.Asks w) (hallowed : w.Allowed env c.caller db') :
    Retained env made db (w.apply db') := by
  cases w with
  | social w => exact hallowed.elim
  | viewPost id => exact retained_updatePost h id fun _ => ⟨rfl, rfl, rfl, rfl, rfl, rfl⟩
  | insertPost p =>
      exact { h with posts := fun p₀ hp₀ => (h.posts p₀ hp₀).imp_left <| .imp fun p' hp' =>
        ⟨List.mem_append_left _ hp'.1, hp'.2⟩ }
  | editPost id content t => exact retained_updatePost h id fun _ => ⟨rfl, rfl, rfl, rfl, rfl, rfl⟩
  | deletePost id =>
      obtain ⟨u, rfl⟩ := hasks
      obtain ⟨v, hcaller, hmod⟩ := hallowed
      obtain rfl : u = v := Option.some.inj hcaller
      have hdeletes : ∀ p ∈ db.posts, p.id = id → Deleted env made p := by
        rintro p hp rfl
        exact h.deletes hp hc hmod
      -- what hangs on a post goes with it
      have hcascade : ∀ k, (∃ p ∈ db.posts, p.id = k) → (k != id) = false →
          ∃ p ∈ db.posts, p.id = k ∧ Deleted env made p := by
        rintro k ⟨p, hp, rfl⟩ hk
        exact ⟨p, hp, rfl, hdeletes p hp (by simpa using hk)⟩
      refine { h with
        posts := fun p hp => ?_
        comments := kept_filter h.comments fun row hrow hdrop =>
          .inr (hcascade _ (hok.commentPosts row hrow) hdrop)
        likes := kept_filter h.likes fun l hl hdrop =>
          .inr (hcascade _ (hok.likePosts l hl) hdrop) }
      rcases h.posts p hp with ⟨p', hp', hh⟩ | hdeleted
      · by_cases hid : p.id = id
        · exact .inr (hdeletes p hp hid)
        · refine .inl ⟨p', List.mem_filter.mpr ⟨hp', ?_⟩, hh⟩
          rw [hh.id]
          simpa using hid
      · exact .inr hdeleted
  | togglePin id => exact retained_updatePost h id fun _ => ⟨rfl, rfl, rfl, rfl, rfl, rfl⟩
  | toggleLock id => exact retained_updatePost h id fun _ => ⟨rfl, rfl, rfl, rfl, rfl, rfl⟩
  | deleteLike id u =>
      obtain rfl := hasks
      refine { h with likes := kept_filter h.likes fun l _ hdrop => .inl ?_ }
      obtain ⟨rfl, rfl⟩ : l.post = id ∧ l.user = u := by simpa using hdrop
      exact hc
  | insertLike l => exact { h with likes := kept_insert h.likes }
  | insertComment row => exact { h with comments := kept_insert h.comments }
  | deleteComment id =>
      obtain ⟨u, rfl⟩ := hasks
      obtain ⟨v, hcaller, hmod⟩ := hallowed
      obtain rfl : u = v := Option.some.inj hcaller
      refine { h with comments := fun row hrow => ?_ }
      rcases h.comments row hrow with hmem | hgone
      · by_cases hid : row.id = id
        · subst hid
          exact .inr (.inl ⟨u, hc, hmod.entitled hmem rfl⟩)
        · exact .inl (List.mem_filter.mpr ⟨hmem, by simpa using hid⟩)
      · exact .inr hgone
  | markMessageRead id u => exact retained_markRead h _
  | markConversationRead a u => exact retained_markRead h _
  | setClear row =>
      obtain rfl := hasks
      refine { h with clears := kept_insert (kept_filter h.clears fun d _ hdrop => ?_) }
      obtain ⟨huser, hpartner⟩ : d.user = row.user ∧ d.partner = row.partner := by
        simpa using hdrop
      rw [huser, hpartner]
      exact hc

end Retained

/-! ### The server -/

section Server

variable {ι : Type} [DecidableEq ι] {env : Env} {text : UserSearch} {db : Db}
  {seq now poolSize : Nat} {faulty : Bool} {calls : ι → Call} {s s' : Server ι}
  {ls : List (Label ι)}

/-- **A move keeps both** what is there attributed and what was there retained. -/
theorem CallWrites.accounted {env : Env} {made : Call → Prop} {c : Call} {σ : State}
    {ws : List Write} (h : CallWrites env c σ ws) (hinv : Consistent σ) (hok : TablesOk db)
    (hc : made c) (hJ : Attributed env made db σ.db ∧ Retained env made db σ.db) :
    Attributed env made db (engine.applyAll ws σ.db) ∧
      Retained env made db (engine.applyAll ws σ.db) := by
  obtain ⟨hatt, hret⟩ := hJ
  cases h with
  | read => exact ⟨hatt, hret⟩
  | write hasks hallowed => exact ⟨hatt.write hc hasks hallowed, hret.write hok hc hasks hallowed⟩
  | commit hsc hH hcommit hasks =>
      subst hsc
      refine ⟨hatt.commit hinv hc hcommit hasks, ?_⟩
      rw [forum_applyAll]
      exact { hret with social := hcommit.retained hH hinv.social hret.social hc }
  | auto hsc hauto hasks =>
      subst hsc
      refine ⟨hatt.auto hret.social hc hauto hasks, ?_⟩
      rw [forum_applyAll]
      exact { hret with social := hauto.retained hret.social hc }

/-- Every move keeps both, so a run does. -/
theorem accounted_of_run (hdb : Consistent ⟨seq, db⟩)
    (h : Reachable (serve poolSize faulty calls) (server env text db seq now calls) s)
    (hrun : Run (serve poolSize faulty calls) s ls s') :
    Attributed env (Moves calls ls) s.db s'.db ∧ Retained env (Moves calls ls) s.db s'.db := by
  have hok : TablesOk s.db := (serverInv_of_consistent hdb h).inv.tables
  refine run_keeps hdb h hrun (J := fun db' => Attributed env (Moves calls ls) s.db db' ∧
    Retained env (Moves calls ls) s.db db') ⟨.refl, .refl⟩ ?_
  intro c σ ws hc hinv hwrites hJ
  exact hwrites.accounted hinv hok hc hJ

/-- **Every row is accounted for**, between any two moments of any run of the calls of
`Call`, however they are interleaved and fail. A new row was asked for by a call with the
token of the user it is of, with this text and these values; what a post says is from its
author or an administrator, and administrators pin, unpin, lock and unlock it. A friend
request has a status that its parties have given it, and a friendship is that of an accepted
request. A row that is gone was taken away by a call of the user it is of, or by somebody
whom the moderation lets do it. Messages stay, and are read for their recipient only. -/
theorem rows_accounted (hdb : Consistent ⟨seq, db⟩)
    (h : Reachable (serve poolSize faulty calls) (server env text db seq now calls) s)
    (hrun : Run (serve poolSize faulty calls) s ls s') :
    Attributed env (Moves calls ls) s.db s'.db ∧ Retained env (Moves calls ls) s.db s'.db :=
  accounted_of_run hdb h hrun

end Server

/-! 2 comments on the post of 1, and deletes its own post, on which 1 has commented. -/

def commentAndDelete : Bool → Call
  | false => .createComment (some 2) 1 " hi "
  | true => .deletePost (some 2) 2

theorem rows_accounted_commentAndDelete : ∃ s' : Server Bool,
    ((Db.posts s'.db).map (·.id), Db.comments s'.db) = ([1], [⟨2, 1, 2, "hi", 0⟩]) ∧
      Attributed demoEnv (fun c => ∃ b, commentAndDelete b = c) demoDb s'.db ∧
      Retained demoEnv (fun c => ∃ b, commentAndDelete b = c) demoDb s'.db := by
  let ls : List (Label Bool) := List.replicate 8 (.run false) ++ List.replicate 8 (.run true)
  let s : Server Bool := server demoEnv demoText demoDb 0 0 commentAndDelete
  have hrun : (replay (serve 1 false commentAndDelete) s ls).map
      (fun s => ((Db.posts s.db).map (·.id), Db.comments s.db)) =
        some ([1], [⟨2, 1, 2, "hi", 0⟩]) := by
    decide +kernel
  obtain ⟨s', hs', hb⟩ := Option.map_eq_some_iff.mp hrun
  have hmoves : Moves commentAndDelete ls = fun c => ∃ b, commentAndDelete b = c := by
    funext c
    refine propext ⟨fun ⟨b, _, hc⟩ => ⟨b, hc⟩, fun ⟨b, hc⟩ => ⟨b, ?_, hc⟩⟩
    cases b
    · decide
    · decide
  have hrows := rows_accounted demoDb_consistent
    (.refl (server demoEnv demoText demoDb 0 0 commentAndDelete)) (run_of_replay hs')
  rw [hmoves] at hrows
  exact ⟨s', hb, hrows⟩

end DevbitBackend.Forum
