import DevbitBackend.Social.Authorship
import DevbitBackend.Forum.Contracts

/-!
# Forum.Authorship

What a call of the server can write, row by row (`Call.Asks`): a post, a comment, a like or
a message is inserted on behalf of its author by a call with the token of that author, and
it carries the checked text of that call. Every handler keeps to it, whatever its statements
answer (`Call.writes`).
-/

namespace DevbitBackend.Forum

open Txn Social Transition

/-! ### What a call asks for -/

/-- The call creates the post. -/
def Call.Posts (c : Call) (p : PostRow) : Prop :=
  ∃ payload, c = .createPost (some p.author) payload ∧
    validateContent payload.title maxPostTitleChars = some p.title ∧
    validateContent payload.content maxPostContentChars = some p.content ∧
    checkCategory payload.category = some p.category ∧ checkTags payload.tags = some p.tags

/-- The call gives the post `id` the content, on behalf of `u`. -/
def Call.Edits (c : Call) (u : UserId) (id : PostId) (content : String) : Prop :=
  ∃ text, c = .modifyPost (some u) id text ∧
    validateContent text maxPostContentChars = some content

/-- The call writes the comment. -/
def Call.Comments (c : Call) (row : CommentRow) : Prop :=
  ∃ content, c = .createComment (some row.author) row.post content ∧
    validateContent content maxCommentChars = some row.content

/-- The write is one that the call asks for. -/
def Call.Asks (c : Call) : Write → Prop
  | .social w => ∃ sc, c = .social sc ∧ sc.Asks w
  | .viewPost id => ∃ viewer, c = .getPost viewer id
  | .insertPost p => c.Posts p ∧ p.viewCount = 0 ∧ p.isPinned = false ∧ p.isLocked = false
  | .editPost id content _ => ∃ u, c.Edits u id content
  | .deletePost id => ∃ u, c = .deletePost (some u) id
  | .togglePin id => ∃ u, c = .togglePin (some u) id
  | .toggleLock id => ∃ u, c = .toggleLock (some u) id
  | .deleteLike id u => c = .toggleLike (some u) id
  | .insertLike l => c = .toggleLike (some l.user) l.post
  | .insertComment row => c.Comments row
  | .deleteComment id => ∃ u, c = .deleteComment (some u) id
  | .markMessageRead id u => c = .markMessageRead (some u) id
  | .markConversationRead s u => c = .markConversationRead (some u) s
  | .setClear row => c = .clearHistory (some row.user) row.partner

/-! ### Every handler keeps to it -/

/-- The code writes nothing but what `W` allows. -/
abbrev Writing (W : Write → Prop) (p : Code) : Prop := Prog.Writes (E := engine) W p

section Handlers

variable {env : Env} {text : UserSearch} {identity : Option UserId} {W : Write → Prop}

theorem writes_requireUserId {k : UserId → Code}
    (hk : ∀ id, identity = some id → Writing W (k id)) :
    Writing W (requireUserId identity k) := by
  cases identity with
  | none => exact .done
  | some id => exact hk id rfl

theorem writes_getCurrentUser {id : UserId} {k : ForumUser → Code}
    (hk : ∀ user, user.id = id → Writing W (k user)) : Writing W (getCurrentUser env id k) := by
  refine .query_read (fun db => db.social.loadUser id) (fun _ _ _ => rfl) fun db => ?_
  cases hrow : db.social.loadUser id with
  | none => exact .done
  | some row =>
      have hid : row.id = id := by simpa [Social.Db.loadUser] using List.find?_some hrow
      exact hk _ hid

/-- Behind `require_current_user` the user is the one of the token. -/
theorem writes_requireCurrentUser {k : ForumUser → Code}
    (hk : ∀ user, identity = some user.id → Writing W (k user)) :
    Writing W (requireCurrentUser env identity k) :=
  writes_requireUserId fun _ hid => writes_getCurrentUser fun user huser =>
    hk user (huser ▸ hid)

theorem writes_orBadRequest {β : Type} {checked : Option β} {k : β → Code}
    (hk : ∀ b, checked = some b → Writing W (k b)) : Writing W (orBadRequest checked k) := by
  cases checked with
  | none => exact .done
  | some b => exact hk b rfl

theorem writes_affected {rows : Nat} {k : Code} (hk : Writing W k) :
    Writing W (affected rows k) := .ite .done hk

theorem writes_fetchPostById {id : PostId} {viewer : Option UserId} :
    Writing W (fetchPostById env id viewer) := by
  refine .query_read (fun db => (db.postList viewer (·.id == id)).head?) (fun _ _ _ => rfl)
    fun db => ?_
  cases (db.postList viewer (·.id == id)).head? with
  | none => exact .done
  | some row => exact .done

theorem writes_requireAuthor {user : ForumUser} {author : (Option UserId → Code) → Code} {k : Code}
    (hauthor : ∀ next, (∀ a, Writing W (next a)) → Writing W (author next)) (hk : Writing W k) :
    Writing W (requireAuthor user author k) := by
  refine .ite hk (hauthor _ fun a => ?_)
  cases a with
  | none => exact .done
  | some a => exact .ite hk .done

theorem writes_requirePostModerator {id : PostId} {user : ForumUser} {k : Code}
    (hk : Writing W k) : Writing W (requirePostModerator id user k) :=
  writes_requireAuthor (fun _ hnext => .query_read (fun db => (db.post id).map (·.author))
    (fun _ _ _ => rfl) fun _ => hnext _) hk

theorem writes_requireCommentModerator {id : CommentId} {user : ForumUser} {k : Code}
    (hk : Writing W k) : Writing W (requireCommentModerator id user k) :=
  writes_requireAuthor (fun _ hnext => .query_read (fun db => (db.comment id).map (·.author))
    (fun _ _ _ => rfl) fun _ => hnext _) hk

/-- A statement that is never rejected and makes one write. -/
theorem writes_query {st : Stmt} {k : st.Result → Code} {w : Write} {f : Db → st.Result}
    (heval : ∀ now seq db, eval st now seq db = some (f db, [w])) (hw : W w)
    (hk : ∀ r, Writing W (k r)) : Writing W (query st k) := by
  refine .query (fun r ws hy => ?_) fun r _ _ => hk r
  obtain ⟨now, seq, db, he⟩ := hy
  cases (heval now seq db).symm.trans he
  exact List.forall_mem_singleton.mpr hw

theorem writes_createPost {payload : CreatePostRequest} :
    Writing (Call.createPost identity payload).Asks (createPost env identity payload) := by
  unfold createPost
  generalize htitle : validateContent payload.title maxPostTitleChars = title
  generalize hcontent : validateContent payload.content maxPostContentChars = content
  refine writes_requireCurrentUser fun user huser => ?_
  refine writes_orBadRequest fun title ht => writes_orBadRequest fun content hc => ?_
  refine writes_orBadRequest fun category hcategory => writes_orBadRequest fun tags htags => ?_
  refine .query (fun row ws hy => ?_) fun _ _ _ => .done
  obtain ⟨now, seq, db, he⟩ := hy
  simp only [eval] at he
  split at he
  · cases he
    refine List.forall_mem_singleton.mpr
      ⟨⟨payload, ?_, htitle.trans ht, hcontent.trans hc, hcategory, htags⟩, rfl, rfl, rfl⟩
    rw [huser]
  · cases he

theorem writes_modifyPost {id : PostId} {content : String} :
    Writing (Call.modifyPost identity id content).Asks (modifyPost env identity id content) := by
  unfold modifyPost
  generalize hcontent : validateContent content maxPostContentChars = checked
  refine writes_requireCurrentUser fun user huser => writes_requirePostModerator ?_
  refine writes_orBadRequest fun text htext => ?_
  refine .query (fun row ws hy => ?_) fun _ _ _ => writes_affected .done
  obtain ⟨now, seq, db, he⟩ := hy
  simp only [eval] at he
  split at he
  · cases he
    exact List.forall_mem_singleton.mpr ⟨user.id, content, by rw [huser], hcontent.trans htext⟩
  · cases he

theorem writes_createComment {postId : PostId} {content : String} :
    Writing (Call.createComment identity postId content).Asks
      (createComment env identity postId content) := by
  unfold createComment
  generalize hcontent : validateContent content maxCommentChars = checked
  refine writes_requireCurrentUser fun user huser => writes_orBadRequest fun text htext => ?_
  refine .query_read (fun db => (db.post postId).map (·.isLocked)) (fun _ _ _ => rfl) fun db => ?_
  cases (db.post postId).map (·.isLocked) with
  | none => exact .done
  | some locked =>
  refine .ite .done (.query (fun row ws hy => ?_) fun _ _ _ => .done)
  obtain ⟨now, seq, db, he⟩ := hy
  simp only [eval] at he
  split at he
  · cases he
    exact List.forall_mem_singleton.mpr ⟨content, by rw [huser], hcontent.trans htext⟩
  · cases he

theorem writes_toggleLike {id : PostId} :
    Writing (Call.toggleLike identity id).Asks (toggleLike env identity id) := by
  refine writes_requireUserId fun u hu => writes_getCurrentUser fun _ _ => ?_
  subst hu
  refine .query_read (fun db => (db.post id).isSome) (fun _ _ _ => rfl) fun _ => .ite .done ?_
  refine .query_read (fun db => db.likes.any fun l => l.post == id && l.user == u)
    (fun _ _ _ => rfl) fun _ => .ite ?_ (.query (fun row ws hy => ?_) fun _ _ _ => ?_)
  · exact writes_query (fun _ _ _ => rfl) rfl fun _ => writes_fetchPostById
  · obtain ⟨now, seq, db, he⟩ := hy
    simp only [eval] at he
    split at he
    · cases he
      simp
    split at he
    · cases he
      exact List.forall_mem_singleton.mpr rfl
    · cases he
  · exact writes_fetchPostById

theorem writes_clearHistory {partnerId : Int} :
    Writing (Call.clearHistory identity partnerId).Asks (clearHistory identity partnerId) := by
  cases identity with
  | none => exact .done
  | some v =>
  refine .query_read (fun db => db.social.userExists v) (fun _ _ _ => rfl) fun _ => .ite .done ?_
  cases hpartner : positiveId partnerId "partnerId" with
  | error e => exact .done
  | ok partner =>
  obtain rfl := positiveId_ok hpartner
  refine .ite .done (.query_read (fun db => db.maxMessageId v partner) (fun _ _ _ => rfl)
    fun _ => .query (fun row ws hy => ?_) fun _ _ _ => .emit .done)
  obtain ⟨now, seq, db, he⟩ := hy
  simp only [eval] at he
  -- a row that is there keeps its user and its partner
  split at he
  · cases he
  split at he
  · rename_i row hrow
    have hkey := List.find?_some hrow
    simp only [Bool.and_eq_true, beq_iff_eq] at hkey
    cases he
    refine List.forall_mem_singleton.mpr ?_
    rw [Call.Asks, hkey.1, hkey.2]
  · split at he
    · cases he
      exact List.forall_mem_singleton.mpr rfl
    · cases he

theorem writes_bootstrap : Writing W (bootstrap env identity) := by
  refine .query_read (fun db => db.social.users.mergeSort fun a b => a.id ≤ b.id)
    (fun _ _ _ => rfl) fun _ => ?_
  refine .query_read
    (fun db => db.postList identity fun p => (none : Option String).all (p.category == ·))
    (fun _ _ _ => rfl) fun _ => ?_
  refine .query_read (fun db => db.commentList fun c => (none : Option PostId).all (c.post == ·))
    (fun _ _ _ => rfl) fun _ => ?_
  cases identity with
  | none => exact .done
  | some v => exact .query_read (fun db => db.messagesFor v) (fun _ _ _ => rfl) fun _ => .done

theorem writes_searchPosts {q : Option String} :
    Writing W (searchPosts env text identity q) := by
  unfold searchPosts
  split
  · exact .done
  · exact .query_silent (silent_likePosts _ _) fun _ => .done

theorem writes_searchUsers {q : Option String} :
    Writing W (searchUsers env text identity q) := by
  refine writes_requireCurrentUser fun user _ => ?_
  split
  · exact .done
  · exact .query_silent (silent_likeUsers _ _ _) fun _ => .done

theorem writes_getPost {id : PostId} :
    Writing (Call.getPost identity id).Asks (getPost env identity id) := by
  refine .query (fun rows ws hy => ?_) fun _ _ _ => writes_fetchPostById
  obtain ⟨now, seq, db, he⟩ := hy
  simp only [eval] at he
  split at he
  · cases he
  · cases he
    exact List.forall_mem_singleton.mpr ⟨identity, rfl⟩

/-- **A call writes nothing but what it asks for.** -/
theorem Call.writes (env : Env) (text : UserSearch) (c : Call) :
    Writing c.Asks (c.code env text) := by
  cases c with
  | social sc => exact (sc.writes env).weaken (fun w hw => ⟨sc, rfl, hw⟩) |>.embed
  | bootstrap v => exact writes_bootstrap
  | listUsers =>
      exact .query_read (fun db => db.social.users.mergeSort fun a b => a.id ≤ b.id)
        (fun _ _ _ => rfl) fun _ => .done
  | listPosts v c =>
      exact .query_silent (silent_postList _ _) fun _ => .done
  | searchPosts v q => exact writes_searchPosts
  | getPost v id => exact writes_getPost
  | createPost v p => exact writes_createPost
  | myPosts v =>
      exact writes_requireUserId fun u _ => .query_read
        (fun db => db.postList (some u) (·.author == u)) (fun _ _ _ => rfl) fun _ => .done
  | modifyPost v id c => exact writes_modifyPost
  | deletePost v id =>
      exact writes_requireCurrentUser fun user huser => writes_requirePostModerator <|
        writes_query (fun _ _ _ => rfl) ⟨user.id, by rw [huser]⟩ fun _ => writes_affected .done
  | togglePin v id =>
      exact writes_requireCurrentUser fun user huser => .ite
        (writes_query (fun _ _ _ => rfl) ⟨user.id, by rw [huser]⟩
          fun _ => writes_affected writes_fetchPostById) .done
  | toggleLock v id =>
      exact writes_requireCurrentUser fun user huser => .ite
        (writes_query (fun _ _ _ => rfl) ⟨user.id, by rw [huser]⟩
          fun _ => writes_affected writes_fetchPostById) .done
  | toggleLike v id => exact writes_toggleLike
  | listComments id =>
      exact .query_read (fun db => db.commentList fun c => (some id).all (c.post == ·))
        (fun _ _ _ => rfl) fun _ => .done
  | createComment v id c => exact writes_createComment
  | deleteComment v id =>
      exact writes_requireCurrentUser fun user huser => writes_requireCommentModerator <|
        writes_query (fun _ _ _ => rfl) ⟨user.id, by rw [huser]⟩ fun _ => writes_affected .done
  | listMessages v =>
      exact writes_requireCurrentUser fun user _ => .query_read (fun db => db.messagesFor user.id)
        (fun _ _ _ => rfl) fun _ => .done
  | markMessageRead v id =>
      exact writes_requireCurrentUser fun user huser =>
        writes_query (fun _ _ _ => rfl) (by rw [Call.Asks, huser]) fun _ => writes_affected .done
  | markConversationRead v p =>
      exact writes_requireCurrentUser fun user huser =>
        writes_query (fun _ _ _ => rfl) (by rw [Call.Asks, huser]) fun _ => writes_affected .done
  | searchUsers v q => exact writes_searchUsers
  | clearHistory v p => exact writes_clearHistory

end Handlers

end DevbitBackend.Forum
