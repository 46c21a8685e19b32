import DevbitBackend.Forum.Invariant

/-!
# Forum.Contracts

What each autocommit statement of a forum handler may write (`Acts`): it is the
caller's own doing, and what it does to a post or a comment of somebody else takes
an administrator. Every handler keeps to that, whatever the others do between its
statements (`Call.safe`). The look-up of an author comes before the write it
allows, so the proof of a moderator check carries `Serial.Owned` from the one
statement to the other.
-/

namespace DevbitBackend.Forum

open Txn Social

/-! ### What a statement may write -/

/-- `u` may change the row with the key `id`: it is an administrator, or the row is
its own. -/
def Moderates {α : Type} (env : Env) (c : Serial.Columns α UserId) (rows : List α) (last : Int)
    (id : Int) (u : UserId) : Prop :=
  env.isAdminUser u = true ∨ Serial.Owned c rows last id u

/-- The writes of one autocommit statement of a forum handler whose caller is
`caller`, in the state `db`. -/
inductive Acts (env : Env) (caller : Option UserId) (db : Db) : List Write → Prop
  | read : Acts env caller db []
  | viewed {id} : Acts env caller db [.viewPost id]
  | posted {p} : caller = some p.author → p.id = db.postSeq + 1 →
      Acts env caller db [.insertPost p]
  | edited {u id content t} : caller = some u →
      Moderates env postColumns db.posts db.postSeq id u →
      Acts env caller db [.editPost id content t]
  | deleted {u id} : caller = some u → Moderates env postColumns db.posts db.postSeq id u →
      Acts env caller db [.deletePost id]
  | pinned {u id} : caller = some u → env.isAdminUser u = true →
      Acts env caller db [.togglePin id]
  | locked {u id} : caller = some u → env.isAdminUser u = true →
      Acts env caller db [.toggleLock id]
  | unliked {u id} : caller = some u → Acts env caller db [.deleteLike id u]
  | liked {l} : caller = some l.user → (∃ p ∈ db.posts, p.id = l.post) →
      Acts env caller db [.insertLike l]
  | commented {c} : caller = some c.author → c.id = db.commentSeq + 1 →
      (∃ p ∈ db.posts, p.id = c.post) → Acts env caller db [.insertComment c]
  | uncommented {u id} : caller = some u →
      Moderates env commentColumns db.comments db.commentSeq id u →
      Acts env caller db [.deleteComment id]
  | readMessage {u id} : caller = some u → Acts env caller db [.markMessageRead id u]
  | readConversation {u s} : caller = some u → Acts env caller db [.markConversationRead s u]
  | cleared {c} : caller = some c.user → Acts env caller db [.setClear c]

variable {env : Env} {caller : Option UserId} {σ σ' : State} {db db' : Db} {ws : List Write}

/-! ### It is what the others expect -/

/-- Of the social tables it changes the messages only. -/
theorem Acts.social (h : Acts env caller db ws) :
    ∃ ms, Db.social (engine.applyAll ws db) = { db.social with messages := ms } := by
  cases h with
  | readMessage => exact ⟨_, rfl⟩
  | readConversation => exact ⟨_, rfl⟩
  | _ => exact ⟨db.social.messages, rfl⟩

/-- A post stays a post when its other columns change. -/
theorem tablesOk_updatePost (h : TablesOk db) (id : PostId) {f : PostRow → PostRow}
    (hid : ∀ p, (f p).id = p.id) (hauthor : ∀ p, (f p).author = p.author) :
    TablesOk (db.updatePost id f) ∧ Settled db (db.updatePost id f) := by
  have hkey : ∀ p : PostRow, (if p.id = id then f p else p).id = p.id := by
    intro p
    split
    · exact hid p
    · rfl
  have howner : ∀ p : PostRow, (if p.id = id then f p else p).author = p.author := by
    intro p
    split
    · exact hauthor p
    · rfl
  have hstill : ∀ k, (∃ p ∈ db.posts, p.id = k) → ∃ p ∈ (db.updatePost id f).posts, p.id = k := by
    intro k hk
    obtain ⟨p, hp, rfl⟩ := hk
    exact ⟨_, List.mem_map_of_mem hp, hkey p⟩
  exact ⟨⟨h.posts.map hkey, h.comments, fun c hc => hstill _ (h.commentPosts c hc),
    fun l hl => hstill _ (h.likePosts l hl)⟩, ⟨Serial.later_map hkey howner, .refl _ _ _⟩⟩

/-- The keys stay in order, and the authors settled. -/
theorem Acts.tables (h : Acts env caller db ws) (hok : TablesOk db) :
    TablesOk (engine.applyAll ws db) ∧ Settled db (engine.applyAll ws db) := by
  cases h with
  | viewed => exact tablesOk_updatePost hok _ (fun _ => rfl) fun _ => rfl
  | edited => exact tablesOk_updatePost hok _ (fun _ => rfl) fun _ => rfl
  | pinned => exact tablesOk_updatePost hok _ (fun _ => rfl) fun _ => rfl
  | locked => exact tablesOk_updatePost hok _ (fun _ => rfl) fun _ => rfl
  | @posted p _ hid =>
      have hstill : ∀ k, (∃ q ∈ db.posts, q.id = k) → ∃ q ∈ db.posts ++ [p], q.id = k :=
        fun k hk => hk.imp fun q hq => ⟨List.mem_append_left _ hq.1, hq.2⟩
      exact ⟨⟨hok.posts.insert hid, hok.comments, fun c hc => hstill _ (hok.commentPosts c hc),
        fun l hl => hstill _ (hok.likePosts l hl)⟩, ⟨Serial.later_insert hid, .refl _ _ _⟩⟩
  | @deleted u id =>
      have hstill : ∀ k, k ≠ id → (∃ q ∈ db.posts, q.id = k) →
          ∃ q ∈ db.posts.filter (·.id != id), q.id = k := by
        intro k hk hq
        obtain ⟨q, hq, rfl⟩ := hq
        exact ⟨q, List.mem_filter.mpr ⟨hq, by simpa using hk⟩, rfl⟩
      refine ⟨⟨hok.posts.filter _, hok.comments.filter _, fun c hc => ?_, fun l hl => ?_⟩,
        ⟨Serial.later_filter _, Serial.later_filter _⟩⟩
      · obtain ⟨hc, hne⟩ := List.mem_filter.mp hc
        exact hstill _ (by simpa using hne) (hok.commentPosts c hc)
      · obtain ⟨hl, hne⟩ := List.mem_filter.mp hl
        exact hstill _ (by simpa using hne) (hok.likePosts l hl)
  | unliked =>
      exact ⟨⟨hok.posts, hok.comments, hok.commentPosts,
        fun l hl => hok.likePosts l (List.mem_of_mem_filter hl)⟩, ⟨.refl _ _ _, .refl _ _ _⟩⟩
  | @liked l _ hpost =>
      refine ⟨⟨hok.posts, hok.comments, hok.commentPosts, fun l' hl' => ?_⟩,
        ⟨.refl _ _ _, .refl _ _ _⟩⟩
      rcases List.mem_append.mp hl' with hl' | hl'
      · exact hok.likePosts l' hl'
      · rw [List.mem_singleton.mp hl']
        exact hpost
  | @commented c _ hid hpost =>
      refine ⟨⟨hok.posts, hok.comments.insert hid, fun c' hc' => ?_, hok.likePosts⟩,
        ⟨.refl _ _ _, Serial.later_insert hid⟩⟩
      rcases List.mem_append.mp hc' with hc' | hc'
      · exact hok.commentPosts c' hc'
      · rw [List.mem_singleton.mp hc']
        exact hpost
  | uncommented =>
      exact ⟨⟨hok.posts, hok.comments.filter _,
        fun c hc => hok.commentPosts c (List.mem_of_mem_filter hc), hok.likePosts⟩,
        ⟨.refl _ _ _, Serial.later_filter _⟩⟩
  | read => exact ⟨hok, .refl _⟩
  | readMessage =>
      exact ⟨⟨hok.posts, hok.comments, hok.commentPosts, hok.likePosts⟩,
        ⟨.refl _ _ _, .refl _ _ _⟩⟩
  | readConversation =>
      exact ⟨⟨hok.posts, hok.comments, hok.commentPosts, hok.likePosts⟩,
        ⟨.refl _ _ _, .refl _ _ _⟩⟩
  | cleared =>
      exact ⟨⟨hok.posts, hok.comments, hok.commentPosts, hok.likePosts⟩,
        ⟨.refl _ _ _, .refl _ _ _⟩⟩

/-- **An autocommit statement of a forum handler is one the others expect.** -/
theorem Acts.sound (h : Acts env caller σ.db ws) (hinv : Consistent σ) :
    Consistent (σ.write ws) ∧ discipline.Base σ (σ.write ws) ∧
      ∀ l, discipline.Keeps l σ (σ.write ws) := by
  obtain ⟨ms, hms⟩ := h.social
  obtain ⟨hok, hsettled⟩ := h.tables hinv.tables
  have hsnap : socialPart.snap (σ.write ws) =
      ⟨σ.seq, { Db.social σ.db with messages := ms }⟩ := by
    rw [← hms]
    rfl
  have hs := hinv.social
  refine ⟨⟨?_, hok⟩, ⟨?_, hsettled⟩, fun l => ?_⟩
  · rw [hsnap]
    exact ⟨{ hs.schema with }, hs.ids,
      fun a b => ⟨(hs.pairs a b).1, (hs.pairs a b).2, (hs.pairs a b).3⟩⟩
  · rw [hsnap]
    exact ⟨le_rfl, rfl, fun r hr => ⟨r, hr, .refl r⟩⟩
  · change Social.discipline.Keeps l (socialPart.snap σ) (socialPart.snap (σ.write ws))
    rw [hsnap]
    cases l with
    | pair low high => exact fun _ => ⟨rfl, rfl, fun k hk _ => hk⟩
    | request id => exact fun r hr hid => ⟨r, hr, hid, rfl, rfl⟩

/-! ### The contract -/

/-- The contract of a forum handler: autocommit statements on behalf of its
caller. -/
def actsFor (env : Env) (caller : Option UserId) : Contract discipline Answer where
  known _ := True
  inTx _ _ _ _ _ := False
  commit _ _ _ _ _ := False
  abort _ _ _ _ := False
  auto _ H σ ws := H = [] ∧ Acts env caller σ.db ws
  reply _ _ := True
  known_stable _ _ := trivial
  inTx_stable h _ _ := h
  commit_inv h := h.elim
  commit_base h := h.elim
  commit_keeps h := h.elim
  auto_inv h hinv := (h.2.sound hinv).1
  auto_base h hinv := (h.2.sound hinv).2.1
  auto_keeps h hinv _ := (h.2.sound hinv).2.2 _

/-- The contract of a call: the statements it may make on the pool, and in the social part
the transactions it may commit. -/
def contract (env : Env) (c : Call) : Contract discipline Answer :=
  match c with
  | .social c => socialPart.contract hosts Answer.social (Social.contract c none)
  | c => actsFor env c.caller

/-! ### Every handler keeps its contract -/

section Safe

variable {failed : Answer} {done : Bool} {text : UserSearch} {u : UserId}

/-- A read keeps every contract: it writes nothing, and what it has read may be out of
date when the next statement runs. -/
theorem safe_read {st : Stmt} {k : st.Result → Code} (f : Db → st.Result)
    (heval : ∀ now seq db, eval st now seq db = some (f db, []))
    (hdraws : drawsId st = false) (hlocks : ∀ now seq db, rowLocks st now seq db = [])
    (h : ∀ σ', Settled σ.db σ'.db → Consistent σ' →
      (actsFor env caller).Safe failed (k (f σ'.db)) (.pool σ' done)) :
    (actsFor env caller).Safe failed (query st k) (.pool σ done) :=
  .query_read f heval hdraws hlocks (fun _ _ => ⟨rfl, .read⟩) fun σ' hb hi _ => h σ' hb.2 hi

/-- A statement that writes on the pool: what it writes has to be what the contract
allows. -/
theorem safe_write {st : Stmt} {k : st.Result → Code} (hdraws : drawsId st = false)
    (hlocks : ∀ now seq db, rowLocks st now seq db = [])
    (hacts : ∀ σ' now r ws, Settled σ.db σ'.db → Consistent σ' →
      eval st now σ'.seq σ'.db = some (r, ws) → Acts env caller σ'.db ws)
    (h : ∀ r σ', (actsFor env caller).Safe failed (k r) (.pool σ' done)) :
    (actsFor env caller).Safe failed (query st k) (.pool σ done) := by
  intro σ' now hb hi _
  have hbump : σ'.bump (E := engine) st = σ' := by simp [Snap.bump, hdraws]
  cases he : engine.eval st now σ'.seq σ'.db with
  | none => trivial
  | some res =>
      dsimp only
      rw [hbump]
      exact ⟨⟨hlocks _ _ _, hacts σ' now res.1 res.2 hb.2 hi he⟩, h _ _⟩

/-- A statement that writes nothing, but may be rejected. -/
theorem safe_silent {st : Stmt} {k : st.Result → Code} (hst : engine.Silent st)
    (hdraws : drawsId st = false) (hlocks : ∀ now seq db, rowLocks st now seq db = [])
    (h : ∀ r σ', (actsFor env caller).Safe failed (k r) (.pool σ' done)) :
    (actsFor env caller).Safe failed (query st k) (.pool σ done) := by
  refine safe_write hdraws hlocks (fun σ' now r ws _ _ he => ?_) h
  obtain rfl := hst now σ'.seq σ'.db r ws he
  exact .read

/-- `get_current_user` goes on with the user itself, or answers 401. -/
theorem safe_getCurrentUser {k : ForumUser → Code} {id : UserId}
    (hk : ∀ user σ', user.id = id → user.isAdmin = env.isAdminUser id →
      (actsFor env caller).Safe failed (k user) (.pool σ' done)) :
    (actsFor env caller).Safe failed (getCurrentUser env id k) (.pool σ done) := by
  refine safe_read (fun db => db.social.loadUser id) (fun _ _ _ => rfl) rfl (fun _ _ _ => rfl)
    fun σ' _ _ => ?_
  cases hrow : (Db.social σ'.db).loadUser id with
  | none => trivial
  | some row =>
      obtain rfl : row.id = id := by simpa [Social.Db.loadUser] using List.find?_some hrow
      exact hk _ _ rfl rfl

theorem safe_requireUserId {k : UserId → Code}
    (hk : ∀ id, caller = some id → (actsFor env caller).Safe failed (k id) (.pool σ done)) :
    (actsFor env caller).Safe failed (requireUserId caller k) (.pool σ done) := by
  cases caller with
  | none => trivial
  | some id => exact hk id rfl

/-- `require_current_user` goes on with the caller, or answers 401. -/
theorem safe_requireCurrentUser {k : ForumUser → Code}
    (hk : ∀ user σ', caller = some user.id → user.isAdmin = env.isAdminUser user.id →
      (actsFor env caller).Safe failed (k user) (.pool σ' done)) :
    (actsFor env caller).Safe failed (requireCurrentUser env caller k) (.pool σ done) :=
  safe_requireUserId fun _ hid => safe_getCurrentUser fun user σ' huser hadmin =>
    hk user σ' (huser ▸ hid) (huser ▸ hadmin)

theorem safe_orBadRequest {β : Type} {checked : Option β} {k : β → Code}
    (hk : ∀ b, (actsFor env caller).Safe failed (k b) (.pool σ done)) :
    (actsFor env caller).Safe failed (orBadRequest checked k) (.pool σ done) := by
  cases checked with
  | none => trivial
  | some b => exact hk b

theorem safe_affected {rows : Nat} {k : Code}
    (hk : (actsFor env caller).Safe failed k (.pool σ done)) :
    (actsFor env caller).Safe failed (affected rows k) (.pool σ done) := by
  unfold affected
  split
  · trivial
  · exact hk

theorem safe_fetchPostById (id : PostId) (viewer : Option UserId) :
    (actsFor env caller).Safe failed (fetchPostById env id viewer) (.pool σ done) := by
  refine safe_read (fun db => (db.postList viewer (·.id == id)).head?) (fun _ _ _ => rfl) rfl
    (fun _ _ _ => rfl) fun σ' _ _ => ?_
  split <;> trivial

/-- A moderator check goes on with an administrator, or with the author that it has
read. -/
theorem safe_requireAuthor {user : ForumUser} {author : (Option UserId → Code) → Code} {k : Code}
    (IsAuthor : State → UserId → Prop)
    (hauthor : ∀ next : Option UserId → Code,
      (∀ a σ', (∀ v, a = some v → IsAuthor σ' v) →
        (actsFor env caller).Safe failed (next a) (.pool σ' done)) →
      (actsFor env caller).Safe failed (author next) (.pool σ done))
    (hk : ∀ σ', user.isAdmin = true ∨ IsAuthor σ' user.id →
      (actsFor env caller).Safe failed k (.pool σ' done)) :
    (actsFor env caller).Safe failed (requireAuthor user author k) (.pool σ done) := by
  unfold requireAuthor
  split
  · rename_i hadmin
    exact hk σ (.inl hadmin)
  · refine hauthor _ fun a σ' ha => ?_
    cases a with
    | none => trivial
    | some v =>
        dsimp only
        split
        · rename_i hv
          exact hk σ' (.inr (hv ▸ ha v rfl))
        · trivial

theorem safe_requirePostModerator {id : PostId} {user : ForumUser} {k : Code}
    (hk : ∀ σ', user.isAdmin = true ∨
      Serial.Owned postColumns (Db.posts σ'.db) (Db.postSeq σ'.db) id user.id →
      (actsFor env caller).Safe failed k (.pool σ' done)) :
    (actsFor env caller).Safe failed (requirePostModerator id user k) (.pool σ done) := by
  refine safe_requireAuthor (fun σ' v => Serial.Owned postColumns (Db.posts σ'.db)
    (Db.postSeq σ'.db) id v) (fun next hnext => ?_) hk
  refine safe_read (fun db => (db.post id).map (·.author)) (fun _ _ _ => rfl) rfl
    (fun _ _ _ => rfl) fun σ' _ hi => hnext _ _ fun v hv => ?_
  obtain ⟨p, hp, rfl⟩ := Option.map_eq_some_iff.mp hv
  obtain rfl : p.id = id := by simpa [Db.post] using List.find?_some hp
  exact hi.tables.posts.owned (List.mem_of_find?_eq_some hp)

theorem safe_requireCommentModerator {id : CommentId} {user : ForumUser} {k : Code}
    (hk : ∀ σ', user.isAdmin = true ∨
      Serial.Owned commentColumns (Db.comments σ'.db) (Db.commentSeq σ'.db) id user.id →
      (actsFor env caller).Safe failed k (.pool σ' done)) :
    (actsFor env caller).Safe failed (requireCommentModerator id user k) (.pool σ done) := by
  refine safe_requireAuthor (fun σ' v => Serial.Owned commentColumns (Db.comments σ'.db)
    (Db.commentSeq σ'.db) id v) (fun next hnext => ?_) hk
  refine safe_read (fun db => (db.comment id).map (·.author)) (fun _ _ _ => rfl) rfl
    (fun _ _ _ => rfl) fun σ' _ hi => hnext _ _ fun v hv => ?_
  obtain ⟨c, hc, rfl⟩ := Option.map_eq_some_iff.mp hv
  obtain rfl : c.id = id := by simpa [Db.comment] using List.find?_some hc
  exact hi.tables.comments.owned (List.mem_of_find?_eq_some hc)

/-- A moderator's right lasts: ids are not drawn again and authors do not change, so it
holds when the statement runs, if it held when the author was read. -/
theorem moderates_later {α : Type} {c : Serial.Columns α UserId} {rows rows' : List α}
    {last last' id : Int} {user : ForumUser} (hadmin : user.isAdmin = env.isAdminUser user.id)
    (h : user.isAdmin = true ∨ Serial.Owned c rows last id user.id)
    (hl : Serial.Later c rows last rows' last') : Moderates env c rows' last' id user.id :=
  h.imp (fun h => hadmin ▸ h) fun h => h.later hl

/-! ### The handlers -/

theorem safe_bootstrap : (actsFor env caller).Safe failed (bootstrap env caller)
    (.pool σ done) := by
  refine safe_read (fun db => db.social.users.mergeSort fun a b => a.id ≤ b.id) (fun _ _ _ => rfl)
    rfl (fun _ _ _ => rfl) fun σ₁ _ _ => ?_
  refine safe_read
    (fun db => db.postList caller fun p => (none : Option String).all (p.category == ·))
    (fun _ _ _ => rfl) rfl (fun _ _ _ => rfl) fun σ₂ _ _ => ?_
  refine safe_read (fun db => db.commentList fun c => (none : Option PostId).all (c.post == ·))
    (fun _ _ _ => rfl) rfl (fun _ _ _ => rfl) fun σ₃ _ _ => ?_
  cases caller with
  | none => trivial
  | some v =>
      exact safe_read (fun db => db.messagesFor v) (fun _ _ _ => rfl) rfl (fun _ _ _ => rfl)
        fun _ _ _ => trivial

theorem safe_createPost (payload : CreatePostRequest) :
    (actsFor env caller).Safe failed (createPost env caller payload) (.pool σ done) := by
  refine safe_requireCurrentUser fun user σ' huser _ => ?_
  -- what the checks answer does not matter
  generalize validateContent payload.title maxPostTitleChars = title
  generalize validateContent payload.content maxPostContentChars = content
  generalize checkCategory payload.category = category
  generalize checkTags payload.tags = tags
  refine safe_orBadRequest fun title => safe_orBadRequest fun content => ?_
  refine safe_orBadRequest fun category => safe_orBadRequest fun tags => ?_
  refine safe_write rfl (fun _ _ _ => rfl) (fun σ'' now r ws _ _ he => ?_) fun _ _ => trivial
  simp only [eval] at he
  split at he
  · cases he
    exact .posted huser rfl
  · cases he

theorem safe_searchPosts (text : UserSearch) (q : Option String) :
    (actsFor env caller).Safe failed (searchPosts env text caller q) (.pool σ done) := by
  unfold searchPosts
  split
  · trivial
  · exact safe_silent (silent_likePosts _ _) rfl (fun _ _ _ => rfl) fun _ _ => trivial

theorem safe_searchUsers (text : UserSearch) (q : Option String) :
    (actsFor env caller).Safe failed (searchUsers env text caller q) (.pool σ done) := by
  refine safe_requireCurrentUser fun user σ' _ _ => ?_
  split
  · trivial
  · exact safe_silent (silent_likeUsers _ _ _) rfl (fun _ _ _ => rfl) fun _ _ => trivial

theorem safe_getPost (id : PostId) :
    (actsFor env caller).Safe failed (getPost env caller id) (.pool σ done) := by
  refine safe_write rfl (fun _ _ _ => rfl) (fun σ' now r ws _ _ he => ?_)
    fun _ _ => safe_fetchPostById id caller
  simp only [eval] at he
  split at he
  · cases he
  · cases he
    exact .viewed

theorem safe_modifyPost (id : PostId) (content : String) :
    (actsFor env caller).Safe failed (modifyPost env caller id content) (.pool σ done) := by
  refine safe_requireCurrentUser fun user σ₁ huser hadmin => ?_
  refine safe_requirePostModerator fun σ₂ hmod => ?_
  generalize validateContent content maxPostContentChars = checked
  refine safe_orBadRequest fun content => ?_
  refine safe_write rfl (fun _ _ _ => rfl) (fun σ₃ now r ws hl _ he => ?_)
    fun _ _ => safe_affected trivial
  simp only [eval] at he
  split at he
  · cases he
    exact .edited huser (moderates_later hadmin hmod hl.posts)
  · cases he

theorem safe_deletePost (id : PostId) :
    (actsFor env caller).Safe failed (deletePost env caller id) (.pool σ done) := by
  refine safe_requireCurrentUser fun user σ₁ huser hadmin => ?_
  refine safe_requirePostModerator fun σ₂ hmod => ?_
  refine safe_write rfl (fun _ _ _ => rfl) (fun σ₃ now r ws hl _ he => ?_)
    fun _ _ => safe_affected trivial
  cases he
  exact .deleted huser (moderates_later hadmin hmod hl.posts)

/-- A handler that only an administrator gets through. -/
theorem safe_requireAdmin {user : ForumUser} {k : Code}
    (hk : user.isAdmin = true → (actsFor env caller).Safe failed k (.pool σ done)) :
    (actsFor env caller).Safe failed (requireAdmin user k) (.pool σ done) := by
  unfold requireAdmin
  split
  · rename_i hadmin
    exact hk hadmin
  · trivial

theorem safe_togglePin (id : PostId) :
    (actsFor env caller).Safe failed (togglePin env caller id) (.pool σ done) := by
  refine safe_requireCurrentUser fun user σ₁ huser hadmin => safe_requireAdmin fun hyes => ?_
  refine safe_write rfl (fun _ _ _ => rfl) (fun σ₂ now r ws _ _ he => ?_)
    fun _ _ => safe_affected (safe_fetchPostById id none)
  cases he
  exact .pinned huser (hadmin ▸ hyes)

theorem safe_toggleLock (id : PostId) :
    (actsFor env caller).Safe failed (toggleLock env caller id) (.pool σ done) := by
  refine safe_requireCurrentUser fun user σ₁ huser hadmin => safe_requireAdmin fun hyes => ?_
  refine safe_write rfl (fun _ _ _ => rfl) (fun σ₂ now r ws _ _ he => ?_)
    fun _ _ => safe_affected (safe_fetchPostById id none)
  cases he
  exact .locked huser (hadmin ▸ hyes)

theorem safe_toggleLike (id : PostId) :
    (actsFor env caller).Safe failed (toggleLike env caller id) (.pool σ done) := by
  refine safe_requireUserId fun u hu => safe_getCurrentUser fun _ σ₁ _ _ => ?_
  refine safe_read (fun db => (db.post id).isSome) (fun _ _ _ => rfl) rfl (fun _ _ _ => rfl)
    fun σ₂ _ _ => ?_
  split
  · trivial
  refine safe_read (fun db => db.likes.any fun l => l.post == id && l.user == u) (fun _ _ _ => rfl)
    rfl (fun _ _ _ => rfl) fun σ₃ _ _ => ?_
  split
  · refine safe_write rfl (fun _ _ _ => rfl) (fun σ₄ now r ws _ _ he => ?_)
      fun _ _ => safe_fetchPostById id (some u)
    cases he
    exact .unliked hu
  · refine safe_write rfl (fun _ _ _ => rfl) (fun σ₄ now r ws _ _ he => ?_)
      fun _ _ => safe_fetchPostById id (some u)
    simp only [eval] at he
    split at he
    · cases he
      exact .read
    · split at he
      -- the foreign keys are checked by the `INSERT`
      · rename_i hex
        cases he
        simp only [Bool.and_eq_true] at hex
        obtain ⟨p, hp⟩ := Option.isSome_iff_exists.mp hex.1
        exact .liked hu ⟨p, List.mem_of_find?_eq_some hp, by simpa using List.find?_some hp⟩
      · cases he

theorem safe_createComment (postId : PostId) (content : String) :
    (actsFor env caller).Safe failed (createComment env caller postId content) (.pool σ done) := by
  refine safe_requireCurrentUser fun user σ₁ huser _ => ?_
  generalize validateContent content maxCommentChars = checked
  refine safe_orBadRequest fun content => ?_
  refine safe_read (fun db => (db.post postId).map (·.isLocked)) (fun _ _ _ => rfl) rfl
    (fun _ _ _ => rfl) fun σ₂ _ _ => ?_
  split
  · trivial
  split
  · trivial
  refine safe_write rfl (fun _ _ _ => rfl) (fun σ₃ now r ws _ _ he => ?_) fun _ _ => trivial
  simp only [eval] at he
  split at he
  · rename_i hex
    cases he
    simp only [Bool.and_eq_true] at hex
    obtain ⟨p, hp⟩ := Option.isSome_iff_exists.mp hex.1.2
    exact .commented huser rfl ⟨p, List.mem_of_find?_eq_some hp, by simpa using List.find?_some hp⟩
  · cases he

theorem safe_deleteComment (id : CommentId) :
    (actsFor env caller).Safe failed (deleteComment env caller id) (.pool σ done) := by
  refine safe_requireCurrentUser fun user σ₁ huser hadmin => ?_
  refine safe_requireCommentModerator fun σ₂ hmod => ?_
  refine safe_write rfl (fun _ _ _ => rfl) (fun σ₃ now r ws hl _ he => ?_)
    fun _ _ => safe_affected trivial
  cases he
  exact .uncommented huser (moderates_later hadmin hmod hl.comments)

theorem safe_markMessageRead (id : Int) :
    (actsFor env caller).Safe failed (markMessageRead env caller id) (.pool σ done) := by
  refine safe_requireCurrentUser fun user σ₁ huser _ => ?_
  refine safe_write rfl (fun _ _ _ => rfl) (fun σ₂ now r ws _ _ he => ?_)
    fun _ _ => safe_affected trivial
  cases he
  exact .readMessage huser

theorem safe_markConversationRead (partner : UserId) :
    (actsFor env caller).Safe failed (markConversationRead env caller partner) (.pool σ done) := by
  refine safe_requireCurrentUser fun user σ₁ huser _ => ?_
  refine safe_write rfl (fun _ _ _ => rfl) (fun σ₂ now r ws _ _ he => ?_)
    fun _ _ => safe_affected trivial
  cases he
  exact .readConversation huser

theorem safe_clearHistory (partnerId : Int) :
    (actsFor env caller).Safe failed (clearHistory caller partnerId) (.pool σ done) := by
  unfold clearHistory
  split
  · trivial
  · rename_i v
    refine safe_read (fun db => db.social.userExists v) (fun _ _ _ => rfl) rfl (fun _ _ _ => rfl)
      fun σ₁ _ _ => ?_
    split
    · trivial
    split
    · trivial
    · rename_i partner _
      split
      · trivial
      refine safe_read (fun db => db.maxMessageId v partner) (fun _ _ _ => rfl) rfl
        (fun _ _ _ => rfl) fun σ₂ _ _ => ?_
      refine safe_write rfl (fun _ _ _ => rfl) (fun σ₃ now r ws _ _ he => ?_) fun _ _ => trivial
      simp only [eval] at he
      split at he
      · cases he
      split at he
      · rename_i c hc
        cases he
        have hfound := List.find?_some hc
        simp only [Bool.and_eq_true, beq_iff_eq] at hfound
        exact .cleared (congrArg some hfound.1.symm)
      · split at he
        · cases he
          exact .cleared rfl
        · cases he

end Safe

/-- **Every handler of the server keeps its contract.** -/
theorem Call.safe (env : Env) (text : UserSearch) (c : Call) :
    (contract env c).Safe c.failed (c.code env text) (.pool σ false) := by
  cases c with
  | social c => exact (c.safe env none fun r hr => by cases hr).embed hosts (.pool σ false)
  | bootstrap v => exact safe_bootstrap
  | listUsers =>
      exact safe_read (fun db => db.social.users.mergeSort fun a b => a.id ≤ b.id)
        (fun _ _ _ => rfl) rfl (fun _ _ _ => rfl) fun _ _ _ => trivial
  | listPosts v c =>
      exact safe_silent (silent_postList _ _) rfl (fun _ _ _ => rfl) fun _ _ => trivial
  | searchPosts v q => exact safe_searchPosts text q
  | getPost v id => exact safe_getPost id
  | createPost v p => exact safe_createPost p
  | myPosts v =>
      exact safe_requireUserId fun u _ => safe_read (fun db => db.postList (some u) (·.author == u))
        (fun _ _ _ => rfl) rfl (fun _ _ _ => rfl) fun _ _ _ => trivial
  | modifyPost v id c => exact safe_modifyPost id c
  | deletePost v id => exact safe_deletePost id
  | togglePin v id => exact safe_togglePin id
  | toggleLock v id => exact safe_toggleLock id
  | toggleLike v id => exact safe_toggleLike id
  | listComments id =>
      exact safe_read (fun db => db.commentList fun c => (some id).all (c.post == ·))
        (fun _ _ _ => rfl) rfl (fun _ _ _ => rfl) fun _ _ _ => trivial
  | createComment v id c => exact safe_createComment id c
  | deleteComment v id => exact safe_deleteComment id
  | listMessages v =>
      exact safe_requireCurrentUser fun user _ _ _ => safe_read (fun db => db.messagesFor user.id)
        (fun _ _ _ => rfl) rfl (fun _ _ _ => rfl) fun _ _ _ => trivial
  | markMessageRead v id => exact safe_markMessageRead id
  | markConversationRead v p => exact safe_markConversationRead p
  | searchUsers v q => exact safe_searchUsers text q
  | clearHistory v p => exact safe_clearHistory p

/-! ### The server -/

section Server

variable {ι : Type} [DecidableEq ι] {text : UserSearch} {seq now poolSize : Nat} {faulty : Bool}
  {calls : ι → Call} {s : Server ι}

/-- The system invariant of the server. -/
abbrev ServerInv (env : Env) (poolSize : Nat) (faulty : Bool) (calls : ι → Call) (σ₀ : State)
    (s : Server ι) : Prop :=
  SysInv (fun i => contract env (calls i)) (config poolSize faulty calls) [] σ₀ s

/-- **The system invariant holds in every state reached from consistent tables.** -/
theorem serverInv_of_consistent (hdb : Consistent ⟨seq, db⟩)
    (h : Transition.Reachable (serve poolSize faulty calls) (server env text db seq now calls) s) :
    ServerInv env poolSize faulty calls ⟨seq, db⟩ s := by
  refine sysInv_reachable h (sysInv_start hdb ?_ fun i => (calls i).safe env text)
  intro i
  cases calls i with
  | social c =>
      intro r hr
      cases hr
  | _ => trivial

end Server

end DevbitBackend.Forum
