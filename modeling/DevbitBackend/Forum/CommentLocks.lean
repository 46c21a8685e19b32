import Mathlib.Algebra.Group.Nat.Even
import DevbitBackend.Forum.Access

/-!
# Forum.CommentLocks

`create_comment` against `toggle_lock`. The lock of the post is read in one
statement and the comment inserted in the next one, and an administrator may
toggle in between, any number of times. At the `INSERT` the post is unlocked
exactly when an even number of toggles has fallen between the two
(`comment_unlocked_iff`).
-/

namespace DevbitBackend.Forum

open Txn Transition Social

/-! ### Toggles in the history -/

section Toggles

variable {ι : Type} [DecidableEq ι]

/-- The entry is a `toggle_lock` of the post `p`. -/
def toggles (p : PostId) : Entry engine ι → Bool
  | .auto _ _ ws => ws == [.toggleLock p]
  | _ => false

/-- The number of toggles of the post `p` since the last entry of the call `i`. A
`create_comment` that stands before its `INSERT` has read the lock last. -/
def togglesSince (p : PostId) (i : ι) (log : List (Entry engine ι)) : Nat :=
  log.foldl (fun n e => if e.call = i then 0 else n + (toggles p e).toNat) 0

theorem togglesSince_own {p : PostId} {i : ι} {log : List (Entry engine ι)} {e : Entry engine ι}
    (h : e.call = i) : togglesSince p i (log ++ [e]) = 0 := by
  simp [togglesSince, h]

theorem togglesSince_other {p : PostId} {i : ι} {log : List (Entry engine ι)}
    {e : Entry engine ι} (h : e.call ≠ i) :
    togglesSince p i (log ++ [e]) = togglesSince p i log + (toggles p e).toNat := by
  simp [togglesSince, h]

end Toggles

/-! ### The code of the handlers -/

/-- The post that the statement has found unlocked. -/
def Stmt.unlocked : (st : Stmt) → st.Result → Option PostId
  | .postLocked p, some false => some p
  | _, _ => none

/-- Code that inserts a comment only right after it has found the post unlocked.
`found` is what the statement before has found. -/
def Checked : (found : Option PostId) → Code → Prop
  | found, .query st k =>
      (∀ p a text, st = .insertComment p a text → found = some p) ∧
        ∀ r, Checked (st.unlocked r) (k r)
  | _, .exec _ k => ∀ r, Checked none (k r)
  | _, .begin k | _, .lock _ k | _, .commit k | _, .emit _ k => Checked none k
  | _, .rollback k => ∀ b, Checked none (k b)
  | _, .clock k => ∀ t, Checked none (k t)
  | _, .done _ => True

section Code

variable {env : Env} {found : Option PostId} {identity : Option UserId}

theorem checked_embed (q : Social.Code) (found : Option PostId) :
    Checked found (q.embed socialPart Answer.social) := by
  induction q generalizing found with
  | query st k ih => exact ⟨nofun, fun r => ih r none⟩
  | exec st k ih => exact fun r => ih r none
  | begin k ih => exact ih none
  | lock l k ih => exact ih none
  | commit k ih => exact ih none
  | emit n k ih => exact ih none
  | rollback k ih => exact fun b => ih b none
  | clock k ih => exact fun t => ih t none
  | done a => trivial

/-- A statement that is neither the read of the lock nor the `INSERT`. -/
theorem checked_query {st : Stmt} {k : st.Result → Code}
    (hst : ∀ p a text, st ≠ .insertComment p a text) (hread : ∀ r, st.unlocked r = none)
    (hk : ∀ r, Checked none (k r)) : Checked found (.query st k) :=
  ⟨fun p a text h => absurd h (hst p a text), fun r => hread r ▸ hk r⟩

theorem checked_requireUserId {k : UserId → Code} (hk : ∀ u, Checked found (k u)) :
    Checked found (requireUserId identity k) := by
  cases identity with
  | none => trivial
  | some u => exact hk u

theorem checked_getCurrentUser {u : UserId} {k : ForumUser → Code}
    (hk : ∀ user, Checked none (k user)) : Checked found (getCurrentUser env u k) := by
  refine checked_query nofun (fun _ => rfl) fun row => ?_
  cases row with
  | none => trivial
  | some row => exact hk _

theorem checked_requireCurrentUser {k : ForumUser → Code} (hk : ∀ user, Checked none (k user)) :
    Checked found (requireCurrentUser env identity k) :=
  checked_requireUserId fun _ => checked_getCurrentUser hk

theorem checked_requireAdmin {user : ForumUser} {k : Code} (hk : Checked found k) :
    Checked found (requireAdmin user k) := by
  unfold requireAdmin
  split
  · exact hk
  · trivial

theorem checked_author {user : ForumUser} {k : Code} (hk : Checked none k)
    (author : Option UserId) : Checked none (match author with
      | none => fail 404
      | some author => if author = user.id then k else fail 403) := by
  cases author with
  | none => trivial
  | some author =>
      dsimp only
      split
      · exact hk
      · trivial

theorem checked_requirePostModerator {id : PostId} {user : ForumUser} {k : Code}
    (hk : Checked none k) : Checked none (requirePostModerator id user k) := by
  unfold requirePostModerator requireAuthor
  split
  · exact hk
  · exact checked_query nofun (fun _ => rfl) (checked_author hk)

theorem checked_requireCommentModerator {id : CommentId} {user : ForumUser} {k : Code}
    (hk : Checked none k) : Checked none (requireCommentModerator id user k) := by
  unfold requireCommentModerator requireAuthor
  split
  · exact hk
  · exact checked_query nofun (fun _ => rfl) (checked_author hk)

theorem checked_orBadRequest {β : Type} {checked : Option β} {k : β → Code}
    (hk : ∀ b, Checked found (k b)) : Checked found (orBadRequest checked k) := by
  cases checked with
  | none => trivial
  | some b => exact hk b

theorem checked_affected {n : Nat} {k : Code} (hk : Checked found k) :
    Checked found (affected n k) := by
  unfold affected
  split
  · trivial
  · exact hk

theorem checked_fetchPostById (id : PostId) (viewer : Option UserId) :
    Checked found (fetchPostById env id viewer) := by
  refine checked_query nofun (fun _ => rfl) fun row => ?_
  cases row <;> trivial

theorem checked_createComment {postId : PostId} {content : String} :
    Checked found (createComment env identity postId content) := by
  refine checked_requireCurrentUser fun user => ?_
  -- what the check answers does not matter
  generalize validateContent content maxCommentChars = checked
  refine checked_orBadRequest fun content => ⟨nofun, fun post => ?_⟩
  rcases post with _ | _ | _
  · trivial
  · exact ⟨fun p a text h => by cases h; rfl, fun row => trivial⟩
  · trivial

/-- Every handler keeps to it: `create_comment` reads the lock right before its `INSERT`,
and no other inserts comments. -/
theorem checked_code (env : Env) (text : UserSearch) (c : Call) :
    Checked none (c.code env text) := by
  cases c with
  | social c => exact checked_embed _ _
  | bootstrap v =>
      refine checked_query nofun (fun _ => rfl) fun users => ?_
      refine checked_query nofun (fun _ => rfl) fun posts => ?_
      refine checked_query nofun (fun _ => rfl) fun comments => ?_
      cases v with
      | none => trivial
      | some user => exact checked_query nofun (fun _ => rfl) fun messages => trivial
  | listUsers => exact checked_query nofun (fun _ => rfl) fun users => trivial
  | listPosts v c => exact checked_query nofun (fun _ => rfl) fun posts => trivial
  | searchPosts v q =>
      unfold Call.code searchPosts
      dsimp only
      split
      · trivial
      · exact checked_query nofun (fun _ => rfl) fun posts => trivial
  | getPost v id =>
      exact checked_query nofun (fun _ => rfl) fun n => checked_fetchPostById id v
  | createPost v p =>
      refine checked_requireCurrentUser fun user => ?_
      -- what the checks answer does not matter
      generalize validateContent p.title maxPostTitleChars = title
      generalize validateContent p.content maxPostContentChars = content
      generalize checkCategory p.category = category
      generalize checkTags p.tags = tags
      refine checked_orBadRequest fun title => checked_orBadRequest fun content => ?_
      refine checked_orBadRequest fun category => checked_orBadRequest fun tags => ?_
      exact checked_query nofun (fun _ => rfl) fun row => trivial
  | myPosts v =>
      exact checked_requireUserId fun u => checked_query nofun (fun _ => rfl) fun posts => trivial
  | modifyPost v id c =>
      refine checked_requireCurrentUser fun user => checked_requirePostModerator ?_
      generalize validateContent c maxPostContentChars = checked
      refine checked_orBadRequest fun content => ?_
      exact checked_query nofun (fun _ => rfl) fun n => checked_affected trivial
  | deletePost v id =>
      refine checked_requireCurrentUser fun user => checked_requirePostModerator ?_
      exact checked_query nofun (fun _ => rfl) fun n => checked_affected trivial
  | togglePin v id =>
      refine checked_requireCurrentUser fun user => checked_requireAdmin ?_
      exact checked_query nofun (fun _ => rfl) fun n =>
        checked_affected (checked_fetchPostById id none)
  | toggleLock v id =>
      refine checked_requireCurrentUser fun user => checked_requireAdmin ?_
      exact checked_query nofun (fun _ => rfl) fun n =>
        checked_affected (checked_fetchPostById id none)
  | toggleLike v id =>
      refine checked_requireUserId fun u => checked_getCurrentUser fun user => ?_
      refine checked_query nofun (fun _ => rfl) fun found => ?_
      split
      · trivial
      refine checked_query nofun (fun _ => rfl) fun liked => ?_
      split
      · exact checked_query nofun (fun _ => rfl) fun n => checked_fetchPostById id _
      · exact checked_query nofun (fun _ => rfl) fun n => checked_fetchPostById id _
  | listComments id => exact checked_query nofun (fun _ => rfl) fun comments => trivial
  | createComment v id c => exact checked_createComment
  | deleteComment v id =>
      refine checked_requireCurrentUser fun user => checked_requireCommentModerator ?_
      exact checked_query nofun (fun _ => rfl) fun n => checked_affected trivial
  | listMessages v =>
      refine checked_requireCurrentUser fun user => ?_
      exact checked_query nofun (fun _ => rfl) fun messages => trivial
  | markMessageRead v id =>
      refine checked_requireCurrentUser fun user => ?_
      exact checked_query nofun (fun _ => rfl) fun n => checked_affected trivial
  | markConversationRead v p =>
      refine checked_requireCurrentUser fun user => ?_
      exact checked_query nofun (fun _ => rfl) fun n => checked_affected trivial
  | searchUsers v q =>
      refine checked_requireCurrentUser fun user => ?_
      split
      · trivial
      · exact checked_query nofun (fun _ => rfl) fun users => trivial
  | clearHistory v p =>
      cases v with
      | none => trivial
      | some v =>
          refine checked_query nofun (fun _ => rfl) fun found => ?_
          dsimp only
          split
          · trivial
          split
          · trivial
          split
          · trivial
          refine checked_query nofun (fun _ => rfl) fun through => ?_
          exact checked_query nofun (fun _ => rfl) fun _ => trivial

end Code

/-! ### What the writes do to a lock -/

/-- What an autocommit statement or a transaction of some handler may write. -/
def Ran (env : Env) (db : Db) (ws : List Write) : Prop :=
  (∃ caller, Acts env caller db ws) ∨ ∃ ws₀ : List Social.Write, ws = ws₀.map socialPart.write

section Writes

variable {env : Env} {db : Db} {ws : List Write} {p : PostId} {x' : PostRow}

/-- The look-up of a post that is there. -/
theorem post_eq_some (hok : TablesOk db) {x : PostRow} (hx : x ∈ Db.posts db) :
    Db.post db x.id = some x := by
  have hsome : (Db.post db x.id).isSome := List.find?_isSome.mpr ⟨x, hx, beq_self_eq_true _⟩
  obtain ⟨y, hy⟩ := Option.isSome_iff_exists.mp hsome
  have hid : y.id = x.id := by simpa using List.find?_some hy
  rw [hy, hok.posts.eq_of_key (List.mem_of_find?_eq_some hy) hx hid]

/-- An `UPDATE` of other columns. -/
theorem lock_updatePost {id : PostId} {f : PostRow → PostRow}
    (hx' : x' ∈ (db.updatePost id f).posts) (hp : x'.id = p) (hid : ∀ x, (f x).id = x.id)
    (hlock : ∀ x, (f x).isLocked = x.isLocked) :
    ∃ x ∈ db.posts, x.id = p ∧ x'.isLocked = x.isLocked := by
  obtain ⟨x, hx, rfl⟩ := List.mem_map.mp hx'
  refine ⟨x, hx, ?_, ?_⟩
  · split at hp
    · rw [← hp, hid]
    · exact hp
  · split
    · exact hlock x
    · rfl

/-- A post that is there was there, and its lock has changed if it was toggled. -/
theorem Acts.lock {caller : Option UserId} (h : Acts env caller db ws) (hdrawn : p ≤ db.postSeq)
    (hx' : x' ∈ Db.posts (engine.applyAll ws db)) (hp : x'.id = p) :
    ∃ x ∈ db.posts, x.id = p ∧ x'.isLocked = (x.isLocked ^^ (ws == [.toggleLock p])) := by
  have other : ∀ {ws' : List Write}, ws' ≠ [.toggleLock p] →
      (∃ x ∈ db.posts, x.id = p ∧ x'.isLocked = x.isLocked) →
        ∃ x ∈ db.posts, x.id = p ∧ x'.isLocked = (x.isLocked ^^ (ws' == [.toggleLock p])) := by
    intro ws' hne hkept
    simpa [beq_eq_false_iff_ne.mpr hne] using hkept
  cases h with
  | viewed => exact other nofun (lock_updatePost hx' hp (fun _ => rfl) fun _ => rfl)
  | edited => exact other nofun (lock_updatePost hx' hp (fun _ => rfl) fun _ => rfl)
  | pinned => exact other nofun (lock_updatePost hx' hp (fun _ => rfl) fun _ => rfl)
  | @locked u id =>
      obtain ⟨x, hx, rfl⟩ := List.mem_map.mp hx'
      by_cases hid : x.id = id
      · rw [if_pos hid] at hp ⊢
        obtain rfl : x.id = p := hp
        exact ⟨x, hx, rfl, by simp [hid]⟩
      · rw [if_neg hid] at hp
        have hne : ([.toggleLock id] : List Write) ≠ [.toggleLock p] := by
          rintro ⟨⟩
          exact hid hp
        exact other hne ⟨x, hx, hp, by rw [if_neg hid]⟩
  | posted _ hid =>
      rcases List.mem_append.mp hx' with hx' | hx'
      · exact other nofun ⟨x', hx', hp, rfl⟩
      · rw [List.mem_singleton.mp hx', hid] at hp
        -- a new post has an id above all that were drawn
        exact absurd (hp ▸ hdrawn) (Int.not_le.mpr (Int.lt_succ _))
  | deleted => exact other nofun ⟨x', List.mem_of_mem_filter hx', hp, rfl⟩
  | _ => exact other nofun ⟨x', hx', hp, rfl⟩

theorem Ran.lock (h : Ran env db ws) (hdrawn : p ≤ db.postSeq)
    (hx' : x' ∈ Db.posts (engine.applyAll ws db)) (hp : x'.id = p) :
    ∃ x ∈ db.posts, x.id = p ∧ x'.isLocked = (x.isLocked ^^ (ws == [.toggleLock p])) := by
  rcases h with ⟨caller, h⟩ | ⟨ws₀, rfl⟩
  · exact h.lock hdrawn hx' hp
  · rw [forum_applyAll] at hx'
    have hne : (ws₀.map socialPart.write == [.toggleLock p]) = false := by
      rcases ws₀ with _ | ⟨w, _ | ⟨w', ws₀⟩⟩ <;> simp [socialPart]
    exact ⟨x', hx', hp, by simp [hne]⟩

theorem Ran.postSeq_le (h : Ran env db ws) (hok : TablesOk db) :
    db.postSeq ≤ Db.postSeq (engine.applyAll ws db) := by
  rcases h with ⟨caller, h⟩ | ⟨ws₀, rfl⟩
  · exact (h.tables hok).2.posts.advanced
  · rw [forum_applyAll]

/-- A comment that is new has been inserted into a post that is there. -/
theorem Ran.comments (h : Ran env db ws) {c : CommentRow}
    (hc : c ∈ Db.comments (engine.applyAll ws db)) (hnew : c ∉ db.comments) :
    ws = [.insertComment c] ∧ ∃ x ∈ db.posts, x.id = c.post := by
  rcases h with ⟨caller, h⟩ | ⟨ws₀, rfl⟩
  · cases h with
    | @commented c' _ _ hpost =>
        rcases List.mem_append.mp hc with hc | hc
        · exact absurd hc hnew
        · obtain rfl := List.mem_singleton.mp hc
          exact ⟨rfl, hpost⟩
    | deleted => exact absurd (List.mem_of_mem_filter hc) hnew
    | uncommented => exact absurd (List.mem_of_mem_filter hc) hnew
    | _ => exact absurd hc hnew
  · rw [forum_applyAll] at hc
    exact absurd hc hnew

end Writes

/-- The statement that inserts a comment. -/
theorem stmt_of_insertComment {st : Stmt} {now seq : Nat} {db : Db} {r : st.Result} {c : CommentRow}
    (he : eval st now seq db = some (r, [.insertComment c])) :
    ∃ a text, st = .insertComment c.post a text := by
  cases st with
  | insertComment p a text =>
      simp only [eval] at he
      split at he
      · cases he
        exact ⟨a, text, rfl⟩
      · cases he
  | social st =>
      obtain ⟨⟨r', ws⟩, -, hres⟩ := Option.map_eq_some_iff.mp he
      have hws : ws.map Write.social = [.insertComment c] := congrArg Prod.snd hres
      rcases ws with _ | ⟨w, _ | ⟨w', ws⟩⟩ <;> cases hws
  | upsertClear u p through =>
      simp only [eval] at he
      split at he
      · cases he
      split at he
      · cases he
      · split at he <;> cases he
  | insertLike id u =>
      simp only [eval] at he
      split at he
      · cases he
      · split at he <;> cases he
  | viewPost id =>
      simp only [eval] at he
      split at he <;> cases he
  | insertPost a title content category tags =>
      simp only [eval] at he
      split at he <;> cases he
  | editPost id content =>
      simp only [eval] at he
      split at he <;> cases he
  | postList viewer category => cases silent_postList _ _ now seq db _ _ he
  | likePosts viewer containsPattern => cases silent_likePosts _ _ now seq db _ _ he
  | likeUsers containsPattern prefixPattern query =>
      cases silent_likeUsers _ _ _ now seq db _ _ he
  | _ => cases he

/-! ### Between the read of the lock and the `INSERT` -/

section Runs

variable {ι : Type} [DecidableEq ι] {env : Env} {text : UserSearch} {db : Db} {σ₀ : State}
  {seq now poolSize : Nat} {faulty : Bool} {calls : ι → Call} {s s' : Server ι} {l : Label ι}
  {p : PostId} {i j : ι}

/-- The id `p` has been given to a post, and the post, if it is still there, is
locked exactly when it has been toggled an odd number of times since the last entry
of `i`. -/
structure Window (p : PostId) (i : ι) (s : Server ι) : Prop where
  drawn : p ≤ Db.postSeq s.db
  locked : ∀ x ∈ Db.posts s.db, x.id = p → (x.isLocked = true ↔ Odd (togglesSince p i s.log))

/-- What is known of a call: a comment of it is inserted into the post of its
window only. -/
def Stands (s : Server ι) (i : ι) : Phase engine Answer → Prop
  | .idle q => Checked none q
  | .pool q => ∃ found, Checked found q ∧ ∀ p, found = some p → Window p i s
  | .conn st k => ∃ found, Checked found (.query st k) ∧ ∀ p, found = some p → Window p i s
  | .tx _ _ _ q => Checked none q
  | .done _ => True

theorem Window.same (h : Window p i s) (hdb : s'.db = s.db) (hlog : s'.log = s.log) :
    Window p i s' where
  drawn := hdb ▸ h.drawn
  locked := by
    rw [hdb, hlog]
    exact h.locked

/-- Another call writes an entry that is no toggle. -/
theorem Window.entry (h : Window p i s) {e : Entry engine ι} (hdb : s'.db = s.db)
    (hlog : s'.log = s.log ++ [e]) (he : e.call ≠ i) (ht : toggles p e = false) :
    Window p i s' where
  drawn := hdb ▸ h.drawn
  locked := by
    rw [hdb, hlog, togglesSince_other he, ht]
    exact h.locked

/-- Another call writes to the tables: the window stays open, and counts the toggles of
the lock. -/
theorem Window.wrote (h : Window p i s) (hok : TablesOk s.db) {ws : List Write}
    (hran : Ran env s.db ws) {e : Entry engine ι} (hdb : s'.db = engine.applyAll ws s.db)
    (hlog : s'.log = s.log ++ [e]) (he : e.call ≠ i)
    (ht : toggles p e = (ws == [.toggleLock p])) : Window p i s' where
  drawn := hdb ▸ h.drawn.trans (hran.postSeq_le hok)
  locked x' hx' hp := by
    rw [hdb] at hx'
    obtain ⟨x, hx, hid, hlock⟩ := hran.lock h.drawn hx' hp
    have hold := h.locked x hx hid
    rw [hlog, togglesSince_other he, ht, hlock]
    cases hw : ws == [.toggleLock p] with
    | false => simpa using hold
    | true =>
        simp only [Bool.xor_true, Bool.not_eq_true', Bool.toNat_true, Nat.odd_add_one, ← hold,
          Bool.not_eq_true]

/-- What the writes of a statement on the pool are. -/
theorem ran_auto (hinv : ServerInv env poolSize faulty calls σ₀ s) {st : Stmt}
    {k : st.Result → Code} {r : st.Result} {ws : List Write} (hc : s.calls i = .conn st k)
    (he : eval st s.now s.seq s.db = some (r, ws)) : Ran env s.db ws := by
  obtain ⟨hauto, -⟩ := hinv.autos hc he
  revert hauto
  cases calls i with
  | social c =>
      intro ha
      obtain ⟨H₀, ws₀, -, rfl, -⟩ := ha
      exact .inr ⟨ws₀, rfl⟩
  | _ => exact fun ha => .inl ⟨_, ha.2⟩

/-- What the writes of a transaction are. -/
theorem ran_commit (hinv : ServerInv env poolSize faulty calls σ₀ s) {start : Nat}
    {buf : List Write} {notes : List engine.Note} {k : Code}
    (hc : s.calls i = .tx start buf notes (.commit k)) :
    ∃ ws₀ : List Social.Write, buf = ws₀.map socialPart.write := by
  obtain ⟨H, hcommit⟩ := hinv.commits hc
  revert hcommit
  cases calls i with
  | social c =>
      intro hcommit
      obtain ⟨H₀, ws₀, notes₀, -, rfl, -⟩ := hcommit
      exact ⟨ws₀, rfl⟩
  | _ => exact fun h => h.elim

/-- What a call knows stays true while another one moves. -/
theorem Window.other (hinv : ServerInv env poolSize faulty calls σ₀ s) (h : Window p j s)
    (hstep : serve poolSize faulty calls l s = some s') (hrun : l ≠ .run j) (hfail : l ≠ .fail j) :
    Window p j s' := by
  have hne : ∀ {i}, l = .run i ∨ l = .fail i → i ≠ j := by
    rintro i (rfl | rfl) rfl
    · exact hrun rfl
    · exact hfail rfl
  cases move_of_step hstep with
  | @auto i st k r ws hc he _ =>
      exact h.wrote hinv.inv.tables (ran_auto hinv hc he) rfl rfl (hne (.inl rfl)) rfl
  | @commit i start buf notes k hc =>
      obtain ⟨ws₀, hbuf⟩ := ran_commit hinv hc
      have hran : Ran env s.db buf := .inr ⟨ws₀, hbuf⟩
      refine h.wrote hinv.inv.tables hran rfl rfl (hne (.inl rfl)) ?_
      rw [hbuf]
      rcases ws₀ with _ | ⟨w, _ | ⟨w', ws₀⟩⟩ <;> simp [toggles, socialPart]
  | @note i n k hc => exact h.entry rfl rfl (hne (.inl rfl)) rfl
  | @rejected i start buf notes st k hc he => exact h.entry rfl rfl (hne (.inl rfl)) rfl
  | @rollback i start buf notes k hc => exact h.entry rfl rfl (hne (.inl rfl)) rfl
  | @leave i start buf notes a hc => exact h.entry rfl rfl (hne (.inl rfl)) rfl
  | @failTx i start buf notes q hc hf => exact h.entry rfl rfl (hne (.inr rfl)) rfl
  | @failRollback i start buf notes k hc hf => exact h.entry rfl rfl (hne (.inr rfl)) rfl
  | _ => exact h.same rfl rfl

theorem Stands.mono {ph : Phase engine Answer} (h : Stands s i ph)
    (hw : ∀ p, Window p i s → Window p i s') : Stands s' i ph := by
  cases ph with
  | idle q => exact h
  | pool q =>
      obtain ⟨found, hq, hwin⟩ := h
      exact ⟨found, hq, fun p hp => hw p (hwin p hp)⟩
  | conn st k =>
      obtain ⟨found, hq, hwin⟩ := h
      exact ⟨found, hq, fun p hp => hw p (hwin p hp)⟩
  | tx _ _ _ q => exact h
  | done _ => trivial

/-- A call goes on without having found anything. -/
theorem stands_pool {q : Code} (h : Checked none q) : Stands s i (.pool q) := ⟨none, h, nofun⟩

/-- The read of the lock opens a window. -/
theorem window_read (hok : TablesOk s.db) {st : Stmt} {r : st.Result} {ws : List Write}
    (he : eval st s.now s.seq s.db = some (r, ws)) (hfound : st.unlocked r = some p)
    {e : Entry engine ι} (hcall : e.call = i) (hdb : s'.db = engine.applyAll ws s.db)
    (hlog : s'.log = s.log ++ [e]) : Window p i s' := by
  cases st with
  | postLocked p' =>
      cases he
      cases hpost : (Db.post s.db p').map (·.isLocked) with
      | none =>
          rw [hpost] at hfound
          cases hfound
      | some locked =>
          rw [hpost] at hfound
          cases locked with
          | true => cases hfound
          | false =>
              obtain rfl : p' = p := Option.some.inj hfound
              -- the post is there and unlocked, and nothing of `i` has been logged since
              obtain ⟨x, hx, hunlocked⟩ := Option.map_eq_some_iff.mp hpost
              have hmem : x ∈ Db.posts s.db := List.mem_of_find?_eq_some hx
              obtain rfl : x.id = p' := by simpa using List.find?_some hx
              refine ⟨hdb ▸ hok.posts.drawn x hmem, fun x' hx' hid => ?_⟩
              rw [hdb] at hx'
              obtain rfl : x' = x := hok.posts.eq_of_key hx' hmem hid
              simp [hlog, togglesSince_own hcall, hunlocked]
  | _ => cases hfound

theorem stands_goto {s₁ : Server ι} {ph : Phase engine Answer} (h : Stands (s₁.goto i ph) i ph) :
    Stands (s₁.goto i ph) i ((s₁.goto i ph).calls i) := by
  have hcalls : (s₁.goto i ph).calls i = ph := by simp [Sys.goto]
  rw [hcalls]
  exact h

theorem stands_goto_tx {s₁ : Server ι} {start : Nat} {buf : List Write}
    {notes : List engine.Note} {q : Code} (h : Checked none q) :
    Stands (s₁.goto i (.tx start buf notes q)) i ((s₁.goto i (.tx start buf notes q)).calls i) :=
  stands_goto h

theorem stands_goto_done {s₁ : Server ι} {a : Answer} :
    Stands (s₁.goto i (.done a)) i ((s₁.goto i (.done a)).calls i) :=
  stands_goto trivial

/-- What is known of the call that moves. -/
theorem stands_own (hok : TablesOk s.db) (h : ∀ i, Stands s i (s.calls i))
    (hmove : Move (config poolSize faulty calls) s l s') (hj : l = .run j ∨ l = .fail j) :
    Stands s' j (s'.calls j) := by
  have own : ∀ {i ph}, s.calls i = ph → Stands s i ph := fun {i ph} hc => hc ▸ h i
  cases hmove with
  | tick => rcases hj with hj | hj <;> cases hj
  | arrive hc =>
      obtain rfl : _ = j := by simpa using hj
      exact stands_goto (stands_pool (own hc))
  | acquire hc _ =>
      obtain rfl : _ = j := by simpa using hj
      exact stands_goto ((own hc).mono fun p hw => hw.same rfl rfl)
  | begin hc _ =>
      obtain rfl : _ = j := by simpa using hj
      obtain ⟨found, hq, -⟩ := own hc
      exact stands_goto_tx hq
  | clock hc =>
      obtain rfl : _ = j := by simpa using hj
      obtain ⟨found, hq, -⟩ := own hc
      exact stands_goto (stands_pool (hq _))
  | note hc =>
      obtain rfl : _ = j := by simpa using hj
      obtain ⟨found, hq, -⟩ := own hc
      exact stands_goto (stands_pool hq)
  | auto hc he _ =>
      obtain rfl : _ = j := by simpa using hj
      obtain ⟨found, hq, -⟩ := own hc
      -- the statement may be the read of the lock
      exact stands_goto ⟨_, hq.2 _, fun p hp => window_read hok he hp rfl rfl rfl⟩
  | exec hc he _ =>
      obtain rfl : _ = j := by simpa using hj
      exact stands_goto_tx (own hc _)
  | lock hc _ =>
      obtain rfl : _ = j := by simpa using hj
      exact stands_goto_tx (own hc)
  | commit hc =>
      obtain rfl : _ = j := by simpa using hj
      exact stands_goto (stands_pool (own hc))
  | rollback hc =>
      obtain rfl : _ = j := by simpa using hj
      exact stands_goto (stands_pool (own hc true))
  | txClock hc =>
      obtain rfl : _ = j := by simpa using hj
      exact stands_goto_tx (own hc _)
  | txNote hc =>
      obtain rfl : _ = j := by simpa using hj
      exact stands_goto_tx (own hc)
  | failRollback hc _ =>
      obtain rfl : _ = j := by simpa using hj
      exact stands_goto (stands_pool (own hc false))
  | _ =>
      obtain rfl : _ = j := by simpa using hj
      exact stands_goto_done

/-- One move keeps what is known of every call. -/
theorem stands_step (hinv : ServerInv env poolSize faulty calls σ₀ s)
    (h : ∀ i, Stands s i (s.calls i)) (hstep : serve poolSize faulty calls l s = some s') (j : ι) :
    Stands s' j (s'.calls j) := by
  by_cases hj : l = .run j ∨ l = .fail j
  · exact stands_own hinv.inv.tables h (move_of_step hstep) hj
  · obtain ⟨hrun, hfail⟩ := not_or.mp hj
    rw [(move_of_step hstep).calls_other hrun hfail]
    exact (h j).mono fun p hw => hw.other hinv hstep hrun hfail

theorem stands_reachable (hdb : Consistent ⟨seq, db⟩)
    (h : Reachable (serve poolSize faulty calls) (server env text db seq now calls) s) (i : ι) :
    Stands s i (s.calls i) := by
  obtain ⟨ls, hrun⟩ := h
  have hinv := hrun.invariant
    (I := fun s => ServerInv env poolSize faulty calls ⟨seq, db⟩ s ∧ ∀ i, Stands s i (s.calls i))
    (fun l s s' hI hstep => ⟨sysInv_step hI.1 hstep, stands_step hI.1 hI.2 hstep⟩)
    ⟨serverInv_of_consistent hdb (.refl _), fun i => checked_code env text (calls i)⟩
  exact hinv.2 i

/-- **Comments and locks.** Whatever the calls do, the step that inserts a comment is
one of some call `i`, and at that moment the post is there and is unlocked if and
only if an even number of `toggle_lock` updates of it has been committed since `i`
read its lock. -/
theorem comment_unlocked_iff (hdb : Consistent ⟨seq, db⟩)
    (h : Reachable (serve poolSize faulty calls) (server env text db seq now calls) s)
    (hstep : serve poolSize faulty calls l s = some s') {c : CommentRow}
    (hc : c ∈ Db.comments s'.db) (hnew : c ∉ Db.comments s.db) :
    ∃ i, l = .run i ∧ ∃ x, Db.post s.db c.post = some x ∧
      (x.isLocked = false ↔ Even (togglesSince c.post i s.log)) := by
  have hinv := serverInv_of_consistent hdb h
  have hstands := stands_reachable hdb h
  cases move_of_step hstep with
  | @auto i st k r ws hcall he _ =>
      obtain ⟨rfl, x, hx, hid⟩ := (ran_auto hinv hcall he).comments hc hnew
      obtain ⟨a, text, rfl⟩ := stmt_of_insertComment he
      have hi := hstands i
      rw [hcall] at hi
      obtain ⟨found, hq, hwin⟩ := hi
      -- the `INSERT` runs in the window that the read has opened
      have hwindow : Window c.post i s := hwin _ (hq.1 _ _ _ rfl)
      have hfind : Db.post s.db c.post = some x := hid ▸ post_eq_some hinv.inv.tables hx
      refine ⟨i, rfl, x, hfind, ?_⟩
      rw [← Nat.not_odd_iff_even, ← hwindow.locked x hx hid, Bool.not_eq_true]
  | commit hcall =>
      obtain ⟨ws₀, rfl⟩ := ran_commit hinv hcall
      -- a transaction is one of the social part and inserts no comment
      have hsame : c ∈ Db.comments (engine.applyAll (ws₀.map socialPart.write) s.db) := hc
      rw [forum_applyAll] at hsame
      exact absurd hsame hnew
  | _ => exact absurd hc hnew

end Runs

/-! 1 comments on its post, which the administrator 2 locks. -/

def adminEnv : Env where
  isAdminUser u := u == 2
  toUppercase := id

def lockingCalls : Bool → Call
  | false => .createComment (some 1) 1 "hi"
  | true => .toggleLock (some 2) 1

def lockingStart : Server Bool := server adminEnv demoText demoDb 0 0 lockingCalls

def newComment : CommentRow := ⟨2, 1, 1, "hi", 0⟩

/-- What is seen of the `INSERT` and of the state before it: whether the comment is there
after it and before it, whether the post is locked, and how often it has been toggled since
the call has read that. -/
def inserted (ls : List (Label Bool)) : Option (Bool × Bool × Option Bool × Nat) :=
  (replay (serve 2 false lockingCalls) lockingStart ls).bind fun s =>
    (serve 2 false lockingCalls (.run false) s).map fun s' =>
      ((Db.comments s'.db).contains newComment, (Db.comments s.db).contains newComment,
        (Db.post s.db 1).map (·.isLocked), togglesSince newComment.post false s.log)

theorem inserted_eq_some {ls : List (Label Bool)} {locked : Option Bool} {toggles : Nat}
    (h : inserted ls = some (true, false, locked, toggles)) : ∃ s s',
      Reachable (serve 2 false lockingCalls) lockingStart s ∧
        serve 2 false lockingCalls (.run false) s = some s' ∧ newComment ∈ Db.comments s'.db ∧
          newComment ∉ Db.comments s.db ∧ (Db.post s.db 1).map (·.isLocked) = locked ∧
            togglesSince newComment.post false s.log = toggles := by
  obtain ⟨s, hs, hrest⟩ := Option.bind_eq_some_iff.mp h
  obtain ⟨s', hstep, hobs⟩ := Option.map_eq_some_iff.mp hrest
  obtain ⟨hin, hobs⟩ := Prod.mk.inj hobs
  obtain ⟨hout, hobs⟩ := Prod.mk.inj hobs
  obtain ⟨hlock, htoggles⟩ := Prod.mk.inj hobs
  refine ⟨s, s', reachable_of_replay hs, hstep, List.contains_iff_mem.mp hin, ?_, hlock, htoggles⟩
  intro hmem
  rw [List.contains_iff_mem.mpr hmem] at hout
  cases hout

/-- Nobody locks the post, and the comment comes to an unlocked one. -/
theorem comment_unlocked_iff_quiet : ∃ (s s' : Server Bool) (x : PostRow),
    serve 2 false lockingCalls (.run false) s = some s' ∧ newComment ∈ Db.comments s'.db ∧
      newComment ∉ Db.comments s.db ∧ Db.post s.db newComment.post = some x ∧
        x.isLocked = false := by
  have hrun : inserted (List.replicate 6 (.run false)) = some (true, false, some false, 0) := by
    decide
  obtain ⟨s, s', hs, hstep, hin, hout, -, htoggles⟩ := inserted_eq_some hrun
  obtain ⟨i, hi, x, hx, hunlocked⟩ := comment_unlocked_iff demoDb_consistent hs hstep hin hout
  obtain rfl : false = i := Label.run.inj hi
  refine ⟨s, s', x, hstep, hin, hout, hx, hunlocked.mpr ?_⟩
  rw [htoggles]
  exact ⟨0, rfl⟩

/-- The lock falls between the read and the `INSERT`. -/
theorem comment_on_locked_post : ¬ ∀ (s s' : Server Bool) (l : Label Bool) (c : CommentRow),
    Reachable (serve 2 false lockingCalls) lockingStart s →
      serve 2 false lockingCalls l s = some s' → c ∈ Db.comments s'.db → c ∉ Db.comments s.db →
        ∃ x, Db.post s.db c.post = some x ∧ x.isLocked = false := by
  intro hclaim
  have hrun : inserted (List.replicate 6 (.run false) ++ List.replicate 5 (.run true)) =
      some (true, false, some true, 1) := by
    decide
  obtain ⟨s, s', hs, hstep, hin, hout, hlock, -⟩ := inserted_eq_some hrun
  obtain ⟨x, hx, hunlocked⟩ := hclaim s s' _ newComment hs hstep hin hout
  rw [show Db.post s.db 1 = some x from hx, Option.map_some, hunlocked] at hlock
  cases hlock

end DevbitBackend.Forum
