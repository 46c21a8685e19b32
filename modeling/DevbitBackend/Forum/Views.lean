import DevbitBackend.Lib.TxnAnswers
import DevbitBackend.Forum.CommentLocks

/-!
# Forum.Views

`get_post` raises `view_count` in one statement and reads the post in the next one. What
is stored is the number of the requests that have raised it since the post was created
(`Counted`), in every run; and a request answers with the post as long as the `INT`
column has room for one more (`views_keep_post`). The column is read as `BIGINT`, but it
does not hold one.
-/

namespace DevbitBackend.Forum

open Txn Transition Social

/-! ### Views in the history -/

section Viewers

variable {ι : Type}

/-- The entry is the `INSERT` of the post `p`. -/
def creates (p : PostId) : Entry engine ι → Bool
  | .auto _ _ [.insertPost x] => x.id == p
  | _ => false

theorem of_creates {p : PostId} {i : ι} {at_ : Nat} {ws : List Write}
    (h : creates p (.auto i at_ ws : Entry engine ι) = true) :
    ∃ x, ws = [.insertPost x] ∧ x.id = p := by
  simp only [creates] at h
  split at h
  · rename_i heq
    cases heq
    exact ⟨_, rfl, beq_iff_eq.mp h⟩
  · cases h

/-- The entry is an `UPDATE` of the view count of `p`. -/
def views (p : PostId) : Entry engine ι → Bool
  | .auto _ _ ws => ws == [.viewPost p]
  | _ => false

/-- The requests whose `UPDATE` of the view count has run since the post `p` was created. -/
def viewers (p : PostId) (log : List (Entry engine ι)) : List ι :=
  log.foldl (fun is e => if creates p e then [] else if views p e then is ++ [e.call] else is) []

theorem viewers_concat (p : PostId) (log : List (Entry engine ι)) (e : Entry engine ι) :
    viewers p (log ++ [e]) =
      if creates p e then []
      else if views p e then viewers p log ++ [e.call] else viewers p log := by
  rw [viewers, List.foldl_append]
  rfl

theorem viewers_other {p : PostId} {log : List (Entry engine ι)} {e : Entry engine ι}
    (hc : creates p e = false) (hv : views p e = false) :
    viewers p (log ++ [e]) = viewers p log := by
  rw [viewers_concat, hc, hv]
  rfl

end Viewers

/-! ### Who counts views -/

/-- The statements are not an `UPDATE` of a view count. -/
abbrev Unviewing (q : Code) : Prop :=
  Prog.Issues (E := engine) (fun st : Stmt => ∀ p, st ≠ .viewPost p) q

section Unviewing

variable {env : Env} {identity : Option UserId}

theorem unviewing_getCurrentUser {u : UserId} {k : ForumUser → Code}
    (hk : ∀ user, Unviewing (k user)) : Unviewing (getCurrentUser env u k) := by
  refine ⟨nofun, fun row => ?_⟩
  cases row with
  | none => exact trivial
  | some row => exact hk _

theorem unviewing_requireUserId {k : UserId → Code} (hk : ∀ u, Unviewing (k u)) :
    Unviewing (requireUserId identity k) := by
  cases identity with
  | none => exact trivial
  | some u => exact hk u

theorem unviewing_caller {k : ForumUser → Code} (hk : ∀ user, Unviewing (k user)) :
    Unviewing (requireCurrentUser env identity k) :=
  unviewing_requireUserId fun _ => unviewing_getCurrentUser hk

theorem unviewing_author {user : ForumUser} {k : Code} (hk : Unviewing k)
    (author : Option UserId) : Unviewing (match author with
      | none => fail 404
      | some author => if author = user.id then k else fail 403) := by
  cases author with
  | none => exact trivial
  | some author => exact .ite hk trivial

theorem unviewing_postModerator {id : PostId} {user : ForumUser} {k : Code} (hk : Unviewing k) :
    Unviewing (requirePostModerator id user k) :=
  .ite hk ⟨nofun, unviewing_author hk⟩

theorem unviewing_commentModerator {id : CommentId} {user : ForumUser} {k : Code}
    (hk : Unviewing k) : Unviewing (requireCommentModerator id user k) :=
  .ite hk ⟨nofun, unviewing_author hk⟩

theorem unviewing_orBadRequest {β : Type} {checked : Option β} {k : β → Code}
    (hk : ∀ b, Unviewing (k b)) : Unviewing (orBadRequest checked k) := by
  cases checked with
  | none => exact trivial
  | some b => exact hk b

theorem unviewing_fetchPostById (id : PostId) (viewer : Option UserId) :
    Unviewing (fetchPostById env id viewer) := by
  refine ⟨nofun, fun row => ?_⟩
  cases row <;> exact trivial

theorem unviewing_affected {n : Nat} {k : Code} (hk : Unviewing k) : Unviewing (affected n k) :=
  .ite trivial hk

/-- Only `get_post` counts views: no other handler has the `UPDATE` in it. -/
theorem unviewing_code (env : Env) (text : UserSearch) {c : Call}
    (hc : ∀ v p, c ≠ .getPost v p) : Unviewing (c.code env text) := by
  cases c with
  | social c => exact (issues_embed _).mpr (issues_of_all (fun _ => nofun) _)
  | bootstrap v =>
      refine ⟨nofun, fun users => ⟨nofun, fun posts => ⟨nofun, fun comments => ?_⟩⟩⟩
      cases v with
      | none => exact trivial
      | some user => exact ⟨nofun, fun messages => trivial⟩
  | listUsers => exact ⟨nofun, fun users => trivial⟩
  | listPosts v c => exact ⟨nofun, fun posts => trivial⟩
  | searchPosts v q =>
      change Unviewing (searchPosts env text v q)
      unfold searchPosts
      cases searchTerm text.toLowercase q with
      | none => exact trivial
      | some term => exact ⟨nofun, fun posts => trivial⟩
  | getPost v p => exact absurd rfl (hc v p)
  | createPost v p =>
      refine unviewing_caller fun user => ?_
      -- what the checks answer does not matter
      generalize validateContent p.title maxPostTitleChars = title
      generalize validateContent p.content maxPostContentChars = content
      generalize checkCategory p.category = category
      generalize checkTags p.tags = tags
      refine unviewing_orBadRequest fun title => unviewing_orBadRequest fun content => ?_
      refine unviewing_orBadRequest fun category => unviewing_orBadRequest fun tags => ?_
      exact ⟨nofun, fun row => trivial⟩
  | myPosts v =>
      refine unviewing_requireUserId fun u => ?_
      exact ⟨nofun, fun posts => trivial⟩
  | modifyPost v id c =>
      refine unviewing_caller fun user => unviewing_postModerator ?_
      generalize validateContent c maxPostContentChars = checked
      exact unviewing_orBadRequest fun content => ⟨nofun, fun n => unviewing_affected trivial⟩
  | deletePost v id =>
      refine unviewing_caller fun user => unviewing_postModerator ?_
      exact ⟨nofun, fun n => unviewing_affected trivial⟩
  | togglePin v id =>
      refine unviewing_caller fun user => .ite ?_ trivial
      exact ⟨nofun, fun n => unviewing_affected (unviewing_fetchPostById _ _)⟩
  | toggleLock v id =>
      refine unviewing_caller fun user => .ite ?_ trivial
      exact ⟨nofun, fun n => unviewing_affected (unviewing_fetchPostById _ _)⟩
  | toggleLike v id =>
      refine unviewing_requireUserId fun u => unviewing_getCurrentUser fun user => ?_
      refine ⟨nofun, fun found => .ite trivial ⟨nofun, fun liked => .ite ?_ ?_⟩⟩
      · exact ⟨nofun, fun n => unviewing_fetchPostById _ _⟩
      · exact ⟨nofun, fun n => unviewing_fetchPostById _ _⟩
  | listComments id => exact ⟨nofun, fun comments => trivial⟩
  | createComment v id c =>
      refine unviewing_caller fun user => ?_
      generalize validateContent c maxCommentChars = checked
      refine unviewing_orBadRequest fun content => ⟨nofun, fun post => ?_⟩
      rcases post with _ | _ | _
      · exact trivial
      · exact ⟨nofun, fun row => trivial⟩
      · exact trivial
  | deleteComment v id =>
      refine unviewing_caller fun user => unviewing_commentModerator ?_
      exact ⟨nofun, fun n => unviewing_affected trivial⟩
  | listMessages v =>
      refine unviewing_caller fun user => ?_
      exact ⟨nofun, fun messages => trivial⟩
  | markMessageRead v id =>
      refine unviewing_caller fun user => ?_
      exact ⟨nofun, fun n => unviewing_affected trivial⟩
  | markConversationRead v p =>
      refine unviewing_caller fun user => ?_
      exact ⟨nofun, fun n => unviewing_affected trivial⟩
  | searchUsers v q =>
      refine unviewing_caller fun user => ?_
      cases searchTerm text.toLowercase q with
      | none => exact trivial
      | some term => exact ⟨nofun, fun users => trivial⟩
  | clearHistory v p =>
      cases v with
      | none => exact trivial
      | some v =>
          refine ⟨nofun, fun found => .ite trivial ?_⟩
          cases positiveId p "partnerId" with
          | error e => exact trivial
          | ok partner =>
              refine .ite trivial ⟨nofun, fun through => ⟨nofun, fun _ => trivial⟩⟩

end Unviewing

/-! ### What the writes do to a view count -/

section Writes

variable {env : Env} {db : Db} {ws : List Write} {st : Stmt} {r : st.Result} {now seq : Nat}
  {p : PostId} {x' : PostRow}

/-- A post as `create_post` inserts it. -/
structure PostRow.New (db : Db) (x : PostRow) : Prop where
  id_eq : x.id = db.postSeq + 1
  viewCount_eq : x.viewCount = 0
  author_exists : db.social.userExists x.author = true

/-- What a write tells of the statement that makes it. -/
def Write.MadeBy (db : Db) (st : Stmt) : Write → Prop
  | .viewPost p => st = .viewPost p
  | .deletePost p => st = .deletePost p
  | .insertPost x => x.New db
  | _ => True

theorem madeBy_of_eval (he : eval st now seq db = some (r, ws)) : ∀ w ∈ ws, w.MadeBy db st := by
  cases st with
  | social st =>
      obtain ⟨⟨r', ws₀⟩, -, hres⟩ := Option.map_eq_some_iff.mp he
      obtain rfl : ws₀.map Write.social = ws := congrArg Prod.snd hres
      intro w hw
      obtain ⟨w₀, -, rfl⟩ := List.mem_map.mp hw
      trivial
  | viewPost id =>
      simp only [eval] at he
      split at he
      · cases he
      · cases he
        simp [Write.MadeBy]
  | insertPost a title content category tags =>
      simp only [eval] at he
      split at he
      · rename_i hchecks
        cases he
        simpa [Write.MadeBy] using ⟨rfl, rfl, (Bool.and_eq_true_iff.mp hchecks).2⟩
      · cases he
  | upsertClear u p through =>
      simp only [eval] at he
      split at he
      · cases he
      split at he
      · cases he
        simp [Write.MadeBy]
      · split at he
        · cases he
          simp [Write.MadeBy]
        · cases he
  | insertLike id u =>
      simp only [eval] at he
      split at he
      · cases he
        simp
      · split at he
        · cases he
          simp [Write.MadeBy]
        · cases he
  | insertComment p a text =>
      simp only [eval] at he
      split at he
      · cases he
        simp [Write.MadeBy]
      · cases he
  | editPost id content =>
      simp only [eval] at he
      split at he
      · cases he
        simp [Write.MadeBy]
      · cases he
  | postList viewer category | likePosts viewer containsPattern
  | likeUsers containsPattern prefixPattern query =>
      simp only [eval] at he
      split at he <;> cases he
      simp
  | _ =>
      cases he
      simp [Write.MadeBy]

/-- The row of an `UPDATE` that keeps the id. -/
theorem mem_updatePost {id : PostId} {f : PostRow → PostRow}
    (hx' : x' ∈ (db.updatePost id f).posts) (hid : ∀ x, (f x).id = x.id) :
    ∃ x ∈ db.posts, x.id = x'.id ∧ x' = if x.id = id then f x else x := by
  obtain ⟨x, hx, rfl⟩ := List.mem_map.mp hx'
  refine ⟨x, hx, ?_, rfl⟩
  split
  · rw [hid]
  · rfl

/-- An `UPDATE` of other columns. -/
theorem viewCount_updatePost {id : PostId} {f : PostRow → PostRow}
    (hx' : x' ∈ (db.updatePost id f).posts) (hid : ∀ x, (f x).id = x.id)
    (hviews : ∀ x, (f x).viewCount = x.viewCount) :
    ∃ x ∈ db.posts, x.id = x'.id ∧ x'.viewCount = x.viewCount := by
  obtain ⟨x, hx, hsame, rfl⟩ := mem_updatePost hx' hid
  refine ⟨x, hx, hsame, ?_⟩
  split
  · exact hviews x
  · rfl

/-- A post is new, or it was there with one view less if this was one. -/
theorem Acts.viewCount {caller : Option UserId} (h : Acts env caller db ws)
    (hx' : x' ∈ Db.posts (engine.applyAll ws db)) :
    ws = [.insertPost x'] ∨ ∃ x ∈ db.posts, x.id = x'.id ∧
      x'.viewCount = x.viewCount + (ws == [.viewPost x'.id]).toNat := by
  have other : ∀ {ws' : List Write}, (∀ id, ws' ≠ [.viewPost id]) →
      (∃ x ∈ db.posts, x.id = x'.id ∧ x'.viewCount = x.viewCount) →
        ws' = [.insertPost x'] ∨ ∃ x ∈ db.posts, x.id = x'.id ∧
          x'.viewCount = x.viewCount + (ws' == [.viewPost x'.id]).toNat := by
    rintro ws' hne ⟨x, hx, hid, hviews⟩
    exact .inr ⟨x, hx, hid, by simpa [beq_eq_false_iff_ne.mpr (hne _)] using hviews⟩
  cases h with
  | @viewed id =>
      obtain ⟨x, hx, hsame, hx''⟩ := mem_updatePost hx' fun _ => rfl
      refine .inr ⟨x, hx, hsame, ?_⟩
      by_cases hid : x.id = id
      · rw [if_pos hid] at hx''
        have hview : ([.viewPost id] == [Write.viewPost x'.id]) = true := by
          rw [← hsame, hid, beq_self_eq_true]
        rw [hview, hx'']
        rfl
      · rw [if_neg hid] at hx''
        have hview : ([.viewPost id] == [Write.viewPost x'.id]) = false := by
          refine beq_eq_false_iff_ne.mpr ?_
          rintro ⟨⟩
          exact hid hsame
        rw [hview, hx'']
        exact (Int.add_zero _).symm
  | edited => exact other nofun (viewCount_updatePost hx' (fun _ => rfl) fun _ => rfl)
  | pinned => exact other nofun (viewCount_updatePost hx' (fun _ => rfl) fun _ => rfl)
  | locked => exact other nofun (viewCount_updatePost hx' (fun _ => rfl) fun _ => rfl)
  | posted =>
      rcases List.mem_append.mp hx' with hx' | hx'
      · exact other nofun ⟨x', hx', rfl, rfl⟩
      · exact .inl (by rw [List.mem_singleton.mp hx'])
  | deleted => exact other nofun ⟨x', List.mem_of_mem_filter hx', rfl, rfl⟩
  | _ => exact other nofun ⟨x', hx', rfl, rfl⟩

theorem Ran.viewCount (h : Ran env db ws) (hx' : x' ∈ Db.posts (engine.applyAll ws db)) :
    ws = [.insertPost x'] ∨ ∃ x ∈ db.posts, x.id = x'.id ∧
      x'.viewCount = x.viewCount + (ws == [.viewPost x'.id]).toNat := by
  rcases h with ⟨caller, h⟩ | ⟨ws₀, rfl⟩
  · exact h.viewCount hx'
  · rw [forum_applyAll] at hx'
    have hne : (ws₀.map socialPart.write == [.viewPost x'.id]) = false := by
      rcases ws₀ with _ | ⟨w, _ | ⟨w', ws₀⟩⟩ <;> simp [socialPart]
    exact .inr ⟨x', hx', rfl, by simp [hne]⟩

/-- A post goes only when it is deleted. -/
theorem Acts.still {caller : Option UserId} (h : Acts env caller db ws)
    (hws : ws ≠ [.deletePost p]) (hp : ∃ x ∈ db.posts, x.id = p) :
    ∃ x ∈ Db.posts (engine.applyAll ws db), x.id = p := by
  have updated : ∀ (id : PostId) {f : PostRow → PostRow}, (∀ x, (f x).id = x.id) →
      ∃ x ∈ (db.updatePost id f).posts, x.id = p := by
    intro id f hid
    obtain ⟨x, hx, rfl⟩ := hp
    refine ⟨_, List.mem_map_of_mem hx, ?_⟩
    split
    · exact hid x
    · rfl
  cases h with
  | viewed => exact updated _ fun _ => rfl
  | edited => exact updated _ fun _ => rfl
  | pinned => exact updated _ fun _ => rfl
  | locked => exact updated _ fun _ => rfl
  | posted => exact hp.imp fun x hx => ⟨List.mem_append_left _ hx.1, hx.2⟩
  | @deleted u id =>
      obtain ⟨x, hx, rfl⟩ := hp
      have hne : x.id ≠ id := fun hid => hws (by rw [hid])
      exact ⟨x, List.mem_filter.mpr ⟨hx, by simpa using hne⟩, rfl⟩
  | _ => exact hp

theorem Ran.still (h : Ran env db ws) (hws : ws ≠ [.deletePost p])
    (hp : ∃ x ∈ db.posts, x.id = p) : ∃ x ∈ Db.posts (engine.applyAll ws db), x.id = p := by
  rcases h with ⟨caller, h⟩ | ⟨ws₀, rfl⟩
  · exact h.still hws hp
  · rw [forum_applyAll]
    exact hp

end Writes

/-! ### Where a `get_post` stands -/

/-- What `fetch_post_by_id` answers. -/
def postAnswer (env : Env) : Option PostView → Answer
  | none => .failure 404
  | some row => .post (rowToPost env row)

theorem fetchPostById_eq (env : Env) (p : PostId) (v : Option UserId) :
    fetchPostById env p v =
      .query (.postView v p) fun (row : Option PostView) => .done (postAnswer env row) := by
  unfold fetchPostById
  congr
  funext row
  cases row <;> rfl

inductive Stage
  /-- It has not counted its view. -/
  | arriving
  /-- It has not read the post. -/
  | counted
  | answering (a : Answer)

inductive At (env : Env) (v : Option UserId) (p : PostId) : Stage → Phase engine Answer → Prop
  | idle : At env v p .arriving (.idle (getPost env v p))
  | pool : At env v p .arriving (.pool (getPost env v p))
  | viewing : At env v p .arriving (.conn (.viewPost p) fun _ => fetchPostById env p v)
  | viewed : At env v p .counted (.pool (fetchPostById env p v))
  | reading : At env v p .counted
      (.conn (.postView v p) fun (row : Option PostView) => .done (postAnswer env row))
  | read {a} : At env v p (.answering a) (.pool (.done a))
  | done {a} : At env v p (.answering a) (.done a)

section Stages

variable {ι : Type} [DecidableEq ι] {env : Env} {v : Option UserId} {p : PostId} {calls : ι → Call}
  {poolSize : Nat} {faulty : Bool} {s s' : Server ι} {l : Label ι} {i : ι} {stage : Stage}

/-- What a move of a `get_post` does. -/
inductive Went (env : Env) (v : Option UserId) (p : PostId) (s s' : Server ι) (i : ι) :
    Label ι → Stage → Stage → Prop
  | waits {l : Label ι} {stage : Stage} : s'.db = s.db → s'.log = s.log →
      Went env v p s s' i l stage stage
  | counts {k} : s.calls i = .conn (.viewPost p) k → (eval (.viewPost p) s.now s.seq s.db).isSome →
      Went env v p s s' i (.run i) .arriving .counted
  | full {k} : s.calls i = .conn (.viewPost p) k → eval (.viewPost p) s.now s.seq s.db = none →
      Went env v p s s' i (.run i) .arriving (.answering (.failure 500))
  | reads : Went env v p s s' i (.run i) .counted
      (.answering (postAnswer env (Db.postList s.db v (·.id == p)).head?))
  | fails {stage : Stage} : Went env v p s s' i (.fail i) stage (.answering (.failure 500))

theorem at_goto {s₁ : Server ι} {ph : Phase engine Answer} (h : At env v p stage ph) :
    At env v p stage ((s₁.goto i ph).calls i) := by
  have hcalls : (s₁.goto i ph).calls i = ph := by simp [Sys.goto]
  rw [hcalls]
  exact h

/-- **One move of a `get_post`** takes it to its next stage, and the tables change in one
of them only. -/
theorem At.run (h : At env v p stage (s.calls i)) (hcall : calls i = .getPost v p)
    (hstep : serve poolSize faulty calls (.run i) s = some s') :
    ∃ stage', At env v p stage' (s'.calls i) ∧ Went env v p s s' i (.run i) stage stage' := by
  have hfailed : (config poolSize faulty calls).failed i = .failure 500 := by
    simp [config, hcall, Call.failed]
  generalize hph : s.calls i = ph at h
  simp only [serve, step, runStep, hph] at hstep
  cases h with
  | idle =>
      obtain rfl := Option.some.inj hstep
      exact ⟨.arriving, at_goto .pool, .waits rfl rfl⟩
  | pool =>
      obtain ⟨-, hs'⟩ := Option.ite_none_right_eq_some.mp hstep
      obtain rfl := Option.some.inj hs'
      exact ⟨.arriving, at_goto .viewing, .waits rfl rfl⟩
  | viewing =>
      simp only [connStep] at hstep
      split at hstep
      -- no room in the column: the `UPDATE` fails and the request with it
      · rename_i heval
        obtain rfl := Option.some.inj hstep
        rw [hfailed]
        exact ⟨_, at_goto .done, .full hph heval⟩
      · rename_i r ws heval
        obtain ⟨-, hs'⟩ := Option.ite_none_right_eq_some.mp hstep
        obtain rfl := Option.some.inj hs'
        exact ⟨.counted, at_goto .viewed, .counts hph (Option.isSome_iff_exists.mpr ⟨_, heval⟩)⟩
  | viewed =>
      rw [fetchPostById_eq] at hstep
      obtain ⟨-, hs'⟩ := Option.ite_none_right_eq_some.mp hstep
      obtain rfl := Option.some.inj hs'
      exact ⟨.counted, at_goto .reading, .waits rfl rfl⟩
  | reading =>
      simp only [connStep, eval] at hstep
      obtain ⟨-, hs'⟩ := Option.ite_none_right_eq_some.mp hstep
      obtain rfl := Option.some.inj hs'
      exact ⟨_, at_goto .read, .reads⟩
  | read =>
      obtain rfl := Option.some.inj hstep
      exact ⟨_, at_goto .done, .waits rfl rfl⟩
  | done => cases hstep

/-- A failing database call takes it to its answer, and the tables stay as they are. -/
theorem At.fail (h : At env v p stage (s.calls i)) (hcall : calls i = .getPost v p)
    (hstep : serve poolSize faulty calls (.fail i) s = some s') :
    ∃ stage', At env v p stage' (s'.calls i) ∧ Went env v p s s' i (.fail i) stage stage' := by
  have hfailed : (config poolSize faulty calls).failed i = .failure 500 := by
    simp [config, hcall, Call.failed]
  obtain ⟨-, hstep⟩ := Option.ite_none_right_eq_some.mp hstep
  refine ⟨_, ?_, .fails⟩
  generalize hph : s.calls i = ph at h
  simp only [failStep, hph] at hstep
  cases h with
  | pool | viewed | viewing | reading =>
      obtain rfl := Option.some.inj hstep
      rw [hfailed]
      exact at_goto .done
  | _ => cases hstep

end Stages

/-! ### What is stored -/

/-- The author of every post is there: the foreign key of `forum_posts`. -/
def Authored (db : Db) : Prop := ∀ x ∈ db.posts, db.social.userExists x.author = true

/-- The view count of the post in these tables. -/
def storedViews (db : Db) (p : PostId) : Int := ((db.post p).map (·.viewCount)).getD 0

/-- A post that has not been created has no views. -/
theorem storedViews_new {db : Db} (hok : TablesOk db) {p : PostId} (hp : db.postSeq < p) :
    storedViews db p = 0 := by
  have hnone : db.post p = none := by
    refine List.find?_eq_none.mpr fun x hx hid => ?_
    have hle : x.id ≤ db.postSeq := hok.posts.drawn x hx
    rw [beq_iff_eq.mp hid] at hle
    exact absurd hp (Int.not_lt.mpr hle)
  rw [storedViews, hnone]
  rfl

section Counted

variable {ι : Type} {env : Env} {text : UserSearch} {db : Db} {seq now : Nat} {calls : ι → Call}
  {s : Server ι} {p : PostId} {i : ι}

/-- **The views that are stored** are those of the requests in the history. `db₀` are the
tables at the start. -/
structure Counted (env : Env) (calls : ι → Call) (db₀ : Db) (s : Server ι) : Prop where
  drawn : db₀.postSeq ≤ Db.postSeq s.db
  authors : Authored s.db
  count : ∀ x ∈ Db.posts s.db,
    x.viewCount = storedViews db₀ x.id + (viewers x.id s.log).length
  nodup : ∀ p, (viewers p s.log).Nodup
  requests : ∀ p, ∀ i ∈ viewers p s.log, ∃ v, calls i = .getPost v p
  stages : ∀ i v p, calls i = .getPost v p →
    ∃ stage, At env v p stage (s.calls i) ∧ (stage = .arriving → i ∉ viewers p s.log)
  others : ∀ i, (∀ v p, calls i ≠ .getPost v p) →
    Phase.Issues (E := engine) (fun st : Stmt => ∀ p, st ≠ .viewPost p) (s.calls i)

theorem counted_start (hdb : Consistent ⟨seq, db⟩) (hauthors : Authored db) :
    Counted env calls db (server env text db seq now calls) where
  drawn := le_rfl
  authors := hauthors
  count x hx := by
    have hpost : Db.post db x.id = some x := post_eq_some hdb.tables hx
    simp [storedViews, hpost, viewers, server, Sys.start]
  nodup p := List.nodup_nil
  requests p i hi := absurd hi List.not_mem_nil
  stages i v p hcall := by
    refine ⟨.arriving, ?_, fun _ => List.not_mem_nil⟩
    simp only [server, Sys.start, hcall]
    exact .idle
  others i hi := unviewing_code env text hi

/-- A view is counted by a `get_post` that has not counted yet. -/
theorem Counted.fresh (h : Counted env calls db s) {st : Stmt} {k : st.Result → Code}
    {r : st.Result} (hc : s.calls i = .conn st k)
    (he : eval st s.now s.seq s.db = some (r, [.viewPost p])) :
    (∃ v, calls i = .getPost v p) ∧ i ∉ viewers p s.log := by
  obtain rfl : st = .viewPost p := madeBy_of_eval he _ List.mem_cons_self
  by_cases hcall : ∃ v q, calls i = .getPost v q
  · obtain ⟨v, q, hcall⟩ := hcall
    obtain ⟨stage, hat, hnot⟩ := h.stages i v q hcall
    rw [hc] at hat
    cases hat
    exact ⟨⟨v, hcall⟩, hnot rfl⟩
  · have hissues := h.others i fun v q hq => hcall ⟨v, q, hq⟩
    rw [hc] at hissues
    exact absurd rfl (hissues.1 p)

/-- Who is new among the viewers has just run the `UPDATE`. -/
theorem mem_viewers_auto {ws : List Write} {j : ι} {at_ : Nat}
    (hj : j ∈ viewers p (s.log ++ [.auto i at_ ws])) :
    j ∈ viewers p s.log ∨ j = i ∧ ws = [.viewPost p] := by
  rw [viewers_concat] at hj
  split at hj
  · cases hj
  split at hj
  · rename_i hview
    rcases List.mem_append.mp hj with hj | hj
    · exact .inl hj
    · exact .inr ⟨List.mem_singleton.mp hj, beq_iff_eq.mp hview⟩
  · exact .inl hj

end Counted

/-! ### Every run counts -/

section Runs

variable {ι : Type} [DecidableEq ι] {env : Env} {text : UserSearch} {db : Db} {σ₀ : State}
  {seq now poolSize : Nat} {faulty : Bool} {calls : ι → Call} {s s' : Server ι} {l : Label ι}
  {p : PostId} {i : ι}

/-- A move runs a statement on the pool, or does nothing to the posts and their views. -/
theorem auto_or_quiet (hinv : ServerInv env poolSize faulty calls σ₀ s)
    (hstep : serve poolSize faulty calls l s = some s') :
    (∃ i st k r ws, l = .run i ∧ s.calls i = .conn st k ∧
      eval st s.now s.seq s.db = some (r, ws) ∧ s'.db = engine.applyAll ws s.db ∧
        s'.log = s.log ++ [.auto i s.now ws]) ∨
    (Db.posts s'.db = Db.posts s.db ∧ ∀ p, viewers p s'.log = viewers p s.log) := by
  cases move_of_step hstep with
  | auto hc he _ => exact .inl ⟨_, _, _, _, _, rfl, hc, he, rfl, rfl⟩
  | @commit i start buf notes k hc =>
      obtain ⟨ws₀, rfl⟩ := ran_commit hinv hc
      refine .inr ⟨?_, fun p => viewers_other rfl rfl⟩
      change Db.posts (engine.applyAll (ws₀.map socialPart.write) s.db) = Db.posts s.db
      rw [forum_applyAll]
  | note _ => exact .inr ⟨rfl, fun p => viewers_other rfl rfl⟩
  | rejected _ _ => exact .inr ⟨rfl, fun p => viewers_other rfl rfl⟩
  | rollback _ => exact .inr ⟨rfl, fun p => viewers_other rfl rfl⟩
  | leave _ => exact .inr ⟨rfl, fun p => viewers_other rfl rfl⟩
  | failTx _ _ => exact .inr ⟨rfl, fun p => viewers_other rfl rfl⟩
  | failRollback _ _ => exact .inr ⟨rfl, fun p => viewers_other rfl rfl⟩
  | _ => exact .inr ⟨rfl, fun p => rfl⟩

/-- Posts are counted whatever the statement is. -/
theorem Counted.auto (h : Counted env calls db s) (hok₀ : TablesOk db)
    (hinv : ServerInv env poolSize faulty calls σ₀ s) {st : Stmt} {k : st.Result → Code}
    {r : st.Result} {ws : List Write} (hc : s.calls i = .conn st k)
    (he : eval st s.now s.seq s.db = some (r, ws)) (hdb : s'.db = engine.applyAll ws s.db)
    (hlog : s'.log = s.log ++ [.auto i s.now ws]) :
    ∀ x ∈ Db.posts s'.db, x.viewCount = storedViews db x.id + (viewers x.id s'.log).length := by
  intro x' hx'
  rw [hdb] at hx'
  rw [hlog, viewers_concat]
  rcases (ran_auto hinv hc he).viewCount hx' with rfl | ⟨x, hx, hid, hviews⟩
  -- the post is new: it has no views, and no request has viewed it
  · obtain ⟨hnew, hzero, -⟩ := madeBy_of_eval he _ List.mem_cons_self
    have hcreates : creates x'.id (.auto i s.now [.insertPost x'] : Entry engine ι) = true :=
      beq_self_eq_true _
    have hlast : db.postSeq < x'.id := hnew ▸ Int.lt_add_one_of_le h.drawn
    rw [if_pos hcreates, hzero, storedViews_new hok₀ hlast]
    rfl
  · have hcreates : creates x'.id (.auto i s.now ws : Entry engine ι) = false := by
      refine Bool.eq_false_iff.mpr fun hcon => ?_
      obtain ⟨y, rfl, hy⟩ := of_creates hcon
      have hnew : x'.id = Db.postSeq s.db + 1 :=
        hy ▸ (madeBy_of_eval he _ List.mem_cons_self : y.New s.db).id_eq
      have hdrawn : x.id ≤ Db.postSeq s.db := hinv.inv.tables.posts.drawn x hx
      rw [hid, hnew] at hdrawn
      exact absurd hdrawn (Int.not_le.mpr (Int.lt_succ _))
    -- an old post: its column grows exactly with the entry of its view
    have hviewed : views x'.id (.auto i s.now ws : Entry engine ι) =
        (ws == [.viewPost x'.id]) := rfl
    have hbefore := h.count x hx
    rw [hid] at hbefore
    rw [hcreates, hviewed, hviews, hbefore]
    cases ws == [.viewPost x'.id] with
    | false => simp
    | true => simp [Int.add_assoc]

/-- The foreign key of the authors is kept. -/
theorem authored_step (hinv : ServerInv env poolSize faulty calls σ₀ s) (h : Authored s.db)
    (hstep : serve poolSize faulty calls l s = some s') : Authored s'.db := by
  have hbase := hinv.base hstep
  have husers : ∀ u, Db.userExists (Db.social s'.db) u = Db.userExists (Db.social s.db) u :=
    hbase.1.2.userExists
  intro x' hx'
  rw [husers]
  by_cases hold : x'.id ≤ Db.postSeq s.db
  · obtain ⟨x, hx, -, hauthor⟩ := hbase.2.posts.owners x' hx' hold
    have hsame : x.author = x'.author := hauthor
    rw [← hsame]
    exact h x hx
  · have hgone : ∀ x ∈ Db.posts s.db, x.id ≠ x'.id :=
      fun x hx hid => hold (hid ▸ hinv.inv.tables.posts.drawn x hx)
    rcases auto_or_quiet hinv hstep with ⟨i, st, k, r, ws, -, hc, he, hdb, -⟩ | ⟨hposts, -⟩
    · rw [hdb] at hx'
      rcases (ran_auto hinv hc he).viewCount hx' with rfl | ⟨x, hx, hid, -⟩
      · exact (madeBy_of_eval he _ List.mem_cons_self : x'.New s.db).author_exists
      · exact absurd hid (hgone x hx)
    · exact absurd rfl (hgone x' (hposts ▸ hx'))

/-- A `get_post` that has not counted is not among the viewers. -/
theorem Counted.stages_step (h : Counted env calls db s)
    (hinv : ServerInv env poolSize faulty calls σ₀ s)
    (hstep : serve poolSize faulty calls l s = some s') {v : Option UserId}
    (hcall : calls i = .getPost v p) :
    ∃ stage, At env v p stage (s'.calls i) ∧ (stage = .arriving → i ∉ viewers p s'.log) := by
  obtain ⟨stage, hat, hnot⟩ := h.stages i v p hcall
  have own : ∀ {l stage'}, At env v p stage' (s'.calls i) → Went env v p s s' i l stage stage' →
      ∃ stage, At env v p stage (s'.calls i) ∧ (stage = .arriving → i ∉ viewers p s'.log) := by
    intro l stage' hat' hwent
    refine ⟨stage', hat', ?_⟩
    rintro rfl
    cases hwent with
    | waits _ hlog =>
        rw [hlog]
        exact hnot rfl
  by_cases hrun : l = .run i
  · subst hrun
    obtain ⟨stage', hat', hwent⟩ := hat.run hcall hstep
    exact own hat' hwent
  by_cases hfail : l = .fail i
  · subst hfail
    obtain ⟨stage', hat', hwent⟩ := hat.fail hcall hstep
    exact own hat' hwent
  -- another request moved, which may add itself to the viewers only
  rw [(move_of_step hstep).calls_other hrun hfail]
  refine ⟨stage, hat, fun harriving hmem => hnot harriving ?_⟩
  rcases auto_or_quiet hinv hstep with ⟨j, st, k, r, ws, rfl, -, -, -, hlog⟩ | ⟨-, hsame⟩
  · rw [hlog] at hmem
    rcases mem_viewers_auto hmem with hmem | ⟨rfl, -⟩
    · exact hmem
    · exact absurd rfl hrun
  · rw [← hsame]
    exact hmem

/-- One move keeps the count: every post has as many views as requests that have viewed
it. -/
theorem Counted.step (h : Counted env calls db s) (hok₀ : TablesOk db)
    (hinv : ServerInv env poolSize faulty calls σ₀ s)
    (hstep : serve poolSize faulty calls l s = some s') : Counted env calls db s' := by
  have hdrawn : db.postSeq ≤ Db.postSeq s'.db := h.drawn.trans (hinv.base hstep).2.posts.advanced
  refine ⟨hdrawn, authored_step hinv h.authors hstep, ?_, ?_, ?_,
    fun i v p hcall => h.stages_step hinv hstep hcall,
    fun i hi => (move_of_step hstep).issues (h.others i hi)⟩
  · rcases auto_or_quiet hinv hstep with ⟨i, st, k, r, ws, -, hc, he, hdb, hlog⟩ | ⟨hposts, hsame⟩
    · exact h.auto hok₀ hinv hc he hdb hlog
    · intro x hx
      rw [hposts] at hx
      rw [hsame]
      exact h.count x hx
  · intro p
    rcases auto_or_quiet hinv hstep with ⟨i, st, k, r, ws, -, hc, he, -, hlog⟩ | ⟨-, hsame⟩
    · rw [hlog, viewers_concat]
      split
      · exact List.nodup_nil
      split
      · rename_i hview
        obtain rfl := beq_iff_eq.mp hview
        rw [← List.concat_eq_append]
        -- the request has not viewed the post yet, so it is added once
        exact (h.nodup p).concat (h.fresh hc he).2
      · exact h.nodup p
    · rw [hsame]
      exact h.nodup p
  · intro p j hj
    rcases auto_or_quiet hinv hstep with ⟨i, st, k, r, ws, -, hc, he, -, hlog⟩ | ⟨-, hsame⟩
    · rw [hlog] at hj
      rcases mem_viewers_auto hj with hj | ⟨rfl, rfl⟩
      · exact h.requests p j hj
      · exact (h.fresh hc he).1
    · rw [hsame] at hj
      exact h.requests p j hj

/-- **Every view is counted**, in every run. -/
theorem counted_reachable (hdb : Consistent ⟨seq, db⟩) (hauthors : Authored db)
    (h : Reachable (serve poolSize faulty calls) (server env text db seq now calls) s) :
    Counted env calls db s := by
  obtain ⟨ls, hrun⟩ := h
  have hboth := hrun.invariant
    (I := fun s => ServerInv env poolSize faulty calls ⟨seq, db⟩ s ∧ Counted env calls db s)
    (fun l s s' hI hstep => ⟨sysInv_step hI.1 hstep, hI.2.step hdb.tables hI.1 hstep⟩)
    ⟨serverInv_of_consistent hdb (.refl _), counted_start hdb hauthors⟩
  exact hboth.2

/-! ### Room for one more -/

/-- The step does not delete the post, and is no failing database call of a `get_post` of
it. -/
def spares (p : PostId) (calls : ι → Call) (l : Label ι) (s : Server ι) : Bool :=
  match l with
  | .run i =>
      match s.calls i with
      | .conn (.deletePost q) _ => q != p
      | _ => true
  | .fail i =>
      match calls i with
      | .getPost _ q => q != p
      | _ => true
  | .tick _ => true

/-- The step does not count a view of the post when its column is full. -/
def hasRoom (p : PostId) (l : Label ι) (s : Server ι) : Bool :=
  match l with
  | .run i =>
      match s.calls i with
      | .conn (.viewPost q) _ => q != p || (Db.post s.db p).all fun x => x.viewCount < int32Max
      | _ => true
  | _ => true

/-- The request has not read the post yet. -/
def Reads : Phase engine Answer → Prop
  | .pool (.done _) | .done _ => False
  | _ => True

/-- Where the request stands when nothing has gone wrong: it answers with the post, as a
row that has `stood` in the table. -/
def Served (env : Env) (v : Option UserId) (p : PostId) (stood : PostRow → Prop)
    (ph : Phase engine Answer) : Prop :=
  ∃ stage, At env v p stage ph ∧ ∀ a, stage = .answering a →
    ∃ row : PostView, row.post.id = p ∧ stood row.post ∧ a = .post (rowToPost env row)

/-- The query of `fetch_post_by_id` finds a post that is there. -/
theorem postAnswer_of_post (env : Env) {db : Db} (hauthors : Authored db)
    (hp : ∃ x ∈ db.posts, x.id = p) (v : Option UserId) :
    ∃ row : PostView, row.post.id = p ∧ row.post ∈ db.posts ∧
      postAnswer env (db.postList v (·.id == p)).head? = .post (rowToPost env row) := by
  obtain ⟨x, hx, hid⟩ := hp
  obtain ⟨u, hu, hauthor⟩ := List.any_eq_true.mp (hauthors x hx)
  have hfound : db.postList v (·.id == p) ≠ [] := by
    intro hnil
    have hnone := (List.mergeSort_perm _ _).symm.trans (.of_eq hnil)
    have hempty := List.flatMap_eq_nil_iff.mp (List.perm_nil.mp hnone) x
      (List.mem_filter.mpr ⟨hx, by simpa using hid⟩)
    have husers := List.map_eq_nil_iff.mp hempty
    exact List.filter_eq_nil_iff.mp husers u hu hauthor
  obtain ⟨row, rest, hlist⟩ := List.exists_cons_of_ne_nil hfound
  have hmem : row ∈ db.postList v (·.id == p) := hlist ▸ List.mem_cons_self
  obtain ⟨y, hy, hrow⟩ := List.mem_flatMap.mp (List.mem_mergeSort.mp hmem)
  obtain ⟨hy, hyid⟩ := List.mem_filter.mp hy
  obtain ⟨u', -, hview⟩ := List.mem_map.mp hrow
  have hpost : row.post = y := by rw [← hview]
  refine ⟨row, ?_, hpost ▸ hy, ?_⟩
  · rw [hpost]
    exact beq_iff_eq.mp hyid
  · rw [hlist]
    rfl

/-- The view is counted when there is room. -/
theorem eval_viewPost_ne_none {db : Db} (hok : TablesOk db)
    (hroom : ((db.post p).all fun x => x.viewCount < int32Max) = true) :
    eval (.viewPost p) now seq db ≠ none := by
  have hnone : (db.posts.any fun x => x.id == p && int32Max ≤ x.viewCount) = false := by
    refine List.any_eq_false.mpr fun x hx hfull => ?_
    obtain ⟨hid, hfull⟩ := Bool.and_eq_true_iff.mp hfull
    have hpost : db.post p = some x := beq_iff_eq.mp hid ▸ post_eq_some hok hx
    rw [hpost] at hroom
    exact absurd (of_decide_eq_true hroom) (Int.not_lt.mpr (of_decide_eq_true hfull))
  simp [eval, hnone]

/-- A post is still there after a step that spares it. -/
theorem still_step (hinv : ServerInv env poolSize faulty calls σ₀ s)
    (hp : ∃ x ∈ Db.posts s.db, x.id = p) (hspares : spares p calls l s = true)
    (hstep : serve poolSize faulty calls l s = some s') : ∃ x ∈ Db.posts s'.db, x.id = p := by
  rcases auto_or_quiet hinv hstep with ⟨i, st, k, r, ws, rfl, hc, he, hdb, -⟩ | ⟨hposts, -⟩
  · rw [hdb]
    refine (ran_auto hinv hc he).still ?_ hp
    rintro rfl
    obtain rfl : st = .deletePost p := madeBy_of_eval he _ List.mem_cons_self
    simp only [spares, hc] at hspares
    simp at hspares
  · rw [hposts]
    exact hp

/-- **One move of a `get_post`** whose view has room. -/
theorem Served.step {v : Option UserId} {stood : PostRow → Prop}
    (h : Served env v p stood (s.calls i)) (hcall : calls i = .getPost v p)
    (hauthors : Authored s.db) (hp : ∃ x ∈ Db.posts s.db, x.id = p)
    (hstood : ∀ x ∈ Db.posts s.db, stood x) (hok : TablesOk s.db)
    (hspares : spares p calls l s = true) (hroom : hasRoom p l s = true)
    (hstep : serve poolSize faulty calls l s = some s') :
    Served env v p stood (s'.calls i) := by
  obtain ⟨stage, hat, hanswer⟩ := h
  by_cases hrun : l = .run i
  · subst hrun
    obtain ⟨stage', hat', hwent⟩ := hat.run hcall hstep
    refine ⟨stage', hat', ?_⟩
    cases hwent with
    | waits _ _ => exact hanswer
    | counts _ _ =>
        intro a ha
        cases ha
    | @full k hc heval =>
        -- the column has room, so the `UPDATE` cannot have failed
        have hspace : ((Db.post s.db p).all fun x => x.viewCount < int32Max) = true := by
          simpa [hasRoom, hc] using hroom
        exact absurd heval (eval_viewPost_ne_none hok hspace)
    | reads =>
        rintro a ⟨⟩
        obtain ⟨row, hid, hmem, hrow⟩ := postAnswer_of_post env hauthors hp v
        exact ⟨row, hid, hstood _ hmem, hrow⟩
  by_cases hfail : l = .fail i
  · subst hfail
    simp [spares, hcall] at hspares
  rw [(move_of_step hstep).calls_other hrun hfail]
  exact ⟨stage, hat, hanswer⟩

/-- A request that has not answered can move, unless it waits for a connection. -/
theorem At.moves {v : Option UserId} {stage : Stage} (h : At env v p stage (s.calls i)) :
    (∃ a, s.calls i = .done a) ∨ poolSize ≤ s.inUse ∨
      (serve poolSize faulty calls (.run i) s).isSome := by
  -- neither of its statements locks a row
  have hfree : Locks.Free s.lockOf i [] := fun l hl => absurd hl List.not_mem_nil
  generalize hph : s.calls i = ph at h
  by_cases hpool : s.inUse < poolSize
  · refine or_iff_not_imp_left.mpr fun hdone => .inr ?_
    simp only [serve, step, runStep, hph]
    cases h with
    | idle => rfl
    | pool => simp [getPost, poolStep, config, hpool]
    | viewing =>
        simp only [connStep]
        split
        · rfl
        · exact congrArg Option.isSome (if_pos hfree)
    | viewed =>
        rw [fetchPostById_eq]
        simp [poolStep, config, hpool]
    | reading =>
        simp only [connStep, eval]
        exact congrArg Option.isSome (if_pos hfree)
    | read => rfl
    | @done a => exact absurd ⟨a, rfl⟩ hdone
  · exact .inr (.inl (Nat.not_lt.mp hpool))

/-- The requests are served along a run with room. -/
theorem served_run (hdb : Consistent ⟨seq, db⟩) (hauthors : Authored db) {s₁ s₂ : Server ι}
    (h₁ : Reachable (serve poolSize faulty calls) (server env text db seq now calls) s₁)
    (hp : ∃ x ∈ Db.posts s₁.db, x.id = p)
    (h₂ : ReachableBy (fun l s => spares p calls l s = true ∧ hasRoom p l s = true)
      (serve poolSize faulty calls) s₁ s₂) :
    Reachable (serve poolSize faulty calls) s₁ s₂ ∧ (∃ x ∈ Db.posts s₂.db, x.id = p) ∧
      ∀ i v, calls i = .getPost v p → Reads (s₁.calls i) →
        Served env v p (fun x => ∃ t, Reachable (serve poolSize faulty calls) s₁ t ∧
          x ∈ Db.posts t.db) (s₂.calls i) := by
  induction h₂ with
  | refl =>
      refine ⟨.refl _, hp, fun i v hcall hreads => ?_⟩
      obtain ⟨stage, hat, -⟩ := (counted_reachable hdb hauthors h₁).stages i v p hcall
      refine ⟨stage, hat, ?_⟩
      rintro a rfl
      generalize s₁.calls i = ph at hat hreads
      cases hat <;> exact hreads.elim
  | tail _ hsteps hstep ih =>
      obtain ⟨hreach, hstill, hserved⟩ := ih
      have hinv := serverInv_of_consistent hdb (h₁.trans hreach)
      have hcounted := counted_reachable hdb hauthors (h₁.trans hreach)
      refine ⟨hreach.tail hstep, still_step hinv hstill hsteps.1 hstep, ?_⟩
      intro i v hcall hreads
      exact (hserved i v hcall hreads).step hcall hcounted.authors hstill
        (fun x hx => ⟨_, hreach, hx⟩) hinv.inv.tables hsteps.1 hsteps.2 hstep

/-- **Views.** After the post `p` has been created, in every run that spares it and in
which no view is counted on a full column, the post is there, with the number of the
requests that have counted since it was created; and a request that has not read the
post at the start answers with it. -/
theorem views_keep_post (hdb : Consistent ⟨seq, db⟩) (hauthors : Authored db) {s₁ s₂ : Server ι}
    (h₁ : Reachable (serve poolSize faulty calls) (server env text db seq now calls) s₁)
    (hp : ∃ x ∈ Db.posts s₁.db, x.id = p)
    (h₂ : ReachableBy (fun l s => spares p calls l s = true ∧ hasRoom p l s = true)
      (serve poolSize faulty calls) s₁ s₂) :
    (∃ x, Db.post s₂.db p = some x ∧
      x.viewCount = storedViews db p + (viewers p s₂.log).length) ∧
    ((viewers p s₂.log).Nodup ∧ ∀ i ∈ viewers p s₂.log, ∃ v, calls i = .getPost v p) ∧
    ∀ i v, calls i = .getPost v p → Reads (s₁.calls i) →
      (∀ a, s₂.calls i = .done a → ∃ (row : PostView) (t : Server ι),
        Reachable (serve poolSize faulty calls) s₁ t ∧ row.post ∈ Db.posts t.db ∧
          row.post.id = p ∧ a = .post (rowToPost env row)) ∧
      ((∃ a, s₂.calls i = .done a) ∨ poolSize ≤ s₂.inUse ∨
        (serve poolSize faulty calls (.run i) s₂).isSome) := by
  obtain ⟨hreach, ⟨x, hx, hid⟩, hserved⟩ := served_run hdb hauthors h₁ hp h₂
  have hinv := serverInv_of_consistent hdb (h₁.trans hreach)
  have hcounted := counted_reachable hdb hauthors (h₁.trans hreach)
  refine ⟨⟨x, hid ▸ post_eq_some hinv.inv.tables hx, hid ▸ hcounted.count x hx⟩,
    ⟨hcounted.nodup p, hcounted.requests p⟩, fun i v hcall hreads => ?_⟩
  obtain ⟨stage, hat, hanswer⟩ := hserved i v hcall hreads
  refine ⟨fun a hdone => ?_, hat.moves⟩
  rw [hdone] at hat
  cases hat
  obtain ⟨row, hrow, ⟨t, ht, hstood⟩, hpost⟩ := hanswer a rfl
  exact ⟨row, t, ht, hstood, hrow, hpost⟩

end Runs

/-! Two requests view the post of 1, one after the other. -/

def viewing : Bool → Call
  | false => .getPost none 1
  | true => .getPost (some 2) 1

def viewedTwice : List (Label Bool) := List.replicate 6 (.run false) ++ List.replicate 6 (.run true)

theorem demoDb_authored : Authored demoDb := List.all_eq_true.mp (by decide)

theorem views_keep_post_twice : ∃ s₂ : Server Bool, viewers 1 s₂.log = [false, true] ∧
    (∃ x, Db.post s₂.db 1 = some x ∧ x.viewCount = 2) ∧
      ∃ row : PostView, row.post.id = 1 ∧
        s₂.calls false = .done (.post (rowToPost demoEnv row)) := by
  have hrun : (replay (fun l s => if spares 1 viewing l s && hasRoom 1 l s then
      serve 1 false viewing l s else none) (server demoEnv demoText demoDb 0 0 viewing)
        viewedTwice).map (fun s =>
          (viewers 1 s.log, (s.calls false).isDone)) = some ([false, true], true) := by
    decide +kernel
  obtain ⟨s₂, hs₂, hobs⟩ := Option.map_eq_some_iff.mp hrun
  obtain ⟨hviewers, hdone⟩ := Prod.mk.inj hobs
  have hreached := ReachableBy.of_replay (fun _ _ h => Bool.and_eq_true_iff.mp h) hs₂ .refl
  obtain ⟨⟨x, hx, hcount⟩, -, hserved⟩ := views_keep_post (p := 1) demoDb_consistent
    demoDb_authored (.refl _) ⟨_, List.mem_cons_self, rfl⟩ hreached
  refine ⟨s₂, hviewers, ⟨x, hx, by rw [hcount, hviewers]; rfl⟩, ?_⟩
  obtain ⟨a, ha⟩ := Phase.isDone_iff.mp hdone
  obtain ⟨row, t, -, -, hid, rfl⟩ := (hserved false none rfl trivial).1 a ha
  exact ⟨row, hid, ha⟩

/-! A post that is viewed `2 ^ 31` times, and has been new at the start. -/

section Full

variable {env : Env} {v : Option UserId} {p : PostId} {poolSize : Nat} (faulty : Bool)
  (calls : Nat → Call) {s : Server Nat} {i : Nat}

/-- The request stands before its `UPDATE`. -/
def atUpdate (env : Env) (v : Option UserId) (p : PostId) (i : Nat) (s : Server Nat) :
    Server Nat :=
  (s.goto i (.pool (getPost env v p))).borrow.goto i
    (.conn (.viewPost p) fun _ => fetchPostById env p v)

theorem calls_atUpdate : (atUpdate env v p i s).calls i =
    .conn (.viewPost p) fun _ => fetchPostById env p v := by
  simp [atUpdate, Sys.goto]

theorem reach_atUpdate (hi : s.calls i = .idle (getPost env v p)) (hpool : s.inUse < poolSize) :
    Reachable (serve poolSize faulty calls) s (atUpdate env v p i s) := by
  have harrive : serve poolSize faulty calls (.run i) s =
      some (s.goto i (.pool (getPost env v p))) := by
    simp only [serve, step, runStep, hi]
  have hat : (s.goto i (.pool (getPost env v p))).calls i = .pool (getPost env v p) := by
    simp [Sys.goto]
  refine ((Reachable.refl s).tail harrive).tail (l := .run i) ?_
  simp only [serve, step, runStep, hat]
  exact if_pos hpool

/-- With room in the column a request that arrives gets to the state in which its view is
counted. -/
theorem reach_counted (hi : s.calls i = .idle (getPost env v p)) (hpool : s.inUse < poolSize)
    {n : Nat} {ws : List Write} (he : eval (.viewPost p) s.now s.seq s.db = some (n, ws)) :
    ∃ s', Reachable (serve poolSize faulty calls) s s' ∧ s'.db = engine.applyAll ws s.db ∧
      s'.inUse = s.inUse ∧ ∀ j, j ≠ i → s'.calls j = s.calls j := by
  have heval : eval (.viewPost p) (atUpdate env v p i s).now (atUpdate env v p i s).seq
      (atUpdate env v p i s).db = some (n, ws) := he
  have hcount : ∃ s', serve poolSize faulty calls (.run i) (atUpdate env v p i s) = some s' ∧
      s'.db = engine.applyAll ws s.db ∧ s'.inUse = s.inUse ∧
        ∀ j, j ≠ i → s'.calls j = s.calls j := by
    simp only [serve, step, runStep, calls_atUpdate, connStep, heval]
    refine ⟨_, if_pos fun l hl => absurd hl List.not_mem_nil, rfl, rfl, fun j hj => ?_⟩
    simp [Sys.goto, Sys.record, Sys.giveBack, Sys.bump, Sys.write, atUpdate, Sys.borrow, hj]
  obtain ⟨s', hstep, hs'⟩ := hcount
  exact ⟨s', (reach_atUpdate faulty calls hi hpool).tail hstep, hs'⟩

/-- Without room it gets to its answer, which is an error, and nothing was counted. -/
theorem reach_full (hi : s.calls i = .idle (getPost env v p)) (hpool : s.inUse < poolSize)
    (hcall : calls i = .getPost v p) (he : eval (.viewPost p) s.now s.seq s.db = none) :
    ∃ s', Reachable (serve poolSize faulty calls) s s' ∧ s'.calls i = .done (.failure 500) := by
  have heval : eval (.viewPost p) (atUpdate env v p i s).now (atUpdate env v p i s).seq
      (atUpdate env v p i s).db = none := he
  have hfull : ∃ s', serve poolSize faulty calls (.run i) (atUpdate env v p i s) = some s' ∧
      s'.calls i = .done (.failure 500) := by
    simp only [serve, step, runStep, calls_atUpdate, connStep, heval]
    exact ⟨_, rfl, by simp [Sys.goto, config, hcall, Call.failed]⟩
  obtain ⟨s', hstep, hs'⟩ := hfull
  exact ⟨s', (reach_atUpdate faulty calls hi hpool).tail hstep, hs'⟩

/-- The tables after `n` views of the post of 1. -/
def viewedDb (n : Int) : Db :=
  { demoDb with
    posts := [⟨1, "a", "a", 1, "general", [], 0, 0, n, false, false⟩,
      ⟨2, "b", "b", 2, "general", [], 0, 0, 0, false, false⟩] }

/-- All requests are views of that post. -/
def readers : Nat → Call := fun _ => .getPost none 1

theorem eval_viewedDb {n : Int} (hn : n < int32Max) (now seq : Nat) :
    eval (.viewPost 1) now seq (viewedDb n) = some (1, [.viewPost 1]) := by
  have hroom : ¬ int32Max ≤ n := Int.not_le.mpr hn
  simp [eval, viewedDb, Db.postCount, hroom]

theorem apply_viewedDb (n : Int) :
    engine.applyAll [.viewPost 1] (viewedDb n) = viewedDb (n + 1) := rfl

/-- The first `n` requests have counted. -/
theorem reach_viewedDb {n : Nat} (hn : (n : Int) ≤ int32Max) : ∃ s,
    Reachable (serve 1 false readers) (server demoEnv demoText demoDb 0 0 readers) s ∧
      s.db = viewedDb n ∧ s.inUse = 0 ∧
        ∀ i, n ≤ i → s.calls i = .idle (getPost demoEnv none 1) := by
  induction n with
  | zero => exact ⟨_, .refl _, rfl, rfl, fun i _ => rfl⟩
  | succ n ih =>
      obtain ⟨s, hreach, hdb, hinUse, hidle⟩ := ih (by omega)
      have heval : eval (.viewPost 1) s.now s.seq s.db = some (1, [.viewPost 1]) := by
        rw [hdb]
        exact eval_viewedDb (by omega) _ _
      obtain ⟨s', hstep, hdb', hinUse', hothers⟩ := reach_counted false readers
        (hidle n le_rfl) (hinUse ▸ Nat.one_pos) heval
      refine ⟨s', hreach.trans hstep, ?_, by omega, fun i hi => ?_⟩
      · rw [hdb', hdb, apply_viewedDb]
        rfl
      · rw [hothers i (by omega)]
        exact hidle i (by omega)

end Full

/-- After 2147483647 views the next request is answered 500. -/
theorem view_fails : ¬ ∀ s : Server Nat,
    Reachable (serve 1 false readers) (server demoEnv demoText demoDb 0 0 readers) s →
      ∀ i a, s.calls i = .done a → ∃ row : PostView, a = .post (rowToPost demoEnv row) := by
  intro hclaim
  have hfull : ((2147483647 : Nat) : Int) ≤ int32Max := by decide
  obtain ⟨s, hreach, hdb, hinUse, hidle⟩ := reach_viewedDb hfull
  have heval : eval (.viewPost 1) s.now s.seq s.db = none := by
    rw [hdb]
    rfl
  obtain ⟨s', hstep, hdone⟩ := reach_full false readers (hidle _ le_rfl)
    (hinUse ▸ Nat.one_pos) rfl heval
  obtain ⟨row, hrow⟩ := hclaim s' (hreach.trans hstep) _ _ hdone
  cases hrow

end DevbitBackend.Forum
