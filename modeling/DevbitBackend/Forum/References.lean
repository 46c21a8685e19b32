import DevbitBackend.Forum.Provenance
import DevbitBackend.Social.Messages

/-!
# Forum.References

The keys that the listings join on, as an invariant of the server (`Referenced`): the
author of a post or a comment and both sides of a message are there, and a user likes a
post once. The tables declare them, and each `INSERT` is checked against them when it runs
(`refers_of_eval`).
-/

namespace DevbitBackend.Forum

open Txn Social Transition

/-- The foreign keys into `users`, and the primary keys of `users` and of the likes. -/
structure Referenced (db : Db) : Prop where
  users : (db.social.users.map (·.id)).Nodup
  posts : ∀ p ∈ db.posts, db.social.userExists p.author = true
  comments : ∀ row ∈ db.comments, db.social.userExists row.author = true
  messages : ∀ m ∈ db.social.messages,
    db.social.userExists m.sender = true ∧ db.social.userExists m.recipient = true
  likes : (db.likes.map fun l => (l.post, l.user)).Nodup

/-- The row that a write inserts refers to users that are there, and is new. -/
def Write.Refers (db : Db) : Write → Prop
  | .insertPost p => db.social.userExists p.author = true
  | .insertComment row => db.social.userExists row.author = true
  | .insertLike l => ∀ l' ∈ db.likes, ¬ (l'.post = l.post ∧ l'.user = l.user)
  | .social (.insertMessage m) =>
      db.social.userExists m.sender = true ∧ db.social.userExists m.recipient = true
  | _ => True

section Statements

variable {db : Db} {now seq : Nat} {ws : List Write}

theorem no_message_settleRows {rows : List RequestRow} {status : RequestStatus} {m : MessageRow} :
    .insertMessage m ∉ settleRows rows status now := by
  unfold settleRows
  split <;> simp

/-- The `INSERT` of a message is checked. -/
theorem message_of_eval {db : Social.Db} {st : Social.Stmt} {r : st.Result}
    {ws : List Social.Write} {m : MessageRow} (he : Social.eval st now seq db = some (r, ws))
    (hm : .insertMessage m ∈ ws) :
    db.userExists m.sender = true ∧ db.userExists m.recipient = true := by
  have hnever : ∀ {rows status}, settleRows rows status now = ws →
      db.userExists m.sender = true ∧ db.userExists m.recipient = true :=
    fun heq => absurd (heq ▸ hm) no_message_settleRows
  cases st with
  | insertMessage a b body =>
      simp only [Social.eval] at he
      split at he
      · rename_i hchecks
        cases he
        simp only [Bool.and_eq_true] at hchecks
        simp only [List.mem_singleton, Social.Write.insertMessage.injEq] at hm
        subst hm
        exact ⟨hchecks.1.2, hchecks.2⟩
      · cases he
  | setStatus id st => exact hnever (congrArg Prod.snd (Option.some.inj he))
  | cancelOthers id a b => exact hnever (congrArg Prod.snd (Option.some.inj he))
  | cancelPending a b => exact hnever (congrArg Prod.snd (Option.some.inj he))
  | _ =>
      simp only [Social.eval] at he
      repeat' split at he
      all_goals first
        | cases he; simp at hm
        | cases he

/-- **Every `INSERT` is checked when it runs.** -/
theorem refers_of_eval {st : Stmt} {r : st.Result} (he : eval st now seq db = some (r, ws)) :
    ∀ w ∈ ws, w.Refers db := by
  cases st with
  | social st =>
      obtain ⟨⟨r', ws₀⟩, he₀, hres⟩ := Option.map_eq_some_iff.mp he
      obtain rfl : ws₀.map Write.social = ws := congrArg Prod.snd hres
      refine List.forall_mem_map.mpr fun w hw => ?_
      cases w with
      | insertMessage m => exact message_of_eval he₀ hw
      | _ => trivial
  | insertPost a title content category tags =>
      simp only [eval] at he
      split at he
      · rename_i hchecks
        cases he
        simpa [Write.Refers] using (Bool.and_eq_true_iff.mp hchecks).2
      · cases he
  | insertComment p a text =>
      simp only [eval] at he
      split at he
      · rename_i hchecks
        cases he
        simpa [Write.Refers] using (Bool.and_eq_true_iff.mp hchecks).2
      · cases he
  | insertLike id u =>
      simp only [eval] at he
      split at he
      · cases he
        simp
      · rename_i hnew
        split at he
        · cases he
          simpa [Write.Refers] using hnew
        · cases he
  | viewPost id | editPost id content =>
      simp only [eval] at he
      split at he
      · cases he <;> simp [Write.Refers]
      · cases he <;> simp [Write.Refers]
  | upsertClear u p through =>
      simp only [eval] at he
      split at he
      · cases he
      split at he
      · cases he
        simp [Write.Refers]
      · split at he
        · cases he
          simp [Write.Refers]
        · cases he
  | postList viewer category | likePosts viewer containsPattern
  | likeUsers containsPattern prefixPattern query =>
      -- these write nothing, and are rejected for a text with a NUL
      simp only [eval] at he
      split at he <;> cases he
      simp
  | _ =>
      cases he
      simp [Write.Refers]

theorem referenced_updatePost (h : Referenced db) (id : PostId) {f : PostRow → PostRow}
    (hauthor : ∀ p, (f p).author = p.author) : Referenced (db.updatePost id f) where
  users := h.users
  posts p' hp' := by
    obtain ⟨p, hp, rfl⟩ := List.mem_map.mp hp'
    split
    · rw [hauthor]
      exact h.posts p hp
    · exact h.posts p hp
  comments := h.comments
  messages := h.messages
  likes := h.likes

theorem referenced_markRead (h : Referenced db) (where_ : MessageRow → Bool) :
    Referenced (db.markRead where_) where
  users := h.users
  posts := h.posts
  comments := h.comments
  messages m' hm' := by
    obtain ⟨m, hm, rfl⟩ := List.mem_map.mp hm'
    split
    · exact h.messages m hm
    · exact h.messages m hm
  likes := h.likes

/-- The transactions of the social handlers leave the users and the messages alone. -/
theorem Referenced.social {d : Social.Db} (h : Referenced db) (husers : d.users = db.social.users)
    (hmessages : d.messages = db.social.messages) : Referenced { db with social := d } := by
  have hexists : ∀ u, d.userExists u = db.social.userExists u := fun u => by
    rw [Social.Db.userExists, husers, Social.Db.userExists]
  refine ⟨husers ▸ h.users, fun p hp => ?_, fun row hrow => ?_, fun m hm => ?_, h.likes⟩
  · rw [hexists]
    exact h.posts p hp
  · rw [hexists]
    exact h.comments row hrow
  · rw [hexists, hexists]
    exact h.messages m (hmessages ▸ hm)

/-- A write that has been checked keeps the keys. -/
theorem Referenced.write (h : Referenced db) {w : Write} (hw : w.Refers db) :
    Referenced (w.apply db) := by
  cases w with
  | social w =>
      cases w with
      | insertMessage m =>
          refine { h with messages := fun m' hm' => ?_ }
          rcases List.mem_append.mp hm' with hm' | hm'
          · exact h.messages m' hm'
          · rw [List.mem_singleton.mp hm']
            exact hw
      | _ => exact { h with }
  | viewPost id => exact referenced_updatePost h id fun _ => rfl
  | editPost id content t => exact referenced_updatePost h id fun _ => rfl
  | togglePin id => exact referenced_updatePost h id fun _ => rfl
  | toggleLock id => exact referenced_updatePost h id fun _ => rfl
  | insertPost p =>
      refine { h with posts := fun p' hp' => ?_ }
      rcases List.mem_append.mp hp' with hp' | hp'
      · exact h.posts p' hp'
      · rw [List.mem_singleton.mp hp']
        exact hw
  | deletePost id =>
      exact { h with
        posts := fun p hp => h.posts p (List.mem_of_mem_filter hp)
        comments := fun row hrow => h.comments row (List.mem_of_mem_filter hrow)
        likes := h.likes.sublist (List.filter_sublist.map _) }
  | deleteLike id u => exact { h with likes := h.likes.sublist (List.filter_sublist.map _) }
  | insertLike l =>
      refine { h with likes := ?_ }
      change ((db.likes ++ [l]).map fun l => (l.post, l.user)).Nodup
      rw [List.map_append, List.map_singleton, ← List.concat_eq_append]
      -- the `INSERT` of a like that is there does nothing, so the pair is new
      refine h.likes.concat fun hmem => ?_
      obtain ⟨l', hl', hkey⟩ := List.mem_map.mp hmem
      exact hw l' hl' (Prod.mk.inj hkey)
  | insertComment row =>
      refine { h with comments := fun row' hrow' => ?_ }
      rcases List.mem_append.mp hrow' with hrow' | hrow'
      · exact h.comments row' hrow'
      · rw [List.mem_singleton.mp hrow']
        exact hw
  | deleteComment id =>
      exact { h with comments := fun row hrow => h.comments row (List.mem_of_mem_filter hrow) }
  | markMessageRead id u => exact referenced_markRead h _
  | markConversationRead s u => exact referenced_markRead h _
  | setClear row => exact { h with }

end Statements

/-! ### Every run -/

section Runs

variable {ι : Type} [DecidableEq ι] {env : Env} {text : UserSearch} {db : Db} {σ₀ : State}
  {seq now poolSize : Nat} {faulty : Bool} {calls : ι → Call} {s s' : Server ι} {l : Label ι}
  {i : ι}

/-- An autocommit statement makes one write at most. -/
theorem one_write (hinv : ServerInv env poolSize faulty calls σ₀ s) {st : Stmt}
    {k : st.Result → Code} {r : st.Result} {ws : List Write} (hc : s.calls i = .conn st k)
    (he : eval st s.now s.seq s.db = some (r, ws)) : ws = [] ∨ ∃ w, ws = [w] := by
  obtain ⟨hauto, -⟩ := hinv.autos hc he
  revert hauto
  cases calls i with
  | social c =>
      intro ha
      obtain ⟨H₀, ws₀, -, rfl, -, hautos⟩ := ha
      cases hautos with
      | read => exact .inl rfl
      | unblocked | preferred | messaged => exact .inr ⟨_, rfl⟩
  | _ => exact fun ha => ha.2.allowed.imp_right fun ⟨w, hw, _⟩ => ⟨w, hw⟩

/-- Every move keeps the keys: rows refer to users and posts that are there. -/
theorem Referenced.step (h : Referenced s.db)
    (hinv : ServerInv env poolSize faulty calls σ₀ s)
    (hstep : serve poolSize faulty calls l s = some s') : Referenced s'.db := by
  cases move_of_step hstep with
  | auto hc he _ =>
      have hrefers := refers_of_eval he
      rcases one_write hinv hc he with rfl | ⟨w, rfl⟩
      · exact h
      · exact h.write (hrefers w (List.mem_singleton_self w))
  | @commit i start buf notes k hc =>
      obtain ⟨H, hcommit⟩ := hinv.commits hc
      revert hcommit
      cases calls i with
      | social c =>
          rintro ⟨H₀, ws₀, notes₀, -, rfl, -, v, t, hlock, hcommits⟩
          have hgrows := (hcommits.sound hlock hinv.inv.social).2.1.2
          change Referenced (engine.applyAll (ws₀.map socialPart.write) s.db)
          rw [forum_applyAll]
          exact h.social hgrows.users hcommits.messages
      | _ => exact fun hcommit => hcommit.elim
  | _ => exact h

/-- **The keys hold in every reachable state.** -/
theorem referenced_reachable (hdb : Consistent ⟨seq, db⟩) (hkeys : Referenced db)
    (h : Reachable (serve poolSize faulty calls) (server env text db seq now calls) s) :
    Referenced s.db := by
  obtain ⟨ls, hrun⟩ := h
  have hboth := hrun.invariant
    (I := fun s => ServerInv env poolSize faulty calls ⟨seq, db⟩ s ∧ Referenced s.db)
    (fun l s s' hI hstep => ⟨sysInv_step hI.1 hstep, hI.2.step hI.1 hstep⟩)
    ⟨serverInv_of_consistent hdb (.refl _), hkeys⟩
  exact hboth.2

end Runs

end DevbitBackend.Forum
