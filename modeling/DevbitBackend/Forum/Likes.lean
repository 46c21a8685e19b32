import Mathlib.Algebra.Group.Nat.Even
import DevbitBackend.Forum.Access

/-!
# Forum.Likes

Any number of `toggle_like` calls at once. A call reads whether its user likes the
post and then inserts or deletes the like, in two statements. The calls of a user
on a post toggle its like as often as there are calls, up to the writes that find
the like changed since it was read: the outcome is right exactly when their number
is even (`like_toggled_iff`).
-/

namespace DevbitBackend.Forum

open Txn Transition Social

/-! ### The like of one user on one post -/

/-- The user `u` likes the post `p`. -/
def Db.liked (db : Db) (p : PostId) (u : UserId) : Bool :=
  db.likes.any fun l => l.post == p && l.user == u

/-- The statements of `toggle_like`. -/
def Stmt.ofToggleLike : Stmt → Bool
  | .social (.loadUser _) | .postExists _ | .liked _ _ | .deleteLike _ _ | .insertLike _ _
  | .postView _ _ => true
  | _ => false

/-- The statement inserts or deletes the like of `u` on `p`. -/
def Stmt.writesLike (p : PostId) (u : UserId) : Stmt → Bool
  | .insertLike p' u' | .deleteLike p' u' => p' == p && u' == u
  | _ => false

/-- The statement finds that like the way it wants to leave it: an `INSERT` finds the
row there, a `DELETE` finds none. -/
def Stmt.findsDone (db : Db) (p : PostId) (u : UserId) : Stmt → Bool
  | .insertLike p' u' => p' == p && u' == u && db.liked p u
  | .deleteLike p' u' => p' == p && u' == u && !db.liked p u
  | _ => false

/-- The tables with other likes. -/
def Db.withLikes (db : Db) (likes : List LikeRow) : Db := { db with likes := likes }

section Statements

variable {db : Db} {p : PostId} {u : UserId} {st : Stmt} {now seq : Nat} {r : st.Result}
  {ws : List Write}

theorem liked_insert (l : LikeRow) : (Write.apply (.insertLike l) db).liked p u =
    (db.liked p u || (l.post == p && l.user == u)) := by
  simp [Write.apply, Db.liked]

theorem liked_delete (p' : PostId) (u' : UserId) : (Write.apply (.deleteLike p' u') db).liked p u =
    (db.liked p u && !(p' == p && u' == u)) := by
  rw [Bool.eq_iff_iff]
  simp only [Write.apply, Db.liked, List.any_filter, List.any_eq_true, Bool.and_eq_true,
    Bool.not_eq_true', Bool.and_eq_false_iff, beq_iff_eq, beq_eq_false_iff_ne]
  constructor
  · rintro ⟨l, hl, hne, rfl, rfl⟩
    exact ⟨⟨l, hl, rfl, rfl⟩, hne.imp Ne.symm Ne.symm⟩
  · rintro ⟨⟨l, hl, rfl, rfl⟩, hne⟩
    exact ⟨l, hl, hne.imp Ne.symm Ne.symm, rfl, rfl⟩

/-- What such a statement writes. -/
theorem writes_ofToggleLike (hst : st.ofToggleLike = true)
    (he : eval st now seq db = some (r, ws)) :
    (ws = [] ∧ (st.writesLike p u = true → st.findsDone db p u = true)) ∨
      (∃ p' u', st = .deleteLike p' u' ∧ ws = [.deleteLike p' u']) ∨
      ∃ p' u', st = .insertLike p' u' ∧ Db.liked db p' u' = false ∧
        ws = [.insertLike ⟨p', u', now⟩] := by
  cases st with
  | social st =>
      cases st with
      | loadUser id =>
          cases he
          exact .inl ⟨rfl, by simp [Stmt.writesLike]⟩
      | _ => cases hst
  | deleteLike p' u' =>
      cases he
      exact .inr (.inl ⟨p', u', rfl, rfl⟩)
  | insertLike p' u' =>
      simp only [eval] at he
      split at he
      · rename_i hliked
        cases he
        refine .inl ⟨rfl, fun hwrites => ?_⟩
        obtain ⟨rfl, rfl⟩ : p' = p ∧ u' = u := by simpa [Stmt.writesLike] using hwrites
        have hdone : Db.liked db p' u' = true := hliked
        simp [Stmt.findsDone, hdone]
      · rename_i hliked
        split at he
        · cases he
          exact .inr (.inr ⟨p', u', rfl, by simpa [Db.liked] using hliked, rfl⟩)
        · cases he
  | postExists id =>
      cases he
      exact .inl ⟨rfl, by simp [Stmt.writesLike]⟩
  | liked id v =>
      cases he
      exact .inl ⟨rfl, by simp [Stmt.writesLike]⟩
  | postView v id =>
      cases he
      exact .inl ⟨rfl, by simp [Stmt.writesLike]⟩
  | _ => cases hst

/-- An `INSERT` goes through when its foreign keys are there. -/
theorem eval_insertLike_ne_none (hpost : (db.post p).isSome = true)
    (huser : db.social.userExists u = true) : eval (.insertLike p u) now seq db ≠ none := by
  simp only [eval, hpost, huser, Bool.and_self, if_true]
  split <;> simp

/-- The statements of `toggle_like` write likes only: the other tables stay as they are. -/
theorem eval_ofToggleLike (hst : st.ofToggleLike = true)
    (he : eval st now seq db = some (r, ws)) :
    ∃ likes, engine.applyAll ws db = db.withLikes likes := by
  rcases writes_ofToggleLike (p := 0) (u := 0) hst he with
    ⟨rfl, -⟩ | ⟨p', u', -, rfl⟩ | ⟨p', u', -, -, rfl⟩
  · exact ⟨db.likes, rfl⟩
  · exact ⟨_, rfl⟩
  · exact ⟨_, rfl⟩

/-- The like of `u` on `p` changes if the statement writes it and has not found it done. -/
theorem liked_eval (hst : st.ofToggleLike = true) (he : eval st now seq db = some (r, ws)) :
    Db.liked (engine.applyAll ws db) p u =
      (db.liked p u ^^ (st.writesLike p u && !st.findsDone db p u)) := by
  rcases writes_ofToggleLike (p := p) (u := u) hst he with
    ⟨rfl, hdone⟩ | ⟨p', u', rfl, rfl⟩ | ⟨p', u', rfl, hfree, rfl⟩
  · have hnone : (st.writesLike p u && !st.findsDone db p u) = false := by
      cases hwrites : st.writesLike p u with
      | false => rfl
      | true => simp [hdone hwrites]
    rw [hnone, Bool.xor_false]
    rfl
  · have hdelete := @liked_delete db p u p' u'
    refine hdelete.trans ?_
    simp only [Stmt.writesLike, Stmt.findsDone]
    cases db.liked p u <;> cases p' == p && u' == u <;> rfl
  · have hinsert := @liked_insert db p u ⟨p', u', now⟩
    refine hinsert.trans ?_
    simp only [Stmt.writesLike, Stmt.findsDone]
    cases db.liked p u <;> cases p' == p && u' == u <;> rfl

/-- Only a statement that writes the like finds it done. -/
theorem findsDone_of_not_writes (h : st.writesLike p u = false) : st.findsDone db p u = false := by
  cases st with
  | insertLike p' u' => simp [Stmt.findsDone, show (p' == p && u' == u) = false from h]
  | deleteLike p' u' => simp [Stmt.findsDone, show (p' == p && u' == u) = false from h]
  | _ => rfl

end Statements

/-! ### The code of `toggle_like` -/

/-- Code that runs while only the likes of `base` change. `ahead` says whether it
still has to write the like of `u` on `p`, which it does once. -/
def Toggling (base : Db) (p : PostId) (u : UserId) : (ahead : Bool) → Code → Prop
  | ahead, .query st k =>
      st.ofToggleLike = true ∧ (st.writesLike p u = true → ahead = true) ∧
        ∀ likes now seq,
          (ahead = true → eval st now seq (base.withLikes likes) ≠ none) ∧
          ∀ r ws, eval st now seq (base.withLikes likes) = some (r, ws) →
            Toggling base p u (ahead && !st.writesLike p u) (k r)
  | ahead, .done _ => ahead = false
  | _, _ => False

section Code

variable {base : Db} {p : PostId} {u : UserId} {ahead : Bool}

/-- A read leaves the call with the same duty as before. -/
theorem toggling_read {st : Stmt} {k : st.Result → Code} (hst : st.ofToggleLike = true)
    (hread : st.writesLike p u = false) {f : Db → st.Result}
    (heval : ∀ now seq db, eval st now seq db = some (f db, []))
    (hk : ∀ likes, Toggling base p u ahead (k (f (base.withLikes likes)))) :
    Toggling base p u ahead (.query st k) := by
  refine ⟨hst, fun hwrites => ?_, fun likes now seq => ⟨fun _ => ?_, fun r ws he => ?_⟩⟩
  · rw [hread] at hwrites
    cases hwrites
  · simp [heval]
  · rw [heval] at he
    obtain ⟨rfl, -⟩ := Prod.mk.inj (Option.some.inj he)
    simpa [hread] using hk likes

theorem toggling_fetchPostById (env : Env) (id : PostId) (viewer : Option UserId) :
    Toggling base p u false (fetchPostById env id viewer) := by
  refine toggling_read (f := fun db => (db.postList viewer (·.id == id)).head?) rfl rfl
    (fun _ _ _ => rfl) fun likes => ?_
  cases (Db.postList (base.withLikes likes) viewer (·.id == id)).head? <;> rfl

/-- A write, after which the call only answers. -/
theorem toggling_write {st : Stmt} {k : st.Result → Code} (hst : st.ofToggleLike = true)
    (hwrites : st.writesLike p u = ahead)
    (heval : ∀ likes now seq, ahead = true → eval st now seq (base.withLikes likes) ≠ none)
    (hk : ∀ r, Toggling base p u false (k r)) : Toggling base p u ahead (.query st k) := by
  refine ⟨hst, fun h => hwrites ▸ h, fun likes now seq => ⟨heval likes now seq, fun r ws _ => ?_⟩⟩
  rw [hwrites, Bool.and_not_self]
  exact hk r

/-- The call of `v` on the post `id` has the like of `u` on `p` ahead if it is the
same like, provided that the post and the user are there. -/
theorem toggling_toggleLike (env : Env) {id : PostId} {v : UserId}
    (hrows : (id == p && v == u) = true →
      (base.post p).isSome = true ∧ base.social.userExists u = true) :
    Toggling base p u (id == p && v == u) (toggleLike env (some v) id) := by
  have hsame : (id == p && v == u) = true → id = p ∧ v = u := by simp
  refine toggling_read (f := fun db => Db.loadUser db.social v) rfl rfl (fun _ _ _ => rfl)
    fun likes => ?_
  cases hrow : Db.loadUser base.social v with
  | none =>
      simp only [Db.withLikes, hrow]
      refine Bool.eq_false_iff.mpr fun h => ?_
      obtain ⟨-, hexists⟩ := hrows h
      obtain ⟨-, rfl⟩ := hsame h
      -- the user of the like is there, so its row is found
      obtain ⟨row, hmem, hid⟩ := List.any_eq_true.mp hexists
      exact List.find?_eq_none.mp hrow row hmem hid
  | some row =>
  simp only [Db.withLikes, hrow]
  refine toggling_read (f := fun db => (Db.post db id).isSome) rfl rfl (fun _ _ _ => rfl)
    fun likes => ?_
  cases hpost : (Db.post base id).isSome with
  | false =>
      have hgone : (Db.post (base.withLikes likes) id).isSome = false := hpost
      simp only [hgone]
      refine Bool.eq_false_iff.mpr fun h => ?_
      obtain ⟨hexists, -⟩ := hrows h
      obtain ⟨rfl, -⟩ := hsame h
      rw [hpost] at hexists
      cases hexists
  | true =>
  have hthere : (Db.post (base.withLikes likes) id).isSome = true := hpost
  simp only [hthere]
  refine toggling_read (f := fun db => Db.liked db id v) rfl rfl (fun _ _ _ => rfl)
    fun likes => ?_
  -- from here on the call is bound to write the side that it has not read
  cases Db.liked (base.withLikes likes) id v with
  | true => exact toggling_write rfl rfl nofun fun _ => toggling_fetchPostById env id (some v)
  | false =>
      refine toggling_write rfl rfl ?_ fun _ => toggling_fetchPostById env id (some v)
      intro likes now seq h
      obtain ⟨rfl, rfl⟩ := hsame h
      exact eval_insertLike_ne_none (hrows h).1 (hrows h).2

/-- The call toggles the like of `u` on `p`. -/
def Call.togglesLike (p : PostId) (u : UserId) (c : Call) : Bool :=
  c == .toggleLike (some u) p

theorem toggling_call (env : Env) (text : UserSearch) {c : Call}
    (hc : ∃ v id, c = .toggleLike v id) (hpost : (base.post p).isSome = true)
    (huser : base.social.userExists u = true) :
    Toggling base p u (c.togglesLike p u) (c.code env text) := by
  obtain ⟨v, id, rfl⟩ := hc
  cases v with
  | none => exact beq_eq_false_iff_ne.mpr nofun
  | some v =>
      have hsame : Call.togglesLike p u (.toggleLike (some v) id) = (id == p && v == u) := by
        rw [Bool.eq_iff_iff]
        simp [Call.togglesLike, and_comm]
      rw [hsame]
      exact toggling_toggleLike env fun _ => ⟨hpost, huser⟩

end Code

/-! ### Runs -/

section Runs

variable {ι : Type} [DecidableEq ι] {env : Env} {text : UserSearch} {base : Db} {seq now : Nat}
  {poolSize : Nat} {calls : ι → Call} {s s' : Server ι} {l : Label ι} {p : PostId} {u : UserId}
  {i : ι}

/-- The step writes the like of `u` on `p` and finds it changed since its call has
read it: the `INSERT` of a call that has read no like finds one, or the `DELETE` of a
call that has read one finds none. -/
def staleWrite (p : PostId) (u : UserId) (l : Label ι) (s : Server ι) : Bool :=
  match l with
  | .run i =>
      match s.calls i with
      | .conn st _ => st.findsDone s.db p u
      | _ => false
  | _ => false

/-- What is known of a call. -/
def Standing (base : Db) (p : PostId) (u : UserId) (ahead : Bool) : Phase engine Answer → Prop
  | .idle q | .pool q => Toggling base p u ahead q
  | .conn st k => Toggling base p u ahead (.query st k)
  | .tx _ _ _ _ => False
  | .done _ => ahead = false

/-- The calls in `ahead` have yet to write the like of `u` on `p`, of the `n` that do,
and `m` writes so far were stale. -/
structure Tally (base : Db) (p : PostId) (u : UserId) (n : Nat) (ahead : Finset ι) (m : Nat)
    (s : Server ι) : Prop where
  likes : ∃ likes, s.db = base.withLikes likes
  standing : ∀ i, Standing base p u (decide (i ∈ ahead)) (s.calls i)
  parity : (Db.liked s.db p u = (base.liked p u ^^ decide (Odd n))) ↔ Even (ahead.card + m)

variable {n m : Nat} {ahead : Finset ι}

/-- A call goes on without a write. -/
theorem Tally.goto (h : Tally base p u n ahead m s) (s₁ : Server ι) (hdb : s₁.db = s.db)
    (hcalls : s₁.calls = s.calls) {ph : Phase engine Answer}
    (hph : Standing base p u (decide (i ∈ ahead)) ph) :
    Tally base p u n ahead m (s₁.goto i ph) where
  likes := by
    obtain ⟨likes, hlikes⟩ := h.likes
    exact ⟨likes, hdb.trans hlikes⟩
  standing j := by
    by_cases hj : j = i
    · subst hj
      simpa [Sys.goto] using hph
    · simpa [Sys.goto, hj, hcalls] using h.standing j
  parity := by
    have hsame : (s₁.goto i ph).db = s.db := hdb
    rw [hsame]
    exact h.parity

/-- A write takes the like to the other side and the call from those that are still to
write, unless it finds its work done. -/
theorem even_write {liked want writes done : Bool} {waiting stale : ℕ}
    (hpos : writes = true → 0 < waiting) (hdone : writes = false → done = false)
    (h : liked = want ↔ Even (waiting + stale)) :
    (liked ^^ (writes && !done)) = want ↔
      Even ((if writes then waiting - 1 else waiting) + (stale + done.toNat)) := by
  cases writes with
  | false => simpa [hdone rfl] using h
  | true =>
      have hwaiting := hpos rfl
      cases done with
      | true =>
          have hsum : waiting - 1 + (stale + 1) = waiting + stale := by omega
          simpa [hsum] using h
      | false =>
          have hsum : waiting + stale = waiting - 1 + stale + 1 := by omega
          rw [hsum, Nat.even_add_one] at h
          have hflip : (!liked) = want ↔ ¬ liked = want := by
            cases liked <;> cases want <;> decide
          simpa [hflip] using not_congr h

/-- A statement of a call: the count of the likes and what the calls have ahead change
together. -/
theorem Tally.auto (h : Tally base p u n ahead m s) {st : Stmt} {k : st.Result → Code}
    {r : st.Result} {ws : List Write} (hc : s.calls i = .conn st k)
    (he : eval st s.now s.seq s.db = some (r, ws)) {s₁ : Server ι}
    (hdb : s₁.db = engine.applyAll ws s.db) (hcalls : s₁.calls = s.calls) :
    Tally base p u n (if st.writesLike p u then ahead.erase i else ahead)
      (m + (st.findsDone s.db p u).toNat) (s₁.goto i (.pool (k r))) := by
  obtain ⟨likes, hlikes⟩ := h.likes
  have hi := h.standing i
  rw [hc] at hi
  obtain ⟨hst, hahead, hnext⟩ := hi
  have hafter : (s₁.goto i (.pool (k r))).db = engine.applyAll ws s.db := hdb
  refine ⟨?_, fun j => ?_, ?_⟩
  · obtain ⟨likes', hlikes'⟩ := eval_ofToggleLike hst he
    exact ⟨likes', by rw [hafter, hlikes', hlikes]; rfl⟩
  · by_cases hj : j = i
    · subst hj
      have hmem : decide (j ∈ if st.writesLike p u then ahead.erase j else ahead) =
          (decide (j ∈ ahead) && !st.writesLike p u) := by
        cases st.writesLike p u <;> simp
      rw [hmem]
      have hk : Standing base p u _ (.pool (k r)) :=
        (hnext likes s.now s.seq).2 r ws (hlikes ▸ he)
      simpa [Sys.goto] using hk
    · have hmem : (j ∈ if st.writesLike p u then ahead.erase i else ahead) ↔ j ∈ ahead := by
        split <;> simp [hj]
      simpa [Sys.goto, hj, hcalls, hmem] using h.standing j
  · have hpos : st.writesLike p u = true → 0 < ahead.card := fun hwrites =>
      Finset.card_pos.mpr ⟨i, of_decide_eq_true (hahead hwrites)⟩
    have hcard : (if st.writesLike p u then ahead.erase i else ahead).card =
        if st.writesLike p u then ahead.card - 1 else ahead.card := by
      split
      · rename_i hwrites
        exact Finset.card_erase_of_mem (of_decide_eq_true (hahead hwrites))
      · rfl
    rw [hafter, liked_eval hst he, hcard]
    exact even_write hpos findsDone_of_not_writes h.parity

/-- **A move keeps the tally**: a call that writes the like leaves `ahead`, and is counted
as stale when it finds the like changed since it was read. -/
theorem tally_step (h : Tally base p u n ahead m s)
    (hstep : serve poolSize false calls l s = some s') :
    ∃ ahead', Tally base p u n ahead' (m + (staleWrite p u l s).toNat) s' := by
  have own : ∀ {i ph}, s.calls i = ph → Standing base p u (decide (i ∈ ahead)) ph :=
    fun {i ph} hc => hc ▸ h.standing i
  cases move_of_step hstep with
  | @arrive i q hc =>
      have hi := own hc
      simp only [staleWrite, hc]
      exact ⟨ahead, h.goto s rfl rfl hi⟩
  | @acquire i st k hc _ =>
      have hi := own hc
      simp only [staleWrite, hc]
      exact ⟨ahead, h.goto s.borrow rfl rfl hi⟩
  | @answer i a hc =>
      have hi := own hc
      simp only [staleWrite, hc]
      exact ⟨ahead, h.goto s rfl rfl hi⟩
  | @autoRejected i st k hc he =>
      -- the statement that writes the like is never rejected
      obtain ⟨likes, hlikes⟩ := h.likes
      obtain ⟨-, hahead, hnext⟩ := own hc
      have hnot : Standing base p u (decide (i ∈ ahead)) (.done (calls i).failed) := by
        refine Bool.eq_false_iff.mpr fun hi => ?_
        exact (hnext likes s.now s.seq).1 hi (hlikes ▸ he)
      have hwrites : st.writesLike p u = false := by
        refine Bool.eq_false_iff.mpr fun hw => ?_
        have hi : decide (i ∈ ahead) = false := hnot
        rw [hahead hw] at hi
        cases hi
      simp only [staleWrite, hc, findsDone_of_not_writes hwrites]
      exact ⟨ahead, h.goto s.giveBack rfl rfl hnot⟩
  | auto hc he _ =>
      simp only [staleWrite, hc]
      exact ⟨_, h.auto hc he rfl rfl⟩
  | begin hc _ => exact (own hc).elim
  | clock hc => exact (own hc).elim
  | note hc => exact (own hc).elim
  | rejected hc _ => exact (own hc).elim
  | exec hc _ _ => exact (own hc).elim
  | lock hc _ => exact (own hc).elim
  | commit hc => exact (own hc).elim
  | rollback hc => exact (own hc).elim
  | txClock hc => exact (own hc).elim
  | txNote hc => exact (own hc).elim
  | leave hc => exact (own hc).elim
  | failPool _ hf => cases hf
  | failConn _ hf => cases hf
  | failTx _ hf => cases hf
  | failRollback _ hf => cases hf
  | tick => exact ⟨ahead, h.likes, h.standing, h.parity⟩

/-- At the start no call has begun, so none has anything ahead. -/
theorem tally_server [Fintype ι] (hcalls : ∀ i, ∃ v id, calls i = .toggleLike v id)
    (hpost : (base.post p).isSome = true) (huser : base.social.userExists u = true) :
    Tally base p u (Finset.univ.filter fun i => (calls i).togglesLike p u).card
      (Finset.univ.filter fun i => (calls i).togglesLike p u) 0
      (server env text base seq now calls) where
  likes := ⟨base.likes, rfl⟩
  standing i := by
    have hi := toggling_call (p := p) (u := u) env text (hcalls i) hpost huser
    simpa [Standing, server, Sys.start] using hi
  parity := by
    have hsame : (server env text base seq now calls).db = base := rfl
    rw [hsame, Nat.add_zero]
    generalize (Finset.univ.filter fun i => (calls i).togglesLike p u).card = n
    rw [← Nat.not_odd_iff_even]
    by_cases hn : Odd n <;> simp [hn]

/-- **Toggling likes.** Any number of `toggle_like` calls run in any interleaving on a
post that is there. When all of them are done, the like of each user has been toggled
as often as that user has called exactly when an even number of the writes of these
calls have found the like changed since their call had read it. -/
theorem like_toggled_iff [Fintype ι] (hcalls : ∀ i, ∃ v id, calls i = .toggleLike v id)
    (hpost : (base.post p).isSome = true) (huser : base.social.userExists u = true)
    {ls : List (Label ι)}
    (hrun : Run (serve poolSize false calls) (server env text base seq now calls) ls s)
    (hdone : ∀ i, ∃ a, s.calls i = .done a) :
    (Db.liked s.db p u =
        (base.liked p u ^^ decide (Odd (Fintype.card { i // (calls i).togglesLike p u })))) ↔
      Even (countSteps (serve poolSize false calls) (staleWrite p u)
        (server env text base seq now calls) ls) := by
  have hinv := hrun.invariant_count (m := 0) (P := staleWrite p u)
    (I := fun m s => ∃ ahead,
      Tally base p u (Finset.univ.filter fun i => (calls i).togglesLike p u).card ahead m s)
    (fun m l s s' hI hstep => by
      obtain ⟨ahead, h⟩ := hI
      exact tally_step h hstep)
    ⟨_, tally_server hcalls hpost huser⟩
  obtain ⟨ahead, h⟩ := hinv
  -- a call that is done has nothing ahead
  have hnone : ahead = ∅ := by
    refine Finset.eq_empty_of_forall_notMem fun i hi => ?_
    have hstanding := h.standing i
    obtain ⟨a, ha⟩ := hdone i
    rw [ha] at hstanding
    exact of_decide_eq_false hstanding hi
  have hparity := h.parity
  rw [hnone, Finset.card_empty, Nat.zero_add, Nat.zero_add] at hparity
  rw [Fintype.card_subtype]
  exact hparity

end Runs

/-! 2 clicks twice on the post of 1. -/

def doubleClick : Bool → Call := fun _ => .toggleLike (some 2) 1

def clickStart : Server Bool := server demoEnv demoText demoDb 0 0 doubleClick

/-- Whether all calls are done, and whether 2 likes the post. -/
def clicked (ls : List (Label Bool)) : Option (Bool × Bool) :=
  (replay (serve 2 false doubleClick) clickStart ls).map fun s =>
    ([false, true].all fun i => match s.calls i with
      | .done _ => true
      | _ => false, Db.liked s.db 1 2)

theorem clicked_eq_some {ls : List (Label Bool)} {liked : Bool}
    (h : clicked ls = some (true, liked)) : ∃ s, Run (serve 2 false doubleClick) clickStart ls s ∧
      (∀ i, ∃ a, s.calls i = .done a) ∧ Db.liked s.db 1 2 = liked := by
  obtain ⟨s, hs, hobs⟩ := Option.map_eq_some_iff.mp h
  obtain ⟨hdone, hliked⟩ := Prod.mk.inj hobs
  refine ⟨s, run_of_replay hs, fun i => ?_, hliked⟩
  have hi := List.all_eq_true.mp hdone i (by cases i <;> simp)
  cases hc : s.calls i with
  | done a => exact ⟨a, rfl⟩
  | _ => simp [hc] at hi

/-- One click after the other. -/
def clicksApart : List (Label Bool) :=
  List.replicate 12 (.run false) ++ List.replicate 12 (.run true)

/-- No write finds the like changed, and it has been toggled twice. -/
theorem like_toggled_iff_apart : ∃ s, Run (serve 2 false doubleClick) clickStart clicksApart s ∧
    (∀ i, ∃ a, s.calls i = .done a) ∧
      Db.liked s.db 1 2 = (demoDb.liked 1 2 ^^
        decide (Odd (Fintype.card { i // (doubleClick i).togglesLike 1 2 }))) := by
  have hclicks : clicked clicksApart = some (true, false) := by decide +kernel
  have hstale : Even
      (countSteps (serve 2 false doubleClick) (staleWrite 1 2) clickStart clicksApart) := by
    decide +kernel
  obtain ⟨s, hrun, hdone, -⟩ := clicked_eq_some hclicks
  exact ⟨s, hrun, hdone,
    (like_toggled_iff (fun _ => ⟨some 2, 1, rfl⟩) rfl rfl hrun hdone).mpr hstale⟩

/-- Both have read that 2 does not like the post before the first `INSERT`. -/
theorem double_click_likes : ¬ ∀ (ls : List (Label Bool)) (s : Server Bool),
    Run (serve 2 false doubleClick) clickStart ls s → (∀ i, ∃ a, s.calls i = .done a) →
      Db.liked s.db 1 2 = (demoDb.liked 1 2 ^^
        decide (Odd (Fintype.card { i // (doubleClick i).togglesLike 1 2 }))) := by
  intro hclaim
  have hclicks : clicked (List.replicate 7 (.run false) ++ List.replicate 12 (.run true) ++
      List.replicate 5 (.run false)) = some (true, true) := by
    decide +kernel
  obtain ⟨s, hrun, hdone, hliked⟩ := clicked_eq_some hclicks
  have heven := hclaim _ s hrun hdone
  rw [hliked] at heven
  exact absurd heven (by decide)

end DevbitBackend.Forum
