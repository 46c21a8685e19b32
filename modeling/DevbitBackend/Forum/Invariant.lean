import DevbitBackend.Lib.Serial
import DevbitBackend.Forum.Handlers
import DevbitBackend.Social.Contracts

/-!
# Forum.Invariant

What every handler of the server may rely on, as a `Txn.Discipline` over all
tables. To the discipline of the social tables it adds the keys of the forum
tables (`TablesOk`) and that the author of a post or a comment is settled when it
is inserted (`Settled`). `hosts` says that the social discipline is a restriction
of it, so the contracts of the social handlers hold next to the forum handlers.
-/

namespace DevbitBackend.Forum

open Txn Social

/-- The shared state of all tables. -/
abbrev State := Snap engine

/-- `id` and `author_id` of `forum_posts`. -/
def postColumns : Serial.Columns PostRow UserId where
  key := PostRow.id
  owner := PostRow.author

/-- `id` and `author_id` of `forum_comments`. -/
def commentColumns : Serial.Columns CommentRow UserId where
  key := CommentRow.id
  owner := CommentRow.author

/-- The keys of the forum tables. -/
structure TablesOk (db : Db) : Prop where
  posts : Serial.Ok postColumns db.posts db.postSeq
  comments : Serial.Ok commentColumns db.comments db.commentSeq
  commentPosts : ∀ c ∈ db.comments, ∃ p ∈ db.posts, p.id = c.post
  likePosts : ∀ l ∈ db.likes, ∃ p ∈ db.posts, p.id = l.post

/-- The authors of the posts and the comments of `db` are settled in `db'`. -/
structure Settled (db db' : Db) : Prop where
  posts : Serial.Later postColumns db.posts db.postSeq db'.posts db'.postSeq
  comments : Serial.Later commentColumns db.comments db.commentSeq db'.comments db'.commentSeq

theorem Settled.refl (db : Db) : Settled db db := ⟨.refl _ _ _, .refl _ _ _⟩

theorem Settled.trans {db₁ db₂ db₃ : Db} (h : Settled db₁ db₂) (h' : Settled db₂ db₃) :
    Settled db₁ db₃ :=
  ⟨h.posts.trans h'.posts, h.comments.trans h'.comments⟩

/-- The invariant of the committed tables. -/
structure Consistent (σ : State) : Prop where
  social : Social.Consistent (socialPart.snap σ)
  tables : TablesOk σ.db

/-- **What the handlers of the server may rely on.** -/
def discipline : Discipline engine where
  Inv := Consistent
  Base σ σ' := Social.discipline.Base (socialPart.snap σ) (socialPart.snap σ') ∧ Settled σ.db σ'.db
  Keeps l σ σ' := Social.discipline.Keeps l (socialPart.snap σ) (socialPart.snap σ')
  base_refl σ := ⟨Social.discipline.base_refl _, .refl _⟩
  base_trans h h' := ⟨Social.discipline.base_trans h.1 h'.1, h.2.trans h'.2⟩
  keeps_refl l σ := Social.discipline.keeps_refl l _
  keeps_trans h h' := Social.discipline.keeps_trans h h'
  inv_bump {σ st} h := by
    refine ⟨⟨h.social.schema, fun r hr => ?_, h.social.pairs⟩, h.tables⟩
    exact ⟨(h.social.ids r hr).1,
      (h.social.ids r hr).2.trans (Int.ofNat_le.mpr (σ.seq_le_bump st))⟩
  base_bump σ st := ⟨⟨σ.seq_le_bump st, .refl _⟩, .refl _⟩
  keeps_bump l σ st := .refl l _

/-- The writes of the social part leave the forum tables alone. -/
theorem forum_applyAll (ws : List Social.Write) (db : Db) :
    engine.applyAll (ws.map socialPart.write) db =
      { db with social := Social.engine.applyAll ws db.social } := by
  induction ws generalizing db with
  | nil => rfl
  | cons w ws ih => exact ih (Write.apply (.social w) db)

theorem hosts : socialPart.Hosts Social.discipline discipline where
  inv h := h.social
  base h := h.1
  keeps h := h
  inv_write {σ ws} h hs := by
    refine ⟨?_, ?_⟩
    · rw [socialPart.snap_write]
      exact hs
    · rw [Snap.write, forum_applyAll]
      exact ⟨h.tables.posts, h.tables.comments, h.tables.commentPosts, h.tables.likePosts⟩
  base_write {σ ws} _ hb := by
    refine ⟨?_, ?_⟩
    · rw [socialPart.snap_write]
      exact hb
    · rw [Snap.write, forum_applyAll]
      exact ⟨.refl _ _ _, .refl _ _ _⟩
  keeps_write {l' σ ws} _ hk := by
    change Social.discipline.Keeps l' (socialPart.snap σ) (socialPart.snap (σ.write _))
    rw [socialPart.snap_write]
    exact hk l' rfl

end DevbitBackend.Forum
