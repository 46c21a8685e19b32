import DevbitBackend.Forum.Provenance

/-!
# Forum.Limits

The limits of the API, as an invariant of the tables. The columns of the texts are not
bounded in the schema, so it is the checks of the handlers alone that keep them: every text
in the tables is the checked text of the call that asked for it (`accounted_of_run`), and
what the checks let through is trimmed, not empty, and short enough.
-/

namespace DevbitBackend.Forum

open Txn Social Transition

/-- A text as the checks leave it. -/
structure Fits (maxChars : Nat) (text : String) : Prop where
  trimmed : trim text = text
  nonempty : text ≠ ""
  short : charCount text ≤ maxChars

/-- A post as the checks leave it. -/
structure PostRow.Fits (p : PostRow) : Prop where
  title : Forum.Fits maxPostTitleChars p.title
  content : Forum.Fits maxPostContentChars p.content
  category : Forum.Fits maxCategoryChars p.category
  few : p.tags.length ≤ maxTags
  tags : ∀ tag ∈ p.tags, Forum.Fits maxTagChars tag

/-- The texts of the tables are within the limits of the API. -/
structure WithinLimits (db : Db) : Prop where
  posts : ∀ p ∈ db.posts, p.Fits
  comments : ∀ row ∈ db.comments, Fits maxCommentChars row.content
  messages : ∀ m ∈ db.social.messages, Fits maxMessageChars m.content
  requests : ∀ r ∈ db.social.requests, trim r.message = r.message ∧
    charCount r.message ≤ maxFriendRequestMessageChars
  preferences : ∀ p ∈ db.social.preferences, p.wellFormed = true

/-! ### What the checks let through -/

/-- A trimmed text that is not empty. -/
theorem fits_trim {value : String} {maxChars : Nat} (hne : ¬ (trim value).toList.isEmpty = true)
    (hshort : ¬ maxChars < charCount (trim value)) : Fits maxChars (trim value) where
  trimmed := trim_trim value
  nonempty h := hne (by rw [h]; rfl)
  short := Nat.le_of_not_lt hshort

theorem fits_content {value text : String} {maxChars : Nat}
    (h : validateContent value maxChars = some text) : Fits maxChars text := by
  simp only [validateContent] at h
  split at h
  · cases h
  · rename_i hok
    obtain rfl := Option.some.inj h
    exact fits_trim (not_or.mp hok).1 (not_or.mp hok).2

theorem fits_category {category : Option String} {text : String}
    (h : checkCategory category = some text) : Fits maxCategoryChars text := by
  simp only [checkCategory] at h
  split at h
  · cases h
  · rename_i hok
    obtain rfl := Option.some.inj h
    exact fits_trim (not_or.mp hok).1 (not_or.mp hok).2

theorem fits_tags {tags : Option (List String)} {texts : List String}
    (h : checkTags tags = some texts) :
    texts.length ≤ maxTags ∧ ∀ tag ∈ texts, Fits maxTagChars tag := by
  simp only [checkTags] at h
  split at h
  · cases h
  · rename_i hok
    obtain rfl := Option.some.inj h
    obtain ⟨hfew, hshort⟩ := not_or.mp hok
    refine ⟨Nat.le_of_not_lt hfew, fun tag htag => ?_⟩
    obtain ⟨hmem, hne⟩ := List.mem_filter.mp htag
    obtain ⟨value, -, rfl⟩ := List.mem_map.mp hmem
    refine fits_trim (by simpa using hne) fun hlong => hshort ?_
    exact List.any_eq_true.mpr ⟨_, htag, decide_eq_true hlong⟩

theorem fits_message {message : Option String} {text : String} {maxChars : Nat}
    (h : validateOptionalMessage message maxChars = .ok text) :
    trim text = text ∧ charCount text ≤ maxChars := by
  refine ⟨?_, validateOptionalMessage_le h⟩
  simp only [validateOptionalMessage] at h
  split at h
  · cases h
  · obtain rfl := Except.ok.inj h
    exact trim_trim _

/-! ### The invariant -/

section Limits

variable {env : Env} {made : Call → Prop} {db db' : Db}

/-- The columns that no `UPDATE` changes, and the content. -/
theorem PostAttributed.fits {before : List PostRow} {p : PostRow}
    (h : PostAttributed env made before p) (hbefore : ∀ p ∈ before, p.Fits) : p.Fits := by
  -- the columns of a post that was there, or that a call creates
  have hhead : ∀ {p₀ : PostRow}, p₀.Head p → p₀.Fits → Fits maxPostTitleChars p.title ∧
      Fits maxCategoryChars p.category ∧ p.tags.length ≤ maxTags ∧
        ∀ tag ∈ p.tags, Fits maxTagChars tag := by
    intro p₀ hh hfit
    rw [hh.title, hh.category, hh.tags]
    exact ⟨hfit.title, hfit.category, hfit.few, hfit.tags⟩
  have hcreated : ∀ {c : Call} {p₀ : PostRow}, c.Posts p₀ → p₀.Fits := by
    rintro c p₀ ⟨payload, -, htitle, hcontent, hcategory, htags⟩
    exact ⟨fits_content htitle, fits_content hcontent, fits_category hcategory,
      (fits_tags htags).1, (fits_tags htags).2⟩
  have hcontent : Fits maxPostContentChars p.content := by
    rcases h.content with ⟨p₀, hp₀, -, heq⟩ | ⟨c, p₀, -, hposts, -, heq⟩ | ⟨c, u, -, hedits, -⟩
    · exact heq ▸ (hbefore p₀ hp₀).content
    · exact heq ▸ (hcreated hposts).content
    · obtain ⟨text, -, hcontent⟩ := hedits
      exact fits_content hcontent
  rcases h.origin with ⟨p₀, hp₀, hh⟩ | ⟨c, p₀, -, hposts, hh⟩
  · obtain ⟨htitle, hcategory, hfew, htags⟩ := hhead hh (hbefore p₀ hp₀)
    exact ⟨htitle, hcontent, hcategory, hfew, htags⟩
  · obtain ⟨htitle, hcategory, hfew, htags⟩ := hhead hh (hcreated hposts)
    exact ⟨htitle, hcontent, hcategory, hfew, htags⟩

/-- What the calls have written is within the limits. -/
theorem Attributed.withinLimits (h : Attributed env made db db') (hdb : WithinLimits db) :
    WithinLimits db' where
  posts p hp := (h.posts p hp).fits hdb.posts
  comments row hrow := by
    rcases h.comments row hrow with hmem | ⟨c, -, content, -, hcontent⟩
    · exact hdb.comments row hmem
    · exact fits_content hcontent
  messages m hm := by
    rcases h.social.messages m hm with ⟨m₀, hm₀, hsame⟩ | ⟨c, -, content, -, hcontent⟩
    · rw [hsame.content]
      exact hdb.messages m₀ hm₀
    · exact fits_content hcontent
  requests r hr := by
    rcases (h.social.requests r hr).origin with ⟨r₀, hr₀, hsame⟩ | ⟨c, -, message, -, hmessage⟩
    · rw [hsame.message]
      exact hdb.requests r₀ hr₀
    · exact fits_message hmessage
  preferences p hp := by
    rcases (h.social.preferences p hp).stored with hmem | ⟨hwell, -⟩
    · exact hdb.preferences p hmem
    · exact hwell

end Limits

/-- **The limits of the API hold in every reachable state**: the titles, contents,
categories, tags, comments and messages are trimmed, not empty and short enough, whatever
calls are interleaved and fail. -/
theorem reachable_withinLimits {ι : Type} [DecidableEq ι] {env : Env} {text : UserSearch}
    {db : Db} {seq now poolSize : Nat} {faulty : Bool} {calls : ι → Call} {s : Server ι}
    (hdb : Consistent ⟨seq, db⟩) (hlimits : WithinLimits db)
    (h : Reachable (serve poolSize faulty calls) (server env text db seq now calls) s) :
    WithinLimits s.db := by
  obtain ⟨ls, hrun⟩ := h
  exact (accounted_of_run hdb (.refl _) hrun).1.withinLimits hlimits

/-- It is so after 2 has commented on the post of 1. -/
theorem reachable_withinLimits_comment : ∃ s : Server Bool,
    Db.comments s.db = [⟨1, 2, 1, "hi", 0⟩, ⟨2, 1, 2, "hi", 0⟩] ∧ WithinLimits s.db := by
  have hrun : (replay (serve 1 false commentAndDelete)
      (server demoEnv demoText demoDb 0 0 commentAndDelete) (List.replicate 8 (.run false))).map
        (fun s => Db.comments s.db) = some [⟨1, 2, 1, "hi", 0⟩, ⟨2, 1, 2, "hi", 0⟩] := by
    decide +kernel
  obtain ⟨s, hreach, hcomments⟩ := exists_reachable_of_replay _ _ hrun
  have hfits : ∀ {n : Nat} {t : String}, trim t = t → t ≠ "" → charCount t ≤ n → Fits n t :=
    fun h h' h'' => ⟨h, h', h''⟩
  have hlimits : WithinLimits demoDb :=
    { posts := List.forall_mem_cons.mpr ⟨⟨hfits (by decide) (by decide) (by decide),
          hfits (by decide) (by decide) (by decide), hfits (by decide) (by decide) (by decide),
          by decide, by simp⟩,
        List.forall_mem_singleton.mpr ⟨hfits (by decide) (by decide) (by decide),
          hfits (by decide) (by decide) (by decide), hfits (by decide) (by decide) (by decide),
          by decide, by simp⟩⟩
      comments := List.forall_mem_singleton.mpr (hfits (by decide) (by decide) (by decide))
      messages := by simp [demoDb, freshDb]
      requests := by simp [demoDb, freshDb]
      preferences := by simp [demoDb, freshDb] }
  exact ⟨s, hcomments, reachable_withinLimits demoDb_consistent hlimits hreach⟩

end DevbitBackend.Forum
