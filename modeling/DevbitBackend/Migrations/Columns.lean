import DevbitBackend.Forum.Model
import DevbitBackend.Account.Model

/-!
# Migrations.Columns

The text columns of the migrations that hold what a request brings, and the checks of
the handlers over them. A text column takes any characters up to the bound of its
`VARCHAR`, but for NUL. The checks agree with the bounds, and only `validate_name` looks
at the characters.
-/

namespace DevbitBackend

open Social Forum Account

/-! ### Columns -/

inductive ColumnType
  | text
  | varchar (n : Nat)
  | textArray
  deriving DecidableEq, Repr

/-- A value that is bound for a text column. -/
inductive Value
  | text (s : String)
  | array (ss : List String)
  deriving DecidableEq, Repr

/-- A text column. None of those below has a `CHECK` of its own. -/
structure Column where
  type : ColumnType
  notNull : Bool
  deriving DecidableEq, Repr

/-- The value is of the type. -/
def ColumnType.accepts : ColumnType → Value → Bool
  | .text, .text s => storable s
  | .varchar n, .text s => storable s && charCount s ≤ n
  | .textArray, .array ss => ss.all storable
  | _, _ => false

/-- The constraints of the column hold of the value; `none` is NULL. -/
def Column.accepts (c : Column) : Option Value → Bool
  | none => !c.notNull
  | some v => c.type.accepts v

/-- `users.name` -/
def userName : Column := ⟨.text, true⟩

/-- `forum_posts.title` -/
def postTitle : Column := ⟨.text, true⟩

/-- `forum_posts.content` -/
def postContent : Column := ⟨.text, true⟩

/-- `forum_posts.category` -/
def postCategory : Column := ⟨.varchar 32, true⟩

/-- `forum_posts.tags` -/
def postTags : Column := ⟨.textArray, true⟩

/-- `forum_comments.content` -/
def commentContent : Column := ⟨.text, true⟩

/-- `forum_messages.content` -/
def messageContent : Column := ⟨.text, true⟩

/-- `social_friend_requests.message` -/
def requestMessage : Column := ⟨.varchar 200, true⟩

/-- The columns that a statement binds texts for, with the texts. -/
abbrev Bindings := List (Column × Option Value)

/-- Every bound text satisfies the constraints of its column. -/
def Bindings.fit (bs : Bindings) : Prop := ∀ b ∈ bs, b.1.accepts b.2 = true

/-! ### Payloads -/

/-- What the body of a request brings to be stored. -/
inductive Payload
  | createPost (p : CreatePostRequest)
  | modifyPost (content : String)
  | createComment (content : String)
  | sendMessage (content : String)
  | createRequest (message : Option String)
  | createUser (name : String)
  deriving DecidableEq, Repr

/-- The checks of the handler accept it. -/
def Payload.accepted : Payload → Bool
  | .createPost p =>
      (validateContent p.title maxPostTitleChars).isSome &&
        (validateContent p.content maxPostContentChars).isSome &&
        (checkCategory p.category).isSome && (checkTags p.tags).isSome
  | .modifyPost content => (validateContent content maxPostContentChars).isSome
  | .createComment content => (validateContent content maxCommentChars).isSome
  | .sendMessage content => (validateContent content maxMessageChars).isSome
  | .createRequest message =>
      (validateOptionalMessage message maxFriendRequestMessageChars).isOk
  | .createUser name => (validateName name).isOk

/-- None of its texts contains NUL. -/
def Payload.clean : Payload → Bool
  | .createPost p =>
      storable p.title && storable p.content && p.category.all storable &&
        (p.tags.getD []).all storable
  | .modifyPost content | .createComment content | .sendMessage content => storable content
  | .createRequest message => message.all storable
  | .createUser name => storable name

/-! ### The checks -/

/-- NUL is not white space. -/
theorem storable_trim (s : String) : storable (trim s) = storable s := by
  obtain ⟨left, right, hs, hleft, hright⟩ := exists_trimList isWhitespace s.toList
  have hspace : ∀ {c : Char}, isWhitespace c = true → (c.val != 0) = true := by
    intro c hc
    refine bne_iff_ne.mpr fun h => ?_
    simp [isWhitespace, h] at hc
  have hall : ∀ {cs : List Char}, (∀ c ∈ cs, isWhitespace c = true) →
      (cs.all fun c => c.val != 0) = true := fun h =>
    List.all_eq_true.mpr fun c hc => hspace (h c hc)
  have hsides : (s.toList.all fun c => c.val != 0) =
      ((trimList isWhitespace s.toList).all fun c => c.val != 0) := by
    rw [congrArg (List.all · fun c => c.val != 0) hs, List.all_append, List.all_append,
      hall hleft, hall hright, Bool.true_and, Bool.and_true]
  rw [storable, trim, String.toList_ofList, storable, hsides]

theorem validateContent_eq {value text : String} {n : Nat}
    (h : validateContent value n = some text) : text = trim value := by
  simp only [validateContent] at h
  split at h
  · cases h
  · exact (Option.some.inj h).symm

theorem checkCategory_spec {category : Option String} {text : String}
    (h : checkCategory category = some text) :
    text = trim (category.getD "general") ∧ charCount text ≤ 32 := by
  simp only [checkCategory] at h
  split at h
  · cases h
  · rename_i hfit
    obtain rfl := Option.some.inj h
    exact ⟨rfl, Nat.le_of_not_lt fun hlong => hfit (.inr hlong)⟩

theorem checkTags_eq {tags : Option (List String)} {texts : List String}
    (h : checkTags tags = some texts) :
    texts = ((tags.getD []).map trim).filter fun tag => !tag.toList.isEmpty := by
  simp only [checkTags] at h
  split at h
  · cases h
  · exact (Option.some.inj h).symm

theorem validateOptionalMessage_eq {message : Option String} {n : Nat} {text : String}
    (h : validateOptionalMessage message n = .ok text) : text = trim (message.getD "") := by
  simp only [validateOptionalMessage] at h
  split at h
  · cases h
  · exact (Except.ok.inj h).symm

/-- A control character is refused, so an accepted name is stored. -/
theorem storable_of_validateName {value name : String} (h : validateName value = .ok name) :
    name = trim value ∧ storable name = true := by
  simp only [validateName] at h
  split at h
  · cases h
  · rename_i hname
    obtain rfl := Except.ok.inj h
    refine ⟨rfl, List.all_eq_true.mpr fun c hc => bne_iff_ne.mpr fun hnul => hname ?_⟩
    exact .inr (.inr (List.any_eq_true.mpr ⟨c, hc, by simp [isControl, hnul]⟩))

theorem storable_content {value text : String} {n : Nat}
    (h : validateContent value n = some text) : storable text = storable value := by
  rw [validateContent_eq h, storable_trim]

theorem storable_category {category : Option String} {text : String}
    (h : checkCategory category = some text) : storable text = category.all storable := by
  rw [(checkCategory_spec h).1, storable_trim]
  cases category with
  | none => decide
  | some s => rfl

/-- The tags that are left out are blank. -/
theorem storable_tags {tags : Option (List String)} {texts : List String}
    (h : checkTags tags = some texts) : texts.all storable = (tags.getD []).all storable := by
  rw [checkTags_eq h]
  induction tags.getD [] with
  | nil => rfl
  | cons tag tags ih =>
      rw [List.map_cons, List.all_cons, ← ih, ← storable_trim tag]
      cases hblank : (trim tag).toList.isEmpty with
      | true =>
          have hempty : storable (trim tag) = true := by
            rw [storable, List.isEmpty_iff.mp hblank]
            rfl
          rw [List.filter_cons_of_neg (by simp [hblank]), hempty, Bool.true_and]
      | false => rw [List.filter_cons_of_pos (by simp [hblank]), List.all_cons]

theorem storable_message {message : Option String} {n : Nat} {text : String}
    (h : validateOptionalMessage message n = .ok text) :
    storable text = message.all storable := by
  rw [validateOptionalMessage_eq h, storable_trim]
  cases message with
  | none => decide
  | some s => rfl

end DevbitBackend
