import DevbitBackend.Account.Model

/-!
# Account.Avatar

`upload_avatar`: the loops over the multipart body, the files below `AVATAR_DIR`
and the column `avatar_url`. What every call to the file system and to the
database comes to is an argument (`Outcomes`), so a failure may fall anywhere.
-/

namespace DevbitBackend.Account

abbrev Bytes := List UInt8

/-- `MAX_AVATAR_SIZE`. -/
def maxAvatarSize : Nat := 2 * 1024 * 1024

/-- `ALLOWED_AVATAR_EXTS`. -/
def allowedAvatarExts : List String := ["png", "jpg", "jpeg", "gif", "webp"]

/-! ### The multipart body -/

/-- How a stream stops to give: with `Ok(None)`, or with an error. -/
inductive Ending
  | finished
  | failed
  deriving DecidableEq, Repr

/-- A field of the body, with the chunks its data comes in. -/
structure Field where
  name : Option String
  fileName : Option String
  chunks : List Bytes
  ending : Ending
  deriving DecidableEq, Repr

structure Multipart where
  fields : List Field
  ending : Ending
  deriving DecidableEq, Repr

/-- The loop over the fields, up to the first one called `avatar`. A field that is
skipped is read to its end first, and an error ends the loop as the end of the body
does. -/
def nextAvatar : List Field → Ending → Option Field
  | [], _ => none
  | field :: rest, ending =>
      if field.name.getD "" ≠ "avatar" then
        match field.ending with
        | .finished => nextAvatar rest ending
        | .failed => none
      else some field

/-- The loop over the chunks. Both endings leave it the same way. -/
def readChunks (data : Bytes) : List Bytes → Ending → Except Nat Bytes
  | [], .finished => .ok data
  | [], .failed => .ok data
  | chunk :: rest, ending =>
      let data := data ++ chunk
      if maxAvatarSize < data.length then .error 413 else readChunks data rest ending

/-- `rsplit('.').next()`: the part after the last dot, or all of it. -/
def afterLastDot (fileName : String) : String :=
  String.ofList (fileName.toList.reverse.takeWhile (· ≠ '.')).reverse

/-- What `upload_avatar` checks of the field: its extension and its data, or the
status of the error. -/
def checkField (toLowercase : String → String) (field : Field) : Except Nat (String × Bytes) :=
  let fileName := field.fileName.getD ""
  if fileName = "" then .error 400 else
  let extension := toLowercase (afterLastDot fileName)
  if extension ∉ allowedAvatarExts then .error 415 else
  match readChunks [] field.chunks field.ending with
  | .error status => .error status
  | .ok data => if data.isEmpty then .error 400 else .ok (extension, data)

/-! ### Files and rows -/

/-- A file below `AVATAR_DIR`. `whole` is history: all the bytes of the upload have
been written. -/
structure AvatarFile where
  content : Bytes
  whole : Bool
  deriving DecidableEq, Repr

/-- The columns of `users` that the account pages read. -/
structure ProfileRow where
  id : Int
  name : String
  email : String
  avatarUrl : Option String
  deriving DecidableEq, Repr

/-- The two stores of an avatar. -/
structure Store where
  files : String → Option AvatarFile
  users : List ProfileRow

/-- `"/api/avatars/"`. -/
def avatarPrefix : String := "/api/avatars/"

/-- The file that a URL names. -/
def fileOf (url : String) : Option String := stripPrefix avatarPrefix url

namespace Store

def row (s : Store) (id : Int) : Option ProfileRow := s.users.find? (·.id == id)

/-- `SELECT avatar_url FROM users WHERE id = $1`, flattened. -/
def avatarUrl (s : Store) (id : Int) : Option String := (s.row id).bind (·.avatarUrl)

/-- `UPDATE users SET avatar_url = $1 WHERE id = $2`. -/
def setAvatarUrl (s : Store) (id : Int) (url : String) : Store :=
  { s with users := s.users.map fun r => if r.id = id then { r with avatarUrl := some url } else r }

/-- The file is there, or is gone, under its name. -/
def setFile (s : Store) (name : String) (file : Option AvatarFile) : Store :=
  { s with files := Function.update s.files name file }

/-- The file of the stored URL. -/
def avatarFile (s : Store) (id : Int) : Option String := (s.avatarUrl id).bind fileOf

end Store

/-! ### The handler -/

/-- `write_all` of a `tokio::fs::File` buffers: it may answer before the bytes are
on the disk, and a failure after that is not reported. -/
structure WriteOutcome where
  ok : Bool
  /-- How many of the bytes reach the file. -/
  written : Nat
  deriving DecidableEq, Repr

inductive UpdateOutcome
  | done
  | failed
  /-- The row is updated, and the connection breaks before the answer. -/
  | unconfirmed
  deriving DecidableEq, Repr

/-- What the calls of `upload_avatar` come to. -/
structure Outcomes where
  createDirAll : Bool
  selectOld : Bool
  removeFile : Bool
  create : Bool
  writeAll : WriteOutcome
  update : UpdateOutcome
  selectRow : Bool
  deriving DecidableEq, Repr

/-- `User`. -/
structure User where
  id : Int
  name : String
  email : String
  avatarUrl : Option String
  isAdmin : Bool
  deriving DecidableEq, Repr

/-- What the handler takes from the rest of the program. -/
structure UploadEnv where
  /-- `str::to_lowercase`. -/
  toLowercase : String → String
  /-- `auth::is_admin_user`. -/
  isAdminUser : Int → Bool

/-- The end of a call. `updated` is history: the `UPDATE` has taken effect. -/
structure Uploaded where
  store : Store
  updated : Bool
  answer : Except Nat User

/-- The old file is removed, if there is one and it can be. -/
def Store.removeOld (s : Store) (o : Outcomes) (userId : Int) : Store :=
  match s.avatarFile userId with
  | some old => if o.removeFile then s.setFile old none else s
  | none => s

/-- The final `SELECT` of `upload_avatar`: the row of the user, whose URL is the answer. -/
def Store.user (s : Store) (env : UploadEnv) (o : Outcomes) (userId : Int) : Except Nat User :=
  if !o.selectRow then .error 500
  else match s.row userId with
    | none => .error 500
    | some row => .ok
        { id := userId, name := row.name, email := row.email, avatarUrl := row.avatarUrl,
          isAdmin := env.isAdminUser userId }

/-- `upload_avatar` from the read of the old URL on. -/
def replaceAvatar (env : UploadEnv) (o : Outcomes) (userId : Int) (filename : String)
    (data : Bytes) (s : Store) : Uploaded :=
  if !o.selectOld then ⟨s, false, .error 500⟩ else
  let s := s.removeOld o userId
  if !o.create then ⟨s, false, .error 500⟩ else
  let s := s.setFile filename
    (some ⟨data.take o.writeAll.written, data.length ≤ o.writeAll.written⟩)
  if !o.writeAll.ok then ⟨s, false, .error 500⟩ else
  let url := avatarPrefix ++ filename
  match o.update with
  | .failed => ⟨s, false, .error 500⟩
  | .unconfirmed => ⟨s.setAvatarUrl userId url, true, .error 500⟩
  | .done => ⟨s.setAvatarUrl userId url, true, (s.setAvatarUrl userId url).user env o userId⟩

/-- `Uuid::new_v4()` with the extension. -/
def avatarName (uuid extension : String) : String := uuid ++ "." ++ extension

/-- `upload_avatar`. `identity` is the user id of a valid token. -/
def uploadAvatar (env : UploadEnv) (o : Outcomes) (identity : Option Int) (uuid : String)
    (body : Multipart) (s : Store) : Uploaded :=
  match identity with
  | none => ⟨s, false, .error 401⟩
  | some userId =>
      if !o.createDirAll then ⟨s, false, .error 500⟩ else
      match nextAvatar body.fields body.ending with
      | none => ⟨s, false, .error 400⟩
      | some field =>
          match checkField env.toLowercase field with
          | .error status => ⟨s, false, .error status⟩
          | .ok (extension, data) =>
              replaceAvatar env o userId (avatarName uuid extension) data s

/-! ### What the checks pass -/

theorem readChunks_eq (chunks : List Bytes) (ending : Ending) {data : Bytes}
    (h : data.length ≤ maxAvatarSize) : readChunks data chunks ending =
      if (data ++ chunks.flatten).length ≤ maxAvatarSize then .ok (data ++ chunks.flatten)
      else .error 413 := by
  induction chunks generalizing data with
  | nil => cases ending <;> simp [readChunks, h]
  | cons chunk rest ih =>
      simp only [readChunks, List.flatten_cons, ← List.append_assoc]
      split
      · rename_i hlarge
        have hmore : maxAvatarSize < (data ++ chunk ++ rest.flatten).length := by
          simp only [List.length_append] at hlarge ⊢
          omega
        rw [if_neg (Nat.not_le.mpr hmore)]
      · rename_i hfits
        exact ih (Nat.not_lt.mp hfits)

/-- The data that passes is all that the stream has given, and of the right length. -/
theorem checkField_ok {toLowercase : String → String} {field : Field} {extension : String}
    {data : Bytes} (h : checkField toLowercase field = .ok (extension, data)) :
    data = field.chunks.flatten ∧ 1 ≤ data.length ∧ data.length ≤ maxAvatarSize := by
  simp only [checkField] at h
  split at h
  · cases h
  split at h
  · cases h
  rw [readChunks_eq field.chunks field.ending (Nat.zero_le _), List.nil_append] at h
  by_cases hlen : field.chunks.flatten.length ≤ maxAvatarSize
  · rw [if_pos hlen] at h
    dsimp only at h
    split at h
    · cases h
    · rename_i hne
      cases h
      refine ⟨rfl, ?_, hlen⟩
      rw [Nat.one_le_iff_ne_zero, Ne, List.length_eq_zero_iff, ← List.isEmpty_iff]
      exact hne
  · rw [if_neg hlen] at h
    cases h

/-! ### What a replacement does -/

/-- The `UPDATE` takes effect: no call before it has failed, and it did not fail either. -/
def Outcomes.applies (o : Outcomes) : Bool :=
  o.selectOld && o.create && o.writeAll.ok && o.update != .failed

/-- The old file is removed: the look-up of the old URL went through, the URL names a
file, and so did the `unlink`. -/
def Outcomes.removes (o : Outcomes) (userId : Int) (s : Store) : Prop :=
  o.selectOld = true ∧ o.removeFile = true ∧
    ∃ old file, s.avatarFile userId = some old ∧ s.files old = some file

/-- The user is there. -/
def Store.HasUser (s : Store) (userId : Int) : Prop := ∃ row ∈ s.users, row.id = userId

/-- The file name is new: no file has it and no row names it. -/
structure Fresh (filename : String) (s : Store) : Prop where
  file : s.files filename = none
  url : ∀ row ∈ s.users, row.avatarUrl ≠ some (avatarPrefix ++ filename)

theorem fileOf_append (filename : String) : fileOf (avatarPrefix ++ filename) = some filename :=
  stripPrefix_append avatarPrefix filename

theorem fileOf_eq_some {url filename : String} (h : fileOf url = some filename) :
    url = avatarPrefix ++ filename :=
  stripPrefix_eq_some h

section Replace

variable {env : UploadEnv} {o : Outcomes} {userId : Int} {filename : String} {data : Bytes}
  {s : Store}

theorem avatarUrl_setAvatarUrl (h : s.HasUser userId) (url : String) :
    (s.setAvatarUrl userId url).avatarUrl userId = some url := by
  obtain ⟨row, hrow, hid⟩ := h
  have hsome : (s.users.find? (·.id == userId)).isSome = true :=
    List.find?_isSome.mpr ⟨row, hrow, beq_iff_eq.mpr hid⟩
  obtain ⟨found, hfound⟩ := Option.isSome_iff_exists.mp hsome
  have hfid : found.id = userId := by simpa using List.find?_some hfound
  have hkeep : ((fun r : ProfileRow => r.id == userId) ∘ fun r : ProfileRow =>
      if r.id = userId then { r with avatarUrl := some url } else r) = fun r => r.id == userId := by
    funext r
    by_cases hr : r.id = userId <;> simp [hr]
  unfold Store.avatarUrl Store.row Store.setAvatarUrl
  rw [List.find?_map, hkeep, hfound]
  simp [hfid]

/-- The store after the old file has been dealt with. -/
def Store.cleaned (s : Store) (o : Outcomes) (userId : Int) : Store :=
  if o.selectOld then s.removeOld o userId else s

theorem users_cleaned : (s.cleaned o userId).users = s.users := by
  unfold Store.cleaned Store.removeOld
  cases o.selectOld
  · rfl
  · cases s.avatarFile userId
    · rfl
    · cases o.removeFile <;> rfl

/-- The file of the stored URL is there after that, if it is not removed. -/
theorem files_cleaned {old : String} (hold : s.avatarFile userId = some old) :
    (s.cleaned o userId).files old =
      if o.selectOld && o.removeFile then none else s.files old := by
  unfold Store.cleaned Store.removeOld
  rw [hold]
  cases o.selectOld
  · rfl
  · cases o.removeFile
    · rfl
    · simp [Store.setFile]

/-- The two ways in which a replacement ends. -/
inductive Replaced (env : UploadEnv) (o : Outcomes) (userId : Int) (filename : String)
    (data : Bytes) (s : Store) : Uploaded → Prop
  /-- The `UPDATE` has not taken effect. -/
  | kept {s' : Store} : o.applies = false → s'.users = s.users →
      (∀ g, g ≠ filename → s'.files g = (s.cleaned o userId).files g) →
        Replaced env o userId filename data s ⟨s', false, .error 500⟩
  /-- It has, and the new file has been created and written before. -/
  | applied {s' : Store} : o.applies = true → s'.users = s.users →
      (∀ g, g ≠ filename → s'.files g = (s.cleaned o userId).files g) →
      s'.files filename =
        some ⟨data.take o.writeAll.written, data.length ≤ o.writeAll.written⟩ →
        Replaced env o userId filename data s
          ⟨s'.setAvatarUrl userId (avatarPrefix ++ filename), true,
            if o.update = .done then
              (s'.setAvatarUrl userId (avatarPrefix ++ filename)).user env o userId
            else .error 500⟩

theorem replaceAvatar_replaced :
    Replaced env o userId filename data s (replaceAvatar env o userId filename data s) := by
  have hother : ∀ {s₁ : Store} {file : Option AvatarFile} (g : String), g ≠ filename →
      (s₁.setFile filename file).files g = s₁.files g := by
    intro s₁ file g hg
    exact Function.update_of_ne hg _ _
  unfold replaceAvatar
  cases hselect : o.selectOld with
  | false =>
      -- the old file cannot be looked up: nothing is touched
      exact .kept (by simp [Outcomes.applies, hselect]) rfl (by simp [Store.cleaned, hselect])
  | true =>
  have hclean : s.cleaned o userId = s.removeOld o userId := by simp [Store.cleaned, hselect]
  have husers : (s.removeOld o userId).users = s.users := hclean ▸ users_cleaned
  simp only [Bool.not_true, Bool.false_eq_true, if_false]
  cases hcreate : o.create with
  | false => exact .kept (by simp [Outcomes.applies, hcreate]) husers fun g _ => by rw [hclean]
  | true =>
  simp only [Bool.not_true, Bool.false_eq_true, if_false]
  cases hwrite : o.writeAll.ok with
  | false =>
      exact .kept (by simp [Outcomes.applies, hwrite]) husers fun g hg => hclean ▸ hother g hg
  | true =>
  simp only [Bool.not_true, Bool.false_eq_true, if_false]
  -- from here on the new file is there, whole or not, and the `UPDATE` decides
  let s' := (s.removeOld o userId).setFile filename
    (some ⟨data.take o.writeAll.written, data.length ≤ o.writeAll.written⟩)
  have hfiles : ∀ g, g ≠ filename → s'.files g = (s.cleaned o userId).files g := by
    intro g hg
    rw [hclean]
    exact hother g hg
  have hnew : s'.files filename = _ := Function.update_self _ _ _
  have happlies : o.update ≠ .failed → o.applies = true := by
    intro hne
    simp [Outcomes.applies, hselect, hcreate, hwrite, hne]
  cases hupdate : o.update with
  | failed => exact .kept (by simp [Outcomes.applies, hupdate]) husers hfiles
  | done =>
      have happlied := @Replaced.applied env o userId filename data s s'
        (happlies (by simp [hupdate])) husers hfiles hnew
      rwa [if_pos hupdate] at happlied
  | unconfirmed =>
      have happlied := @Replaced.applied env o userId filename data s s'
        (happlies (by simp [hupdate])) husers hfiles hnew
      have hnot : o.update ≠ .done := by simp [hupdate]
      rwa [if_neg hnot] at happlied

end Replace

end DevbitBackend.Account
