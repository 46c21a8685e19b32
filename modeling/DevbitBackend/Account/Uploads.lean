import DevbitBackend.Account.Avatar

/-!
# Account.Uploads

Two laws of `upload_avatar` and when they hold. A failed upload keeps the avatar
(`upload_keeps_iff`) unless the old file has been removed before the failure, and an
accepted one is the whole file (`upload_whole_iff`) unless the stream has failed in
the middle of it, which the loop over the chunks takes for the end.
-/

namespace DevbitBackend.Account

/-- The avatar of the user is what it was: the URL and the file it names. -/
structure SameAvatar (userId : Int) (s s' : Store) : Prop where
  url : s'.avatarUrl userId = s.avatarUrl userId
  file : ∀ f, s.avatarFile userId = some f → s'.files f = s.files f

theorem SameAvatar.refl (userId : Int) (s : Store) : SameAvatar userId s s := ⟨rfl, fun _ _ => rfl⟩

/-- The URL of the user, if there is one, names a file, which is there and whole. -/
def Named (userId : Int) (s : Store) : Prop :=
  ∀ url, s.avatarUrl userId = some url →
    ∃ f file, fileOf url = some f ∧ s.files f = some file ∧ file.whole = true

section Replaced

variable {env : UploadEnv} {o : Outcomes} {userId : Int} {filename : String} {data : Bytes}
  {s s' : Store} {r : Uploaded}

theorem avatarUrl_congr (h : s'.users = s.users) : s'.avatarUrl userId = s.avatarUrl userId := by
  simp only [Store.avatarUrl, Store.row, h]

theorem hasUser_congr (h : s'.users = s.users) (hu : s.HasUser userId) : s'.HasUser userId := by
  simpa only [Store.HasUser, h] using hu

/-- A stored URL is that of a row. -/
theorem Fresh.avatarUrl_ne (h : Fresh filename s) :
    s.avatarUrl userId ≠ some (avatarPrefix ++ filename) := by
  intro hurl
  obtain ⟨row, hrow, hnamed⟩ := Option.bind_eq_some_iff.mp hurl
  exact h.url row (List.mem_of_find?_eq_some hrow) hnamed

theorem Fresh.avatarFile_ne (h : Fresh filename s) {f : String}
    (hf : s.avatarFile userId = some f) : f ≠ filename := by
  rintro rfl
  obtain ⟨url, hurl, hfile⟩ := Option.bind_eq_some_iff.mp hf
  rw [fileOf_eq_some hfile] at hurl
  exact h.avatarUrl_ne hurl

/-- The avatar stays what it was if the call neither removes nor replaces it. -/
theorem Replaced.sameAvatar_iff (h : Replaced env o userId filename data s r)
    (hfresh : Fresh filename s) (hu : s.HasUser userId) :
    SameAvatar userId s r.store ↔ ¬ o.removes userId s ∧ o.applies = false := by
  cases h with
  | @kept s' happ husers hfiles =>
      constructor
      -- a removed file is missed: the upload has put nothing in its place
      · intro hsame
        refine ⟨?_, happ⟩
        rintro ⟨hselect, hremove, old, file, hold, hfile⟩
        have hgone := (hfiles old (hfresh.avatarFile_ne hold)).trans (files_cleaned hold)
        rw [hsame.file old hold, hfile] at hgone
        simp [hselect, hremove] at hgone
      · intro ⟨hremoves, _⟩
        refine ⟨avatarUrl_congr husers, fun f hf => ?_⟩
        rw [hfiles f (hfresh.avatarFile_ne hf), files_cleaned hf]
        split
        · rename_i hboth
          rw [Bool.and_eq_true] at hboth
          cases hfile : s.files f with
          | none => rfl
          | some file => exact absurd ⟨hboth.1, hboth.2, f, file, hf, hfile⟩ hremoves
        · rfl
  | @applied s' happ husers hfiles hnew =>
      constructor
      · intro hsame
        have hurl := hsame.url
        rw [avatarUrl_setAvatarUrl (hasUser_congr husers hu)] at hurl
        exact absurd hurl.symm hfresh.avatarUrl_ne
      · rintro ⟨-, hnot⟩
        rw [happ] at hnot
        cases hnot

/-- The URL names a whole file after the call if a removed file is replaced, and by
a whole one. -/
theorem Replaced.named_iff (h : Replaced env o userId filename data s r)
    (hfresh : Fresh filename s) (hu : s.HasUser userId) (hnamed : Named userId s) :
    Named userId r.store ↔ (o.removes userId s → o.applies = true) ∧
      (o.applies = true → data.length ≤ o.writeAll.written) := by
  have hsame_iff := h.sameAvatar_iff hfresh hu
  cases h with
  | @kept s' happ husers hfiles =>
      have hurl : s'.avatarUrl userId = s.avatarUrl userId := avatarUrl_congr husers
      simp only [happ, Bool.false_eq_true, false_imp_iff, and_true, imp_false]
      constructor
      · rintro hnamed' ⟨hselect, hremove, old, file, hold, -⟩
        obtain ⟨url, hold', hfile⟩ := Option.bind_eq_some_iff.mp hold
        obtain ⟨f, file', hf, hthere, -⟩ := hnamed' url (hurl.trans hold')
        obtain rfl : old = f := Option.some.inj (hfile.symm.trans hf)
        rw [hfiles old (hfresh.avatarFile_ne hold), files_cleaned hold, hselect, hremove] at hthere
        cases hthere
      · intro hremoves url hurl'
        obtain ⟨f, file, hf, hthere, hwhole⟩ := hnamed url (hurl ▸ hurl')
        refine ⟨f, file, hf, ?_, hwhole⟩
        have hsame := hsame_iff.mpr ⟨hremoves, happ⟩
        exact (hsame.file f (Option.bind_eq_some_iff.mpr ⟨url, hurl ▸ hurl', hf⟩)).trans hthere
  | @applied s' happ husers hfiles hnew =>
      have hurl := avatarUrl_setAvatarUrl (hasUser_congr husers hu) (avatarPrefix ++ filename)
      simp only [happ, true_imp_iff, imp_true_iff, true_and]
      constructor
      · intro hnamed'
        obtain ⟨f, file, hf, hthere, hwhole⟩ := hnamed' _ hurl
        -- the URL names the new file now
        obtain rfl : filename = f := Option.some.inj ((fileOf_append filename).symm.trans hf)
        obtain rfl := Option.some.inj (hnew.symm.trans hthere)
        exact of_decide_eq_true hwhole
      · intro hlen url hurl'
        obtain rfl := Option.some.inj (hurl.symm.trans hurl')
        exact ⟨filename, _, fileOf_append filename, hnew, decide_eq_true hlen⟩

/-- The final `SELECT` finds the user if it goes through. -/
theorem user_ok_iff {url : String} (hurl : s.avatarUrl userId = some url) :
    (∃ user, s.user env o userId = .ok user) ↔ o.selectRow = true := by
  obtain ⟨row, hrow, -⟩ := Option.bind_eq_some_iff.mp hurl
  cases hselect : o.selectRow <;> simp [Store.user, hselect, hrow]

/-- When a replacement answers with the user. -/
theorem Replaced.answer_ok_iff (h : Replaced env o userId filename data s r)
    (hu : s.HasUser userId) : (∃ user, r.answer = .ok user) ↔
      o.applies = true ∧ o.update = .done ∧ o.selectRow = true := by
  cases h with
  | kept happ => simp [happ]
  | @applied s' happ husers =>
      have hurl := avatarUrl_setAvatarUrl (hasUser_congr husers hu) (avatarPrefix ++ filename)
      by_cases hdone : o.update = .done
      · simpa [happ, hdone] using user_ok_iff hurl
      · simp [hdone]

/-- A call that answers with the user has stored what has been written. -/
theorem Replaced.stored (h : Replaced env o userId filename data s r) (hu : s.HasUser userId)
    (happ : o.applies = true) : r.store.avatarFile userId = some filename ∧
      ∃ file, r.store.files filename = some file ∧
        file.content = data.take o.writeAll.written := by
  cases h with
  | kept hnot =>
      rw [happ] at hnot
      cases hnot
  | @applied s' _ husers _ hnew =>
      have hurl := avatarUrl_setAvatarUrl (hasUser_congr husers hu) (avatarPrefix ++ filename)
      exact ⟨by rw [Store.avatarFile, hurl, Option.bind_some, fileOf_append], _, hnew, rfl⟩

theorem Replaced.updated_eq (h : Replaced env o userId filename data s r) :
    r.updated = o.applies := by
  cases h with
  | kept happ => exact happ.symm
  | applied happ => exact happ.symm

end Replaced

/-! ### The two laws -/

section Upload

variable {env : UploadEnv} {o : Outcomes} {userId : Int} {uuid : String} {body : Multipart}
  {s : Store} {r : Uploaded}

/-- The call of the user gets past the checks, with the data of the field. -/
structure Passes (env : UploadEnv) (o : Outcomes) (body : Multipart) (field : Field)
    (extension : String) (data : Bytes) : Prop where
  dir : o.createDirAll = true
  next : nextAvatar body.fields body.ending = some field
  checked : checkField env.toLowercase field = .ok (extension, data)

/-- A call either changes nothing and answers an error, or gets past the checks. -/
theorem uploadAvatar_cases : ((∀ field extension data, ¬ Passes env o body field extension data) ∧
      ∃ status, uploadAvatar env o (some userId) uuid body s = ⟨s, false, .error status⟩) ∨
    ∃ field extension data, Passes env o body field extension data ∧
      uploadAvatar env o (some userId) uuid body s =
        replaceAvatar env o userId (avatarName uuid extension) data s := by
  unfold uploadAvatar
  cases hdir : o.createDirAll with
  | false => exact .inl ⟨fun _ _ _ hp => by simp [hp.dir] at hdir, 500, rfl⟩
  | true =>
  cases hnext : nextAvatar body.fields body.ending with
  | none => exact .inl ⟨fun _ _ _ hp => by simp [hp.next] at hnext, 400, rfl⟩
  | some field =>
  cases hchecked : checkField env.toLowercase field with
  | error status =>
      refine .inl ⟨fun field' extension data hp => ?_, status, by simp [hchecked]⟩
      obtain rfl : field = field' := Option.some.inj (hnext.symm.trans hp.next)
      simp [hp.checked] at hchecked
  | ok checked =>
      obtain ⟨extension, data⟩ := checked
      exact .inr ⟨field, extension, data, ⟨hdir, hnext, hchecked⟩, by simp [hchecked]⟩

/-- There is one such field at most. -/
theorem Passes.unique {field field' : Field} {extension extension' : String} {data data' : Bytes}
    (h : Passes env o body field extension data) (h' : Passes env o body field' extension' data') :
    field' = field ∧ extension' = extension ∧ data' = data := by
  obtain rfl : field' = field := Option.some.inj (h'.next.symm.trans h.next)
  have heq := Except.ok.inj (h'.checked.symm.trans h.checked)
  exact ⟨rfl, congrArg Prod.fst heq, congrArg Prod.snd heq⟩

/-- **Law of a failed upload**: the URL names a whole file, and if the call answers an
error and the `UPDATE` has not taken effect, the avatar is what it was. -/
structure KeepsAvatar (userId : Int) (s : Store) (r : Uploaded) : Prop where
  named : Named userId r.store
  unchanged : (∃ status, r.answer = .error status) → r.updated = false →
    SameAvatar userId s r.store

/-- **Failed uploads.** Whatever the body and whichever calls to the file system and
the database fail, the upload keeps the avatar exactly when these calls do not fail
between the removal of the old file and the `UPDATE`, and no new file is named that
has not been written to its end. -/
theorem upload_keeps_iff (hfresh : ∀ extension, Fresh (avatarName uuid extension) s)
    (hu : s.HasUser userId) (hnamed : Named userId s) :
    KeepsAvatar userId s (uploadAvatar env o (some userId) uuid body s) ↔
      ∀ field extension data, Passes env o body field extension data →
        (o.removes userId s → o.applies = true) ∧
          (o.applies = true → data.length ≤ o.writeAll.written) := by
  rcases @uploadAvatar_cases env o userId uuid body s with
    ⟨hnone, status, heq⟩ | ⟨field, extension, data, hpass, heq⟩
  · rw [heq]
    exact iff_of_true ⟨hnamed, fun _ _ => .refl userId s⟩ fun _ _ _ hp => absurd hp (hnone _ _ _)
  · rw [heq]
    have hreplaced := @replaceAvatar_replaced env o userId (avatarName uuid extension) data s
    have hiff := hreplaced.named_iff (hfresh extension) hu hnamed
    constructor
    · intro hkeeps field' extension' data' hpass'
      obtain ⟨-, -, rfl⟩ := hpass.unique hpass'
      exact hiff.mp hkeeps.named
    · intro hcond
      have hboth := hcond field extension data hpass
      refine ⟨hiff.mpr hboth, fun _ hupdated => ?_⟩
      have happ : o.applies = false := hreplaced.updated_eq ▸ hupdated
      refine (hreplaced.sameAvatar_iff (hfresh extension) hu).mpr ⟨fun hremoves => ?_, happ⟩
      rw [hboth.1 hremoves] at happ
      cases happ

/-- **Law of an accepted upload**: a success stores exactly the bytes of the field,
which has ended normally, and a stream error or too long a file is refused and
changes nothing. -/
structure WholeUpload (body : Multipart) (userId : Int) (s : Store) (r : Uploaded) : Prop where
  accepted : ∀ user, r.answer = .ok user → ∃ field f file,
    nextAvatar body.fields body.ending = some field ∧ field.ending = .finished ∧
      1 ≤ field.chunks.flatten.length ∧ field.chunks.flatten.length ≤ maxAvatarSize ∧
        r.store.avatarFile userId = some f ∧ r.store.files f = some file ∧
          file.content = field.chunks.flatten
  refused : ∀ field, nextAvatar body.fields body.ending = some field →
    field.ending = .failed ∨ maxAvatarSize < field.chunks.flatten.length →
      (∃ status, r.answer = .error status) ∧ SameAvatar userId s r.store

section Passed

variable {field : Field} {extension : String} {data : Bytes}
  (hpass : Passes env o body field extension data)
  (h : Replaced env o userId (avatarName uuid extension) data s r)
  (hfresh : Fresh (avatarName uuid extension) s) (hu : s.HasUser userId)
include hpass h hfresh hu

/-- A whole upload of a call that gets past the checks. -/
theorem Replaced.of_whole (hwhole : WholeUpload body userId s r) :
    (field.ending = .failed → ¬ o.removes userId s ∧ o.applies = false) ∧
      (field.ending = .finished → o.applies = true → o.update = .done → o.selectRow = true →
        data.length ≤ o.writeAll.written) := by
  have hdata := (checkField_ok hpass.checked).1
  refine ⟨fun hfailed => ?_, fun _ happ hdone hselect => ?_⟩
  · exact (h.sameAvatar_iff hfresh hu).mp (hwhole.refused _ hpass.next (.inl hfailed)).2
  · obtain ⟨user, hans⟩ := (h.answer_ok_iff hu).mpr ⟨happ, hdone, hselect⟩
    obtain ⟨field', f, file, hnext, -, -, -, hf, hfile, hcontent⟩ := hwhole.accepted user hans
    obtain rfl : field = field' := Option.some.inj (hpass.next.symm.trans hnext)
    obtain ⟨hname, file', hfile', hcontent'⟩ := h.stored hu happ
    obtain rfl := Option.some.inj (hname.symm.trans hf)
    obtain rfl := Option.some.inj (hfile.symm.trans hfile')
    have htake : data.take o.writeAll.written = data := by rw [← hcontent', hcontent, hdata]
    have hlen := congrArg List.length htake
    rw [List.length_take] at hlen
    omega

/-- What makes an upload whole: a field that was cut off has left everything as it was, and
one that ended was written to its end. -/
theorem Replaced.whole
    (hcut : field.ending = .failed → ¬ o.removes userId s ∧ o.applies = false)
    (hwritten : field.ending = .finished → o.applies = true → o.update = .done →
      o.selectRow = true → data.length ≤ o.writeAll.written) : WholeUpload body userId s r := by
  obtain ⟨hdata, hmin, hmax⟩ := checkField_ok hpass.checked
  have hok := h.answer_ok_iff hu
  constructor
  · intro user hans
    obtain ⟨happ, hdone, hselect⟩ := hok.mp ⟨user, hans⟩
    obtain ⟨hname, file, hfile, hcontent⟩ := h.stored hu happ
    cases hending : field.ending with
    | failed =>
        have hnot := (hcut hending).2
        rw [happ] at hnot
        cases hnot
    | finished =>
        have hlen := hwritten hending happ hdone hselect
        refine ⟨field, _, file, hpass.next, hending, hdata ▸ hmin, hdata ▸ hmax, hname, hfile, ?_⟩
        rw [hcontent, List.take_of_length_le hlen, hdata]
  · intro field' hnext hbad
    obtain rfl : field = field' := Option.some.inj (hpass.next.symm.trans hnext)
    -- a field that is too large has been refused, so this one was cut off
    have hfailed : field.ending = .failed := by
      refine hbad.resolve_right fun hlarge => ?_
      rw [← hdata] at hlarge
      omega
    have hkept := hcut hfailed
    refine ⟨?_, (h.sameAvatar_iff hfresh hu).mpr hkept⟩
    cases hans : r.answer with
    | error status => exact ⟨status, rfl⟩
    | ok user =>
        have happ := (hok.mp ⟨user, hans⟩).1
        rw [hkept.2] at happ
        cases happ

end Passed

/-- **Accepted uploads.** For every chunking of the field, the law holds exactly when
a field that gets past the checks after a stream error is stopped by some failure
before the avatar changes, and a success has written all bytes. -/
theorem upload_whole_iff (hfresh : ∀ extension, Fresh (avatarName uuid extension) s)
    (hu : s.HasUser userId) :
    WholeUpload body userId s (uploadAvatar env o (some userId) uuid body s) ↔
      ∀ field extension data, Passes env o body field extension data →
        (field.ending = .failed → ¬ o.removes userId s ∧ o.applies = false) ∧
          (field.ending = .finished → o.applies = true → o.update = .done → o.selectRow = true →
            data.length ≤ o.writeAll.written) := by
  rcases @uploadAvatar_cases env o userId uuid body s with
    ⟨hnone, status, heq⟩ | ⟨field, extension, data, hpass, heq⟩
  · rw [heq]
    exact iff_of_true ⟨nofun, fun _ _ _ => ⟨⟨status, rfl⟩, .refl userId s⟩⟩
      fun _ _ _ hp => absurd hp (hnone _ _ _)
  rw [heq]
  have hreplaced := @replaceAvatar_replaced env o userId (avatarName uuid extension) data s
  constructor
  · intro hwhole field' extension' data' hpass'
    obtain ⟨rfl, rfl, rfl⟩ := hpass.unique hpass'
    exact hreplaced.of_whole hpass (hfresh _) hu hwhole
  · intro hcond
    obtain ⟨hcut, hwritten⟩ := hcond field extension data hpass
    exact hreplaced.whole hpass (hfresh extension) hu hcut hwritten

end Upload

/-! 1 has an avatar and uploads another one. -/

def uploadEnv : UploadEnv where
  toLowercase := id
  isAdminUser _ := false

def oldFile : AvatarFile := ⟨[7], true⟩

def uploadStore : Store where
  files f := if f = "old.png" then some oldFile else none
  users := [⟨1, "Ada", "ada@example.com", some "/api/avatars/old.png"⟩]

def uploadField (ending : Ending) : Field := ⟨some "avatar", some "me.png", [[1, 2], [3]], ending⟩

def uploadBody (ending : Ending) : Multipart := ⟨[uploadField ending], .finished⟩

def allDone : Outcomes := ⟨true, true, true, true, ⟨true, maxAvatarSize⟩, .done, true⟩

theorem uploadStore_fresh (extension : String) :
    Fresh (avatarName "new" extension) uploadStore where
  file := by
    have hne : avatarName "new" extension ≠ "old.png" := by
      intro h
      have hchars := congrArg String.toList h
      simp [avatarName] at hchars
    simp [uploadStore, hne]
  url row hrow hurl := by
    obtain rfl := List.mem_singleton.mp hrow
    have hchars := congrArg String.toList (Option.some.inj hurl)
    simp [avatarName, avatarPrefix] at hchars

theorem uploadStore_hasUser : uploadStore.HasUser 1 := ⟨_, List.mem_singleton.mpr rfl, rfl⟩

theorem uploadStore_named : Named 1 uploadStore := by
  intro url hurl
  obtain rfl : "/api/avatars/old.png" = url := Option.some.inj hurl
  exact ⟨"old.png", oldFile, by decide, rfl, rfl⟩

theorem upload_keeps_iff_demo : KeepsAvatar 1 uploadStore
    (uploadAvatar uploadEnv allDone (some 1) "new" (uploadBody .finished) uploadStore) := by
  refine (upload_keeps_iff uploadStore_fresh uploadStore_hasUser uploadStore_named).mpr ?_
  intro field extension data hpass
  exact ⟨fun _ => rfl, fun _ => (checkField_ok hpass.checked).2.2⟩

/-- The new file cannot be created after the old one has been removed. -/
theorem upload_loses_avatar : ¬ ∀ o : Outcomes, KeepsAvatar 1 uploadStore
    (uploadAvatar uploadEnv o (some 1) "new" (uploadBody .finished) uploadStore) := by
  intro hclaim
  have hkeeps := hclaim { allDone with create := false }
  obtain ⟨f, file, hf, hfile, -⟩ := hkeeps.named "/api/avatars/old.png" (by rfl)
  obtain rfl : "old.png" = f := Option.some.inj ((by decide : _ = some "old.png").symm.trans hf)
  cases hfile

theorem upload_whole_iff_demo : WholeUpload (uploadBody .finished) 1 uploadStore
    (uploadAvatar uploadEnv allDone (some 1) "new" (uploadBody .finished) uploadStore) := by
  refine (upload_whole_iff uploadStore_fresh uploadStore_hasUser).mpr ?_
  intro field extension data hpass
  refine ⟨fun hfailed => ?_, fun _ _ _ _ => (checkField_ok hpass.checked).2.2⟩
  obtain rfl : uploadField .finished = field := Option.some.inj hpass.next
  cases hfailed

/-- The stream breaks off after three bytes. -/
theorem upload_cut_accepted : ¬ ∀ ending : Ending, WholeUpload (uploadBody ending) 1 uploadStore
    (uploadAvatar uploadEnv allDone (some 1) "new" (uploadBody ending) uploadStore) := by
  intro hclaim
  have hwhole := hclaim .failed
  obtain ⟨⟨status, hans⟩, -⟩ := hwhole.refused (uploadField .failed) rfl (.inl rfl)
  cases hans

end DevbitBackend.Account
