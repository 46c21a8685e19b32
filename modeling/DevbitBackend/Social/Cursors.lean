import DevbitBackend.Social.Profiles
import DevbitBackend.Forum.Access

/-!
# Social.Cursors

Cursors as clients send them. `decode_time_cursor` and `decode_offset_cursor` check
the shape of a cursor, and its fields go to the database as they are. The five list
endpoints with such cursors, among them `list_requests`, and which texts they
refuse in another way than with 400 (`cursor_answers_iff`).
-/

namespace DevbitBackend.Social

open Forum (UserSearch ForumPost)

/-! ### Texts of cursors -/

/-- Base64 and JSON of the cursors, from other crates. The time of a decoded cursor
is given in microseconds, as it is bound. -/
structure CursorCodec where
  encodeTime : TimeCursor → String
  decodeTime : String → Option TimeCursor
  encodeOffset : Int → String
  decodeOffset : String → Option Int

/-- The cursor of a request, if it is not blank. -/
def cursorText (raw : Option String) : Option String :=
  (raw.filter fun value => trim value != "").map trim

/-- `decode_time_cursor`: no cursor is the first page, and one that does not decode is
`BAD_CURSOR`. -/
def decodeTimeCursor (codec : CursorCodec) (raw : Option String) :
    Except SocialError (Option TimeCursor) :=
  match cursorText raw with
  | none => .ok none
  | some text =>
      match codec.decodeTime text with
      | none => .error .badCursor
      | some cursor => .ok (some cursor)

/-- `decode_offset_cursor`: the same for offsets, of which those above 100000 are refused
too. -/
def decodeOffsetCursor (codec : CursorCodec) (raw : Option String) : Except SocialError Nat :=
  match cursorText raw with
  | none => .ok 0
  | some text =>
      match codec.decodeOffset text with
      | none => .error .badCursor
      | some offset =>
          if 0 ≤ offset ∧ offset ≤ 100000 then .ok offset.toNat else .error .badCursor

/-! ### `list_requests` -/

inductive Direction
  | incoming
  | outgoing
  deriving DecidableEq, Repr

/-- The `direction` of `list_requests`. -/
def checkDirection (direction : Option String) : Except SocialError Direction :=
  match direction.getD "incoming" with
  | "incoming" => .ok .incoming
  | "outgoing" => .ok .outgoing
  | _ => .error (.validation "direction" "direction 必须是 incoming 或 outgoing")

/-- The `status` of `list_requests`. -/
def checkStatus (status : Option String) : Except SocialError RequestStatus :=
  match status.getD "pending" with
  | "pending" => .ok .pending
  | "accepted" => .ok .accepted
  | "rejected" => .ok .rejected
  | "cancelled" => .ok .cancelled
  | _ => .error (.validation "status" "status 取值不合法")

/-- The rows of the `list_requests` query, before the paging. -/
def Db.requestRows (db : Db) (viewer : UserId) (direction : Direction) (status : RequestStatus) :
    List (RequestRow × UserRow × UserRow) :=
  (db.requests.filter fun r => r.status == status &&
    match direction with
    | .incoming => r.recipient == viewer
    | .outgoing => r.sender == viewer).flatMap fun r =>
  (db.users.filter (·.id == r.sender)).flatMap fun s =>
    (db.users.filter (·.id == r.recipient)).map fun t => (r, s, t)

/-- The key of a row: `created_at` and the id of the request. -/
def requestKey (row : RequestRow × UserRow × UserRow) : TimeCursor := ⟨row.1.createdAt, row.1.id⟩

/-- `social_friend_requests.id` is a `BIGINT`, and is cast and read as one. -/
def requestIdUse : IdUse := ⟨.bigint, .bigint, .bigint⟩

/-- `list_requests`, for a cursor that decodes and checked filters. -/
def listRequests (env : Env) (db : Db) (viewer : UserId) (direction : Direction)
    (status : RequestStatus) (cursor : Option TimeCursor) (limit : Option Nat) :
    Except Failed (Page FriendRequest) :=
  keysetPage requestIdUse requestKey cursor (pageLimit limit) (friendRequestFromRow env)
    (db.requestRows viewer direction status)

/-! ### The endpoints -/

/-- A page as it is sent. -/
structure SentPage (α : Type) where
  items : List α
  nextCursor : Option String
  deriving DecidableEq, Repr

/-- A check of the handler: its error is the answer. -/
def orRefuse {α β : Type} (checked : Except SocialError α) (k : α → Except Failed β) :
    Except Failed β :=
  match checked with
  | .error e => .error (.error e)
  | .ok a => k a

theorem orRefuse_eq_ok {α β : Type} {checked : Except SocialError α} {k : α → Except Failed β}
    {b : β} (h : orRefuse checked k = .ok b) : ∃ a, checked = .ok a ∧ k a = .ok b := by
  cases checked with
  | error e => cases h
  | ok a => exact ⟨a, rfl, h⟩

def Page.send {α : Type} (codec : CursorCodec) (page : Page α) : SentPage α :=
  ⟨page.items, page.nextCursor.map codec.encodeTime⟩

/-- A list with a time cursor. -/
def sendList {α : Type} (codec : CursorCodec) (cursor : Option String)
    (list : Option TimeCursor → Except Failed (Page α)) : Except Failed (SentPage α) :=
  orRefuse (decodeTimeCursor codec cursor) fun cursor => (list cursor).map (Page.send codec)

namespace Endpoint

variable (codec : CursorCodec) (env : Env) (text : UserSearch) (db : Db) (viewer : UserId)

/-- `search_users`. -/
def searchUsers (q cursor : Option String) (limit : Option Nat) :
    Except Failed (SentPage SocialUser) :=
  orRefuse (validateQuery q) fun _ =>
  orRefuse (decodeOffsetCursor codec cursor) fun offset =>
  orRefuse (Social.searchUsers env text db viewer q offset limit) fun page =>
    .ok ⟨page.items, page.nextOffset.map fun (offset : Nat) => codec.encodeOffset offset⟩

/-- `list_friends`. -/
def listFriends (q cursor : Option String) (limit : Option Nat) :
    Except Failed (SentPage Friendship) :=
  orRefuse (validateQuery q) fun _ =>
  sendList codec cursor fun cursor =>
    Social.listFriends env text.toTextSearch db viewer q cursor limit

/-- `list_requests`. -/
def listRequests (direction status cursor : Option String) (limit : Option Nat) :
    Except Failed (SentPage FriendRequest) :=
  orRefuse (checkDirection direction) fun direction =>
  orRefuse (checkStatus status) fun status =>
  sendList codec cursor fun cursor =>
    Social.listRequests env db viewer direction status cursor limit

/-- `list_blocks`. -/
def listBlocks (cursor : Option String) (limit : Option Nat) :
    Except Failed (SentPage SocialUser) :=
  sendList codec cursor fun cursor => Social.listBlocks env db viewer cursor limit

/-- `friend_feed`. -/
def friendFeed (db : Forum.Db) (cursor : Option String) (limit : Option Nat) :
    Except Failed (SentPage ForumPost) :=
  sendList codec cursor fun cursor => Social.friendFeed env db viewer cursor limit

end Endpoint

/-! ### The errors of the checks -/

section Errors

variable {codec : CursorCodec} {raw q direction status : Option String} {e : SocialError}

theorem decodeTimeCursor_error (h : decodeTimeCursor codec raw = .error e) : e = .badCursor := by
  unfold decodeTimeCursor at h
  split at h
  · cases h
  split at h
  · exact (Except.error.inj h).symm
  · cases h

theorem decodeOffsetCursor_error (h : decodeOffsetCursor codec raw = .error e) :
    e = .badCursor := by
  unfold decodeOffsetCursor at h
  split at h
  · cases h
  split at h
  · exact (Except.error.inj h).symm
  split at h
  · cases h
  · exact (Except.error.inj h).symm

theorem validateQuery_error (h : validateQuery q = .error e) :
    ∃ message, e = .validation "q" message := by
  simp only [validateQuery] at h
  split at h
  · exact ⟨_, (Except.error.inj h).symm⟩
  · cases h

theorem checkDirection_error (h : checkDirection direction = .error e) :
    ∃ message, e = .validation "direction" message := by
  unfold checkDirection at h
  split at h
  · cases h
  · cases h
  · exact ⟨_, (Except.error.inj h).symm⟩

theorem checkStatus_error (h : checkStatus status = .error e) :
    ∃ message, e = .validation "status" message := by
  unfold checkStatus at h
  split at h
  iterate 4 · cases h
  exact ⟨_, (Except.error.inj h).symm⟩

/-- Apart from the check of the term, the search fails at a NUL only. -/
theorem searchUsers_error {env : Env} {text : UserSearch} {db : Db} {viewer : UserId}
    {offset : Nat} {limit : Option Nat}
    (h : Social.searchUsers env text db viewer q offset limit = .error e) :
    validateQuery q = .error e ∨ e = .internal := by
  unfold Social.searchUsers at h
  split at h
  · rename_i hquery
    cases h
    exact .inl hquery
  dsimp only at h
  split at h
  · cases h
  split at h
  · exact .inr (Except.error.inj h).symm
  · cases h

end Errors

/-! ### What a cursor may lead to -/

/-- The answer is a page or 400 `BAD_CURSOR`. -/
def PageOrBadCursor {α : Type} (answer : Except Failed (SentPage α)) : Prop :=
  (∃ page, answer = .ok page) ∨ answer = .error (.error .badCursor)

/-- How many rows come after the cursor. -/
def countBelow {α : Type} (key : α → TimeCursor) (cursor : Option TimeCursor) (rows : List α) :
    Nat :=
  rows.countP fun r => below cursor (key r).createdAt (key r).id

section Answers

variable {α β : Type} {codec : CursorCodec} {use : IdUse} {key : α → TimeCursor}
  {cursor : Option TimeCursor} {limit : Nat} {rows : List α} {item : α → β}

theorem keysetRows_ok_iff : (∃ page, keysetRows use key cursor limit rows = .ok page) ↔
    bindable use cursor = true ∧ (use.read = use.column ∨ countBelow key cursor rows ≤ limit) := by
  have hmore : ∀ sorted : List α, sorted.length = countBelow key cursor rows →
      (limit < (sorted.take (limit + 1)).length ↔ ¬ countBelow key cursor rows ≤ limit) := by
    intro sorted hlen
    rw [List.length_take, hlen]
    omega
  unfold keysetRows
  cases hbind : bindable use cursor with
  | false => simp
  | true =>
      simp only [Bool.not_true, Bool.false_eq_true, if_false, true_and]
      rw [if_congr (hmore _ (by rw [List.length_mergeSort, ← List.countP_eq_length_filter]; rfl))
        rfl rfl]
      by_cases hread : use.read = use.column <;>
        by_cases hfits : countBelow key cursor rows ≤ limit <;> simp [hread, hfits]

/-- The keyset query never answers `BAD_CURSOR` itself. -/
theorem keysetRows_ne_badCursor :
    keysetRows use key cursor limit rows ≠ .error (.error .badCursor) := by
  unfold keysetRows
  split
  · exact nofun
  dsimp only
  split
  · split <;> exact nofun
  · exact nofun

theorem keysetPage_ok_iff : (∃ page, keysetPage use key cursor limit item rows = .ok page) ↔
    bindable use cursor = true ∧ (use.read = use.column ∨ countBelow key cursor rows ≤ limit) := by
  rw [← keysetRows_ok_iff, keysetPage]
  cases keysetRows use key cursor limit rows <;> simp [Except.map]

theorem keysetPage_ne_badCursor :
    keysetPage use key cursor limit item rows ≠ .error (.error .badCursor) := by
  rw [keysetPage, ne_eq, map_eq_error_iff]
  exact keysetRows_ne_badCursor

/-- A list with a time cursor answers as it should exactly when its query gives a page
for the decoded cursor. -/
theorem sendList_answers_iff {raw : Option String}
    {list : Option TimeCursor → Except Failed (Page β)} {P : Option TimeCursor → Prop}
    (hok : ∀ c, (∃ page, list c = .ok page) ↔ P c)
    (hne : ∀ c, list c ≠ .error (.error .badCursor)) :
    PageOrBadCursor (sendList codec raw list) ↔ ∀ c, decodeTimeCursor codec raw = .ok c → P c := by
  unfold sendList
  cases hdecode : decodeTimeCursor codec raw with
  | error e =>
      obtain rfl := decodeTimeCursor_error hdecode
      exact iff_of_true (.inr rfl) nofun
  | ok c =>
      simp only [orRefuse, Except.ok.injEq, forall_eq']
      rw [← hok c, PageOrBadCursor, map_eq_error_iff, or_iff_left (hne c)]
      constructor
      · rintro ⟨page, hpage⟩
        obtain ⟨found, hfound, -⟩ := map_eq_ok hpage
        exact ⟨found, hfound⟩
      · rintro ⟨found, hfound⟩
        exact ⟨_, by rw [hfound]; rfl⟩

end Answers

/-- The time of the cursor, if there is one, is a `timestamptz`. -/
def TimeFits (cursor : Option TimeCursor) : Prop :=
  ∀ c, cursor = some c → (castTimestamp c.createdAt).isSome = true

/-- The id of the cursor, if there is one, is an `int`. -/
def IdFits (cursor : Option TimeCursor) : Prop :=
  ∀ c, cursor = some c → (castInt c.id).isSome = true

theorem bindable_userIdUse {cursor : Option TimeCursor} :
    bindable userIdUse cursor = true ↔ TimeFits cursor ∧ IdFits cursor := by
  cases cursor <;> simp [bindable, userIdUse, TimeFits, IdFits]

theorem bindable_requestIdUse {cursor : Option TimeCursor} :
    bindable requestIdUse cursor = true ↔ TimeFits cursor := by
  cases cursor <;> simp [bindable, requestIdUse, TimeFits]

/-- A clamped id always fits. -/
theorem bindable_clampId {cursor : Option TimeCursor} :
    bindable postIdUse (clampId cursor) = true ↔ TimeFits cursor := by
  cases cursor with
  | none => simp [bindable, clampId, TimeFits]
  | some c =>
      have hclamped : (castInt ((castInt c.id).getD 0)).isSome = true := by
        unfold castInt
        split
        · rename_i h
          simp [h]
        · rfl
      simp [bindable, clampId, postIdUse, TimeFits, hclamped]

section Endpoints

variable {codec : CursorCodec} {env : Env} {text : UserSearch} {viewer : UserId}
  {q direction status : Option String} {term : String} {d : Direction} {st : RequestStatus}

theorem searchUsers_answers {db : Db} (hq : validateQuery q = .ok term)
    (hterm : storable (text.toLowercase term) = true) (raw : Option String) (limit : Option Nat) :
    PageOrBadCursor (Endpoint.searchUsers codec env text db viewer q raw limit) := by
  unfold Endpoint.searchUsers
  rw [hq]
  simp only [orRefuse]
  cases hdecode : decodeOffsetCursor codec raw with
  | error e =>
      obtain rfl := decodeOffsetCursor_error hdecode
      exact .inr rfl
  | ok offset =>
      have hfound : ∃ page, Social.searchUsers env text db viewer q offset limit = .ok page := by
        unfold Social.searchUsers
        rw [hq]
        simp only [hterm, Bool.not_true, Bool.false_eq_true, if_false]
        split <;> exact ⟨_, rfl⟩
      obtain ⟨page, hpage⟩ := hfound
      simp only [hpage]
      exact .inl ⟨_, rfl⟩

/-- `list_friends` for a pattern that the database accepts. -/
theorem listFriends_eq {env : Env} {text : TextSearch} {db : Db} {viewer : UserId}
    (hq : validateQuery q = .ok term) (hpattern : storable (namePattern text term) = true)
    (cursor : Option TimeCursor) (limit : Option Nat) :
    Social.listFriends env text db viewer q cursor limit =
      keysetPage userIdUse FriendRow.key cursor (pageLimit limit) (FriendRow.friendship env)
        (db.friendMatches text viewer term) := by
  simp only [Social.listFriends, hq, hpattern, Bool.not_true, Bool.false_eq_true, if_false]

/-- Escaping neither adds nor removes a NUL. -/
@[simp] theorem storable_escapeLikePattern (term : String) :
    storable (escapeLikePattern term) = storable term := by
  unfold storable
  rw [escapeLikePattern, String.toList_ofList, List.all_flatMap]
  congr 1
  funext c
  split <;> simp

theorem storable_namePattern {text : TextSearch}
    (h : storable (text.toLowercase term) = true) : storable (namePattern text term) = true := by
  unfold namePattern
  split
  · rfl
  · have hpercent : storable "%" = true := rfl
    simp [hpercent, h]

/-- **Answers to cursors.** Whatever text a client sends as the cursor, with a search term
that has no NUL, and whatever the tables hold, the search answers a page or `BAD_CURSOR`.
The other lists do so exactly when the time of a cursor that decodes is a `timestamptz`;
`list_friends` and `list_blocks` exactly when its id is an `int` too and no more rows are
left than the page holds. -/
theorem cursor_answers_iff (db : Forum.Db) (hq : validateQuery q = .ok term)
    (hterm : storable (text.toLowercase term) = true)
    (hd : checkDirection direction = .ok d) (hst : checkStatus status = .ok st)
    (raw : Option String) (limit : Option Nat) :
    PageOrBadCursor (Endpoint.searchUsers codec env text db.social viewer q raw limit) ∧
    (PageOrBadCursor (Endpoint.listFriends codec env text db.social viewer q raw limit) ↔
      ∀ c, decodeTimeCursor codec raw = .ok c → TimeFits c ∧ IdFits c ∧
        countBelow FriendRow.key c (db.social.friendMatches text.toTextSearch viewer term) ≤
          pageLimit limit) ∧
    (PageOrBadCursor
        (Endpoint.listRequests codec env db.social viewer direction status raw limit) ↔
      ∀ c, decodeTimeCursor codec raw = .ok c → TimeFits c) ∧
    (PageOrBadCursor (Endpoint.listBlocks codec env db.social viewer raw limit) ↔
      ∀ c, decodeTimeCursor codec raw = .ok c → TimeFits c ∧ IdFits c ∧
        countBelow blockKey c (db.social.blockRows viewer) ≤ pageLimit limit) ∧
    (PageOrBadCursor (Endpoint.friendFeed codec env viewer db raw limit) ↔
      ∀ c, decodeTimeCursor codec raw = .ok c → TimeFits c) := by
  -- `INT` columns read as `i64`: this fails as soon as a cursor is to be sent
  have hread : userIdUse.read ≠ userIdUse.column := nofun
  refine ⟨searchUsers_answers hq hterm raw limit, ?_, ?_, ?_, ?_⟩
  · rw [Endpoint.listFriends, hq]
    refine sendList_answers_iff (fun c => ?_) fun c => ?_
    · rw [listFriends_eq hq (storable_namePattern hterm), keysetPage_ok_iff, bindable_userIdUse]
      simp only [hread, false_or, and_assoc]
    · rw [listFriends_eq hq (storable_namePattern hterm)]
      exact keysetPage_ne_badCursor
  · rw [Endpoint.listRequests, hd, hst]
    refine sendList_answers_iff (fun c => ?_) fun c => keysetPage_ne_badCursor
    simp only [Social.listRequests, keysetPage_ok_iff, bindable_requestIdUse]
    exact and_iff_left (.inl rfl)
  · refine sendList_answers_iff (fun c => ?_) fun c => keysetPage_ne_badCursor
    simp only [Social.listBlocks, keysetPage_ok_iff, bindable_userIdUse, hread, false_or, and_assoc]
  · refine sendList_answers_iff (fun c => ?_) fun c => keysetPage_ne_badCursor
    simp only [Social.friendFeed, keysetPage_ok_iff, bindable_clampId]
    exact and_iff_left (.inl rfl)

end Endpoints

/-! A client sends `{"at":"1970-01-01T00:00:00Z","id":3000000000}`. -/

def hugeId : String := "eyJhdCI6IjE5NzAtMDEtMDFUMDA6MDA6MDBaIiwiaWQiOjMwMDAwMDAwMDB9"

def hugeCodec : CursorCodec where
  encodeTime _ := hugeId
  decodeTime value := if value = hugeId then some ⟨0, 3000000000⟩ else none
  encodeOffset _ := ""
  decodeOffset _ := none

def hugeDb : Forum.Db := { Forum.demoDb with social := shownDb }

/-- The feed shows its first page below that key. -/
theorem cursor_answers_iff_feed :
    PageOrBadCursor (Endpoint.friendFeed hugeCodec demoEnv 1 hugeDb (some hugeId) none) := by
  have hall := @cursor_answers_iff hugeCodec demoEnv Forum.demoText 1 none none none "" .incoming
    .pending hugeDb rfl rfl rfl rfl (some hugeId) none
  refine hall.2.2.2.2.mpr fun c hc => ?_
  have hdecode : decodeTimeCursor hugeCodec (some hugeId) = .ok (some ⟨0, 3000000000⟩) := by rfl
  obtain rfl := Except.ok.inj (hdecode.symm.trans hc)
  intro t ht
  obtain rfl := Option.some.inj ht
  decide

/-- The friend list answers `INTERNAL_ERROR`. -/
theorem cursor_breaks_friends : ¬ ∀ raw : Option String,
    PageOrBadCursor
      (Endpoint.listFriends hugeCodec demoEnv Forum.demoText shownDb 1 none raw none) := by
  intro hclaim
  have hinternal : Endpoint.listFriends hugeCodec demoEnv Forum.demoText shownDb 1 none
      (some hugeId) none = .error (.error .internal) := by
    rfl
  rcases hclaim (some hugeId) with ⟨page, h⟩ | h
  · rw [hinternal] at h
    cases h
  · rw [hinternal] at h
    exact absurd h (by decide)

end DevbitBackend.Social
