import Mathlib.Logic.Equiv.List
import DevbitBackend.Social.Payloads

/-!
# Social.CursorBinding

Whether a cursor is bound to the query that it was given for, as the README says. A
cursor names no query: there are two kinds of cursor for five paged endpoints, and a
query refuses exactly the cursors of the other kind, and an offset above 100000
(`cursor_refused_iff`).
-/

namespace DevbitBackend.Social

open Forum (UserSearch ForumPost)

/-! ### Paged queries -/

/-- A query as it is sent, but for its cursor and its limit. -/
inductive PagedQuery
  | searchUsers (viewer : UserId) (q : Option String)
  | listFriends (viewer : UserId) (q : Option String)
  | listRequests (viewer : UserId) (direction status : Option String)
  | listBlocks (viewer : UserId)
  | friendFeed (viewer : UserId)
  deriving DecidableEq, Repr

/-- A query as the handler takes it. -/
inductive CheckedQuery
  | searchUsers (viewer : UserId) (term : String)
  | listFriends (viewer : UserId) (term : String)
  | listRequests (viewer : UserId) (direction : Direction) (status : RequestStatus)
  | listBlocks (viewer : UserId)
  | friendFeed (viewer : UserId)
  deriving DecidableEq, Repr

/-- The checks of the filters, which come before the cursor. Two queries that pass them
are different if what comes out is. -/
def PagedQuery.check : PagedQuery → Except SocialError CheckedQuery
  | .searchUsers viewer q => (validateQuery q).map (.searchUsers viewer)
  | .listFriends viewer q => (validateQuery q).map (.listFriends viewer)
  | .listRequests viewer direction status =>
      (checkDirection direction).bind fun direction =>
        (checkStatus status).map (.listRequests viewer direction)
  | .listBlocks viewer => .ok (.listBlocks viewer)
  | .friendFeed viewer => .ok (.friendFeed viewer)

/-- The query passes its checks. -/
def PagedQuery.Accepted (query : PagedQuery) : Prop := ∃ checked, query.check = .ok checked

/-- What the pages of the five endpoints are made of. -/
inductive Item
  | user (user : SocialUser)
  | friendship (friendship : Friendship)
  | request (request : FriendRequest)
  | post (post : ForumPost)
  deriving DecidableEq, Repr

/-- The answer of one of the endpoints. -/
def asItems {α : Type} (item : α → Item) (answer : Except Failed (SentPage α)) :
    Except Failed (SentPage Item) :=
  answer.map fun page => ⟨page.items.map item, page.nextCursor⟩

def PagedQuery.answer (codec : CursorCodec) (env : Env) (text : UserSearch) (db : Forum.Db)
    (query : PagedQuery) (cursor : Option String) (limit : Option Nat) :
    Except Failed (SentPage Item) :=
  match query with
  | .searchUsers viewer q =>
      asItems .user (Endpoint.searchUsers codec env text db.social viewer q cursor limit)
  | .listFriends viewer q =>
      asItems .friendship (Endpoint.listFriends codec env text db.social viewer q cursor limit)
  | .listRequests viewer direction status =>
      asItems .request
        (Endpoint.listRequests codec env db.social viewer direction status cursor limit)
  | .listBlocks viewer =>
      asItems .user (Endpoint.listBlocks codec env db.social viewer cursor limit)
  | .friendFeed viewer => asItems .post (Endpoint.friendFeed codec env viewer db cursor limit)

/-! ### Kinds of cursor -/

inductive CursorKind
  | time
  | offset
  deriving DecidableEq, Repr

def PagedQuery.kind : PagedQuery → CursorKind
  | .searchUsers .. => .offset
  | _ => .time

/-- The cursor does not decode as one of this kind. -/
def CursorKind.Refuses (codec : CursorCodec) (raw : Option String) : CursorKind → Prop
  | .time => decodeTimeCursor codec raw = .error .badCursor
  | .offset => decodeOffsetCursor codec raw = .error .badCursor

/-! ### What is answered with `BAD_CURSOR` -/

section Refusals

variable {α β : Type} {codec : CursorCodec} {env : Env} {text : UserSearch} {raw : Option String}
  {limit : Option Nat}

/-- A check of a filter has another error. -/
theorem orRefuse_filter_iff {checked : Except SocialError α} {k : α → Except Failed β}
    (hne : checked ≠ .error .badCursor) :
    orRefuse checked k = .error (.error .badCursor) ↔
      ∃ a, checked = .ok a ∧ k a = .error (.error .badCursor) := by
  cases checked with
  | error e =>
      refine iff_of_false (fun h => hne ?_) nofun
      exact congrArg _ (Failed.error.inj (Except.error.inj h))
  | ok a => simp [orRefuse]

/-- What comes after the cursor has another error. -/
theorem orRefuse_cursor_iff {checked : Except SocialError α} {k : α → Except Failed β}
    (hne : ∀ a, k a ≠ .error (.error .badCursor)) :
    orRefuse checked k = .error (.error .badCursor) ↔ checked = .error .badCursor := by
  cases checked with
  | error e => simp [orRefuse]
  | ok a => simp [orRefuse, hne a]

theorem map_accepted_iff {f : α → β} {checked : Except SocialError α} :
    (∃ b, checked.map f = .ok b) ↔ ∃ a, checked = .ok a := by
  cases checked <;> simp [Except.map]

theorem validateQuery_ne_badCursor (q : Option String) : validateQuery q ≠ .error .badCursor := by
  intro h
  obtain ⟨message, he⟩ := validateQuery_error h
  cases he

theorem checkDirection_ne_badCursor (direction : Option String) :
    checkDirection direction ≠ .error .badCursor := by
  intro h
  obtain ⟨message, he⟩ := checkDirection_error h
  cases he

theorem checkStatus_ne_badCursor (status : Option String) :
    checkStatus status ≠ .error .badCursor := by
  intro h
  obtain ⟨message, he⟩ := checkStatus_error h
  cases he

/-- A list answers `BAD_CURSOR` for the cursor itself only. -/
theorem sendList_badCursor_iff {list : Option TimeCursor → Except Failed (Page β)}
    (hne : ∀ c, list c ≠ .error (.error .badCursor)) :
    sendList codec raw list = .error (.error .badCursor) ↔
      decodeTimeCursor codec raw = .error .badCursor :=
  orRefuse_cursor_iff fun c h => hne c (map_eq_error_iff.mp h)

theorem listFriends_ne_badCursor {db : Db} {viewer : UserId} {q : Option String}
    {cursor : Option TimeCursor} {text : TextSearch} :
    Social.listFriends env text db viewer q cursor limit ≠ .error (.error .badCursor) := by
  have hquery := validateQuery_ne_badCursor q
  unfold Social.listFriends
  split
  · rename_i e he
    intro h
    exact hquery (he.trans (congrArg _ (Failed.error.inj (Except.error.inj h))))
  split
  · exact nofun
  · exact keysetPage_ne_badCursor

theorem searchUsers_ne_badCursor {db : Db} {viewer : UserId} {q : Option String} {offset : Nat} :
    Social.searchUsers env text db viewer q offset limit ≠ .error .badCursor := by
  intro h
  rcases searchUsers_error h with hquery | he
  · exact validateQuery_ne_badCursor q hquery
  · cases he

theorem searchUsers_badCursor_iff {db : Db} {viewer : UserId} {q : Option String} :
    Endpoint.searchUsers codec env text db viewer q raw limit = .error (.error .badCursor) ↔
      (∃ term, validateQuery q = .ok term) ∧ decodeOffsetCursor codec raw = .error .badCursor := by
  rw [Endpoint.searchUsers, orRefuse_filter_iff (validateQuery_ne_badCursor q), ← exists_and_right]
  refine exists_congr fun _ => and_congr_right fun _ => orRefuse_cursor_iff fun offset h => ?_
  obtain ⟨page, -, hpage⟩ := (orRefuse_filter_iff searchUsers_ne_badCursor).mp h
  cases hpage

theorem listFriends_badCursor_iff {db : Db} {viewer : UserId} {q : Option String} :
    Endpoint.listFriends codec env text db viewer q raw limit = .error (.error .badCursor) ↔
      (∃ term, validateQuery q = .ok term) ∧ decodeTimeCursor codec raw = .error .badCursor := by
  rw [Endpoint.listFriends, orRefuse_filter_iff (validateQuery_ne_badCursor q), ← exists_and_right]
  exact exists_congr fun _ => and_congr_right fun _ =>
    sendList_badCursor_iff fun _ => listFriends_ne_badCursor

theorem listRequests_badCursor_iff {db : Db} {viewer : UserId} {direction status : Option String} :
    Endpoint.listRequests codec env db viewer direction status raw limit =
        .error (.error .badCursor) ↔
      ((∃ d, checkDirection direction = .ok d) ∧ ∃ st, checkStatus status = .ok st) ∧
        decodeTimeCursor codec raw = .error .badCursor := by
  rw [Endpoint.listRequests, orRefuse_filter_iff (checkDirection_ne_badCursor direction), and_assoc,
    ← exists_and_right]
  refine exists_congr fun _ => and_congr_right fun _ => ?_
  rw [orRefuse_filter_iff (checkStatus_ne_badCursor status), ← exists_and_right]
  exact exists_congr fun _ => and_congr_right fun _ =>
    sendList_badCursor_iff fun _ => keysetPage_ne_badCursor

theorem accepted_searchUsers {viewer : UserId} {q : Option String} :
    (PagedQuery.searchUsers viewer q).Accepted ↔ ∃ term, validateQuery q = .ok term := by
  unfold PagedQuery.Accepted PagedQuery.check
  exact map_accepted_iff

theorem accepted_listFriends {viewer : UserId} {q : Option String} :
    (PagedQuery.listFriends viewer q).Accepted ↔ ∃ term, validateQuery q = .ok term := by
  unfold PagedQuery.Accepted PagedQuery.check
  exact map_accepted_iff

theorem accepted_listRequests {viewer : UserId} {direction status : Option String} :
    (PagedQuery.listRequests viewer direction status).Accepted ↔
      (∃ d, checkDirection direction = .ok d) ∧ ∃ st, checkStatus status = .ok st := by
  unfold PagedQuery.Accepted PagedQuery.check
  cases hd : checkDirection direction <;> cases hst : checkStatus status <;>
    simp [hd, hst, Except.bind, Except.map]

/-- **Refusals.** A query whose filters are accepted answers `BAD_CURSOR` exactly when the
cursor does not decode. -/
theorem answer_badCursor_iff (query : PagedQuery) (db : Forum.Db) :
    query.answer codec env text db raw limit = .error (.error .badCursor) ↔
      query.Accepted ∧ query.kind.Refuses codec raw := by
  unfold PagedQuery.answer asItems
  cases query with
  | searchUsers viewer q =>
      rw [map_eq_error_iff, searchUsers_badCursor_iff, accepted_searchUsers]
      rfl
  | listFriends viewer q =>
      rw [map_eq_error_iff, listFriends_badCursor_iff, accepted_listFriends]
      rfl
  | listRequests viewer direction status =>
      rw [map_eq_error_iff, listRequests_badCursor_iff, accepted_listRequests]
      rfl
  | listBlocks viewer =>
      have haccepted : (PagedQuery.listBlocks viewer).Accepted := ⟨_, rfl⟩
      rw [map_eq_error_iff, and_iff_right haccepted]
      exact sendList_badCursor_iff fun _ => keysetPage_ne_badCursor
  | friendFeed viewer =>
      have haccepted : (PagedQuery.friendFeed viewer).Accepted := ⟨_, rfl⟩
      rw [map_eq_error_iff, and_iff_right haccepted]
      exact sendList_badCursor_iff fun _ => keysetPage_ne_badCursor

end Refusals

/-! ### Cursors that are given out -/

/-- A row of a table has this key: a `timestamptz` that was read, and a `bigint`. -/
def TimeCursor.Stored (c : TimeCursor) : Prop :=
  timeHolds c.createdAt = true ∧ IntType.bigint.holds c.id = true

section Given

variable {α β : Type} {codec : CursorCodec} {env : Env} {text : UserSearch}
  {raw : Option String} {limit : Option Nat} {cursor : String} {use : IdUse} {key : α → TimeCursor}
  {rows : List α} {item : α → β}

theorem key_of_listFriends {db : Db} {viewer : UserId} {q : Option String} {text : TextSearch}
    {term : String} (hq : validateQuery q = .ok term) {start : Option TimeCursor}
    {page : Page Friendship} {c : TimeCursor}
    (h : Social.listFriends env text db viewer q start limit = .ok page)
    (hc : page.nextCursor = some c) :
    ∃ r ∈ db.friendMatches text viewer term, FriendRow.key r = c := by
  simp only [Social.listFriends, hq] at h
  split at h
  · cases h
  · exact key_of_keysetPage h hc

/-- A list gives out the text of a stored key. -/
theorem stored_of_sendList {list : Option TimeCursor → Except Failed (Page β)} {page : SentPage β}
    (hrows : RowsOk use key rows)
    (hlist : ∀ {start found c}, list start = .ok found → found.nextCursor = some c →
      ∃ r ∈ rows, key r = c)
    (h : sendList codec raw list = .ok page) (hcursor : page.nextCursor = some cursor) :
    ∃ c : TimeCursor, c.Stored ∧ cursor = codec.encodeTime c := by
  obtain ⟨start, -, hsent⟩ := orRefuse_eq_ok h
  obtain ⟨found, hfound, rfl⟩ := map_eq_ok hsent
  obtain ⟨c, hc, rfl⟩ := Option.map_eq_some_iff.mp hcursor
  obtain ⟨r, hr, rfl⟩ := hlist hfound hc
  exact ⟨key r, ⟨hrows.times r hr, IntType.holds_bigint (hrows.types r hr)⟩, rfl⟩

theorem next_of_searchUsers {db : Db} {viewer : UserId} {q : Option String} {offset next : Nat}
    {found : OffsetPage SocialUser}
    (h : Social.searchUsers env text db viewer q offset limit = .ok found)
    (hnext : found.nextOffset = some next) : next = offset + pageLimit limit := by
  unfold Social.searchUsers at h
  split at h
  · cases h
  dsimp only at h
  split at h
  · cases h
    cases hnext
  split at h
  · cases h
  · cases h
    dsimp only at hnext
    split at hnext
    · exact (Option.some.inj hnext).symm
    · cases hnext

/-- A query with time cursors gives out the text of a stored key. -/
theorem stored_of_answer {db : Forum.Db} (hdb : Stored db) {query : PagedQuery}
    (hkind : query.kind = .time) {page : SentPage Item}
    (hpage : query.answer codec env text db raw limit = .ok page)
    (hcursor : page.nextCursor = some cursor) :
    ∃ c : TimeCursor, c.Stored ∧ cursor = codec.encodeTime c := by
  unfold PagedQuery.answer asItems at hpage
  cases query with
  | searchUsers viewer q => cases hkind
  | listFriends viewer q =>
      obtain ⟨sent, hsent, rfl⟩ := map_eq_ok hpage
      obtain ⟨term, hq, hlist⟩ := orRefuse_eq_ok hsent
      exact stored_of_sendList (rowsOk_friendMatches hdb text.toTextSearch term)
        (key_of_listFriends hq) hlist hcursor
  | listRequests viewer direction status =>
      obtain ⟨sent, hsent, rfl⟩ := map_eq_ok hpage
      obtain ⟨d, -, hsent⟩ := orRefuse_eq_ok hsent
      obtain ⟨st, -, hlist⟩ := orRefuse_eq_ok hsent
      exact stored_of_sendList (rowsOk_requestRows hdb d st) key_of_keysetPage hlist hcursor
  | listBlocks viewer =>
      obtain ⟨sent, hlist, rfl⟩ := map_eq_ok hpage
      exact stored_of_sendList (rowsOk_blockRows hdb) key_of_keysetPage hlist hcursor
  | friendFeed viewer =>
      obtain ⟨sent, hlist, rfl⟩ := map_eq_ok hpage
      exact stored_of_sendList (rowsOk_feedRows hdb) key_of_keysetPage hlist hcursor

/-- The search gives out the offset of the next page. -/
theorem offset_of_answer {db : Forum.Db} {query : PagedQuery} (hkind : query.kind = .offset)
    {page : SentPage Item} (hpage : query.answer codec env text db raw limit = .ok page)
    (hcursor : page.nextCursor = some cursor) :
    ∃ offset : ℕ, decodeOffsetCursor codec raw = .ok offset ∧
      cursor = codec.encodeOffset ((offset + pageLimit limit : ℕ) : Int) := by
  unfold PagedQuery.answer asItems at hpage
  cases query with
  | searchUsers viewer q =>
      obtain ⟨sent, hsent, rfl⟩ := map_eq_ok hpage
      obtain ⟨term, -, hsent⟩ := orRefuse_eq_ok hsent
      obtain ⟨offset, hoffset, hsent⟩ := orRefuse_eq_ok hsent
      obtain ⟨found, hfound, hsent⟩ := orRefuse_eq_ok hsent
      obtain rfl := Except.ok.inj hsent
      obtain ⟨next, hnext, rfl⟩ := Option.map_eq_some_iff.mp hcursor
      refine ⟨offset, hoffset, ?_⟩
      rw [next_of_searchUsers hfound hnext]
  | listFriends viewer q => cases hkind
  | listRequests viewer direction status => cases hkind
  | listBlocks viewer => cases hkind
  | friendFeed viewer => cases hkind

end Given

/-! ### The law -/

section Law

variable {crates : CursorCrates} {codec : CursorCodec} {env : Env} {text : UserSearch}
  {raw : Option String} {limit : Option Nat} {cursor : String}

/-- The next page starts after more rows than a cursor may skip. -/
def PastEnd (codec : CursorCodec) (raw : Option String) (limit : Option Nat) : Prop :=
  ∃ offset, decodeOffsetCursor codec raw = .ok offset ∧ 100000 < offset + pageLimit limit

theorem decodeOffsetCursor_le {offset : ℕ} (h : decodeOffsetCursor codec raw = .ok offset) :
    offset ≤ 100000 := by
  unfold decodeOffsetCursor at h
  split at h
  · cases h
    exact Nat.zero_le _
  split at h
  · cases h
  split at h
  · cases h
    omega
  · cases h

theorem refuses_stored_iff (hcrates : crates.Lawful) {c : TimeCursor} (hc : c.Stored)
    (kind : CursorKind) :
    kind.Refuses crates.codec (some (crates.codec.encodeTime c)) ↔ kind = .offset := by
  cases kind with
  | time =>
      refine iff_of_false (fun h => ?_) nofun
      rw [CursorKind.Refuses, CursorCrates.codec_roundTrip hcrates c hc.1 hc.2] at h
      cases h
  | offset =>
      exact iff_of_true (CursorCrates.decodeOffsetCursor_encodeTime hcrates hc.1 hc.2) rfl

theorem refuses_offset_iff (hcrates : crates.Lawful) {offset : ℕ} (hoffset : offset < 2 ^ 63)
    (kind : CursorKind) :
    kind.Refuses crates.codec (some (crates.codec.encodeOffset offset)) ↔
      kind = .time ∨ 100000 < offset := by
  cases kind with
  | time =>
      exact iff_of_true (CursorCrates.decodeTimeCursor_encodeOffset hcrates hoffset) (.inl rfl)
  | offset =>
      have hroundTrip := CursorCrates.codec_offsetRoundTrip hcrates
      rw [CursorKind.Refuses, decodeOffsetCursor_encode hroundTrip hoffset]
      by_cases hle : offset ≤ 100000
      · simp [hle]
      · simp [hle, Nat.lt_of_not_le hle]

/-- **Binding.** Any query gets a cursor, whatever its tables hold, and another takes it to
any tables. If its filters are accepted, it is refused exactly when one of the two queries
is a search and the other is not, or both are searches and the first is past the end. -/
theorem cursor_refused_iff (hcrates : crates.Lawful) {db : Forum.Db} (hdb : Stored db)
    {query other : PagedQuery} {page : SentPage Item}
    (hpage : query.answer crates.codec env text db raw limit = .ok page)
    (hcursor : page.nextCursor = some cursor) (db' : Forum.Db) (limit' : Option Nat) :
    other.answer crates.codec env text db' (some cursor) limit' = .error (.error .badCursor) ↔
      other.Accepted ∧ (query.kind ≠ other.kind ∨
        query.kind = .offset ∧ PastEnd crates.codec raw limit) := by
  rw [answer_badCursor_iff]
  refine and_congr_right fun _ => ?_
  cases hkind : query.kind with
  | time =>
      obtain ⟨c, hc, rfl⟩ := stored_of_answer hdb hkind hpage hcursor
      rw [refuses_stored_iff hcrates hc]
      cases other.kind <;> simp
  | offset =>
      obtain ⟨offset, hdecode, rfl⟩ := offset_of_answer hkind hpage hcursor
      have hlimit := pageLimit_le limit
      have hle := decodeOffsetCursor_le hdecode
      rw [refuses_offset_iff hcrates (by omega)]
      have hpast : PastEnd crates.codec raw limit ↔ 100000 < offset + pageLimit limit := by
        simp [PastEnd, hdecode]
      rw [hpast]
      cases other.kind <;> simp

end Law

/-! 1 gets the newest of two accepted requests, with a cursor for the other. -/

instance encodableString : Encodable String :=
  Encodable.ofLeftInverse (fun s => s.toList.map Char.toNat)
    (fun ns => String.ofList (ns.map Char.ofNat)) fun s => by simp [Function.comp_def]

instance encodableValue : Encodable Json.Value :=
  Encodable.ofLeftInverse
    (fun
      | .int n => (.inl n : Int ⊕ String ⊕ Unit)
      | .str s => .inr (.inl s)
      | .other => .inr (.inr ()))
    (fun
      | .inl n => .int n
      | .inr (.inl s) => .str s
      | .inr (.inr ()) => .other)
    fun v => by cases v <;> rfl

/-- The bytes of a text in ASCII. -/
def bytesOf (s : String) : List UInt8 := s.toList.map fun c => UInt8.ofNat c.toNat

/-- `{"at":"1970-01-01T00:00:00.000007Z","id":2}`. -/
def pagedBytes : List UInt8 :=
  bytesOf "\x7b\"at\":\"1970-01-01T00:00:00.000007Z\",\"id\":2\x7d"

def pagedMembers : List (String × Json.Value) :=
  [("at", .str "1970-01-01T00:00:00.000007Z"), ("id", .int 2)]

/-- Any other object and any other time is written in unary. -/
def pagedCrates : CursorCrates where
  base64 := Base64.urlSafeNoPad
  json :=
    { toVec
        | .obj ms =>
            if ms = pagedMembers then some pagedBytes
            else some (bytesOf (unary (Encodable.encode ms)))
        | _ => none
      fromSlice bytes :=
        if bytes = pagedBytes then some (.obj pagedMembers)
        else if bytes = [] then none
        else (Encodable.decode (bytes.length - 1)).map .obj }
  formatTime t := if t = 7 then "1970-01-01T00:00:00.000007Z" else unary (Encodable.encode t)
  parseTime s :=
    if s = "1970-01-01T00:00:00.000007Z" then some 7 else Encodable.decode (s.length - 1)

theorem pagedCrates_lawful : pagedCrates.Lawful where
  base64 := Base64.urlSafeNoPad_lawful
  json :=
    { fromSlice_toVec := by
        intro ms _
        by_cases hms : ms = pagedMembers
        · subst hms
          exact ⟨pagedBytes, rfl, rfl⟩
        -- any other object is written in unary, as the number that encodes it
        · have hlength :
              (bytesOf (unary (Encodable.encode ms))).length = Encodable.encode ms + 1 := by
            simp [bytesOf, unary]
          have hne : bytesOf (unary (Encodable.encode ms)) ≠ pagedBytes := by
            simp [bytesOf, unary, List.replicate_succ, pagedBytes]
          have hnil : bytesOf (unary (Encodable.encode ms)) ≠ [] := by
            simp [bytesOf, unary]
          refine ⟨_, if_neg hms, ?_⟩
          simp only [pagedCrates, if_neg hne, if_neg hnil, hlength, Nat.add_sub_cancel,
            Encodable.encodek, Option.map_some]
      fromSlice_nil := rfl }
  parse_format t _ := by
    by_cases ht : t = 7
    · subst ht
      rfl
    -- any other time is written in unary too
    · have hne := unary_ne (Encodable.encode t)
        (by decide : "1970-01-01T00:00:00.000007Z".toList.head? ≠ some 'a')
      simp only [pagedCrates, if_neg ht, if_neg hne, length_unary, Nat.add_sub_cancel,
        Encodable.encodek]

/-- That is the text of the cursor. -/
theorem pagedCrates_encodeTime : pagedCrates.codec.encodeTime ⟨7, 2⟩ = pagedCursor := by
  decide +kernel

theorem pagedCrates_decodeTime :
    decodeTimeCursor pagedCrates.codec (some pagedCursor) = .ok (some ⟨7, 2⟩) := by
  rw [← pagedCrates_encodeTime]
  exact CursorCrates.codec_roundTrip pagedCrates_lawful ⟨7, 2⟩ rfl rfl

def acceptedRequests (direction : Option String) : PagedQuery :=
  .listRequests 1 direction (some "accepted")

theorem mergeSort_pair {α : Type} (le : α → α → Bool) (a b : α) :
    [a, b].mergeSort le = if le a b then [a, b] else [b, a] := by
  simp [List.mergeSort, List.MergeSort.Internal.splitInTwo, List.merge]

theorem acceptedRequests_first : ∃ page,
    (acceptedRequests none).answer pagedCrates.codec demoEnv Forum.demoText pagedDb none (some 1) =
        .ok page ∧
      page.nextCursor = some pagedCursor := by
  have hrows : keysetRows requestIdUse requestKey none 1
      (pagedDb.social.requestRows 1 .incoming .accepted) =
        .ok ⟨[(⟨2, 3, 1, "", .accepted, 7, 8⟩, ⟨3, "Eve", none⟩, ⟨1, "Ada", none⟩)],
          some ⟨7, 2⟩⟩ := by
    have hfound : (pagedDb.social.requestRows 1 .incoming .accepted).filter
        (fun r => below none (requestKey r).createdAt (requestKey r).id) =
          [(⟨1, 2, 1, "", .accepted, 5, 6⟩, ⟨2, "Bob", none⟩, ⟨1, "Ada", none⟩),
            (⟨2, 3, 1, "", .accepted, 7, 8⟩, ⟨3, "Eve", none⟩, ⟨1, "Ada", none⟩)] := by
      decide
    rw [keysetRows, hfound, mergeSort_pair]
    rfl
  have hanswer : (acceptedRequests none).answer pagedCrates.codec demoEnv Forum.demoText pagedDb
      none (some 1) = asItems .request ((keysetPage requestIdUse requestKey none 1
        (friendRequestFromRow demoEnv) (pagedDb.social.requestRows 1 .incoming .accepted)).map
          (Page.send pagedCrates.codec)) :=
    rfl
  rw [hanswer, keysetPage, hrows]
  exact ⟨_, rfl, congrArg some pagedCrates_encodeTime⟩

/-- The search refuses the cursor, and the feed does not. -/
theorem cursor_refused_iff_requests :
    (PagedQuery.searchUsers 1 (some "a")).answer pagedCrates.codec demoEnv Forum.demoText pagedDb
        (some pagedCursor) none = .error (.error .badCursor) ∧
      (PagedQuery.friendFeed 1).answer pagedCrates.codec demoEnv Forum.demoText pagedDb
        (some pagedCursor) none ≠ .error (.error .badCursor) := by
  obtain ⟨page, hpage, hcursor⟩ := acceptedRequests_first
  have hiff := fun other : PagedQuery => @cursor_refused_iff pagedCrates demoEnv Forum.demoText
    none (some 1) pagedCursor pagedCrates_lawful pagedDb pagedDb_stored (acceptedRequests none)
    other page hpage hcursor pagedDb none
  constructor
  · exact (hiff (.searchUsers 1 (some "a"))).mpr ⟨⟨_, rfl⟩, .inl nofun⟩
  · intro h
    obtain ⟨-, hkind | ⟨hkind, -⟩⟩ := (hiff (.friendFeed 1)).mp h
    · exact hkind rfl
    · cases hkind

/-- 1 goes on with that cursor among the requests that 1 has sent. -/
theorem cursor_unbound : ¬ ∀ query other : PagedQuery, query.check ≠ other.check →
    other.Accepted → ∀ db : Forum.Db, Stored db → ∀ raw limit page cursor,
      query.answer pagedCrates.codec demoEnv Forum.demoText db raw limit = .ok page →
        page.nextCursor = some cursor → ∀ limit',
          other.answer pagedCrates.codec demoEnv Forum.demoText db (some cursor) limit' =
            .error (.error .badCursor) := by
  intro hclaim
  obtain ⟨page, hpage, hcursor⟩ := acceptedRequests_first
  have hdifferent : (acceptedRequests none).check ≠ (acceptedRequests (some "outgoing")).check := by
    decide
  have hrefused := hclaim _ (acceptedRequests (some "outgoing")) hdifferent ⟨_, rfl⟩ pagedDb
    pagedDb_stored none (some 1) page pagedCursor hpage hcursor none
  have haccepts : (acceptedRequests (some "outgoing")).answer pagedCrates.codec demoEnv
      Forum.demoText pagedDb (some pagedCursor) none = .ok ⟨[], none⟩ := by
    simp only [PagedQuery.answer, acceptedRequests, Endpoint.listRequests, sendList,
      pagedCrates_decodeTime]
    decide +kernel
  rw [haccepts] at hrefused
  cases hrefused

end DevbitBackend.Social
