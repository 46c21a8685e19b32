import Mathlib.Data.Prod.Lex
import Mathlib.Logic.Denumerable
import DevbitBackend.Lib.Keyset
import DevbitBackend.Social.Cursors

/-!
# Social.Paging

The lists with time cursors as paging by key. `keysetRows` is `Keyset.fetch` at the
keys of the rows, and the keys are keys because of the constraints of the tables. So
the lists are faithful to a client that follows the cursors, however the tables
change meanwhile; `list_friends` and `list_blocks` are not, once there is a second
page (`paging_lossless_iff`).
-/

namespace DevbitBackend.Social

open Forum (UserSearch PostView)

/-! ### Keys -/

/-- The keys in their order. -/
def TimeCursor.order (c : TimeCursor) : Int ×ₗ Int := toLex (c.createdAt, c.id)

/-- The cursor of a key. -/
def cursorOf (k : Int ×ₗ Int) : TimeCursor := ⟨(ofLex k).1, (ofLex k).2⟩

/-- `below` is the strict order of the keys. -/
theorem below_eq (cursor : Option TimeCursor) (c : TimeCursor) :
    below cursor c.createdAt c.id =
      decide (Keyset.After (cursor.map TimeCursor.order) c.order) := by
  rw [Bool.eq_iff_iff, decide_eq_true_eq]
  cases cursor with
  | none => simp [below, Keyset.After]
  | some t =>
      simp only [below, Bool.or_eq_true, Bool.and_eq_true, decide_eq_true_eq, beq_iff_eq,
        Keyset.After, Option.map_some, Option.some.injEq, forall_eq']
      have hlt : c.order < t.order ↔
          c.createdAt < t.createdAt ∨ c.createdAt = t.createdAt ∧ c.id < t.id :=
        Prod.Lex.toLex_lt_toLex
      exact hlt.symm

section Fetch

variable {α : Type} {use : IdUse} {key : α → TimeCursor} {cursor : Option TimeCursor} {limit : Nat}
  {rows : List α}

/-- The keys of the rows, in their order. -/
def orderKey (key : α → TimeCursor) (r : α) : Int ×ₗ Int := (key r).order

/-- A query whose parameters are accepted is paging by key, if the column of the ids is
read as what it is or there is nothing to read. -/
theorem keysetRows_eq_fetch (hbind : bindable use cursor = true)
    (hread : use.read = use.column ∨ countBelow key cursor rows ≤ limit) :
    keysetRows use key cursor limit rows = .ok
      ⟨(Keyset.fetch (orderKey key) (cursor.map TimeCursor.order) limit rows).shown,
        (Keyset.fetch (orderKey key) (cursor.map TimeCursor.order) limit rows).next.map
          cursorOf⟩ := by
  -- the `WHERE` and `ORDER BY` of the statement are the rows that remain
  have hsorted : (rows.filter fun r => below cursor (key r).createdAt (key r).id).mergeSort
      (fun r r' => !below (some (key r')) (key r).createdAt (key r).id) =
        Keyset.remaining (orderKey key) (cursor.map TimeCursor.order) rows := by
    simp only [below_eq, ← decide_not]
    unfold Keyset.remaining orderKey
    congr 1
    funext r r'
    simp [Keyset.After]
  -- the rows that `countBelow` counts are these too
  have hcount : countBelow key cursor rows =
      (Keyset.remaining (orderKey key) (cursor.map TimeCursor.order) rows).length := by
    rw [← hsorted, List.length_mergeSort, ← List.countP_eq_length_filter]
    rfl
  unfold keysetRows
  rw [hbind, hsorted, Keyset.fetch_next, Keyset.fetch_shown]
  generalize Keyset.remaining (orderKey key) (cursor.map TimeCursor.order) rows = sorted at *
  have hlen : limit < (sorted.take (limit + 1)).length ↔ limit < sorted.length := by
    rw [List.length_take]
    omega
  simp only [Bool.not_true, Bool.false_eq_true, if_false, List.take_take, hlen,
    Nat.min_eq_left (Nat.le_succ limit)]
  by_cases hmore : limit < sorted.length
  · have hsame : use.read = use.column := hread.resolve_right (hcount ▸ Nat.not_le.mpr hmore)
    simp only [if_pos hmore, if_pos hsame, Option.map_map]
    rfl
  · simp only [if_neg hmore, Option.map_none]

end Fetch

/-! ### A list over many requests -/

/-- The values of an integer column. -/
def IntType.holds : IntType → Int → Bool
  | .int, n => (castInt n).isSome
  | .bigint, n => -9223372036854775808 ≤ n && n ≤ 9223372036854775807

/-- The times of a `timestamptz` column that are read as a `DateTime<Utc>`: `chrono` goes
to the end of the year 262142, and further back than the database. -/
def timeHolds (t : Int) : Bool := (castTimestamp t).isSome && decide (t < 8210266876800000000)

theorem castTimestamp_of_timeHolds {t : Int} (h : timeHolds t = true) :
    (castTimestamp t).isSome = true :=
  (Bool.and_eq_true_iff.mp h).1

/-- The rows of a list: the ids of their keys are different, and the columns hold values
of the types they are read as. -/
structure RowsOk {α : Type} (use : IdUse) (key : α → TimeCursor) (rows : List α) : Prop where
  ids : (rows.map fun r => (key r).id).Nodup
  times : ∀ r ∈ rows, timeHolds (key r).createdAt = true
  types : ∀ r ∈ rows, use.column.holds (key r).id = true

/-- A time cursor decodes to what it was encoded from. -/
def RoundTrip (codec : CursorCodec) : Prop :=
  ∀ c : TimeCursor, timeHolds c.createdAt = true → IntType.bigint.holds c.id = true →
    decodeTimeCursor codec (some (codec.encodeTime c)) = .ok (some c)

/-- The rows that a list gives for the request `n`, and the text of its next cursor. It
finds `rows n` before the paging; `adjust` is what it does to a decoded cursor. -/
def rowPages {α : Type} (codec : CursorCodec) (use : IdUse) (key : α → TimeCursor)
    (adjust : Option TimeCursor → Option TimeCursor) (limits : ℕ → Option Nat)
    (rows : ℕ → List α) (n : ℕ) (text : Option String) : Except Failed (List α × Option String) :=
  orRefuse (decodeTimeCursor codec text) fun cursor =>
    (keysetRows use key (adjust cursor) (pageLimit (limits n)) (rows n)).map fun page =>
      (page.items, page.nextCursor.map codec.encodeTime)

/-- The text of the cursor of a key. -/
def CursorCodec.encodeKey (codec : CursorCodec) (k : Int ×ₗ Int) : String :=
  codec.encodeTime (cursorOf k)

section Rows

variable {α : Type} {codec : CursorCodec} {use : IdUse} {key : α → TimeCursor}
  {adjust : Option TimeCursor → Option TimeCursor} {limits : ℕ → Option Nat} {rows : ℕ → List α}

theorem pageLimit_pos (limit : Option Nat) : 0 < pageLimit limit := by
  unfold pageLimit
  omega

theorem pageLimit_le (limit : Option Nat) : pageLimit limit ≤ 50 := by
  unfold pageLimit
  omega

theorem IntType.holds_bigint {t : IntType} {n : Int} (h : t.holds n = true) :
    IntType.bigint.holds n = true := by
  cases t with
  | bigint => exact h
  | int =>
      simp only [holds, castInt] at h
      split at h
      · simp only [holds, Bool.and_eq_true, decide_eq_true_eq]
        omega
      · cases h

theorem RowsOk.keys {l : List α} (h : RowsOk use key l) : (l.map (orderKey key)).Nodup := by
  have hids : ((l.map (orderKey key)).map fun k => (cursorOf k).id).Nodup := by
    rw [List.map_map]
    exact h.ids
  exact hids.of_map

/-- A page of the rows, when the query takes its parameters. -/
theorem rowPages_eq {n : ℕ} {text : Option String} (cursor : Option TimeCursor)
    (hdecode : decodeTimeCursor codec text = .ok cursor) (hadjust : adjust cursor = cursor)
    (hbind : bindable use cursor = true)
    (hread : use.read = use.column ∨ countBelow key cursor (rows n) ≤ pageLimit (limits n)) :
    rowPages codec use key adjust limits rows n text = .ok ((Keyset.fetch (orderKey key)
      (cursor.map TimeCursor.order) (pageLimit (limits n)) (rows n)).answer codec.encodeKey) := by
  rw [rowPages, hdecode]
  simp only [orRefuse, hadjust, keysetRows_eq_fetch hbind hread, Except.map, Option.map_map]
  rfl

/-- A list that reads the column of its ids as what it is serves its clients. -/
theorem serves_rowPages (hcodec : RoundTrip codec) (hread : use.read = use.column)
    (hcast : use.cast = use.column) (hnone : adjust none = none)
    (hadjust : ∀ c, use.column.holds c.id = true → adjust (some c) = some c)
    (hrows : ∀ n, RowsOk use key (rows n)) :
    Keyset.Serves (orderKey key) codec.encodeKey (fun n => pageLimit (limits n)) rows
      (rowPages codec use key adjust limits rows) where
  limit n := pageLimit_pos (limits n)
  keys n := (hrows n).keys
  first := rowPages_eq none rfl hnone rfl (.inl hread)
  rest n m r hr := by
    have htime := (hrows m).times r hr
    have htype := (hrows m).types r hr
    refine rowPages_eq (some (key r)) (hcodec (key r) htime (IntType.holds_bigint htype))
      (hadjust _ htype) ?_ (.inl hread)
    simp only [bindable, castTimestamp_of_timeHolds htime, hcast, Bool.true_and]
    cases hcolumn : use.column with
    | int => rwa [hcolumn] at htype
    | bigint => rfl

theorem countBelow_none (key : α → TimeCursor) (l : List α) :
    countBelow key none l = l.length := by
  simp [countBelow, below]

/-- A list that does not gives a first page only if this holds everything. -/
theorem fits_of_rowPages (hread : use.read ≠ use.column) (hnone : adjust none = none)
    (h : ∃ page, rowPages codec use key adjust limits rows 0 none = .ok page) :
    (rows 0).length ≤ pageLimit (limits 0) := by
  obtain ⟨page, hpage⟩ := h
  have hdecode : decodeTimeCursor codec none = .ok none := rfl
  rw [rowPages, hdecode] at hpage
  simp only [orRefuse, hnone] at hpage
  obtain ⟨found, hfound, -⟩ := map_eq_ok hpage
  rw [← countBelow_none key]
  exact (keysetRows_ok_iff.mp ⟨found, hfound⟩).2.resolve_left hread

/-- Then it is faithful, since the client makes no other request. -/
theorem faithful_of_fits (hnone : adjust none = none) (hrows : RowsOk use key (rows 0))
    (hfits : (rows 0).length ≤ pageLimit (limits 0)) :
    Keyset.Faithful (orderKey key) rows (rowPages codec use key adjust limits rows) := by
  have hfirst : rowPages codec use key adjust limits rows 0 none = _ :=
    rowPages_eq none rfl hnone rfl (.inr (countBelow_none key (rows 0) ▸ hfits))
  refine Keyset.faithful_of_first (pageLimit_pos (limits 0)) hrows.keys hfirst ?_
  rw [Keyset.next_eq_none_iff (pageLimit_pos (limits 0))]
  simpa [Keyset.remaining, Keyset.After] using hfits

end Rows

/-! ### The rows of the four lists -/

/-- The constraints of the tables, and the types of the columns that the keys are made of.
The times are those of `DEFAULT NOW()`, which the server can read. -/
structure Stored (db : Forum.Db) : Prop where
  schema : SchemaOk db.social
  userKeys : (db.social.users.map (·.id)).Nodup
  postKeys : (db.posts.map (·.id)).Nodup
  userIds : ∀ u ∈ db.social.users, IntType.int.holds u.id = true
  postIds : ∀ p ∈ db.posts, IntType.int.holds p.id = true
  requestIds : ∀ r ∈ db.social.requests, IntType.bigint.holds r.id = true
  friendTimes : ∀ f ∈ db.social.friendships, timeHolds f.createdAt = true
  blockTimes : ∀ k ∈ db.social.blocks, timeHolds k.createdAt = true
  requestTimes : ∀ r ∈ db.social.requests, timeHolds r.createdAt = true
  postTimes : ∀ p ∈ db.posts, timeHolds p.createdAt = true

section Joins

variable {α β γ : Type}

/-- A join that finds one row at most gives a part of the keys it has been given. -/
theorem flatMap_sublist {l : List α} {f : α → List β} {g : α → β}
    (h : ∀ a ∈ l, f a = [] ∨ f a = [g a]) : (l.flatMap f).Sublist (l.map g) := by
  induction l with
  | nil => exact List.Sublist.refl _
  | cons a l ih =>
      have hrest := ih fun a' ha' => h a' (List.mem_cons_of_mem _ ha')
      rw [List.flatMap_cons, List.map_cons]
      rcases h a List.mem_cons_self with hnil | hone
      · rw [hnil]
        exact hrest.cons _
      · rw [hone]
        exact hrest.cons_cons _

/-- A look-up by key finds one row or none. -/
theorem filter_key_cases {rows : List α} {key : α → Int} (h : (rows.map key).Nodup) (k : Int) :
    rows.filter (fun r => key r == k) = [] ∨
      ∃ r ∈ rows, key r = k ∧ rows.filter (fun r => key r == k) = [r] := by
  by_cases hnil : rows.filter (fun r => key r == k) = []
  · exact .inl hnil
  · obtain ⟨r, hr⟩ := List.exists_mem_of_ne_nil _ hnil
    obtain ⟨hmem, hkey⟩ := List.mem_filter.mp hr
    obtain rfl : key r = k := beq_iff_eq.mp hkey
    exact .inr ⟨r, hmem, rfl, Serial.filter_key h hmem⟩

end Joins

section Lists

variable {db : Forum.Db} {viewer : UserId}

theorem rowsOk_blockRows (h : Stored db) :
    RowsOk userIdUse blockKey (db.social.blockRows viewer) where
  ids := by
    have hjoin : ((db.social.blockRows viewer).map fun r => (blockKey r).id).Sublist
        ((db.social.blocks.filter (·.user == viewer)).map (·.blocked)) := by
      rw [Db.blockRows, List.map_flatMap]
      refine flatMap_sublist fun k _ => ?_
      rcases filter_key_cases h.userKeys k.blocked with hnil | ⟨u, -, hid, hone⟩
      · exact .inl (by rw [hnil]; rfl)
      · exact .inr (by rw [hone]; simp [blockKey, hid])
    refine List.Nodup.sublist hjoin (List.Nodup.map_on (fun k hk k' hk' heq => ?_) ?_)
    · obtain ⟨hmem, huser⟩ := List.mem_filter.mp hk
      obtain ⟨hmem', huser'⟩ := List.mem_filter.mp hk'
      refine List.inj_on_of_nodup_map h.schema.blockKeys hmem hmem' (Prod.ext ?_ heq)
      exact (beq_iff_eq.mp huser).trans (beq_iff_eq.mp huser').symm
    · exact h.schema.blockKeys.of_map.filter _
  times r hr := by
    obtain ⟨k, hk, hr⟩ := List.mem_flatMap.mp hr
    obtain ⟨u, -, rfl⟩ := List.mem_map.mp hr
    exact h.blockTimes k (List.mem_of_mem_filter hk)
  types r hr := by
    obtain ⟨k, -, hr⟩ := List.mem_flatMap.mp hr
    obtain ⟨u, hu, rfl⟩ := List.mem_map.mp hr
    exact h.userIds u (List.mem_of_mem_filter hu)

/-- A friend is the other side of one friendship of the viewer. -/
theorem nodup_other (h : Stored db) (viewer : UserId) : ((db.social.friendships.filter fun f =>
    f.userLow == viewer || f.userHigh == viewer).map (Db.other viewer)).Nodup := by
  refine List.Nodup.map_on (fun f hf f' hf' heq => ?_) (h.schema.friendshipKeys.of_map.filter _)
  obtain ⟨hmem, hside⟩ := List.mem_filter.mp hf
  obtain ⟨hmem', hside'⟩ := List.mem_filter.mp hf'
  have hlt := (h.schema.friendshipParties f hmem).1
  have hlt' := (h.schema.friendshipParties f' hmem').1
  simp only [Bool.or_eq_true, beq_iff_eq] at hside hside'
  refine List.inj_on_of_nodup_map h.schema.friendshipKeys hmem hmem' ?_
  unfold Db.other at heq
  grind

/-- The right-hand side of a `LEFT JOIN` on a key is one row. -/
theorem leftJoin_single (h : Stored db) (u : UserId) :
    ∃ p, leftJoin (db.social.preferences.filter (·.user == u)) = [p] := by
  rcases filter_key_cases h.schema.preferencesKeys u with hnil | ⟨p, -, -, hone⟩
  · exact ⟨none, by rw [hnil]; rfl⟩
  · exact ⟨some p, by rw [hone]; rfl⟩

theorem rowsOk_friendMatches (h : Stored db) (text : TextSearch) (term : String) :
    RowsOk userIdUse FriendRow.key (db.social.friendMatches text viewer term) where
  ids := by
    refine List.Nodup.sublist (List.filter_sublist.map _) ?_
    refine List.Nodup.sublist ?_ (nodup_other h viewer)
    rw [Db.friendRows, List.map_flatMap]
    refine flatMap_sublist fun f _ => ?_
    rcases filter_key_cases h.userKeys (Db.other viewer f) with hnil | ⟨u, -, hid, hone⟩
    · exact .inl (by rw [hnil]; rfl)
    · obtain ⟨p, hp⟩ := leftJoin_single h (Db.other viewer f)
      exact .inr (by simp [hone, hp, FriendRow.key, hid])
  times row hrow := by
    obtain ⟨f, hf, hrow⟩ := List.mem_flatMap.mp (List.mem_of_mem_filter hrow)
    obtain ⟨u, -, hrow⟩ := List.mem_flatMap.mp hrow
    obtain ⟨p, -, rfl⟩ := List.mem_map.mp hrow
    exact h.friendTimes f (List.mem_of_mem_filter hf)
  types row hrow := by
    obtain ⟨f, -, hrow⟩ := List.mem_flatMap.mp (List.mem_of_mem_filter hrow)
    obtain ⟨u, hu, hrow⟩ := List.mem_flatMap.mp hrow
    obtain ⟨p, -, rfl⟩ := List.mem_map.mp hrow
    exact h.userIds u (List.mem_of_mem_filter hu)

theorem rowsOk_requestRows (h : Stored db) (d : Direction) (st : RequestStatus) :
    RowsOk requestIdUse requestKey (db.social.requestRows viewer d st) where
  ids := by
    refine List.Nodup.sublist ?_ h.schema.requestKeys
    rw [Db.requestRows, List.map_flatMap]
    refine (flatMap_sublist (g := RequestRow.id) fun r _ => ?_).trans (List.filter_sublist.map _)
    rcases filter_key_cases h.userKeys r.sender with hnil | ⟨s, -, -, hone⟩
    · exact .inl (by rw [hnil]; rfl)
    · rcases filter_key_cases h.userKeys r.recipient with hnil | ⟨t, -, -, hone'⟩
      · exact .inl (by rw [hone, hnil]; rfl)
      · exact .inr (by rw [hone, hone']; rfl)
  times row hrow := by
    obtain ⟨r, hr, hrow⟩ := List.mem_flatMap.mp hrow
    obtain ⟨s, -, hrow⟩ := List.mem_flatMap.mp hrow
    obtain ⟨t, -, rfl⟩ := List.mem_map.mp hrow
    exact h.requestTimes r (List.mem_of_mem_filter hr)
  types row hrow := by
    obtain ⟨r, hr, hrow⟩ := List.mem_flatMap.mp hrow
    obtain ⟨s, -, hrow⟩ := List.mem_flatMap.mp hrow
    obtain ⟨t, -, rfl⟩ := List.mem_map.mp hrow
    exact h.requestIds r (List.mem_of_mem_filter hr)

theorem rowsOk_feedRows (h : Stored db) : RowsOk postIdUse feedKey (feedRows db viewer) where
  ids := by
    refine List.Nodup.sublist ?_ h.postKeys
    rw [feedRows, List.map_flatMap]
    refine (flatMap_sublist (g := Forum.PostRow.id) fun p _ => ?_).trans (List.filter_sublist.map _)
    rcases filter_key_cases h.userKeys p.author with hnil | ⟨u, -, -, hone⟩
    · exact .inl (by rw [Forum.Db.postViews, hnil]; rfl)
    · exact .inr (by rw [Forum.Db.postViews, hone]; rfl)
  times row hrow := by
    obtain ⟨p, hp, hrow⟩ := List.mem_flatMap.mp hrow
    obtain ⟨u, -, rfl⟩ := List.mem_map.mp hrow
    exact h.postTimes p (List.mem_of_mem_filter hp)
  types row hrow := by
    obtain ⟨p, hp, hrow⟩ := List.mem_flatMap.mp hrow
    obtain ⟨u, -, rfl⟩ := List.mem_map.mp hrow
    exact h.postIds p (List.mem_of_mem_filter hp)

end Lists

/-! ### The law -/

/-- What is sent of a page of rows. -/
def sendRows {α β : Type} (item : α → β) (page : List α × Option String) : SentPage β :=
  ⟨page.1.map item, page.2⟩

/-- **Law of a list endpoint**: its pages show rows, as `item` does, and a client that
follows the cursors gets these rows faithfully. `rows n` match the filter at the
request `n`. -/
def Lossless {α β : Type} (key : α → TimeCursor) (item : α → β) (rows : ℕ → List α)
    (endpoint : ℕ → Option String → Except Failed (SentPage β)) : Prop :=
  ∃ get, (∀ n raw, endpoint n raw = (get n raw).map (sendRows item)) ∧
    Keyset.Faithful (orderKey key) rows get

section Endpoints

variable {α β : Type} {codec : CursorCodec} {use : IdUse} {key : α → TimeCursor} {item : α → β}
  {adjust : Option TimeCursor → Option TimeCursor} {limits : ℕ → Option Nat} {rows : ℕ → List α}

/-- A list is a page of rows, shown one by one. -/
theorem sendList_keysetPage (n : ℕ) (raw : Option String) :
    (sendList codec raw fun cursor =>
      keysetPage use key (adjust cursor) (pageLimit (limits n)) item (rows n)) =
        (rowPages codec use key adjust limits rows n raw).map (sendRows item) := by
  unfold sendList rowPages keysetPage
  cases decodeTimeCursor codec raw with
  | error e => rfl
  | ok cursor =>
      simp only [orRefuse]
      cases keysetRows use key (adjust cursor) (pageLimit (limits n)) (rows n) <;> rfl

/-- The first request is answered. -/
theorem Lossless.first {endpoint : ℕ → Option String → Except Failed (SentPage β)}
    (h : Lossless key item rows endpoint) : ∃ page, endpoint 0 none = .ok page := by
  obtain ⟨get, hget, hfaithful⟩ := h
  obtain ⟨page, hpage⟩ := hfaithful.answered .start
  exact ⟨_, (hget 0 none).trans (congrArg _ hpage)⟩

/-- A list that reads the column of its ids as what it is loses nothing. -/
theorem lossless_sendList (adjust : Option TimeCursor → Option TimeCursor)
    (hcodec : RoundTrip codec) (hread : use.read = use.column) (hcast : use.cast = use.column)
    (hnone : adjust none = none)
    (hadjust : ∀ c, use.column.holds c.id = true → adjust (some c) = some c)
    (hrows : ∀ n, RowsOk use key (rows n)) :
    Lossless key item rows fun n raw => sendList codec raw fun cursor =>
      keysetPage use key (adjust cursor) (pageLimit (limits n)) item (rows n) :=
  ⟨_, sendList_keysetPage, (serves_rowPages hcodec hread hcast hnone hadjust hrows).faithful⟩

/-- A list that does not loses nothing if and only if there is no second page. -/
theorem lossless_sendList_iff (adjust : Option TimeCursor → Option TimeCursor)
    (hread : use.read ≠ use.column) (hnone : adjust none = none) (hrows : RowsOk use key (rows 0)) :
    (Lossless key item rows fun n raw => sendList codec raw fun cursor =>
      keysetPage use key (adjust cursor) (pageLimit (limits n)) item (rows n)) ↔
        (rows 0).length ≤ pageLimit (limits 0) := by
  constructor
  · rintro ⟨get, hget, hfaithful⟩
    obtain ⟨page, hpage⟩ := hfaithful.answered .start
    have hsent := (hget 0 none).symm.trans (sendList_keysetPage 0 none)
    rw [hpage] at hsent
    obtain ⟨found, hfound, -⟩ := map_eq_ok hsent.symm
    exact fits_of_rowPages hread hnone ⟨found, hfound⟩
  · intro hfits
    exact ⟨_, sendList_keysetPage, faithful_of_fits hnone hrows hfits⟩

end Endpoints

/-- **Paging.** A client follows the cursors of a list, with fixed filters, any page
sizes and any changes of the tables between its requests. `list_requests` and
`friend_feed` lose nothing and repeat nothing; `list_blocks`, and `list_friends` for a
filter without NUL, do so exactly when their first page holds all the rows that match
then. -/
theorem paging_lossless_iff {codec : CursorCodec} (hcodec : RoundTrip codec)
    {dbs : ℕ → Forum.Db} (hdbs : ∀ n, Stored (dbs n)) (env : Env) (text : UserSearch)
    (viewer : UserId) (limits : ℕ → Option Nat) {q direction status : Option String} {term : String}
    {d : Direction} {st : RequestStatus} (hq : validateQuery q = .ok term)
    (hd : checkDirection direction = .ok d) (hst : checkStatus status = .ok st) :
    (Lossless FriendRow.key (FriendRow.friendship env)
        (fun n => (dbs n).social.friendMatches text.toTextSearch viewer term)
        (fun n raw => Endpoint.listFriends codec env text (dbs n).social viewer q raw (limits n)) ↔
      storable (namePattern text.toTextSearch term) = true ∧
        ((dbs 0).social.friendMatches text.toTextSearch viewer term).length ≤
          pageLimit (limits 0)) ∧
    Lossless requestKey (friendRequestFromRow env) (fun n => (dbs n).social.requestRows viewer d st)
      (fun n raw =>
        Endpoint.listRequests codec env (dbs n).social viewer direction status raw (limits n)) ∧
    (Lossless blockKey (blockItem env) (fun n => (dbs n).social.blockRows viewer)
        (fun n raw => Endpoint.listBlocks codec env (dbs n).social viewer raw (limits n)) ↔
      ((dbs 0).social.blockRows viewer).length ≤ pageLimit (limits 0)) ∧
    Lossless feedKey (Forum.rowToPost env) (fun n => feedRows (dbs n) viewer)
      (fun n raw => Endpoint.friendFeed codec env viewer (dbs n) raw (limits n)) := by
  refine ⟨?_, ?_, ?_, ?_⟩
  · simp only [Endpoint.listFriends, hq, orRefuse]
    cases hpattern : storable (namePattern text.toTextSearch term) with
    | true =>
        simp only [listFriends_eq hq hpattern, true_and]
        exact lossless_sendList_iff id (by decide) rfl
          (rowsOk_friendMatches (hdbs 0) text.toTextSearch term)
    | false =>
        -- a NUL in the filter: the first request already fails
        refine iff_of_false (fun h => ?_) (by simp)
        obtain ⟨page, hpage⟩ := h.first
        simp [sendList, decodeTimeCursor, cursorText, orRefuse, Social.listFriends, hq, hpattern,
          Except.map] at hpage
  · simp only [Endpoint.listRequests, hd, hst, orRefuse]
    exact lossless_sendList id hcodec rfl rfl rfl (fun _ _ => rfl)
      fun n => rowsOk_requestRows (hdbs n) d st
  · exact lossless_sendList_iff id (by decide) rfl (rowsOk_blockRows (hdbs 0))
  · refine lossless_sendList clampId hcodec rfl rfl rfl (fun c hc => ?_)
      fun n => rowsOk_feedRows (hdbs n)
    -- the id of a cursor that was sent fits, so clamping it does nothing
    have hsame : castInt c.id = some c.id := by
      have hsome : (castInt c.id).isSome = true := hc
      unfold castInt at hsome ⊢
      split
      · rfl
      · rename_i hout
        simp [hout] at hsome
    simp [clampId, hsame]

/-! 1 has two friends, and requests of 2 and 3. -/

def pagedDb : Forum.Db where
  social :=
    { users := [⟨1, "Ada", none⟩, ⟨2, "Bob", none⟩, ⟨3, "Eve", none⟩]
      requests := [⟨1, 2, 1, "", .accepted, 5, 6⟩, ⟨2, 3, 1, "", .accepted, 7, 8⟩]
      friendships := [⟨1, 2, 6⟩, ⟨1, 3, 8⟩]
      blocks := []
      preferences := []
      messages := [] }
  posts := []
  postSeq := 0
  comments := []
  commentSeq := 0
  likes := []
  clears := []

theorem pagedDb_stored : Stored pagedDb := by
  refine ⟨?_, ?_, ?_, ?_, ?_, ?_, ?_, ?_, ?_, ?_⟩
  · constructor <;> decide
  all_goals decide

/-- The text of `{"at":"1970-01-01T00:00:00.000007Z","id":2}`. -/
def pagedCursor : String := "eyJhdCI6IjE5NzAtMDEtMDFUMDA6MDA6MDAuMDAwMDA3WiIsImlkIjoyfQ"

/-- A number in unary. -/
def unary (n : ℕ) : String := String.ofList (List.replicate (n + 1) 'a')

theorem length_unary (n : ℕ) : (unary n).length = n + 1 := by simp [unary]

/-- A text that starts in another way is not one of them. -/
theorem unary_ne (n : ℕ) {other : String} (h : other.toList.head? ≠ some 'a') :
    unary n ≠ other := by
  rintro rfl
  simp [unary, List.replicate_succ] at h

theorem cursorText_unary (n : ℕ) : cursorText (some (unary n)) = some (unary n) := by
  have htrim : trim (unary n) = unary n := by
    simp [trim, trimList, unary, isWhitespace]
  have hne : unary n ≠ "" := by
    intro h
    have hlength := congrArg String.length h
    simp [length_unary] at hlength
  simp [cursorText, htrim, Option.filter, hne]

/-- Any other key is written in unary. -/
def pagedCodec : CursorCodec where
  encodeTime c :=
    if c = ⟨7, 2⟩ then pagedCursor else unary (Encodable.encode (c.createdAt, c.id))
  decodeTime value :=
    if value = pagedCursor then some ⟨7, 2⟩
    else (Encodable.decode (value.length - 1) : Option (Int × Int)).map fun k => ⟨k.1, k.2⟩
  encodeOffset _ := ""
  decodeOffset _ := none

theorem pagedCodec_roundTrip : RoundTrip pagedCodec := by
  intro c _ _
  by_cases hc : c = ⟨7, 2⟩
  · subst hc
    rfl
  · have hencode : pagedCodec.encodeTime c = unary (Encodable.encode (c.createdAt, c.id)) :=
      if_neg hc
    have hdecode :
        pagedCodec.decodeTime (unary (Encodable.encode (c.createdAt, c.id))) = some c := by
      simp only [pagedCodec, if_neg (unary_ne _ (by decide : pagedCursor.toList.head? ≠ some 'a')),
        length_unary, Nat.add_sub_cancel, Encodable.encodek, Option.map_some]
    rw [decodeTimeCursor, hencode, cursorText_unary]
    simp only [hdecode]

/-- 1 gets the requests page by page. -/
theorem paging_lossless_iff_requests : Lossless requestKey (friendRequestFromRow demoEnv)
    (fun _ => pagedDb.social.requestRows 1 .incoming .accepted)
    (fun _ raw =>
      Endpoint.listRequests pagedCodec demoEnv pagedDb.social 1 none (some "accepted") raw
        (some 1)) :=
  (paging_lossless_iff pagedCodec_roundTrip (fun _ => pagedDb_stored) demoEnv Forum.demoText 1
    (fun _ => some 1) (rfl : validateQuery none = .ok "") (rfl : checkDirection none = .ok _)
    (rfl : checkStatus (some "accepted") = .ok .accepted)).2.1

/-- 1 asks for friends one by one, and there are two of them. -/
theorem second_friend_lost : ¬ ∀ limits : ℕ → Option Nat,
    Lossless FriendRow.key (FriendRow.friendship demoEnv)
      (fun _ => pagedDb.social.friendMatches Forum.demoText.toTextSearch 1 "")
      (fun n raw =>
        Endpoint.listFriends pagedCodec demoEnv Forum.demoText pagedDb.social 1 none raw
          (limits n)) := by
  intro hclaim
  have hlossless := hclaim fun _ => some 1
  have hread : userIdUse.read ≠ userIdUse.column := nofun
  have hfits := (lossless_sendList_iff id hread rfl
    (rowsOk_friendMatches pagedDb_stored Forum.demoText.toTextSearch "")).mp hlossless
  exact absurd hfits (by decide)

end DevbitBackend.Social
