import Mathlib.Data.String.Basic
import DevbitBackend.Lib.Like
import DevbitBackend.Lib.Offset
import DevbitBackend.Social.Paging

/-!
# Social.Searches

A traversal of `search_users`. Its cursor is an offset that grows with every page, and
`decode_offset_cursor` refuses the offsets above 100000. A client that follows the
cursors gets everyone it should find, in rank order, exactly when it gets to the last
page before that (`search_complete_iff`).
-/

namespace DevbitBackend.Social

open Forum (UserSearch searchOrder)
open Keyset (Followed)

/-! ### What a search should find -/

/-- `LIKE` and the collation of the database. -/
structure Documented (text : UserSearch) : Prop where
  like : ∀ value pattern, text.like value pattern = Like.likes pattern.toList value.toList
  total : ∀ a b, text.collate a b = true ∨ text.collate b a = true
  trans : ∀ a b c, text.collate a b = true → text.collate b c = true → text.collate a c = true
  antisymm : ∀ a b, text.collate a b = true → text.collate b a = true → a = b

section Found

variable (text : UserSearch) (viewer : UserId) (term : String)

/-- The name contains the term, both in lower case. -/
def NameContains (u : UserRow) : Prop :=
  (text.toLowercase term).toList <:+: (text.lower u.name).toList

instance (u : UserRow) : Decidable (NameContains text term u) :=
  inferInstanceAs (Decidable (_ <:+: _))

/-- The users that the viewer should find. -/
def searchMatches (users : List UserRow) : List UserRow :=
  users.filter fun u => u.id ≠ viewer ∧ NameContains text term u

/-- The `ORDER BY` of the query. -/
def RankOrder (a b : UserRow) : Prop :=
  searchOrder text (text.toLowercase term)
    (escapeLikePattern (text.toLowercase term) ++ "%") a b = true

/-- The users that the viewer should find, each of them once and in rank order. -/
structure Ranked (users ranked : List UserRow) : Prop where
  mem : ∀ u, u ∈ ranked ↔ u ∈ users ∧ u.id ≠ viewer ∧ NameContains text term u
  once : (ranked.map (·.id)).Nodup
  order : ranked.Pairwise (RankOrder text term)

end Found

/-- The ids on a page. -/
def shownIds (answer : Except Failed (SentPage SocialUser)) :
    Except Failed (List UserId × Option String) :=
  answer.map fun page => (page.items.map (·.id), page.nextCursor)

/-- **Law of the search.** A client that follows the cursors gets all users that it should
find, in their order, and each cursor that it is given can be decoded. -/
structure SearchComplete (codec : CursorCodec) (text : UserSearch) (users : List UserRow)
    (viewer : UserId) (term : String)
    (endpoint : ℕ → Option String → Except Failed (SentPage SocialUser)) : Prop where
  pages : ∃ ranked, Ranked text viewer term users ranked ∧
    Offset.Complete (ranked.map (·.id)) fun n raw => shownIds (endpoint n raw)
  accepted : ∀ {n raw shown items cursor},
    Followed (fun n raw => shownIds (endpoint n raw)) n raw shown →
      shownIds (endpoint n raw) = .ok (items, some cursor) →
        ∃ offset, decodeOffsetCursor codec (some cursor) = .ok offset

/-! ### The query -/

section Query

variable {text : UserSearch} {viewer : UserId} {term : String} {users : List UserRow}

theorem escapeLikePattern_toList (query : String) :
    (escapeLikePattern query).toList = Like.escape query.toList := by
  rw [escapeLikePattern, String.toList_ofList]
  rfl

/-- The pattern of the search finds the names that contain the term. -/
theorem like_contains (h : Documented text) (u : UserRow) :
    text.like (text.lower u.name) ("%" ++ escapeLikePattern (text.toLowercase term) ++ "%") =
      true ↔ NameContains text term u := by
  rw [h.like, NameContains, ← Like.likes_contains]
  simp [escapeLikePattern_toList]

/-- `WHERE` and `ORDER BY`. -/
def rankedRows (text : UserSearch) (viewer : UserId) (term : String) (users : List UserRow) :
    List UserRow :=
  let normalized := text.toLowercase term
  let escaped := escapeLikePattern normalized
  (users.filter fun u =>
    u.id != viewer && text.like (text.lower u.name) ("%" ++ escaped ++ "%")).mergeSort
      (searchOrder text normalized (escaped ++ "%"))

theorem searchOrder_trans (h : Documented text) {term pattern : String} (a b c : UserRow)
    (hab : searchOrder text term pattern a b = true)
    (hbc : searchOrder text term pattern b c = true) :
    searchOrder text term pattern a c = true := by
  have htrans := h.trans (text.lower a.name) (text.lower b.name) (text.lower c.name)
  have hanti := h.antisymm (text.lower a.name) (text.lower b.name)
  unfold searchOrder at hab hbc ⊢
  grind

theorem searchOrder_total (h : Documented text) {term pattern : String} (a b : UserRow) :
    (searchOrder text term pattern a b || searchOrder text term pattern b a) = true := by
  have htotal := h.total (text.lower a.name) (text.lower b.name)
  unfold searchOrder
  grind

theorem ranked_rankedRows (h : Documented text) (hkeys : (users.map (·.id)).Nodup) :
    Ranked text viewer term users (rankedRows text viewer term users) where
  mem u := by
    simp [rankedRows, like_contains h]
  once := by
    have hperm : (rankedRows text viewer term users).Perm (users.filter _) :=
      List.mergeSort_perm _ _
    exact (hperm.map _).nodup_iff.mpr (hkeys.sublist (List.filter_sublist.map _))
  order := List.pairwise_mergeSort (searchOrder_trans h) (searchOrder_total h) _

theorem length_rankedRows (h : Documented text) :
    (rankedRows text viewer term users).length = (searchMatches text viewer term users).length := by
  rw [rankedRows, List.length_mergeSort, searchMatches]
  congr 1
  refine List.filter_congr fun u _ => ?_
  rw [Bool.eq_iff_iff]
  simp [like_contains h]

end Query

/-! ### The endpoint -/

/-- An offset decodes to what it was encoded from. -/
def OffsetRoundTrip (codec : CursorCodec) : Prop :=
  ∀ offset : ℕ, offset < 2 ^ 63 → ∃ value,
    cursorText (some (codec.encodeOffset offset)) = some value ∧
      codec.decodeOffset value = some (offset : Int)

section Endpoint

variable {codec : CursorCodec} {env : Env} {text : UserSearch} {viewer : UserId}
  {q : Option String} {term : String} {raw : Option String} {offset : ℕ}

theorem decodeOffsetCursor_encode (h : OffsetRoundTrip codec) (hoffset : offset < 2 ^ 63) :
    decodeOffsetCursor codec (some (codec.encodeOffset offset)) =
      if offset ≤ 100000 then .ok offset else .error .badCursor := by
  obtain ⟨value, hvalue, hdecode⟩ := h offset hoffset
  rw [decodeOffsetCursor, hvalue]
  simp only [hdecode]
  by_cases hle : offset ≤ 100000
  · rw [if_pos hle, if_pos (by omega), Int.toNat_natCast]
  · rw [if_neg hle, if_neg (by omega)]

/-- The ids of a page of the search, and its next offset, as the query gives them. -/
theorem shownIds_searchUsers {db : Db} {limit : Option Nat} (hq : validateQuery q = .ok term)
    (hterm : term ≠ "") (hstorable : storable (text.toLowercase term) = true)
    (hdecode : decodeOffsetCursor codec raw = .ok offset) :
    shownIds (Endpoint.searchUsers codec env text db viewer q raw limit) =
      .ok (Offset.answer (fun offset => codec.encodeOffset offset)
        (Offset.fetch offset (pageLimit limit)
          ((rankedRows text viewer term db.users).map (·.id)))) := by
  have hempty : term.isEmpty = false := by simpa using hterm
  simp only [Endpoint.searchUsers, Social.searchUsers, hq, hdecode, orRefuse, hempty, hstorable,
    Bool.not_true, Bool.false_eq_true, if_false]
  rw [Offset.fetch_map]
  have hids : ∀ (context : RelationshipContext) (rows : List UserRow),
      (rows.map (contextUser env context viewer)).map (·.id) = rows.map (·.id) := by
    intro context rows
    rw [List.map_map]
    rfl
  simp only [shownIds, Except.map, hids]
  rfl

/-- The endpoint serves the clients that follow its cursors, up to 100000. -/
theorem serves_searchUsers (hcodec : OffsetRoundTrip codec) {users : List UserRow} {dbs : ℕ → Db}
    (hdbs : ∀ n, (dbs n).users = users) (limits : ℕ → Option Nat)
    (hq : validateQuery q = .ok term) (hterm : term ≠ "")
    (hstorable : storable (text.toLowercase term) = true) :
    Offset.Serves ((rankedRows text viewer term users).map (·.id))
      (fun offset => codec.encodeOffset offset) 100000 (fun n => pageLimit (limits n)) fun n raw =>
        shownIds (Endpoint.searchUsers codec env text (dbs n) viewer q raw (limits n)) where
  limit n := pageLimit_pos (limits n)
  first := by
    rw [shownIds_searchUsers hq hterm hstorable rfl, hdbs]
  rest n offset hle := by
    have hdecode := decodeOffsetCursor_encode hcodec (hle.trans_lt (by omega))
    rw [if_pos hle] at hdecode
    rw [shownIds_searchUsers hq hterm hstorable hdecode, hdbs]
  refused n m offset habove hnear := by
    have hsmall := pageLimit_le (limits m)
    have hdecode := @decodeOffsetCursor_encode codec offset hcodec (by omega)
    rw [if_neg (by omega)] at hdecode
    refine ⟨.error .badCursor, ?_⟩
    simp [Endpoint.searchUsers, hq, orRefuse, hdecode, shownIds, Except.map]

end Endpoint

/-! ### The law -/

section Law

variable {codec : CursorCodec} {text : UserSearch} {viewer : UserId} {term : String}
  {users : List UserRow} {dbs : ℕ → Db} {limits : ℕ → Option Nat} {q : Option String}

/-- If the first request is answered, the database accepts the term. -/
theorem SearchComplete.term_storable {env : Env} (hq : validateQuery q = .ok term)
    (hterm : term ≠ "")
    (h : SearchComplete codec text users viewer term fun n raw =>
      Endpoint.searchUsers codec env text (dbs n) viewer q raw (limits n)) :
    storable (text.toLowercase term) = true := by
  obtain ⟨ranked, -, hcomplete⟩ := h.pages
  obtain ⟨page, hpage⟩ := hcomplete.answered .start
  have hempty : term.isEmpty = false := by simpa using hterm
  by_contra hnot
  rw [Bool.not_eq_true] at hnot
  simp [Endpoint.searchUsers, Social.searchUsers, decodeOffsetCursor, cursorText, orRefuse, hq,
    hempty, hnot, shownIds, Except.map] at hpage

/-- If every cursor that is given decodes, none of the offsets is above 100000. -/
theorem SearchComplete.le_bound (hcodec : OffsetRoundTrip codec) (htext : Documented text)
    (hdbs : ∀ n, (dbs n).users = users) (env : Env) (hq : validateQuery q = .ok term)
    (hterm : term ≠ "")
    (h : SearchComplete codec text users viewer term fun n raw =>
      Endpoint.searchUsers codec env text (dbs n) viewer q raw (limits n)) {n : ℕ}
    (hmore : Offset.start (fun n => pageLimit (limits n)) n <
      (searchMatches text viewer term users).length) :
    Offset.start (fun n => pageLimit (limits n)) n ≤ 100000 := by
  have hstorable := h.term_storable hq hterm
  obtain ⟨ranked, -, hcomplete⟩ := h.pages
  refine (serves_searchUsers hcodec hdbs limits hq hterm hstorable).le_bound hcomplete.answered ?_
  rw [List.length_map, length_rankedRows htext]
  exact hmore

/-- **Search.** A client follows the cursors of `search_users` with a term that is not
empty and any page sizes, while nobody registers or is renamed. It gets everyone it should
find, once and in rank order, exactly when the term has no NUL and no page starts after
more than 100000 of them. -/
theorem search_complete_iff (hcodec : OffsetRoundTrip codec) (htext : Documented text)
    (hkeys : (users.map (·.id)).Nodup) (hdbs : ∀ n, (dbs n).users = users) (env : Env)
    (limits : ℕ → Option Nat) (hq : validateQuery q = .ok term) (hterm : term ≠ "") :
    (SearchComplete codec text users viewer term fun n raw =>
      Endpoint.searchUsers codec env text (dbs n) viewer q raw (limits n)) ↔
    storable (text.toLowercase term) = true ∧
      ∀ n, Offset.start (fun n => pageLimit (limits n)) n <
          (searchMatches text viewer term users).length →
        Offset.start (fun n => pageLimit (limits n)) n ≤ 100000 := by
  constructor
  · intro h
    exact ⟨h.term_storable hq hterm, fun n hmore => h.le_bound hcodec htext hdbs env hq hterm hmore⟩
  · rintro ⟨hstorable, hle⟩
    have hserves := @serves_searchUsers codec env text viewer q term hcodec users dbs hdbs limits
      hq hterm hstorable
    have hcomplete := hserves.complete fun n hmore => by
      rw [List.length_map, length_rankedRows htext] at hmore
      exact hle n hmore
    refine ⟨⟨_, ranked_rankedRows htext hkeys, hcomplete⟩, ?_⟩
    intro n raw shown items cursor hf hget
    -- the next request is answered, so its cursor decodes
    obtain ⟨page, hpage⟩ := hcomplete.answered (hf.next hget)
    obtain ⟨sent, hsent, -⟩ := map_eq_ok hpage
    obtain ⟨-, -, hsent⟩ := orRefuse_eq_ok hsent
    obtain ⟨offset, hdecode, -⟩ := orRefuse_eq_ok hsent
    exact ⟨offset, hdecode⟩

end Law

/-! 1 searches for `"a"`. -/

/-- `LIKE` as it is, and names as they are. -/
def plainText : UserSearch where
  toLowercase := id
  lower := id
  like value pattern := Like.likes pattern.toList value.toList
  position term value :=
    if term.toList <:+: value.toList then
      value.toList.tails.findIdx (fun rest => term.toList.isPrefixOf rest) + 1
    else 0
  collate a b := a ≤ b

theorem plainText_documented : Documented plainText where
  like _ _ := rfl
  total a b := by simpa [plainText] using le_total a b
  trans a b c := by simpa [plainText] using le_trans
  antisymm a b := by simpa [plainText] using le_antisymm

/-- The text of `{"offset":1}`. -/
def secondPage : String := "eyJvZmZzZXQiOjF9"

/-- Any other offset is written in unary. -/
def offsetCodec : CursorCodec where
  encodeTime _ := ""
  decodeTime _ := none
  encodeOffset offset := if offset = 1 then secondPage else unary offset.toNat
  decodeOffset value := if value = secondPage then some 1 else some (value.length - 1)

theorem offsetCodec_roundTrip : OffsetRoundTrip offsetCodec := by
  intro offset _
  by_cases hone : offset = 1
  · subst hone
    exact ⟨secondPage, rfl, rfl⟩
  · refine ⟨unary offset, ?_, ?_⟩
    · have hencode : offsetCodec.encodeOffset offset = unary offset := by simp [offsetCodec, hone]
      rw [hencode, cursorText_unary]
    · have hne := unary_ne offset (by decide : secondPage.toList.head? ≠ some 'a')
      simp [offsetCodec, hne, length_unary]

/-- The users from 1 to `n`, all of one name. -/
def namesakes (n : ℕ) : List UserRow := (List.range n).map fun (i : ℕ) => ⟨i + 1, "a", none⟩

def usersDb (users : List UserRow) : Db where
  users := users
  requests := []
  friendships := []
  blocks := []
  preferences := []
  messages := []

theorem nodup_namesakes (n : ℕ) : ((namesakes n).map (·.id)).Nodup := by
  rw [namesakes, List.map_map]
  refine List.nodup_range.map fun i j h => ?_
  simpa using h

/-- 1 should find all the others. -/
theorem length_searchMatches (n : ℕ) :
    (searchMatches plainText 1 "a" (namesakes (n + 1))).length = n := by
  have hcontains : ∀ id : UserId, NameContains plainText "a" ⟨id, "a", none⟩ := by
    intro id
    exact List.infix_refl _
  have hothers : ∀ u ∈ (List.range n).map fun (i : ℕ) => (⟨i + 1 + 1, "a", none⟩ : UserRow),
      decide (u.id ≠ 1 ∧ NameContains plainText "a" u) = true := by
    intro u hu
    obtain ⟨i, -, rfl⟩ := List.mem_map.mp hu
    have hne : (i : Int) + 1 + 1 ≠ 1 := by omega
    simp [hne, hcontains]
  have hsplit : namesakes (n + 1) = ⟨1, "a", none⟩ ::
      (List.range n).map fun (i : ℕ) => ⟨i + 1 + 1, "a", none⟩ := by
    simp [namesakes, List.range_succ_eq_map]
  rw [searchMatches, hsplit, List.filter_cons_of_neg (by simp), List.filter_eq_self.mpr hothers]
  simp

theorem query_a : validateQuery (some "a") = .ok "a" := rfl

/-- 1 finds 2 and then 3. -/
theorem search_complete_iff_pages :
    SearchComplete offsetCodec plainText (namesakes 3) 1 "a" fun _ raw =>
      Endpoint.searchUsers offsetCodec demoEnv plainText (usersDb (namesakes 3)) 1 (some "a") raw
        (some 1) := by
  refine (search_complete_iff offsetCodec_roundTrip plainText_documented (nodup_namesakes 3)
    (fun _ => rfl) demoEnv (fun _ => some 1) query_a (by decide)).mpr ⟨rfl, fun n hmore => ?_⟩
  rw [length_searchMatches 2] at hmore
  omega

/-- With pages of 50 users each, 100050 is the last number of matches that is complete. -/
theorem le_of_searchComplete {n : ℕ}
    (h : SearchComplete offsetCodec plainText (namesakes (n + 1)) 1 "a" fun _ raw =>
      Endpoint.searchUsers offsetCodec demoEnv plainText (usersDb (namesakes (n + 1))) 1 (some "a")
        raw (some 50)) : n ≤ 100050 := by
  have hstart : Offset.start (fun _ => pageLimit (some 50)) 2001 = 100050 := by
    simp [Offset.start, pageLimit]
  by_contra hmore
  have hlen : Offset.start (fun _ => pageLimit (some 50)) 2001 <
      (searchMatches plainText 1 "a" (namesakes (n + 1))).length := by
    rw [hstart, length_searchMatches]
    omega
  have hle := @SearchComplete.le_bound offsetCodec plainText 1 "a" (namesakes (n + 1))
    (fun _ => usersDb (namesakes (n + 1))) (fun _ => some 50) (some "a") offsetCodec_roundTrip
    plainText_documented (fun _ => rfl) demoEnv query_a (by decide) h 2001 hlen
  omega

/-- With 100051 others to find, the search breaks off: the server refuses the cursor it
has given out. -/
theorem crowded_search : ¬ ∀ users : List UserRow, (users.map (·.id)).Nodup →
    SearchComplete offsetCodec plainText users 1 "a" fun _ raw =>
      Endpoint.searchUsers offsetCodec demoEnv plainText (usersDb users) 1 (some "a") raw
        (some 50) := by
  intro hclaim
  have hle := le_of_searchComplete (hclaim (namesakes (100051 + 1)) (nodup_namesakes _))
  omega

end DevbitBackend.Social
