import DevbitBackend.Lib.Catalog
import DevbitBackend.Social.Model

/-!
# Migrations.LegacyFriends

Migration `202610250004`: the rows of the one-way contact table `friends` are archived,
and the table is dropped. The archive is written only when it does not exist yet, and
the table is dropped in any case, so an older archive costs the contacts that are not
in it (`archived_iff`).
-/

namespace DevbitBackend.Migrations

open Catalog
open Social (UserId)

/-- A row of `friends`. -/
structure LegacyFriend where
  userId : UserId
  friendId : UserId
  createdAt : Nat
  deriving DecidableEq, Repr

/-- `friends_legacy_archive`. -/
def archive : String := "friends_legacy_archive"

/-- The `DO` block of the migration. -/
def removeLegacyFriends (db : Schema LegacyFriend) : Except DdlError (Schema LegacyFriend) :=
  if regclass db "friends" then do
    let db ← createTableAs archive (selectAll "friends") db
    dropTable "friends" db
  else .ok db

/-- No contact is lost from `db` to `db'`, and the script has nothing left to do. -/
structure Archived (db db' : Schema LegacyFriend) : Prop where
  moved : ∀ row ∈ rowsOf db "friends", row ∈ rowsOf db' archive
  kept : ∀ row ∈ rowsOf db archive, row ∈ rowsOf db' archive
  dropped : db' "friends" = none
  again : removeLegacyFriends db' = .ok db'

variable {db db' : Schema LegacyFriend}

theorem archive_ne_friends : archive ≠ "friends" := by decide

theorem removeLegacyFriends_of_none (h : db "friends" = none) : removeLegacyFriends db = .ok db :=
  if_neg (by simp [regclass, h])

/-- An archive that exists stays as it is. -/
theorem removeLegacyFriends_exists (hfriends : db "friends" ≠ none) (harchive : db archive ≠ none)
    (h : removeLegacyFriends db = .ok db') : db' = Function.update db "friends" none := by
  rw [← Option.isSome_iff_ne_none] at hfriends harchive
  rw [removeLegacyFriends, regclass, if_pos hfriends, createTableAs_exists harchive] at h
  exact dropTable_ok h

/-- A new archive has the rows of the table. -/
theorem removeLegacyFriends_new (hfriends : db "friends" ≠ none) (harchive : db archive = none)
    (h : removeLegacyFriends db = .ok db') :
    db' = Function.update (Function.update db archive
      (some ⟨.table, rowsOf db "friends", []⟩)) "friends" none := by
  rw [← Option.isSome_iff_ne_none] at hfriends
  rw [removeLegacyFriends, regclass, if_pos hfriends] at h
  cases hcreate : createTableAs archive (selectAll "friends") db with
  | error e =>
      rw [hcreate] at h
      cases h
  | ok mid =>
      rw [hcreate] at h
      obtain ⟨rows, hrows, rfl⟩ := createTableAs_ok harchive hcreate
      rw [dropTable_ok h, selectAll_ok hrows]

/-- **The legacy contacts.** Where the migration runs, it loses no contact exactly when
there is no such table, no archive yet, or an archive that has all of the table. -/
theorem archived_iff (h : removeLegacyFriends db = .ok db') :
    Archived db db' ↔ db "friends" = none ∨ db archive = none ∨
      ∀ row ∈ rowsOf db "friends", row ∈ rowsOf db archive := by
  -- nothing to migrate, also when the script runs again
  by_cases hfriends : db "friends" = none
  · rw [removeLegacyFriends_of_none hfriends] at h
    obtain rfl := Except.ok.inj h
    refine iff_of_true ⟨?_, fun _ => id, hfriends, removeLegacyFriends_of_none hfriends⟩
      (.inl hfriends)
    intro row hrow
    rw [rowsOf, hfriends] at hrow
    cases hrow
  -- `CREATE TABLE AS` copies only if there is no archive
  by_cases harchive : db archive = none
  · have hdb := removeLegacyFriends_new hfriends harchive h
    have hrows : rowsOf db' archive = rowsOf db "friends" := by
      rw [hdb, rowsOf_update_ne archive_ne_friends, rowsOf_update]
    have hdropped : db' "friends" = none := by rw [hdb, Function.update_self]
    refine iff_of_true ⟨?_, ?_, hdropped, removeLegacyFriends_of_none hdropped⟩
      (.inr (.inl harchive))
    · intro row hrow
      rw [hrows]
      exact hrow
    · intro row hrow
      rw [rowsOf, harchive] at hrow
      cases hrow
  · have hdb := removeLegacyFriends_exists hfriends harchive h
    have hrows : rowsOf db' archive = rowsOf db archive := by
      rw [hdb, rowsOf_update_ne archive_ne_friends]
    have hdropped : db' "friends" = none := by rw [hdb, Function.update_self]
    constructor
    · intro hmoved
      refine .inr (.inr fun row hrow => ?_)
      rw [← hrows]
      exact hmoved.moved row hrow
    · rintro (hnone | hnone | hall)
      · exact absurd hnone hfriends
      · exact absurd hnone harchive
      · refine ⟨?_, ?_, hdropped, removeLegacyFriends_of_none hdropped⟩
        · intro row hrow
          rw [hrows]
          exact hall row hrow
        · intro row hrow
          rw [hrows]
          exact hrow

/-- The table has one row and there is no archive: the row is there afterwards. -/
theorem archived_iff_new :
    let row : LegacyFriend := ⟨1, 2, 0⟩
    let db : Schema LegacyFriend :=
      Function.update (fun _ => none) "friends" (some ⟨.table, [row], []⟩)
    let db' :=
      Function.update (Function.update db archive (some ⟨.table, [row], []⟩)) "friends" none
    removeLegacyFriends db = .ok db' ∧ Archived db db' := by
  intro row db db'
  have hrun : removeLegacyFriends db = .ok db' := rfl
  exact ⟨hrun, (archived_iff hrun).mpr (.inr (.inl rfl))⟩

/-- A table that was restored next to an empty archive. -/
theorem archived_lost :
    ¬ ∀ db db' : Schema LegacyFriend, removeLegacyFriends db = .ok db' → Archived db db' := by
  intro h
  let row : LegacyFriend := ⟨1, 2, 0⟩
  let db : Schema LegacyFriend := Function.update
    (Function.update (fun _ => none) "friends" (some ⟨.table, [row], []⟩)) archive
    (some ⟨.table, [], []⟩)
  have hmoved :=
    (h db (Function.update db "friends" none) rfl).moved row (List.mem_singleton_self _)
  exact List.not_mem_nil hmoved

end DevbitBackend.Migrations
