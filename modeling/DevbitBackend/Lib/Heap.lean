import Mathlib.Data.List.MinMax
import Mathlib.Data.List.Nodup

/-!
# Heap

Tables as the rows at their addresses (`ctid`), no two at one address. A `DELETE` that
joins a table with itself judges every row on the table as it was. The one that deletes a
row when a later row has its key leaves the last row of each key
(`filter_keepLast`), and so a table that a unique index can be built on.
-/

namespace HeapTable

/-- A row and its address. -/
structure Tuple (ι ρ : Type*) where
  ctid : ι
  row : ρ
  deriving DecidableEq, Repr

@[ext]
structure Heap (ι ρ : Type*) where
  tuples : List (Tuple ι ρ)
  distinct : (tuples.map Tuple.ctid).Nodup

namespace Heap

variable {ι ρ κ : Type*} {t : Heap ι ρ} {a b : Tuple ι ρ}

/-- `DELETE FROM t a USING t b WHERE cond a b`. -/
def deleteUsing (cond : Tuple ι ρ → Tuple ι ρ → Bool) (t : Heap ι ρ) : Heap ι ρ where
  tuples := t.tuples.filter fun a => !t.tuples.any (cond a)
  distinct := t.distinct.sublist (List.filter_sublist.map _)

/-- No two rows have the same key. -/
def Unique (key : ρ → κ) (t : Heap ι ρ) : Prop := (t.tuples.map fun a => key a.row).Nodup

instance [DecidableEq κ] (key : ρ → κ) (t : Heap ι ρ) : Decidable (t.Unique key) :=
  inferInstanceAs (Decidable (List.Nodup _))

theorem mem_deleteUsing {cond : Tuple ι ρ → Tuple ι ρ → Bool} :
    a ∈ (t.deleteUsing cond).tuples ↔ a ∈ t.tuples ∧ ∀ b ∈ t.tuples, cond a b = false := by
  simp [deleteUsing]

theorem sublist_deleteUsing (cond : Tuple ι ρ → Tuple ι ρ → Bool) :
    (t.deleteUsing cond).tuples.Sublist t.tuples := List.filter_sublist

/-- Nothing is deleted where no row meets the condition with another. -/
theorem deleteUsing_eq_self {cond : Tuple ι ρ → Tuple ι ρ → Bool}
    (h : ∀ a ∈ t.tuples, ∀ b ∈ t.tuples, cond a b = false) : t.deleteUsing cond = t := by
  refine Heap.ext (List.filter_eq_self.mpr fun a ha => ?_)
  simpa using h a ha

/-- An address has one row, so rows are told apart by their addresses. -/
theorem eq_of_ctid (ha : a ∈ t.tuples) (hb : b ∈ t.tuples) (h : a.ctid = b.ctid) : a = b :=
  List.inj_on_of_nodup_map t.distinct ha hb h

theorem nodup_tuples (t : Heap ι ρ) : t.tuples.Nodup := t.distinct.of_map

/-! ### The last row of each key -/

section Last

variable [LinearOrder ι] [DecidableEq κ] {key : ρ → κ}

/-- No row of the table with the same key has a greater address. -/
structure IsLast (key : ρ → κ) (t : Heap ι ρ) (a : Tuple ι ρ) : Prop where
  mem : a ∈ t.tuples
  le : ∀ b ∈ t.tuples, key b.row = key a.row → b.ctid ≤ a.ctid

/-- The rows that no later row with the same key follows. -/
def keepLast (key : ρ → κ) (t : Heap ι ρ) : Heap ι ρ :=
  t.deleteUsing fun a b => key a.row = key b.row && a.ctid < b.ctid

theorem mem_keepLast : a ∈ (t.keepLast key).tuples ↔ IsLast key t a := by
  unfold keepLast
  rw [mem_deleteUsing]
  constructor
  · rintro ⟨hmem, hnone⟩
    refine ⟨hmem, fun b hb hkey => not_lt.mp fun hlt => ?_⟩
    have hcond := hnone b hb
    rw [hkey] at hcond
    simp [hlt] at hcond
  · rintro ⟨hmem, hle⟩
    refine ⟨hmem, fun b hb => ?_⟩
    by_cases hkey : key a.row = key b.row
    · simpa [hkey] using hle b hb hkey.symm
    · simp [hkey]

/-- Every key has a last row: the one at the maximum of its addresses. -/
theorem exists_isLast (hb : b ∈ t.tuples) : ∃ a, IsLast key t a ∧ key a.row = key b.row := by
  have hgroup : b ∈ t.tuples.filter fun a => key a.row = key b.row :=
    List.mem_filter.mpr ⟨hb, decide_eq_true rfl⟩
  cases hmax : (t.tuples.filter fun a => key a.row = key b.row).argmax Tuple.ctid with
  | none =>
      rw [List.argmax_eq_none.mp hmax] at hgroup
      cases hgroup
  | some a =>
      obtain ⟨ha, hkey⟩ := List.mem_filter.mp (List.argmax_mem hmax)
      have hsame : key a.row = key b.row := of_decide_eq_true hkey
      refine ⟨a, ⟨ha, fun c hc hckey => ?_⟩, hsame⟩
      exact List.le_of_mem_argmax
        (List.mem_filter.mpr ⟨hc, decide_eq_true (hckey.trans hsame)⟩) hmax

omit [DecidableEq κ] in
/-- A key has one last row. -/
theorem IsLast.eq (ha : IsLast key t a) (hb : IsLast key t b) (hkey : key a.row = key b.row) :
    a = b :=
  eq_of_ctid ha.mem hb.mem (le_antisymm (hb.le a ha.mem hkey) (ha.le b hb.mem hkey.symm))

/-- **What is left of a key** is its last row. -/
theorem filter_keepLast (ha : IsLast key t a) :
    ((t.keepLast key).tuples.filter fun b => key b.row = key a.row) = [a] := by
  refine List.perm_singleton.mp ((List.perm_ext_iff_of_nodup
    ((t.keepLast key).nodup_tuples.filter _) (List.nodup_singleton a)).mpr fun b => ?_)
  rw [List.mem_filter, mem_keepLast, List.mem_singleton, decide_eq_true_eq]
  constructor
  · rintro ⟨hb, hkey⟩
    exact hb.eq ha hkey
  · rintro rfl
    exact ⟨ha, rfl⟩

theorem unique_keepLast (key : ρ → κ) (t : Heap ι ρ) : (t.keepLast key).Unique key :=
  (t.keepLast key).nodup_tuples.map_on fun _ ha _ hb hkey =>
    (mem_keepLast.mp ha).eq (mem_keepLast.mp hb) hkey

/-- A table with unique keys keeps every row. -/
theorem Unique.keepLast_eq (h : t.Unique key) : t.keepLast key = t := by
  refine deleteUsing_eq_self fun a ha b hb => ?_
  by_cases hkey : key a.row = key b.row
  · rw [List.inj_on_of_nodup_map h ha hb hkey]
    simp
  · simp [hkey]

end Last

end Heap

/-! ### Unique indexes -/

/-- A table with its indexes. -/
structure Table (ι ρ : Type*) where
  heap : Heap ι ρ
  indexes : List String

inductive SqlError
  | uniqueViolation
  deriving DecidableEq, Repr

variable {ι ρ κ : Type*} [DecidableEq κ]

/-- `CREATE UNIQUE INDEX IF NOT EXISTS name ON t (key)`. -/
def createUniqueIndex (name : String) (key : ρ → κ) (t : Table ι ρ) :
    Except SqlError (Table ι ρ) :=
  if name ∈ t.indexes then .ok t
  else if t.heap.Unique key then .ok { t with indexes := name :: t.indexes }
  else .error .uniqueViolation

theorem createUniqueIndex_exists {name : String} {key : ρ → κ} {t : Table ι ρ}
    (h : name ∈ t.indexes) : createUniqueIndex name key t = .ok t := if_pos h

/-- An index over rows that are unique is made, and does not touch them. -/
theorem createUniqueIndex_of_unique (name : String) {key : ρ → κ} {t : Table ι ρ}
    (h : t.heap.Unique key) :
    ∃ indexes, name ∈ indexes ∧ createUniqueIndex name key t = .ok ⟨t.heap, indexes⟩ := by
  rw [createUniqueIndex, if_pos h]
  by_cases hname : name ∈ t.indexes
  · exact ⟨t.indexes, hname, if_pos hname⟩
  · exact ⟨name :: t.indexes, List.mem_cons_self, if_neg hname⟩

end HeapTable
