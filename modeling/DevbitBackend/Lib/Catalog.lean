import Mathlib.Logic.Function.Basic

/-!
# Catalog

The relations of one database schema by name, and the commands that create and drop
them. Rows are of any type, and only their presence matters.
-/

namespace Catalog

/-- Relations of every kind share one name space. -/
inductive RelKind
  | table
  | view
  | materializedView
  | sequence
  | index
  deriving DecidableEq, Repr

structure Relation (ρ : Type*) where
  kind : RelKind
  rows : List ρ
  /-- Views and constraints that refer to it. -/
  dependents : List String

inductive DdlError
  | undefinedTable
  | wrongObjectType
  | dependentObjectsStillExist
  deriving DecidableEq, Repr

abbrev Schema (ρ : Type*) := String → Option (Relation ρ)

variable {ρ : Type*} {name other : String} {s s' : Schema ρ}

/-- The rows under a name. -/
def rowsOf (s : Schema ρ) (name : String) : List ρ := ((s name).map Relation.rows).getD []

/-- `to_regclass(name) IS NOT NULL`. -/
def regclass (s : Schema ρ) (name : String) : Bool := (s name).isSome

/-- `SELECT * FROM name`. -/
def selectAll (name : String) (s : Schema ρ) : Except DdlError (List ρ) :=
  match s name with
  | none => .error .undefinedTable
  | some relation =>
      if relation.kind = .index then .error .wrongObjectType else .ok relation.rows

/-- `CREATE TABLE IF NOT EXISTS name AS query`: a relation that exists is left alone. -/
def createTableAs (name : String) (query : Schema ρ → Except DdlError (List ρ)) (s : Schema ρ) :
    Except DdlError (Schema ρ) :=
  if (s name).isSome then .ok s
  else (query s).map fun rows => Function.update s name (some ⟨.table, rows, []⟩)

/-- `DROP TABLE name`, without `CASCADE`. -/
def dropTable (name : String) (s : Schema ρ) : Except DdlError (Schema ρ) :=
  match s name with
  | none => .error .undefinedTable
  | some relation =>
      if relation.kind ≠ .table then .error .wrongObjectType
      else if relation.dependents ≠ [] then .error .dependentObjectsStillExist
      else .ok (Function.update s name none)

theorem selectAll_ok {rows : List ρ} (h : selectAll name s = .ok rows) : rows = rowsOf s name := by
  unfold selectAll at h
  split at h
  · cases h
  · rename_i relation hname
    split at h
    · cases h
    · obtain rfl := Except.ok.inj h
      simp [rowsOf, hname]

theorem dropTable_ok (h : dropTable name s = .ok s') : s' = Function.update s name none := by
  unfold dropTable at h
  split at h
  · cases h
  split at h
  · cases h
  split at h
  · cases h
  · exact (Except.ok.inj h).symm

theorem createTableAs_exists {query : Schema ρ → Except DdlError (List ρ)} (h : (s name).isSome) :
    createTableAs name query s = .ok s := if_pos h

theorem createTableAs_ok {query : Schema ρ → Except DdlError (List ρ)}
    (hnew : s name = none) (h : createTableAs name query s = .ok s') :
    ∃ rows, query s = .ok rows ∧ s' = Function.update s name (some ⟨.table, rows, []⟩) := by
  rw [createTableAs, if_neg (by simp [hnew])] at h
  cases hquery : query s with
  | error e =>
      rw [hquery] at h
      cases h
  | ok rows =>
      rw [hquery] at h
      exact ⟨rows, rfl, (Except.ok.inj h).symm⟩

/-- What another name holds is not changed. -/
theorem rowsOf_update_ne (h : other ≠ name) (relation : Option (Relation ρ)) :
    rowsOf (Function.update s name relation) other = rowsOf s other := by
  rw [rowsOf, Function.update_of_ne h, rowsOf]

theorem rowsOf_update (relation : Relation ρ) :
    rowsOf (Function.update s name (some relation)) name = relation.rows := by
  rw [rowsOf, Function.update_self, Option.map_some, Option.getD_some]

end Catalog
