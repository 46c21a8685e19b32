import Mathlib.Data.List.Basic

/-!
# Json

Records of integers and texts as JSON objects. A record is a list of fields, and is read by
the names of its fields: members that it does not know are ignored, and each of its own has
to be there once. So a record reads back what it has written (`decode_encode`), and nothing
of a record that lacks one of its fields (`decode_foreign`).
-/

namespace Json

/-- A value. Records of integers and texts do not tell any others apart. -/
inductive Value
  | int (n : Int)
  | str (s : String)
  | other
  deriving DecidableEq, Repr

/-- A document: an array, an object with its members as they stand there, or neither. -/
inductive Doc
  | arr (values : List Value)
  | obj (members : List (String × Value))
  | value (v : Value)
  deriving DecidableEq, Repr

/-- The value is the same for every reader: a text, or an integer of 64 bits with a
sign. -/
def Value.Exact : Value → Prop
  | .int n => -9223372036854775808 ≤ n ∧ n ≤ 9223372036854775807
  | .str _ => True
  | .other => False

instance : DecidablePred Value.Exact
  | .int n => inferInstanceAs (Decidable (-9223372036854775808 ≤ n ∧ n ≤ 9223372036854775807))
  | .str _ => isTrue trivial
  | .other => isFalse id

/-! ### Fields -/

structure Field (α : Type) where
  name : String
  write : α → Value
  read : Value → Option α

namespace Field

variable {α : Type} {f : Field α} {a : α} {members extra : List (String × Value)}

/-- A signed integer of 64 bits. -/
def int64 (name : String) : Field Int where
  name := name
  write := .int
  read
    | .int n => if (Value.int n).Exact then some n else none
    | _ => none

/-- A text in a format. -/
def text (name : String) (format : α → String) (parse : String → Option α) : Field α where
  name := name
  write a := .str (format a)
  read
    | .str s => parse s
    | _ => none

/-- The field reads `a` back. -/
structure Keeps (f : Field α) (a : α) : Prop where
  exact : (f.write a).Exact
  read_write : f.read (f.write a) = some a

theorem keeps_int64 {name : String} {n : Int} (h : (Value.int n).Exact) :
    (int64 name).Keeps n where
  exact := h
  read_write := if_pos h

theorem keeps_text {name : String} {format : α → String} {parse : String → Option α}
    (h : parse (format a) = some a) : (text name format parse).Keeps a where
  exact := trivial
  read_write := h

/-- The only member with the name of the field, as the field reads it. -/
def find (f : Field α) (members : List (String × Value)) : Option α :=
  match members.filter (·.1 == f.name) with
  | [m] => f.read m.2
  | _ => none

theorem find_append (h : ∀ m ∈ extra, m.1 ≠ f.name) :
    f.find (extra ++ members) = f.find members := by
  have hnil : extra.filter (·.1 == f.name) = [] :=
    List.filter_eq_nil_iff.mpr fun m hm => by simpa using h m hm
  rw [find, find, List.filter_append, hnil, List.nil_append]

theorem find_none (h : ∀ m ∈ members, m.1 ≠ f.name) : f.find members = none := by
  rw [← List.append_nil members, find_append h]
  rfl

theorem find_cons (h : ∀ m ∈ members, m.1 ≠ f.name) (v : Value) :
    f.find ((f.name, v) :: members) = f.read v := by
  have hnil : members.filter (·.1 == f.name) = [] :=
    List.filter_eq_nil_iff.mpr fun m hm => by simpa using h m hm
  rw [find, List.filter_cons_of_pos (by simp), hnil]

end Field

/-! ### Records -/

inductive Record : Type → Type 1
  | nil : Record Unit
  | cons {α β : Type} (f : Field α) (r : Record β) : Record (α × β)

namespace Record

variable {α β : Type}

def names {α : Type} : Record α → List String
  | nil => []
  | cons f r => f.name :: r.names

/-- The members of a record, in the order of its fields. -/
def members {α : Type} : Record α → α → List (String × Value)
  | nil, _ => []
  | cons f r, (a, b) => (f.name, f.write a) :: r.members b

/-- From the members of an object. -/
def ofMembers {α : Type} : Record α → List (String × Value) → Option α
  | nil, _ => some ()
  | cons f r, ms => (f.find ms).bind fun a => (r.ofMembers ms).map fun b => (a, b)

/-- From the values of an array, as many as there are fields. -/
def ofValues {α : Type} : Record α → List Value → Option α
  | nil, [] => some ()
  | nil, _ :: _ => none
  | cons _ _, [] => none
  | cons f r, v :: vs => (f.read v).bind fun a => (r.ofValues vs).map fun b => (a, b)

def write (r : Record α) (a : α) : Doc := .obj (r.members a)

def read (r : Record α) : Doc → Option α
  | .obj ms => r.ofMembers ms
  | .arr vs => r.ofValues vs
  | .value _ => none

/-- Each field reads its part back. -/
def Keeps {α : Type} : Record α → α → Prop
  | nil, _ => True
  | cons f r, (a, b) => f.Keeps a ∧ r.Keeps b

variable {r : Record α} {r' : Record β} {a : α} {b : β}

theorem names_members (r : Record α) (a : α) : (r.members a).map Prod.fst = r.names := by
  induction r with
  | nil => rfl
  | cons f r ih =>
      obtain ⟨a, b⟩ := a
      simp only [members, names, List.map_cons, ih]

/-- Every member has the name of a field. -/
theorem mem_names {m : String × Value} (h : m ∈ r.members a) : m.1 ∈ r.names := by
  rw [← names_members r a]
  exact List.mem_map_of_mem h

theorem Keeps.exact (h : r.Keeps a) : ∀ m ∈ r.members a, m.2.Exact := by
  induction r with
  | nil => exact nofun
  | cons f r ih =>
      obtain ⟨a, b⟩ := a
      obtain ⟨hf, hr⟩ := h
      exact List.forall_mem_cons.mpr ⟨hf.exact, ih hr⟩

/-- Members that the record does not know are ignored. -/
theorem ofMembers_append {extra ms : List (String × Value)} (h : ∀ m ∈ extra, m.1 ∉ r.names) :
    r.ofMembers (extra ++ ms) = r.ofMembers ms := by
  induction r with
  | nil => rfl
  | cons f r ih =>
      have hf : f.find (extra ++ ms) = f.find ms :=
        Field.find_append fun m hm heq => h m hm (heq ▸ List.mem_cons_self)
      rw [ofMembers, ofMembers, hf, ih fun m hm hmem => h m hm (List.mem_cons_of_mem _ hmem)]

/-- A member that is missing is an error. -/
theorem ofMembers_none {ms : List (String × Value)} {name : String} (hname : name ∈ r.names)
    (h : ∀ m ∈ ms, m.1 ≠ name) : r.ofMembers ms = none := by
  induction r with
  | nil => cases hname
  | cons f r ih =>
      rw [ofMembers]
      rcases List.mem_cons.mp hname with rfl | hrest
      · rw [Field.find_none h]
        rfl
      · rw [ih hrest]
        cases f.find ms <;> rfl

theorem read_write (hnames : r.names.Nodup) (h : r.Keeps a) : r.read (r.write a) = some a := by
  induction r with
  | nil => rfl
  | cons f r ih =>
      obtain ⟨a, b⟩ := a
      obtain ⟨hf, hr⟩ := h
      obtain ⟨hnew, hnames⟩ := List.nodup_cons.mp hnames
      have hrest : r.ofMembers (r.members b) = some b := ih hnames hr
      have hfind : f.find ((f.name, f.write a) :: r.members b) = some a := by
        rw [Field.find_cons fun m hm heq => hnew (heq ▸ mem_names hm), hf.read_write]
      have hskip : r.ofMembers ((f.name, f.write a) :: r.members b) = some b := by
        rw [← hrest]
        exact @ofMembers_append _ r [(f.name, f.write a)] _ (by simpa using hnew)
      simp only [read, write, members, ofMembers, hfind, hskip, Option.bind_some, Option.map_some]

/-- A record that lacks a field is none of those that have it. -/
theorem read_foreign {name : String} (hname : name ∈ r.names) (hother : name ∉ r'.names) (b : β) :
    r.read (r'.write b) = none :=
  ofMembers_none hname fun _ hm heq => hother (heq ▸ mem_names hm)

end Record

/-! ### Bytes -/

/-- A writer and a reader of documents. -/
structure Engine where
  toVec : Doc → Option (List UInt8)
  fromSlice : List UInt8 → Option Doc

namespace Engine

/-- What its users rely on. -/
structure Lawful (engine : Engine) : Prop where
  fromSlice_toVec : ∀ ms : List (String × Value), (∀ m ∈ ms, m.2.Exact) →
    ∃ bytes, engine.toVec (.obj ms) = some bytes ∧ engine.fromSlice bytes = some (.obj ms)
  fromSlice_nil : engine.fromSlice [] = none

variable {α β : Type} {engine : Engine} {r : Record α} {r' : Record β} {a : α} {b : β}

/-- The bytes of a record, and none at all if it cannot be written. -/
def encode (engine : Engine) (r : Record α) (a : α) : List UInt8 :=
  (engine.toVec (r.write a)).getD []

def decode (engine : Engine) (r : Record α) (bytes : List UInt8) : Option α :=
  (engine.fromSlice bytes).bind r.read

theorem fromSlice_encode (h : engine.Lawful) (hkeeps : r.Keeps a) :
    engine.fromSlice (engine.encode r a) = some (r.write a) := by
  obtain ⟨bytes, hbytes, hread⟩ := h.fromSlice_toVec (r.members a) hkeeps.exact
  rw [encode, Record.write, hbytes]
  exact hread

theorem encode_ne_nil (h : engine.Lawful) (hkeeps : r.Keeps a) : engine.encode r a ≠ [] := by
  intro hnil
  have hread := fromSlice_encode h hkeeps
  rw [hnil, h.fromSlice_nil] at hread
  cases hread

theorem decode_encode (h : engine.Lawful) (hnames : r.names.Nodup) (hkeeps : r.Keeps a) :
    engine.decode r (engine.encode r a) = some a := by
  rw [decode, fromSlice_encode h hkeeps, Option.bind_some, Record.read_write hnames hkeeps]

theorem decode_foreign (h : engine.Lawful) {name : String} (hname : name ∈ r.names)
    (hother : name ∉ r'.names) (hkeeps : r'.Keeps b) :
    engine.decode r (engine.encode r' b) = none := by
  rw [decode, fromSlice_encode h hkeeps, Option.bind_some, Record.read_foreign hname hother]

end Engine

end Json
