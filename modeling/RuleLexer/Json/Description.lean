import RuleLexer.Json.Value

/-!
Descriptions of types that are written as JSON.

* `Naming`: the names of the values of a type;
* `Leaf`: the types whose values are written without parts;
* `Field`, `Tuple`: the fields of a record, and something for each of them;
* `RecordType`: records, which are written as objects with a member for each field;
* `TaggedType`: records of one of several forms, which are written with the name of the form first.

A description holds what the declaration of a type says about its JSON and nothing about how a text
is read or written.
-/

namespace RuleLexer

/-! ### Values without parts -/

/-- The names of the values of a type. -/
structure Naming (α : Type) where
  /-- All names, in the order in which messages list them. -/
  known : List String
  find? : String → Option α
  name : α → String
  find?_eq_some_iff {s : String} {a : α} : find? s = some a ↔ s = name a

/-- In a list of all values, whose names differ, a name finds its value. -/
theorem find?_name_eq_some_iff {α : Type} {all : List α} {name : α → String}
    (hmem : ∀ a, a ∈ all) (hinj : ∀ a b, name a = name b → a = b) {s : String} {a : α} :
    all.find? (name · = s) = some a ↔ s = name a := by
  constructor
  · intro h
    simpa [eq_comm] using List.find?_some h
  · rintro rfl
    cases h : all.find? (name · = name a) with
    | none => simpa using List.find?_eq_none.1 h a (hmem a)
    | some b =>
        have hname : name b = name a := by simpa using List.find?_some h
        rw [hinj b a hname]

/-- The types whose values are written without parts. -/
inductive Leaf : Type → Type 1 where
  | text : Leaf String
  | bool : Leaf Bool
  /-- Characters, written as strings. -/
  | char : Leaf Char
  | int32 : Leaf Int32
  /-- Values that are written as their names. -/
  | named {α : Type} (naming : Naming α) : Leaf α

namespace Leaf

/-- What is written for a value. -/
def toJson : {α : Type} → Leaf α → α → Json
  | _, text, s => .string s
  | _, bool, b => .bool b
  | _, char, c => .string c.toString
  | _, int32, n => .integer n.toInt
  | _, named naming, a => .string (naming.name a)

/-- Whether values are written as their names. -/
def isNamed : {α : Type} → Leaf α → Bool
  | _, named _ => true
  | _, _ => false

end Leaf

/-! ### Records -/

/-- A field of a record. -/
structure Field where
  name : String
  Value : Type
  /-- The value of a field that is not given, unless it must be given. -/
  default? : Option Value := none
  /-- The values with which the field is left out when the record is written. -/
  omits : Value → Bool := fun _ => false

/-- A field that must be given. -/
abbrev Field.required (name : String) (Value : Type) : Field :=
  { name, Value }

/-- A flag, which is off when it is not given. -/
abbrev Field.flag (name : String) : Field :=
  { name, Value := Bool, default? := some false }

/-- A field that may be missing, and that is left out if there is nothing to write. -/
abbrev Field.optional (name : String) (Value : Type) : Field :=
  { name, Value := Option Value, default? := some none, omits := Option.isNone }

/-- Something for each of the fields. -/
abbrev Tuple (F : Field → Type) : List Field → Type
  | [] => Unit
  | f :: fs => F f × Tuple F fs

/-- A value for each of the fields. -/
abbrev Values (fields : List Field) : Type :=
  Tuple Field.Value fields

/-- A type of records. -/
structure RecordType where
  /-- The name of the type in messages. -/
  title : String
  fields : List Field
  nodup : (fields.map Field.name).Nodup

/-- A type of records of several forms. A member that is none of the fields names the form. -/
structure TaggedType where
  /-- The name of the type in messages. -/
  title : String
  /-- The key of the name of the form. -/
  tag : String
  Form : Type
  naming : Naming Form
  record : Form → RecordType
  tag_notMem (form : Form) : tag ∉ (record form).fields.map Field.name

/-- A form and a value for each of its fields. -/
abbrev TaggedType.Value (T : TaggedType) : Type :=
  (form : T.Form) × Values (T.record form).fields

end RuleLexer
