import RuleLexer.Json.Interface
import RuleLexer.Json.Outline
import RuleLexer.Json.Shape

/-!
A reader of JSON texts.

A text is read from its beginning to its end, and the first thing that is wrong is reported. The
fields of a record are checked as they are met. A value of one of several forms is read whole before
its fields are checked, since its form may be named last.

* `Leaf.ofJson`: the values without parts;
* `JsonSource`: an outline that is read from, and how deep values may be nested in it;
* `Places`: the fields of a record that were read so far, and `Places.put?` for one more field;
* `JsonSource.record`, `JsonSource.tagged`: records, and records of one of several forms;
* `Json.reader`: the reader.
-/

namespace RuleLexer

/-! ### Values without parts -/

/-- A string is itself. -/
def textOf : Json → Except ShapeError String
  | .string s => .ok s
  | v => .error (.wrongType (.ofJson v) .text)

/-- A truth value. -/
def boolOf : Json → Except ShapeError Bool
  | .bool b => .ok b
  | v => .error (.wrongType (.ofJson v) .boolean)

/-- The character that a string of exactly one consists of. -/
def charOf : Json → Except ShapeError Char
  | .string s =>
      match s.toList with
      | [c] => .ok c
      | _ => .error (.wrongValue (.string s) .character)
  | v => .error (.wrongType (.ofJson v) .character)

/-- An integer that fits into 32 bits. -/
def int32Of : Json → Except ShapeError Int32
  | .integer n =>
      if Int32.minValue.toInt ≤ n ∧ n ≤ Int32.maxValue.toInt then .ok (Int32.ofInt n)
      else .error (.wrongValue (.integer n) .integer32)
  | v => .error (.wrongType (.ofJson v) .integer32)

/-- The value with a given name. -/
def Naming.lookUp {α : Type} (naming : Naming α) (name : String) : Except ShapeError α :=
  match naming.find? name with
  | some a => .ok a
  | none => .error (.unknownName name naming.known)

/-- The value with a name. The name may be the only key of an object, with nothing as its value. -/
def namedOf {α : Type} (naming : Naming α) : Json → Except ShapeError α
  | .string name => naming.lookUp name
  | .object [(name, value)] =>
      match naming.lookUp name, value with
      | .error e, _ => .error e
      | .ok a, .null => .ok a
      | .ok a, .object [] => .ok a
      | .ok _, v => .error (.wrongType (.ofJson v) .unit)
  | .object _ => .error (.wrongValue .map .singleKey)
  | v => .error (.wrongType (.ofJson v) .variant)

/-- The value that was written without parts. -/
def Leaf.ofJson : {α : Type} → Leaf α → Json → Except ShapeError α
  | _, text => textOf
  | _, bool => boolOf
  | _, char => charOf
  | _, int32 => int32Of
  | _, named naming => namedOf naming

/-! ### Sources -/

/-- An outline to read from. -/
structure JsonSource where
  /-- How deep arrays and objects may be nested. -/
  room : Nat
  outline : Outline

/-- A fault, if there is one. -/
def checkFault : Option Fault → Except DocumentError Unit
  | none => .ok ()
  | some f => .error (.fault f)

/-- The error of a value of another type than expected, or the fault in it. -/
def typeError {α : Type} (expected : Expected) (o : Outline) : Except DocumentError α :=
  match o.face with
  | .ok v => .error (.shape (.wrongType (.ofJson v) expected))
  | .error f => .error (.fault f)

namespace JsonSource

/-- The room for the parts of an array or object. -/
def inside (s : JsonSource) : Except DocumentError Nat :=
  match s.room with
  | 0 => .error (.fault .malformed)
  | room + 1 => .ok room

/-- Reads a value without parts. A name is looked for in an object too, which is read whole. -/
def leaf {α : Type} (t : Leaf α) (s : JsonSource) : Except DocumentError α := do
  let v ← (if t.isNamed then s.outline.read s.room else s.outline.face).mapError .fault
  (t.ofJson v).mapError .shape

/-- Reads a value, or nothing. -/
def optional {α : Type} (read : JsonSource → Except DocumentError α) (s : JsonSource) :
    Except DocumentError (Option α) :=
  match s.outline with
  | .null => .ok none
  | _ => (read s).map some

/-- Reads the items of an array. -/
def list {α : Type} (read : JsonSource → Except DocumentError α) (s : JsonSource) :
    Except DocumentError (List α) :=
  match s.outline with
  | .array items faults => do
      let room ← s.inside
      let values ← items.mapM fun o => read ⟨room, o⟩
      checkFault (faults.map (·.asRead))
      return values
  | o => typeError .sequence o

end JsonSource

/-! ### Records -/

/-- A decoder for each of the fields. -/
abbrev SourceParts (fields : List Field) : Type :=
  Tuple (fun f => Decoder JsonSource DocumentError f.Value) fields

/-- The fields that were read so far. -/
abbrev Places (fields : List Field) : Type :=
  Tuple (fun f => Option f.Value) fields

namespace Places

/-- No field was read. -/
def empty : (fields : List Field) → Places fields
  | [] => ()
  | _ :: fields => (none, empty fields)

/-- Reads the field with a given name, which must not have been read before. There may be no such
field. -/
def put? (key : String) (s : JsonSource) : {fields : List Field} → SourceParts fields →
    Places fields → Option (Except DocumentError (Places fields))
  | [], _, _ => none
  | f :: _, (read, parts), (place, places) =>
      if key = f.name then
        match place with
        | some _ => some (.error (.shape (.duplicateField f.name)))
        | none => some ((read s).map fun a => (some a, places))
      else (put? key s parts places).map (·.map fun places => (place, places))

/-- The values of all fields. Of those that must be given and were not, the number and the name of
the first are the error; `n` is the number of the first field of all. -/
def values (n : Nat) : {fields : List Field} → Places fields → Except (Nat × String) (Values fields)
  | [], _ => .ok ()
  | f :: _, (place, places) =>
      match place.or f.default? with
      | none => .error (n, f.name)
      | some a => (values (n + 1) places).map fun as => (a, as)

/-- Reads members in the order in which they are written. Members that are no fields are passed
over. -/
def readMembers {fields : List Field} (parts : SourceParts fields) (room : Nat)
    (places : Places fields) :
    List (Option String × Outline) → Except DocumentError (Places fields)
  | [] => .ok places
  | (none, _) :: _ => .error (.fault .malformed)
  | (some key, o) :: rest =>
      match put? key ⟨room, o⟩ parts places with
      | none => do
          checkFault o.skip?
          readMembers parts room places rest
      | some put => do
          let places ← put
          readMembers parts room places rest

end Places

namespace RecordType

/-- The values of a record that an object gives. -/
def ofPlaces (R : RecordType) (places : Places R.fields) :
    Except DocumentError (Values R.fields) :=
  (places.values 0).mapError fun (_, name) => .shape (.missingField name)

/-- The values of a record that an array gives. -/
def ofItemPlaces (R : RecordType) (places : Places R.fields) :
    Except DocumentError (Values R.fields) :=
  (places.values 0).mapError fun (n, _) =>
    .shape (.wrongLength n (.elements R.title R.fields.length))

/-- Items as members that have the names of the fields in their order, as far as there are items and
fields. -/
def nameItems (R : RecordType) (items : List Outline) : List (Option String × Outline) :=
  (R.fields.map fun f => some f.name).zip items

end RecordType

/-- Reads a record from an object, or from an array of its fields in their order. -/
def JsonSource.record (R : RecordType) (parts : SourceParts R.fields) (s : JsonSource) :
    Except DocumentError (Values R.fields) :=
  match s.outline with
  | .object members faults => do
      let room ← s.inside
      let places ← Places.readMembers parts room (.empty R.fields) members
      checkFault (faults.map (·.asRead))
      R.ofPlaces places
  | .array items faults => do
      let room ← s.inside
      let places ← Places.readMembers parts room (.empty R.fields) (R.nameItems items)
      if R.fields.length < items.length then .error (.fault .malformed)
      checkFault (faults.map (·.asRead))
      R.ofItemPlaces places
  | o => typeError (.titled R.title) o

/-! ### Records of several forms -/

/-- Reads a value only to see whether it can be read. -/
def Outline.check (room : Nat) (o : Outline) : Except DocumentError Unit :=
  ((o.read room).map fun _ => ()).mapError .fault

namespace TaggedType

variable (T : TaggedType)

/-- The form that a value names. -/
def formOf : Outline → Except DocumentError T.Form
  | .string s => (T.naming.lookUp s).mapError .shape
  | o => typeError .tag o

/-- The form that members name, and the other members. A form that is wrong or that is named twice
is reported at once. -/
def collect (room : Nat) (form : Option T.Form) : List (Option String × Outline) →
    Except DocumentError (Option T.Form × List (Option String × Outline))
  | [] => .ok (form, [])
  | (none, _) :: _ => .error (.fault .malformed)
  | (some key, o) :: rest =>
      if key = T.tag then
        if form.isSome then .error (.shape (.duplicateField T.tag))
        else do
          let form ← T.formOf o
          collect room (some form) rest
      else do
        o.check room
        let (form, members) ← collect room form rest
        return (form, (some key, o) :: members)

/-- The record of a form that the other members of an object give. -/
def ofMembers (parts : (form : T.Form) → SourceParts (T.record form).fields) (room : Nat)
    (form : T.Form) (members : List (Option String × Outline)) : Except DocumentError T.Value := do
  let places ← Places.readMembers (parts form) room (.empty _) members
  let values ← (T.record form).ofPlaces places
  return ⟨form, values⟩

/-- The record of a form that the other items of an array give. -/
def ofItems (parts : (form : T.Form) → SourceParts (T.record form).fields) (room : Nat)
    (form : T.Form) (items : List Outline) : Except DocumentError T.Value := do
  let places ← Places.readMembers (parts form) room (.empty _) ((T.record form).nameItems items)
  let values ← (T.record form).ofItemPlaces places
  let count := (T.record form).fields.length
  if count < items.length then .error (.shape (.wrongLength items.length (.onlyElements count)))
  return ⟨form, values⟩

end TaggedType

/-- Reads a form and its record from an object, or from an array with the form first. -/
def JsonSource.tagged (T : TaggedType)
    (parts : (form : T.Form) → SourceParts (T.record form).fields) (s : JsonSource) :
    Except DocumentError T.Value :=
  match s.outline with
  | .object members faults => do
      let room ← s.inside
      let (form, members) ← T.collect room none members
      checkFault (faults.map (·.asRead))
      match form with
      | none => .error (.shape (.missingField T.tag))
      | some form => T.ofMembers parts room form members
  | .array [] faults => do
      checkFault (faults.map (·.asRead))
      .error (.shape (.missingField T.tag))
  | .array (first :: items) faults => do
      let room ← s.inside
      let form ← T.formOf first
      items.forM (·.check room)
      checkFault (faults.map (·.asRead))
      T.ofItems parts room form items
  | o => typeError (.titled T.title) o

/-! ### Texts -/

/-- How deep arrays and objects may be nested in a text. -/
def Json.room : Nat := 127

/-- The reader of JSON texts. Nothing may follow the value of a text. -/
def Json.reader : JsonReader where
  Source := JsonSource
  Error := DocumentError
  leaf := JsonSource.leaf
  optional := JsonSource.optional
  list := JsonSource.list
  record := JsonSource.record
  tagged := JsonSource.tagged
  fromText read text := do
    let (outline, trailing) := Outline.ofText text
    let a ← read ⟨Json.room, outline⟩
    if trailing then .error (.fault .malformed) else return a

end RuleLexer
