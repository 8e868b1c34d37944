import RuleLexer.Json.Description

/-!
What rule documents need of a library for JSON.

* `JsonReader`: reads values of described types from a text;
* `JsonWriter`: writes values of described types as a text.

Both are structures of functions and say nothing about how these work.
-/

namespace RuleLexer

/-- A way to read values of a type from sources, or to fail. -/
abbrev Decoder (Source Error α : Type) : Type :=
  Source → Except Error α

/-- What reads JSON texts. -/
structure JsonReader where
  /-- Where a value is read from. -/
  Source : Type
  /-- Why there is no such value. -/
  Error : Type
  leaf {α : Type} : Leaf α → Decoder Source Error α
  /-- A value or nothing. -/
  optional {α : Type} : Decoder Source Error α → Decoder Source Error (Option α)
  list {α : Type} : Decoder Source Error α → Decoder Source Error (List α)
  /-- A record, by a decoder for each field. -/
  record (R : RecordType) : Tuple (fun f => Decoder Source Error f.Value) R.fields →
    Decoder Source Error (Values R.fields)
  /-- A form and its record. -/
  tagged (T : TaggedType) :
    ((form : T.Form) → Tuple (fun f => Decoder Source Error f.Value) (T.record form).fields) →
      Decoder Source Error T.Value
  /-- The value that a whole text holds. -/
  fromText {α : Type} : Decoder Source Error α → String → Except Error α

namespace JsonReader

/-- The decoders of a reader. -/
abbrev Decoder (L : JsonReader) (α : Type) : Type :=
  RuleLexer.Decoder L.Source L.Error α

/-- A decoder for each of the fields. -/
abbrev Parts (L : JsonReader) (fields : List Field) : Type :=
  Tuple (fun f => L.Decoder f.Value) fields

end JsonReader

/-- What writes JSON texts. -/
structure JsonWriter where
  /-- What is written for a value. -/
  Tree : Type
  /-- Why there is no text. -/
  Error : Type
  leaf {α : Type} : Leaf α → α → Tree
  /-- A value or nothing. -/
  optional {α : Type} : (α → Tree) → Option α → Tree
  list {α : Type} : (α → Tree) → List α → Tree
  /-- A record, by an encoder for each field. -/
  record (R : RecordType) : Tuple (fun f => f.Value → Tree) R.fields → Values R.fields → Tree
  /-- A form and its record. -/
  tagged (T : TaggedType) :
    ((form : T.Form) → Tuple (fun f => f.Value → Tree) (T.record form).fields) → T.Value → Tree
  toText : Tree → Except Error String

namespace JsonWriter

/-- A way to write each of the fields. -/
abbrev Parts (W : JsonWriter) (fields : List Field) : Type :=
  Tuple (fun f => f.Value → W.Tree) fields

end JsonWriter

end RuleLexer
