import RuleLexer.Json.Interface
import RuleLexer.Kind
import RuleLexer.RuleSet.Basic

/-!
Rule sets as JSON documents.

What the JSON of a rule set looks like is said by descriptions; how texts are read and written is
left to a library for JSON, which is a parameter.

* `DocumentKind`: kinds that can be written into a document and read from one;
* `RuleForm`: the forms of rules, with the fields of each in `RuleForm.fields`;
* `Rule.type`, `RuleSet.type`: the types of rules and of documents;
* `Rule.decode`, `RuleSet.decode`, `RuleSet.fromText`: reading;
* `Rule.encode`, `RuleSet.encode`, `RuleSet.toText`: writing.
-/

namespace RuleLexer

variable {κ : Type}

/-! ### Kinds -/

/-- Kinds with a form in documents, which have no parts there. -/
class DocumentKind (κ : Type) where
  leaf : Leaf κ

/-- What is written for a kind. -/
def DocumentKind.toJson [DocumentKind κ] (kind : κ) : Json :=
  leaf.toJson kind

instance : DocumentKind String := ⟨.text⟩

instance : DocumentKind Int32 := ⟨.int32⟩

/-- The names of choices. -/
def Choice.naming (names : List String) : Naming (Choice names) where
  known := names
  find? := ofName?
  name := name
  find?_eq_some_iff {s c} := by
    rw [ofName?]
    split
    · constructor
      · rintro ⟨⟩
        rfl
      · rintro rfl
        rfl
    · rename_i h
      constructor
      · rintro ⟨⟩
      · rintro rfl
        exact absurd c.mem h

instance {names : List String} : DocumentKind (Choice names) := ⟨.named (Choice.naming names)⟩

/-! ### Descriptions -/

/-- The names of classes of characters. -/
def CharClass.naming : Naming CharClass where
  known := all.map name
  find? := ofName?
  name := name
  find?_eq_some_iff := find?_name_eq_some_iff (by intro c; cases c <;> decide)
    (by intro b c; cases b <;> cases c <;> decide)

/-- The forms in which a document writes rules. -/
inductive RuleForm where
  | run
  | literal
  | delimited
  | escape
deriving DecidableEq, Repr

namespace RuleForm

/-- All forms, in the order in which messages list them. -/
def all : List RuleForm :=
  [run, literal, delimited, escape]

/-- The name of a form, which a rule gives as its type. -/
def name : RuleForm → String
  | run => "characterRun"
  | literal => "literal"
  | delimited => "section"
  | escape => "escape"

/-- The name of a form in messages. -/
def title : RuleForm → String
  | run => "CharacterRun"
  | literal => "Literal"
  | delimited => "Section"
  | escape => "Escape"

/-- The names of forms. -/
def naming : Naming RuleForm where
  known := all.map name
  find? s := all.find? (name · = s)
  name := name
  find?_eq_some_iff := find?_name_eq_some_iff (by intro form; cases form <;> decide)
    (by intro form form'; cases form <;> cases form' <;> decide)

/-- The fields of a form, in the order in which they are written. -/
def fields (κ : Type) : RuleForm → List Field
  | run => [.required "kind" κ, .required "class" CharClass, .flag "discard"]
  | literal => [.required "kind" κ, .required "text" String, .flag "discard"]
  | delimited =>
      [.required "kind" κ, .required "begin" String, .required "end" (List String), .flag "nested",
        .flag "discard"]
  | escape => [.required "escape" Char]

/-- The names of the fields. -/
def fieldNames : RuleForm → List String
  | run => ["kind", "class", "discard"]
  | literal => ["kind", "text", "discard"]
  | delimited => ["kind", "begin", "end", "nested", "discard"]
  | escape => ["escape"]

theorem map_name_fields (κ : Type) (form : RuleForm) :
    (form.fields κ).map Field.name = form.fieldNames := by
  cases form <;> rfl

/-- The record that a rule of a form is written as. -/
def record (κ : Type) (form : RuleForm) : RecordType where
  title := "struct variant Rule::" ++ form.title
  fields := form.fields κ
  nodup := by
    rw [map_name_fields]
    cases form <;> decide

end RuleForm

namespace Rule

/-- Rules are written with their form as the type, and then with the fields of the form. -/
def type (κ : Type) : TaggedType where
  title := "internally tagged enum Rule"
  tag := "type"
  Form := RuleForm
  naming := RuleForm.naming
  record := RuleForm.record κ
  tag_notMem form := by
    show "type" ∉ (form.fields κ).map Field.name
    rw [RuleForm.map_name_fields]
    cases form <;> decide

/-- The rule with given values of its fields. -/
def ofValues : (type κ).Value → Rule κ
  | ⟨.run, (kind, charClass, discard, ())⟩ => run kind charClass discard
  | ⟨.literal, (kind, text, discard, ())⟩ => literal kind text discard
  | ⟨.delimited, (kind, opening, closings, nested, discard, ())⟩ =>
      delimited kind opening closings nested discard
  | ⟨.escape, (char, ())⟩ => escape char

/-- The form of a rule and the values of its fields. -/
def values : Rule κ → (type κ).Value
  | run kind charClass discard => ⟨.run, (kind, charClass, discard, ())⟩
  | literal kind text discard => ⟨.literal, (kind, text, discard, ())⟩
  | delimited kind opening closings nested discard =>
      ⟨.delimited, (kind, opening, closings, nested, discard, ())⟩
  | escape char => ⟨.escape, (char, ())⟩

end Rule

namespace RuleSet

/-- A document holds a name, which may be missing, and the rules. -/
def type (κ : Type) : RecordType where
  title := "struct RuleSetOptions"
  fields := [.optional "name" String, .required "rules" (List (Rule κ))]
  nodup := by
    show ["name", "rules"].Nodup
    decide

/-- The rule set with given values of its fields. -/
def ofValues : Values (type κ).fields → RuleSet κ
  | (name, rules, ()) => ⟨name, rules⟩

/-- The values of the fields of a rule set. -/
def values (s : RuleSet κ) : Values (type κ).fields :=
  (s.name, s.rules, ())

end RuleSet

/-! ### Reading -/

section Reading

variable [DocumentKind κ] (L : JsonReader)

/-- The decoders of the fields of a form. -/
def RuleForm.decoders : (form : RuleForm) → L.Parts (form.fields κ)
  | run => (L.leaf (DocumentKind.leaf : Leaf κ), L.leaf (.named CharClass.naming), L.leaf .bool, ())
  | literal => (L.leaf (DocumentKind.leaf : Leaf κ), L.leaf .text, L.leaf .bool, ())
  | delimited =>
      (L.leaf (DocumentKind.leaf : Leaf κ), L.leaf .text, L.list (L.leaf .text), L.leaf .bool,
        L.leaf .bool, ())
  | escape => (L.leaf .char, ())

/-- Reads a rule. -/
def Rule.decode : L.Decoder (Rule κ) := fun source =>
  (L.tagged (type κ) (RuleForm.decoders L) source).map ofValues

namespace RuleSet

/-- The decoders of the fields of a document. -/
def decoders : L.Parts (type κ).fields :=
  (L.optional (L.leaf .text), L.list (Rule.decode L), ())

/-- Reads a rule set. -/
def decode : L.Decoder (RuleSet κ) := fun source =>
  (L.record (type κ) (decoders L) source).map ofValues

/-- The rule set of a document. -/
def fromText (text : String) : Except L.Error (RuleSet κ) :=
  L.fromText (decode L) text

end RuleSet

end Reading

/-! ### Writing -/

section Writing

variable [DocumentKind κ] (W : JsonWriter)

/-- How the fields of a form are written. -/
def RuleForm.encoders : (form : RuleForm) → W.Parts (form.fields κ)
  | run => (W.leaf (DocumentKind.leaf : Leaf κ), W.leaf (.named CharClass.naming), W.leaf .bool, ())
  | literal => (W.leaf (DocumentKind.leaf : Leaf κ), W.leaf .text, W.leaf .bool, ())
  | delimited =>
      (W.leaf (DocumentKind.leaf : Leaf κ), W.leaf .text, W.list (W.leaf .text), W.leaf .bool,
        W.leaf .bool, ())
  | escape => (W.leaf .char, ())

/-- Writes a rule. -/
def Rule.encode (rule : Rule κ) : W.Tree :=
  W.tagged (type κ) (RuleForm.encoders W) rule.values

namespace RuleSet

/-- How the fields of a document are written. -/
def encoders : W.Parts (type κ).fields :=
  (W.optional (W.leaf .text), W.list (Rule.encode W), ())

/-- Writes a rule set. -/
def encode (s : RuleSet κ) : W.Tree :=
  W.record (type κ) (encoders W) s.values

/-- The document of a rule set. -/
def toText (s : RuleSet κ) : Except W.Error String :=
  W.toText (s.encode W)

end RuleSet

end Writing

end RuleLexer
