import RuleLexer.Json.Interface
import RuleLexer.Proofs.Json.Members

/-!
What a library for JSON has to do for rule documents.

* `Stage`: sources straight from a text, and those that were set aside;
* `GivesFields`: parts from which the fields of a record are read;
* `JsonReader.Lawful`: a reader that finds in a text the values of described types;
* `WritesFields`: members that are written for the fields of a record;
* `JsonWriter.Lawful`: a writer of texts that spell what a description says.

Nothing is asked of errors, and nothing of how a reader or a writer works.
-/

namespace RuleLexer

/-! ### Readers -/

/-- When a source is read. -/
inductive Stage where
  /-- When the text has been read up to it. -/
  | direct
  /-- After it was set aside, since the form of the value around it was not known yet. -/
  | kept

section GivesFields

variable {σ ε : Type}

/-- What is given for a field: one source that the value is read from, or none if the field has a
value when it is not given. -/
inductive GivesField (f : Field) (read : Decoder σ ε f.Value) : List σ → f.Value → Prop
  | once {source : σ} {a : f.Value} (h : read source = .ok a) : GivesField f read [source] a
  | missing {a : f.Value} (h : f.default? = some a) : GivesField f read [] a

/-- What is given for each of the fields, by members in any order. Other members do not matter. -/
def GivesFields : {fields : List Field} → Tuple (fun f => Decoder σ ε f.Value) fields →
    List (String × σ) → Values fields → Prop
  | [], _, _, _ => True
  | f :: _, (read, parts), sources, (a, values) =>
      GivesField f read (valuesOf f.name sources) a ∧ GivesFields parts sources values

end GivesFields

/-- The sources show the values of members and have their keys. -/
def ShowsMembers {σ : Type} (Shows : σ → Json → Prop) (sources : List (String × σ))
    (ms : List (String × Json)) : Prop :=
  List.Forall₂ (fun s m => s.1 = m.1 ∧ Shows s.2 m.2) sources ms

/-- The sources of items show the values of members that have the same names. -/
lemma showsMembers_zip {σ : Type} {Shows : σ → Json → Prop} {sources : List σ} {vs : List Json}
    (h : List.Forall₂ Shows sources vs) (names : List String) :
    ShowsMembers Shows (names.zip sources) (names.zip vs) := by
  induction h generalizing names with
  | nil =>
      rw [List.zip_nil_right, List.zip_nil_right]
      exact .nil
  | cons hsource _ ih =>
      cases names with
      | nil => exact .nil
      | cons name names => exact .cons ⟨rfl, hsource⟩ (ih names)

/-- The reader reads values of described types from texts that write them, if arrays and objects
are nested no deeper than `limit`. -/
structure JsonReader.Lawful (L : JsonReader) (Shows : Stage → L.Source → Json → Prop)
    (limit : ℕ) : Prop where
  /-- A text that writes a value is a source that shows it. -/
  fromText {text : String} {v : Json} (htext : v.SpelledBy text) (hdepth : v.depth ≤ limit) :
    ∃ source, Shows .direct source v ∧ ∀ {α : Type} (read : L.Decoder α) (a : α),
      L.fromText read text = .ok a ↔ read source = .ok a
  /-- A value without parts is read from what is written for it. What becomes of an object in the
  place of a name is left open. -/
  leaf {stage : Stage} {source : L.Source} {v : Json} (h : Shows stage source v) {α : Type}
    (t : Leaf α) (hv : t.isNamed → ¬ v.IsObject) (a : α) :
    L.leaf t source = .ok a ↔ v = t.toJson a
  /-- Nothing is written as null. -/
  optional {stage : Stage} {source : L.Source} {v : Json} (h : Shows stage source v) {α : Type}
    (read : L.Decoder α) (a? : Option α) : L.optional read source = .ok a?
      ↔ v = .null ∧ a? = none ∨ v ≠ .null ∧ ∃ a, read source = .ok a ∧ a? = some a
  /-- A list is read from an array, item by item. -/
  list {stage : Stage} {source : L.Source} {vs : List Json} (h : Shows stage source (.array vs)) :
    ∃ sources, List.Forall₂ (Shows stage) sources vs ∧ ∀ {α : Type} (read : L.Decoder α)
      (as : List α), L.list read source = .ok as
        ↔ List.Forall₂ (fun source a => read source = .ok a) sources as
  list_array {stage : Stage} {source : L.Source} {v : Json} (h : Shows stage source v) {α : Type}
    {read : L.Decoder α} {as : List α} (hread : L.list read source = .ok as) :
    ∃ vs, v = .array vs
  /-- A record is read from the members of an object. -/
  record_object {source : L.Source} {ms : List (String × Json)}
    (h : Shows .direct source (.object ms)) :
    ∃ sources, ShowsMembers (Shows .direct) sources ms ∧ ∀ (R : RecordType)
      (parts : L.Parts R.fields) (values : Values R.fields), L.record R parts source = .ok values
        ↔ GivesFields parts sources values
  /-- A record is read from an array of its fields in their order, of which the last may be
  missing. -/
  record_array {source : L.Source} {vs : List Json} (h : Shows .direct source (.array vs)) :
    ∃ sources, List.Forall₂ (Shows .direct) sources vs ∧ ∀ (R : RecordType)
      (parts : L.Parts R.fields) (values : Values R.fields), L.record R parts source = .ok values
        ↔ vs.length ≤ R.fields.length
          ∧ GivesFields parts ((R.fields.map Field.name).zip sources) values
  record_parts {source : L.Source} {v : Json} (h : Shows .direct source v) {R : RecordType}
    {parts : L.Parts R.fields} {values : Values R.fields}
    (hread : L.record R parts source = .ok values) : (∃ ms, v = .object ms) ∨ ∃ vs, v = .array vs
  /-- A record of one of several forms is read from an object that names the form once. -/
  tagged_object {source : L.Source} {ms : List (String × Json)}
    (h : Shows .direct source (.object ms)) :
    ∃ sources, ShowsMembers (Shows .kept) sources ms ∧ ∀ (T : TaggedType)
      (parts : (form : T.Form) → L.Parts (T.record form).fields) (form : T.Form)
      (values : Values (T.record form).fields), L.tagged T parts source = .ok ⟨form, values⟩
        ↔ valuesOf T.tag ms = [.string (T.naming.name form)]
          ∧ GivesFields (parts form) sources values
  /-- A record of one of several forms is read from an array with the name of the form first. -/
  tagged_array {source : L.Source} {first : Json} {vs : List Json}
    (h : Shows .direct source (.array (first :: vs))) :
    ∃ sources, List.Forall₂ (Shows .kept) sources vs ∧ ∀ (T : TaggedType)
      (parts : (form : T.Form) → L.Parts (T.record form).fields) (form : T.Form)
      (values : Values (T.record form).fields), L.tagged T parts source = .ok ⟨form, values⟩
        ↔ first = .string (T.naming.name form) ∧ vs.length ≤ (T.record form).fields.length
          ∧ GivesFields (parts form) (((T.record form).fields.map Field.name).zip sources) values
  tagged_parts {source : L.Source} {v : Json} (h : Shows .direct source v) {T : TaggedType}
    {parts : (form : T.Form) → L.Parts (T.record form).fields} {values : T.Value}
    (hread : L.tagged T parts source = .ok values) :
    (∃ ms, v = .object ms) ∨ ∃ first vs, v = .array (first :: vs)

/-! ### Writers -/

/-- The members that are written for the fields of a record: one for each field in their order,
unless the field is left out. -/
def WritesFields {τ : Type} (Writes : τ → Json → Prop) : {fields : List Field} →
    Tuple (fun f => f.Value → τ) fields → Values fields → List (String × Json) → Prop
  | [], _, _, ms => ms = []
  | f :: _, (write, parts), (a, values), ms =>
      f.omits a ∧ WritesFields Writes parts values ms ∨
        ¬ f.omits a ∧ ∃ v more, ms = (f.name, v) :: more ∧ Writes (write a) v ∧
          WritesFields Writes parts values more

lemma WritesFields.cons {τ : Type} {Writes : τ → Json → Prop} {f : Field} {fields : List Field}
    {write : f.Value → τ} {parts : Tuple (fun f => f.Value → τ) fields} {a : f.Value}
    {values : Values fields} {v : Json} {ms : List (String × Json)} (h : ¬ f.omits a)
    (hv : Writes (write a) v) (more : WritesFields Writes parts values ms) :
    @WritesFields τ Writes (f :: fields) (write, parts) (a, values) ((f.name, v) :: ms) :=
  .inr ⟨h, v, ms, rfl, hv, more⟩

/-- The writer writes values of described types as a text. -/
structure JsonWriter.Lawful (W : JsonWriter) (Writes : W.Tree → Json → Prop) : Prop where
  leaf {α : Type} (t : Leaf α) (a : α) : Writes (W.leaf t a) (t.toJson a)
  optional_some {α : Type} {write : α → W.Tree} {a : α} {v : Json} (h : Writes (write a) v) :
    Writes (W.optional write (some a)) v
  list {α : Type} {write : α → W.Tree} {as : List α} {vs : List Json}
    (h : List.Forall₂ (fun a v => Writes (write a) v) as vs) :
    Writes (W.list write as) (.array vs)
  record {R : RecordType} {parts : W.Parts R.fields} {values : Values R.fields}
    {ms : List (String × Json)} (h : WritesFields Writes parts values ms) :
    Writes (W.record R parts values) (.object ms)
  /-- The name of the form comes first. -/
  tagged {T : TaggedType} {parts : (form : T.Form) → W.Parts (T.record form).fields} {form : T.Form}
    {values : Values (T.record form).fields} {ms : List (String × Json)}
    (h : WritesFields Writes (parts form) values ms) :
    Writes (W.tagged T parts ⟨form, values⟩)
      (.object ((T.tag, .string (T.naming.name form)) :: ms))
  /-- There is a text for every value with integers of 64 bits, and it writes the value. -/
  toText {tree : W.Tree} {v : Json} (h : Writes tree v) (hv : v.Integral) :
    ∃ text, W.toText tree = .ok text ∧ v.SpelledBy text

end RuleLexer
