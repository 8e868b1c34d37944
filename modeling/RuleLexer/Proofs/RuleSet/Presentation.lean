import RuleLexer.Proofs.Json.Members
import RuleLexer.RuleSet.Basic

/-!
The JSON values that present a rule set, said without a reader.

* `valuesOf`: all the values that an object gives for a key;
* `PresentsFields`: members that give each field of a rule once, and flags at most once;
* `PresentsRule`: the two forms of a rule, an object with a type and an array with the type first;
* `PresentsSet`: the two forms of a rule set, an object and an array of the name and the rules;
* `Json.HasRule`, `Json.HasKind`, `Json.HasClass`: the places where a document has its rules, and a
  rule its kind and its class.

How kinds are written is a parameter. Members that belong to no field do not matter, and neither
does the order of the members.
-/

namespace RuleLexer

variable {κ : Type}

/-! ### Members -/

/-- Of the values given there is exactly one, and it stands for `a`. -/
def GivesOnce {α : Type} (Stands : Json → α → Prop) (given : List Json) (a : α) : Prop :=
  ∃ v, given = [v] ∧ Stands v a

/-- A flag is given at most once, and is off when it is not given. -/
inductive GivesFlag : List Json → Bool → Prop
  | absent : GivesFlag [] false
  | given (b : Bool) : GivesFlag [.bool b] b

/-! ### Rules -/

/-- The members give the fields of a rule. -/
inductive PresentsFields (Writes : Json → κ → Prop) (ms : List (String × Json)) : Rule κ → Prop
  | run {kind : κ} {charClass : CharClass} {discard : Bool}
      (hkind : GivesOnce Writes (valuesOf "kind" ms) kind)
      (hclass : valuesOf "class" ms = [.string charClass.name])
      (hdiscard : GivesFlag (valuesOf "discard" ms) discard) :
      PresentsFields Writes ms (.run kind charClass discard)
  | literal {kind : κ} {text : String} {discard : Bool}
      (hkind : GivesOnce Writes (valuesOf "kind" ms) kind)
      (htext : valuesOf "text" ms = [.string text])
      (hdiscard : GivesFlag (valuesOf "discard" ms) discard) :
      PresentsFields Writes ms (.literal kind text discard)
  | delimited {kind : κ} {opening : String} {closings : List String} {nested discard : Bool}
      (hkind : GivesOnce Writes (valuesOf "kind" ms) kind)
      (hopening : valuesOf "begin" ms = [.string opening])
      (hclosings : valuesOf "end" ms = [.array (closings.map .string)])
      (hnested : GivesFlag (valuesOf "nested" ms) nested)
      (hdiscard : GivesFlag (valuesOf "discard" ms) discard) :
      PresentsFields Writes ms (.delimited kind opening closings nested discard)
  | escape {char : Char} (hchar : valuesOf "escape" ms = [.string (String.ofList [char])]) :
      PresentsFields Writes ms (.escape char)

namespace Rule

/-- The type that a document gives for a rule. -/
def typeName : Rule κ → String
  | run .. => "characterRun"
  | literal .. => "literal"
  | delimited .. => "section"
  | escape _ => "escape"

/-- The fields of a rule in the order in which an array gives them. -/
def fieldNames : Rule κ → List String
  | run .. => ["kind", "class", "discard"]
  | literal .. => ["kind", "text", "discard"]
  | delimited .. => ["kind", "begin", "end", "nested", "discard"]
  | escape _ => ["escape"]

end Rule

/-- The value presents the rule. An array gives the fields in their order, and may end before a
flag. -/
inductive PresentsRule (Writes : Json → κ → Prop) : Json → Rule κ → Prop
  | object {ms : List (String × Json)} {rule : Rule κ}
      (htype : valuesOf "type" ms = [.string rule.typeName])
      (h : PresentsFields Writes ms rule) : PresentsRule Writes (.object ms) rule
  | array {items : List Json} {rule : Rule κ} (hlength : items.length ≤ rule.fieldNames.length)
      (h : PresentsFields Writes (rule.fieldNames.zip items) rule) :
      PresentsRule Writes (.array (.string rule.typeName :: items)) rule

/-! ### Rule sets -/

/-- The name of a rule set, or nothing for a set without a name. -/
inductive PresentsName : Json → Option String → Prop
  | null : PresentsName .null none
  | string (s : String) : PresentsName (.string s) (some s)

/-- A name is given at most once, and there is none when it is not given. -/
inductive GivesName : List Json → Option String → Prop
  | absent : GivesName [] none
  | given {v : Json} {name : Option String} (h : PresentsName v name) : GivesName [v] name

/-- The value presents the rule set. -/
inductive PresentsSet (Writes : Json → κ → Prop) : Json → RuleSet κ → Prop
  | object {ms : List (String × Json)} {items : List Json} {name : Option String}
      {rules : List (Rule κ)} (hname : GivesName (valuesOf "name" ms) name)
      (hrules : valuesOf "rules" ms = [.array items])
      (h : List.Forall₂ (PresentsRule Writes) items rules) :
      PresentsSet Writes (.object ms) ⟨name, rules⟩
  | array {v : Json} {items : List Json} {name : Option String} {rules : List (Rule κ)}
      (hname : PresentsName v name) (h : List.Forall₂ (PresentsRule Writes) items rules) :
      PresentsSet Writes (.array [v, .array items]) ⟨name, rules⟩

/-! ### Places in a document -/

namespace Json

/-- The second value stands in a document where there must be a rule. -/
inductive HasRule : Json → Json → Prop
  | object {ms : List (String × Json)} {items : List Json} {rule : Json}
      (hrules : .array items ∈ valuesOf "rules" ms) (h : rule ∈ items) : HasRule (.object ms) rule
  | array {v : Json} {items : List Json} {rule : Json} (h : rule ∈ items) :
      HasRule (.array [v, .array items]) rule

/-- The second value stands in a rule where there may be a kind. -/
inductive HasKind : Json → Json → Prop
  | object {ms : List (String × Json)} {kind : Json} (h : kind ∈ valuesOf "kind" ms) :
      HasKind (.object ms) kind
  | array {first kind : Json} {more : List Json} : HasKind (.array (first :: kind :: more)) kind

/-- The second value stands in a rule where there must be a class of characters. -/
inductive HasClass : Json → Json → Prop
  | object {ms : List (String × Json)} {charClass : Json}
      (htype : valuesOf "type" ms = [.string "characterRun"])
      (h : charClass ∈ valuesOf "class" ms) : HasClass (.object ms) charClass
  | array {kind charClass : Json} {more : List Json} :
      HasClass (.array (.string "characterRun" :: kind :: charClass :: more)) charClass

end Json

end RuleLexer
