import RuleLexer.Position

/-!
What the library reports while it works, in the order in which it happens.

* `Event`: the things that are reported;
* `Event.level`, `Event.message?`, `Event.span?`, `Event.fields`: the form of a report.
-/

namespace RuleLexer

/-- Something that is reported. -/
inductive Event where
  /-- A set of rules is about to be built, under its name if it has one. -/
  | building (name : Option String) (rules : Nat)
  /-- An index was built: how many rules, runs, fixed texts and escape characters it has. -/
  | indexed (rules runs fixedTexts escapes : Nat)
  /-- A text of so many bytes is about to be tokenized. -/
  | tokenizing (bytes : Nat)
  /-- A nested section begins. -/
  | entering (position : Position)
  /-- A text was cut into so many tokens. -/
  | tokenized (tokens : Nat)
deriving DecidableEq, Repr

/-- How important a report is. -/
inductive Event.Level where
  | debug
  | trace
deriving DecidableEq, Repr

/-- The value of a field of a report. -/
inductive Event.Value where
  | text (s : String)
  | count (n : Nat)
deriving DecidableEq, Repr

namespace Event

/-- Building is reported at the level `debug`, tokenizing at the level `trace`. -/
def level : Event → Level
  | building .. | indexed .. => .debug
  | tokenizing .. | entering .. | tokenized .. => .trace

/-- The name of the stretch of work that the report opens, if it opens one. -/
def span? : Event → Option String
  | tokenizing .. => some "tokenize"
  | _ => none

/-- The report in words, unless it opens a stretch of work. -/
def message? : Event → Option String
  | building .. => some "building tokenizer from rule set"
  | indexed .. => some "built tokenizer match index"
  | tokenizing .. => none
  | entering .. => some "entering nested section"
  | tokenized .. => some "tokenized input"

/-- The fields of the report. A set of rules without a name is reported as unnamed. -/
def fields : Event → List (String × Value)
  | building name rules =>
      [("name", .text (name.getD "<unnamed>")), ("rules", .count rules)]
  | indexed rules runs fixedTexts escapes =>
      [("rules", .count rules), ("runs", .count runs), ("literals", .count fixedTexts),
       ("escapes", .count escapes)]
  | tokenizing bytes => [("len", .count bytes)]
  | entering position =>
      [("line", .count position.line.val), ("column", .count position.column.val)]
  | tokenized tokens => [("tokens", .count tokens)]

end Event

end RuleLexer
