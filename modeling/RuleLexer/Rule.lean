import RuleLexer.CharClass

/-!
The rules that say how a text is cut into tokens.

* `Rule`: runs of a class of characters, literals, delimited sections and escape characters;
* `Rule.discarded`, `Rule.nesting`: a rule with one of its flags set;
* `Rule.defect?`: the first thing that makes a rule unusable, if any;
* `RuleError`: a defect together with the place of the rule, and its message.
-/

namespace RuleLexer

variable {κ : Type}

/-- A rule that recognises the tokens of one kind. A rule that discards consumes its part of the
text and emits no token for it. -/
inductive Rule (κ : Type) where
  /-- A longest stretch of characters that `charClass` accepts. -/
  | run (kind : κ) (charClass : CharClass) (discard : Bool := false)
  /-- One fixed text. -/
  | literal (kind : κ) (text : String) (discard : Bool := false)
  /-- A section between an opening marker and the first of several closing markers. The inside of
  a nested section is tokenized; that of any other section is taken as it stands. -/
  | delimited (kind : κ) (opening : String) (closings : List String) (nested : Bool := false)
      (discard : Bool := false)
  /-- A character that escapes the character after it. -/
  | escape (char : Char)
deriving DecidableEq, Repr

namespace Rule

/-- The rule with its matches discarded. An escape emits nothing and stays as it is. -/
def discarded : Rule κ → Rule κ
  | run kind charClass _ => run kind charClass true
  | literal kind text _ => literal kind text true
  | delimited kind opening closings nested _ => delimited kind opening closings nested true
  | escape char => escape char

/-- The section with its inside tokenized. Other rules stay as they are. -/
def nesting : Rule κ → Rule κ
  | delimited kind opening closings _ discard => delimited kind opening closings true discard
  | rule => rule

/-- The kind of the tokens that the rule emits. -/
def kind? : Rule κ → Option κ
  | run kind _ _ => some kind
  | literal kind _ _ => some kind
  | delimited kind _ _ _ _ => some kind
  | escape _ => none

/-- Whether matches of the rule are discarded. -/
def discards : Rule κ → Bool
  | run _ _ discard => discard
  | literal _ _ discard => discard
  | delimited _ _ _ _ discard => discard
  | escape _ => false

end Rule

/-! ### Malformed rules -/

/-- What makes a rule unusable: a marker without characters would match everywhere. -/
inductive RuleDefect where
  | emptyLiteral
  | emptyOpening
  | noClosing
  | emptyClosing
deriving DecidableEq, Repr

/-- What is wrong with a rule; the first defect in the order of `RuleDefect`, if any. -/
def Rule.defect? : Rule κ → Option RuleDefect
  | literal _ text _ => if text = "" then some .emptyLiteral else none
  | delimited _ opening closings _ _ =>
      if opening = "" then some .emptyOpening
      else if closings = [] then some .noClosing
      else if "" ∈ closings then some .emptyClosing
      else none
  | run _ _ _ => none
  | escape _ => none

namespace RuleDefect

/-- The defect in words. -/
def text : RuleDefect → String
  | emptyLiteral => "literal text must not be empty"
  | emptyOpening => "section begin marker must not be empty"
  | noClosing => "section must declare at least one end marker"
  | emptyClosing => "section end marker must not be empty"

/-- The code under which a defect is reported. -/
def code : RuleDefect → String
  | emptyLiteral => "rulescan::empty_literal"
  | emptyOpening => "rulescan::empty_section_begin"
  | noClosing => "rulescan::no_section_end"
  | emptyClosing => "rulescan::empty_section_end"

end RuleDefect

/-- A defect of the rule at a place in the list of rules. -/
structure RuleError where
  index : Nat
  defect : RuleDefect
deriving DecidableEq, Repr

/-- The place of the rule, counted from 0, and what is wrong with it. -/
def RuleError.message (e : RuleError) : String :=
  "rule #" ++ toString e.index ++ ": " ++ e.defect.text

/-- Checks the rule at place `index`. -/
def Rule.validate (index : Nat) (rule : Rule κ) : Except RuleError Unit :=
  match rule.defect? with
  | some defect => .error ⟨index, defect⟩
  | none => .ok ()

/-- Checks the rules one after another; `index` is the place of the first. -/
def Rule.validateAll (index : Nat) : List (Rule κ) → Except RuleError Unit
  | [] => .ok ()
  | rule :: rest =>
      match rule.validate index with
      | .error e => .error e
      | .ok () => validateAll (index + 1) rest

end RuleLexer
