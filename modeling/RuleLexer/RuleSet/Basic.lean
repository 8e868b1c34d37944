import RuleLexer.Tokenizer

/-!
Rule sets: lists of rules that may have a name.

* `RuleSet.validate`: the first malformed rule, found without building anything;
* `RuleSet.build`: the tokenizer of the rules;
* `RuleSet.buildEvents`: what is reported while a tokenizer is built.
-/

namespace RuleLexer

variable {κ : Type}

/-- Rules in the order of their declaration, under a name that serves reports only. -/
structure RuleSet (κ : Type) where
  name : Option String := none
  rules : List (Rule κ)
deriving DecidableEq, Repr

namespace RuleSet

/-- Rules without a name. -/
def ofRules (rules : List (Rule κ)) : RuleSet κ :=
  { rules }

/-- Checks every rule. -/
def validate (s : RuleSet κ) : Except RuleError Unit :=
  Rule.validateAll 0 s.rules

/-- The tokenizer of the rules. -/
def build (s : RuleSet κ) : Except RuleError (Tokenizer κ) :=
  Tokenizer.ofRules s.rules

/-- The reports on building: that it begins and, if no rule is malformed, the index that was
built. -/
def buildEvents (s : RuleSet κ) : List Event :=
  .building s.name s.rules.length ::
    match s.build with
    | .ok t => t.builtEvents
    | .error _ => []

/-- What is wrong with a rule of a set, in words. -/
def errorMessage (e : RuleError) : String :=
  "invalid rule: " ++ e.message

end RuleSet

end RuleLexer
