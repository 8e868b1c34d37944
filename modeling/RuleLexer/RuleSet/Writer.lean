import RuleLexer.Json.Writer
import RuleLexer.RuleSet.Document

/-!
The texts of rules and of rule sets.

* `RuleSet.document`: the document of a rule set, on indented lines;
* `Rule.text`, `Rule.listText`: a rule and a list of rules on one line.
-/

namespace RuleLexer

variable {κ : Type} [DocumentKind κ]

/-- The document of a rule set, on indented lines. -/
def RuleSet.document (s : RuleSet κ) : String :=
  match s.toText Json.writer with
  | .ok text => text

namespace Rule

/-- The text of a rule on one line. -/
def text (rule : Rule κ) : String :=
  Json.render .compact (rule.encode Json.writer)

/-- The text of a list of rules on one line. -/
def listText (rules : List (Rule κ)) : String :=
  Json.render .compact (.array (rules.map (encode Json.writer)))

end Rule

end RuleLexer
