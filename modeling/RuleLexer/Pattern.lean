import RuleLexer.Marker
import RuleLexer.Rule

/-!
Patterns: rules in the form in which they are matched.

* `CharRun`, `FixedText`: what a run rule and what a rule with a fixed text match and emit;
* `Rule.pattern`: the pattern of a well-formed rule, and the defect of any other;
* `Pattern.ofRules`: the patterns of a list of rules, or the first rule without one.

A pattern holds markers in place of texts, so an empty marker can no longer occur.
-/

namespace RuleLexer

variable {κ : Type}

/-- A run of characters of one class. -/
structure CharRun (κ : Type) where
  kind : κ
  charClass : CharClass
  discard : Bool
deriving DecidableEq, Repr

/-- What follows a fixed text: nothing for a literal, the inside of the section up to one of the
closing markers for a marker that opens it. The longest closing markers come first. -/
inductive Inside where
  | nothing
  | nested (closings : List Marker)
  | raw (closings : List Marker)
deriving DecidableEq, Repr

/-- A fixed text that is matched as a whole. -/
structure FixedText (κ : Type) where
  marker : Marker
  kind : κ
  discard : Bool
  inside : Inside
deriving DecidableEq, Repr

/-- Whether matching the text ends the line: it is a literal made of line breaks only. -/
def FixedText.breaksLine (f : FixedText κ) : Bool :=
  f.inside = .nothing && f.marker.breaksLine

/-- A rule in the form in which it is matched. -/
inductive Pattern (κ : Type) where
  | run (run : CharRun κ)
  | fixed (text : FixedText κ)
  | escape (char : Char)
deriving DecidableEq, Repr

namespace Pattern

/-- The run, if the pattern is one. -/
def run? : Pattern κ → Option (CharRun κ)
  | run r => some r
  | _ => none

/-- The fixed text, if the pattern is one. -/
def fixed? : Pattern κ → Option (FixedText κ)
  | fixed f => some f
  | _ => none

/-- The escape character, if the pattern is one. -/
def escape? : Pattern κ → Option Char
  | escape c => some c
  | _ => none

end Pattern

/-- The pattern of a rule, or what is wrong with the rule. -/
def Rule.pattern : Rule κ → Except RuleDefect (Pattern κ)
  | run kind charClass discard => .ok (.run ⟨kind, charClass, discard⟩)
  | literal kind text discard =>
      match Marker.ofString? text with
      | none => .error .emptyLiteral
      | some marker => .ok (.fixed ⟨marker, kind, discard, .nothing⟩)
  | delimited kind opening closings nested discard =>
      match Marker.ofString? opening, closings.mapM Marker.ofString? with
      | none, _ => .error .emptyOpening
      | some _, some [] => .error .noClosing
      | some _, none => .error .emptyClosing
      | some marker, some markers =>
          let closings := Marker.longestFirst markers
          .ok (.fixed ⟨marker, kind, discard, if nested then .nested closings else .raw closings⟩)
  | escape char => .ok (.escape char)

/-- The patterns of the rules; `index` is the place of the first. The first rule without a
pattern is reported. -/
def Pattern.ofRules (index : Nat) : List (Rule κ) → Except RuleError (List (Pattern κ))
  | [] => .ok []
  | rule :: rest =>
      match rule.pattern with
      | .error defect => .error ⟨index, defect⟩
      | .ok pattern => (ofRules (index + 1) rest).map (pattern :: ·)

end RuleLexer
