import RuleLexer.Kind
import RuleLexer.Token

/-!
Tokens as they are shown to whoever debugs a set of rules.

* `Token.inspect`, `TokenList.inspect`: all the parts of a token under their names, and a list of
  tokens in brackets.
-/

namespace RuleLexer

variable {κ : Type}

/-- A structure: its name, and its fields in braces. -/
def inspectFields (name : String) (fields : List (String × String)) : String :=
  name ++ " \x7b " ++ ", ".intercalate (fields.map fun (field, value) => field ++ ": " ++ value)
    ++ " \x7d"

/-- An optional value. -/
def inspectOption : Option String → String
  | none => "None"
  | some value => "Some(" ++ value ++ ")"

/-- A line and a column. -/
def Position.inspect (p : Position) : String :=
  inspectFields "LinePos" [("line", toString p.line.val), ("column", toString p.column.val)]

/-- The markers and the inside of a section. -/
def Delimiters.inspect (d : Delimiters) : String :=
  inspectFields "SectionParts" [
    ("begin", Quoted.string d.opening),
    ("end", Quoted.string d.closing),
    ("content", inspectOption (d.content.map Quoted.string))]

mutual

/-- All parts of a token. -/
def Token.inspect [Inspect κ] : Token κ → String
  | ⟨kind, text, nested, delimiters, position, span⟩ =>
      inspectFields "Token" [
        ("kind", Inspect.inspect kind),
        ("text", Quoted.string text),
        ("nested", "[" ++ ", ".intercalate (TokenList.inspectEach nested) ++ "]"),
        ("section", inspectOption (delimiters.map Delimiters.inspect)),
        ("position", position.inspect),
        ("range", span.text)]

/-- Each token in turn. -/
def TokenList.inspectEach [Inspect κ] : List (Token κ) → List String
  | [] => []
  | t :: ts => t.inspect :: TokenList.inspectEach ts

end

/-- A list of tokens in brackets. -/
def TokenList.inspect [Inspect κ] (tokens : TokenList κ) : String :=
  "[" ++ ", ".intercalate (TokenList.inspectEach tokens) ++ "]"

end RuleLexer
