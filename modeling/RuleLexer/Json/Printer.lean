import RuleLexer.Json.Value
import RuleLexer.Number.Shortest

/-!
JSON values as text.

* `JsonLayout`: what is written between the parts of a value, compact or on lines of their own;
* `Json.spell`: how a character is spelled in a string;
* `Json.render`: the text of a value.
-/

namespace RuleLexer

/-- What is written between the parts of a value. -/
structure JsonLayout where
  /-- What comes before a part that is nested so deep. -/
  lineStart : Nat → List Char
  /-- What stands between a key and its value. -/
  colon : List Char

namespace JsonLayout

/-- Nothing but the parts. -/
def compact : JsonLayout where
  lineStart _ := []
  colon := [':']

/-- Every part on a line of its own, indented by two blanks for each level. -/
def pretty : JsonLayout where
  lineStart depth := '\n' :: List.replicate (2 * depth) ' '
  colon := [':', ' ']

end JsonLayout

namespace Json

/-- The digit of base sixteen with value `n`, in lower case. -/
def hexDigit (n : Nat) : Char :=
  Nat.digitChar n

/-- The spelling of a character in a string: quote, backslash and controls are escaped, every other
character stands for itself. -/
def spell (c : Char) : List Char :=
  if c = '"' then ['\\', '"']
  else if c = '\\' then ['\\', '\\']
  else if c = '\x08' then ['\\', 'b']
  else if c = '\t' then ['\\', 't']
  else if c = '\n' then ['\\', 'n']
  else if c = '\x0c' then ['\\', 'f']
  else if c = '\r' then ['\\', 'r']
  else if c.toNat < 0x20 then
    ['\\', 'u', '0', '0', hexDigit (c.toNat / 16), hexDigit (c.toNat % 16)]
  else [c]

/-- A string between quotes. -/
def quote (s : String) : List Char :=
  '"' :: s.toList.flatMap spell ++ ['"']

mutual

/-- The characters of a value that is nested `depth` deep. -/
def write (layout : JsonLayout) (depth : Nat) : Json → List Char
  | .null => "null".toList
  | .bool b => (if b then "true" else "false").toList
  | .integer n => (toString n).toList
  | .real x => x.text.toList
  | .string s => quote s
  | .array [] => ['[', ']']
  | .array (v :: vs) =>
      '[' :: layout.lineStart (depth + 1) ++ write layout (depth + 1) v
        ++ writeItems layout (depth + 1) vs ++ layout.lineStart depth ++ [']']
  | .object [] => ['\x7b', '\x7d']
  | .object ((key, v) :: rest) =>
      '\x7b' :: layout.lineStart (depth + 1) ++ quote key ++ layout.colon
        ++ write layout (depth + 1) v ++ writeMembers layout (depth + 1) rest
        ++ layout.lineStart depth ++ ['\x7d']

/-- The items after the first. -/
def writeItems (layout : JsonLayout) (depth : Nat) : List Json → List Char
  | [] => []
  | v :: vs => ',' :: layout.lineStart depth ++ write layout depth v ++ writeItems layout depth vs

/-- The members after the first. -/
def writeMembers (layout : JsonLayout) (depth : Nat) : List (String × Json) → List Char
  | [] => []
  | (key, v) :: rest =>
      ',' :: layout.lineStart depth ++ quote key ++ layout.colon ++ write layout depth v
        ++ writeMembers layout depth rest

end

/-- The text of a value. -/
def render (layout : JsonLayout) (v : Json) : String :=
  String.ofList (write layout 0 v)

end Json

end RuleLexer
