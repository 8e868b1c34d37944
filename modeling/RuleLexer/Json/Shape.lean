import RuleLexer.Json.Fault
import RuleLexer.Json.Value
import RuleLexer.Number.Shortest
import RuleLexer.Text.Quoted

/-!
Why a text does not hold what is read from it.

* `Expected`: what was expected at a place of a text;
* `Found`: what was found there instead;
* `ShapeError`: the causes for JSON values of another shape, with `ShapeError.message`;
* `DocumentError`: a text that is not JSON, or JSON of another shape.
-/

namespace RuleLexer

/-! ### What was expected and what was found -/

/-- What is expected at a place of a text. -/
inductive Expected where
  /-- A value of the type with the given title. -/
  | titled (title : String)
  /-- The name of a form. -/
  | tag
  | sequence
  | text
  | boolean
  | character
  | integer32
  /-- A name out of a list, perhaps as the only key of an object. -/
  | variant
  /-- Exactly one member. -/
  | singleKey
  /-- Nothing beside the name. -/
  | unit
  /-- As many items as the type with the given title has fields. -/
  | elements (title : String) (count : Nat)
  /-- No more items than there are fields. -/
  | onlyElements (count : Nat)
deriving DecidableEq, Repr

/-- A number of things, in words. -/
def countOf (n : Nat) (thing : String) : String :=
  toString n ++ " " ++ thing ++ if n = 1 then "" else "s"

/-- The expectation in words. -/
def Expected.description : Expected → String
  | .titled title => title
  | .tag => "variant identifier"
  | .sequence => "a sequence"
  | .text => "a string"
  | .boolean => "a boolean"
  | .character => "a character"
  | .integer32 => "i32"
  | .variant => "string or map"
  | .singleKey => "map with a single key"
  | .unit => "unit"
  | .elements title count => title ++ " with " ++ countOf count "element"
  | .onlyElements count => countOf count "element" ++ " in sequence"

/-- What a text has at a place. -/
inductive Found where
  | null
  | bool (value : Bool)
  | integer (value : Int)
  | real (value : Binary64)
  | string (value : String)
  | sequence
  | map
deriving DecidableEq, Repr

namespace Found

/-- What a value looks like. -/
def ofJson : Json → Found
  | .null => null
  | .bool b => bool b
  | .integer n => integer n
  | .real x => real x
  | .string s => string s
  | .array _ => sequence
  | .object _ => map

/-- What was found, in words. -/
def text : Found → String
  | null => "null"
  | bool b => "boolean `" ++ toString b ++ "`"
  | integer n => "integer `" ++ toString n ++ "`"
  | real x => "floating point `" ++ x.text ++ "`"
  | string s => "string " ++ Quoted.string s
  | sequence => "sequence"
  | map => "map"

end Found

/-! ### Errors -/

/-- Why a JSON value has another shape. -/
inductive ShapeError where
  | missingField (field : String)
  | duplicateField (field : String)
  /-- A name that is not one of those known at its place. -/
  | unknownName (name : String) (known : List String)
  | wrongType (found : Found) (expected : Expected)
  | wrongValue (found : Found) (expected : Expected)
  | wrongLength (count : Nat) (expected : Expected)
deriving DecidableEq, Repr

/-- A name between marks. -/
def markName (s : String) : String :=
  "`" ++ s ++ "`"

/-- The names of which one is expected. -/
def expectedNames : List String → String
  | [] => "there are no variants"
  | [a] => "expected " ++ markName a
  | [a, b] => "expected " ++ markName a ++ " or " ++ markName b
  | names => "expected one of " ++ ", ".intercalate (names.map markName)

namespace ShapeError

/-- The error in words. -/
def message : ShapeError → String
  | missingField field => "missing field " ++ markName field
  | duplicateField field => "duplicate field " ++ markName field
  | unknownName name known => "unknown variant " ++ markName name ++ ", " ++ expectedNames known
  | wrongType found expected =>
      "invalid type: " ++ found.text ++ ", expected " ++ expected.description
  | wrongValue found expected =>
      "invalid value: " ++ found.text ++ ", expected " ++ expected.description
  | wrongLength count expected =>
      "invalid length " ++ toString count ++ ", expected " ++ expected.description

end ShapeError

/-- Why a text does not hold what is read from it. -/
inductive DocumentError where
  /-- It is not JSON. -/
  | fault (fault : Fault)
  /-- It is JSON of another shape. -/
  | shape (error : ShapeError)
deriving DecidableEq, Repr

end RuleLexer
