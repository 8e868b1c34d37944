import RuleLexer.Number.Binary64

/-!
JSON values.

* `Json`: the values, with the members of an object in the order in which they are written.
-/

namespace RuleLexer

/-- A JSON value. A number is an integer of 64 bits or else a double-precision number. -/
inductive Json where
  | null
  | bool (value : Bool)
  | integer (value : Int)
  | real (value : Binary64)
  | string (value : String)
  | array (items : List Json)
  | object (members : List (String × Json))
deriving Repr

end RuleLexer
