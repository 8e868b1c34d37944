import RuleLexer.Json.Interface
import RuleLexer.Json.Printer

/-!
A writer of JSON texts.

* `Json.ofFields`: the members that are written for a record;
* `Json.writer`: the writer, which makes JSON values and prints them on indented lines.
-/

namespace RuleLexer

/-- The members that are written for the fields of a record, in their order. -/
def Json.ofFields : {fields : List Field} → Tuple (fun f => f.Value → Json) fields →
    Values fields → List (String × Json)
  | [], _, _ => []
  | f :: _, (write, parts), (a, values) =>
      if f.omits a then ofFields parts values
      else (f.name, write a) :: ofFields parts values

/-- The writer of JSON texts, which never fails. -/
def Json.writer : JsonWriter where
  Tree := Json
  Error := Empty
  leaf := Leaf.toJson
  optional write
    | none => .null
    | some a => write a
  list write values := .array (values.map write)
  record _ parts values := .object (ofFields parts values)
  tagged T parts values :=
    .object ((T.tag, .string (T.naming.name values.1)) :: ofFields (parts values.1) values.2)
  toText v := .ok (v.render .pretty)

end RuleLexer
