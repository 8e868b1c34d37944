import RuleLexer.Json.Lexeme
import RuleLexer.Json.Value

/-!
Outlines: JSON texts taken apart as far as they go.

A reader meets the parts of a text in their order, and what it finds wrong with one part goes before
what is wrong later in the text. An outline therefore holds the faults of a text at the places where
a reader meets them.

* `Outline`: a value together with the faults in it;
* `Outline.ofLexemes`: the outline of a text, by one step for each lexeme;
* `Outline.read`: the value, or the first fault that a reader meets;
* `Outline.face`: what is seen of a value without a look at its parts;
* `Outline.skip?`: the first fault that is met by someone who passes over the value.
-/

namespace RuleLexer

/-- A JSON value as far as the text goes. -/
inductive Outline where
  | null
  | bool (value : Bool)
  | integer (value : Int)
  | real (value : Binary64)
  | string (value : String)
  /-- A string or number that can be passed over but not be decoded. -/
  | undecodable
  /-- The items of an array and, unless the array is closed after them, the faults there. -/
  | array (items : List Outline) (faults : Option Faults)
  /-- The members of an object and, unless the object is closed after them, the faults there. A key
  that cannot be decoded is missing. -/
  | object (members : List (Option String × Outline)) (faults : Option Faults)
  /-- No whole value. -/
  | broken (faults : Faults)
deriving Repr

namespace Outline

/-! ### Outlines of texts -/

/-- What encloses the value that is being read. Earlier parts are held last first. -/
inductive Context where
  /-- Nothing: it is the value of the whole text. -/
  | whole
  | item (before : List Outline) (outer : Context)
  | member (before : List (Option String × Outline)) (key : Option String) (outer : Context)

/-- The outline of a text that stops in the midst of the value `o`. Nobody gets to the ends of the
enclosing arrays and objects. -/
def Context.stop (faults : Faults) (o : Outline) : Context → Outline
  | whole => o
  | item before outer => outer.stop faults (.array (before.reverse ++ [o]) (some faults))
  | member before key outer =>
      outer.stop faults (.object (before.reverse ++ [(key, o)]) (some faults))

/-- How far a text has been taken apart. -/
inductive Progress where
  /-- A value must come. -/
  | value (context : Context)
  /-- An array was opened: its first item or its end must come. -/
  | firstItem (outer : Context)
  /-- An object was opened: its first key or its end must come. -/
  | firstKey (outer : Context)
  /-- A key must come. -/
  | nextKey (before : List (Option String × Outline)) (outer : Context)
  /-- A colon must come. -/
  | afterKey (before : List (Option String × Outline)) (key : Option String) (outer : Context)
  /-- A value is complete. -/
  | after (value : Outline) (context : Context)
  /-- Something follows the value of the whole text. -/
  | trailing (value : Outline)
  /-- The text stops being JSON. -/
  | stopped (outline : Outline)

namespace Progress

/-- The outline of a text that goes no further, with the faults of its not going on. Where the value
of the whole text is complete there are none. -/
def outline (faults : Faults) : Progress → Outline
  | value context => context.stop faults (.broken faults)
  | firstItem outer => outer.stop faults (.array [] (some faults))
  | firstKey outer => outer.stop faults (.object [] (some faults))
  | nextKey before outer => outer.stop faults (.object before.reverse (some faults))
  | afterKey before key outer => (Context.member before key outer).stop faults (.broken faults)
  | after v .whole => v
  | after v (.item before outer) => outer.stop faults (.array (v :: before).reverse (some faults))
  | after v (.member before key outer) =>
      outer.stop faults (.object ((key, v) :: before).reverse (some faults))
  | trailing v => v
  | stopped o => o

/-- Whether something follows the value of the whole text. -/
def trails : Progress → Bool
  | trailing _ => true
  | _ => false

/-- The step at something that cannot stand there. -/
def refuse (p : Progress) : Progress :=
  stopped (p.outline (.both .malformed))

/-- The step at a lexeme where a value must come. -/
def beginValue (context : Context) : Lexeme → Progress
  | .null => after .null context
  | .bool b => after (.bool b) context
  | .integer i => after (.integer i) context
  | .real x => after (.real x) context
  | .string (some s) => after (.string s) context
  | .string none => after .undecodable context
  | .hugeNumber => after .undecodable context
  | .openArray => firstItem context
  | .openObject => firstKey context
  | .brokenString faults => stopped ((value context).outline faults)
  | .broken faults => stopped ((value context).outline faults)
  | .closeArray | .closeObject | .comma | .colon => refuse (value context)

/-- The step at a lexeme where a key must come. -/
def beginKey (before : List (Option String × Outline)) (outer : Context) : Lexeme → Progress
  | .string key => afterKey before key outer
  | .brokenString faults => stopped ((nextKey before outer).outline faults)
  | _ => refuse (nextKey before outer)

/-- The step at a lexeme. -/
def step : Progress → Lexeme → Progress
  | value context, l => beginValue context l
  | firstItem outer, .closeArray => after (.array [] none) outer
  | firstItem outer, l => beginValue (.item [] outer) l
  | firstKey outer, .closeObject => after (.object [] none) outer
  | firstKey outer, l => beginKey [] outer l
  | nextKey before outer, l => beginKey before outer l
  | afterKey before key outer, .colon => value (.member before key outer)
  | after v (.item before outer), .comma => value (.item (v :: before) outer)
  | after v (.item before outer), .closeArray => after (.array (v :: before).reverse none) outer
  | after v (.member before key outer), .comma => nextKey ((key, v) :: before) outer
  | after v (.member before key outer), .closeObject =>
      after (.object ((key, v) :: before).reverse none) outer
  | after v .whole, _ => trailing v
  | trailing v, _ => trailing v
  | p, _ => refuse p

end Progress

/-- The outline of a text and whether something follows its value. -/
def ofLexemes (lexemes : List Lexeme) : Outline × Bool :=
  let p := lexemes.foldl Progress.step (.value .whole)
  (p.outline (.both .truncated), p.trails)

/-- The outline of a text and whether something follows its value. -/
def ofText (text : String) : Outline × Bool :=
  ofLexemes (Lexeme.ofText text.toList)

/-! ### Reading and passing over -/

/-- The fault that a reader meets at the end of an array or object, if there is one. -/
def atEnd (faults : Option Faults) : Except Fault Unit :=
  match faults with
  | none => .ok ()
  | some f => .error f.asRead

mutual

/-- The value, when arrays and objects may be nested `room` deep, or the first fault. -/
def read (room : Nat) : Outline → Except Fault Json
  | .null => .ok .null
  | .bool b => .ok (.bool b)
  | .integer i => .ok (.integer i)
  | .real x => .ok (.real x)
  | .string s => .ok (.string s)
  | .undecodable => .error .malformed
  | .broken faults => .error faults.asRead
  | .array items faults =>
      match room with
      | 0 => .error .malformed
      | room + 1 => do
          let items ← readItems room items
          atEnd faults
          return .array items
  | .object members faults =>
      match room with
      | 0 => .error .malformed
      | room + 1 => do
          let members ← readMembers room members
          atEnd faults
          return .object members

/-- The values of the items. -/
def readItems (room : Nat) : List Outline → Except Fault (List Json)
  | [] => .ok []
  | o :: rest => do
      let v ← read room o
      let vs ← readItems room rest
      return v :: vs

/-- The keys and values of the members. -/
def readMembers (room : Nat) :
    List (Option String × Outline) → Except Fault (List (String × Json))
  | [] => .ok []
  | (none, _) :: _ => .error .malformed
  | (some key, o) :: rest => do
      let v ← read room o
      let vs ← readMembers room rest
      return (key, v) :: vs

end

/-- What is seen of a value, or the fault in it. Nobody looks at the parts of an array or object. -/
def face : Outline → Except Fault Json
  | .array _ _ => .ok (.array [])
  | .object _ _ => .ok (.object [])
  | o => o.read 0

mutual

/-- The first fault for someone who passes over the value. -/
def skip? : Outline → Option Fault
  | .broken faults => some faults.asSkipped
  | .array items faults => (skipItems? items).or (faults.map (·.asSkipped))
  | .object members faults => (skipMembers? members).or (faults.map (·.asSkipped))
  | _ => none

/-- The first fault in the items. -/
def skipItems? : List Outline → Option Fault
  | [] => none
  | o :: rest => (skip? o).or (skipItems? rest)

/-- The first fault in the members. -/
def skipMembers? : List (Option String × Outline) → Option Fault
  | [] => none
  | (_, o) :: rest => (skip? o).or (skipMembers? rest)

end

end Outline

end RuleLexer
