import RuleLexer.Text.CodeRanges
import RuleLexer.Text.Control
import RuleLexer.Text.Letters

/-!
The classes of characters that a run can be made of.

* `CharClass`: the six classes, each known by a name in rule documents;
* `CharClass.codePoints`: the class as a set of code points;
* `CharClass.accepts`: whether a character belongs to the class.
-/

namespace RuleLexer

/-- A class of characters. -/
inductive CharClass where
  /-- The decimal digits `0` to `9`. -/
  | digit
  /-- The letters of every script. -/
  | letter
  | letterOrDigit
  /-- Blanks within a line, the byte order mark among them. -/
  | whitespace
  /-- Line feed and carriage return. -/
  | endOfLine
  | any
deriving DecidableEq, Repr

namespace CharClass

/-- All classes, in the order in which messages list them. -/
def all : List CharClass :=
  [digit, letter, letterOrDigit, whitespace, endOfLine, any]

/-- The name of a class in rule documents. -/
def name : CharClass → String
  | digit => "digit"
  | letter => "letter"
  | letterOrDigit => "letterOrDigit"
  | whitespace => "whitespace"
  | endOfLine => "endOfLine"
  | any => "any"

/-- The class with a given name. -/
def ofName? (s : String) : Option CharClass :=
  all.find? (·.name = s)

/-- The code points of the class. The largest class leaves out the surrogates, which are no
characters. -/
def codePoints : CharClass → CodeRanges
  | digit => [(0x30, 0x39)]
  | letter => letterRanges
  | letterOrDigit => (0x30, 0x39) :: letterRanges
  | whitespace =>
      [(0x9, 0x9), (0xB, 0xC), (0x20, 0x20), (0xA0, 0xA0), (0x1680, 0x1680), (0x2000, 0x200A),
       (0x202F, 0x202F), (0x205F, 0x205F), (0x3000, 0x3000), (0xFEFF, 0xFEFF)]
  | endOfLine => [(0xA, 0xA), (0xD, 0xD)]
  | any => [(0x0, 0xD7FF), (0xE000, 0x10FFFF)]

/-- Whether the class accepts `c`. -/
def accepts (k : CharClass) (c : Char) : Bool :=
  k.codePoints.contains c.toNat

/-- The accepted code points from `low` to `high`, as maximal ranges. -/
def acceptedWithin (k : CharClass) (low high : Nat) : CodeRanges :=
  k.codePoints.within low high

end CharClass

end RuleLexer
