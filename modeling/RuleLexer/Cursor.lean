import RuleLexer.Marker
import RuleLexer.Position

/-!
A place in a text: what is still to be read, and how far in it lies.

* `Cursor.advance`, `Cursor.advanceLine`, `Cursor.past`: the place some characters further on,
  on the same line, on the next line, or on the line that a marker leads to;
* `Cursor.upTo`: the characters between two places.
-/

namespace RuleLexer

/-- A place in a text. -/
structure Cursor where
  /-- The text from this place on. -/
  rest : List Char
  /-- The number of characters before this place. -/
  offset : Nat
  /-- The line and column of this place. -/
  position : Position
deriving DecidableEq, Repr

namespace Cursor

/-- The beginning of a text. -/
def ofText (text : List Char) : Cursor :=
  ⟨text, 0, .start⟩

/-- The place `n` characters further on the same line. -/
def advance (c : Cursor) (n : Nat) : Cursor :=
  ⟨c.rest.drop n, c.offset + n, c.position.advance n⟩

/-- The place `n` characters further, at the beginning of a line. -/
def advanceLine (c : Cursor) (n : Nat) : Cursor :=
  ⟨c.rest.drop n, c.offset + n, c.position.nextLine⟩

/-- The place `n` characters further, at the beginning of a line when they end one. -/
def skip (c : Cursor) (n : Nat) (endsLine : Bool) : Cursor :=
  if endsLine then c.advanceLine n else c.advance n

/-- The place after the marker. -/
def past (c : Cursor) (m : Marker) : Cursor :=
  c.skip m.length m.breaksLine

/-- The characters from this place up to a later one. -/
def upTo (c stop : Cursor) : List Char :=
  c.rest.take (stop.offset - c.offset)

@[simp] theorem rest_skip (c : Cursor) (n : Nat) (b : Bool) :
    (c.skip n b).rest = c.rest.drop n := by
  cases b <;> rfl

@[simp] theorem offset_skip (c : Cursor) (n : Nat) (b : Bool) :
    (c.skip n b).offset = c.offset + n := by
  cases b <;> rfl

@[simp] theorem rest_past (c : Cursor) (m : Marker) : (c.past m).rest = c.rest.drop m.length :=
  rest_skip ..

@[simp] theorem offset_past (c : Cursor) (m : Marker) : (c.past m).offset = c.offset + m.length :=
  offset_skip ..

end Cursor

end RuleLexer
