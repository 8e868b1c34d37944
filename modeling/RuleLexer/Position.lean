/-!
Where a character stands in a text.

* `Coord`: a count of characters that stops at `2 ^ 32 - 1`, with `Coord.clamp` into it;
* `Position`: a line and a column, both counted from 1;
* `Span`: the characters from one offset up to another, the second excluded;
* `Coord.val_add`: adding stops at the limit and never wraps.
-/

namespace RuleLexer

/-! ### Coordinates -/

/-- The largest count that a coordinate holds. -/
def Coord.limit : Nat := 4294967295

/-- A count of characters or of lines, at most `Coord.limit`. -/
structure Coord where
  val : Nat
  val_le : val ≤ Coord.limit
deriving DecidableEq, Repr

namespace Coord

/-- The count `n`, or the limit when `n` lies beyond it. -/
def clamp (n : Nat) : Coord :=
  ⟨min n limit, Nat.min_le_right n limit⟩

/-- The coordinate of the first line and of the first column. -/
def one : Coord := clamp 1

/-- The count that is `n` more, or the limit when that lies beyond it. -/
def add (c : Coord) (n : Nat) : Coord :=
  clamp (c.val + n)

@[ext] theorem ext {a b : Coord} (h : a.val = b.val) : a = b := by
  cases a; cases b; simp_all

@[simp] theorem val_clamp (n : Nat) : (clamp n).val = min n limit := rfl

@[simp] theorem val_add (c : Coord) (n : Nat) : (c.add n).val = min (c.val + n) limit := rfl

@[simp] theorem val_one : one.val = 1 := rfl

end Coord

/-! ### Lines and columns -/

/-- The line and the column of a character. -/
structure Position where
  line : Coord
  column : Coord
deriving DecidableEq, Repr

namespace Position

/-- The position of the first character of every text. -/
def start : Position := ⟨.one, .one⟩

/-- The position `n` characters further on the same line. -/
def advance (p : Position) (n : Nat) : Position :=
  { p with column := p.column.add n }

/-- The first position of the next line. -/
def nextLine (p : Position) : Position :=
  ⟨p.line.add 1, .one⟩

/-- The line and the column with a colon between. -/
def text (p : Position) : String :=
  toString p.line.val ++ ":" ++ toString p.column.val

end Position

/-! ### Spans -/

/-- The characters with an offset from `start` on and below `stop`. -/
structure Span where
  start : Coord
  stop : Coord
deriving DecidableEq, Repr

namespace Span

/-- The span between two offsets, each stopping at the limit. -/
def between (start stop : Nat) : Span :=
  ⟨.clamp start, .clamp stop⟩

/-- The two ends with two dots between. -/
def text (r : Span) : String :=
  toString r.start.val ++ ".." ++ toString r.stop.val

end Span

end RuleLexer
