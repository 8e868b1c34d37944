import Mathlib.Data.List.DropRight
import RuleLexer.Proofs.Reach

/-!
Positions after any number of moves: a coordinate is the exact count as long as that lies below the
limit, and the limit from then on.

* `Position.Move`, `Position.run`: moves within a line and to the next line, one after another;
* `Position.line_run`, `Position.column_run`: the coordinates after the moves, by exact counts;
* `Position.run_split`: a move within a line may be taken in parts;
* `Word.clamp`, `Word.add`: counts of 64 bits made into words of 32 bits, and words added up to the
  largest word;
* `WordPosition`: positions whose coordinates are such words. `WordPosition.toPosition_run` says
  that they are the positions with coordinates that stop at the limit;
* `WordPosition.run_saturates`: the coordinates after the moves, as words.
-/

namespace RuleLexer

namespace Position

/-! ### Moves -/

/-- A move of a position: over some characters of the line, or to the next line. Characters are
counted in `ν`. -/
inductive Move (ν : Type) where
  | advance (n : ν)
  | nextLine
deriving DecidableEq, Repr

namespace Move

variable {ν ν' : Type}

/-- The move with its characters counted in another type. -/
def map (f : ν → ν') : Move ν → Move ν'
  | advance n => advance (f n)
  | nextLine => nextLine

/-- The number of characters that a move goes over on its line. -/
def length : Move ℕ → ℕ
  | advance n => n
  | nextLine => 0

/-- Whether the move stays on its line. -/
def staysOnLine : Move ν → Bool
  | advance _ => true
  | nextLine => false

end Move

/-- The column at which the last line of the moves begins: the first column, unless no move leads to
a next line and it is the line of `p`. -/
def startColumn (p : Position) (moves : List (Move ℕ)) : ℕ :=
  if .nextLine ∈ moves then 1 else p.column.val

/-- The number of characters that the moves go over on their last line. -/
def lastLineLength (moves : List (Move ℕ)) : ℕ :=
  ((moves.rtakeWhile Move.staysOnLine).map Move.length).sum

/-- The position after a move. -/
def move (p : Position) : Move ℕ → Position
  | .advance n => p.advance n
  | .nextLine => p.nextLine

/-- The position after some moves. -/
def run (p : Position) (moves : List (Move ℕ)) : Position :=
  moves.foldl move p

variable (p : Position) (moves : List (Move ℕ))

lemma run_concat (m : Move ℕ) : p.run (moves ++ [m]) = (p.run moves).move m :=
  List.foldl_concat ..

lemma run_append (moves' : List (Move ℕ)) : p.run (moves ++ moves') = (p.run moves).run moves' :=
  List.foldl_append

lemma lastLineLength_advance (n : ℕ) :
    lastLineLength (moves ++ [.advance n]) = lastLineLength moves + n := by
  rw [lastLineLength, List.rtakeWhile_concat_pos _ _ _ rfl, List.map_append, List.sum_append]
  rfl

lemma lastLineLength_nextLine : lastLineLength (moves ++ [.nextLine]) = 0 := by
  simp [lastLineLength, List.rtakeWhile_concat_neg, Move.staysOnLine]

lemma startColumn_advance (n : ℕ) :
    p.startColumn (moves ++ [.advance n]) = p.startColumn moves := by
  simp [startColumn]

lemma startColumn_nextLine : p.startColumn (moves ++ [.nextLine]) = 1 := by
  simp [startColumn]

/-- **Lines**: every move to a next line counts, up to the limit. -/
theorem line_run : (p.run moves).line.val
    = min (p.line.val + moves.count .nextLine) Coord.limit := by
  induction moves using List.reverseRecOn with
  | nil => exact (min_eq_left p.line.val_le).symm
  | append_singleton moves m ih =>
      rw [run_concat]
      cases m with
      | advance n => simpa [move, advance] using ih
      | nextLine =>
          simp only [move, nextLine, Coord.val_add, ih, List.count_append,
            List.count_singleton_self]
          omega

/-- **Columns**: every character on the last line counts, up to the limit. -/
theorem column_run : (p.run moves).column.val
    = min (p.startColumn moves + lastLineLength moves) Coord.limit := by
  induction moves using List.reverseRecOn with
  | nil => exact (min_eq_left p.column.val_le).symm
  | append_singleton moves m ih =>
      rw [run_concat]
      cases m with
      | advance n =>
          simp only [move, advance, Coord.val_add, ih, startColumn_advance, lastLineLength_advance]
          omega
      | nextLine =>
          rw [startColumn_nextLine, lastLineLength_nextLine]
          rfl

/-- A move within a line may be taken in parts. -/
theorem run_split (before after : List (Move ℕ)) (parts : List ℕ) :
    p.run (before ++ parts.map .advance ++ after)
      = p.run (before ++ .advance parts.sum :: after) := by
  have hparts : ∀ q : Position, q.run (parts.map .advance) = q.advance parts.sum := by
    induction parts with
    | nil => exact fun q => q.advance_zero.symm
    | cons n parts ih =>
        intro q
        rw [List.sum_cons, ← advance_advance, ← ih]
        rfl
  rw [run_append, run_append, hparts, run_append]
  rfl

end Position

/-! ### Words -/

namespace Word

/-- The largest word of 32 bits. -/
def largest : UInt32 := 4294967295

/-- The word of 32 bits with the value of `n`, or the largest one if there is none. -/
def clamp (n : UInt64) : UInt32 :=
  if n ≤ largest.toUInt64 then n.toUInt32 else largest

/-- The sum of two words, or the largest word if the sum wraps. -/
def add (a b : UInt32) : UInt32 :=
  if a + b < a then largest else a + b

@[simp] lemma toNat_largest : largest.toNat = Coord.limit := rfl

lemma toNat_clamp (n : UInt64) : (clamp n).toNat = min n.toNat Coord.limit := by
  have hlargest : largest.toUInt64.toNat = Coord.limit := rfl
  rw [clamp]
  split_ifs with h
  · have hle : n.toNat ≤ Coord.limit := hlargest ▸ UInt64.le_iff_toNat_le.mp h
    rw [UInt64.toNat_toUInt32, min_eq_left hle]
    exact Nat.mod_eq_of_lt (Nat.lt_succ_of_le hle)
  · have hlt : Coord.limit < n.toNat := by
      rw [UInt64.le_iff_toNat_le, hlargest] at h
      omega
    rw [toNat_largest, min_eq_right hlt.le]

/-- The sum wraps just if it comes out smaller than what it was added to. -/
lemma toNat_add (a b : UInt32) : (add a b).toNat = min (a.toNat + b.toNat) Coord.limit := by
  have ha := a.toNat_lt
  have hb := b.toNat_lt
  rw [add]
  split_ifs with h
  · rw [UInt32.lt_iff_toNat_lt, UInt32.toNat_add] at h
    rw [toNat_largest, Coord.limit]
    omega
  · rw [UInt32.lt_iff_toNat_lt, UInt32.toNat_add] at h
    rw [UInt32.toNat_add, Coord.limit]
    omega

end Word

open Position (Move)

/-- A line and a column that are words. -/
structure WordPosition where
  line : UInt32
  column : UInt32
deriving DecidableEq, Repr

namespace WordPosition

/-- The position `n` characters further on the same line. -/
def advance (p : WordPosition) (n : UInt64) : WordPosition :=
  { p with column := Word.add p.column (Word.clamp n) }

/-- The first position of the next line. -/
def nextLine (p : WordPosition) : WordPosition :=
  ⟨Word.add p.line 1, 1⟩

/-- The position after a move. -/
def move (p : WordPosition) : Move UInt64 → WordPosition
  | .advance n => p.advance n
  | .nextLine => p.nextLine

/-- The position after some moves. -/
def run (p : WordPosition) (moves : List (Move UInt64)) : WordPosition :=
  moves.foldl move p

/-- The values of the words. -/
def toPosition (p : WordPosition) : Position where
  line := ⟨p.line.toNat, Nat.le_of_lt_succ p.line.toNat_lt⟩
  column := ⟨p.column.toNat, Nat.le_of_lt_succ p.column.toNat_lt⟩

/-- The moves with the values of their counts. -/
def values (moves : List (Move UInt64)) : List (Move ℕ) :=
  moves.map (.map UInt64.toNat)

lemma toPosition_injective : Function.Injective toPosition := by
  rintro ⟨line, column⟩ ⟨line', column'⟩ h
  obtain ⟨hline, hcolumn⟩ := Position.mk.inj h
  obtain rfl : line = line' := UInt32.toNat_inj.mp (congrArg Coord.val hline)
  obtain rfl : column = column' := UInt32.toNat_inj.mp (congrArg Coord.val hcolumn)
  rfl

lemma toPosition_move (p : WordPosition) (m : Move UInt64) :
    (p.move m).toPosition = p.toPosition.move (m.map UInt64.toNat) := by
  cases m with
  | advance n =>
      have hcolumn : (p.advance n).toPosition.column = p.toPosition.column.add n.toNat := by
        ext
        simp only [toPosition, advance, Word.toNat_add, Word.toNat_clamp, Coord.val_add]
        omega
      simp only [move, Move.map, Position.move, Position.advance, ← hcolumn]
      rfl
  | nextLine =>
      have hline : p.nextLine.toPosition.line = p.toPosition.line.add 1 := by
        ext
        simp only [toPosition, nextLine, Word.toNat_add, Coord.val_add]
        rfl
      simp only [move, Move.map, Position.move, Position.nextLine, ← hline]
      rfl

/-- **Words** move as the numbers do that are their values. -/
theorem toPosition_run (p : WordPosition) (moves : List (Move UInt64)) :
    (p.run moves).toPosition = p.toPosition.run (values moves) := by
  induction moves generalizing p with
  | nil => rfl
  | cons m moves ih =>
      have hmove := ih (p.move m)
      rw [toPosition_move] at hmove
      exact hmove

/-- A move never leads back, as it would if a sum wrapped. -/
lemma le_advance (p : WordPosition) (n : UInt64) : p.column ≤ (p.advance n).column := by
  have hp := Nat.le_of_lt_succ p.column.toNat_lt
  rw [UInt32.le_iff_toNat_le, advance, Word.toNat_add, Coord.limit]
  omega

lemma le_nextLine (p : WordPosition) : p.line ≤ p.nextLine.line := by
  have hp := Nat.le_of_lt_succ p.line.toNat_lt
  rw [UInt32.le_iff_toNat_le, nextLine, Word.toNat_add, Coord.limit]
  omega

lemma values_append (moves moves' : List (Move UInt64)) :
    values (moves ++ moves') = values moves ++ values moves' :=
  List.map_append

lemma values_map_advance (parts : List UInt64) :
    values (parts.map .advance) = (parts.map UInt64.toNat).map .advance := by
  simp [values, Move.map]

/-- **Saturation**: after any moves the line is the number of lines moved over, and the column the
number of characters on the last line, as long as there are words for them, and the largest word
otherwise. A move within a line may be taken in parts, and no move leads back. -/
theorem run_saturates (p : WordPosition) (moves : List (Move UInt64)) :
    (p.run moves).line.toNat
      = min (p.line.toNat + (values moves).count .nextLine) Coord.limit ∧
    (p.run moves).column.toNat
      = min (p.toPosition.startColumn (values moves) + Position.lastLineLength (values moves))
          Coord.limit ∧
    (p.run moves).toPosition = p.toPosition.run (values moves) ∧
    (∀ (before after : List (Move UInt64)) (parts : List UInt64) (n : UInt64),
      (parts.map UInt64.toNat).sum = n.toNat →
        p.run (before ++ parts.map .advance ++ after) = p.run (before ++ .advance n :: after)) ∧
    (∀ n, (p.run moves).column ≤ ((p.run moves).advance n).column) ∧
    (p.run moves).line ≤ (p.run moves).nextLine.line := by
  have hrun := p.toPosition_run moves
  refine ⟨?_, ?_, hrun, ?_, (p.run moves).le_advance, (p.run moves).le_nextLine⟩
  · have hline := p.toPosition.line_run (values moves)
    rw [← hrun] at hline
    exact hline
  · have hcolumn := p.toPosition.column_run (values moves)
    rw [← hrun] at hcolumn
    exact hcolumn
  · intro before after parts n hn
    have hsplit := p.toPosition.run_split (values before) (values after) (parts.map UInt64.toNat)
    rw [hn, ← values_map_advance, ← values_append, ← values_append, ← toPosition_run] at hsplit
    refine toPosition_injective (hsplit.trans ?_)
    rw [toPosition_run, values_append]
    rfl

theorem run_saturates_limit :
    let p : WordPosition := ⟨4294967294, 7⟩
    let before : List (Move UInt64) := [.nextLine, .nextLine]
    let parts : List UInt64 := [9223372036854775808, 9223372036854775807]
    let after : List (Move UInt64) := [.advance 1]
    (parts.map UInt64.toNat).sum = (18446744073709551615 : UInt64).toNat ∧
    p.run (before ++ parts.map .advance ++ after)
      = p.run (before ++ .advance 18446744073709551615 :: after) ∧
    (p.run (before ++ parts.map .advance ++ after)).line.toNat = Coord.limit ∧
    (p.run (before ++ parts.map .advance ++ after)).column.toNat = Coord.limit := by
  intro p before parts after
  have hsum : (parts.map UInt64.toNat).sum = (18446744073709551615 : UInt64).toNat := by decide
  obtain ⟨hline, hcolumn, -, hsplit, -, -⟩ :=
    run_saturates p (before ++ parts.map .advance ++ after)
  exact ⟨hsum, hsplit before after parts _ hsum, hline.trans (by decide +kernel),
    hcolumn.trans (by decide +kernel)⟩

end WordPosition

end RuleLexer
