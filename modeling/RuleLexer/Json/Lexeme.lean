import RuleLexer.Json.Numeral
import RuleLexer.Json.String

/-!
The lexemes of a JSON text.

* `Lexeme`: punctuation, values without parts, and the place where a text stops being JSON;
* `Lexeme.startingWith`: the lexeme that begins with a character, and the rest;
* `Lexeme.ofText`: the lexemes of a text, without the blanks between them.
-/

namespace RuleLexer

/-- A lexeme of a JSON text. -/
inductive Lexeme where
  | openArray
  | closeArray
  | openObject
  | closeObject
  | comma
  | colon
  | null
  | bool (value : Bool)
  | integer (value : Int)
  | real (value : Binary64)
  /-- A string, without its characters when a surrogate stands alone in it. -/
  | string (text : Option String)
  /-- A number that is too large. -/
  | hugeNumber
  /-- A string that breaks off. -/
  | brokenString (faults : Faults)
  /-- Anything else that breaks off. -/
  | broken (faults : Faults)
deriving DecidableEq, Repr

namespace Lexeme

/-- The blanks between lexemes. -/
def isBlank (c : Char) : Bool :=
  c = ' ' || c = '\t' || c = '\n' || c = '\r'

/-- The lexeme of a word whose characters from the second on are `expected`. -/
def word (lexeme : Lexeme) : List Char → List Char → Lexeme × List Char
  | [], rest => (lexeme, rest)
  | _ :: _, [] => (broken (.both .truncated), [])
  | e :: expected, c :: rest =>
      if c = e then word lexeme expected rest else (broken (.both .malformed), [])

/-- The lexeme of a number whose digits begin a text. One who passes over a number takes the end of
the text for a character that cannot stand there. -/
def number (negative : Bool) (text : List Char) : Lexeme × List Char :=
  match Numeral.split negative text with
  | .error fault => (broken ⟨fault, .malformed⟩, [])
  | .ok (n, rest) =>
      match n.integer? with
      | some i => (integer i, rest)
      | none =>
          match n.real? with
          | some x => (real x, rest)
          | none => (hugeNumber, rest)

/-- The lexeme of a string whose opening quote stands before a text. -/
def quoted (text : List Char) : Lexeme × List Char :=
  match JsonString.read text with
  | .whole s rest => (string s, rest)
  | .broken faults => (brokenString faults, [])

/-- The lexeme that begins with `c`, and the rest of the text. -/
def startingWith (c : Char) (rest : List Char) : Lexeme × List Char :=
  match c with
  | '[' => (openArray, rest)
  | ']' => (closeArray, rest)
  | '\x7b' => (openObject, rest)
  | '\x7d' => (closeObject, rest)
  | ',' => (comma, rest)
  | ':' => (colon, rest)
  | '"' => quoted rest
  | 'n' => word null "ull".toList rest
  | 't' => word (bool true) "rue".toList rest
  | 'f' => word (bool false) "alse".toList rest
  | '-' => number true rest
  | c => if c.isDigit then number false (c :: rest) else (broken (.both .malformed), [])

/-! ### Progress -/

theorem rest_length_le_of_word (lexeme : Lexeme) (expected text : List Char) :
    (word lexeme expected text).2.length ≤ text.length := by
  induction expected generalizing text with
  | nil => exact Nat.le_refl _
  | cons e expected ih =>
    cases text with
    | nil => exact Nat.le_refl _
    | cons c text =>
      rw [word]
      split
      · exact Nat.le_succ_of_le (ih text)
      · exact Nat.zero_le _

theorem rest_length_le_of_quoted (text : List Char) : (quoted text).2.length ≤ text.length := by
  rw [quoted]
  split
  · rename_i h
    exact JsonString.rest_length_le h
  · exact Nat.zero_le _

theorem rest_length_le_of_number (negative : Bool) (text : List Char) :
    (number negative text).2.length ≤ text.length - 1 := by
  rw [number]
  split
  · exact Nat.zero_le _
  · rename_i h
    have hlt := Nat.le_sub_one_of_lt (Numeral.rest_length_lt_of_split h)
    split
    · exact hlt
    · split
      · exact hlt
      · exact hlt

/-- A lexeme takes at least its first character. -/
theorem rest_length_le_of_startingWith (c : Char) (rest : List Char) :
    (startingWith c rest).2.length ≤ rest.length := by
  rw [startingWith.eq_def]
  split
  · exact Nat.le_refl _
  · exact Nat.le_refl _
  · exact Nat.le_refl _
  · exact Nat.le_refl _
  · exact Nat.le_refl _
  · exact Nat.le_refl _
  · exact rest_length_le_of_quoted rest
  · exact rest_length_le_of_word ..
  · exact rest_length_le_of_word ..
  · exact rest_length_le_of_word ..
  · exact Nat.le_trans (rest_length_le_of_number true rest) (Nat.sub_le ..)
  · split
    · exact rest_length_le_of_number false (_ :: rest)
    · exact Nat.zero_le _

/-! ### The lexemes of a text -/

/-- The lexemes of a text, one after another. After one that breaks off there are no more. -/
def ofText (text : List Char) : List Lexeme :=
  match text with
  | [] => []
  | c :: rest =>
      if isBlank c then ofText rest
      else
        let next := startingWith c rest
        next.1 :: ofText next.2
termination_by text.length
decreasing_by
  · simp
  · have := rest_length_le_of_startingWith c rest
    simp only [List.length_cons]; omega

end Lexeme

end RuleLexer
