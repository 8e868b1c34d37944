import RuleLexer.Json.Fault

/-!
Strings as JSON writes them.

* `StringPiece`: a character, or a unit of 16 bits given by its number;
* `StringPiece.next`: the next piece of a string, its end, or a fault;
* `StringPiece.decode?`: the characters that the pieces stand for, unless a surrogate stands alone;
* `JsonString.read`: the string at the front of a text.
-/

namespace RuleLexer

/-- A piece of a string. -/
inductive StringPiece where
  | char (c : Char)
  | unit (n : Nat)
deriving DecidableEq, Repr

namespace StringPiece

/-- How a string goes on. -/
inductive Next where
  | piece (piece : StringPiece) (rest : List Char)
  | closed (rest : List Char)
  | broken (fault : Fault)

/-- The character that a letter after a backslash stands for. -/
def escaped? : Char → Option Char
  | '"' => some '"'
  | '\\' => some '\\'
  | '/' => some '/'
  | 'b' => some '\x08'
  | 'f' => some '\x0c'
  | 'n' => some '\n'
  | 'r' => some '\r'
  | 't' => some '\t'
  | _ => none

/-- The value of a digit of base sixteen. -/
def hexDigit? (c : Char) : Option Nat :=
  if '0' ≤ c ∧ c ≤ '9' then some (c.toNat - '0'.toNat)
  else if 'a' ≤ c ∧ c ≤ 'f' then some (c.toNat - 'a'.toNat + 10)
  else if 'A' ≤ c ∧ c ≤ 'F' then some (c.toNat - 'A'.toNat + 10)
  else none

/-- The number that four digits of base sixteen write. -/
def hexNumber? (a b c d : Char) : Option Nat := do
  let a ← hexDigit? a
  let b ← hexDigit? b
  let c ← hexDigit? c
  let d ← hexDigit? d
  return ((a * 16 + b) * 16 + c) * 16 + d

/-- The unit whose number follows. The text ends too early when less than four bytes are left. -/
def unitNumber (rest : List Char) : Next :=
  match rest with
  | a :: b :: c :: d :: rest =>
      match hexNumber? a b c d with
      | some n => .piece (.unit n) rest
      | none => .broken .malformed
  | short => .broken (if (String.ofList short).utf8ByteSize < 4 then .truncated else .malformed)

/-- How a string goes on after a backslash. -/
def afterBackslash : List Char → Next
  | [] => .broken .truncated
  | c :: rest =>
      if c = 'u' then unitNumber rest
      else match escaped? c with
        | some d => .piece (.char d) rest
        | none => .broken .malformed

/-- How a string goes on. Control characters cannot stand in it. -/
def next : List Char → Next
  | [] => .broken .truncated
  | c :: rest =>
      if c = '"' then .closed rest
      else if c = '\\' then afterBackslash rest
      else if c.toNat < 0x20 then .broken .malformed
      else .piece (.char c) rest

/-! ### Progress -/

/-- The text after a piece or after the end of a string. -/
def Next.remaining : Next → List Char
  | piece _ rest => rest
  | closed rest => rest
  | broken _ => []

/-- The number of a unit stands at the front of the text. -/
theorem length_remaining_unitNumber_le (rest : List Char) :
    (unitNumber rest).remaining.length ≤ rest.length := by
  rw [unitNumber.eq_def]
  split
  · split
    · exact Nat.le_add_right _ 4
    · exact Nat.zero_le _
  · exact Nat.zero_le _

/-- What follows a backslash stands at the front of the text. -/
theorem length_remaining_afterBackslash_le (rest : List Char) :
    (afterBackslash rest).remaining.length ≤ rest.length := by
  rw [afterBackslash.eq_def]
  split
  · exact Nat.le_refl _
  · rename_i c rest
    split
    · exact Nat.le_succ_of_le (length_remaining_unitNumber_le rest)
    · split
      · exact Nat.le_succ _
      · exact Nat.zero_le _

/-- How a string goes on takes its first character. -/
theorem length_remaining_next_le (c : Char) (rest : List Char) :
    (next (c :: rest)).remaining.length ≤ rest.length := by
  rw [next]
  split
  · exact Nat.le_refl _
  split
  · exact length_remaining_afterBackslash_le rest
  split
  · exact Nat.zero_le _
  · exact Nat.le_refl _

/-- Every piece takes at least one character. -/
theorem length_lt_of_next {text rest : List Char} {p : StringPiece}
    (h : next text = .piece p rest) : rest.length < text.length := by
  cases text with
  | nil => cases h
  | cons c text =>
    have hle := length_remaining_next_le c text
    rw [h] at hle
    exact Nat.lt_succ_of_le hle

/-! ### Decoding -/

/-- Whether a unit is the first half of a pair. -/
def isHigh (n : Nat) : Bool :=
  0xD800 ≤ n && n ≤ 0xDBFF

/-- Whether a unit is the second half of a pair. -/
def isLow (n : Nat) : Bool :=
  0xDC00 ≤ n && n ≤ 0xDFFF

/-- The characters that the pieces stand for. Two units that are the halves of a pair are one
character; a half that stands alone is none. -/
def decode? : List StringPiece → Option (List Char)
  | [] => some []
  | .char c :: ps => (decode? ps).map (c :: ·)
  | .unit n :: ps =>
      if isHigh n then
        match ps with
        | .unit m :: ps =>
            if isLow m then
              (decode? ps).map (Char.ofNat (0x10000 + (n - 0xD800) * 0x400 + (m - 0xDC00)) :: ·)
            else none
        | _ => none
      else if isLow n then none
      else (decode? ps).map (Char.ofNat n :: ·)

/-- Whether a string that goes on after the pieces may still be decoded: a first half at the end
may yet find its other half. -/
def decodable (pieces : List StringPiece) : Bool :=
  match pieces.getLast? with
  | some (.unit n) =>
      (decode? (if isHigh n then pieces.dropLast else pieces)).isSome
  | _ => (decode? pieces).isSome

end StringPiece

/-- The string at the front of a text. -/
inductive JsonString where
  /-- A whole string: its characters, unless a surrogate stands alone in it, and the rest. -/
  | whole (text : Option String) (rest : List Char)
  /-- The string breaks off. -/
  | broken (faults : Faults)
deriving Repr

namespace JsonString

/-- The string that goes on with a text, when `pieces` is what came before, the last one first. -/
def readFrom (pieces : List StringPiece) (text : List Char) : JsonString :=
  match _h : StringPiece.next text with
  | .closed rest => .whole ((StringPiece.decode? pieces.reverse).map String.ofList) rest
  | .broken fault =>
      .broken ⟨if StringPiece.decodable pieces.reverse then fault else .malformed, fault⟩
  | .piece p rest => readFrom (p :: pieces) rest
termination_by text.length
decreasing_by exact StringPiece.length_lt_of_next _h

/-- The string whose opening quote stands before the text. -/
def read (text : List Char) : JsonString :=
  readFrom [] text

/-- Nothing is read twice: the rest after a string is no longer than the text. -/
theorem rest_length_le {pieces : List StringPiece} {text rest : List Char} {s : Option String}
    (h : readFrom pieces text = .whole s rest) : rest.length ≤ text.length := by
  fun_induction readFrom pieces text with
  | case1 pieces text rest' hn =>
    obtain ⟨-, rfl⟩ : _ ∧ rest' = rest := by simpa using h
    cases text with
    | nil => cases hn
    | cons c text =>
      have hle := StringPiece.length_remaining_next_le c text
      rw [hn] at hle
      exact Nat.le_succ_of_le hle
  | case2 => cases h
  | case3 pieces text p rest' hn ih =>
    exact Nat.le_of_lt (Nat.lt_of_le_of_lt (ih h) (StringPiece.length_lt_of_next hn))

end JsonString

end RuleLexer
