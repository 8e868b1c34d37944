import RuleLexer.Json.Fault
import RuleLexer.Number.Binary64

/-!
Numbers as JSON writes them.

* `Numeral`: the digits of a number, part by part;
* `Numeral.split`: the numeral at the front of a text, by the grammar of JSON;
* `Numeral.integer?`, `Numeral.real?`: the number that it stands for;
* `Numeral.rest_length_lt_of_split`: a numeral has at least one character.
-/

namespace RuleLexer

/-- The parts of a number: its digits before the point, those after it, and the power of ten. -/
structure Numeral where
  negative : Bool
  whole : List Nat
  fraction : List Nat
  /-- The sign and the digits of the power of ten. -/
  exponent : Option (Bool × List Nat)
deriving DecidableEq, Repr

namespace Numeral

/-- The value of a decimal digit. -/
def digit? (c : Char) : Option Nat :=
  if c.isDigit then some (c.toNat - '0'.toNat) else none

/-- The digits at the front of a text, and the rest. -/
def digits : List Char → List Nat × List Char
  | [] => ([], [])
  | c :: rest =>
      match digit? c with
      | none => ([], c :: rest)
      | some d => (d :: (digits rest).1, (digits rest).2)

/-- At least one digit, and the rest. -/
def someDigits (text : List Char) : Except Fault (List Nat × List Char) :=
  match digits text with
  | ([], rest) => .error (.at rest)
  | (ds, rest) => .ok (ds, rest)

/-- The digits before the point. A zero is followed by no further digit. -/
def wholePart (text : List Char) : Except Fault (List Nat × List Char) :=
  match someDigits text with
  | .ok (0 :: _ :: _, _) => .error .malformed
  | result => result

/-- The point and the digits after it, if there is a point. -/
def fractionPart : List Char → Except Fault (List Nat × List Char)
  | '.' :: rest => someDigits rest
  | rest => .ok ([], rest)

/-- The sign of a power of ten, which is true for a minus, and the rest. -/
def exponentSign : List Char → Bool × List Char
  | '-' :: rest => (true, rest)
  | '+' :: rest => (false, rest)
  | rest => (false, rest)

/-- The mark of a power of ten and its digits, if there is a mark. -/
def exponentPart : List Char → Except Fault (Option (Bool × List Nat) × List Char)
  | c :: rest =>
      if c = 'e' ∨ c = 'E' then
        let (negative, rest) := exponentSign rest
        (someDigits rest).map fun (ds, rest) => (some (negative, ds), rest)
      else .ok (none, c :: rest)
  | [] => .ok (none, [])

/-- The numeral at the front of a text that begins with a digit or, when `negative`, follows a
minus. -/
def split (negative : Bool) (text : List Char) : Except Fault (Numeral × List Char) := do
  let (whole, rest) ← wholePart text
  let (fraction, rest) ← fractionPart rest
  let (exponent, rest) ← exponentPart rest
  return (⟨negative, whole, fraction, exponent⟩, rest)

/-! ### Values -/

/-- The largest significand, that of 64 bits. -/
def significandLimit : Nat := 0xFFFFFFFFFFFFFFFF

/-- The largest magnitude of a negative integer, that of 64 bits. -/
def negativeLimit : Nat := 0x8000000000000000

/-- Appends digits to a significand as long as it does not exceed the limit. The second part is the
number of digits that were left out. -/
def accumulate (significand : Nat) : List Nat → Nat × Nat
  | [] => (significand, 0)
  | d :: ds =>
      if significandLimit < significand * 10 + d then (significand, ds.length + 1)
      else accumulate (significand * 10 + d) ds

/-- The number with the given digits. -/
def ofDigits (ds : List Nat) : Nat :=
  ds.foldl (fun n d => n * 10 + d) 0

/-- The power of ten that is written. -/
def power (n : Numeral) : Int :=
  match n.exponent with
  | none => 0
  | some (negative, ds) => if negative then -(ofDigits ds : Int) else ofDigits ds

/-- The integer that the numeral stands for: it has neither fraction nor power of ten, and fits into
64 bits. A negative zero is no integer. -/
def integer? (n : Numeral) : Option Int :=
  let (significand, dropped) := accumulate 0 n.whole
  if n.fraction ≠ [] ∨ n.exponent.isSome ∨ dropped ≠ 0 then none
  else if !n.negative then some significand
  else if significand = 0 ∨ negativeLimit < significand then none
  else some (-(significand : Int))

/-- The double-precision number that the numeral stands for, unless it is too large. Digits of the
whole part that the significand cannot take count as zeros, digits of the fraction are left
out. -/
def real? (n : Numeral) : Option Binary64 :=
  let (significand, dropped) := accumulate 0 n.whole
  let (significand, left) := accumulate significand n.fraction
  Binary64.ofDecimal? n.negative significand (dropped - (n.fraction.length - left : Nat) + n.power)

/-! ### Progress -/

/-- Digits are taken from the front of the text. -/
theorem rest_length_le_of_digits (text : List Char) : (digits text).2.length ≤ text.length := by
  induction text with
  | nil => exact Nat.le_refl _
  | cons c text ih =>
    rw [digits]
    split
    · exact Nat.le_refl _
    · exact Nat.le_succ_of_le ih

/-- Taking a digit shortens the text. -/
theorem rest_length_lt_of_digits (text : List Char) (h : (digits text).1 ≠ []) :
    (digits text).2.length < text.length := by
  cases text with
  | nil => exact absurd rfl h
  | cons c text =>
    rw [digits] at h ⊢
    split at h
    · exact absurd rfl h
    · exact Nat.lt_succ_of_le (rest_length_le_of_digits text)

/-- At least one digit is taken. -/
theorem rest_length_lt_of_someDigits {text rest : List Char} {ds : List Nat}
    (h : someDigits text = .ok (ds, rest)) : rest.length < text.length := by
  rw [someDigits] at h
  split at h
  · cases h
  · rename_i ds' rest' hne hd
    obtain ⟨rfl, rfl⟩ : ds' = ds ∧ rest' = rest := by simpa using h
    have hlt := rest_length_lt_of_digits text
    rw [hd] at hlt
    exact hlt hne

theorem rest_length_lt_of_wholePart {text rest : List Char} {ds : List Nat}
    (h : wholePart text = .ok (ds, rest)) : rest.length < text.length := by
  rw [wholePart] at h
  split at h
  · cases h
  · exact rest_length_lt_of_someDigits h

theorem rest_length_le_of_fractionPart {text rest : List Char} {ds : List Nat}
    (h : fractionPart text = .ok (ds, rest)) : rest.length ≤ text.length := by
  rw [fractionPart.eq_def] at h
  split at h
  · exact Nat.le_succ_of_le (Nat.le_of_lt (rest_length_lt_of_someDigits h))
  · obtain ⟨-, rfl⟩ : _ ∧ _ = rest := by simpa using h
    exact Nat.le_refl _

theorem rest_length_le_of_exponentSign (text : List Char) :
    (exponentSign text).2.length ≤ text.length := by
  rw [exponentSign.eq_def]
  split
  · exact Nat.le_succ _
  · exact Nat.le_succ _
  · exact Nat.le_refl _

theorem rest_length_le_of_exponentPart {text rest : List Char} {e : Option (Bool × List Nat)}
    (h : exponentPart text = .ok (e, rest)) : rest.length ≤ text.length := by
  cases text with
  | nil =>
    obtain ⟨-, rfl⟩ : none = e ∧ rest = [] := by simpa [exponentPart] using h
    exact Nat.le_refl _
  | cons c text =>
    rw [exponentPart] at h
    split at h
    · cases hd : someDigits (exponentSign text).2 with
      | error f => simp [hd, Except.map] at h
      | ok r =>
        obtain ⟨-, rfl⟩ : _ ∧ r.2 = rest := by simpa [hd, Except.map] using h
        have hlt := rest_length_lt_of_someDigits hd
        have hle := rest_length_le_of_exponentSign text
        rw [List.length_cons]
        omega
    · obtain ⟨-, rfl⟩ : _ ∧ _ = rest := by simpa using h
      exact Nat.le_refl _

/-- A numeral has at least one character. -/
theorem rest_length_lt_of_split {negative : Bool} {text rest : List Char} {n : Numeral}
    (h : split negative text = .ok (n, rest)) : rest.length < text.length := by
  rw [split] at h
  cases hw : wholePart text with
  | error f => simp [hw, bind, Except.bind] at h
  | ok w =>
    cases hf : fractionPart w.2 with
    | error f => simp [hw, hf, bind, Except.bind] at h
    | ok f =>
      cases he : exponentPart f.2 with
      | error g => simp [hw, hf, he, bind, Except.bind] at h
      | ok e =>
        obtain ⟨-, rfl⟩ : _ ∧ e.2 = rest := by
          simpa [hw, hf, he, bind, Except.bind, pure, Except.pure] using h
        have h₁ := rest_length_lt_of_wholePart hw
        have h₂ := rest_length_le_of_fractionPart hf
        have h₃ := rest_length_le_of_exponentPart he
        omega

end Numeral

end RuleLexer
