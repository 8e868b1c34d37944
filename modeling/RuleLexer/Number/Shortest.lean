import RuleLexer.Number.Binary64

/-!
The shortest decimal text of a double-precision number.

* `Decimal`: decimal digits with a power of ten;
* `Binary64.shortest`: the decimal with the fewest digits that is read back as the number;
* `Binary64.text`: its text, positional for moderate exponents and with an exponent otherwise.
-/

namespace RuleLexer

/-- The number `digits · 10 ^ exponent`. -/
structure Decimal where
  digits : Nat
  exponent : Int
deriving DecidableEq, Repr

namespace Decimal

/-- Compares `d · 10 ^ k` with `x · 2 ^ e` in natural numbers. -/
def compareBinary (d : Nat) (k : Int) (x : Nat) (e : Int) : Ordering :=
  compare (d * tenTo k.toNat * twoTo (-e).toNat) (x * twoTo e.toNat * tenTo (-k).toNat)

/-- The decimal without zeros at its end. At most `fuel` zeros are taken off. -/
def trimZeros : Nat → Decimal → Decimal
  | 0, d => d
  | fuel + 1, d =>
      if d.digits ≠ 0 ∧ d.digits % 10 = 0 then trimZeros fuel ⟨d.digits / 10, d.exponent + 1⟩
      else d

end Decimal

namespace Binary64

/-- The power of ten of the first digit of a number that is not zero. -/
def leadingPower (x : Binary64) : Int :=
  let guess : Int := ((Nat.log2 x.significand : Int) + x.exponent) * 30103 / 100000
  if Decimal.compareBinary 1 guess x.significand x.exponent = .gt then guess - 1
  else if Decimal.compareBinary 1 (guess + 1) x.significand x.exponent = .gt then guess
  else guess + 1

/-- The numbers that are rounded to `x` lie between the two ends, in quarters of its last binary
place. Below a power of two the gap is half as wide. -/
def roundingEnds (x : Binary64) : Nat × Nat :=
  let below := if x.significand = twoTo 52 ∧ x.exponent ≠ leastExponent then 1 else 2
  (4 * x.significand - below, 4 * x.significand + 2)

/-- Whether `d · 10 ^ k` is rounded to `x`. The ends belong to the number with the even
significand. -/
def readsBack (x : Binary64) (d : Nat) (k : Int) : Bool :=
  let (low, high) := x.roundingEnds
  let e := x.exponent - 2
  let closed := x.significand % 2 = 0
  let above := Decimal.compareBinary d k low e
  let below := Decimal.compareBinary d k high e
  (above = .gt || (closed && above = .eq)) && (below = .lt || (closed && below = .eq))

/-- The neighbour of `x` with the last digit at the place `10 ^ k` that is read back as `x`; of two,
the nearer, and of two at one distance the even one. -/
def onGrid? (x : Binary64) (k : Int) : Option Decimal :=
  let (num, den) := x.ratio
  let (num, den) := if k < 0 then (num * tenTo k.natAbs, den) else (num, den * tenTo k.natAbs)
  let down := num / den
  let up := down + 1
  match x.readsBack down k, x.readsBack up k with
  | false, false => none
  | true, false => some ⟨down, k⟩
  | false, true => some ⟨up, k⟩
  | true, true => some ⟨roundDiv num den, k⟩

/-- The decimal with the fewest digits that is read back as `x`, of those the nearest. Seventeen
digits always suffice. -/
def shortest (x : Binary64) : Decimal :=
  if x.significand = 0 then ⟨0, 0⟩
  else
    let power := x.leadingPower
    let found := (List.range 17).findSome? fun (n : Nat) => x.onGrid? (power - n)
    (found.getD ⟨x.significand, x.exponent⟩).trimZeros 18

/-- A power of ten with its sign, which is written in front of a positive power too. -/
def signedPower (power : Int) : List Char :=
  if power < 0 then (toString power).toList else '+' :: (toString power).toList

/-- The text of the number: digits with a point for a first digit at places from `10 ^ -5` to
`10 ^ 15`, and one digit before the point and a signed power of ten for all others. -/
def text (x : Binary64) : String :=
  let d := x.shortest
  let digits := Nat.toDigits 10 d.digits
  let count := digits.length
  let power := d.exponent + count - 1
  let body :=
    if x.significand = 0 then "0.0".toList
    else if power < -5 ∨ 15 < power then
      let fraction := if count = 1 then [] else '.' :: digits.drop 1
      digits.take 1 ++ fraction ++ 'e' :: signedPower power
    else if 0 ≤ d.exponent then
      digits ++ List.replicate d.exponent.toNat '0' ++ ['.', '0']
    else if 0 ≤ power then
      digits.take (power.toNat + 1) ++ '.' :: digits.drop (power.toNat + 1)
    else
      '0' :: '.' :: List.replicate (power.natAbs - 1) '0' ++ digits
  String.ofList (if x.negative then '-' :: body else body)

end Binary64

end RuleLexer
