/-!
Double-precision numbers in exact arithmetic.

* `Binary64`: the finite numbers `± significand · 2 ^ exponent`;
* `Binary64.ofRatio?`: the number nearest to a ratio, a half going to the even significand;
* `Binary64.mul?`, `Binary64.div?`: the rounded product and quotient;
* `Binary64.ofDecimal?`: the number that decimal digits and a power of ten are read as.

Nothing stands for a result that is too large. The operations act on the magnitudes; the sign is put
on at the end.
-/

namespace RuleLexer

/-- A finite double-precision number. The significand is below `2 ^ 53`; it is at least `2 ^ 52`
unless the exponent is the least one, `-1074`. -/
structure Binary64 where
  negative : Bool
  significand : Nat
  exponent : Int
deriving DecidableEq, Repr

/-- The power of two. -/
def twoTo (n : Nat) : Nat := Nat.pow 2 n

/-- The power of ten. -/
def tenTo (n : Nat) : Nat := Nat.pow 10 n

namespace Binary64

/-- The least exponent. -/
def leastExponent : Int := -1074

/-- The greatest exponent. -/
def greatestExponent : Int := 971

/-- The magnitude as a ratio of natural numbers. -/
def ratio (x : Binary64) : Nat × Nat :=
  if x.exponent < 0 then (x.significand, twoTo x.exponent.natAbs)
  else (x.significand * twoTo x.exponent.natAbs, 1)

/-- The quotient rounded to the nearest integer, a half going to the even neighbour. -/
def roundDiv (num den : Nat) : Nat :=
  let q := num / den
  let twice := 2 * (num % den)
  if twice < den ∨ (twice = den ∧ q % 2 = 0) then q else q + 1

/-- The power of two by which a ratio is divided to leave 53 binary digits before the point, or as
many as the least exponent allows. -/
def exponentFor (num den : Nat) : Int :=
  let k : Int := (Nat.log2 num : Int) - Nat.log2 den
  let reached := if k < 0 then den ≤ num * twoTo k.natAbs else den * twoTo k.natAbs ≤ num
  max leastExponent (if reached then k - 52 else k - 53)

/-- The number nearest to `num / den`, unless it is too large. -/
def ofRatio? (num den : Nat) : Option Binary64 :=
  if num = 0 then some ⟨false, 0, leastExponent⟩
  else
    let e := exponentFor num den
    let significand :=
      if e < 0 then roundDiv (num * twoTo e.natAbs) den else roundDiv num (den * twoTo e.natAbs)
    let (significand, e) :=
      if significand = twoTo 53 then (twoTo 52, e + 1) else (significand, e)
    if greatestExponent < e then none else some ⟨false, significand, e⟩

/-- The number nearest to the product. -/
def mul? (x y : Binary64) : Option Binary64 :=
  let (a, b) := x.ratio
  let (c, d) := y.ratio
  ofRatio? (a * c) (b * d)

/-- The number nearest to the quotient. -/
def div? (x y : Binary64) : Option Binary64 :=
  let (a, b) := x.ratio
  let (c, d) := y.ratio
  ofRatio? (a * d) (b * c)

/-- The greatest power of ten that a number can hold. -/
def greatestPower : Nat := 308

/-- The number nearest to `10 ^ n`. -/
def powerOfTen? (n : Nat) : Option Binary64 :=
  ofRatio? (tenTo n) 1

/-- The number `x` divided by the power of ten `n` times, as long as anything is left. -/
def divideOut? (power : Binary64) : Nat → Binary64 → Option Binary64
  | 0, x => some x
  | n + 1, x => if x.significand = 0 then some x else (x.div? power).bind (divideOut? power n)

/-- The value of `x · 10 ^ exponent`, with one rounding for the power of ten and one for the
product or quotient. A power that is too small to be held is divided out in steps. -/
def scale? (x : Binary64) (exponent : Int) : Option Binary64 :=
  let size := exponent.natAbs
  if 0 ≤ exponent then
    if size ≤ greatestPower then (powerOfTen? size).bind x.mul?
    else if x.significand = 0 then some x
    else none
  else
    let steps := (size - 1) / greatestPower
    ((powerOfTen? greatestPower).bind fun power => divideOut? power steps x).bind fun y =>
      (powerOfTen? (size - steps * greatestPower)).bind y.div?

/-- The number that `significand · 10 ^ exponent` is read as. -/
def ofDecimal? (negative : Bool) (significand : Nat) (exponent : Int) : Option Binary64 :=
  match ofRatio? significand 1 with
  | none => none
  | some x => (x.scale? exponent).map fun y => { y with negative }

end Binary64

end RuleLexer
