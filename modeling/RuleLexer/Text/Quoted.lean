import RuleLexer.Text.CodeRanges
import RuleLexer.Text.Unprintable

/-!
Texts and characters as messages quote them.

* `Quoted.spell`: how one character is spelled between two quotes;
* `Quoted.string`, `Quoted.char`: a text between double and a character between single quotes.
-/

namespace RuleLexer

namespace Quoted

/-- The digits of `n` in base sixteen, in lower case and without leading zeros. -/
def hexDigits (n : Nat) : List Char :=
  Nat.toDigits 16 n

/-- The spelling of `c` between two `quote` characters. The quote and the backslash take a
backslash, four controls have a letter, an unprintable character is given by its code point, and
every other character stands for itself. -/
def spell (quote c : Char) : List Char :=
  if c = '\x00' then ['\\', '0']
  else if c = '\t' then ['\\', 't']
  else if c = '\r' then ['\\', 'r']
  else if c = '\n' then ['\\', 'n']
  else if c = '\\' ∨ c = quote then ['\\', c]
  else if CodeRanges.contains unprintableRanges c.toNat then
    ['\\', 'u', '\x7b'] ++ hexDigits c.toNat ++ ['\x7d']
  else [c]

/-- The text `s` between double quotes. -/
def string (s : String) : String :=
  String.ofList ('"' :: s.toList.flatMap (spell '"') ++ ['"'])

/-- The character `c` between single quotes. -/
def char (c : Char) : String :=
  String.ofList ('\'' :: spell '\'' c ++ ['\''])

end Quoted

end RuleLexer
