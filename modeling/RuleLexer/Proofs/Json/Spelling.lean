import Mathlib.Data.Int.Notation
import Mathlib.Data.Nat.Notation
import RuleLexer.Json.Value

/-!
The grammar of JSON: how values are spelled.

* `SpellsChar`, `SpellsChars`: the spellings of a character, and of several, between quotes;
* `SpellsNatural`, `SpellsNumber`: decimal digits, and the integers of 64 bits;
* `Phrase`: what a part of a text stands for;
* `Spells`: the spellings of a phrase, with one rule for each way to write one;
* `Json.SpelledBy`: a text that writes a value, with blanks wherever they may stand;
* `Json.Integral`: the values whose numbers are integers of 64 bits;
* `Json.depth`: how deep arrays and objects are nested.

The grammar knows nothing of readers. It has no numbers with a fraction or a power of ten.
-/

namespace RuleLexer

/-! ### Blanks and strings -/

/-- Characters that mean nothing between the parts of a value. -/
def Blanks (w : List Char) : Prop :=
  ∀ c ∈ w, c = ' ' ∨ c = '\t' ∨ c = '\n' ∨ c = '\r'

/-- A digit of base sixteen, in lower case or in upper case. -/
inductive HexDigit : Char → ℕ → Prop
  | lower {n : ℕ} (h : n < 16) : HexDigit n.digitChar n
  | upper {n : ℕ} (h : n < 16) : HexDigit n.digitChar.toUpper n

/-- The number of a unit of 16 bits, by four digits. -/
inductive SpellsUnit : List Char → ℕ → Prop
  | digits {a b c d : Char} {p q r s : ℕ} (ha : HexDigit a p) (hb : HexDigit b q)
      (hc : HexDigit c r) (hd : HexDigit d s) :
      SpellsUnit ['\\', 'u', a, b, c, d] (((p * 16 + q) * 16 + r) * 16 + s)

/-- The letters that stand for a character after a backslash. -/
def escapeLetters : List (Char × Char) :=
  [('"', '"'), ('\\', '\\'), ('/', '/'), ('b', '\x08'), ('f', '\x0c'), ('n', '\n'), ('r', '\r'),
    ('t', '\t')]

/-- The spellings of a character between quotes: itself, unless it is a quote, a backslash or a
control; a letter after a backslash; and one or two units of 16 bits. -/
inductive SpellsChar : List Char → Char → Prop
  | plain {c : Char} (hquote : c ≠ '"') (hbackslash : c ≠ '\\') (h : 0x20 ≤ c.toNat) :
      SpellsChar [c] c
  | letter {l c : Char} (h : (l, c) ∈ escapeLetters) : SpellsChar ['\\', l] c
  | unit {w : List Char} {c : Char} (h : SpellsUnit w c.toNat) : SpellsChar w c
  | pair {w w' : List Char} {n m : ℕ} {c : Char} (h : SpellsUnit w (0xD800 + n))
      (h' : SpellsUnit w' (0xDC00 + m)) (hm : m < 0x400) (hc : c.toNat = 0x10000 + n * 0x400 + m) :
      SpellsChar (w ++ w') c

/-- The spellings of several characters between quotes. -/
inductive SpellsChars : List Char → List Char → Prop
  | nil : SpellsChars [] []
  | cons {w ws : List Char} {c : Char} {cs : List Char} (h : SpellsChar w c)
      (more : SpellsChars ws cs) : SpellsChars (w ++ ws) (c :: cs)

/-! ### Numbers -/

/-- Decimal digits, of which the first is a zero only if it is the only one. -/
inductive SpellsNatural : List Char → ℕ → Prop
  | digit {d : ℕ} (h : d < 10) : SpellsNatural [d.digitChar] d
  | append {w : List Char} {n d : ℕ} (more : SpellsNatural w n) (hn : 0 < n) (h : d < 10) :
      SpellsNatural (w ++ [d.digitChar]) (n * 10 + d)

/-- The integers of 64 bits. Zero with a minus is no integer but the negative zero. -/
inductive SpellsNumber : List Char → Json → Prop
  | natural {w : List Char} {n : ℕ} (h : SpellsNatural w n) (hn : n ≤ 0xFFFFFFFFFFFFFFFF) :
      SpellsNumber w (.integer n)
  | negative {w : List Char} {n : ℕ} (h : SpellsNatural w n) (hpos : 0 < n) (hn : n ≤ 0x8000000000000000) :
      SpellsNumber ('-' :: w) (.integer (-n))
  | negativeZero : SpellsNumber ['-', '0'] (.real ⟨true, 0, Binary64.leastExponent⟩)

/-! ### Values -/

/-- What a part of a text stands for. -/
inductive Phrase where
  | value (v : Json)
  /-- A value with blanks around it. -/
  | element (v : Json)
  /-- What stands between the brackets of an array that has items. -/
  | elements (vs : List Json)
  | member (key : String) (v : Json)
  /-- What stands between the brackets of an object that has members. -/
  | members (ms : List (String × Json))

/-- The spellings of a phrase. -/
inductive Spells : List Char → Phrase → Prop
  | null : Spells ['n', 'u', 'l', 'l'] (.value .null)
  | true : Spells ['t', 'r', 'u', 'e'] (.value (.bool true))
  | false : Spells ['f', 'a', 'l', 's', 'e'] (.value (.bool false))
  | number {w : List Char} {v : Json} (h : SpellsNumber w v) : Spells w (.value v)
  | string {w : List Char} {s : String} (h : SpellsChars w s.toList) :
      Spells ('"' :: (w ++ ['"'])) (.value (.string s))
  | emptyArray {b : List Char} (hb : Blanks b) : Spells ('[' :: (b ++ [']'])) (.value (.array []))
  | array {w : List Char} {vs : List Json} (h : Spells w (.elements vs)) :
      Spells ('[' :: (w ++ [']'])) (.value (.array vs))
  | emptyObject {b : List Char} (hb : Blanks b) :
      Spells ('\x7b' :: (b ++ ['\x7d'])) (.value (.object []))
  | object {w : List Char} {ms : List (String × Json)} (h : Spells w (.members ms)) :
      Spells ('\x7b' :: (w ++ ['\x7d'])) (.value (.object ms))
  | element {b w b' : List Char} {v : Json} (hb : Blanks b) (h : Spells w (.value v))
      (hb' : Blanks b') : Spells (b ++ (w ++ b')) (.element v)
  | lastElement {w : List Char} {v : Json} (h : Spells w (.element v)) : Spells w (.elements [v])
  | elements {w ws : List Char} {v : Json} {vs : List Json} (h : Spells w (.element v))
      (more : Spells ws (.elements vs)) : Spells (w ++ ',' :: ws) (.elements (v :: vs))
  | member {b k b' w : List Char} {key : String} {v : Json} (hb : Blanks b)
      (hkey : SpellsChars k key.toList) (hb' : Blanks b') (h : Spells w (.element v)) :
      Spells (b ++ '"' :: (k ++ '"' :: (b' ++ ':' :: w))) (.member key v)
  | lastMember {w : List Char} {key : String} {v : Json} (h : Spells w (.member key v)) :
      Spells w (.members [(key, v)])
  | members {w ws : List Char} {key : String} {v : Json} {ms : List (String × Json)}
      (h : Spells w (.member key v)) (more : Spells ws (.members ms)) :
      Spells (w ++ ',' :: ws) (.members ((key, v) :: ms))

namespace Json

/-- The text writes the value. -/
def SpelledBy (v : Json) (text : String) : Prop :=
  Spells text.toList (.element v)

/-- The numbers in the value are integers of 64 bits. -/
inductive Integral : Json → Prop
  | null : Integral .null
  | bool (b : Bool) : Integral (.bool b)
  | integer {n : ℤ} (hlow : -0x8000000000000000 ≤ n)
    (hhigh : n ≤ 0xFFFFFFFFFFFFFFFF) : Integral (.integer n)
  | string (s : String) : Integral (.string s)
  | array {vs : List Json} (h : ∀ v ∈ vs, Integral v) : Integral (.array vs)
  | object {ms : List (String × Json)} (h : ∀ m ∈ ms, Integral m.2) : Integral (.object ms)

/-! ### Depth -/

mutual

/-- How deep arrays and objects are nested. -/
def depth : Json → ℕ
  | .array items => depthItems items + 1
  | .object members => depthMembers members + 1
  | _ => 0

/-- How deep arrays and objects are nested in the items. -/
def depthItems : List Json → ℕ
  | [] => 0
  | v :: vs => max v.depth (depthItems vs)

/-- How deep arrays and objects are nested in the members. -/
def depthMembers : List (String × Json) → ℕ
  | [] => 0
  | (_, v) :: ms => max v.depth (depthMembers ms)

end

end Json

end RuleLexer
