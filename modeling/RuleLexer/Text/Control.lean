/-!
The characters with a meaning of their own.

* `isLineBreak`: the two characters that end a line;
* `unescape`: what a character stands for after an escape character.
-/

namespace RuleLexer

/-- Whether `c` is a line feed or a carriage return. -/
def isLineBreak (c : Char) : Bool :=
  c = '\n' || c = '\r'

/-- What `c` stands for after an escape character: `0`, `r`, `n` and `t` name a control
character, and every other character stands for itself. -/
def unescape : Char → Char
  | '0' => '\x00'
  | 'r' => '\r'
  | 'n' => '\n'
  | 't' => '\t'
  | c => c

end RuleLexer
