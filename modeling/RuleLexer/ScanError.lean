import RuleLexer.Position
import RuleLexer.Text.Quoted

/-!
What can go wrong while a text is tokenized or its tokens are consumed.

* `ScanError`: the causes;
* `ScanError.unexpected`: the error at a place where no rule matches;
* `ScanError.message`, `ScanError.code`, `ScanError.help?`, `ScanError.position?`: how an error is
  reported.
-/

namespace RuleLexer

/-- Why tokenizing or consuming stopped. -/
inductive ScanError where
  /-- No rule matches at `position`; `preview` is how the text goes on there. -/
  | unexpectedCharacter (character : Char) (preview : String) (position : Position)
  /-- The text ends at `stop` inside the section that was opened at `start`. -/
  | unterminatedSection (start stop : Position)
  /-- A token of a kind, given in words, that was not allowed. -/
  | illegalToken (kind text : String)
deriving DecidableEq, Repr

namespace ScanError

/-- The largest number of characters in a preview. -/
def previewLength : Nat := 30

/-- The error at a place where no rule matches and the text goes on with `rest`. -/
def unexpected (rest : List Char) (position : Position) : ScanError :=
  .unexpectedCharacter (rest.headD '\x00') (String.ofList (rest.take previewLength)) position

/-- The error in words. -/
def message : ScanError → String
  | unexpectedCharacter character preview position =>
      "unexpected character " ++ Quoted.char character ++ " at " ++ position.text ++ ", near "
        ++ Quoted.string preview
  | unterminatedSection start stop =>
      "section opened at " ++ start.text ++ " is not terminated before end of input at "
        ++ stop.text
  | illegalToken kind text => "illegal token " ++ kind ++ " " ++ Quoted.string text

/-- The code under which an error is reported. -/
def code : ScanError → String
  | unexpectedCharacter .. => "rulescan::unexpected_character"
  | unterminatedSection .. => "rulescan::unterminated_section"
  | illegalToken .. => "rulescan::illegal_token"

/-- What to look for, where there is a hint. -/
def help? : ScanError → Option String
  | unexpectedCharacter .. =>
      some "no character-run, literal, or section rule accepts this character"
  | unterminatedSection .. => none
  | illegalToken .. => none

/-- The place in the text that the error refers to, if it refers to one. -/
def position? : ScanError → Option Position
  | unexpectedCharacter _ _ position => some position
  | unterminatedSection start _ => some start
  | illegalToken .. => none

end ScanError

end RuleLexer
