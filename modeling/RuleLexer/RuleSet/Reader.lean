import RuleLexer.Json.Reader
import RuleLexer.RuleSet.Document

/-!
Rule sets from the texts of documents and from files.

* `DocumentError.message?`: what is wrong with a document, in words;
* `RuleSet.ofText`: the rule set of a document;
* `LoadError`, `RuleSet.ofFile`: the rule set of the bytes of a file.
-/

namespace RuleLexer

variable {κ : Type} [DocumentKind κ]

/-- What is wrong with the shape of a document, in words. -/
def DocumentError.message? : DocumentError → Option String
  | fault _ => none
  | shape e => some ("invalid rule set document: " ++ e.message)

/-- The kind that a JSON value stands for. -/
def DocumentKind.ofJson (v : Json) : Except ShapeError κ :=
  leaf.ofJson v

/-- The rule set of a document. -/
def RuleSet.ofText (text : String) : Except DocumentError (RuleSet κ) :=
  fromText Json.reader text

/-- Why a file holds no rule set. -/
inductive LoadError where
  /-- There is no such file. -/
  | notFound
  /-- Its bytes are no text in UTF-8. -/
  | notText
  | document (error : DocumentError)
deriving DecidableEq, Repr

/-- The rule set of a file with the given bytes, if there is a file. -/
def RuleSet.ofFile (bytes : Option ByteArray) : Except LoadError (RuleSet κ) :=
  match bytes with
  | none => .error .notFound
  | some bytes =>
      match String.fromUTF8? bytes with
      | none => .error .notText
      | some text => (RuleSet.ofText text).mapError .document

end RuleLexer
