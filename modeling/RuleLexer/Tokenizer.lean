import RuleLexer.Event
import RuleLexer.Scan.State

/-!
Tokenizers: lists of well-formed rules with the index to match them by.

* `Tokenizer.ofRules`: the tokenizer of a list of rules, or the first malformed rule;
* `Tokenizer.tokenize`: the tokens of a text, or the error that stopped tokenizing;
* `Tokenizer.builtEvents`, `Tokenizer.tokenizeEvents`: what is reported meanwhile.
-/

namespace RuleLexer

variable {κ : Type}

/-- A list of rules that are all well-formed, with its index. -/
structure Tokenizer (κ : Type) where
  rules : List (Rule κ)
  patterns : List (Pattern κ)
  index : MatchIndex κ
  patterns_eq : Pattern.ofRules 0 rules = .ok patterns
  index_eq : index = .ofPatterns patterns

namespace Tokenizer

/-- The tokenizer of the rules, unless one of them is malformed. -/
def ofRules (rules : List (Rule κ)) : Except RuleError (Tokenizer κ) :=
  match h : Pattern.ofRules 0 rules with
  | .error e => .error e
  | .ok patterns => .ok ⟨rules, patterns, .ofPatterns patterns, h, rfl⟩

/-- Cuts the text into tokens, and notes the nested sections on the way. -/
def scan (t : Tokenizer κ) (text : String) : Outcome κ :=
  (State.ofText text.toList).run t.index

/-- The tokens of the text, or the error that stopped tokenizing. -/
def tokenize (t : Tokenizer κ) (text : String) : Except ScanError (TokenList κ) :=
  (t.scan text).result

/-! ### Reports -/

/-- The report on a tokenizer that was built. -/
def builtEvents (t : Tokenizer κ) : List Event :=
  [.indexed t.rules.length t.index.runs.length t.index.fixedTexts.valueCount
    t.index.escapes.length]

/-- The reports on tokenizing a text: it begins, nested sections are entered, and if no error stops
it, it ends. -/
def tokenizeEvents (t : Tokenizer κ) (text : String) : List Event :=
  let outcome := t.scan text
  .tokenizing text.utf8ByteSize :: outcome.entered.map .entering ++
    match outcome.result with
    | .ok tokens => [.tokenized tokens.length]
    | .error _ => []

end Tokenizer

end RuleLexer
