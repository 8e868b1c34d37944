import RuleLexer.Kind
import RuleLexer.ScanError
import RuleLexer.Token

/-!
What a consumer does with a list of tokens.

* `TokenList.split`: the groups between the tokens of one kind;
* `TokenList.trim`: the list without tokens of some kinds at its ends;
* `TokenList.consume`: the first token taken off, if its kind is allowed;
* `Drain`: one token after another taken off, up to the first that is not allowed.
-/

namespace RuleLexer

variable {κ : Type}

namespace TokenList

/-- The kinds of the tokens. -/
def kinds (tokens : TokenList κ) : List κ :=
  tokens.map (·.kind)

variable [DecidableEq κ]

/-- The groups that the tokens of kind `sentinel` separate. There is one group more than there are
separators, and none holds a separator. -/
def split (sentinel : κ) : TokenList κ → List (TokenList κ)
  | [] => [[]]
  | t :: ts =>
      if t.kind = sentinel then [] :: split sentinel ts
      else match split sentinel ts with
        | [] => [[t]]
        | group :: groups => (t :: group) :: groups

/-- The tokens from the first on whose kind is not in `kinds`. -/
def trimFront (kinds : List κ) (tokens : TokenList κ) : TokenList κ :=
  tokens.dropWhile fun t => kinds.contains t.kind

/-- The tokens from the first up to the last whose kind is not in `kinds`. -/
def trim (kinds : List κ) (tokens : TokenList κ) : TokenList κ :=
  (trimFront kinds (trimFront kinds tokens).reverse).reverse

/-- Whether a list of kinds allows a kind. The empty list allows every kind. -/
def allows (allowed : List κ) (kind : κ) : Bool :=
  allowed.isEmpty || allowed.contains kind

/-- Takes the first token off, which is lost when its kind is not allowed. The answer is nothing
when there is no token; the second part is the list that is left. -/
def consume [Inspect κ] (allowed : List κ) :
    TokenList κ → Except ScanError (Option (Token κ)) × TokenList κ
  | [] => (.ok none, [])
  | t :: ts =>
      if allows allowed t.kind then (.ok (some t), ts)
      else (.error (.illegalToken (Inspect.inspect t.kind) t.text), ts)

end TokenList

/-! ### Taking all tokens -/

/-- A list from which tokens are being taken. -/
structure Drain (κ : Type) where
  tokens : TokenList κ
  /-- Whether an earlier answer was the last one. -/
  finished : Bool := false
deriving Repr

namespace Drain

variable [DecidableEq κ] [Inspect κ]

/-- Takes the next token. After the end of the list or an error no more tokens are taken. -/
def next (allowed : List κ) (d : Drain κ) :
    Option (Except ScanError (Token κ)) × Drain κ :=
  if d.finished then (none, d)
  else match TokenList.consume allowed d.tokens with
    | (.ok (some t), left) => (some (.ok t), ⟨left, false⟩)
    | (.ok none, left) => (none, ⟨left, true⟩)
    | (.error e, left) => (some (.error e), ⟨left, true⟩)

/-- The answers to `n` calls in a row, and the drain after them. -/
def nextMany (allowed : List κ) : Nat → Drain κ →
    List (Option (Except ScanError (Token κ))) × Drain κ
  | 0, d => ([], d)
  | n + 1, d =>
      let (answer, d) := d.next allowed
      let (answers, d) := nextMany allowed n d
      (answer :: answers, d)

/-- The answers up to the first that is nothing, that one included, and the drain after them.
Every answer but the last two takes a token, so a bounded number of calls reaches it. -/
def exhaust (allowed : List κ) (d : Drain κ) :
    List (Option (Except ScanError (Token κ))) × Drain κ :=
  let (answers, d) := d.nextMany allowed (d.tokens.length + 2)
  (answers.takeWhile Option.isSome ++ [none], d)

end Drain

end RuleLexer
