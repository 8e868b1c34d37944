import RuleLexer.MatchIndex
import RuleLexer.Token

/-!
One level of nesting while it is being tokenized: the tokens so far, and the run in progress.

* `Token.between`: the token made of the characters between two places;
* `Level.emit`: a token added, unless its rule discards;
* `Level.flush`: the run in progress made into a token;
* `Level.continues`: whether a run is the one in progress.
-/

namespace RuleLexer

variable {κ : Type}

/-- The token whose text stands between two places. -/
def Token.between (kind : κ) (start stop : Cursor) : Token κ where
  kind := kind
  text := String.ofList (start.upTo stop)
  nested := []
  delimiters := none
  position := start.position
  span := .between start.offset stop.offset

/-- A run that may still go on. -/
structure Pending (κ : Type) where
  run : CharRun κ
  start : Cursor
deriving Repr

/-- The state of one level of nesting. -/
structure Level (κ : Type) where
  /-- The tokens of the level, the last one first. -/
  emitted : List (Token κ) := []
  /-- The run in progress. -/
  pending : Option (Pending κ) := none
deriving Repr

namespace Level

/-- Adds a token, unless it is to be discarded. -/
def emit (level : Level κ) (discard : Bool) (token : Token κ) : Level κ :=
  if discard then level else { level with emitted := token :: level.emitted }

/-- Ends the run in progress at `stop`. -/
def flush (level : Level κ) (stop : Cursor) : Level κ :=
  match level.pending with
  | none => level
  | some p =>
      emit { level with pending := none } p.run.discard (.between p.run.kind p.start stop)

/-- Whether `run` is in progress. Only the first rule of a class ever starts a run, so the class
tells which run it is. -/
def continues (level : Level κ) (run : CharRun κ) : Bool :=
  match level.pending with
  | none => false
  | some p => p.run.charClass = run.charClass

/-- Goes on with `run` at `place`: the run in progress stays if it is this one, and ends there if
it is another. -/
def extend (level : Level κ) (run : CharRun κ) (place : Cursor) : Level κ :=
  if level.continues run then level
  else { level.flush place with pending := some ⟨run, place⟩ }

/-- The tokens of the level in the order of the text, when it ends at `stop`. -/
def tokensUpTo (level : Level κ) (stop : Cursor) : TokenList κ :=
  (level.flush stop).emitted.reverse

end Level

end RuleLexer
