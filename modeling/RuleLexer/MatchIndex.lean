import RuleLexer.MultiMap
import RuleLexer.Pattern

/-!
The index that answers which rule matches at a place of the text.

* `FixedMatch`: a fixed text found at a place, perhaps with its first character escaped;
* `MatchIndex.ofPatterns`: the index of a list of patterns;
* `MatchIndex.runFor?`: the first declared run that accepts a character;
* `MatchIndex.fixedAt?`: the longest fixed text at the front of the rest of the text, of those of
  one length the first declared.
-/

namespace RuleLexer

variable {κ : Type}

/-- What the rules match, ordered for looking up. -/
structure MatchIndex (κ : Type) where
  /-- The runs in the order of their declaration. -/
  runs : List (CharRun κ)
  /-- The fixed texts under their first characters, the longest first. -/
  fixedTexts : MultiMap Char (FixedText κ)
  /-- The escape characters, each once. -/
  escapes : List Char
  /-- The literals that end a line, each once, the longest first. -/
  lineEnds : List Marker
deriving Repr

/-- A fixed text that stands at the front of the rest of the text, perhaps with its first
character written as an escape. -/
structure FixedMatch (κ : Type) where
  text : FixedText κ
  escaped : Bool
deriving Repr

namespace FixedMatch

/-- The number of characters that the match covers, an escape character included. -/
def length (m : FixedMatch κ) : Nat :=
  (if m.escaped then 1 else 0) + m.text.marker.length

/-- Whether the match ends the line. An escaped line break does not. -/
def breaksLine (m : FixedMatch κ) : Bool :=
  m.text.breaksLine && !m.escaped

theorem length_pos (m : FixedMatch κ) : 0 < m.length :=
  Nat.lt_of_lt_of_le m.text.marker.length_pos (Nat.le_add_left _ _)

end FixedMatch

namespace MatchIndex

/-- The index of the patterns. -/
def ofPatterns (patterns : List (Pattern κ)) : MatchIndex κ :=
  let fixedTexts := patterns.filterMap Pattern.fixed?
  { runs := patterns.filterMap Pattern.run?
    fixedTexts := (MultiMap.ofList (fixedTexts.map fun f => (f.marker.lead, f))).sortGroups
      fun a b => b.marker.length ≤ a.marker.length
    escapes := (patterns.filterMap Pattern.escape?).eraseDups
    lineEnds := Marker.longestFirst
      ((fixedTexts.filter FixedText.breaksLine).map (·.marker)).eraseDups }

/-- The first declared run that accepts `c`. -/
def runFor? (ix : MatchIndex κ) (c : Char) : Option (CharRun κ) :=
  ix.runs.find? (·.charClass.accepts c)

/-- Whether `c` escapes the character after it. -/
def isEscape (ix : MatchIndex κ) (c : Char) : Bool :=
  ix.escapes.contains c

/-- The fixed texts that begin with `c`, the longest first. -/
def fixedTextsFrom (ix : MatchIndex κ) (c : Char) : List (FixedText κ) :=
  (ix.fixedTexts.get? c).getD []

/-- The longest fixed text that begins with `lead` and goes on with the front of `after`. -/
def fixedFrom? (ix : MatchIndex κ) (lead : Char) (after : List Char) : Option (FixedText κ) :=
  (ix.fixedTextsFrom lead).find? (·.marker.tail.isPrefixOf after)

/-- The longest fixed text at the front of the rest of the text. An escape character with a
character after it counts as one character, the one that the two stand for; the characters that
follow are compared as they stand. -/
def fixedAt? (ix : MatchIndex κ) : List Char → Option (FixedMatch κ)
  | [] => none
  | [c] => (ix.fixedFrom? c []).map (⟨·, false⟩)
  | c :: next :: after =>
      if ix.isEscape c then (ix.fixedFrom? (unescape next) after).map (⟨·, true⟩)
      else (ix.fixedFrom? c (next :: after)).map (⟨·, false⟩)

end MatchIndex

end RuleLexer
