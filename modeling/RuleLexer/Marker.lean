import RuleLexer.StableSort
import RuleLexer.Text.Control

/-!
Markers: the fixed, non-empty texts that literals consist of and that open and close sections.

* `Marker.ofString?`: every text but the empty one is a marker;
* `Marker.occursAt`: whether a marker stands at the front of a text;
* `Marker.firstAt?`: the first of several markers that does;
* `Marker.longestFirst`: markers by falling length, so that the first to occur is the longest.
-/

namespace RuleLexer

/-- A text with at least one character. -/
structure Marker where
  lead : Char
  tail : List Char
deriving DecidableEq, Repr

namespace Marker

/-- The characters of the marker. -/
def chars (m : Marker) : List Char :=
  m.lead :: m.tail

/-- The number of its characters. -/
def length (m : Marker) : Nat :=
  m.chars.length

/-- The marker with the characters of `s`, unless there are none. -/
def ofString? (s : String) : Option Marker :=
  match s.toList with
  | [] => none
  | c :: cs => some ⟨c, cs⟩

/-- Whether the marker consists of line breaks only. Such a marker ends the line. -/
def breaksLine (m : Marker) : Bool :=
  m.chars.all isLineBreak

/-- Whether the marker stands at the front of `rest`. -/
def occursAt (m : Marker) (rest : List Char) : Bool :=
  m.chars.isPrefixOf rest

/-- The first of the markers that stands at the front of `rest`. -/
def firstAt? (markers : List Marker) (rest : List Char) : Option Marker :=
  markers.find? (·.occursAt rest)

/-- The markers by falling length, those of one length in the order given. -/
def longestFirst (markers : List Marker) : List Marker :=
  stableSort (fun a b => b.length ≤ a.length) markers

theorem length_pos (m : Marker) : 0 < m.length := by
  simp [length, chars]

/-- A marker that occurs is the text's beginning. -/
theorem occursAt_iff {m : Marker} {rest : List Char} :
    m.occursAt rest = true ↔ m.chars <+: rest := by
  simp [occursAt]

/-- A marker that was found occurs. -/
theorem occursAt_of_firstAt? {markers : List Marker} {rest : List Char} {m : Marker}
    (h : firstAt? markers rest = some m) : m.occursAt rest = true := by
  simpa using List.find?_some h

end Marker

end RuleLexer
