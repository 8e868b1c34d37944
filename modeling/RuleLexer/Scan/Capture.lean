import RuleLexer.Cursor
import RuleLexer.MatchIndex

/-!
Capturing the inside of a section that is taken as it stands.

* `RawPiece`: the next piece of the inside and what it contributes to the decoded content;
* `MatchIndex.rawStep`: whether the inside goes on, ends at a closing marker, or is cut off by the
  end of the text;
* `MatchIndex.capture`: the whole inside, up to and including its closing marker;
* `rest_stop_length_le`: capturing never moves backwards.
-/

namespace RuleLexer

variable {κ : Type}

/-- A piece of the inside of a section. -/
structure RawPiece where
  /-- The number of characters that the piece covers. -/
  length : Nat
  /-- What the piece stands for. -/
  content : List Char
  /-- Whether a new line begins after the piece. -/
  endsLine : Bool
  length_pos : 0 < length

/-- How the inside of a section goes on. -/
inductive RawStep where
  /-- The text is over. -/
  | endOfText
  /-- The section closes here. -/
  | closes (marker : Marker)
  | piece (piece : RawPiece)

/-- A captured inside. -/
structure Captured where
  /-- The inside with its escapes decoded. -/
  content : List Char
  /-- The place of the closing marker. -/
  closing : Cursor
  /-- The place after it. -/
  stop : Cursor
deriving Repr

namespace MatchIndex

/-- The piece that an escape character begins when `after` follows it. An escaped line end stands
for itself and ends the line; at the end of the text an escape character stands for nothing. -/
def escapePiece (ix : MatchIndex κ) : List Char → RawPiece
  | [] => ⟨1, [], false, Nat.one_pos⟩
  | next :: rest =>
      if isLineBreak next then
        let lineEnd := match Marker.firstAt? ix.lineEnds (next :: rest) with
          | some m => m.chars
          | none => [next]
        ⟨1 + lineEnd.length, lineEnd, true, by omega⟩
      else ⟨2, [unescape next], false, Nat.two_pos⟩

/-- The next step through the inside of a section. An escape goes before a closing marker, and a
closing marker before a line end. -/
def rawStep (ix : MatchIndex κ) (closings : List Marker) : List Char → RawStep
  | [] => .endOfText
  | c :: after =>
      if ix.isEscape c then .piece (ix.escapePiece after)
      else match Marker.firstAt? closings (c :: after) with
        | some m => .closes m
        | none =>
            match Marker.firstAt? ix.lineEnds (c :: after) with
            | some m => .piece ⟨m.length, m.chars, true, m.length_pos⟩
            | none => .piece ⟨1, [c], false, Nat.one_pos⟩

/-- The inside of a section from `c` on, when `decoded` is what came before, last character first.
Without a closing marker the error is the place where the text ends. -/
def captureFrom (ix : MatchIndex κ) (closings : List Marker) (decoded : List Char) (c : Cursor) :
    Except Position Captured :=
  match _hr : ix.rawStep closings c.rest with
  | .endOfText => .error c.position
  | .closes m => .ok ⟨decoded.reverse, c, c.past m⟩
  | .piece p => captureFrom ix closings (p.content.reverse ++ decoded) (c.skip p.length p.endsLine)
termination_by c.rest.length
decreasing_by
  have hne : c.rest ≠ [] := fun h => by simp [h, rawStep] at _hr
  have hp := p.length_pos
  have hpos := List.length_pos_iff.mpr hne
  rw [Cursor.rest_skip, List.length_drop]
  omega

/-- The inside of a section from `c` on, up to the first closing marker. -/
def capture (ix : MatchIndex κ) (closings : List Marker) (c : Cursor) :
    Except Position Captured :=
  ix.captureFrom closings [] c

/-- A section ends at or after the place where its inside begins. -/
theorem rest_stop_length_le {ix : MatchIndex κ} {closings : List Marker} {decoded : List Char}
    {c : Cursor} {r : Captured} (h : ix.captureFrom closings decoded c = .ok r) :
    r.stop.rest.length ≤ c.rest.length := by
  fun_induction captureFrom ix closings decoded c with
  | case1 => cases h
  | case2 decoded c m hr =>
    obtain rfl : _ = r := by simpa using h
    rw [Cursor.rest_past, List.length_drop]
    exact Nat.sub_le ..
  | case3 decoded c p hr ih =>
    have hle := ih h
    rw [Cursor.rest_skip, List.length_drop] at hle
    omega

end MatchIndex

end RuleLexer
