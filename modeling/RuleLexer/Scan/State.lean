import RuleLexer.ScanError
import RuleLexer.Scan.Capture
import RuleLexer.Scan.Level

/-!
The machine that cuts a text into tokens. It holds a place in the text, the level of nesting that
is being filled, and the sections that are open around it.

* `State.step`: what happens at one place. A closing marker of the innermost section goes before
  everything else; then a fixed text wins over a run, unless the run is already in progress;
* `rest_length_lt_of_step`: every step consumes at least one character;
* `State.run`: steps until the text is over or an error stops the machine.
-/

namespace RuleLexer

variable {κ : Type}

/-- A nested section that waits for a closing marker. -/
structure OpenSection (κ : Type) where
  kind : κ
  discard : Bool
  closings : List Marker
  /-- The place of the opening marker. -/
  start : Cursor
  /-- The place after it. -/
  inside : Cursor
  /-- The level that the section stands in. -/
  outer : Level κ
deriving Repr

/-- A text in the course of being cut into tokens. -/
structure State (κ : Type) where
  cursor : Cursor
  /-- The innermost level. -/
  level : Level κ
  /-- The open sections, the innermost first. -/
  opened : List (OpenSection κ)
  /-- The places at which nested sections were entered, the last one first. -/
  entered : List Position
deriving Repr

/-- What a step leads to. -/
inductive Step (κ : Type) where
  | next (state : State κ)
  | halt (result : Except ScanError (TokenList κ))

/-- The end of a run of the machine: the tokens or an error, and the places at which nested
sections were entered, in this order. -/
structure Outcome (κ : Type) where
  result : Except ScanError (TokenList κ)
  entered : List Position

/-- The token of a section: its markers stand between `start` and `inside` and between `closing`
and `stop`. A nested section has no content, and its text leaves its inside out. -/
def Token.section (kind : κ) (start inside closing stop : Cursor) (nested : TokenList κ)
    (content : Option (List Char)) : Token κ :=
  let opening := start.upTo inside
  let raw := if content.isSome then inside.upTo closing else []
  let close := closing.upTo stop
  { Token.between kind start stop with
    text := String.ofList (opening ++ raw ++ close)
    nested
    delimiters := some ⟨String.ofList opening, String.ofList close, content.map String.ofList⟩ }

namespace OpenSection

/-- The level around the section with the section's token added, when the level inside is `level`
and the closing marker stands between `closing` and `stop`. -/
def close (o : OpenSection κ) (level : Level κ) (closing stop : Cursor) : Level κ :=
  o.outer.emit o.discard
    (.section o.kind o.start o.inside closing stop (level.tokensUpTo closing) none)

end OpenSection

namespace State

/-- The machine before a text. -/
def ofText (text : List Char) : State κ :=
  ⟨.ofText text, {}, [], []⟩

/-- The innermost open section, the sections around it, and its closing marker, if one stands at
this place. -/
def closing? (s : State κ) : Option (OpenSection κ × List (OpenSection κ) × Marker) :=
  match s.opened with
  | [] => none
  | o :: outer => (Marker.firstAt? o.closings s.cursor.rest).map fun m => (o, outer, m)

/-- The step at a fixed text: the run in progress ends, and what follows is a token, a section
that is taken as it stands, or a level of its own. -/
def takeFixed (ix : MatchIndex κ) (s : State κ) (m : FixedMatch κ) : Step κ :=
  let start := s.cursor
  let inside := start.skip m.length m.breaksLine
  let level := s.level.flush start
  match m.text.inside with
  | .nothing =>
      .next { s with
        cursor := inside
        level := level.emit m.text.discard (.between m.text.kind start inside) }
  | .nested closings =>
      .next {
        cursor := inside
        level := {}
        opened := ⟨m.text.kind, m.text.discard, closings, start, inside, level⟩ :: s.opened
        entered := start.position :: s.entered }
  | .raw closings =>
      match ix.capture closings inside with
      | .error stop => .halt (.error (.unterminatedSection start.position stop))
      | .ok r =>
          .next { s with
            cursor := r.stop
            level := level.emit m.text.discard
              (.section m.text.kind start inside r.closing r.stop [] (some r.content)) }

/-- The step at a character where no closing marker of the innermost section stands. -/
def takeChar (ix : MatchIndex κ) (s : State κ) (c : Char) : Step κ :=
  let run := ix.runFor? c
  let fixed := if run.any s.level.continues then none else ix.fixedAt? s.cursor.rest
  match fixed, run with
  | some m, _ => s.takeFixed ix m
  | none, some r =>
      .next { s with cursor := s.cursor.advance 1, level := s.level.extend r s.cursor }
  | none, none => .halt (.error (.unexpected s.cursor.rest s.cursor.position))

/-- One step of the machine. -/
def step (ix : MatchIndex κ) (s : State κ) : Step κ :=
  match s.cursor.rest with
  | [] =>
      .halt (match s.opened with
        | [] => .ok (s.level.tokensUpTo s.cursor)
        | o :: _ => .error (.unterminatedSection o.start.position s.cursor.position))
  | c :: _ =>
      match s.closing? with
      | some (o, outer, m) =>
          let stop := s.cursor.past m
          .next { s with cursor := stop, level := o.close s.level s.cursor stop, opened := outer }
      | none => s.takeChar ix c

/-! ### Progress -/

/-- Taking a fixed text consumes at least one character. -/
theorem rest_length_lt_of_takeFixed {ix : MatchIndex κ} {s t : State κ} {m : FixedMatch κ}
    (hne : s.cursor.rest ≠ []) (h : s.takeFixed ix m = .next t) :
    t.cursor.rest.length < s.cursor.rest.length := by
  have hm := m.length_pos
  have hr := List.length_pos_iff.mpr hne
  have hlt : (s.cursor.skip m.length m.breaksLine).rest.length < s.cursor.rest.length := by
    rw [Cursor.rest_skip, List.length_drop]
    omega
  rw [takeFixed] at h
  split at h
  · obtain rfl : _ = t := by simpa using h
    exact hlt
  · obtain rfl : _ = t := by simpa using h
    exact hlt
  · split at h
    · cases h
    · rename_i hc
      obtain rfl : _ = t := by simpa using h
      exact Nat.lt_of_le_of_lt (MatchIndex.rest_stop_length_le hc) hlt

/-- Taking a character consumes at least one. -/
theorem rest_length_lt_of_takeChar {ix : MatchIndex κ} {s t : State κ} {c : Char}
    (hne : s.cursor.rest ≠ []) (h : s.takeChar ix c = .next t) :
    t.cursor.rest.length < s.cursor.rest.length := by
  rw [takeChar] at h
  split at h
  · exact rest_length_lt_of_takeFixed hne h
  · obtain rfl : _ = t := by simpa using h
    have hr := List.length_pos_iff.mpr hne
    show (s.cursor.rest.drop 1).length < s.cursor.rest.length
    rw [List.length_drop]
    omega
  · cases h

/-- **Progress**: every step consumes at least one character. -/
theorem rest_length_lt_of_step {ix : MatchIndex κ} {s t : State κ} (h : s.step ix = .next t) :
    t.cursor.rest.length < s.cursor.rest.length := by
  rw [step] at h
  split at h
  · cases h
  · rename_i c rest hr
    have hne : s.cursor.rest ≠ [] := by simp [hr]
    split at h
    · rename_i m _
      obtain rfl : _ = t := by simpa using h
      have hm := m.length_pos
      have hpos := List.length_pos_iff.mpr hne
      show (s.cursor.past m).rest.length < s.cursor.rest.length
      rw [Cursor.rest_past, List.length_drop]
      omega
    · exact rest_length_lt_of_takeChar hne h

/-! ### Runs of the machine -/

/-- Steps until the machine halts. -/
def run (ix : MatchIndex κ) (s : State κ) : Outcome κ :=
  match _h : s.step ix with
  | .next t => run ix t
  | .halt result => ⟨result, s.entered.reverse⟩
termination_by s.cursor.rest.length
decreasing_by exact rest_length_lt_of_step _h

end State

end RuleLexer
