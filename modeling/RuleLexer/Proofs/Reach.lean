import Mathlib.Tactic
import RuleLexer.Scan.Capture

/-!
Places of one text, in the order in which they are reached.

* `Cursor.Reaches`: a place of the same text, the same or a later one; reaching is transitive;
* `Reaches.upTo_append_rest`, `Reaches.upTo_append`: the characters up to a later place are what
  the rest of the text begins with, and they join from place to place;
* `Reaches.slice_eq_upTo`: they are the slice of the whole text between the two offsets;
* `MatchIndex.captureFrom_reaches`: the inside of a captured section reaches its closing marker,
  which stands there.
-/

namespace RuleLexer

namespace Position

lemma advance_zero (p : Position) : p.advance 0 = p := by
  have hcol : p.column.add 0 = p.column := by
    ext
    simpa using p.column.val_le
  simp only [advance, hcol]

/-- The way on the same line can be taken in two parts. -/
lemma advance_advance (p : Position) (m n : ℕ) : (p.advance m).advance n = p.advance (m + n) := by
  have hcol : (p.column.add m).add n = p.column.add (m + n) := by
    ext
    simp only [Coord.val_add]
    omega
  simp only [advance, hcol]

end Position

namespace Cursor

/-- `d` is a place of the same text as `c`, not before `c`. -/
structure Reaches (c d : Cursor) : Prop where
  offset_le : c.offset ≤ d.offset
  rest_eq : d.rest = c.rest.drop (d.offset - c.offset)
  sub_le_length : d.offset - c.offset ≤ c.rest.length

namespace Reaches

variable {c d e : Cursor}

lemma refl (c : Cursor) : c.Reaches c :=
  ⟨le_rfl, by simp, by simp⟩

/-- The place reached by leaving `n` characters behind. -/
lemma of_drop {n : ℕ} (hn : n ≤ c.rest.length) (hr : d.rest = c.rest.drop n)
    (ho : d.offset = c.offset + n) : c.Reaches d := by
  have hsub : d.offset - c.offset = n := by omega
  exact ⟨by omega, by rw [hsub, hr], by omega⟩

lemma advance {n : ℕ} (hn : n ≤ c.rest.length) : c.Reaches (c.advance n) :=
  of_drop hn rfl rfl

lemma skip {n : ℕ} (hn : n ≤ c.rest.length) (b : Bool) : c.Reaches (c.skip n b) :=
  of_drop hn (rest_skip c n b) (offset_skip c n b)

/-- A marker that stands at a place leads to a later one. -/
lemma past {markers : List Marker} {m : Marker} (hm : Marker.firstAt? markers c.rest = some m) :
    c.Reaches (c.past m) :=
  skip (Marker.occursAt_iff.mp (Marker.occursAt_of_firstAt? hm)).length_le _

lemma trans (h : c.Reaches d) (h' : d.Reaches e) : c.Reaches e := by
  have h1 := h.offset_le
  have h2 := h'.offset_le
  have h3 := h.sub_le_length
  -- what is left at `d` is what is left at `c`, less the way between
  have h4 := h'.sub_le_length
  rw [h.rest_eq, List.length_drop] at h4
  refine ⟨by omega, ?_, by omega⟩
  rw [h'.rest_eq, h.rest_eq, List.drop_drop]
  congr 1
  omega

/-- Nothing of the text is lost between two places. -/
lemma offset_add_length (h : c.Reaches d) :
    d.offset + d.rest.length = c.offset + c.rest.length := by
  have h1 := h.offset_le
  have h2 := h.sub_le_length
  rw [h.rest_eq, List.length_drop]
  omega

/-- No more of the text is left at a later place. -/
lemma length_le (h : c.Reaches d) : d.rest.length ≤ c.rest.length := by
  have hle := h.offset_le
  have htext := h.offset_add_length
  omega

lemma length_upTo (h : c.Reaches d) : (c.upTo d).length = d.offset - c.offset := by
  rw [upTo, List.length_take]
  exact min_eq_left h.sub_le_length

/-- The rest of the text is what stands before the later place, and the rest from there. -/
lemma upTo_append_rest (h : c.Reaches d) : c.upTo d ++ d.rest = c.rest := by
  rw [upTo, h.rest_eq, List.take_append_drop]

/-- The characters up to a later place join from place to place. -/
lemma upTo_append (h : c.Reaches d) (h' : d.Reaches e) : c.upTo d ++ d.upTo e = c.upTo e := by
  have h1 := h.offset_le
  have h2 := h'.offset_le
  rw [upTo, upTo, upTo, h.rest_eq, ← List.take_add]
  congr 1
  omega

/-- Up to the end of the text everything is covered. -/
lemma upTo_eq_rest (h : c.Reaches d) (hd : d.rest = []) : c.upTo d = c.rest := by
  simpa [hd] using h.upTo_append_rest

/-- At a place of a text the rest of it begins at the offset. -/
lemma rest_eq_drop {text : List Char} (hc : (ofText text).Reaches c) :
    c.rest = text.drop c.offset := by
  simpa only [ofText, Nat.sub_zero] using hc.rest_eq

/-- What stands before a place of a text and what stands behind it make up the text. -/
lemma offset_add_length_rest {text : List Char} (hc : (ofText text).Reaches c) :
    c.offset + c.rest.length = text.length := by
  simpa [ofText] using hc.offset_add_length

/-- The characters between two places of a text are a slice of it. -/
lemma slice_eq_upTo {text : List Char} (hc : (ofText text).Reaches c) :
    (text.drop c.offset).take (d.offset - c.offset) = c.upTo d := by
  rw [upTo, hc.rest_eq_drop]

/-- A place of a text lies within it. -/
lemma offset_le_length {text : List Char} (hc : (ofText text).Reaches c) :
    c.offset ≤ text.length := by
  simpa [ofText] using hc.sub_le_length

end Reaches

lemma advance_zero (c : Cursor) : c.advance 0 = c := by
  simp only [advance, Position.advance_zero, List.drop_zero, Nat.add_zero]

/-- The way on the same line can be taken in two parts. -/
lemma advance_advance (c : Cursor) (m n : ℕ) : (c.advance m).advance n = c.advance (m + n) := by
  simp only [advance, Position.advance_advance, List.drop_drop, Nat.add_assoc]

end Cursor

/-! ### Captured insides -/

namespace MatchIndex

variable {κ : Type} {ix : MatchIndex κ} {closings : List Marker}

/-- The piece that an escape character begins lies within the text. -/
lemma length_escapePiece_le (ix : MatchIndex κ) (after : List Char) :
    (ix.escapePiece after).length ≤ after.length + 1 := by
  cases after with
  | nil => exact le_rfl
  | cons next rest =>
      by_cases hb : isLineBreak next
      · cases hm : Marker.firstAt? ix.lineEnds (next :: rest) with
        | none => simp [escapePiece, hb, hm]
        | some m =>
            have hle := (Marker.occursAt_iff.mp (Marker.occursAt_of_firstAt? hm)).length_le
            simp only [escapePiece, hb, hm, if_true]
            omega
      · simp [escapePiece, hb]

/-- A piece of the inside of a section lies within the text. -/
lemma length_le_of_rawStep {rest : List Char} {p : RawPiece}
    (h : ix.rawStep closings rest = .piece p) : p.length ≤ rest.length := by
  cases rest with
  | nil => cases h
  | cons c after =>
      rw [rawStep] at h
      split at h
      · obtain rfl : _ = p := by simpa using h
        exact ix.length_escapePiece_le after
      · split at h
        · cases h
        · split at h
          · rename_i m hm
            obtain rfl : _ = p := by simpa using h
            exact (Marker.occursAt_iff.mp (Marker.occursAt_of_firstAt? hm)).length_le
          · obtain rfl : _ = p := by simpa using h
            simp

/-- Only the end of the text stops the way through the inside. -/
lemma rest_eq_nil_of_rawStep {rest : List Char} (h : ix.rawStep closings rest = .endOfText) :
    rest = [] := by
  cases rest with
  | nil => rfl
  | cons c after =>
      rw [rawStep] at h
      split_ifs at h
      split at h
      · cases h
      · split at h <;> cases h

/-- Where a section closes, one of its closing markers stands. -/
lemma firstAt?_of_rawStep {rest : List Char} {m : Marker}
    (h : ix.rawStep closings rest = .closes m) : Marker.firstAt? closings rest = some m := by
  cases rest with
  | nil => cases h
  | cons c after =>
      rw [rawStep] at h
      split at h
      · cases h
      · split at h
        · rename_i m' hm
          obtain rfl : m' = m := by simpa using h
          exact hm
        · split at h <;> cases h

/-- No section closes at an escape character. -/
lemma isEscape_eq_false_of_rawStep {c : Char} {after : List Char} {m : Marker}
    (h : ix.rawStep closings (c :: after) = .closes m) : ix.isEscape c = false := by
  by_contra hescape
  rw [rawStep, if_pos (by simpa using hescape)] at h
  cases h

/-- How the inside goes on after the next step. -/
lemma captureFrom_eq (ix : MatchIndex κ) (closings : List Marker) (decoded : List Char)
    (c : Cursor) :
    ix.captureFrom closings decoded c = match ix.rawStep closings c.rest with
      | .endOfText => .error c.position
      | .closes m => .ok ⟨decoded.reverse, c, c.past m⟩
      | .piece p =>
          ix.captureFrom closings (p.content.reverse ++ decoded) (c.skip p.length p.endsLine) := by
  rw [captureFrom]
  split <;> simp only [*]

/-- **A captured inside** ends at a later place, where a closing marker stands; the section ends
right after this marker. -/
lemma captureFrom_reaches {decoded : List Char} {c : Cursor} {r : Captured}
    (h : ix.captureFrom closings decoded c = .ok r) :
    c.Reaches r.closing ∧
      ∃ m, Marker.firstAt? closings r.closing.rest = some m ∧ r.stop = r.closing.past m := by
  fun_induction captureFrom ix closings decoded c with
  | case1 => cases h
  | case2 decoded c m hr =>
      obtain rfl : _ = r := by simpa using h
      exact ⟨.refl c, m, firstAt?_of_rawStep hr, rfl⟩
  | case3 decoded c p hr ih =>
      obtain ⟨hreach, hm⟩ := ih h
      exact ⟨(Cursor.Reaches.skip (length_le_of_rawStep hr) _).trans hreach, hm⟩

/-- The closing marker of a captured section, and the place after it, come later. -/
lemma capture_reaches {c : Cursor} {r : Captured} (h : ix.capture closings c = .ok r) :
    c.Reaches r.closing ∧ r.closing.Reaches r.stop := by
  obtain ⟨hclosing, m, hm, hstop⟩ := captureFrom_reaches h
  exact ⟨hclosing, hstop ▸ .past hm⟩

end MatchIndex

end RuleLexer
