import RuleLexer.Proofs.Refinement

/-!
Texts that stand inside other texts: tokenizing does not depend on where a text begins.

* `Position.Embedding`: a map from the positions of a text to those of a text around it, for which
  going on within a line and to the next line are the same in both; `Position.embedding_within` and
  `Position.embedding_below` are the maps for a text that begins at some position, and for one that
  begins some lines further down;
* `Token.moved`, `TokenList.moved`: tokens at their places in the text around, at every depth;
* `Spanwise.level_moved`, `Covers.moved`: the scan of a level gives the same tokens, and the same
  error, at their places in the text around; `Covers.exists_of_moved` is the way back.
-/

namespace RuleLexer

variable {κ : Type}

/-! ### Positions -/

namespace Position

/-- Lines and columns are counted from 1. -/
structure Proper (p : Position) : Prop where
  line_pos : 0 < p.line.val
  column_pos : 0 < p.column.val

lemma proper_start : start.Proper := ⟨Nat.one_pos, Nat.one_pos⟩

lemma Proper.advance {p : Position} (h : p.Proper) (n : ℕ) : (p.advance n).Proper := by
  refine ⟨h.line_pos, ?_⟩
  have hcolumn := h.column_pos
  simp only [Position.advance, Coord.val_add, Coord.limit]
  omega

lemma Proper.nextLine {p : Position} (h : p.Proper) : p.nextLine.Proper := by
  refine ⟨?_, Nat.one_pos⟩
  have hline := h.line_pos
  simp only [Position.nextLine, Coord.val_add, Coord.limit]
  omega

/-- A map of positions that goes on within a line, and to the next line, as the positions do. -/
structure Embedding (f : Position → Position) : Prop where
  advance : ∀ p n, p.Proper → f (p.advance n) = (f p).advance n
  nextLine : ∀ p, p.Proper → f p.nextLine = (f p).nextLine

/-- Where the position `p` of a text lies in the text around it, when the text begins at `origin`.
The first line of the text goes on with the line of `origin`. -/
def within (origin p : Position) : Position :=
  if p.line.val = 1 then ⟨origin.line, origin.column.add (p.column.val - 1)⟩
  else ⟨origin.line.add (p.line.val - 1), p.column⟩

lemma embedding_within {origin : Position} (ho : origin.Proper) : Embedding (within origin) where
  advance p n hp := by
    have h1 := hp.column_pos
    have h2 := ho.column_pos
    by_cases hl : p.line.val = 1
    · have hcolumn : origin.column.add ((p.column.add n).val - 1)
          = (origin.column.add (p.column.val - 1)).add n := by
        ext
        simp only [Coord.val_add, Coord.limit]
        omega
      simp only [within, Position.advance, hl, if_true, hcolumn]
    · simp only [within, Position.advance, hl, if_false]
  nextLine p hp := by
    have h1 := hp.line_pos
    have h2 := ho.line_pos
    have hnext : p.nextLine.line.val ≠ 1 := by
      simp only [Position.nextLine, Coord.val_add, Coord.limit]
      omega
    rw [within, if_neg hnext, within]
    by_cases hl : p.line.val = 1
    · have hline : origin.line.add (p.nextLine.line.val - 1) = origin.line.add 1 := by
        ext
        simp only [Position.nextLine, Coord.val_add, Coord.limit, hl]
        omega
      rw [if_pos hl, hline]
      rfl
    · have hline : origin.line.add (p.nextLine.line.val - 1)
          = (origin.line.add (p.line.val - 1)).add 1 := by
        ext
        simp only [Position.nextLine, Coord.val_add, Coord.limit]
        omega
      rw [if_neg hl, hline]
      rfl

/-- A text begins where its first position lies. -/
lemma within_start (origin : Position) : within origin start = origin := by
  have hstart : within origin start = origin.advance 0 := by
    simp only [within, start, Coord.val_one, if_true, Nat.sub_self, advance]
  rw [hstart, advance_zero]

/-- Where the position `p` of a text lies in the text around it, when the text begins at the first
column, below `lines` lines. -/
def below (lines : ℕ) (p : Position) : Position :=
  ⟨p.line.add lines, p.column⟩

lemma embedding_below (lines : ℕ) : Embedding (below lines) where
  advance _ _ _ := rfl
  nextLine p _ := by
    have hline : (p.line.add 1).add lines = (p.line.add lines).add 1 := by
      ext
      simp only [Coord.val_add]
      omega
    simp only [below, Position.nextLine, hline]

end Position

/-! ### Cursors -/

namespace Cursor

/-- The place in the text around, which goes on behind the text and has `n` characters before it. -/
def moved (f : Position → Position) (n : ℕ) (c : Cursor) : Cursor :=
  ⟨c.rest, c.offset + n, f c.position⟩

variable {f : Position → Position} {n : ℕ} {c d : Cursor}

/-- A text that begins at `origin`, with `n` characters before it. -/
lemma moved_ofText (text : List Char) (origin : Position) (n : ℕ) :
    (ofText text).moved (.within origin) n = ⟨text, n, origin⟩ := by
  have hstart : (ofText text).position = .start := rfl
  rw [moved, hstart, Position.within_start]
  simp only [ofText, Nat.zero_add]

lemma proper_skip (hc : c.position.Proper) (k : ℕ) (endsLine : Bool) :
    (c.skip k endsLine).position.Proper := by
  cases endsLine with
  | true => exact hc.nextLine
  | false => exact hc.advance k

lemma moved_skip (hf : Position.Embedding f) (hc : c.position.Proper) (k : ℕ) (endsLine : Bool) :
    (c.moved f n).skip k endsLine = (c.skip k endsLine).moved f n := by
  cases endsLine with
  | true =>
      simp only [skip, if_true, advanceLine, moved, hf.nextLine _ hc, Nat.add_right_comm]
  | false =>
      simp only [skip, Bool.false_eq_true, if_false, advance, moved, hf.advance _ _ hc,
        Nat.add_right_comm]

lemma moved_advance (hf : Position.Embedding f) (hc : c.position.Proper) (k : ℕ) :
    (c.moved f n).advance k = (c.advance k).moved f n :=
  moved_skip hf hc k false

lemma moved_past (hf : Position.Embedding f) (hc : c.position.Proper) (m : Marker) :
    (c.moved f n).past m = (c.past m).moved f n :=
  moved_skip hf hc _ _

/-- The characters between two places are the same in the text around. -/
lemma upTo_moved : (c.moved f n).upTo (d.moved f n) = c.upTo d := by
  simp only [upTo, moved, Nat.add_sub_add_right]

end Cursor

/-! ### Tokens -/

/-- The span with `n` more characters before it. -/
def Span.moved (n : ℕ) (s : Span) : Span :=
  ⟨s.start.add n, s.stop.add n⟩

lemma Span.between_add (n start stop : ℕ) :
    Span.between (start + n) (stop + n) = (Span.between start stop).moved n := by
  have hclamp : ∀ a : ℕ, Coord.clamp (a + n) = (Coord.clamp a).add n := by
    intro a
    ext
    simp only [Coord.val_clamp, Coord.val_add]
    omega
  simp only [Span.between, Span.moved, hclamp]

mutual

/-- The token at its place in the text around, together with the tokens inside. -/
def Token.moved (f : Position → Position) (n : ℕ) : Token κ → Token κ
  | ⟨kind, text, nested, delimiters, position, span⟩ =>
      ⟨kind, text, TokenList.moved f n nested, delimiters, f position, span.moved n⟩

/-- The tokens at their places in the text around, at every depth. -/
def TokenList.moved (f : Position → Position) (n : ℕ) : List (Token κ) → List (Token κ)
  | [] => []
  | t :: ts => t.moved f n :: TokenList.moved f n ts

end

section Tokens

variable {f : Position → Position} {n : ℕ}

lemma Token.between_moved (kind : κ) (c d : Cursor) :
    Token.between kind (c.moved f n) (d.moved f n) = (Token.between kind c d).moved f n := by
  have hspan : Span.between (c.moved f n).offset (d.moved f n).offset
      = (Span.between c.offset d.offset).moved n := Span.between_add ..
  rw [between, between, Cursor.upTo_moved, hspan]
  rfl

lemma Token.section_moved (kind : κ) (start inside closing stop : Cursor) (inner : TokenList κ)
    (content : Option (List Char)) :
    Token.section kind (start.moved f n) (inside.moved f n) (closing.moved f n) (stop.moved f n)
        (TokenList.moved f n inner) content
      = (Token.section kind start inside closing stop inner content).moved f n := by
  have hspan : Span.between (start.moved f n).offset (stop.moved f n).offset
      = (Span.between start.offset stop.offset).moved n := Span.between_add ..
  simp only [Token.section, Token.between, Cursor.upTo_moved, hspan, Token.moved]
  rfl

lemma TokenList.moved_unlessDiscarded (discard : Bool) (token : Token κ) (tokens : TokenList κ) :
    TokenList.moved f n (token.unlessDiscarded discard ++ tokens)
      = (token.moved f n).unlessDiscarded discard ++ TokenList.moved f n tokens := by
  cases discard <;> rfl

end Tokens

/-! ### Captured insides -/

/-- The captured inside at its place in the text around. -/
def Captured.moved (f : Position → Position) (n : ℕ) (r : Captured) : Captured :=
  ⟨r.content, r.closing.moved f n, r.stop.moved f n⟩

namespace MatchIndex

variable {ix : MatchIndex κ} {f : Position → Position} {ends : List Marker}

lemma proper_captureFrom {decoded : List Char} {c : Cursor} {r : Captured}
    (hc : c.position.Proper) (h : ix.captureFrom ends decoded c = .ok r) :
    r.closing.position.Proper ∧ r.stop.position.Proper := by
  fun_induction captureFrom ix ends decoded c with
  | case1 => cases h
  | case2 decoded c m hr =>
      obtain rfl : _ = r := by simpa using h
      exact ⟨hc, Cursor.proper_skip hc _ _⟩
  | case3 decoded c p hr ih => exact ih (Cursor.proper_skip hc _ _) h

/-- The inside of a section is captured alike in the text around. -/
lemma captureFrom_moved (hf : Position.Embedding f) (n : ℕ) {decoded : List Char} {c : Cursor}
    (hc : c.position.Proper) :
    ix.captureFrom ends decoded (c.moved f n) = match ix.captureFrom ends decoded c with
      | .error stop => .error (f stop)
      | .ok r => .ok (r.moved f n) := by
  fun_induction captureFrom ix ends decoded c with
  | case1 decoded c hr =>
      have hr' : ix.rawStep ends (c.moved f n).rest = .endOfText := hr
      rw [captureFrom_eq, hr']
      rfl
  | case2 decoded c m hr =>
      have hr' : ix.rawStep ends (c.moved f n).rest = .closes m := hr
      rw [captureFrom_eq, hr']
      simp only [Cursor.moved_past hf hc]
      rfl
  | case3 decoded c p hr ih =>
      have hr' : ix.rawStep ends (c.moved f n).rest = .piece p := hr
      rw [captureFrom_eq, hr', ← ih (Cursor.proper_skip hc _ _)]
      simp only [Cursor.moved_skip hf hc]

lemma capture_moved (hf : Position.Embedding f) (n : ℕ) {c : Cursor} (hc : c.position.Proper) :
    ix.capture ends (c.moved f n) = match ix.capture ends c with
      | .error stop => .error (f stop)
      | .ok r => .ok (r.moved f n) :=
  captureFrom_moved hf n hc

end MatchIndex

/-! ### Levels -/

namespace FixedMatch

variable {f : Position → Position} {c : Cursor} {m : FixedMatch κ}

lemma proper_stop (hc : c.position.Proper) (m : FixedMatch κ) : (m.stop c).position.Proper :=
  Cursor.proper_skip hc _ _

lemma stop_moved (hf : Position.Embedding f) (n : ℕ) (hc : c.position.Proper) :
    m.stop (c.moved f n) = (m.stop c).moved f n :=
  Cursor.moved_skip hf hc _ _

lemma rawAt_moved (hf : Position.Embedding f) (n : ℕ) (hc : c.position.Proper) (r : Captured) :
    m.rawAt (c.moved f n) (r.moved f n) = (m.rawAt c r).moved f n := by
  rw [rawAt, stop_moved hf n hc]
  exact Token.section_moved m.text.kind c (m.stop c) r.closing r.stop [] (some r.content)

lemma nestedAt_moved (hf : Position.Embedding f) (n : ℕ) (hc : c.position.Proper)
    {closing : Cursor} (hclosing : closing.position.Proper) (marker : Marker)
    (inner : TokenList κ) :
    m.nestedAt (c.moved f n) (closing.moved f n) marker (TokenList.moved f n inner)
      = (m.nestedAt c closing marker inner).moved f n := by
  rw [nestedAt, stop_moved hf n hc, Cursor.moved_past hf hclosing]
  exact Token.section_moved m.text.kind c (m.stop c) closing (closing.past marker) inner none

end FixedMatch

/-- Where a level ends, lines and columns are still counted from 1. -/
lemma Covers.proper {ix : MatchIndex κ} {closings : List Marker} {c stop : Cursor}
    {tokens : TokenList κ} (h : Covers ix closings c tokens stop) (hc : c.position.Proper) :
    stop.position.Proper := by
  induction h with
  | levelEnd h => exact hc
  | run h more ih => exact ih (hc.advance _)
  | literal h hi more ih => exact ih (FixedMatch.proper_stop hc _)
  | raw h hi hr more ih =>
      exact ih (MatchIndex.proper_captureFrom (FixedMatch.proper_stop hc _) hr).2
  | nested h hi inside hm more ihinside ih =>
      exact ih (Cursor.proper_skip (ihinside (FixedMatch.proper_stop hc _)) _ _)

/-- The error at its place in the text around. -/
def ScanError.moved (f : Position → Position) : ScanError → ScanError
  | unexpectedCharacter character preview position =>
      unexpectedCharacter character preview (f position)
  | unterminatedSection start stop => unterminatedSection (f start) (f stop)
  | illegalToken kind text => illegalToken kind text

/-- The stretch at its place in the text around. -/
def Stretch.moved (f : Position → Position) (n : ℕ) (s : Stretch κ) : Stretch κ :=
  ⟨TokenList.moved f n s.tokens, s.length, f s.position⟩

lemma Stretch.stop_moved (f : Position → Position) (n : ℕ) (s : Stretch κ) (c : Cursor) :
    (s.moved f n).stop (c.moved f n) = (s.stop c).moved f n := by
  simp only [stop, moved, Cursor.moved, Nat.add_right_comm]

namespace Spanwise

/-- What the scan of a level leads to, at its place in the text around. -/
def moved (f : Position → Position) (n : ℕ) :
    Except ScanError (Stretch κ) → Except ScanError (Stretch κ)
  | .error e => .error (e.moved f)
  | .ok s => .ok (s.moved f n)

/-- A token in front of a stretch is moved together with it. -/
lemma map_after_moved {f : Position → Position} {n : ℕ} {c next : Cursor} {discard : Bool}
    {token : Token κ} (x : Except ScanError (Stretch κ)) :
    (moved f n x).map (·.after (c.moved f n) (next.moved f n) discard (token.moved f n))
      = moved f n (x.map (·.after c next discard token)) := by
  cases x with
  | error e => rfl
  | ok s =>
      simp only [moved, Except.map, Stretch.after, Stretch.moved, Cursor.moved,
        Nat.add_sub_add_right, TokenList.moved_unlessDiscarded]

/-- **Translation**: in a text around it a level has the same tokens, or the same error, at their
places there. -/
theorem level_moved {ix : MatchIndex κ} {f : Position → Position} (hf : Position.Embedding f)
    (n : ℕ) {closings : List Marker} {c : Cursor} (hc : c.position.Proper) :
    level ix closings (c.moved f n) = moved f n (level ix closings c) := by
  fun_induction level ix closings c with
  | case1 closings c hahead =>
      have hahead' : ix.ahead closings (c.moved f n).rest = .levelEnd := hahead
      rw [level_of_levelEnd hahead']
      rfl
  | case2 closings c hahead =>
      have hahead' : ix.ahead closings (c.moved f n).rest = .nothing := hahead
      rw [level_of_nothing hahead']
      rfl
  | case3 closings c r k hahead ih =>
      have hahead' : ix.ahead closings (c.moved f n).rest = .run r k := hahead
      rw [level_of_run hahead', CharRun.tokenAt, Cursor.moved_advance hf hc, ih (hc.advance k),
        Token.between_moved]
      exact map_after_moved _
  | case4 closings c m hahead hi ih =>
      have hahead' : ix.ahead closings (c.moved f n).rest = .fixed m := hahead
      rw [level_of_fixed hahead', hi]
      simp only [FixedMatch.literalAt, FixedMatch.stop_moved hf n hc, Token.between_moved,
        ih (FixedMatch.proper_stop hc m)]
      exact map_after_moved _
  | case5 closings c m hahead ends hi stop hr =>
      have hahead' : ix.ahead closings (c.moved f n).rest = .fixed m := hahead
      have hr' : ix.capture ends ((m.stop c).moved f n) = _ :=
        ix.capture_moved hf n (FixedMatch.proper_stop hc m)
      rw [hr] at hr'
      rw [level_of_fixed hahead', hi]
      simp only [FixedMatch.stop_moved hf n hc, hr']
      rfl
  | case6 closings c m hahead ends hi r hr ih =>
      have hahead' : ix.ahead closings (c.moved f n).rest = .fixed m := hahead
      have hproper := FixedMatch.proper_stop hc m
      have hr' : ix.capture ends ((m.stop c).moved f n) = _ := ix.capture_moved hf n hproper
      rw [hr] at hr'
      have hstop : (r.moved f n).stop = r.stop.moved f n := rfl
      rw [level_of_fixed hahead', hi]
      simp only [FixedMatch.stop_moved hf n hc, hr', hstop, FixedMatch.rawAt_moved hf n hc,
        ih (MatchIndex.proper_captureFrom hproper hr).2]
      exact map_after_moved _
  | case7 closings c m hahead ends hi e he ih =>
      have hahead' : ix.ahead closings (c.moved f n).rest = .fixed m := hahead
      have hinner := ih (FixedMatch.proper_stop hc m)
      rw [he] at hinner
      rw [level_of_fixed hahead', hi]
      simp only [FixedMatch.stop_moved hf n hc, hinner]
      rfl
  | case8 closings c m hahead ends hi inner hinner hm ih =>
      have hahead' : ix.ahead closings (c.moved f n).rest = .fixed m := hahead
      have hinner' := ih (FixedMatch.proper_stop hc m)
      rw [hinner] at hinner'
      have hm' : Marker.firstAt? ends ((inner.stop (m.stop c)).moved f n).rest = none := hm
      rw [level_of_fixed hahead', hi]
      simp only [FixedMatch.stop_moved hf n hc, hinner', moved, Stretch.stop_moved, hm']
      rfl
  | case9 closings c m hahead ends hi inner hinner marker hm ihinner ih =>
      have hahead' : ix.ahead closings (c.moved f n).rest = .fixed m := hahead
      have hproper := FixedMatch.proper_stop hc m
      have hclosing := (covers_of_level hinner).proper hproper
      have hinner' := ihinner hproper
      rw [hinner] at hinner'
      have hm' : Marker.firstAt? ends ((inner.stop (m.stop c)).moved f n).rest = some marker := hm
      have htokens : (inner.moved f n).tokens = TokenList.moved f n inner.tokens := rfl
      rw [level_of_fixed hahead', hi]
      simp only [FixedMatch.stop_moved hf n hc, hinner', moved, Stretch.stop_moved, hm', htokens,
        FixedMatch.nestedAt_moved hf n hc hclosing, Cursor.moved_past hf hclosing,
        ih (Cursor.proper_skip hclosing _ _)]
      exact map_after_moved _

end Spanwise

namespace Covers

variable {ix : MatchIndex κ} {f : Position → Position} {closings : List Marker} {c stop : Cursor}
  {tokens : TokenList κ}

/-- In a text around it a level is covered by the same tokens at their places there. -/
theorem moved (hf : Position.Embedding f) (n : ℕ) (h : Covers ix closings c tokens stop)
    (hc : c.position.Proper) :
    Covers ix closings (c.moved f n) (TokenList.moved f n tokens) (stop.moved f n) := by
  have hlevel : Spanwise.level ix closings (c.moved f n) = _ := Spanwise.level_moved hf n hc
  rw [level_of_covers h] at hlevel
  have hcovers := covers_of_level hlevel
  rwa [Stretch.stop_moved, Stretch.stop_upTo h.reaches] at hcovers

/-- What covers a level in a text around it are tokens of its own, at their places there, up to a
place of its own. -/
theorem exists_of_moved (hf : Position.Embedding f) (n : ℕ)
    (h : Covers ix closings (c.moved f n) tokens stop) (hc : c.position.Proper) :
    ∃ own stop', Covers ix closings c own stop' ∧ tokens = TokenList.moved f n own ∧
      stop = stop'.moved f n := by
  have hlevel := level_of_covers h
  rw [Spanwise.level_moved hf n hc] at hlevel
  cases hown : Spanwise.level ix closings c with
  | error e =>
      rw [hown] at hlevel
      cases hlevel
  | ok s =>
      rw [hown] at hlevel
      have hstretch : Stretch.upTo tokens (c.moved f n) stop = s.moved f n :=
        (Except.ok.inj hlevel).symm
      refine ⟨s.tokens, s.stop c, covers_of_level hown, congrArg Stretch.tokens hstretch, ?_⟩
      rw [← Stretch.stop_moved, ← hstretch, Stretch.stop_upTo h.reaches]

end Covers

end RuleLexer
