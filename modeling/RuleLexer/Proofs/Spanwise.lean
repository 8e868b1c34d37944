import Mathlib.Data.List.TakeWhile
import RuleLexer.Proofs.Index
import RuleLexer.Proofs.Reach
import RuleLexer.Proofs.Results

/-!
Tokenizing span by span: a second reading of the rules, in which no run is ever left open. At every
place of a level it is decided afresh what stands there, and a run is taken as a whole.

* `MatchIndex.ahead`: what stands at a place of a level; `MatchIndex.describes_ahead` and
  `MatchIndex.ahead_eq_of_describes` say it by what the index finds there;
* `MatchIndex.spanLength`: how far a run goes, by the run rule that is first for its characters
  and by the closing markers of the level;
* `Spanwise.level`: a whole level, nested sections by recursion; `Tokenizer.tokenizeSpanwise` takes
  a text for the outermost level;
* `Covers`: the ways in which a level comes to its end without an error, one for each thing that
  can stand at a place; `covers_of_level` says that `Spanwise.level` takes one of them;
* `Covers.reaches`, `Covers.ahead_stop`: a level ends at a later place, where nothing of it is
  ahead any more.
-/

namespace RuleLexer

variable {κ : Type}

/-! ### What stands at a place -/

/-- The number of characters before the first place where one of the markers stands, or before the
end of the text when none does. -/
def Marker.distance (markers : List Marker) : List Char → ℕ
  | [] => 0
  | c :: after =>
      if (firstAt? markers (c :: after)).isSome then 0 else distance markers after + 1

/-- What stands at a place of a level. -/
inductive Ahead (κ : Type) where
  /-- The text is over, or the section that the level fills is closed. -/
  | levelEnd
  | fixed (m : FixedMatch κ)
  /-- A run of `length` characters. -/
  | run (run : CharRun κ) (length : ℕ)
  /-- Nothing that a rule matches. -/
  | nothing

namespace MatchIndex

/-- The place, among the runs, of the first one that accepts `c`. -/
def runPlace? (ix : MatchIndex κ) (c : Char) : Option ℕ :=
  ix.runs.findIdx? (·.charClass.accepts c)

/-- The length of the longest span of characters at the front of `rest` whose first accepting run
is the one at `place`, cut short where a closing marker stands. -/
def spanLength (ix : MatchIndex κ) (closings : List Marker) (place : Option ℕ)
    (rest : List Char) : ℕ :=
  min (rest.takeWhile (ix.runPlace? · == place)).length (Marker.distance closings rest)

/-- What stands at a place of a level that the markers `closings` end, by the rest of the text. -/
def ahead (ix : MatchIndex κ) (closings : List Marker) : List Char → Ahead κ
  | [] => .levelEnd
  | c :: after =>
      if (Marker.firstAt? closings (c :: after)).isSome then .levelEnd
      else match ix.fixedAt? (c :: after) with
        | some m => .fixed m
        | none =>
            match ix.runFor? c with
            | some r => .run r (ix.spanLength closings (ix.runPlace? c) (c :: after))
            | none => .nothing

variable {ix : MatchIndex κ} {closings : List Marker} {rest : List Char}

lemma spanLength_le (place : Option ℕ) : ix.spanLength closings place rest ≤ rest.length :=
  (min_le_left _ _).trans (List.takeWhile_prefix _).length_le

/-- A span goes on for as long as its run is first and no closing marker stands. -/
lemma spanLength_cons {c : Char} {after : List Char} {place : Option ℕ}
    (hclose : Marker.firstAt? closings (c :: after) = none) (hplace : ix.runPlace? c = place) :
    ix.spanLength closings place (c :: after) = ix.spanLength closings place after + 1 := by
  have htake : (c :: after).takeWhile (ix.runPlace? · == place)
      = c :: after.takeWhile (ix.runPlace? · == place) := by
    simp [hplace]
  simp only [spanLength, htake, Marker.distance, hclose, List.length_cons, Option.isSome_none,
    Bool.false_eq_true, if_false]
  exact Nat.add_min_add_right _ _ _

/-- A span ends where a closing marker stands. -/
lemma spanLength_of_closing {c : Char} {after : List Char} {place : Option ℕ}
    (hclose : (Marker.firstAt? closings (c :: after)).isSome) :
    ix.spanLength closings place (c :: after) = 0 := by
  simp [spanLength, Marker.distance, hclose]

/-- A span ends where another run is first, or none. -/
lemma spanLength_of_ne {c : Char} {after : List Char} {place : Option ℕ}
    (hplace : ix.runPlace? c ≠ place) : ix.spanLength closings place (c :: after) = 0 := by
  simp [spanLength, hplace]

/-- The run of a span is first for all of its characters. -/
lemma runPlace?_of_mem_span {place : Option ℕ} {c : Char}
    (hc : c ∈ rest.take (ix.spanLength closings place rest)) : ix.runPlace? c = place := by
  have hlength : (rest.take (ix.spanLength closings place rest)).length
      ≤ (rest.takeWhile (ix.runPlace? · == place)).length :=
    (List.length_take_le _ _).trans (min_le_left _ _)
  have htake := List.prefix_of_prefix_length_le (List.take_prefix _ rest)
    (List.takeWhile_prefix (ix.runPlace? · == place)) hlength
  have hplace := List.mem_takeWhile_imp (htake.subset hc)
  exact beq_iff_eq.mp hplace

/-! ### What is ahead, by the index -/

/-- The rest of a text goes on as `ahead` says, for a level that the markers `closings` end. -/
def Describes (ix : MatchIndex κ) (closings : List Marker) (rest : List Char) : Ahead κ → Prop
  | .levelEnd => rest = [] ∨ (Marker.firstAt? closings rest).isSome
  | .fixed m => Marker.firstAt? closings rest = none ∧ ix.fixedAt? rest = some m
  | .run r n => ∃ c after, rest = c :: after ∧ Marker.firstAt? closings rest = none ∧
      ix.fixedAt? rest = none ∧ ix.runFor? c = some r ∧
      n = ix.spanLength closings (ix.runPlace? c) after + 1
  | .nothing => ∃ c after, rest = c :: after ∧ Marker.firstAt? closings rest = none ∧
      ix.fixedAt? rest = none ∧ ix.runFor? c = none

/-- The text goes on as what is ahead says. -/
theorem describes_ahead (ix : MatchIndex κ) (closings : List Marker) (rest : List Char) :
    ix.Describes closings rest (ix.ahead closings rest) := by
  cases rest with
  | nil => exact .inl rfl
  | cons c after =>
      by_cases hclose : (Marker.firstAt? closings (c :: after)).isSome
      · simp only [ahead, hclose, if_true]
        exact .inr hclose
      · have hnone : Marker.firstAt? closings (c :: after) = none := by simpa using hclose
        simp only [ahead, hclose]
        cases hfixed : ix.fixedAt? (c :: after) with
        | some m => exact ⟨hnone, hfixed⟩
        | none =>
            cases hr : ix.runFor? c with
            | some r => exact ⟨c, after, rfl, hnone, hfixed, hr, spanLength_cons hnone rfl⟩
            | none => exact ⟨c, after, rfl, hnone, hfixed, hr⟩

lemma describes_of_ahead {a : Ahead κ} (h : ix.ahead closings rest = a) :
    ix.Describes closings rest a :=
  h ▸ ix.describes_ahead closings rest

/-- What the text goes on as is ahead. -/
theorem ahead_eq_of_describes {a : Ahead κ} (h : ix.Describes closings rest a) :
    ix.ahead closings rest = a := by
  cases a with
  | levelEnd =>
      cases rest with
      | nil => rfl
      | cons c after =>
          have hclose := h.resolve_left (List.cons_ne_nil c after)
          simp only [ahead, hclose, if_true]
  | fixed m =>
      obtain ⟨hnone, hfixed⟩ := h
      cases rest with
      | nil => cases hfixed
      | cons c after =>
          simp only [ahead, hnone, hfixed, Option.isSome_none, Bool.false_eq_true, if_false]
  | run r n =>
      obtain ⟨c, after, rfl, hnone, hfixed, hr, rfl⟩ := h
      simp only [ahead, hnone, hfixed, hr, spanLength_cons hnone rfl, Option.isSome_none,
        Bool.false_eq_true, if_false]
  | nothing =>
      obtain ⟨c, after, rfl, hnone, hfixed, hr⟩ := h
      simp only [ahead, hnone, hfixed, hr, Option.isSome_none, Bool.false_eq_true, if_false]

/-- No closing marker stands where a level goes on. -/
lemma firstAt?_eq_none_of_ahead_ne (h : ix.ahead closings rest ≠ .levelEnd) :
    Marker.firstAt? closings rest = none := by
  by_contra hclose
  exact h (ahead_eq_of_describes (.inr (Option.isSome_iff_ne_none.mpr hclose)))

lemma runFor?_of_ahead {r : CharRun κ} {n : ℕ} (h : ix.ahead closings rest = .run r n) :
    ∃ c, ix.runFor? c = some r := by
  obtain ⟨c, after, -, -, -, hr, -⟩ := describes_of_ahead h
  exact ⟨c, hr⟩

lemma fixedAt?_of_ahead {m : FixedMatch κ} (h : ix.ahead closings rest = .fixed m) :
    ix.fixedAt? rest = some m :=
  (describes_of_ahead h).2

lemma ne_nil_of_ahead_fixed {m : FixedMatch κ} (h : ix.ahead closings rest = .fixed m) :
    rest ≠ [] := by
  rintro rfl
  cases h

lemma run_length_le {r : CharRun κ} {n : ℕ} (h : ix.ahead closings rest = .run r n) :
    n ≤ rest.length := by
  obtain ⟨c, after, rfl, -, -, -, rfl⟩ := describes_of_ahead h
  simpa using spanLength_le _

end MatchIndex

/-! ### A level, span by span -/

/-- The place after a match of a fixed text. -/
def FixedMatch.stop (m : FixedMatch κ) (c : Cursor) : Cursor :=
  c.skip m.length m.breaksLine

lemma FixedMatch.reaches_stop_of_fixedAt? {ix : MatchIndex κ} {c : Cursor} {m : FixedMatch κ}
    (h : ix.fixedAt? c.rest = some m) : c.Reaches (m.stop c) :=
  .skip (MatchIndex.length_le_of_fixedAt? h) _

lemma FixedMatch.reaches_stop {ix : MatchIndex κ} {closings : List Marker} {c : Cursor}
    {m : FixedMatch κ} (h : ix.ahead closings c.rest = .fixed m) : c.Reaches (m.stop c) :=
  FixedMatch.reaches_stop_of_fixedAt? (MatchIndex.fixedAt?_of_ahead h)

/-! The tokens that begin at a place, each together with what it covers. -/

/-- The token of a run of `n` characters. -/
def CharRun.tokenAt (r : CharRun κ) (c : Cursor) (n : ℕ) : Token κ :=
  .between r.kind c (c.advance n)

/-- The token of a literal. -/
def FixedMatch.literalAt (m : FixedMatch κ) (c : Cursor) : Token κ :=
  .between m.text.kind c (m.stop c)

/-- The token of a section whose inside is taken as it stands. -/
def FixedMatch.rawAt (m : FixedMatch κ) (c : Cursor) (r : Captured) : Token κ :=
  .section m.text.kind c (m.stop c) r.closing r.stop [] (some r.content)

/-- The token of a section with the tokens `inner` inside, which `marker` closes at `closing`. -/
def FixedMatch.nestedAt (m : FixedMatch κ) (c closing : Cursor) (marker : Marker)
    (inner : TokenList κ) : Token κ :=
  .section m.text.kind c (m.stop c) closing (closing.past marker) inner none

/-- The token, unless its rule discards. -/
def Token.unlessDiscarded (discard : Bool) (token : Token κ) : TokenList κ :=
  if discard then [] else [token]

/-- What a level covers: its tokens, the number of characters, and the position after them. -/
structure Stretch (κ : Type) where
  tokens : TokenList κ
  length : ℕ
  position : Position

namespace Stretch

/-- The place where a stretch that begins at `c` ends. -/
def stop (s : Stretch κ) (c : Cursor) : Cursor :=
  ⟨c.rest.drop s.length, c.offset + s.length, s.position⟩

/-- The stretch from `c` on, when a token stands there up to `next` and `s` begins at `next`. -/
def after (s : Stretch κ) (c next : Cursor) (discard : Bool) (token : Token κ) : Stretch κ :=
  ⟨token.unlessDiscarded discard ++ s.tokens, next.offset - c.offset + s.length, s.position⟩

lemma stop_after {c next : Cursor} (h : c.Reaches next) (s : Stretch κ) (discard : Bool)
    (token : Token κ) : (s.after c next discard token).stop c = s.stop next := by
  have hle := h.offset_le
  simp only [stop, after, h.rest_eq, List.drop_drop, Cursor.mk.injEq, true_and, and_true]
  omega

end Stretch

/-! A level that goes on has less of the text before it. -/

lemma rest_length_lt_of_fixed {ix : MatchIndex κ} {closings : List Marker} {c : Cursor}
    {m : FixedMatch κ} (h : ix.ahead closings c.rest = .fixed m) :
    (m.stop c).rest.length < c.rest.length := by
  have hm := m.length_pos
  have hpos := List.length_pos_iff.mpr (MatchIndex.ne_nil_of_ahead_fixed h)
  rw [FixedMatch.stop, Cursor.rest_skip, List.length_drop]
  omega

lemma rest_length_lt_of_run {ix : MatchIndex κ} {closings : List Marker} {c : Cursor}
    {r : CharRun κ} {n : ℕ} (h : ix.ahead closings c.rest = .run r n) :
    (c.advance n).rest.length < c.rest.length := by
  obtain ⟨d, after, hrest, -, -, -, rfl⟩ := MatchIndex.describes_of_ahead h
  simp only [Cursor.advance, List.length_drop, hrest, List.length_cons]
  omega

lemma rest_length_past_le (s : Stretch κ) (c : Cursor) (m : Marker) :
    ((s.stop c).past m).rest.length ≤ c.rest.length := by
  rw [Cursor.rest_past, Stretch.stop, List.length_drop, List.length_drop]
  omega

namespace Spanwise

/-- Scans a level from `c` on, up to the end of the text or to one of the markers `closings`. A
nested section is scanned as a level of its own, and the level goes on after its closing marker. -/
def level (ix : MatchIndex κ) (closings : List Marker) (c : Cursor) :
    Except ScanError (Stretch κ) :=
  match _h : ix.ahead closings c.rest with
  | .levelEnd => .ok ⟨[], 0, c.position⟩
  | .nothing => .error (.unexpected c.rest c.position)
  | .run r n =>
      (level ix closings (c.advance n)).map
        (·.after c (c.advance n) r.discard (r.tokenAt c n))
  | .fixed m =>
      match m.text.inside with
      | .nothing =>
          (level ix closings (m.stop c)).map
            (·.after c (m.stop c) m.text.discard (m.literalAt c))
      | .raw ends =>
          match _hc : ix.capture ends (m.stop c) with
          | .error stop => .error (.unterminatedSection c.position stop)
          | .ok r =>
              (level ix closings r.stop).map (·.after c r.stop m.text.discard (m.rawAt c r))
      | .nested ends =>
          match level ix ends (m.stop c) with
          | .error e => .error e
          | .ok inner =>
              match Marker.firstAt? ends (inner.stop (m.stop c)).rest with
              | none =>
                  .error (.unterminatedSection c.position (inner.stop (m.stop c)).position)
              | some marker =>
                  (level ix closings ((inner.stop (m.stop c)).past marker)).map
                    (·.after c ((inner.stop (m.stop c)).past marker) m.text.discard
                      (m.nestedAt c (inner.stop (m.stop c)) marker inner.tokens))
termination_by c.rest.length
decreasing_by
  · exact rest_length_lt_of_run _h
  · exact rest_length_lt_of_fixed _h
  · exact Nat.lt_of_le_of_lt (MatchIndex.rest_stop_length_le _hc) (rest_length_lt_of_fixed _h)
  · exact rest_length_lt_of_fixed _h
  · exact Nat.lt_of_le_of_lt (rest_length_past_le _ _ _) (rest_length_lt_of_fixed _h)

/-! What a level is, by what stands at its beginning. -/

variable {ix : MatchIndex κ} {closings : List Marker} {c : Cursor}

lemma level_of_levelEnd (h : ix.ahead closings c.rest = .levelEnd) :
    level ix closings c = .ok ⟨[], 0, c.position⟩ := by
  rw [level]
  split <;> simp_all

lemma level_of_nothing (h : ix.ahead closings c.rest = .nothing) :
    level ix closings c = .error (.unexpected c.rest c.position) := by
  rw [level]
  split <;> simp_all

lemma level_of_run {r : CharRun κ} {n : ℕ} (h : ix.ahead closings c.rest = .run r n) :
    level ix closings c = (level ix closings (c.advance n)).map
      (·.after c (c.advance n) r.discard (r.tokenAt c n)) := by
  rw [level]
  split <;> simp_all

lemma level_of_fixed {m : FixedMatch κ} (h : ix.ahead closings c.rest = .fixed m) :
    level ix closings c = match m.text.inside with
      | .nothing =>
          (level ix closings (m.stop c)).map
            (·.after c (m.stop c) m.text.discard (m.literalAt c))
      | .raw ends =>
          match ix.capture ends (m.stop c) with
          | .error stop => .error (.unterminatedSection c.position stop)
          | .ok r =>
              (level ix closings r.stop).map (·.after c r.stop m.text.discard (m.rawAt c r))
      | .nested ends =>
          match level ix ends (m.stop c) with
          | .error e => .error e
          | .ok inner =>
              match Marker.firstAt? ends (inner.stop (m.stop c)).rest with
              | none =>
                  .error (.unterminatedSection c.position (inner.stop (m.stop c)).position)
              | some marker =>
                  (level ix closings ((inner.stop (m.stop c)).past marker)).map
                    (·.after c ((inner.stop (m.stop c)).past marker) m.text.discard
                      (m.nestedAt c (inner.stop (m.stop c)) marker inner.tokens)) := by
  rw [level]
  split
  · simp_all
  · simp_all
  · simp_all
  · rename_i m' h'
    obtain rfl : m = m' := Ahead.fixed.inj (h.symm.trans h')
    cases m.text.inside with
    | nothing => rfl
    | nested ends => rfl
    | raw ends =>
        simp only
        split <;> simp only [*]

end Spanwise

/-- The tokens of the text, span by span. -/
def Tokenizer.tokenizeSpanwise (t : Tokenizer κ) (text : String) :
    Except ScanError (TokenList κ) :=
  (Spanwise.level t.index [] (.ofText text.toList)).map (·.tokens)

/-! ### Levels that come to their end -/

/-- The level from `c` on that the markers `closings` end consists of `tokens` and ends at
`stop`. -/
inductive Covers (ix : MatchIndex κ) : List Marker → Cursor → TokenList κ → Cursor → Prop where
  | levelEnd {closings : List Marker} {c : Cursor} (h : ix.ahead closings c.rest = .levelEnd) :
      Covers ix closings c [] c
  | run {closings : List Marker} {c stop : Cursor} {r : CharRun κ} {n : ℕ} {tokens : TokenList κ}
      (h : ix.ahead closings c.rest = .run r n)
      (more : Covers ix closings (c.advance n) tokens stop) :
      Covers ix closings c ((r.tokenAt c n).unlessDiscarded r.discard ++ tokens) stop
  | literal {closings : List Marker} {c stop : Cursor} {m : FixedMatch κ} {tokens : TokenList κ}
      (h : ix.ahead closings c.rest = .fixed m) (hi : m.text.inside = .nothing)
      (more : Covers ix closings (m.stop c) tokens stop) :
      Covers ix closings c ((m.literalAt c).unlessDiscarded m.text.discard ++ tokens) stop
  | raw {closings ends : List Marker} {c stop : Cursor} {m : FixedMatch κ} {r : Captured}
      {tokens : TokenList κ}
      (h : ix.ahead closings c.rest = .fixed m) (hi : m.text.inside = .raw ends)
      (hr : ix.capture ends (m.stop c) = .ok r)
      (more : Covers ix closings r.stop tokens stop) :
      Covers ix closings c ((m.rawAt c r).unlessDiscarded m.text.discard ++ tokens) stop
  | nested {closings ends : List Marker} {c closing stop : Cursor} {m : FixedMatch κ}
      {marker : Marker} {inner tokens : TokenList κ}
      (h : ix.ahead closings c.rest = .fixed m) (hi : m.text.inside = .nested ends)
      (inside : Covers ix ends (m.stop c) inner closing)
      (hm : Marker.firstAt? ends closing.rest = some marker)
      (more : Covers ix closings (closing.past marker) tokens stop) :
      Covers ix closings c
        ((m.nestedAt c closing marker inner).unlessDiscarded m.text.discard ++ tokens) stop

namespace Covers

variable {ix : MatchIndex κ} {closings : List Marker} {c stop : Cursor} {tokens : TokenList κ}

/-- A captured section ends at a later place of the text. -/
lemma reaches_captured {ends : List Marker} {m : FixedMatch κ} {r : Captured}
    (h : ix.ahead closings c.rest = .fixed m) (hr : ix.capture ends (m.stop c) = .ok r) :
    c.Reaches r.stop := by
  obtain ⟨hclosing, hstop⟩ := MatchIndex.capture_reaches hr
  exact ((FixedMatch.reaches_stop h).trans hclosing).trans hstop

/-- A level ends at a later place of the text. -/
theorem reaches (h : Covers ix closings c tokens stop) : c.Reaches stop := by
  induction h with
  | levelEnd h => exact .refl _
  | run h more ih => exact (Cursor.Reaches.advance (MatchIndex.run_length_le h)).trans ih
  | literal h hi more ih => exact (FixedMatch.reaches_stop h).trans ih
  | raw h hi hr more ih => exact (reaches_captured h hr).trans ih
  | nested h hi inside hm more ihinside ih =>
      exact ((FixedMatch.reaches_stop h).trans ihinside).trans ((Cursor.Reaches.past hm).trans ih)

/-- Where a level ends, nothing of it is ahead. -/
theorem ahead_stop (h : Covers ix closings c tokens stop) :
    ix.ahead closings stop.rest = .levelEnd := by
  induction h with
  | levelEnd h => exact h
  | run h more ih => exact ih
  | literal h hi more ih => exact ih
  | raw h hi hr more ih => exact ih
  | nested h hi inside hm more ihinside ih => exact ih

/-- The outermost level ends with the text. -/
lemma rest_stop_eq_nil (h : Covers ix [] c tokens stop) : stop.rest = [] := by
  simpa [MatchIndex.Describes, Marker.firstAt?] using MatchIndex.describes_of_ahead h.ahead_stop

end Covers

/-- A level that is scanned without an error is covered by its tokens. -/
theorem covers_of_level {ix : MatchIndex κ} {closings : List Marker} {c : Cursor}
    {s : Stretch κ} (h : Spanwise.level ix closings c = .ok s) :
    Covers ix closings c s.tokens (s.stop c) := by
  fun_induction Spanwise.level ix closings c generalizing s with
  | case1 closings c hahead =>
      obtain rfl : _ = s := Except.ok.inj h
      exact .levelEnd hahead
  | case2 => cases h
  | case3 closings c r n hahead ih =>
      obtain ⟨s', hs, rfl⟩ := exists_of_map_ok h
      rw [Stretch.stop_after (.advance (MatchIndex.run_length_le hahead))]
      exact .run hahead (ih hs)
  | case4 closings c m hahead hi ih =>
      obtain ⟨s', hs, rfl⟩ := exists_of_map_ok h
      rw [Stretch.stop_after (FixedMatch.reaches_stop hahead)]
      exact .literal hahead hi (ih hs)
  | case5 => cases h
  | case6 closings c m hahead ends hi r hr ih =>
      obtain ⟨s', hs, rfl⟩ := exists_of_map_ok h
      rw [Stretch.stop_after (Covers.reaches_captured hahead hr)]
      exact .raw hahead hi hr (ih hs)
  | case7 => cases h
  | case8 => cases h
  | case9 closings c m hahead ends hi inner hinner marker hm ihinner ih =>
      obtain ⟨s', hs, rfl⟩ := exists_of_map_ok h
      have hcovers := ihinner hinner
      have hreach := ((FixedMatch.reaches_stop hahead).trans hcovers.reaches).trans (.past hm)
      rw [Stretch.stop_after hreach]
      exact .nested hahead hi hcovers hm (ih hs)

/-- The stretch from `c` up to a later place. -/
def Stretch.upTo (tokens : TokenList κ) (c stop : Cursor) : Stretch κ :=
  ⟨tokens, stop.offset - c.offset, stop.position⟩

lemma Stretch.stop_upTo {c stop : Cursor} (h : c.Reaches stop) (tokens : TokenList κ) :
    (upTo tokens c stop).stop c = stop := by
  have hle := h.offset_le
  have hoffset : c.offset + (stop.offset - c.offset) = stop.offset := by omega
  simp only [Stretch.stop, upTo, ← h.rest_eq, hoffset]

lemma Stretch.after_upTo {c next stop : Cursor} (h : c.Reaches next) (h' : next.Reaches stop)
    (tokens : TokenList κ) (discard : Bool) (token : Token κ) :
    (upTo tokens next stop).after c next discard token
      = upTo (token.unlessDiscarded discard ++ tokens) c stop := by
  have h1 := h.offset_le
  have h2 := h'.offset_le
  have hlength : next.offset - c.offset + (stop.offset - next.offset) = stop.offset - c.offset := by
    omega
  simp only [after, upTo, hlength]

/-- A level that its tokens cover is scanned without an error. -/
theorem level_of_covers {ix : MatchIndex κ} {closings : List Marker} {c stop : Cursor}
    {tokens : TokenList κ} (h : Covers ix closings c tokens stop) :
    Spanwise.level ix closings c = .ok (.upTo tokens c stop) := by
  induction h with
  | @levelEnd closings c h =>
      rw [Spanwise.level_of_levelEnd h, Stretch.upTo, Nat.sub_self]
  | run h more ih =>
      rw [Spanwise.level_of_run h, ih]
      exact congrArg Except.ok
        (Stretch.after_upTo (.advance (MatchIndex.run_length_le h)) more.reaches ..)
  | literal h hi more ih =>
      rw [Spanwise.level_of_fixed h, hi, ih]
      exact congrArg Except.ok (Stretch.after_upTo (FixedMatch.reaches_stop h) more.reaches ..)
  | raw h hi hr more ih =>
      rw [Spanwise.level_of_fixed h, hi]
      simp only [hr, ih]
      exact congrArg Except.ok (Stretch.after_upTo (Covers.reaches_captured h hr) more.reaches ..)
  | nested h hi inside hm more ihinside ih =>
      have hreach := ((FixedMatch.reaches_stop h).trans inside.reaches).trans (.past hm)
      rw [Spanwise.level_of_fixed h, hi]
      simp only [ihinside, Stretch.stop_upTo inside.reaches, hm, ih]
      exact congrArg Except.ok (Stretch.after_upTo hreach more.reaches ..)

end RuleLexer
