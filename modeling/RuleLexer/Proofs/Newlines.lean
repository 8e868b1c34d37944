import Mathlib.Data.List.DropRight
import RuleLexer.Proofs.Places

/-!
Lines and columns. Where line feeds, carriage returns and the two together are tokens of their own,
the position of a token can be read off the text before it.

* `lineBreaks`, `lastLine`: the lines that end in a text, and what stands behind the last of them;
* `Position.Follows`: the position is that of the character behind a text;
* `LineUnit`: what may be matched at once, so that a carriage return is never separated from the
  line feed behind it; `Tracked.skip` says that the position is right behind it again, and
  `LineUnit.wholeLines` how many lines end in it;
* `UniversalNewlines`: rules by which only such units are matched (`Tokenizer.keeps_tracked`);
  `EscapableNewlines` are the same with escape characters;
* `follows_of_tokenize`: the positions of all tokens, and those of the errors, follow the text
  before them.
-/

namespace RuleLexer

variable {κ : Type}

/-! ### The lines of a text -/

/-- The number of lines that end in the text. A line ends with a line feed, or with a carriage return
when no line feed is behind it. -/
def lineBreaks : List Char → ℕ
  | [] => 0
  | c :: after =>
      (if c = '\n' ∨ c = '\r' ∧ after.head? ≠ some '\n' then 1 else 0) + lineBreaks after

/-- What stands behind the last line that ends in the text. -/
def lastLine (text : List Char) : List Char :=
  text.rtakeWhile (!isLineBreak ·)

/-- No line ends in the text. -/
def WithinLine (text : List Char) : Prop :=
  ∀ c ∈ text, isLineBreak c = false

instance (text : List Char) : Decidable (WithinLine text) :=
  List.decidableBAll (isLineBreak · = false) text

section Lines

variable {a b : List Char}

lemma lineBreaks_le_length (a : List Char) : lineBreaks a ≤ a.length := by
  induction a with
  | nil => exact le_rfl
  | cons c a ih =>
      rw [lineBreaks, List.length_cons]
      split_ifs <;> omega

/-- The lines of two texts add up when no carriage return is separated from its line feed. -/
lemma lineBreaks_append (h : a.getLast? = some '\r' → b.head? ≠ some '\n') :
    lineBreaks (a ++ b) = lineBreaks a + lineBreaks b := by
  induction a with
  | nil => simp [lineBreaks]
  | cons c a ih =>
      cases a with
      | nil =>
          by_cases hc : c = '\r'
          · subst hc
            have hb : b.head? ≠ some '\n' := h rfl
            simp [lineBreaks, hb]
          · simp [lineBreaks, hc]
      | cons d a =>
          have hrest := ih (by rwa [List.getLast?_cons_cons] at h)
          rw [List.cons_append, lineBreaks, hrest, ← Nat.add_assoc]
          rfl

lemma lineBreaks_of_withinLine (h : WithinLine a) : lineBreaks a = 0 := by
  induction a with
  | nil => rfl
  | cons c a ih =>
      have hc : isLineBreak c = false := h c List.mem_cons_self
      obtain ⟨hlf, hcr⟩ : c ≠ '\n' ∧ c ≠ '\r' := by simpa [isLineBreak] using hc
      rw [lineBreaks, ih fun d hd => h d (List.mem_cons_of_mem c hd)]
      simp [hlf, hcr]

lemma length_lastLine_le (a : List Char) : (lastLine a).length ≤ a.length :=
  (List.rtakeWhile_suffix _ a).length_le

lemma lastLine_append_of_withinLine (a : List Char) (h : WithinLine b) :
    lastLine (a ++ b) = lastLine a ++ b := by
  rw [lastLine, lastLine, List.rtakeWhile, List.reverse_append, List.takeWhile_append_of_pos,
    List.reverse_append, List.reverse_reverse, List.rtakeWhile]
  intro c hc
  simp [h c (List.mem_reverse.mp hc)]

lemma lastLine_concat_of_isLineBreak (a : List Char) {c : Char} (h : isLineBreak c = true) :
    lastLine (a ++ [c]) = [] := by
  rw [lastLine, List.rtakeWhile_concat_neg]
  simp [h]

end Lines

/-- The position is that of a character with `before` in front of it. -/
structure Position.Follows (p : Position) (before : List Char) : Prop where
  line : p.line.val = 1 + lineBreaks before
  column : p.column.val = 1 + (lastLine before).length

/-! ### What is matched at once -/

/-- In front of `after` the characters may be matched at once, ending the line or not: they lie
within a line, or they are the whole end of a line. -/
inductive LineUnit (after : List Char) : List Char → Bool → Prop
  | within {w : List Char} (hne : w ≠ []) (h : WithinLine w) : LineUnit after w false
  | lineFeed : LineUnit after ['\n'] true
  | both : LineUnit after ['\r', '\n'] true
  | carriageReturn (h : after.head? ≠ some '\n') : LineUnit after ['\r'] true

/-- A character that is no line break may be matched by itself. -/
lemma LineUnit.char {after : List Char} {c : Char} (h : isLineBreak c = false) :
    LineUnit after [c] false :=
  .within (List.cons_ne_nil _ _) fun _ hd => (List.mem_singleton.mp hd) ▸ h

/-- The three ends of a line. -/
def IsLineEnd (w : List Char) : Prop :=
  w = ['\n'] ∨ w = ['\r', '\n'] ∨ w = ['\r']

/-- The whole end of a line may be matched at once. -/
lemma IsLineEnd.lineUnit {after w : List Char} (h : IsLineEnd w)
    (hafter : w = ['\r'] → after.head? ≠ some '\n') : LineUnit after w true := by
  rcases h with rfl | rfl | rfl
  · exact .lineFeed
  · exact .both
  · exact .carriageReturn (hafter rfl)

/-- A marker that is matched at once is made of line breaks when it ends the line. -/
lemma LineUnit.breaksLine_eq {after : List Char} {m : Marker} {endsLine : Bool}
    (h : LineUnit after m.chars endsLine) : m.breaksLine = endsLine := by
  rw [Marker.breaksLine]
  generalize m.chars = w at h
  cases h with
  | within hne hw =>
      obtain ⟨d, w', rfl⟩ := List.exists_cons_of_ne_nil hne
      simp [hw d List.mem_cons_self]
  | lineFeed => rfl
  | both => rfl
  | carriageReturn => rfl

/-- In front of `after` the characters may be matched at once, and `n` lines end in them. -/
structure WholeLines (after w : List Char) (n : ℕ) : Prop where
  ne_nil : w ≠ []
  lines : lineBreaks w = n
  whole : w.getLast? = some '\r' → after.head? ≠ some '\n'

lemma LineUnit.wholeLines {after w : List Char} {endsLine : Bool} (h : LineUnit after w endsLine) :
    WholeLines after w endsLine.toNat := by
  cases h with
  | within hne hw =>
      refine ⟨hne, lineBreaks_of_withinLine hw, fun hlast => ?_⟩
      exact absurd (hw _ (List.mem_of_getLast? hlast)) (by decide)
  | lineFeed => exact ⟨by simp, rfl, by simp⟩
  | both => exact ⟨by simp, rfl, by simp⟩
  | carriageReturn hafter => exact ⟨by simp, rfl, fun _ => hafter⟩

/-- The place lies behind the text `before`, where its position says, and not between a carriage
return and a line feed. -/
structure Tracked (text before : List Char) (c : Cursor) : Prop where
  text_eq : before ++ c.rest = text
  offset_eq : c.offset = before.length
  follows : c.position.Follows before
  whole : before.getLast? = some '\r' → c.rest.head? ≠ some '\n'

lemma Position.Follows.advance {p : Position} {before w : List Char} (h : p.Follows before)
    (hw : WithinLine w) (hwhole : before.getLast? = some '\r' → w.head? ≠ some '\n')
    (hlength : (before ++ w).length < Coord.limit) : (p.advance w.length).Follows (before ++ w) := by
  refine ⟨?_, ?_⟩
  · rw [lineBreaks_append hwhole, lineBreaks_of_withinLine hw]
    exact h.line
  · have hle := length_lastLine_le before
    have hcolumn := h.column
    rw [List.length_append] at hlength
    rw [lastLine_append_of_withinLine before hw, List.length_append]
    simp only [Position.advance, Coord.val_add]
    omega

lemma Position.Follows.nextLine {p : Position} {before w : List Char} {x : Char}
    (h : p.Follows before) (hw : lineBreaks (w ++ [x]) = 1) (hx : isLineBreak x = true)
    (hwhole : before.getLast? = some '\r' → (w ++ [x]).head? ≠ some '\n')
    (hlength : (before ++ (w ++ [x])).length < Coord.limit) :
    p.nextLine.Follows (before ++ (w ++ [x])) := by
  refine ⟨?_, ?_⟩
  · have hle := lineBreaks_le_length before
    have hline := h.line
    simp only [List.length_append, List.length_singleton] at hlength
    rw [lineBreaks_append hwhole, hw]
    simp only [Position.nextLine, Coord.val_add]
    omega
  · rw [← List.append_assoc, lastLine_concat_of_isLineBreak _ hx]
    rfl

/-- Behind what is matched at once the place is tracked again. -/
lemma Tracked.skip {text before w after : List Char} {c : Cursor} {endsLine : Bool}
    (h : Tracked text before c) (hlength : text.length < Coord.limit) (hrest : c.rest = w ++ after)
    (hunit : LineUnit after w endsLine) :
    Tracked text (before ++ w) (c.skip w.length endsLine) := by
  have htext : (before ++ w) ++ after = text := by
    rw [List.append_assoc, ← hrest, h.text_eq]
  have hrest' : (c.skip w.length endsLine).rest = after := by
    rw [Cursor.rest_skip, hrest, List.drop_left]
  have hne : w ≠ [] := hunit.wholeLines.ne_nil
  have hshort : (before ++ w).length < Coord.limit := by
    refine lt_of_le_of_lt ?_ hlength
    rw [← htext]
    simp
  have hwhole : before.getLast? = some '\r' → w.head? ≠ some '\n' := by
    intro hlast
    have hhead := h.whole hlast
    rwa [hrest, List.head?_append_of_ne_nil _ hne] at hhead
  refine ⟨?_, ?_, ?_, ?_⟩
  · rw [hrest', htext]
  · rw [Cursor.offset_skip, h.offset_eq, List.length_append]
  · cases hunit with
    | within _ hw => exact h.follows.advance hw hwhole hshort
    | lineFeed => exact h.follows.nextLine (w := []) rfl rfl hwhole hshort
    | both => exact h.follows.nextLine (w := ['\r']) rfl rfl hwhole hshort
    | carriageReturn => exact h.follows.nextLine (w := []) rfl rfl hwhole hshort
  · rw [hrest', List.getLast?_append_of_ne_nil _ hne]
    exact hunit.wholeLines.whole

/-! ### Rules with universal newlines -/

/-- Rules by which the three ends of a line are literals. They are part of no other text of a rule,
except that a section may be closed by a line feed, alone or behind a carriage return. No run goes
over them, and nothing can be escaped. -/
structure UniversalNewlines (rules : List (Rule κ)) : Prop where
  exists_lineFeed : ∃ kind discard, .literal kind "\n" discard ∈ rules
  exists_both : ∃ kind discard, .literal kind "\r\n" discard ∈ rules
  exists_carriageReturn : ∃ kind discard, .literal kind "\r" discard ∈ rules
  literal : ∀ kind text discard, .literal kind text discard ∈ rules →
    text = "\n" ∨ text = "\r\n" ∨ text = "\r" ∨ WithinLine text.toList
  opening : ∀ kind opening closings nested discard,
    .delimited kind opening closings nested discard ∈ rules → WithinLine opening.toList
  closing : ∀ kind opening closings nested discard,
    .delimited kind opening closings nested discard ∈ rules →
      ∀ s ∈ closings, s = "\n" ∨ s = "\r\n" ∨ WithinLine s.toList
  runs : RunsWithinLine rules
  not_escape : ∀ c, .escape c ∉ rules

/-- Rules that have universal newlines but for their escape characters, none of which is a line
break. -/
structure EscapableNewlines (rules : List (Rule κ)) : Prop where
  universal : UniversalNewlines (rules.filter (·.escapeChar?.isNone))
  escape : ∀ c, .escape c ∈ rules → isLineBreak c = false

/-- There need not be any escape characters. -/
lemma UniversalNewlines.escapable {rules : List (Rule κ)} (h : UniversalNewlines rules) :
    EscapableNewlines rules := by
  have hall : rules.filter (·.escapeChar?.isNone) = rules := by
    refine List.filter_eq_self.mpr fun rule hrule => ?_
    cases rule with
    | escape c => exact absurd hrule (h.not_escape c)
    | run kind charClass discard => rfl
    | literal kind text discard => rfl
    | delimited kind opening closings nested discard => rfl
  exact ⟨hall.symm ▸ h, fun c hc => absurd hc (h.not_escape c)⟩

/-- The carriage return alone is not the longest end of a line where a line feed is behind it. -/
lemma Marker.head?_ne_of_longest {m both : Marker} {after : List Char} (hm : m.chars = ['\r'])
    (hboth : both.chars = ['\r', '\n'])
    (hlongest : both.occursAt ('\r' :: after) = true → both.length ≤ m.length) :
    after.head? ≠ some '\n' := by
  intro hhead
  have hoccurs : both.occursAt ('\r' :: after) = true := by
    cases after with
    | nil => cases hhead
    | cons d after =>
        obtain rfl := Option.some.inj hhead
        rw [occursAt_iff, hboth]
        exact ⟨after, rfl⟩
  have hle := hlongest hoccurs
  rw [length, length, hm, hboth] at hle
  exact absurd hle (by decide)

namespace Tokenizer

variable {t : Tokenizer κ} {text before : List Char} {c : Cursor}

lemma not_isEscape (h : UniversalNewlines t.rules) (c : Char) : t.index.isEscape c = false :=
  t.isEscape_eq_false (h.not_escape c)

/-- A fixed text lies within a line, or it is a literal and the end of a line. -/
lemma chars_of_fixed (h : EscapableNewlines t.rules) {f : FixedText κ} {lead : Char}
    (hf : f ∈ t.index.fixedTextsFrom lead) :
    WithinLine f.marker.chars ∨ f.inside = .nothing ∧ IsLineEnd f.marker.chars := by
  obtain ⟨rule, hrule, hby⟩ := t.exists_fixedBy hf
  cases hby with
  | literal text htext hinside =>
      have hplain := h.universal.literal _ _ _ (List.mem_filter.mpr ⟨hrule, rfl⟩)
      rw [← htext]
      rcases hplain with rfl | rfl | rfl | hwithin
      · exact .inr ⟨hinside, .inl rfl⟩
      · exact .inr ⟨hinside, .inr (.inl rfl)⟩
      · exact .inr ⟨hinside, .inr (.inr rfl)⟩
      · exact .inl hwithin
  | delimited opening closings nested htext hinside hclosings =>
      rw [← htext]
      exact .inl (h.universal.opening _ _ _ _ _ (List.mem_filter.mpr ⟨hrule, rfl⟩))

/-- Fixed texts are found as units. -/
lemma lineUnit_of_fixedFrom? (h : EscapableNewlines t.rules) {f : FixedText κ} {lead : Char}
    {rest : List Char} (hf : t.index.fixedFrom? lead rest = some f) :
    ∃ after, lead :: rest = f.marker.chars ++ after ∧
      LineUnit after f.marker.chars f.breaksLine := by
  obtain ⟨after, hafter⟩ := t.chars_prefix_of_fixedFrom? hf
  obtain ⟨hlead, htail⟩ : f.marker.lead = lead ∧ f.marker.tail ++ after = rest :=
    List.cons.inj hafter
  refine ⟨after, hafter.symm, ?_⟩
  rcases chars_of_fixed h (List.mem_of_find?_eq_some hf) with hwithin | ⟨hinside, hend⟩
  · have hunit : LineUnit after f.marker.chars false := .within (List.cons_ne_nil _ _) hwithin
    have hbreaks : f.breaksLine = false := by
      simp [FixedText.breaksLine, hunit.breaksLine_eq]
    rwa [hbreaks]
  · have hunit : LineUnit after f.marker.chars true := by
      refine hend.lineUnit fun hchars => ?_
      obtain ⟨kind, discard, hrule⟩ := h.universal.exists_both
      obtain ⟨g, hg, hgchars, -⟩ := t.exists_fixed_of_literal (List.mem_of_mem_filter hrule)
      refine Marker.head?_ne_of_longest hchars hgchars fun hoccurs => ?_
      have hcr : lead = '\r' := hlead ▸ (List.cons.inj hchars).1
      have hrest : after = rest := by simpa [(List.cons.inj hchars).2] using htail
      obtain ⟨hglead, hgtail⟩ := List.cons_prefix_cons.mp (Marker.occursAt_iff.mp hoccurs)
      rw [hglead, t.index_eq] at hg
      rw [hcr, t.index_eq] at hf
      refine MatchIndex.length_le_of_fixedFrom? hf hg ?_
      rwa [List.isPrefixOf_iff_prefix, ← hrest]
    have hbreaks : f.breaksLine = true := by
      simp [FixedText.breaksLine, hunit.breaksLine_eq, hinside]
    rwa [hbreaks]

/-- Fixed texts are matched as units where nothing is escaped. -/
lemma lineUnit_of_fixedAt? (h : EscapableNewlines t.rules) {c : Char}
    (hc : t.index.isEscape c = false) {rest : List Char} {m : FixedMatch κ}
    (hm : t.index.fixedAt? (c :: rest) = some m) :
    ∃ w after, c :: rest = w ++ after ∧ w.length = m.length ∧ LineUnit after w m.breaksLine := by
  rw [MatchIndex.fixedAt?_of_not_escape hc] at hm
  obtain ⟨f, hf, rfl⟩ := Option.map_eq_some_iff.mp hm
  obtain ⟨after, hafter, hunit⟩ := lineUnit_of_fixedFrom? h hf
  refine ⟨f.marker.chars, after, hafter, by simp [FixedMatch.length, Marker.length], ?_⟩
  rwa [FixedMatch.breaksLine, Bool.not_false, Bool.and_true]

/-- Closing markers are matched as units. -/
lemma lineUnit_of_closing (h : EscapableNewlines t.rules) {f : FixedText κ} {lead : Char}
    (hf : f ∈ t.index.fixedTextsFrom lead) {rest : List Char} {m : Marker}
    (hm : Marker.firstAt? f.inside.closings rest = some m) :
    ∃ after, rest = m.chars ++ after ∧ LineUnit after m.chars m.breaksLine := by
  obtain ⟨after, hafter⟩ := Marker.occursAt_iff.mp (Marker.occursAt_of_firstAt? hm)
  have hmem := List.mem_of_find?_eq_some hm
  refine ⟨after, hafter.symm, ?_⟩
  obtain ⟨endsLine, hunit⟩ : ∃ endsLine, LineUnit after m.chars endsLine := by
    obtain ⟨rule, hrule, hby⟩ := t.exists_fixedBy hf
    cases hby with
    | literal text htext hinside =>
        rw [hinside] at hmem
        cases hmem
    | delimited opening closings nested htext hinside hclosings =>
        obtain ⟨s, hs, hchars⟩ := hclosings m hmem
        rw [← hchars]
        rcases h.universal.closing _ _ _ _ _ (List.mem_filter.mpr ⟨hrule, rfl⟩) s hs with
          rfl | rfl | hwithin
        · exact ⟨true, .lineFeed⟩
        · exact ⟨true, .both⟩
        · exact ⟨false, .within (hchars ▸ List.cons_ne_nil _ _) hwithin⟩
  rwa [hunit.breaksLine_eq]

/-- The three ends of a line are known as such. -/
lemma exists_lineEnd {kind : κ} {text : String} {discard : Bool}
    (hrule : .literal kind text discard ∈ t.rules) (htext : text.toList.all isLineBreak = true) :
    ∃ m ∈ t.index.lineEnds, m.chars = text.toList := by
  obtain ⟨f, hf, hchars, -, -, hinside⟩ := t.exists_fixed_of_literal hrule
  refine ⟨f.marker, t.mem_lineEnds_iff.mpr ⟨f, hf, ?_, rfl⟩, hchars⟩
  simp [FixedText.breaksLine, hinside, Marker.breaksLine, hchars, htext]

/-- Line ends are matched as units in the inside of a section. -/
lemma lineUnit_of_lineEnd (h : EscapableNewlines t.rules) {rest : List Char} {m : Marker}
    (hm : Marker.firstAt? t.index.lineEnds rest = some m) :
    ∃ after, rest = m.chars ++ after ∧ LineUnit after m.chars true := by
  obtain ⟨after, hafter⟩ := Marker.occursAt_iff.mp (Marker.occursAt_of_firstAt? hm)
  obtain ⟨f, hf, hbreaks, rfl⟩ := t.mem_lineEnds_iff.mp (List.mem_of_find?_eq_some hm)
  refine ⟨after, hafter.symm, ?_⟩
  rcases chars_of_fixed h hf with hwithin | ⟨-, hend⟩
  · have hunit : LineUnit after f.marker.chars false := .within (List.cons_ne_nil _ _) hwithin
    simp [FixedText.breaksLine, hunit.breaksLine_eq] at hbreaks
  · refine hend.lineUnit fun hchars => ?_
    obtain ⟨kind, discard, hrule⟩ := h.universal.exists_both
    obtain ⟨both, hboth, hbothchars⟩ := exists_lineEnd (List.mem_of_mem_filter hrule) (by decide)
    refine Marker.head?_ne_of_longest hchars hbothchars fun hoccurs => ?_
    refine t.length_le_of_lineEnd hm hboth ?_
    rw [← hafter, hchars]
    exact hoccurs

/-- Where no line end stands in the inside of a section, there is no line break. -/
lemma isLineBreak_eq_false (h : EscapableNewlines t.rules) {c : Char} {after : List Char}
    (hm : Marker.firstAt? t.index.lineEnds (c :: after) = none) : isLineBreak c = false := by
  -- a line break would be found as the literal that it is
  have hnone : ∀ {text : String} {kind discard}, .literal kind text discard ∈ t.rules →
      text.toList = [c] → isLineBreak c = true → False := by
    intro text kind discard hrule htext hc
    obtain ⟨m, hmem, hchars⟩ := exists_lineEnd hrule (by simp [htext, hc])
    refine List.find?_eq_none.mp hm m hmem (Marker.occursAt_iff.mpr ?_)
    rw [hchars, htext]
    exact ⟨after, rfl⟩
  refine Bool.eq_false_iff.mpr fun hc => ?_
  have hbreak : c = '\n' ∨ c = '\r' := by simpa [isLineBreak] using hc
  rcases hbreak with rfl | rfl
  · obtain ⟨kind, discard, hrule⟩ := h.universal.exists_lineFeed
    exact hnone (List.mem_of_mem_filter hrule) rfl rfl
  · obtain ⟨kind, discard, hrule⟩ := h.universal.exists_carriageReturn
    exact hnone (List.mem_of_mem_filter hrule) rfl rfl

/-- The pieces of the inside of a section are units where nothing is escaped. -/
lemma lineUnit_of_rawStep (h : EscapableNewlines t.rules) {c : Char}
    (hc : t.index.isEscape c = false) {ends : List Marker} {rest : List Char} {p : RawPiece}
    (hp : t.index.rawStep ends (c :: rest) = .piece p) :
    ∃ w after, c :: rest = w ++ after ∧ w.length = p.length ∧ LineUnit after w p.endsLine := by
  rw [MatchIndex.rawStep_of_not_escape ends hc] at hp
  split at hp
  · cases hp
  · split at hp
    · rename_i m hm
      obtain rfl := RawStep.piece.inj hp
      obtain ⟨after, hafter, hunit⟩ := lineUnit_of_lineEnd h hm
      exact ⟨m.chars, after, hafter, rfl, hunit⟩
    · rename_i hm
      obtain rfl := RawStep.piece.inj hp
      exact ⟨[c], rest, rfl, rfl, .char (isLineBreak_eq_false h hm)⟩

/-- A run is extended by a character that is no line break. -/
lemma lineUnit_of_runFor? (h : EscapableNewlines t.rules) {c : Char} {r : CharRun κ}
    (hr : t.index.runFor? c = some r) (after : List Char) : LineUnit after [c] false := by
  have hruns : RunsWithinLine t.rules := fun kind charClass discard hrule =>
    h.universal.runs kind charClass discard (List.mem_filter.mpr ⟨hrule, rfl⟩)
  refine .char (Bool.eq_false_iff.mpr fun hc => ?_)
  rw [t.runFor?_eq_none_of_isLineBreak hruns hc] at hr
  cases hr

/-- **Moves** of the machine go from tracked places to tracked places. -/
theorem keeps_tracked (h : UniversalNewlines t.rules) {text : List Char}
    (hlength : text.length < Coord.limit) :
    t.index.Keeps fun c => ∃ before, Tracked text before c where
  char := by
    rintro c d after r ⟨before, hc⟩ hrest hr
    exact ⟨_, hc.skip hlength hrest (lineUnit_of_runFor? h.escapable hr after)⟩
  fixed := by
    rintro c m ⟨before, hc⟩ hm
    cases hrest : c.rest with
    | nil =>
        rw [hrest] at hm
        cases hm
    | cons d rest =>
        rw [hrest] at hm
        obtain ⟨w, after, hw, hlen, hunit⟩ := lineUnit_of_fixedAt? h.escapable (not_isEscape h d) hm
        rw [FixedMatch.stop, ← hlen]
        exact ⟨_, hc.skip hlength (hrest.trans hw) hunit⟩
  closing := by
    rintro c f lead m hf ⟨before, hc⟩ hm
    obtain ⟨after, hrest, hunit⟩ := lineUnit_of_closing h.escapable hf hm
    exact ⟨_, hc.skip hlength hrest hunit⟩
  piece := by
    rintro c ends p ⟨before, hc⟩ hp
    cases hrest : c.rest with
    | nil =>
        rw [hrest] at hp
        cases hp
    | cons d rest =>
        rw [hrest] at hp
        obtain ⟨w, after, hw, hlen, hunit⟩ := lineUnit_of_rawStep h.escapable (not_isEscape h d) hp
        rw [← hlen]
        exact ⟨_, hc.skip hlength (hrest.trans hw) hunit⟩

end Tokenizer

lemma tracked_ofText (text : List Char) : Tracked text [] (.ofText text) :=
  ⟨rfl, rfl, ⟨rfl, rfl⟩, by simp⟩

/-- A tracked place lies behind the characters that its offset counts. -/
lemma Tracked.take_eq {text before : List Char} {c : Cursor} (h : Tracked text before c) :
    text.take c.offset = before := by
  rw [← h.text_eq, h.offset_eq, List.take_left]

lemma Tracked.drop_eq {text before : List Char} {c : Cursor} (h : Tracked text before c) :
    text.drop c.offset = c.rest := by
  rw [← h.text_eq, h.offset_eq, List.drop_left]

lemma Tracked.offset_le {text before : List Char} {c : Cursor} (h : Tracked text before c) :
    c.offset ≤ text.length := by
  rw [← h.text_eq, h.offset_eq, List.length_append]
  exact Nat.le_add_right _ _

/-- **Lines and columns**: by rules with universal newlines the line of every token, at every depth,
is one more than the number of lines that end before it, and its column one more than the number of
characters behind the last of these. So is the position where a text ends in a section that is not
closed, and the position where the machine stops because no rule matches. -/
theorem follows_of_tokenize {rules : List (Rule κ)} {t : Tokenizer κ} {text : String}
    (ht : Tokenizer.ofRules rules = .ok t) (hrules : UniversalNewlines rules)
    (hlength : text.length < Coord.limit) :
    (∀ tokens, t.tokenize text = .ok tokens → ∀ token : Token κ, token.OccursIn tokens →
      token.position.Follows (text.toList.take token.span.start.val)) ∧
    (∀ start stop, t.tokenize text = .error (.unterminatedSection start stop) →
      stop.Follows text.toList) ∧
    (∀ character preview position,
      t.tokenize text = .error (.unexpectedCharacter character preview position) →
      ∃ s, State.Steps t.index (.ofText text.toList) s ∧
        s.step t.index = .halt (t.tokenize text) ∧
        .unexpectedCharacter character preview position
          = ScanError.unexpected (text.toList.drop s.cursor.offset) position ∧
        position.Follows (text.toList.take s.cursor.offset)) := by
  obtain rfl := Tokenizer.eq_of_ofRules ht
  rw [← String.length_toList] at hlength
  have hkeeps := Tokenizer.keeps_tracked hrules hlength
  have hstart : ∃ before, Tracked text.toList before (.ofText text.toList) :=
    ⟨[], tracked_ofText text.toList⟩
  refine ⟨?_, ?_, ?_⟩
  · intro tokens htokens token hoccurs
    obtain ⟨c, ⟨before, hc⟩, hposition, hspan⟩ :=
      Tokenizer.beginsAt_of_tokenize hkeeps hstart htokens hoccurs
    have hoffset : token.span.start.val = c.offset := by
      rw [hspan, Coord.val_clamp]
      exact min_eq_left (hc.offset_le.trans hlength.le)
    rw [hoffset, hc.take_eq, hposition]
    exact hc.follows
  · intro start stop herror
    obtain ⟨c, ⟨before, hc⟩, hrest, rfl⟩ := Tokenizer.stop_of_unterminated hkeeps hstart herror
    have htext : before = text.toList := by simpa [hrest] using hc.text_eq
    rw [← htext]
    exact hc.follows
  · intro character preview position herror
    obtain ⟨s, hsteps, hhalt, ⟨before, hc⟩, hunexpected⟩ :=
      Tokenizer.halt_of_unexpected hkeeps hstart herror
    obtain rfl : s.cursor.position = position := by
      rw [ScanError.unexpected] at hunexpected
      injection hunexpected with _ _ hposition
      exact hposition.symm
    refine ⟨s, hsteps, herror ▸ hhalt, ?_, ?_⟩
    · rw [hc.drop_eq]
      exact hunexpected
    · rw [hc.take_eq]
      exact hc.follows

/-- Rules for words, notes up to the end of the line, quoted texts and groups. -/
def lineRules : List (Rule String) := [
  .run "word" .letter,
  .literal "line" "\r\n",
  .literal "line" "\n",
  .literal "line" "\r",
  .delimited "note" "#" ["\r\n", "\n"],
  .delimited "quote" "\"" ["\""],
  .delimited "group" "(" [")"] true]

lemma universalNewlines_lineRules : UniversalNewlines lineRules where
  exists_lineFeed := ⟨"line", false, by decide⟩
  exists_both := ⟨"line", false, by decide⟩
  exists_carriageReturn := ⟨"line", false, by decide⟩
  literal kind text discard h := by
    have htext : text = "\r\n" ∨ text = "\n" ∨ text = "\r" := by
      simp only [lineRules, List.mem_cons, Rule.literal.injEq, reduceCtorEq, List.not_mem_nil] at h
      tauto
    tauto
  opening kind opening closings nested discard h := by
    have htext : opening = "#" ∨ opening = "\"" ∨ opening = "(" := by
      simp only [lineRules, List.mem_cons, Rule.delimited.injEq, reduceCtorEq,
        List.not_mem_nil] at h
      tauto
    rcases htext with rfl | rfl | rfl <;> decide
  closing kind opening closings nested discard h s hs := by
    have htext : closings = ["\r\n", "\n"] ∨ closings = ["\""] ∨ closings = [")"] := by
      simp only [lineRules, List.mem_cons, Rule.delimited.injEq, reduceCtorEq,
        List.not_mem_nil] at h
      tauto
    rcases htext with rfl | rfl | rfl
    · have hs' : s = "\r\n" ∨ s = "\n" := by simpa using hs
      tauto
    · obtain rfl : s = "\"" := by simpa using hs
      exact .inr (.inr (by decide))
    · obtain rfl : s = ")" := by simpa using hs
      exact .inr (.inr (by decide))
  runs kind charClass discard h := by
    obtain ⟨-, rfl, -⟩ : kind = "word" ∧ charClass = .letter ∧ discard = false := by
      simpa [lineRules] using h
    decide
  not_escape c h := by simp [lineRules] at h

theorem follows_of_tokenize_lines : ∃ t, Tokenizer.ofRules lineRules = .ok t ∧
    (∃ tokens, t.tokenize "a\r\n(b#c\rd\n\"\r\")e" = .ok tokens ∧
      ∀ token : Token String, token.OccursIn tokens → token.position.Follows
        ("a\r\n(b#c\rd\n\"\r\")e".toList.take token.span.start.val)) ∧
    (t.tokenize "a(\r\nb" =
        .error (.unterminatedSection ⟨.clamp 1, .clamp 2⟩ ⟨.clamp 2, .clamp 2⟩) ∧
      Position.Follows ⟨.clamp 2, .clamp 2⟩ "a(\r\nb".toList) ∧
    (t.tokenize "\r\n\ra!" = .error (.unexpectedCharacter '!' "!" ⟨.clamp 3, .clamp 2⟩) ∧
      ∃ s, State.Steps t.index (.ofText "\r\n\ra!".toList) s ∧
        s.step t.index = .halt (t.tokenize "\r\n\ra!") ∧
        Position.Follows ⟨.clamp 3, .clamp 2⟩ ("\r\n\ra!".toList.take s.cursor.offset)) := by
  have htokens : (Tokenizer.tokens? lineRules "a\r\n(b#c\rd\n\"\r\")e").isSome = true := by
    decide +kernel
  obtain ⟨t, tokens, ht, htokens⟩ := Tokenizer.exists_of_isSome_tokens? htokens
  have herrors : (Tokenizer.ofRules lineRules).toOption.any (fun t =>
      t.tokenize "a(\r\nb" =
        .error (.unterminatedSection ⟨.clamp 1, .clamp 2⟩ ⟨.clamp 2, .clamp 2⟩) ∧
      t.tokenize "\r\n\ra!" = .error (.unexpectedCharacter '!' "!" ⟨.clamp 3, .clamp 2⟩)) = true := by
    decide +kernel
  rw [ht] at herrors
  obtain ⟨hopen, hstray⟩ := of_decide_eq_true herrors
  have hrules := universalNewlines_lineRules
  have hlength : "a\r\n(b#c\rd\n\"\r\")e".length < Coord.limit := by decide
  have hlength' : "a(\r\nb".length < Coord.limit := by decide
  have hlength'' : "\r\n\ra!".length < Coord.limit := by decide
  obtain ⟨hfollows, -, -⟩ := follows_of_tokenize ht hrules hlength
  obtain ⟨-, hstop, -⟩ := follows_of_tokenize ht hrules hlength'
  obtain ⟨-, -, hstrays⟩ := follows_of_tokenize ht hrules hlength''
  obtain ⟨s, hsteps, hhalt, -, hposition⟩ := hstrays _ _ _ hstray
  exact ⟨t, ht, ⟨tokens, htokens, hfollows tokens htokens⟩, ⟨hopen, hstop _ _ hopen⟩,
    hstray, s, hsteps, hhalt, hposition⟩

end RuleLexer
