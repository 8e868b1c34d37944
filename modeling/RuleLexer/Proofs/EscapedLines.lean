import Mathlib.Data.Nat.Count
import RuleLexer.Proofs.Newlines
import RuleLexer.Proofs.RawSection

/-!
Lines whose ends may be escaped. In the inside of a section an escaped end of a line ends the line
as any other does. Elsewhere it is matched as one with its escape character and hidden: the tokens
behind it are on the line that it stands on.

* `MatchIndex.escapesLineEnd`: an escape character stands here with the end of a line behind it;
* `Tokenizer.HidesLineEnd`, `Tokenizer.hiddenLineEnds`: where the machine takes both as the
  beginning of a fixed text, and how often it does so before an offset;
* `Tokenizer.wholeLines_of_fixedAt?`, `Tokenizer.wholeLines_of_rawStep`: how many lines end in what
  is taken at once;
* `LineTracked`: the line of a place, which falls short of the lines that end before it by the
  hidden ones; `LineTracked.skip` says that it does so again behind what is taken at once;
* `Tokenizer.hiddenLineEnds_of_step`, `Tokenizer.lineTracked_of_step`: one step of the machine;
* `line_add_hidden_of_tokenize`: the lines of all tokens.
-/

namespace RuleLexer

variable {κ : Type}

/-! ### Hidden ends of lines -/

/-- Whether an escape character stands here with the end of a line behind it: a line break, or an
`r`, which the escape character makes a carriage return, and a line feed. -/
def MatchIndex.escapesLineEnd (ix : MatchIndex κ) : List Char → Bool
  | e :: c :: after => ix.isEscape e && (isLineBreak c || c == 'r' && after.head? == some '\n')
  | _ => false

/-- At this offset of the text the machine takes a fixed text that begins with an escape character
and the end of a line behind it. -/
def Tokenizer.HidesLineEnd (t : Tokenizer κ) (text : String) (i : ℕ) : Prop :=
  ∃ s m, State.Steps t.index (.ofText text.toList) s ∧ s.cursor.offset = i ∧ s.Takes t.index m ∧
    t.index.escapesLineEnd s.cursor.rest = true

open Classical in
/-- The number of ends of lines that are hidden before an offset of the text. -/
noncomputable def Tokenizer.hiddenLineEnds (t : Tokenizer κ) (text : String) (offset : ℕ) : ℕ :=
  Nat.count (t.HidesLineEnd text) offset

/-! ### What is taken at once -/

section WholeLines

variable {after w : List Char}

/-- A character that is no line break may be taken along. -/
lemma WholeLines.cons {c : Char} {n : ℕ} (hc : isLineBreak c = false) (h : WholeLines after w n) :
    WholeLines after (c :: w) n := by
  obtain ⟨hlf, hcr⟩ : c ≠ '\n' ∧ c ≠ '\r' := by simpa [isLineBreak] using hc
  refine ⟨List.cons_ne_nil _ _, ?_, ?_⟩
  · rw [lineBreaks, h.lines]
    simp [hlf, hcr]
  · obtain ⟨d, w', rfl⟩ := List.exists_cons_of_ne_nil h.ne_nil
    rw [List.getLast?_cons_cons]
    exact h.whole

/-- Only a line break and an `r` stand for a carriage return behind an escape character. -/
lemma eq_of_unescape_eq_carriageReturn {c : Char} (hc : isLineBreak c = false)
    (h : unescape c = '\r') : c = 'r' := by
  unfold unescape at h
  split at h
  · exact absurd h (by decide)
  · rfl
  · exact absurd h (by decide)
  · exact absurd h (by decide)
  · subst h
    exact absurd hc (by decide)

/-- When a fixed text is taken behind an escape character, a line ends in it unless the end of the
line is written as a letter. -/
lemma wholeLines_of_unescape {c : Char} {endsLine : Bool}
    (h : LineUnit after (unescape c :: w) endsLine) :
    WholeLines after (c :: w)
      (isLineBreak c || c == 'r' && (w ++ after).head? == some '\n').toNat := by
  cases hc : isLineBreak c with
  | true =>
      rw [unescape_of_isLineBreak hc] at h
      cases h with
      | within hne hw =>
          have hno := hw c List.mem_cons_self
          rw [hc] at hno
          cases hno
      | lineFeed => exact LineUnit.lineFeed.wholeLines
      | both => exact LineUnit.both.wholeLines
      | carriageReturn hafter => exact (LineUnit.carriageReturn hafter).wholeLines
  | false =>
      have hsingle : WholeLines after [c] 0 := (LineUnit.char hc).wholeLines
      generalize hd : unescape c = d at h
      cases h with
      | within hne hw =>
          have hr : (c == 'r') = false := by
            refine beq_false_of_ne ?_
            rintro rfl
            have hno := hw d List.mem_cons_self
            rw [← hd] at hno
            exact absurd hno (by decide)
          have hwithin : WithinLine (c :: w) := by
            intro e he
            rcases List.mem_cons.mp he with rfl | he
            · exact hc
            · exact hw e (List.mem_cons_of_mem d he)
          simpa [hr] using (LineUnit.within (List.cons_ne_nil c w) hwithin).wholeLines
      | lineFeed =>
          have hr : (c == 'r') = false := by
            refine beq_false_of_ne ?_
            rintro rfl
            exact absurd hd (by decide)
          simpa [hr] using hsingle
      | both =>
          obtain rfl := eq_of_unescape_eq_carriageReturn hc hd
          exact LineUnit.lineFeed.wholeLines.cons hc
      | carriageReturn hafter =>
          obtain rfl := eq_of_unescape_eq_carriageReturn hc hd
          simpa [beq_false_of_ne hafter] using hsingle

end WholeLines

/-! ### The line of a place -/

/-- The place lies in the text, not between a carriage return and a line feed. Its line is the one
that the ends of lines in front of it make, but for the hidden ones. -/
structure LineTracked (text : List Char) (hidden : ℕ) (c : Cursor) : Prop where
  reaches : (Cursor.ofText text).Reaches c
  line : c.position.line.val + hidden = 1 + lineBreaks (text.take c.offset)
  whole : (text.take c.offset).getLast? = some '\r' → c.rest.head? ≠ some '\n'

lemma lineTracked_ofText (text : List Char) : LineTracked text 0 (.ofText text) :=
  ⟨.refl _, rfl, by simp [Cursor.ofText]⟩

/-- The line goes up by one behind what ends the line. -/
lemma Cursor.line_skip (c : Cursor) (n : ℕ) (endsLine : Bool) :
    (c.skip n endsLine).position.line.val
      = min (c.position.line.val + endsLine.toNat) Coord.limit := by
  cases endsLine with
  | false => exact (min_eq_left c.position.line.val_le).symm
  | true => rfl

/-- Behind what is taken at once the place is tracked again. Of the lines that end in it one or none
is counted, and the others are hidden. -/
lemma LineTracked.skip {text w after : List Char} {hidden more : ℕ} {c : Cursor} {endsLine : Bool}
    (h : LineTracked text hidden c) (hlength : text.length < Coord.limit)
    (hrest : c.rest = w ++ after) (hw : WholeLines after w (endsLine.toNat + more)) :
    LineTracked text (hidden + more) (c.skip w.length endsLine) := by
  have htake : text.take (c.offset + w.length) = text.take c.offset ++ w := by
    rw [List.take_add, ← h.reaches.rest_eq_drop, hrest, List.take_left]
  have hwhole : (text.take c.offset).getLast? = some '\r' → w.head? ≠ some '\n' := by
    intro hlast
    have hhead := h.whole hlast
    rwa [hrest, List.head?_append_of_ne_nil _ hw.ne_nil] at hhead
  refine ⟨h.reaches.trans (.skip (by simp [hrest]) _), ?_, ?_⟩
  · have hlines : lineBreaks (text.take (c.offset + w.length))
        = lineBreaks (text.take c.offset) + (endsLine.toNat + more) := by
      rw [htake, lineBreaks_append hwhole, hw.lines]
    have hshort : lineBreaks (text.take (c.offset + w.length)) ≤ text.length :=
      (lineBreaks_le_length _).trans (List.length_take_le' _ _)
    have hline := h.line
    have hfits : c.position.line.val + endsLine.toNat ≤ Coord.limit := by omega
    calc (c.skip w.length endsLine).position.line.val + (hidden + more)
        = c.position.line.val + endsLine.toNat + (hidden + more) := by
          rw [Cursor.line_skip, min_eq_left hfits]
      _ = 1 + (lineBreaks (text.take c.offset) + (endsLine.toNat + more)) := by omega
      _ = 1 + lineBreaks (text.take (c.skip w.length endsLine).offset) := by
          rw [Cursor.offset_skip, hlines]
  · rw [Cursor.offset_skip, htake, List.getLast?_append_of_ne_nil _ hw.ne_nil, Cursor.rest_skip,
      hrest, List.drop_left]
    exact hw.whole

/-- Where every line that ends is counted, no more of them are hidden. -/
lemma LineTracked.skip_counted {text w after : List Char} {hidden : ℕ} {c : Cursor}
    {endsLine : Bool} (h : LineTracked text hidden c) (hlength : text.length < Coord.limit)
    (hrest : c.rest = w ++ after) (hw : WholeLines after w endsLine.toNat) :
    LineTracked text hidden (c.skip w.length endsLine) := by
  show LineTracked text (hidden + 0) _
  exact h.skip hlength hrest hw

namespace Tokenizer

variable {t : Tokenizer κ}

/-- A fixed text with its first character escaped is taken at once, and the line that ends in it is
hidden. -/
lemma wholeLines_of_escaped (h : EscapableNewlines t.rules) {c next : Char}
    (hc : t.index.isEscape c = true) {rest : List Char} {m : FixedMatch κ}
    (hm : t.index.fixedAt? (c :: next :: rest) = some m) :
    ∃ w after, c :: next :: rest = w ++ after ∧ w.length = m.length ∧
      WholeLines after w
        (m.breaksLine.toNat + (t.index.escapesLineEnd (c :: next :: rest)).toNat) := by
  rw [MatchIndex.fixedAt?_of_escape hc] at hm
  obtain ⟨f, hf, rfl⟩ := Option.map_eq_some_iff.mp hm
  obtain ⟨after, hafter, hunit⟩ := lineUnit_of_fixedFrom? h hf
  obtain ⟨hlead, htail⟩ : unescape next = f.marker.lead ∧ rest = f.marker.tail ++ after :=
    List.cons.inj hafter
  rw [Marker.chars, ← hlead] at hunit
  have hlines := (wholeLines_of_unescape hunit).cons (h.escape c (t.isEscape_iff.mp hc))
  refine ⟨c :: next :: f.marker.tail, after, by simp [htail], ?_, ?_⟩
  · simp only [FixedMatch.length, Marker.length, Marker.chars, List.length_cons, if_true]
    omega
  · simpa [FixedMatch.breaksLine, MatchIndex.escapesLineEnd, hc, htail] using hlines

/-- Fixed texts are taken at once. The line that ends in one is counted, unless it is hidden. -/
lemma wholeLines_of_fixedAt? (h : EscapableNewlines t.rules) {rest : List Char} {m : FixedMatch κ}
    (hm : t.index.fixedAt? rest = some m) :
    ∃ w after, rest = w ++ after ∧ w.length = m.length ∧
      WholeLines after w (m.breaksLine.toNat + (t.index.escapesLineEnd rest).toNat) := by
  match rest with
  | [] => cases hm
  | [c] =>
      -- at the end of the text there is nothing to escape
      obtain ⟨f, hf, rfl⟩ := Option.map_eq_some_iff.mp hm
      obtain ⟨after, hafter, hunit⟩ := lineUnit_of_fixedFrom? h hf
      refine ⟨f.marker.chars, after, hafter, by simp [FixedMatch.length, Marker.length], ?_⟩
      rw [FixedMatch.breaksLine, Bool.not_false, Bool.and_true]
      exact hunit.wholeLines
  | c :: next :: rest =>
      cases hc : t.index.isEscape c with
      | true => exact wholeLines_of_escaped h hc hm
      | false =>
          obtain ⟨w, after, hw, hlen, hunit⟩ := lineUnit_of_fixedAt? h hc hm
          rw [MatchIndex.escapesLineEnd, hc]
          exact ⟨w, after, hw, hlen, hunit.wholeLines⟩

/-- The piece of the inside of a section that an escape character begins is taken at once, and the
end of a line in it is counted. -/
lemma wholeLines_of_escapePiece (h : EscapableNewlines t.rules) {c : Char}
    (hc : t.index.isEscape c = true) (rest : List Char) :
    ∃ w after, c :: rest = w ++ after ∧ w.length = (t.index.escapePiece rest).length ∧
      WholeLines after w (t.index.escapePiece rest).endsLine.toNat := by
  have hplain : isLineBreak c = false := h.escape c (t.isEscape_iff.mp hc)
  cases rest with
  | nil => exact ⟨[c], [], rfl, rfl, (LineUnit.char hplain).wholeLines⟩
  | cons next rest =>
      cases hnext : isLineBreak next with
      | false =>
          have hpiece : t.index.escapePiece (next :: rest)
              = ⟨2, [unescape next], false, Nat.two_pos⟩ := by
            simp [MatchIndex.escapePiece, hnext]
          rw [hpiece]
          exact ⟨[c, next], rest, rfl, rfl, (LineUnit.char hnext).wholeLines.cons hplain⟩
      | true =>
          cases hm : Marker.firstAt? t.index.lineEnds (next :: rest) with
          | none =>
              rw [isLineBreak_eq_false h hm] at hnext
              cases hnext
          | some m =>
              obtain ⟨after, hafter, hunit⟩ := lineUnit_of_lineEnd h hm
              rw [MatchIndex.escapePiece_of_lineEnd hnext hm]
              refine ⟨c :: m.chars, after, by rw [hafter, List.cons_append], ?_, ?_⟩
              · simp only [List.length_cons, Marker.length]
                omega
              · exact hunit.wholeLines.cons hplain

/-- The pieces of the inside of a section are taken at once, and the ends of lines in them are
counted. -/
lemma wholeLines_of_rawStep (h : EscapableNewlines t.rules) {ends : List Marker} {rest : List Char}
    {p : RawPiece} (hp : t.index.rawStep ends rest = .piece p) :
    ∃ w after, rest = w ++ after ∧ w.length = p.length ∧ WholeLines after w p.endsLine.toNat := by
  cases rest with
  | nil => cases hp
  | cons c rest =>
      cases hc : t.index.isEscape c with
      | false =>
          obtain ⟨w, after, hw, hlen, hunit⟩ := lineUnit_of_rawStep h hc hp
          exact ⟨w, after, hw, hlen, hunit.wholeLines⟩
      | true =>
          rw [MatchIndex.rawStep, if_pos hc] at hp
          obtain rfl := RawStep.piece.inj hp
          exact wholeLines_of_escapePiece h hc rest

/-- In the inside of a section nothing is hidden. -/
lemma lineTracked_of_capture (h : EscapableNewlines t.rules) {text : List Char}
    (hlength : text.length < Coord.limit) {f : FixedText κ} {lead : Char}
    (hf : f ∈ t.index.fixedTextsFrom lead) {c : Cursor} {r : Captured} {hidden : ℕ}
    (hc : LineTracked text hidden c) (hr : t.index.capture f.inside.closings c = .ok r) :
    LineTracked text hidden r.stop := by
  have hpiece : ∀ (d : Cursor) (_ : List Char) p, LineTracked text hidden d →
      t.index.rawStep f.inside.closings d.rest = .piece p →
        LineTracked text hidden (d.skip p.length p.endsLine) := by
    intro d _ p hd hp
    obtain ⟨w, after, hrest, hlen, hw⟩ := wholeLines_of_rawStep h hp
    rw [← hlen]
    exact hd.skip_counted hlength hrest hw
  have hkeeps := @MatchIndex.captureFrom_keeps _ t.index f.inside.closings
    (fun d _ => LineTracked text hidden d) hpiece [] c hc
  obtain ⟨-, m, hm, hstop⟩ := MatchIndex.captureFrom_reaches hr
  rw [← MatchIndex.capture, hr] at hkeeps
  obtain ⟨after, hrest, hunit⟩ := lineUnit_of_closing h hf hm
  rw [hstop]
  exact hkeeps.1.skip_counted hlength hrest hunit.wholeLines

end Tokenizer

/-! ### One step of the machine -/

/-- Counting up to a later offset, with nothing to count between. -/
lemma count_of_forall_between {p : ℕ → Prop} [DecidablePred p] {i j : ℕ} (hij : i < j)
    (h : ∀ k, i < k → k < j → ¬ p k) : Nat.count p j = Nat.count p i + if p i then 1 else 0 := by
  induction j, hij using Nat.le_induction with
  | base => exact Nat.count_succ p i
  | succ j hj ih =>
      rw [Nat.count_succ, if_neg (h j hj j.lt_succ_self), Nat.add_zero]
      exact ih fun k hik hkj => h k hik (hkj.trans j.lt_succ_self)

namespace Tokenizer

variable {t : Tokenizer κ} {text : String} {s u : State κ}

/-- Whether the machine hides the end of a line is decided by the state that it comes with. -/
lemma hidesLineEnd_iff (hs : State.Steps t.index (.ofText text.toList) s) :
    t.HidesLineEnd text s.cursor.offset ↔
      (∃ m, s.Takes t.index m) ∧ t.index.escapesLineEnd s.cursor.rest = true := by
  constructor
  · rintro ⟨v, m, hv, hoffset, htakes, hescapes⟩
    obtain rfl := hv.eq_of_offset_eq hs hoffset
    exact ⟨⟨m, htakes⟩, hescapes⟩
  · rintro ⟨⟨m, htakes⟩, hescapes⟩
    exact ⟨s, m, hs, rfl, htakes, hescapes⟩

open Classical in
/-- **One step** hides at most the end of a line that it begins with. -/
lemma hiddenLineEnds_of_step (hs : State.Steps t.index (.ofText text.toList) s)
    (hstep : s.step t.index = .next u) :
    t.hiddenLineEnds text u.cursor.offset = t.hiddenLineEnds text s.cursor.offset +
      if t.HidesLineEnd text s.cursor.offset then 1 else 0 := by
  have hu : State.Steps t.index (.ofText text.toList) u := hs.trans (.next hstep (.refl u))
  have hslength := hs.reaches.offset_add_length_rest
  have hulength := hu.reaches.offset_add_length_rest
  have hlt := State.rest_length_lt_of_step hstep
  rw [hiddenLineEnds, hiddenLineEnds]
  refine count_of_forall_between (by omega) fun i hsi hiu => ?_
  rintro ⟨v, m, hv, rfl, -⟩
  exact absurd (hs.offset_le_of_step hstep hv hsi) (by omega)

lemma hiddenLineEnds_of_takes {m : FixedMatch κ}
    (hs : State.Steps t.index (.ofText text.toList) s) (hstep : s.step t.index = .next u)
    (htakes : s.Takes t.index m) :
    t.hiddenLineEnds text u.cursor.offset = t.hiddenLineEnds text s.cursor.offset +
      (t.index.escapesLineEnd s.cursor.rest).toNat := by
  classical
  rw [hiddenLineEnds_of_step hs hstep, hidesLineEnd_iff hs]
  cases t.index.escapesLineEnd s.cursor.rest with
  | true => rw [if_pos ⟨⟨m, htakes⟩, rfl⟩, Bool.toNat_true]
  | false => rw [if_neg (by simp), Bool.toNat_false]

lemma hiddenLineEnds_of_not_takes (hs : State.Steps t.index (.ofText text.toList) s)
    (hstep : s.step t.index = .next u) (hnot : ∀ m, ¬ s.Takes t.index m) :
    t.hiddenLineEnds text u.cursor.offset = t.hiddenLineEnds text s.cursor.offset := by
  classical
  rw [hiddenLineEnds_of_step hs hstep, hidesLineEnd_iff hs, if_neg, Nat.add_zero]
  rintro ⟨⟨m, htakes⟩, -⟩
  exact hnot m htakes

/-- **One step** leads from a tracked place to a tracked place. -/
theorem lineTracked_of_step (h : EscapableNewlines t.rules)
    (hlength : text.toList.length < Coord.limit)
    (hs : State.Steps t.index (.ofText text.toList) s) (hstep : s.step t.index = .next u)
    (hc : LineTracked text.toList (t.hiddenLineEnds text s.cursor.offset) s.cursor) :
    LineTracked text.toList (t.hiddenLineEnds text u.cursor.offset) u.cursor := by
  by_cases htakes : ∃ m, s.Takes t.index m
  · obtain ⟨m, htakes⟩ := htakes
    rw [hiddenLineEnds_of_takes hs hstep htakes]
    obtain ⟨w, after, hrest, hlen, hw⟩ := wholeLines_of_fixedAt? h htakes.fixedAt?_eq
    have hinside := hc.skip hlength hrest hw
    rw [hlen] at hinside
    rcases htakes.cursor_eq hstep with hu | ⟨ends, r, hi, hr, hu⟩
    · rw [hu]
      exact hinside
    · obtain ⟨lead, hf⟩ := MatchIndex.mem_fixedTextsFrom_of_fixedAt? htakes.fixedAt?_eq
      rw [hu]
      refine lineTracked_of_capture h hlength hf hinside ?_
      rwa [hi]
  · push Not at htakes
    rw [hiddenLineEnds_of_not_takes hs hstep htakes]
    rcases State.step_of_not_takes htakes hstep with
      ⟨o, ho, m, hm, hu⟩ | ⟨c, after, r, hrest, hr, hu⟩
    · have hplaced := (State.placed_ofText (.refl _)).steps (t.index.keeps_reaches _) hs
      obtain ⟨-, -, f, lead, hf, hclosings⟩ := hplaced.opened o ho
      rw [← hclosings] at hm
      obtain ⟨after, hrest, hunit⟩ := lineUnit_of_closing h hf hm
      rw [hu]
      exact hc.skip_counted hlength hrest hunit.wholeLines
    · rw [hu]
      exact hc.skip_counted hlength hrest (lineUnit_of_runFor? h hr after).wholeLines

end Tokenizer

/-! ### The lines of tokens -/

/-- **Lines with escapes**: by rules with universal newlines and escape characters, none of which is
a line break, the line of every token, at every depth, is one more than the number of lines that end
before it, less the number of those whose ends are hidden. -/
theorem line_add_hidden_of_tokenize {rules : List (Rule κ)} {t : Tokenizer κ} {text : String}
    (ht : Tokenizer.ofRules rules = .ok t) (hrules : EscapableNewlines rules)
    (hlength : text.length < Coord.limit) {tokens : TokenList κ}
    (htokens : t.tokenize text = .ok tokens) {token : Token κ} (hoccurs : token.OccursIn tokens) :
    token.position.line.val + t.hiddenLineEnds text token.span.start.val
      = 1 + lineBreaks (text.toList.take token.span.start.val) := by
  obtain rfl := Tokenizer.eq_of_ofRules ht
  rw [← String.length_toList] at hlength
  obtain ⟨s, hs, hposition, hspan⟩ := Tokenizer.exists_steps_of_tokenize htokens hoccurs
  have htracked : LineTracked text.toList (t.hiddenLineEnds text s.cursor.offset) s.cursor := by
    refine hs.preserves ?_ fun hs hstep => Tokenizer.lineTracked_of_step hrules hlength hs hstep
    have hnone : t.hiddenLineEnds text 0 = 0 := by rw [Tokenizer.hiddenLineEnds, Nat.count_zero]
    show LineTracked text.toList (t.hiddenLineEnds text 0) _
    rw [hnone]
    exact lineTracked_ofText text.toList
  have hoffset : token.span.start.val = s.cursor.offset := by
    rw [hspan, Coord.val_clamp]
    exact min_eq_left (hs.reaches.offset_le_length.trans hlength.le)
  rw [hoffset, hposition]
  exact htracked.line

/-- Rules for words, quoted texts and groups, with an escape character. -/
def escapedLineRules : List (Rule String) := [
  .run "word" .letter,
  .literal "line" "\r\n",
  .literal "line" "\n",
  .literal "line" "\r",
  .delimited "quote" "\"" ["\""],
  .delimited "group" "(" [")"] true,
  .escape '\\']

lemma escapableNewlines_escapedLineRules : EscapableNewlines escapedLineRules where
  universal := by
    have hsub : escapedLineRules.filter (·.escapeChar?.isNone) ⊆ lineRules := by decide
    have hlines := universalNewlines_lineRules
    exact {
      exists_lineFeed := ⟨"line", false, by decide⟩
      exists_both := ⟨"line", false, by decide⟩
      exists_carriageReturn := ⟨"line", false, by decide⟩
      literal := fun _ _ _ h => hlines.literal _ _ _ (hsub h)
      opening := fun _ _ _ _ _ h => hlines.opening _ _ _ _ _ (hsub h)
      closing := fun _ _ _ _ _ h => hlines.closing _ _ _ _ _ (hsub h)
      runs := fun _ _ _ h => hlines.runs _ _ _ (hsub h)
      not_escape := fun _ h => hlines.not_escape _ (hsub h) }
  escape c h := by
    obtain rfl : c = '\\' := by simpa [escapedLineRules] using h
    decide

/-- Of two escaped ends of lines the one in the quoted text is counted and the other is hidden. -/
theorem line_add_hidden_of_tokenize_group : ∃ (t : Tokenizer String) (tokens : TokenList String)
    (token : Token String), Tokenizer.ofRules escapedLineRules = .ok t ∧
      t.tokenize "\\\n(a\"\\\n\"b)" = .ok tokens ∧ token.OccursIn tokens ∧ token.text = "b" ∧
      token.position.line.val = 2 ∧ t.hiddenLineEnds "\\\n(a\"\\\n\"b)" token.span.start.val = 1 ∧
      lineBreaks ("\\\n(a\"\\\n\"b)".toList.take token.span.start.val) = 2 := by
  have hfound : (Tokenizer.tokens? escapedLineRules "\\\n(a\"\\\n\"b)").any
      (fun tokens : TokenList String => tokens[1]?.any fun group : Token String =>
        group.nested[2]?.any fun token : Token String =>
          token.text = "b" ∧ token.position.line.val = 2 ∧ token.span.start.val = 8) = true := by
    decide +kernel
  obtain ⟨tokens, htokens, hfound⟩ := (Option.any_eq_true _ _).mp hfound
  obtain ⟨group, hgroup, hfound⟩ := (Option.any_eq_true _ _).mp hfound
  obtain ⟨token, htoken, hfound⟩ := (Option.any_eq_true _ _).mp hfound
  obtain ⟨htext, hline, hstart⟩ := of_decide_eq_true hfound
  obtain ⟨t, ht, htokens⟩ := Tokenizer.exists_of_tokens? htokens
  have hoccurs : token.OccursIn tokens :=
    .inside (List.mem_of_getElem? hgroup) (.here (List.mem_of_getElem? htoken))
  have hlength : "\\\n(a\"\\\n\"b)".length < Coord.limit := by decide
  have hadd := line_add_hidden_of_tokenize ht escapableNewlines_escapedLineRules hlength htokens
    hoccurs
  have hlines : lineBreaks ("\\\n(a\"\\\n\"b)".toList.take token.span.start.val) = 2 := by
    rw [hstart]
    decide
  rw [hline, hlines] at hadd
  exact ⟨t, tokens, token, ht, htokens, hoccurs, htext, hline, by omega, hlines⟩

/-- Behind the hidden end of a line the tokens are still on that line. -/
theorem line_ne_of_hidden : EscapableNewlines escapedLineRules ∧
    ∃ (t : Tokenizer String) (tokens : TokenList String) (token : Token String),
      Tokenizer.ofRules escapedLineRules = .ok t ∧ t.tokenize "\\\na" = .ok tokens ∧
      token.OccursIn tokens ∧
      token.position.line.val ≠ 1 + lineBreaks ("\\\na".toList.take token.span.start.val) := by
  have hfound : (Tokenizer.tokens? escapedLineRules "\\\na").any
      (fun tokens : TokenList String => tokens[1]?.any fun token : Token String =>
        token.position.line.val = 1 ∧ token.span.start.val = 2) = true := by
    decide +kernel
  obtain ⟨tokens, htokens, hfound⟩ := (Option.any_eq_true _ _).mp hfound
  obtain ⟨token, htoken, hfound⟩ := (Option.any_eq_true _ _).mp hfound
  obtain ⟨hline, hstart⟩ := of_decide_eq_true hfound
  obtain ⟨t, ht, htokens⟩ := Tokenizer.exists_of_tokens? htokens
  refine ⟨escapableNewlines_escapedLineRules, t, tokens, token, ht, htokens,
    .here (List.mem_of_getElem? htoken), ?_⟩
  rw [hline, hstart]
  decide

end RuleLexer
