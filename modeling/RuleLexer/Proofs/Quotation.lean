import RuleLexer.Proofs.Longest

/-!
Quotation: every text can be written inside a section that is taken as it stands, with an escape
character in front of each character that means something there.

* `quoteChars`, `quoted`: a text as it is written inside of quotes, and with the quotes around it;
* `Quotes`: rules by which a section quotes texts;
* `MatchIndex.rawStep_quoteChars`: one step through a quoted inside takes a piece of the text, and a
  quoted inside is left;
* `MatchIndex.captureFrom_quoteChars`: the whole inside is captured as the text that was quoted;
* `tokenize_quoted`: a quoted text is one token, whose content is the text.
-/

namespace RuleLexer

variable {κ : Type}

/-! ### Quoting -/

/-- Whether `c` stands for itself inside of quotes only behind an escape character. -/
def NeedsEscape (rules : List (Rule κ)) (quote c : Char) : Prop :=
  c = quote ∨ c ∈ escapeChars rules

instance (rules : List (Rule κ)) (quote c : Char) : Decidable (NeedsEscape rules quote c) :=
  inferInstanceAs (Decidable (_ ∨ _))

/-- A text as it is written inside of quotes. -/
def quoteChars (rules : List (Rule κ)) (quote escape : Char) (content : List Char) : List Char :=
  content.flatMap fun c => if NeedsEscape rules quote c then [escape, c] else [c]

/-- A text with the quotes around it. -/
def quoted (rules : List (Rule κ)) (opening : String) (quote escape : Char) (content : String) :
    String :=
  opening ++ String.ofList (quoteChars rules quote escape content.toList) ++ String.singleton quote

/-- Whether `c` stands for itself behind an escape character, and ends no line. -/
def StandsForItself (c : Char) : Prop :=
  c ∉ ['0', 'r', 'n', 't', '\r', '\n']

instance (c : Char) : Decidable (StandsForItself c) :=
  inferInstanceAs (Decidable (¬ _))

lemma StandsForItself.unescape {c : Char} (h : StandsForItself c) : unescape c = c := by
  simp only [StandsForItself, List.mem_cons, List.not_mem_nil, or_false, not_or] at h
  rw [RuleLexer.unescape]
  all_goals simp_all

lemma StandsForItself.isLineBreak {c : Char} (h : StandsForItself c) : isLineBreak c = false := by
  simp only [StandsForItself, List.mem_cons, List.not_mem_nil, or_false, not_or] at h
  simp [RuleLexer.isLineBreak, h]

/-- Rules by which the section between `opening` and `quote` quotes texts, with `escape` for an escape
character. -/
structure Quotes (rules : List (Rule κ)) (kind : κ) (opening : String) (quote escape : Char) :
    Prop where
  section_mem : .delimited kind opening [String.singleton quote] false false ∈ rules
  escape_mem : .escape escape ∈ rules
  /-- The opening marker begins with a character that is no escape and that no other marker or
  literal begins with. -/
  lead : ∀ c, opening.toList.head? = some c → .escape c ∉ rules ∧
    ∀ rule ∈ rules, ∀ text, rule.fixedText? = some text → text.toList.head? = some c →
      rule = .delimited kind opening [String.singleton quote] false false
  quote_not_escape : .escape quote ∉ rules
  quote_plain : StandsForItself quote
  escapes_plain : ∀ c, .escape c ∈ rules → StandsForItself c

/-! ### A quoted inside -/

section Inside

variable {t : Tokenizer κ} {kind : κ} {opening : String} {quote escape : Char}

namespace Quotes

/-- What needs an escape stands for itself behind one. -/
lemma standsForItself (h : Quotes t.rules kind opening quote escape) {c : Char}
    (hc : NeedsEscape t.rules quote c) : StandsForItself c := by
  rcases hc with rfl | hc
  · exact h.quote_plain
  · exact h.escapes_plain c (mem_escapeChars.mp hc)

/-- Line breaks are never escaped: line breaks at the front of a quoted inside stand at the front of
the text. -/
lemma exists_of_lineBreaks (h : Quotes t.rules kind opening quote escape) {w content : List Char}
    (hw : ∀ x ∈ w, isLineBreak x = true)
    (hfront : w <+: quoteChars t.rules quote escape content ++ [quote]) :
    ∃ content', content = w ++ content' ∧ quoteChars t.rules quote escape content
      = w ++ quoteChars t.rules quote escape content' := by
  induction w generalizing content with
  | nil => exact ⟨content, rfl, rfl⟩
  | cons x w ih =>
      have hx := hw x List.mem_cons_self
      cases content with
      | nil =>
          obtain rfl : x = quote := (List.cons_prefix_cons.mp hfront).1
          rw [h.quote_plain.isLineBreak] at hx
          cases hx
      | cons c content =>
          by_cases hc : NeedsEscape t.rules quote c
          · rw [quoteChars, List.flatMap_cons, if_pos hc] at hfront
            obtain rfl : x = escape := (List.cons_prefix_cons.mp hfront).1
            rw [(h.escapes_plain x h.escape_mem).isLineBreak] at hx
            cases hx
          · rw [quoteChars, List.flatMap_cons, if_neg hc] at hfront
            obtain ⟨rfl, hrest⟩ := List.cons_prefix_cons.mp hfront
            obtain ⟨content', rfl, hquote⟩ := ih (fun y hy => hw y (List.mem_cons_of_mem x hy)) hrest
            refine ⟨content', rfl, ?_⟩
            rw [quoteChars, List.flatMap_cons, if_neg hc, ← quoteChars, hquote]
            rfl

end Quotes

namespace MatchIndex

/-- Where the text is over, the section closes. -/
lemma rawStep_quote (h : Quotes t.rules kind opening quote escape) :
    t.index.rawStep [⟨quote, []⟩] [quote] = .closes ⟨quote, []⟩ := by
  have hfirst : Marker.firstAt? [⟨quote, []⟩] [quote] = some ⟨quote, []⟩ := by
    simp [Marker.firstAt?, Marker.occursAt, Marker.chars]
  rw [rawStep_of_not_escape _ (t.isEscape_eq_false h.quote_not_escape), hfirst]

/-- **One step** through a quoted inside takes a piece of the text, and what is left is a quoted
inside again. -/
lemma rawStep_quoteChars (h : Quotes t.rules kind opening quote escape) {content : List Char}
    (hne : content ≠ []) :
    ∃ p content', t.index.rawStep [⟨quote, []⟩] (quoteChars t.rules quote escape content ++ [quote])
        = .piece p ∧ content = p.content ++ content' ∧ p.content ≠ [] ∧
      (quoteChars t.rules quote escape content ++ [quote]).drop p.length
        = quoteChars t.rules quote escape content' ++ [quote] := by
  obtain ⟨c, content, rfl⟩ := List.exists_cons_of_ne_nil hne
  by_cases hc : NeedsEscape t.rules quote c
  · -- an escape character and the character that it escapes
    have hplain := h.standsForItself hc
    refine ⟨⟨2, [c], false, Nat.two_pos⟩, content, ?_, rfl, List.cons_ne_nil _ _, ?_⟩
    · rw [quoteChars, List.flatMap_cons, if_pos hc]
      simp only [List.cons_append, List.nil_append, rawStep, t.isEscape_iff.mpr h.escape_mem,
        if_true, escapePiece, hplain.isLineBreak, hplain.unescape, Bool.false_eq_true, if_false]
    · rw [quoteChars, List.flatMap_cons, if_pos hc]
      rfl
  · obtain ⟨hquote, hescape⟩ := not_or.mp hc
    have hnot := t.isEscape_eq_false fun hmem => hescape (mem_escapeChars.mpr hmem)
    have hchars : quoteChars t.rules quote escape (c :: content) ++ [quote]
        = c :: (quoteChars t.rules quote escape content ++ [quote]) := by
      rw [quoteChars, List.flatMap_cons, if_neg hc]
      rfl
    have hclose : Marker.firstAt? [⟨quote, []⟩]
        (c :: (quoteChars t.rules quote escape content ++ [quote])) = none := by
      simp [Marker.firstAt?, Marker.occursAt, Marker.chars, Ne.symm hquote]
    cases hend : Marker.firstAt? t.index.lineEnds
        (c :: (quoteChars t.rules quote escape content ++ [quote])) with
    | none =>
        refine ⟨⟨1, [c], false, Nat.one_pos⟩, content, ?_, rfl, List.cons_ne_nil _ _, ?_⟩
        · rw [hchars, rawStep_of_not_escape _ hnot, hclose, hend]
        · rw [hchars]
          rfl
    | some m =>
        -- a line end consists of line breaks, so none of its characters was escaped
        obtain ⟨f, -, hbreaks, rfl⟩ := t.mem_lineEnds_iff.mp (List.mem_of_find?_eq_some hend)
        have hfront := Marker.occursAt_iff.mp (Marker.occursAt_of_firstAt? hend)
        rw [← hchars] at hfront
        obtain ⟨-, hall⟩ := Bool.and_eq_true_iff.mp hbreaks
        obtain ⟨content', hcontent, hrest⟩ := h.exists_of_lineBreaks (List.all_eq_true.mp hall) hfront
        refine ⟨⟨f.marker.length, f.marker.chars, true, f.marker.length_pos⟩, content', ?_, hcontent,
          List.cons_ne_nil _ _, ?_⟩
        · rw [hchars, rawStep_of_not_escape _ hnot, hclose, hend]
        · rw [hrest, List.append_assoc]
          exact List.drop_left

/-- **The whole inside** is captured as the text that was quoted. -/
lemma captureFrom_quoteChars (h : Quotes t.rules kind opening quote escape) {content : List Char}
    (decoded : List Char) {c : Cursor}
    (hc : c.rest = quoteChars t.rules quote escape content ++ [quote]) :
    ∃ closing, closing.rest = [quote] ∧ t.index.captureFrom [⟨quote, []⟩] decoded c
      = .ok ⟨decoded.reverse ++ content, closing, closing.past ⟨quote, []⟩⟩ := by
  -- a step takes at least one character of the text, so the induction is on what is left of it
  induction hn : content.length using Nat.strong_induction_on generalizing content decoded c with
  | _ n ih =>
      subst hn
      rw [captureFrom_eq, hc]
      by_cases hne : content = []
      · subst hne
        have hrest : c.rest = [quote] := hc
        refine ⟨c, hrest, ?_⟩
        rw [quoteChars, List.flatMap_nil, List.nil_append, rawStep_quote h, List.append_nil]
      · obtain ⟨p, content', hstep, rfl, hp, hdrop⟩ := rawStep_quoteChars h hne
        have hlength : content'.length < (p.content ++ content').length := by
          have hpos := List.length_pos_iff.mpr hp
          rw [List.length_append]
          omega
        have hnext : (c.skip p.length p.endsLine).rest
            = quoteChars t.rules quote escape content' ++ [quote] := by
          rw [Cursor.rest_skip, hc, hdrop]
        obtain ⟨closing, hclosing, hcapture⟩ :=
          ih _ hlength (p.content.reverse ++ decoded) hnext rfl
        refine ⟨closing, hclosing, ?_⟩
        rw [hstep]
        simp only [hcapture, List.reverse_append, List.reverse_reverse, List.append_assoc]

end MatchIndex

end Inside

/-! ### The opening marker -/

/-- The fixed text of a section that `quote` closes. -/
def FixedText.quoting (marker : Marker) (kind : κ) (quote : Char) : FixedText κ :=
  ⟨marker, kind, false, .raw [⟨quote, []⟩]⟩

namespace Quotes

variable {t : Tokenizer κ} {kind : κ} {opening : String} {quote escape : Char} {marker : Marker}

/-- The section has a fixed text. -/
lemma exists_fixed? (h : Quotes t.rules kind opening quote escape) :
    ∃ marker : Marker, marker.chars = opening.toList ∧
      (Rule.delimited kind opening [String.singleton quote] false false).fixed?
        = some (.quoting marker kind quote) := by
  obtain ⟨p, -, hpattern⟩ := t.exists_pattern_of_rule h.section_mem
  cases hmarker : Marker.ofString? opening with
  | none => simp [Rule.pattern, hmarker] at hpattern
  | some marker =>
      have hquote : Marker.ofString? (String.singleton quote) = some ⟨quote, []⟩ := by
        simp [Marker.ofString?]
      refine ⟨marker, (Marker.toList_of_ofString? hmarker).symm, Rule.fixed?_eq_some_iff.mpr ?_⟩
      simp [Rule.pattern, hmarker, hquote, Marker.longestFirst, stableSort, insertSorted,
        FixedText.quoting]

/-- No other fixed text begins as the opening marker does. -/
lemma eq_quoting (h : Quotes t.rules kind opening quote escape)
    (hchars : marker.chars = opening.toList)
    (hfixed : (Rule.delimited kind opening [String.singleton quote] false false).fixed?
      = some (.quoting marker kind quote))
    {g : FixedText κ} (hg : g ∈ Pattern.declared t.patterns) (hlead : g.marker.lead = marker.lead) :
    g = .quoting marker kind quote := by
  obtain ⟨rule, hrule, hrulefixed⟩ := t.mem_declared_iff.mp hg
  have hhead : (String.ofList g.marker.chars).toList.head? = some marker.lead := by
    rw [String.toList_ofList, ← hlead]
    rfl
  have honly := (h.lead marker.lead (hchars ▸ rfl)).2
  obtain rfl := honly rule hrule _ (Rule.fixedText?_of_fixed? hrulefixed) hhead
  exact Option.some.inj (hrulefixed.symm.trans hfixed)

/-- The opening marker is found wherever it stands. -/
lemma exists_fixedAt? (h : Quotes t.rules kind opening quote escape) :
    ∃ marker : Marker, marker.chars = opening.toList ∧ ∀ after,
      t.index.fixedAt? (opening.toList ++ after) = some ⟨.quoting marker kind quote, false⟩ := by
  obtain ⟨marker, hchars, hfixed⟩ := h.exists_fixed?
  refine ⟨marker, hchars, fun after => ?_⟩
  have hdeclared : .quoting marker kind quote ∈ Pattern.declared t.patterns :=
    t.mem_declared_iff.mpr ⟨_, h.section_mem, hfixed⟩
  have hsome : t.index.fixedFrom? marker.lead (marker.tail ++ after) ≠ none := by
    intro hnone
    rw [t.index_eq] at hnone
    have hoccurs : marker.occursAt (marker.lead :: (marker.tail ++ after)) = true :=
      Marker.occursAt_iff.mpr ⟨after, rfl⟩
    have hnot := MatchIndex.fixedFrom?_eq_none_iff.mp hnone _ hdeclared
    cases hoccurs.symm.trans hnot
  obtain ⟨g, hg⟩ := Option.ne_none_iff_exists'.mp hsome
  have hfound := List.mem_of_find?_eq_some hg
  rw [t.index_eq] at hfound
  obtain ⟨hgdeclared, hlead⟩ := MatchIndex.mem_declared_of_fixedTextsFrom hfound
  obtain rfl := h.eq_quoting hchars hfixed hgdeclared hlead
  have hnot := (h.lead marker.lead (hchars ▸ rfl)).1
  have hopening : opening.toList ++ after = marker.lead :: (marker.tail ++ after) := by
    rw [← hchars]
    rfl
  rw [hopening, MatchIndex.fixedAt?_of_not_escape (t.isEscape_eq_false hnot), hg]
  rfl

end Quotes

/-! ### A quoted text -/

/-- **Quotation**: any text, quoted, is tokenized into one token, whose content is the text and whose
markers are those that were put around it. -/
theorem tokenize_quoted {rules : List (Rule κ)} {t : Tokenizer κ} {kind : κ} {opening : String}
    {quote escape : Char} (ht : Tokenizer.ofRules rules = .ok t)
    (h : Quotes rules kind opening quote escape) (content : String) :
    ∃ token, t.tokenize (quoted rules opening quote escape content) = .ok [token] ∧
      token.kind = kind ∧ token.content = content ∧
      token.delimiters = some ⟨opening, String.singleton quote, some content⟩ := by
  obtain rfl := Tokenizer.eq_of_ofRules ht
  obtain ⟨marker, hchars, hfixed⟩ := h.exists_fixedAt?
  set text := quoted t.rules opening quote escape content with htext
  set c : Cursor := .ofText text.toList with hc
  set m : FixedMatch κ := ⟨.quoting marker kind quote, false⟩ with hm
  have hrest : c.rest
      = opening.toList ++ (quoteChars t.rules quote escape content.toList ++ [quote]) := by
    simp [hc, Cursor.ofText, htext, quoted]
  have hlength : m.length = opening.toList.length := by
    rw [← hchars]
    exact Nat.zero_add _
  have hinside : (m.stop c).rest = quoteChars t.rules quote escape content.toList ++ [quote] := by
    rw [FixedMatch.stop, Cursor.rest_skip, hlength, hrest]
    exact List.drop_left
  have hahead : t.index.ahead [] c.rest = .fixed m :=
    MatchIndex.ahead_eq_of_describes ⟨rfl, hrest ▸ hfixed _⟩
  obtain ⟨closing, hclosing, hcapture⟩ := MatchIndex.captureFrom_quoteChars h [] hinside
  have hend : (closing.past ⟨quote, []⟩).rest = [] := by
    rw [Cursor.rest_past, hclosing]
    rfl
  have hcovers := Covers.raw hahead rfl hcapture
    (.levelEnd (MatchIndex.ahead_eq_of_describes (.inl hend)))
  -- the markers of the token are what stands before the inside and behind it
  have hopening : c.upTo (m.stop c) = opening.toList := by
    have hfront := (FixedMatch.reaches_stop hahead).upTo_append_rest
    rw [hinside, hrest] at hfront
    exact List.append_cancel_right hfront
  have hquote : closing.upTo (closing.past ⟨quote, []⟩) = [quote] := by
    have hreach : closing.Reaches (closing.past ⟨quote, []⟩) :=
      (MatchIndex.capture_reaches hcapture).2
    rw [hreach.upTo_eq_rest hend, hclosing]
  refine ⟨_, Tokenizer.tokenize_of_covers hcovers, rfl, String.ofList_toList, ?_⟩
  simp only [FixedMatch.rawAt, Token.section, hopening, hquote, List.reverse_nil, List.nil_append,
    Option.map_some, String.ofList_toList]
  rfl

/-- Rules for words, line ends of two characters, and texts between two quotes that are not alike.
There are two escape characters. -/
def quoteRules : List (Rule String) := [
  .run "word" .letter,
  .literal "line" "\r\n",
  .literal "lines" "\n\n",
  .delimited "quote" "<\"" ["\""],
  .escape '\\',
  .escape '^']

lemma quotes_quoteRules : Quotes quoteRules "quote" "<\"" '"' '^' where
  section_mem := by decide
  escape_mem := by decide
  lead c hc := by
    obtain rfl : '<' = c := by simpa using hc
    exact ⟨by decide, by decide +kernel⟩
  quote_not_escape := by decide
  quote_plain := by decide
  escapes_plain c h := by
    obtain rfl | rfl : c = '\\' ∨ c = '^' := by simpa [quoteRules] using h
    · decide
    · decide

theorem tokenize_quoted_lines : ∃ t, Tokenizer.ofRules quoteRules = .ok t ∧
    quoted quoteRules "<\"" '"' '^' "a\\n\"\n\n\r\nb^" = "<\"a^\\n^\"\n\n\r\nb^^\"" ∧
    ∃ token, t.tokenize (quoted quoteRules "<\"" '"' '^' "a\\n\"\n\n\r\nb^") = .ok [token] ∧
      token.kind = "quote" ∧ token.content = "a\\n\"\n\n\r\nb^" ∧
      token.delimiters = some ⟨"<\"", "\"", some "a\\n\"\n\n\r\nb^"⟩ := by
  obtain ⟨t, -, ht, -⟩ := Tokenizer.exists_of_isSome_tokens?
    (show (Tokenizer.tokens? quoteRules "").isSome = true by decide +kernel)
  exact ⟨t, ht, by decide +kernel, tokenize_quoted ht quotes_quoteRules _⟩

end RuleLexer
