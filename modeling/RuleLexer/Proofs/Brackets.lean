import RuleLexer.Proofs.Lookahead

/-!
Rules for brackets of several kinds and for the words between them, and what the index finds by them.

* `Bracket`, `BracketRules`: a run of letters, and a nested section for each pair of brackets, in
  some order; all brackets are different, and none is a letter or ends a line;
* `Tokenizer.mem_patterns_iff`: the patterns are those of the words and of the pairs, and no others;
* `Tokenizer.ahead_word`, `Tokenizer.ahead_opening`, `Tokenizer.ahead_closing`: what is ahead at the
  three kinds of characters;
* `Tokenizer.word_of_ahead_run`, `Tokenizer.exists_of_ahead_fixed`: a run that is ahead is a word
  that no letter comes behind, and a fixed text that is ahead opens one of the pairs.
-/

namespace RuleLexer

variable {κ : Type}

/-! ### Brackets -/

/-- A pair of brackets, whose tokens have the kind `kind`. -/
structure Bracket (κ : Type) where
  kind : κ
  opening : Char
  closing : Char
deriving DecidableEq, Repr

namespace Bracket

/-- The rule of the pair: a nested section. -/
def rule (b : Bracket κ) : Rule κ :=
  .delimited b.kind (String.singleton b.opening) [String.singleton b.closing] true

/-- The two brackets. -/
def chars (b : Bracket κ) : List Char :=
  [b.opening, b.closing]

/-- The marker that closes the section. -/
def closer (b : Bracket κ) : Marker :=
  ⟨b.closing, []⟩

/-- The fixed text that opens the section. -/
def fixed (b : Bracket κ) : FixedText κ :=
  ⟨⟨b.opening, []⟩, b.kind, false, .nested [b.closer]⟩

lemma pattern_rule (b : Bracket κ) : b.rule.pattern = .ok (.fixed b.fixed) := by
  have hmarker : ∀ c, Marker.ofString? (String.singleton c) = some ⟨c, []⟩ := by
    intro c
    simp [Marker.ofString?, String.toList_singleton]
  simp only [rule, Rule.pattern, hmarker, List.mapM_cons, List.mapM_nil]
  rfl

end Bracket

/-- The run of the letters. -/
def wordRun (word : κ) : CharRun κ :=
  ⟨word, .letter, false⟩

/-- The rules for brackets with words between, in some order. All brackets are different, and none
of them is a letter or ends a line. -/
structure BracketRules (rules : List (Rule κ)) (word : κ) (brackets : List (Bracket κ)) : Prop where
  perm : rules.Perm (.run word .letter :: brackets.map Bracket.rule)
  nodup : (brackets.flatMap Bracket.chars).Nodup
  not_letter : ∀ c ∈ brackets.flatMap Bracket.chars, CharClass.letter.accepts c = false
  not_lineBreak : ∀ c ∈ brackets.flatMap Bracket.chars, isLineBreak c = false

/-- The characters are letters and brackets. -/
def OverBrackets (brackets : List (Bracket κ)) (text : List Char) : Prop :=
  ∀ c ∈ text, CharClass.letter.accepts c = true ∨ c ∈ brackets.flatMap Bracket.chars

instance (brackets : List (Bracket κ)) (text : List Char) :
    Decidable (OverBrackets brackets text) :=
  List.decidableBAll
    (fun c => CharClass.letter.accepts c = true ∨ c ∈ brackets.flatMap Bracket.chars) text

namespace BracketRules

variable {rules : List (Rule κ)} {word : κ} {brackets : List (Bracket κ)} {b b' : Bracket κ}

lemma mem_chars (hb : b ∈ brackets) : b.opening ∈ brackets.flatMap Bracket.chars ∧
    b.closing ∈ brackets.flatMap Bracket.chars :=
  ⟨List.mem_flatMap.mpr ⟨b, hb, by simp [Bracket.chars]⟩,
    List.mem_flatMap.mpr ⟨b, hb, by simp [Bracket.chars]⟩⟩

/-- Pairs with a bracket in common are the same. -/
lemma eq_of_mem (h : BracketRules rules word brackets) (hb : b ∈ brackets) (hb' : b' ∈ brackets)
    {c : Char} (hc : c ∈ b.chars) (hc' : c ∈ b'.chars) : b = b' := by
  by_contra hne
  have hsymm : Std.Symm (Function.onFun List.Disjoint (Bracket.chars (κ := κ))) :=
    ⟨fun _ _ h => h.symm⟩
  have hdisjoint := (List.nodup_flatMap.mp h.nodup).2.forall hb hb' hne
  exact hdisjoint hc hc'

lemma opening_injective (h : BracketRules rules word brackets) (hb : b ∈ brackets)
    (hb' : b' ∈ brackets) (hc : b.opening = b'.opening) : b = b' :=
  h.eq_of_mem hb hb' (c := b.opening) (by simp [Bracket.chars]) (by simp [Bracket.chars, hc])

lemma opening_ne_closing (h : BracketRules rules word brackets) (hb : b ∈ brackets)
    (hb' : b' ∈ brackets) : b.opening ≠ b'.closing := by
  intro hc
  obtain rfl := h.eq_of_mem hb hb' (c := b.opening) (by simp [Bracket.chars])
    (by simp [Bracket.chars, hc])
  have hnodup := (List.nodup_flatMap.mp h.nodup).1 b hb
  simp [Bracket.chars, hc] at hnodup

/-- No bracket is a letter. -/
lemma letter_ne_closing (h : BracketRules rules word brackets) {c : Char}
    (hc : CharClass.letter.accepts c = true) : ∀ b ∈ brackets, b.closing ≠ c := by
  rintro b hb rfl
  rw [h.not_letter _ (mem_chars hb).2] at hc
  cases hc

lemma letter_ne_opening (h : BracketRules rules word brackets) {c : Char}
    (hc : CharClass.letter.accepts c = true) : ∀ b ∈ brackets, b.opening ≠ c := by
  rintro b hb rfl
  rw [h.not_letter _ (mem_chars hb).1] at hc
  cases hc

lemma mem_rules_iff (h : BracketRules rules word brackets) {rule : Rule κ} :
    rule ∈ rules ↔ rule = .run word .letter ∨ ∃ b ∈ brackets, b.rule = rule := by
  rw [h.perm.mem_iff, List.mem_cons, List.mem_map]

/-- The rules are well-formed. -/
lemma exists_tokenizer (h : BracketRules rules word brackets) :
    ∃ t, Tokenizer.ofRules rules = .ok t := by
  refine Tokenizer.exists_of_patterns fun rule hrule => ?_
  rcases h.mem_rules_iff.mp hrule with rfl | ⟨b, -, rfl⟩
  · exact ⟨_, rfl⟩
  · exact ⟨_, b.pattern_rule⟩

end BracketRules

/-! ### What the index finds -/

namespace Tokenizer

variable {t : Tokenizer κ} {word : κ} {brackets : List (Bracket κ)}

lemma mem_patterns_iff (h : BracketRules t.rules word brackets) {p : Pattern κ} :
    p ∈ t.patterns ↔ p = .run (wordRun word) ∨ ∃ b ∈ brackets, p = .fixed b.fixed := by
  constructor
  · intro hp
    obtain ⟨rule, hrule, hpattern⟩ := t.exists_rule_of_pattern hp
    rcases h.mem_rules_iff.mp hrule with rfl | ⟨b, hb, rfl⟩
    · exact .inl (Except.ok.inj hpattern).symm
    · rw [b.pattern_rule] at hpattern
      exact .inr ⟨b, hb, (Except.ok.inj hpattern).symm⟩
  · rintro (rfl | ⟨b, hb, rfl⟩)
    · obtain ⟨p, hp, hpattern⟩ := t.exists_pattern_of_rule (h.mem_rules_iff.mpr (.inl rfl))
      obtain rfl : _ = p := Except.ok.inj hpattern
      exact hp
    · obtain ⟨p, hp, hpattern⟩ := t.exists_pattern_of_rule (h.mem_rules_iff.mpr (.inr ⟨b, hb, rfl⟩))
      rw [b.pattern_rule] at hpattern
      obtain rfl := Except.ok.inj hpattern
      exact hp

lemma not_isEscape_of_brackets (h : BracketRules t.rules word brackets) (c : Char) :
    t.index.isEscape c = false := by
  refine t.isEscape_eq_false fun hc => ?_
  rcases h.mem_rules_iff.mp hc with hrule | ⟨b, -, hrule⟩
  · cases hrule
  · cases hrule

lemma mem_runs_iff (h : BracketRules t.rules word brackets) {r : CharRun κ} :
    r ∈ t.index.runs ↔ r = wordRun word := by
  rw [t.index_eq, MatchIndex.mem_runs_ofPatterns, mem_patterns_iff h]
  simp

lemma mem_fixedTextsFrom_iff (h : BracketRules t.rules word brackets) {f : FixedText κ} {c : Char} :
    f ∈ t.index.fixedTextsFrom c ↔ ∃ b ∈ brackets, f = b.fixed ∧ b.opening = c := by
  rw [t.index_eq, MatchIndex.mem_fixedTextsFrom_ofPatterns, mem_patterns_iff h]
  constructor
  · rintro ⟨hp | ⟨b, hb, hp⟩, hlead⟩
    · cases hp
    · obtain rfl := Pattern.fixed.inj hp
      exact ⟨b, hb, rfl, hlead⟩
  · rintro ⟨b, hb, rfl, hlead⟩
    exact ⟨.inr ⟨b, hb, rfl⟩, hlead⟩

/-- At an opening bracket its section is found. -/
lemma fixedAt?_opening (h : BracketRules t.rules word brackets) {b : Bracket κ} (hb : b ∈ brackets)
    (after : List Char) : t.index.fixedAt? (b.opening :: after) = some ⟨b.fixed, false⟩ := by
  rw [MatchIndex.fixedAt?_of_not_escape (not_isEscape_of_brackets h _), MatchIndex.fixedFrom?]
  cases hfind : (t.index.fixedTextsFrom b.opening).find? (·.marker.tail.isPrefixOf after) with
  | none =>
      have hno := List.find?_eq_none.mp hfind b.fixed
        ((mem_fixedTextsFrom_iff h).mpr ⟨b, hb, rfl, rfl⟩)
      exact absurd rfl hno
  | some f =>
      obtain ⟨b', hb', rfl, hopening⟩ :=
        (mem_fixedTextsFrom_iff h).mp (List.mem_of_find?_eq_some hfind)
      rw [h.opening_injective hb' hb hopening]
      rfl

/-- At any other character nothing of the kind is found. -/
lemma fixedAt?_eq_none (h : BracketRules t.rules word brackets) {c : Char}
    (hc : ∀ b ∈ brackets, b.opening ≠ c) (after : List Char) :
    t.index.fixedAt? (c :: after) = none := by
  rw [MatchIndex.fixedAt?_of_not_escape (not_isEscape_of_brackets h c), Option.map_eq_none_iff]
  refine List.find?_eq_none.mpr fun f hf => ?_
  obtain ⟨b, hb, -, hopening⟩ := (mem_fixedTextsFrom_iff h).mp hf
  exact absurd hopening (hc b hb)

/-- The letters make up the one run. -/
lemma runPlace?_letter (h : BracketRules t.rules word brackets) {c : Char}
    (hc : CharClass.letter.accepts c = true) : t.index.runPlace? c = some 0 := by
  cases hruns : t.index.runs with
  | nil =>
      have hmem : wordRun word ∈ t.index.runs := (mem_runs_iff h).mpr rfl
      rw [hruns] at hmem
      cases hmem
  | cons r rs =>
      obtain rfl : r = wordRun word := (mem_runs_iff h).mp (hruns ▸ List.mem_cons_self)
      rw [MatchIndex.runPlace?, hruns, List.findIdx?_cons]
      simp [wordRun, hc]

lemma runFor?_letter (h : BracketRules t.rules word brackets) {c : Char}
    (hc : CharClass.letter.accepts c = true) : t.index.runFor? c = some (wordRun word) := by
  cases hr : t.index.runFor? c with
  | none =>
      have hplace := MatchIndex.runPlace?_eq_none hr
      rw [runPlace?_letter h hc] at hplace
      cases hplace
  | some r => rw [(mem_runs_iff h).mp (MatchIndex.mem_runs_of_runFor? hr)]

lemma runFor?_not_letter (h : BracketRules t.rules word brackets) {c : Char}
    (hc : CharClass.letter.accepts c = false) : t.index.runFor? c = none := by
  refine List.find?_eq_none.mpr fun r hr => ?_
  rw [(mem_runs_iff h).mp hr]
  simp [wordRun, hc]

lemma accepts_of_runPlace? (h : BracketRules t.rules word brackets) {c : Char} {i : ℕ}
    (hc : t.index.runPlace? c = some i) : CharClass.letter.accepts c = true := by
  by_contra hletter
  have hnone := runFor?_not_letter h (by simpa using hletter)
  rw [MatchIndex.runPlace?_eq_none hnone] at hc
  cases hc

/-! ### What is ahead -/

variable {closings : List Marker} {b : Bracket κ} {after rest w : List Char}

/-- Only closing brackets end a level. -/
lemma firstAt?_eq_none_of_closers (hclosings : ∀ m ∈ closings, ∃ b ∈ brackets, m = b.closer)
    {c : Char} (hc : ∀ b ∈ brackets, b.closing ≠ c) :
    Marker.firstAt? closings (c :: after) = none := by
  refine List.find?_eq_none.mpr fun m hm hoccurs => ?_
  obtain ⟨b, hb, rfl⟩ := hclosings m hm
  obtain ⟨hclosing, -⟩ := List.cons_prefix_cons.mp (Marker.occursAt_iff.mp hoccurs)
  exact hc b hb hclosing

lemma firstAt?_closer (b : Bracket κ) (after : List Char) :
    Marker.firstAt? [b.closer] (b.closing :: after) = some b.closer := by
  simp [Marker.firstAt?, Marker.occursAt, Bracket.closer, Marker.chars]

/-- A span of letters goes on up to the first character that is no letter. -/
lemma spanLength_word (h : BracketRules t.rules word brackets)
    (hclosings : ∀ m ∈ closings, ∃ b ∈ brackets, m = b.closer)
    (hw : ∀ c ∈ w, CharClass.letter.accepts c = true)
    (hrest : ∀ c, rest.head? = some c → CharClass.letter.accepts c = false) :
    t.index.spanLength closings (some 0) (w ++ rest) = w.length := by
  induction w with
  | nil =>
      cases rest with
      | nil => simp [MatchIndex.spanLength]
      | cons c rest =>
          have hplace := MatchIndex.runPlace?_eq_none (runFor?_not_letter h (hrest c rfl))
          exact MatchIndex.spanLength_of_ne (by simp [hplace])
  | cons c w ih =>
      have hc := hw c List.mem_cons_self
      have hclose : Marker.firstAt? closings (c :: (w ++ rest)) = none :=
        firstAt?_eq_none_of_closers hclosings (h.letter_ne_closing hc)
      rw [List.cons_append, MatchIndex.spanLength_cons hclose (runPlace?_letter h hc),
        ih fun d hd => hw d (List.mem_cons_of_mem c hd), List.length_cons]

/-- At a letter its word is ahead. -/
lemma ahead_word (h : BracketRules t.rules word brackets)
    (hclosings : ∀ m ∈ closings, ∃ b ∈ brackets, m = b.closer) (hne : w ≠ [])
    (hw : ∀ c ∈ w, CharClass.letter.accepts c = true)
    (hrest : ∀ c, rest.head? = some c → CharClass.letter.accepts c = false) :
    t.index.ahead closings (w ++ rest) = .run (wordRun word) w.length := by
  have hspan := spanLength_word h hclosings hw hrest
  obtain ⟨c, w, rfl⟩ := List.exists_cons_of_ne_nil hne
  have hc := hw c List.mem_cons_self
  have hclose : Marker.firstAt? closings (c :: (w ++ rest)) = none :=
    firstAt?_eq_none_of_closers hclosings (h.letter_ne_closing hc)
  have hfixed := fixedAt?_eq_none h (h.letter_ne_opening hc) (w ++ rest)
  have hplace := runPlace?_letter h hc
  rw [List.cons_append] at hspan ⊢
  refine MatchIndex.ahead_eq_of_describes
    ⟨c, w ++ rest, rfl, hclose, hfixed, runFor?_letter h hc, ?_⟩
  rw [← hspan, MatchIndex.spanLength_cons hclose hplace, hplace]

/-- At an opening bracket its section is ahead. -/
lemma ahead_opening (h : BracketRules t.rules word brackets)
    (hclosings : ∀ m ∈ closings, ∃ b ∈ brackets, m = b.closer) (hb : b ∈ brackets) :
    t.index.ahead closings (b.opening :: after) = .fixed ⟨b.fixed, false⟩ := by
  have hclose : Marker.firstAt? closings (b.opening :: after) = none :=
    firstAt?_eq_none_of_closers hclosings fun b' hb' => (h.opening_ne_closing hb hb').symm
  exact MatchIndex.ahead_eq_of_describes ⟨hclose, fixedAt?_opening h hb after⟩

lemma ahead_closing (b : Bracket κ) (after : List Char) :
    t.index.ahead [b.closer] (b.closing :: after) = .levelEnd :=
  MatchIndex.ahead_eq_of_describes (.inr (Option.isSome_of_eq_some (firstAt?_closer b after)))

/-- Only opening brackets open a section. -/
lemma exists_of_ahead_fixed (h : BracketRules t.rules word brackets) {m : FixedMatch κ}
    (hahead : t.index.ahead closings rest = .fixed m) :
    ∃ b ∈ brackets, ∃ after, rest = b.opening :: after ∧ m = ⟨b.fixed, false⟩ := by
  obtain ⟨c, after, rfl⟩ :=
    List.exists_cons_of_ne_nil (MatchIndex.ne_nil_of_ahead_fixed hahead)
  have hfixed := MatchIndex.fixedAt?_of_ahead hahead
  rw [MatchIndex.fixedAt?_of_not_escape (not_isEscape_of_brackets h c)] at hfixed
  obtain ⟨f, hf, rfl⟩ := Option.map_eq_some_iff.mp hfixed
  obtain ⟨b, hb, rfl, rfl⟩ := (mem_fixedTextsFrom_iff h).mp (List.mem_of_find?_eq_some hf)
  exact ⟨b, hb, after, rfl, rfl⟩

/-- A run is a word, and no letter comes behind it. -/
lemma word_of_ahead_run (h : BracketRules t.rules word brackets) {r : CharRun κ} {n : ℕ}
    (hahead : t.index.ahead closings rest = .run r n) :
    r = wordRun word ∧ 0 < n ∧ (∀ c ∈ rest.take n, CharClass.letter.accepts c = true) ∧
      ∀ c after, rest.drop n = c :: after → Marker.firstAt? closings (c :: after) = none →
        CharClass.letter.accepts c = false := by
  obtain ⟨c, after, rfl, hclose, -, hr, hn⟩ := MatchIndex.describes_of_ahead hahead
  have hrun := (mem_runs_iff h).mp (MatchIndex.mem_runs_of_runFor? hr)
  obtain ⟨i, hi, -⟩ := MatchIndex.runPlace?_of_runFor? hr
  obtain rfl : i = 0 := by
    rw [runPlace?_letter h (accepts_of_runPlace? h hi)] at hi
    exact (Option.some.inj hi).symm
  rw [hi] at hn
  have hspan : n = t.index.spanLength closings (some 0) (c :: after) := by
    rw [MatchIndex.spanLength_cons hclose hi, hn]
  refine ⟨hrun, by omega, ?_, ?_⟩
  · intro d hd
    rw [hspan] at hd
    exact accepts_of_runPlace? h (MatchIndex.runPlace?_of_mem_span hd)
  · intro d after' hdrop hnone
    rw [hspan] at hdrop
    have hne := MatchIndex.runPlace?_ne_of_drop hdrop hnone
    by_contra hletter
    exact hne (runPlace?_letter h (by simpa using hletter))

end Tokenizer

end RuleLexer
