import RuleLexer.Proofs.Index

/-!
The markers that an index knows, and the rules that they come from.

* `pairwise_stableSort`: sorting puts a list in ascending order, so the first marker that occurs is
  the longest (`Marker.length_le_of_firstAt?`, `MatchIndex.length_le_of_fixedFrom?`);
* `Rule.FixedBy`: the literal or the section that a fixed text stands for;
* `escapeChars`: the escape characters of a list of rules;
* `MatchIndex.Knows`: the markers that are looked for anywhere in a text;
  `Tokenizer.exists_text_of_knows` says that each of them is written in a rule;
* `Tokenizer.isEscape_iff`, `Tokenizer.mem_rules_of_run`: the same for the escape characters and for
  the runs;
* `MatchIndex.fixedAt?_of_not_escape`, `MatchIndex.fixedAt?_of_escape`,
  `MatchIndex.rawStep_of_not_escape`: what is looked for at an escape character and at any other;
* `Tokenizer.runFor?_eq_none_of_isLineBreak`: no run goes on over the end of a line, unless its
  class is made of line ends or of all characters.
-/

namespace RuleLexer

variable {κ : Type}

/-! ### The longest comes first -/

section Sorting

variable {α : Type} {le : α → α → Bool}

lemma mem_insertSorted {a b : α} {l : List α} : b ∈ insertSorted le a l ↔ b = a ∨ b ∈ l := by
  rw [(perm_insertSorted le a l).mem_iff, List.mem_cons]

/-- Inserting into an ascending list leaves it ascending. -/
lemma pairwise_insertSorted (htrans : ∀ a b c, le a b = true → le b c = true → le a c = true)
    (htotal : ∀ a b, le a b = true ∨ le b a = true) (a : α) {l : List α}
    (hl : l.Pairwise (le · · = true)) : (insertSorted le a l).Pairwise (le · · = true) := by
  induction l with
  | nil => exact List.pairwise_singleton _ a
  | cons b l ih =>
      obtain ⟨hb, hl'⟩ := List.pairwise_cons.mp hl
      by_cases hab : le a b = true
      · rw [insertSorted, if_pos hab]
        refine List.pairwise_cons.mpr ⟨?_, hl⟩
        intro c hc
        rcases List.mem_cons.mp hc with rfl | hc
        · exact hab
        · exact htrans a b c hab (hb c hc)
      · rw [insertSorted, if_neg hab]
        refine List.pairwise_cons.mpr ⟨?_, ih hl'⟩
        intro c hc
        rcases mem_insertSorted.mp hc with rfl | hc
        · exact (htotal c b).resolve_left hab
        · exact hb c hc

/-- A sorted list is ascending. -/
theorem pairwise_stableSort (htrans : ∀ a b c, le a b = true → le b c = true → le a c = true)
    (htotal : ∀ a b, le a b = true ∨ le b a = true) (l : List α) :
    (stableSort le l).Pairwise (le · · = true) := by
  induction l with
  | nil => exact .nil
  | cons a l ih => exact pairwise_insertSorted htrans htotal a ih

/-- By falling length, what is found first is the longest of all that could be found. -/
lemma length_le_of_find?_stableSort (length : α → ℕ) {p : α → Bool} {l : List α} {a b : α}
    (h : (stableSort (fun x y => length y ≤ length x) l).find? p = some a) (hb : b ∈ l)
    (hp : p b = true) : length b ≤ length a := by
  have hsorted : (stableSort (fun x y => decide (length y ≤ length x)) l).Pairwise
      (fun x y => decide (length y ≤ length x) = true) := by
    refine pairwise_stableSort ?_ ?_ l
    · intro x y z hxy hyz
      simp only [decide_eq_true_eq] at hxy hyz ⊢
      omega
    · intro x y
      simp only [decide_eq_true_eq]
      omega
  obtain ⟨-, front, back, hl, hfront⟩ := List.find?_eq_some_iff_append.mp h
  have hmem : b ∈ stableSort (fun x y => decide (length y ≤ length x)) l := mem_stableSort.mpr hb
  rw [hl] at hmem hsorted
  rcases List.mem_append.mp hmem with hfr | hbk
  · have hnot := hfront b hfr
    simp [hp] at hnot
  · rcases List.mem_cons.mp hbk with rfl | hbk
    · exact le_rfl
    · have hle := (List.pairwise_cons.mp (List.pairwise_append.mp hsorted).2.1).1 b hbk
      exact of_decide_eq_true hle

end Sorting

/-- Of markers by falling length the longest that occurs is found. -/
lemma Marker.length_le_of_firstAt? {markers : List Marker} {rest : List Char} {m m' : Marker}
    (h : firstAt? (longestFirst markers) rest = some m) (hm : m' ∈ markers)
    (hoccurs : m'.occursAt rest = true) : m'.length ≤ m.length :=
  length_le_of_find?_stableSort Marker.length h hm hoccurs

/-- Of the fixed texts that occur the longest is found. -/
lemma MatchIndex.length_le_of_fixedFrom? {patterns : List (Pattern κ)} {lead : Char}
    {after : List Char} {f g : FixedText κ} (h : (ofPatterns patterns).fixedFrom? lead after = some f)
    (hg : g ∈ (ofPatterns patterns).fixedTextsFrom lead)
    (htail : g.marker.tail.isPrefixOf after = true) : g.marker.length ≤ f.marker.length := by
  rw [fixedFrom?, fixedTextsFrom_ofPatterns] at h
  rw [fixedTextsFrom_ofPatterns, mem_stableSort] at hg
  exact length_le_of_find?_stableSort (fun f => f.marker.length) h hg htail

/-! ### The rules behind the patterns -/

/-- The texts that are written in a rule: that of a literal, the markers of a section. -/
def Rule.texts : Rule κ → List String
  | literal _ text _ => [text]
  | delimited _ opening closings _ _ => opening :: closings
  | run .. => []
  | escape _ => []

/-- The escape character of a rule, if it is one. -/
def Rule.escapeChar? : Rule κ → Option Char
  | escape c => some c
  | _ => none

/-- The escape characters of the rules. -/
def escapeChars (rules : List (Rule κ)) : List Char :=
  rules.filterMap Rule.escapeChar?

lemma mem_escapeChars {rules : List (Rule κ)} {c : Char} :
    c ∈ escapeChars rules ↔ .escape c ∈ rules := by
  rw [escapeChars, List.mem_filterMap]
  constructor
  · rintro ⟨rule, hrule, hc⟩
    cases rule with
    | escape c' =>
        obtain rfl : c' = c := Option.some.inj hc
        exact hrule
    | run kind charClass discard => cases hc
    | literal kind text discard => cases hc
    | delimited kind opening closings nested discard => cases hc
  · exact fun h => ⟨_, h, rfl⟩

/-- The markers that close a section. -/
def Inside.closings : Inside → List Marker
  | nothing => []
  | nested closings => closings
  | raw closings => closings

lemma Marker.toList_of_ofString? {s : String} {m : Marker} (h : ofString? s = some m) :
    s.toList = m.chars := by
  rw [ofString?] at h
  split at h
  · cases h
  · rename_i c cs hs
    obtain rfl : _ = m := Option.some.inj h
    exact hs

/-- Markers have the characters of the texts that they were made of. -/
lemma Marker.map_toList_of_mapM {texts : List String} {markers : List Marker}
    (h : texts.mapM ofString? = some markers) : texts.map String.toList = markers.map chars := by
  induction texts generalizing markers with
  | nil =>
      obtain rfl : [] = markers := by simpa using h
      rfl
  | cons s texts ih =>
      simp only [List.mapM_cons, Option.bind_eq_bind, Option.bind_eq_some_iff, Option.pure_def,
        Option.some.injEq] at h
      obtain ⟨m, hs, markers', hmarkers, rfl⟩ := h
      rw [List.map_cons, List.map_cons, toList_of_ofString? hs, ih hmarkers]

namespace Rule

variable {kind : κ} {discard : Bool} {p : Pattern κ}

/-- The pattern of a literal. -/
lemma eq_of_pattern_literal {text : String} (h : (literal kind text discard).pattern = .ok p) :
    ∃ marker : Marker, text.toList = marker.chars ∧ p = .fixed ⟨marker, kind, discard, .nothing⟩ := by
  rw [pattern] at h
  split at h
  · cases h
  · rename_i marker hm
    exact ⟨marker, Marker.toList_of_ofString? hm, (Except.ok.inj h).symm⟩

/-- The pattern of a section. -/
lemma eq_of_pattern_delimited {opening : String} {closings : List String} {nested : Bool}
    (h : (delimited kind opening closings nested discard).pattern = .ok p) :
    ∃ (marker : Marker) (markers : List Marker), opening.toList = marker.chars ∧
      closings.map String.toList = markers.map Marker.chars ∧
      p = .fixed ⟨marker, kind, discard, if nested then .nested (Marker.longestFirst markers)
        else .raw (Marker.longestFirst markers)⟩ := by
  rw [pattern] at h
  split at h
  · cases h
  · cases h
  · cases h
  · rename_i marker markers hne hm hmarkers
    exact ⟨marker, markers, Marker.toList_of_ofString? hm, Marker.map_toList_of_mapM hmarkers,
      (Except.ok.inj h).symm⟩

end Rule

/-- The rule is the literal or the section that the fixed text stands for. -/
inductive Rule.FixedBy (f : FixedText κ) : Rule κ → Prop
  | literal (text : String) (htext : text.toList = f.marker.chars) (hinside : f.inside = .nothing) :
      Rule.FixedBy f (.literal f.kind text f.discard)
  | delimited (opening : String) (closings : List String) (nested : Bool)
      (htext : opening.toList = f.marker.chars) (hinside : f.inside ≠ .nothing)
      (hclosings : ∀ m ∈ f.inside.closings, ∃ s ∈ closings, s.toList = m.chars) :
      Rule.FixedBy f (.delimited f.kind opening closings nested f.discard)

lemma Rule.fixedBy_of_pattern {rule : Rule κ} {f : FixedText κ}
    (h : rule.pattern = .ok (.fixed f)) : rule.FixedBy f := by
  cases rule with
  | run kind charClass discard => cases h
  | escape char => cases h
  | literal kind text discard =>
      obtain ⟨marker, htext, heq⟩ := eq_of_pattern_literal h
      obtain rfl := Pattern.fixed.inj heq
      exact .literal text htext rfl
  | delimited kind opening closings nested discard =>
      obtain ⟨marker, markers, htext, hclosings, heq⟩ := eq_of_pattern_delimited h
      obtain rfl := Pattern.fixed.inj heq
      refine .delimited opening closings nested htext ?_ ?_
      · cases nested <;> simp
      · intro m hmem
        have hsorted : m ∈ Marker.longestFirst markers := by cases nested <;> exact hmem
        have hchars := List.mem_map_of_mem (f := Marker.chars) (mem_stableSort.mp hsorted)
        rw [← hclosings] at hchars
        exact List.mem_map.mp hchars

/-! ### The markers that an index knows -/

/-- The marker is looked for somewhere: it is a fixed text, closes a section or ends a line. -/
inductive MatchIndex.Knows (ix : MatchIndex κ) : Marker → Prop
  | fixed {f : FixedText κ} {lead : Char} (h : f ∈ ix.fixedTextsFrom lead) : ix.Knows f.marker
  | closing {f : FixedText κ} {lead : Char} {m : Marker} (h : f ∈ ix.fixedTextsFrom lead)
      (hm : m ∈ f.inside.closings) : ix.Knows m
  | lineEnd {m : Marker} (h : m ∈ ix.lineEnds) : ix.Knows m

namespace Tokenizer

/-- Every rule has a pattern. -/
lemma exists_pattern_of_rule (t : Tokenizer κ) {rule : Rule κ} (h : rule ∈ t.rules) :
    ∃ pattern ∈ t.patterns, rule.pattern = .ok pattern := by
  have hforall := Pattern.forall₂_of_ofRules t.patterns_eq
  obtain ⟨i, hi, rfl⟩ := List.getElem_of_mem h
  have hlen := hforall.length_eq
  exact ⟨t.patterns[i], List.getElem_mem _, (List.forall₂_iff_get.mp hforall).2 i hi (by omega)⟩

/-- The rule of a fixed text. -/
lemma exists_fixedBy (t : Tokenizer κ) {f : FixedText κ} {lead : Char}
    (h : f ∈ t.index.fixedTextsFrom lead) : ∃ rule ∈ t.rules, rule.FixedBy f := by
  rw [t.index_eq, MatchIndex.mem_fixedTextsFrom_ofPatterns] at h
  obtain ⟨rule, hrule, hpattern⟩ := t.exists_rule_of_pattern h.1
  exact ⟨rule, hrule, Rule.fixedBy_of_pattern hpattern⟩

/-- Fixed texts are found under their first characters. -/
lemma lead_of_mem_fixedTextsFrom (t : Tokenizer κ) {f : FixedText κ} {lead : Char}
    (h : f ∈ t.index.fixedTextsFrom lead) : f.marker.lead = lead := by
  rw [t.index_eq, MatchIndex.mem_fixedTextsFrom_ofPatterns] at h
  exact h.2

/-- A fixed text that is found stands there. -/
lemma chars_prefix_of_fixedFrom? (t : Tokenizer κ) {f : FixedText κ} {lead : Char}
    {after : List Char} (h : t.index.fixedFrom? lead after = some f) :
    f.marker.chars <+: lead :: after := by
  have htail := List.find?_some h
  have hlead := t.lead_of_mem_fixedTextsFrom (List.mem_of_find?_eq_some h)
  exact List.cons_prefix_cons.mpr ⟨hlead, List.isPrefixOf_iff_prefix.mp htail⟩

/-- A literal is found under its first character. -/
lemma exists_fixed_of_literal (t : Tokenizer κ) {kind : κ} {text : String} {discard : Bool}
    (h : .literal kind text discard ∈ t.rules) :
    ∃ f ∈ t.index.fixedTextsFrom f.marker.lead, f.marker.chars = text.toList ∧ f.kind = kind ∧
      f.discard = discard ∧ f.inside = .nothing := by
  obtain ⟨pattern, hmem, hpattern⟩ := t.exists_pattern_of_rule h
  obtain ⟨marker, htext, rfl⟩ := Rule.eq_of_pattern_literal hpattern
  refine ⟨⟨marker, kind, discard, .nothing⟩, ?_, htext.symm, rfl, rfl, rfl⟩
  rw [t.index_eq, MatchIndex.mem_fixedTextsFrom_ofPatterns]
  exact ⟨hmem, rfl⟩

/-- A line end is the text of a literal that ends the line. -/
lemma mem_lineEnds_iff (t : Tokenizer κ) {m : Marker} : m ∈ t.index.lineEnds ↔
    ∃ f ∈ t.index.fixedTextsFrom f.marker.lead, f.breaksLine = true ∧ f.marker = m := by
  have hsame : ∀ f : FixedText κ, f ∈ t.index.fixedTextsFrom f.marker.lead
      ↔ f ∈ t.patterns.filterMap Pattern.fixed? := by
    intro f
    rw [t.index_eq, MatchIndex.fixedTextsFrom_ofPatterns, mem_stableSort, List.mem_filter]
    simp
  simp only [hsame]
  rw [t.index_eq]
  simp only [MatchIndex.ofPatterns, Marker.longestFirst, mem_stableSort, List.mem_eraseDups,
    List.mem_map, List.mem_filter, and_assoc]

/-- Of the line ends that occur the longest is found. -/
lemma length_le_of_lineEnd (t : Tokenizer κ) {rest : List Char} {m m' : Marker}
    (h : Marker.firstAt? t.index.lineEnds rest = some m) (hm : m' ∈ t.index.lineEnds)
    (hoccurs : m'.occursAt rest = true) : m'.length ≤ m.length := by
  rw [t.index_eq] at h hm
  exact Marker.length_le_of_firstAt? h (mem_stableSort.mp hm) hoccurs

/-- Every marker that the index knows is written in one of the rules. -/
theorem exists_text_of_knows (t : Tokenizer κ) {m : Marker} (h : t.index.Knows m) :
    ∃ rule ∈ t.rules, ∃ s ∈ rule.texts, s.toList = m.chars := by
  have hfixed : ∀ {f : FixedText κ} {lead}, f ∈ t.index.fixedTextsFrom lead →
      ∃ rule ∈ t.rules, ∃ s ∈ rule.texts, s.toList = f.marker.chars := by
    intro f lead hf
    obtain ⟨rule, hrule, hby⟩ := t.exists_fixedBy hf
    cases hby with
    | literal text htext hinside => exact ⟨_, hrule, text, List.mem_cons_self, htext⟩
    | delimited opening closings nested htext hinside hclosings =>
        exact ⟨_, hrule, opening, List.mem_cons_self, htext⟩
  cases h with
  | fixed hf => exact hfixed hf
  | lineEnd hm =>
      obtain ⟨f, hf, -, rfl⟩ := t.mem_lineEnds_iff.mp hm
      exact hfixed hf
  | closing hf hm =>
      obtain ⟨rule, hrule, hby⟩ := t.exists_fixedBy hf
      cases hby with
      | literal text htext hinside =>
          rw [hinside] at hm
          cases hm
      | delimited opening closings nested htext hinside hclosings =>
          obtain ⟨s, hs, hchars⟩ := hclosings m hm
          exact ⟨_, hrule, s, List.mem_cons_of_mem _ hs, hchars⟩

/-! ### Runs and escape characters -/

lemma mem_rules_of_run (t : Tokenizer κ) {r : CharRun κ} (h : r ∈ t.index.runs) :
    .run r.kind r.charClass r.discard ∈ t.rules := by
  rw [t.index_eq, MatchIndex.mem_runs_ofPatterns] at h
  obtain ⟨rule, hrule, hpattern⟩ := t.exists_rule_of_pattern h
  cases rule with
  | run kind charClass discard =>
      obtain rfl : _ = r := Pattern.run.inj (Except.ok.inj hpattern)
      exact hrule
  | escape char => cases hpattern
  | literal kind text discard =>
      rw [Rule.pattern] at hpattern
      split at hpattern <;> cases hpattern
  | delimited kind opening closings nested discard =>
      rw [Rule.pattern] at hpattern
      split at hpattern <;> cases hpattern

/-- The escape characters of the index are those of the rules. -/
lemma isEscape_iff (t : Tokenizer κ) {c : Char} :
    t.index.isEscape c = true ↔ .escape c ∈ t.rules := by
  have hindex : t.index.isEscape c = true ↔ .escape c ∈ t.patterns := by
    rw [t.index_eq, MatchIndex.isEscape, List.contains_iff_mem]
    simp only [MatchIndex.ofPatterns, List.mem_eraseDups, List.mem_filterMap]
    constructor
    · rintro ⟨p, hp, hc⟩
      cases p with
      | run r => cases hc
      | fixed f => cases hc
      | escape c' =>
          obtain rfl : c' = c := by simpa [Pattern.escape?] using hc
          exact hp
    · exact fun h => ⟨_, h, rfl⟩
  rw [hindex]
  constructor
  · intro h
    obtain ⟨rule, hrule, hpattern⟩ := t.exists_rule_of_pattern h
    cases rule with
    | run kind charClass discard => cases hpattern
    | escape c' =>
        obtain rfl : c' = c := Pattern.escape.inj (Except.ok.inj hpattern)
        exact hrule
    | literal kind text discard =>
        rw [Rule.pattern] at hpattern
        split at hpattern <;> cases hpattern
    | delimited kind opening closings nested discard =>
        rw [Rule.pattern] at hpattern
        split at hpattern <;> cases hpattern
  · intro h
    obtain ⟨pattern, hmem, hpattern⟩ := t.exists_pattern_of_rule h
    obtain rfl : _ = pattern := Except.ok.inj hpattern
    exact hmem

lemma isEscape_eq_false (t : Tokenizer κ) {c : Char} (h : .escape c ∉ t.rules) :
    t.index.isEscape c = false :=
  Bool.eq_false_iff.mpr fun hc => h (t.isEscape_iff.mp hc)

end Tokenizer

/-! ### Characters that are escapes or not -/

/-- A line break stands for itself behind an escape character. -/
lemma unescape_of_isLineBreak {c : Char} (h : isLineBreak c = true) : unescape c = c := by
  have hcases : c = '\n' ∨ c = '\r' := by simpa [isLineBreak] using h
  rcases hcases with rfl | rfl <;> rfl

namespace MatchIndex

variable {ix : MatchIndex κ} {c : Char}

/-- At a character that is no escape the fixed texts that begin with it are compared. -/
lemma fixedAt?_of_not_escape (hc : ix.isEscape c = false) (after : List Char) :
    ix.fixedAt? (c :: after) = (ix.fixedFrom? c after).map (⟨·, false⟩) := by
  cases after with
  | nil => rfl
  | cons next after => simp [fixedAt?, hc]

/-- At an escape character the fixed texts are compared that begin with what it stands for. -/
lemma fixedAt?_of_escape (hc : ix.isEscape c = true) (next : Char) (after : List Char) :
    ix.fixedAt? (c :: next :: after)
      = (ix.fixedFrom? (unescape next) after).map (⟨·, true⟩) := by
  simp [fixedAt?, hc]

/-- The step through the inside of a section at a character that is no escape. -/
lemma rawStep_of_not_escape (ends : List Marker) (hc : ix.isEscape c = false) (after : List Char) :
    ix.rawStep ends (c :: after) = match Marker.firstAt? ends (c :: after) with
      | some m => .closes m
      | none => match Marker.firstAt? ix.lineEnds (c :: after) with
        | some m => .piece ⟨m.length, m.chars, true, m.length_pos⟩
        | none => .piece ⟨1, [c], false, Nat.one_pos⟩ := by
  rw [rawStep, hc]
  rfl

end MatchIndex

/-! ### Runs within a line -/

/-- No run among the rules takes the end of a line in. -/
def RunsWithinLine (rules : List (Rule κ)) : Prop :=
  ∀ kind charClass discard, .run kind charClass discard ∈ rules →
    charClass ≠ .any ∧ charClass ≠ .endOfLine

lemma CharClass.accepts_eq_false_of_isLineBreak {k : CharClass} {c : Char} (hany : k ≠ .any)
    (heol : k ≠ .endOfLine) (hc : isLineBreak c = true) : k.accepts c = false := by
  have hcases : c = '\n' ∨ c = '\r' := by simpa [isLineBreak] using hc
  rcases hcases with rfl | rfl
  · cases k <;> first | rfl | contradiction
  · cases k <;> first | rfl | contradiction

/-- No run begins or goes on at the end of a line. -/
lemma Tokenizer.runFor?_eq_none_of_isLineBreak {t : Tokenizer κ} (h : RunsWithinLine t.rules)
    {c : Char} (hc : isLineBreak c = true) : t.index.runFor? c = none := by
  refine List.find?_eq_none.mpr fun r hr => ?_
  obtain ⟨hany, heol⟩ := h _ _ _ (t.mem_rules_of_run hr)
  simp [CharClass.accepts_eq_false_of_isLineBreak hany heol hc]

end RuleLexer
