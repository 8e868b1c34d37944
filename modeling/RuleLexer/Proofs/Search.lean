import RuleLexer.Proofs.Provenance

/-!
Which rule matches at an offset of a text, said as a search of the whole list of rules.

* `StandsAt`, `LongestAt`: a string stands at an offset, and is the longest of several that do;
* `lineEndTexts`: the literals among the rules that are made of line breaks only;
* `AnswersLongest`: a look-up that finds the longest of several strings;
  `Marker.answersLongest` says that markers by falling length are looked up so;
* `LeadAt`, `Rule.MatchesAt`: the text of a rule stands at an offset, perhaps with its first
  character escaped;
* `ChosenAt`: of the rules whose texts match at an offset, the first with the longest text;
* `MatchIndex.SearchesRules`, `Tokenizer.searchesRules_of_ofRules`: the index of a list of rules
  finds what this search finds.
-/

namespace RuleLexer

variable {κ : Type}

/-! ### Strings at an offset -/

/-- The string stands in the text at offset `i`. -/
def StandsAt (text : List Char) (i : ℕ) (s : String) : Prop :=
  s.toList <+: text.drop i

instance (text : List Char) (i : ℕ) (s : String) : Decidable (StandsAt text i s) :=
  inferInstanceAs (Decidable (s.toList <+: text.drop i))

/-- Of the strings, `s` is the longest that stands in the text at offset `i`. -/
structure LongestAt (texts : List String) (text : List Char) (i : ℕ) (s : String) : Prop where
  mem : s ∈ texts
  stands : StandsAt text i s
  longest : ∀ s' ∈ texts, StandsAt text i s' → s'.length ≤ s.length

instance (texts : List String) (text : List Char) (i : ℕ) (s : String) :
    Decidable (LongestAt texts text i s) :=
  decidable_of_iff (s ∈ texts ∧ StandsAt text i s ∧
      ∀ s' ∈ texts, StandsAt text i s' → s'.length ≤ s.length)
    ⟨fun ⟨hmem, hstands, hlongest⟩ => ⟨hmem, hstands, hlongest⟩,
      fun h => ⟨h.mem, h.stands, h.longest⟩⟩

/-- What was found at offset `i` is the longest of the strings there, and nothing was found just
when none of them stands there. -/
structure AnswersLongest (found : Option Marker) (texts : List String) (text : List Char) (i : ℕ) :
    Prop where
  eq_some_iff : ∀ m, found = some m ↔ LongestAt texts text i (String.ofList m.chars)
  eq_none_iff : found = none ↔ ∀ s ∈ texts, ¬ StandsAt text i s

namespace Marker

variable {markers : List Marker} {texts : List String}

/-- The strings are the markers, spelled out. -/
def Spell (markers : List Marker) (texts : List String) : Prop :=
  ∀ s, s ∈ texts ↔ ∃ m ∈ markers, m.chars = s.toList

lemma spell_of_map_eq (h : texts.map String.toList = markers.map chars) : Spell markers texts := by
  intro s
  rw [← List.mem_map, ← h, List.mem_map]
  constructor
  · exact fun hs => ⟨s, hs, rfl⟩
  · rintro ⟨s', hs', heq⟩
    rwa [← String.toList_injective heq]

lemma standsAt_ofList_iff {m : Marker} {text : List Char} {i : ℕ} :
    StandsAt text i (String.ofList m.chars) ↔ m.occursAt (text.drop i) = true := by
  rw [StandsAt, String.toList_ofList, occursAt_iff]

lemma length_ofList_chars (m : Marker) : (String.ofList m.chars).length = m.length := by
  rw [String.length_ofList, length]

/-- **Markers by falling length**: the longest string that stands there is found. -/
theorem answersLongest (h : Spell markers texts) (text : List Char) (i : ℕ) :
    AnswersLongest (firstAt? (longestFirst markers) (text.drop i)) texts text i := by
  have hmem : ∀ m ∈ markers, String.ofList m.chars ∈ texts := fun m hm =>
    (h _).mpr ⟨m, hm, String.toList_ofList.symm⟩
  have hmarker : ∀ s ∈ texts, ∃ m ∈ markers, s = String.ofList m.chars := by
    intro s hs
    obtain ⟨m, hm, hchars⟩ := (h s).mp hs
    exact ⟨m, hm, by rw [hchars, String.ofList_toList]⟩
  refine ⟨fun m => ?_, ?_⟩
  · rw [firstAt?_longestFirst_eq_some_iff]
    constructor
    · rintro ⟨hm, hoccurs, hlongest⟩
      refine ⟨hmem m hm, standsAt_ofList_iff.mpr hoccurs, fun s' hs' hstands => ?_⟩
      obtain ⟨m', hm', rfl⟩ := hmarker s' hs'
      rw [length_ofList_chars, length_ofList_chars]
      exact hlongest m' hm' (standsAt_ofList_iff.mp hstands)
    · intro hbest
      obtain ⟨m', hm', hchars⟩ := (h _).mp hbest.mem
      obtain rfl : m' = m := chars_injective (by rw [hchars, String.toList_ofList])
      refine ⟨hm', standsAt_ofList_iff.mp hbest.stands, fun m₂ hm₂ hoccurs => ?_⟩
      have hle := hbest.longest _ (hmem m₂ hm₂) (standsAt_ofList_iff.mpr hoccurs)
      rwa [length_ofList_chars, length_ofList_chars] at hle
  · rw [← Option.not_isSome_iff_eq_none, firstAt?_isSome_iff]
    constructor
    · intro hnone s hs hstands
      obtain ⟨m, hm, rfl⟩ := hmarker s hs
      exact hnone ⟨m, mem_stableSort.mpr hm, standsAt_ofList_iff.mp hstands⟩
    · rintro hnone ⟨m, hm, hoccurs⟩
      exact hnone _ (hmem m (mem_stableSort.mp hm)) (standsAt_ofList_iff.mpr hoccurs)

end Marker

/-- The text of a rule that is a literal made of line breaks only. -/
def Rule.lineEnd? : Rule κ → Option String
  | literal _ text _ => if text.toList.all isLineBreak then some text else none
  | _ => none

/-- The literals among the rules that are made of line breaks only. They end a line. -/
def lineEndTexts (rules : List (Rule κ)) : List String :=
  rules.filterMap Rule.lineEnd?

/-! ### Rules at an offset -/

/-- A fixed text matches at offset `i` when it begins with the character `lead` and goes on `skip`
characters behind `i + 1`. An escape character with a character after it is left out, and that
character is translated. -/
inductive LeadAt (rules : List (Rule κ)) (text : List Char) (i : ℕ) : Char → ℕ → Prop
  | escaped {c next : Char} (hc : text[i]? = some c) (hescape : .escape c ∈ rules)
      (hnext : text[i + 1]? = some next) : LeadAt rules text i (unescape next) 1
  | plain {c : Char} (hc : text[i]? = some c)
      (hlast : .escape c ∈ rules → text[i + 1]? = none) : LeadAt rules text i c 0

/-- The literal or the section matches at offset `i` by its text `s`. -/
structure Rule.MatchesAt (rules : List (Rule κ)) (text : List Char) (i : ℕ) (rule : Rule κ)
    (s : String) : Prop where
  fixedText_eq : rule.fixedText? = some s
  stands : ∃ lead skip tail, LeadAt rules text i lead skip ∧ s.toList = lead :: tail ∧
    tail <+: text.drop (i + skip + 1)

/-- Of all the rules that match at offset `i`, rule number `n` is the one chosen: no rule matches by
a text longer than its text `s`, and it is the first one declared with `s`. -/
structure ChosenAt (rules : List (Rule κ)) (text : List Char) (i n : ℕ) (rule : Rule κ)
    (s : String) : Prop where
  getElem?_eq : rules[n]? = some rule
  matchesAt : rule.MatchesAt rules text i s
  longest : ∀ rule' ∈ rules, ∀ s', rule'.MatchesAt rules text i s' → s'.length ≤ s.length
  first : ∀ (n' : ℕ) (rule' : Rule κ), rules[n']? = some rule' → rule'.fixedText? = some s → n ≤ n'

/-- Rule number `n` is the first run that accepts `c`. -/
structure FirstRunFor (rules : List (Rule κ)) (c : Char) (n : ℕ) (r : CharRun κ) : Prop where
  getElem?_eq : rules[n]? = some (.run r.kind r.charClass r.discard)
  accepts : r.charClass.accepts c = true
  first : ∀ (n' : ℕ) kind charClass discard, rules[n']? = some (.run kind charClass discard) →
    charClass.accepts c = true → n ≤ n'

/-- The index finds what a search of the rules finds, at every offset of every text. -/
structure MatchIndex.SearchesRules (ix : MatchIndex κ) (rules : List (Rule κ)) : Prop where
  /-- A fixed text is found just where a rule matches. -/
  isSome_fixedAt?_iff : ∀ text i, (ix.fixedAt? (text.drop i)).isSome = true ↔
    ∃ rule ∈ rules, ∃ s, rule.MatchesAt rules text i s
  /-- It is the text of the rule to be chosen. It covers its own characters and what is left out
  before them, and it ends the line if it is a line end of which nothing is left out. -/
  chosen_of_fixedAt? : ∀ text i m, ix.fixedAt? (text.drop i) = some m →
    ∃ n rule s, ∃ lead skip, ChosenAt rules text i n rule s ∧ LeadAt rules text i lead skip ∧
      rule.pattern = .ok (.fixed m.text) ∧ m.length = skip + s.length ∧
      (m.breaksLine = true ↔ rule.lineEnd? = some s ∧ skip = 0)
  /-- The first run that accepts a character is found. -/
  runFor?_eq_some_iff : ∀ c r, ix.runFor? c = some r ↔ ∃ n, FirstRunFor rules c n r
  /-- No run is found when none accepts the character. -/
  runFor?_eq_none_iff : ∀ c, ix.runFor? c = none ↔
    ∀ kind charClass discard, .run kind charClass discard ∈ rules → charClass.accepts c = false
  /-- Of the markers that close a section the longest is found. -/
  closings : ∀ kind opening ends nested discard,
    .delimited kind opening ends nested discard ∈ rules →
    ∃ f, (Rule.delimited kind opening ends nested discard).pattern = .ok (.fixed f) ∧
      ∀ text i, AnswersLongest (Marker.firstAt? f.inside.closings (text.drop i)) ends text i
  /-- Of the literals that end a line the longest is found. -/
  lineEnds : ∀ text i,
    AnswersLongest (Marker.firstAt? ix.lineEnds (text.drop i)) (lineEndTexts rules) text i

/-! ### The first of its sort -/

/-- What is found first among the images is that of the first element whose image will do. -/
lemma find?_filterMap_eq_some_iff {α β : Type} {f : α → Option β} {p : β → Bool} {xs : List α}
    {b : β} : (xs.filterMap f).find? p = some b ↔
      ∃ (n : ℕ) (a : α), xs[n]? = some a ∧ f a = some b ∧ p b = true ∧
        ∀ (n' : ℕ) (a' : α) (b' : β), xs[n']? = some a' → f a' = some b' → p b' = true →
          n ≤ n' := by
  rw [List.find?_filterMap, Option.bind_eq_some_iff]
  constructor
  · rintro ⟨a, hfind, hb⟩
    obtain ⟨hp, n, hn, rfl, hbefore⟩ := List.find?_eq_some_iff_getElem.mp hfind
    refine ⟨n, _, List.getElem?_eq_getElem hn, hb, by simpa [hb] using hp, ?_⟩
    intro n' a' b' hn' hb' hp'
    by_contra hlt
    obtain ⟨hlength, rfl⟩ := List.getElem?_eq_some_iff.mp hn'
    have hnot := hbefore n' (by omega)
    simp [hb', hp'] at hnot
  · rintro ⟨n, a, hn, hb, hp, hfirst⟩
    obtain ⟨hlength, rfl⟩ := List.getElem?_eq_some_iff.mp hn
    refine ⟨_, List.find?_eq_some_iff_getElem.mpr ⟨by simpa [hb] using hp, n, hlength, rfl, ?_⟩, hb⟩
    intro j hj
    by_contra hnot
    -- an earlier element whose image will do would have to come later
    obtain ⟨b', hb', hp'⟩ : ∃ b', f xs[j] = some b' ∧ p b' = true := by
      simpa [Option.any_eq_true] using hnot
    have hle := hfirst j xs[j] b' (List.getElem?_eq_getElem (by omega)) hb' hp'
    omega

/-! ### Fixed texts at an offset -/

lemma drop_eq_cons_of_getElem? {text : List Char} {i : ℕ} {c : Char} (h : text[i]? = some c) :
    text.drop i = c :: text.drop (i + 1) := by
  obtain ⟨hi, rfl⟩ := List.getElem?_eq_some_iff.mp h
  exact List.drop_eq_getElem_cons hi

lemma getElem?_of_drop_eq_cons {text after : List Char} {i : ℕ} {c : Char}
    (h : text.drop i = c :: after) : text[i]? = some c ∧ text.drop (i + 1) = after := by
  rw [← List.head?_drop, ← List.tail_drop, h]
  exact ⟨rfl, rfl⟩

lemma drop_eq_nil_of_getElem? {text : List Char} {i : ℕ} (h : text[i]? = none) :
    text.drop i = [] :=
  List.drop_eq_nil_iff.mpr (List.getElem?_eq_none_iff.mp h)

/-- Within the text some fixed text could begin at every offset. -/
lemma LeadAt.exists_of_lt (rules : List (Rule κ)) {text : List Char} {i : ℕ}
    (hi : i < text.length) : ∃ lead skip, LeadAt rules text i lead skip := by
  have hc := List.getElem?_eq_getElem hi
  by_cases hescape : .escape text[i] ∈ rules
  · cases hnext : text[i + 1]? with
    | none => exact ⟨_, _, .plain hc fun _ => hnext⟩
    | some next => exact ⟨_, _, .escaped hc hescape hnext⟩
  · exact ⟨_, _, .plain hc fun h => absurd h hescape⟩

/-- What a fixed text has to begin with is determined. -/
lemma LeadAt.eq {rules : List (Rule κ)} {text : List Char} {i : ℕ} {lead lead' : Char}
    {skip skip' : ℕ} (h : LeadAt rules text i lead skip) (h' : LeadAt rules text i lead' skip') :
    lead = lead' ∧ skip = skip' := by
  cases h with
  | escaped hc hescape hnext =>
      cases h' with
      | escaped hc' hescape' hnext' =>
          obtain rfl := Option.some.inj (hnext.symm.trans hnext')
          exact ⟨rfl, rfl⟩
      | plain hc' hlast' =>
          obtain rfl := Option.some.inj (hc.symm.trans hc')
          cases hnext.symm.trans (hlast' hescape)
  | plain hc hlast =>
      cases h' with
      | escaped hc' hescape' hnext' =>
          obtain rfl := Option.some.inj (hc.symm.trans hc')
          cases hnext'.symm.trans (hlast hescape')
      | plain hc' hlast' =>
          obtain rfl := Option.some.inj (hc.symm.trans hc')
          exact ⟨rfl, rfl⟩

/-- The index looks a fixed text up by what it has to begin with. -/
lemma Tokenizer.fixedAt?_of_leadAt {t : Tokenizer κ} {text : List Char} {i : ℕ} {lead : Char}
    {skip : ℕ} (h : LeadAt t.rules text i lead skip) :
    t.index.fixedAt? (text.drop i)
      = (t.index.fixedFrom? lead (text.drop (i + skip + 1))).map (⟨·, decide (skip = 1)⟩) := by
  cases h with
  | escaped hc hescape hnext =>
      rw [drop_eq_cons_of_getElem? hc, drop_eq_cons_of_getElem? hnext,
        MatchIndex.fixedAt?_of_escape (t.isEscape_iff.mpr hescape)]
      rfl
  | plain hc hlast =>
      rw [drop_eq_cons_of_getElem? hc]
      by_cases hescape : .escape lead ∈ t.rules
      · have hnil := drop_eq_nil_of_getElem? (hlast hescape)
        rw [Nat.add_zero, hnil]
        rfl
      · rw [MatchIndex.fixedAt?_of_not_escape (t.isEscape_eq_false hescape)]
        rfl

namespace Rule

variable {rules : List (Rule κ)} {text : List Char} {i : ℕ} {lead : Char} {skip : ℕ}
  {rule : Rule κ} {f : FixedText κ} {s : String}

/-- A rule matches where its fixed text stands. -/
lemma matchesAt_iff (hf : rule.fixed? = some f) (h : LeadAt rules text i lead skip) :
    rule.MatchesAt rules text i s ↔ s = String.ofList f.marker.chars ∧
      f.marker.occursAt (lead :: text.drop (i + skip + 1)) = true := by
  have hs := fixedText?_of_fixed? hf
  rw [Marker.occursAt_iff]
  constructor
  · rintro ⟨hs', lead', skip', tail, hlead, htext, htail⟩
    obtain rfl := Option.some.inj (hs.symm.trans hs')
    obtain ⟨rfl, rfl⟩ := h.eq hlead
    rw [String.toList_ofList] at htext
    rw [htext]
    exact ⟨rfl, List.cons_prefix_cons.mpr ⟨rfl, htail⟩⟩
  · rintro ⟨rfl, hfront⟩
    obtain ⟨hlead, htail⟩ := List.cons_prefix_cons.mp hfront
    refine ⟨hs, lead, skip, f.marker.tail, h, ?_, htail⟩
    rw [String.toList_ofList, Marker.chars, hlead]

/-- Among well-formed rules, those with a text have a fixed text with its characters. -/
lemma exists_fixed?_of_fixedText? (t : Tokenizer κ) (hrule : rule ∈ t.rules)
    (hs : rule.fixedText? = some s) :
    ∃ f, rule.fixed? = some f ∧ s = String.ofList f.marker.chars := by
  obtain ⟨pattern, -, hpattern⟩ := t.exists_pattern_of_rule hrule
  have hfixed : ∃ f, rule.fixed? = some f := by
    cases rule with
    | run kind charClass discard => cases hs
    | escape char => cases hs
    | literal kind text discard =>
        obtain ⟨marker, -, rfl⟩ := eq_of_pattern_literal hpattern
        exact ⟨_, fixed?_eq_some_iff.mpr hpattern⟩
    | delimited kind opening closings nested discard =>
        obtain ⟨marker, markers, -, -, rfl⟩ := eq_of_pattern_delimited hpattern
        exact ⟨_, fixed?_eq_some_iff.mpr hpattern⟩
  obtain ⟨f, hf⟩ := hfixed
  exact ⟨f, hf, Option.some.inj (hs.symm.trans (fixedText?_of_fixed? hf))⟩

/-- Only a run rule has a run. -/
lemma run?_eq_some_iff {r : CharRun κ} :
    rule.run? = some r ↔ rule = .run r.kind r.charClass r.discard := by
  constructor
  · intro h
    cases rule with
    | run kind charClass discard =>
        obtain rfl := Option.some.inj h
        rfl
    | literal kind text discard => cases h
    | delimited kind opening closings nested discard => cases h
    | escape char => cases h
  · rintro rfl
    rfl

/-- A rule that ends a line is looked up by the same text. -/
lemma fixedText?_of_lineEnd? (h : rule.lineEnd? = some s) : rule.fixedText? = some s := by
  cases rule with
  | literal kind text discard =>
      rw [lineEnd?] at h
      split at h
      · exact h
      · cases h
  | run kind charClass discard => cases h
  | delimited kind opening closings nested discard => cases h
  | escape char => cases h

/-- A rule ends a line just when its fixed text does. -/
lemma lineEnd?_eq_some_iff (hf : rule.fixed? = some f) :
    rule.lineEnd? = some s ↔ s = String.ofList f.marker.chars ∧ f.breaksLine = true := by
  cases fixedBy_of_pattern (fixed?_eq_some_iff.mp hf) with
  | literal text htext hinside =>
      have hbreaks : f.breaksLine = text.toList.all isLineBreak := by
        simp [FixedText.breaksLine, hinside, Marker.breaksLine, htext]
      rw [lineEnd?, hbreaks, ← htext, String.ofList_toList]
      by_cases h : text.toList.all isLineBreak = true <;> simp [h, eq_comm]
  | delimited opening closings nested htext hinside =>
      have hbreaks : f.breaksLine = false := by simp [FixedText.breaksLine, hinside]
      simp [lineEnd?, hbreaks]

end Rule

lemma LeadAt.skip_le_one {rules : List (Rule κ)} {text : List Char} {i : ℕ} {lead : Char} {skip : ℕ}
    (h : LeadAt rules text i lead skip) : skip ≤ 1 := by
  cases h <;> omega

/-! ### What the index finds -/

namespace Tokenizer

variable {t : Tokenizer κ} {text : List Char} {i : ℕ}

/-- A fixed text is found just where a rule matches. -/
lemma isSome_fixedAt?_iff : (t.index.fixedAt? (text.drop i)).isSome = true ↔
    ∃ rule ∈ t.rules, ∃ s, rule.MatchesAt t.rules text i s := by
  by_cases hi : i < text.length
  · obtain ⟨lead, skip, hlead⟩ := LeadAt.exists_of_lt t.rules hi
    rw [fixedAt?_of_leadAt hlead, Option.isSome_map, t.index_eq, Option.isSome_iff_ne_none, Ne,
      MatchIndex.fixedFrom?_eq_none_iff]
    constructor
    · intro hsome
      push Not at hsome
      obtain ⟨f, hf, hoccurs⟩ := hsome
      obtain ⟨rule, hrule, hfixed⟩ := t.mem_declared_iff.mp hf
      exact ⟨rule, hrule, _, (Rule.matchesAt_iff hfixed hlead).mpr ⟨rfl, by simpa using hoccurs⟩⟩
    · rintro ⟨rule, hrule, s, hmatches⟩ hnone
      obtain ⟨f, hfixed, -⟩ := Rule.exists_fixed?_of_fixedText? t hrule hmatches.fixedText_eq
      have hoccurs := ((Rule.matchesAt_iff hfixed hlead).mp hmatches).2
      rw [hnone f (t.mem_declared_iff.mpr ⟨rule, hrule, hfixed⟩)] at hoccurs
      cases hoccurs
  · have hnil : text.drop i = [] := List.drop_eq_nil_iff.mpr (by omega)
    rw [hnil]
    refine iff_of_false (by simp [MatchIndex.fixedAt?]) ?_
    rintro ⟨rule, hrule, s, -, lead, skip, tail, hlead, -⟩
    have hlt : i < text.length := by
      cases hlead with
      | escaped hc hescape hnext => exact (List.getElem?_eq_some_iff.mp hc).1
      | plain hc hlast => exact (List.getElem?_eq_some_iff.mp hc).1
    exact hi hlt

/-- The fixed text that is found is that of the rule to be chosen. -/
lemma exists_chosenAt {m : FixedMatch κ} (h : t.index.fixedAt? (text.drop i) = some m) :
    ∃ n rule s, ∃ lead skip, ChosenAt t.rules text i n rule s ∧ LeadAt t.rules text i lead skip ∧
      rule.pattern = .ok (.fixed m.text) ∧ m.length = skip + s.length ∧
      (m.breaksLine = true ↔ rule.lineEnd? = some s ∧ skip = 0) := by
  have hi : i < text.length := by
    by_contra hge
    rw [List.drop_eq_nil_iff.mpr (by omega)] at h
    cases h
  obtain ⟨lead, skip, hlead⟩ := LeadAt.exists_of_lt t.rules hi
  rw [fixedAt?_of_leadAt hlead] at h
  obtain ⟨f, hfound, rfl⟩ := Option.map_eq_some_iff.mp h
  rw [t.index_eq] at hfound
  have hbest := MatchIndex.fixedFrom?_eq_some_iff.mp hfound
  have hdeclared := hbest.first
  rw [declared_eq] at hdeclared
  obtain ⟨n, rule, hn, hfixed, -, hfirst⟩ := find?_filterMap_eq_some_iff.mp hdeclared
  have hskip := hlead.skip_le_one
  refine ⟨n, rule, String.ofList f.marker.chars, lead, skip, ⟨hn, ?_, ?_, ?_⟩, hlead,
    Rule.fixed?_eq_some_iff.mp hfixed, ?_, ?_⟩
  · exact (Rule.matchesAt_iff hfixed hlead).mpr ⟨rfl, hbest.occurs⟩
  · intro rule' hrule' s' hmatches
    obtain ⟨g, hg, rfl⟩ := Rule.exists_fixed?_of_fixedText? t hrule' hmatches.fixedText_eq
    rw [Marker.length_ofList_chars, Marker.length_ofList_chars]
    exact hbest.longest g (t.mem_declared_iff.mpr ⟨rule', hrule', hg⟩)
      ((Rule.matchesAt_iff hg hlead).mp hmatches).2
  · intro n' rule' hn' hs'
    obtain ⟨g, hg, hchars⟩ := Rule.exists_fixed?_of_fixedText? t (List.mem_of_getElem? hn') hs'
    have hmarker : g.marker = f.marker :=
      Marker.chars_injective (String.ofList_injective hchars.symm)
    exact hfirst n' rule' g hn' hg (decide_eq_true hmarker)
  · rw [FixedMatch.length, Marker.length_ofList_chars]
    obtain rfl | rfl : skip = 0 ∨ skip = 1 := by omega
    · rfl
    · rfl
  · rw [Rule.lineEnd?_eq_some_iff hfixed, FixedMatch.breaksLine]
    obtain rfl | rfl : skip = 0 ∨ skip = 1 := by omega
    · simp
    · simp

/-- The run that is found is the first that accepts the character. -/
lemma runFor?_eq_some_iff {c : Char} {r : CharRun κ} :
    t.index.runFor? c = some r ↔ ∃ n, FirstRunFor t.rules c n r := by
  rw [MatchIndex.runFor?, t.runs_eq, find?_filterMap_eq_some_iff]
  constructor
  · rintro ⟨n, rule, hn, hr, haccepts, hfirst⟩
    obtain rfl := Rule.run?_eq_some_iff.mp hr
    exact ⟨n, hn, haccepts, fun n' kind k d hn' haccepts' => hfirst n' _ _ hn' rfl haccepts'⟩
  · rintro ⟨n, hn, haccepts, hfirst⟩
    refine ⟨n, _, hn, rfl, haccepts, fun n' rule' r' hn' hr' haccepts' => ?_⟩
    obtain rfl := Rule.run?_eq_some_iff.mp hr'
    exact hfirst n' _ _ _ hn' haccepts'

/-- No run is found when none accepts the character. -/
lemma runFor?_eq_none_iff {c : Char} : t.index.runFor? c = none ↔
    ∀ kind charClass discard, .run kind charClass discard ∈ t.rules →
      charClass.accepts c = false := by
  rw [MatchIndex.runFor?, t.runs_eq, List.find?_eq_none]
  constructor
  · intro hnone kind charClass discard hrule
    simpa using hnone _ (List.mem_filterMap.mpr ⟨_, hrule, rfl⟩)
  · intro hnone r hr
    obtain ⟨rule, hrule, heq⟩ := List.mem_filterMap.mp hr
    obtain rfl := Rule.run?_eq_some_iff.mp heq
    simp [hnone _ _ _ hrule]

/-- Of the markers that close a section the longest is found. -/
lemma answersLongest_closings {kind : κ} {opening : String} {ends : List String}
    {nested discard : Bool} {f : FixedText κ}
    (hpattern : (Rule.delimited kind opening ends nested discard).pattern = .ok (.fixed f))
    (text : List Char) (i : ℕ) :
    AnswersLongest (Marker.firstAt? f.inside.closings (text.drop i)) ends text i := by
  obtain ⟨marker, markers, -, hends, heq⟩ := Rule.eq_of_pattern_delimited hpattern
  obtain rfl := Pattern.fixed.inj heq
  have hclosings : (if nested then Inside.nested (Marker.longestFirst markers)
      else .raw (Marker.longestFirst markers)).closings = Marker.longestFirst markers := by
    cases nested <;> rfl
  rw [hclosings]
  exact Marker.answersLongest (Marker.spell_of_map_eq hends) text i

lemma mem_fixedTextsFrom_iff_exists_rule (t : Tokenizer κ) {f : FixedText κ} :
    f ∈ t.index.fixedTextsFrom f.marker.lead ↔ ∃ rule ∈ t.rules, rule.fixed? = some f := by
  rw [t.index_eq, MatchIndex.mem_fixedTextsFrom_ofPatterns]
  constructor
  · intro hf
    obtain ⟨rule, hrule, hpattern⟩ := t.exists_rule_of_pattern hf.1
    exact ⟨rule, hrule, Rule.fixed?_eq_some_iff.mpr hpattern⟩
  · rintro ⟨rule, hrule, hfixed⟩
    obtain ⟨pattern, hmem, hpattern⟩ := t.exists_pattern_of_rule hrule
    obtain rfl := Except.ok.inj (hpattern.symm.trans (Rule.fixed?_eq_some_iff.mp hfixed))
    exact ⟨hmem, rfl⟩

/-- Of the literals that end a line the longest is found. -/
lemma answersLongest_lineEnds (t : Tokenizer κ) (text : List Char) (i : ℕ) :
    AnswersLongest (Marker.firstAt? t.index.lineEnds (text.drop i)) (lineEndTexts t.rules)
      text i := by
  obtain ⟨markers, hmarkers⟩ : ∃ markers, t.index.lineEnds = Marker.longestFirst markers :=
    ⟨_, by rw [t.index_eq]; rfl⟩
  rw [hmarkers]
  refine Marker.answersLongest (fun s => ?_) text i
  have hmem : ∀ m, m ∈ markers ↔ m ∈ t.index.lineEnds := fun m => by
    rw [hmarkers, Marker.longestFirst, mem_stableSort]
  simp only [hmem, t.mem_lineEnds_iff, lineEndTexts, List.mem_filterMap]
  constructor
  · rintro ⟨rule, hrule, hs⟩
    obtain ⟨f, hfixed, -⟩ := Rule.exists_fixed?_of_fixedText? t hrule (Rule.fixedText?_of_lineEnd? hs)
    obtain ⟨rfl, hbreaks⟩ := (Rule.lineEnd?_eq_some_iff hfixed).mp hs
    exact ⟨f.marker, ⟨f, t.mem_fixedTextsFrom_iff_exists_rule.mpr ⟨rule, hrule, hfixed⟩, hbreaks, rfl⟩,
      String.toList_ofList.symm⟩
  · rintro ⟨m, ⟨f, hf, hbreaks, rfl⟩, hchars⟩
    obtain ⟨rule, hrule, hfixed⟩ := t.mem_fixedTextsFrom_iff_exists_rule.mp hf
    refine ⟨rule, hrule, (Rule.lineEnd?_eq_some_iff hfixed).mpr ⟨?_, hbreaks⟩⟩
    rw [hchars, String.ofList_toList]

/-- **Searching the rules**: the index of a list of rules finds what a search of the whole list
finds. -/
theorem searchesRules_of_ofRules {rules : List (Rule κ)} {t : Tokenizer κ}
    (ht : ofRules rules = .ok t) : t.index.SearchesRules rules := by
  obtain rfl := eq_of_ofRules ht
  exact {
    isSome_fixedAt?_iff := fun _ _ => isSome_fixedAt?_iff
    chosen_of_fixedAt? := fun _ _ _ => exists_chosenAt
    runFor?_eq_some_iff := fun _ _ => runFor?_eq_some_iff
    runFor?_eq_none_iff := fun _ => runFor?_eq_none_iff
    closings := fun _ _ _ _ _ hrule => by
      obtain ⟨f, hfixed, -⟩ := Rule.exists_fixed?_of_fixedText? t hrule rfl
      have hpattern := Rule.fixed?_eq_some_iff.mp hfixed
      exact ⟨f, hpattern, answersLongest_closings hpattern⟩
    lineEnds := answersLongest_lineEnds t }

theorem searchesRules_of_ofRules_call : ∃ t, ofRules (callRules true) = .ok t ∧
    t.index.SearchesRules (callRules true) := by
  have hsome : (tokens? (callRules true) callText).isSome = true := by decide +kernel
  obtain ⟨t, tokens, ht, -⟩ := exists_of_isSome_tokens? hsome
  exact ⟨t, ht, searchesRules_of_ofRules ht⟩

end Tokenizer

end RuleLexer
