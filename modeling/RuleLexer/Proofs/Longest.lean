import RuleLexer.Proofs.Lookahead

/-!
Which marker is found, said without the index: the longest one that stands there. Of the fixed
texts with this marker it is the first one declared.

* `filter_stableSort`: sorting keeps the order of equals;
* `Marker.eq_of_occursAt`: at one place there is at most one marker of each length;
* `Marker.firstAt?_longestFirst_eq_some_iff`: of markers by falling length the longest is found;
* `FixedText.IsBest`: the fixed text is the one to be found, by the rules alone;
* `Rule.fixed?`, `Tokenizer.mem_declared_iff`: the fixed text of a rule; these are the ones declared;
* `MatchIndex.fixedFrom?_eq_some_iff`, `MatchIndex.fixedFrom?_eq_none_iff`: it is what the index
  finds, and the index finds nothing just when no fixed text stands there.
-/

namespace RuleLexer

variable {κ : Type}

/-! ### Stability -/

section Sorting

variable {α : Type} {le : α → α → Bool} {q : α → Bool}

/-- An element is put in front of its equals. -/
lemma filter_insertSorted (hq : ∀ a b, q a = true → q b = true → le a b = true) (a : α)
    (l : List α) : (insertSorted le a l).filter q = (a :: l).filter q := by
  induction l with
  | nil => rfl
  | cons b l ih =>
      by_cases hab : le a b = true
      · rw [insertSorted, if_pos hab]
      · rw [insertSorted, if_neg hab, List.filter_cons, ih]
        -- `a` passes `b`, so at most one of the two is among the equals
        have hnot : ¬ (q a = true ∧ q b = true) := fun h => hab (hq a b h.1 h.2)
        by_cases ha : q a = true
        · have hb : q b = false := by simpa [ha] using hnot
          simp [ha, hb]
        · simp [List.filter_cons, ha]

/-- **Stability**: sorting keeps the order of equals. -/
theorem filter_stableSort (hq : ∀ a b, q a = true → q b = true → le a b = true) (l : List α) :
    (stableSort le l).filter q = l.filter q := by
  induction l with
  | nil => rfl
  | cons a l ih => rw [stableSort, filter_insertSorted hq, List.filter_cons, ih, List.filter_cons]

/-- What is found first after sorting is the first of its equals. -/
lemma find?_of_find?_stableSort (hq : ∀ a b, q a = true → q b = true → le a b = true)
    {p : α → Bool} {l : List α} {a : α} (h : (stableSort le l).find? p = some a)
    (hp : ∀ b, q b = true → p b = true) (ha : q a = true) : l.find? q = some a := by
  have hsorted : (stableSort le l).find? q = some a := (find?_of_imp fun b _ => hp b).2 a h ha
  rw [← List.head?_filter, filter_stableSort hq, List.head?_filter] at hsorted
  exact hsorted

end Sorting

/-! ### Markers -/

namespace Marker

variable {markers markers' : List Marker} {rest : List Char} {m m' : Marker}

lemma chars_injective (h : m.chars = m'.chars) : m = m' := by
  obtain ⟨lead, tail⟩ := m
  obtain ⟨lead', tail'⟩ := m'
  obtain ⟨rfl, rfl⟩ : lead = lead' ∧ tail = tail' := List.cons.inj h
  rfl

/-- At one place there is at most one marker of each length. -/
lemma eq_of_occursAt (h : m.occursAt rest = true) (h' : m'.occursAt rest = true)
    (hlength : m.length = m'.length) : m = m' :=
  chars_injective ((List.prefix_of_prefix_length_le (occursAt_iff.mp h) (occursAt_iff.mp h')
    hlength.le).eq_of_length hlength)

lemma occursAt_cons_iff {lead : Char} {after : List Char} :
    m.occursAt (lead :: after) = true ↔ m.lead = lead ∧ m.tail.isPrefixOf after = true := by
  rw [occursAt_iff, List.isPrefixOf_iff_prefix]
  exact List.cons_prefix_cons

/-- A marker is found where one stands. -/
lemma firstAt?_isSome_iff :
    (firstAt? markers rest).isSome = true ↔ ∃ m ∈ markers, m.occursAt rest = true :=
  List.find?_isSome

/-- **The longest marker**: of markers by falling length the longest is found that stands there. -/
theorem firstAt?_longestFirst_eq_some_iff :
    firstAt? (longestFirst markers) rest = some m ↔
      m ∈ markers ∧ m.occursAt rest = true ∧
        ∀ m' ∈ markers, m'.occursAt rest = true → m'.length ≤ m.length := by
  constructor
  · intro h
    exact ⟨mem_stableSort.mp (List.mem_of_find?_eq_some h), occursAt_of_firstAt? h,
      fun m' hm' hoccurs => length_le_of_firstAt? h hm' hoccurs⟩
  · rintro ⟨hm, hoccurs, hlongest⟩
    have hsome : (firstAt? (longestFirst markers) rest).isSome = true :=
      firstAt?_isSome_iff.mpr ⟨m, mem_stableSort.mpr hm, hoccurs⟩
    obtain ⟨found, hfound⟩ := Option.isSome_iff_exists.mp hsome
    have hfoundAt := occursAt_of_firstAt? hfound
    have hle := length_le_of_firstAt? hfound hm hoccurs
    have hge := hlongest found (mem_stableSort.mp (List.mem_of_find?_eq_some hfound)) hfoundAt
    rw [hfound, eq_of_occursAt hfoundAt hoccurs (le_antisymm hge hle)]

/-- What is found does not depend on the order in which the markers are given. -/
lemma firstAt?_longestFirst_congr (h : ∀ m, m ∈ markers ↔ m ∈ markers') (rest : List Char) :
    firstAt? (longestFirst markers) rest = firstAt? (longestFirst markers') rest := by
  refine Option.ext fun m => ?_
  simp only [firstAt?_longestFirst_eq_some_iff, h]

end Marker

/-! ### Fixed texts -/

/-- Of the fixed texts that are declared, `f` is the one to be found at the front of `text`: it
stands there, no longer one does, and it is the first one declared with its marker. -/
structure FixedText.IsBest (declared : List (FixedText κ)) (text : List Char) (f : FixedText κ) :
    Prop where
  occurs : f.marker.occursAt text = true
  longest : ∀ g ∈ declared, g.marker.occursAt text = true → g.marker.length ≤ f.marker.length
  first : declared.find? (·.marker = f.marker) = some f

/-- There is at most one to be found. -/
lemma FixedText.IsBest.marker_eq {declared declared' : List (FixedText κ)} {text : List Char}
    {f g : FixedText κ} (h : f.IsBest declared text) (h' : g.IsBest declared' text)
    (hf : ∃ f' ∈ declared', f'.marker = f.marker) (hg : ∃ g' ∈ declared, g'.marker = g.marker) :
    f.marker = g.marker := by
  obtain ⟨f', hf', hfm⟩ := hf
  obtain ⟨g', hg', hgm⟩ := hg
  have hle := h'.longest f' hf' (hfm ▸ h.occurs)
  have hge := h.longest g' hg' (hgm ▸ h'.occurs)
  rw [hfm] at hle
  rw [hgm] at hge
  exact Marker.eq_of_occursAt h.occurs h'.occurs (le_antisymm hle hge)

/-- The fixed texts of the patterns, in the order of their declaration. -/
def Pattern.declared (patterns : List (Pattern κ)) : List (FixedText κ) :=
  patterns.filterMap fixed?

namespace MatchIndex

open Pattern (declared)

variable {patterns : List (Pattern κ)} {lead : Char} {after : List Char} {f : FixedText κ}

lemma mem_declared_of_fixedTextsFrom (h : f ∈ (ofPatterns patterns).fixedTextsFrom lead) :
    f ∈ declared patterns ∧ f.marker.lead = lead := by
  rw [fixedTextsFrom_ofPatterns, mem_stableSort, List.mem_filter] at h
  exact ⟨h.1, of_decide_eq_true h.2⟩

lemma mem_fixedTextsFrom_of_declared (h : f ∈ declared patterns)
    (hoccurs : f.marker.occursAt (lead :: after) = true) :
    f ∈ (ofPatterns patterns).fixedTextsFrom lead := by
  rw [fixedTextsFrom_ofPatterns, mem_stableSort, List.mem_filter]
  exact ⟨h, decide_eq_true (Marker.occursAt_cons_iff.mp hoccurs).1⟩

/-- Nothing is found where no fixed text stands. -/
theorem fixedFrom?_eq_none_iff : (ofPatterns patterns).fixedFrom? lead after = none ↔
    ∀ g ∈ declared patterns, g.marker.occursAt (lead :: after) = false := by
  constructor
  · intro h g hg
    by_contra hoccurs
    have htrue : g.marker.occursAt (lead :: after) = true := by simpa using hoccurs
    exact List.find?_eq_none.mp h g (mem_fixedTextsFrom_of_declared hg htrue)
      (Marker.occursAt_cons_iff.mp htrue).2
  · intro h
    refine List.find?_eq_none.mpr fun g hg htail => ?_
    obtain ⟨hdeclared, hlead⟩ := mem_declared_of_fixedTextsFrom hg
    have hoccurs := Marker.occursAt_cons_iff.mpr ⟨hlead, htail⟩
    rw [h g hdeclared] at hoccurs
    cases hoccurs

/-- What the index finds is the one to be found. -/
lemma isBest_of_fixedFrom? (h : (ofPatterns patterns).fixedFrom? lead after = some f) :
    f.IsBest (declared patterns) (lead :: after) := by
  obtain ⟨hdeclared, hlead⟩ := mem_declared_of_fixedTextsFrom (List.mem_of_find?_eq_some h)
  have htail := List.find?_some h
  refine ⟨Marker.occursAt_cons_iff.mpr ⟨hlead, htail⟩, ?_, ?_⟩
  · intro g hg hoccurs
    exact length_le_of_fixedFrom? h (mem_fixedTextsFrom_of_declared hg hoccurs)
      (Marker.occursAt_cons_iff.mp hoccurs).2
  · rw [fixedFrom?, fixedTextsFrom_ofPatterns] at h
    -- the fixed texts with the same marker are equals for the sort, and all of them stand here
    have hfirst := find?_of_find?_stableSort (q := fun g => decide (g.marker = f.marker)) ?_ h ?_ ?_
    · rw [List.find?_filter] at hfirst
      refine (List.find?_congr fun g _ => ?_).trans hfirst
      by_cases hg : g.marker = f.marker <;> simp [hg, hlead]
    · intro a b ha hb
      simp only [decide_eq_true_eq] at ha hb ⊢
      rw [ha, hb]
    · intro b hb
      rw [of_decide_eq_true hb]
      exact htail
    · exact decide_eq_true rfl

/-- **The index** finds the longest fixed text that stands there, and of several with its marker the
one declared first. -/
theorem fixedFrom?_eq_some_iff : (ofPatterns patterns).fixedFrom? lead after = some f ↔
    f.IsBest (declared patterns) (lead :: after) := by
  refine ⟨isBest_of_fixedFrom?, fun h => ?_⟩
  have hf : f ∈ declared patterns := List.mem_of_find?_eq_some h.first
  cases hfound : (ofPatterns patterns).fixedFrom? lead after with
  | none =>
      have hnot := fixedFrom?_eq_none_iff.mp hfound f hf
      rw [h.occurs] at hnot
      cases hnot
  | some g =>
      have hbest := isBest_of_fixedFrom? hfound
      have hg : g ∈ declared patterns := List.mem_of_find?_eq_some hbest.first
      have hmarker : g.marker = f.marker := hbest.marker_eq h ⟨g, hg, rfl⟩ ⟨f, hf, rfl⟩
      have hfirst := hbest.first
      rw [hmarker, h.first] at hfirst
      exact hfirst.symm

end MatchIndex

/-! ### The fixed texts of rules -/

namespace Rule

/-- The text that the rule is looked up by: that of a literal, the opening marker of a section. -/
def fixedText? : Rule κ → Option String
  | literal _ text _ => some text
  | delimited _ opening _ _ _ => some opening
  | run .. => none
  | escape _ => none

/-- The fixed text of a well-formed rule that has one. -/
def fixed? (r : Rule κ) : Option (FixedText κ) :=
  r.pattern.toOption.bind Pattern.fixed?

variable {r : Rule κ}

lemma fixed?_eq_some_iff {f : FixedText κ} : r.fixed? = some f ↔ r.pattern = .ok (.fixed f) := by
  rw [fixed?]
  cases hp : r.pattern with
  | error defect => simp [Except.toOption]
  | ok p => cases p <;> simp [Except.toOption, Pattern.fixed?]

/-- The fixed text begins with the text that the rule is looked up by. -/
lemma fixedText?_of_fixed? {f : FixedText κ} (h : r.fixed? = some f) :
    r.fixedText? = some (String.ofList f.marker.chars) := by
  cases fixedBy_of_pattern (fixed?_eq_some_iff.mp h) with
  | literal text htext => simp only [fixedText?, ← htext, String.ofList_toList]
  | delimited opening closings nested htext => simp only [fixedText?, ← htext, String.ofList_toList]

end Rule

namespace Tokenizer

/-- The patterns are those of the rules, in their order. -/
lemma filterMap_patterns {β : Type} (t : Tokenizer κ) (f : Pattern κ → Option β) :
    t.patterns.filterMap f = t.rules.filterMap fun r => r.pattern.toOption.bind f := by
  have hforall := Pattern.forall₂_of_ofRules t.patterns_eq
  generalize t.rules = rules, t.patterns = patterns at hforall
  induction hforall with
  | nil => rfl
  | cons hrule hrest ih =>
      rw [List.filterMap_cons, List.filterMap_cons, ih, hrule]
      rfl

/-- The fixed texts that are declared are those of the rules, in their order. -/
lemma declared_eq (t : Tokenizer κ) : Pattern.declared t.patterns = t.rules.filterMap Rule.fixed? :=
  t.filterMap_patterns Pattern.fixed?

lemma mem_declared_iff (t : Tokenizer κ) {f : FixedText κ} :
    f ∈ Pattern.declared t.patterns ↔ ∃ r ∈ t.rules, r.fixed? = some f := by
  rw [t.declared_eq, List.mem_filterMap]

end Tokenizer

end RuleLexer
