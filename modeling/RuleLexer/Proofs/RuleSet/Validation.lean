import Mathlib.Order.Bounds.Basic
import RuleLexer.RuleSet.Basic
import RuleLexer.Proofs.Markers
import RuleLexer.Proofs.Results

/-!
Checking a rule set and building its tokenizer find the same malformed rule.

* `Rule.HasDefect`: the defects of a rule, said apart from the check; a rule can have several;
* `Rule.FirstDefect`, `RuleError.BlamesFirst`: the defect that comes first in the order of
  `RuleDefect.rank`, and the error that blames it on the first malformed rule;
* `Rule.defect?_eq_some_iff`, `Rule.pattern_of_defect`, `Rule.exists_pattern`: the check finds the
  first defect, and so does the making of a pattern;
* `Rule.validateAll_eq_map`: over a list of rules both stop at the same place;
* `RuleSet.blames_first`: all this about one rule set.
-/

namespace RuleLexer

variable {κ : Type}

/-! ### The defects of a rule -/

/-- A defect of a rule. Where an opening marker is empty there can be another one among the closing
markers. -/
inductive Rule.HasDefect : Rule κ → RuleDefect → Prop where
  | emptyLiteral (kind : κ) (discard : Bool) : HasDefect (.literal kind "" discard) .emptyLiteral
  | emptyOpening (kind : κ) (closings : List String) (nested discard : Bool) :
      HasDefect (.delimited kind "" closings nested discard) .emptyOpening
  | noClosing (kind : κ) (opening : String) (nested discard : Bool) :
      HasDefect (.delimited kind opening [] nested discard) .noClosing
  | emptyClosing (kind : κ) (opening : String) {closings : List String} (nested discard : Bool)
      (h : "" ∈ closings) :
      HasDefect (.delimited kind opening closings nested discard) .emptyClosing

/-- The place of a defect among the defects. -/
def RuleDefect.rank : RuleDefect → Nat
  | emptyLiteral => 0
  | emptyOpening => 1
  | noClosing => 2
  | emptyClosing => 3

lemma RuleDefect.rank_injective : Function.Injective rank := by
  intro d d' h
  cases d <;> cases d' <;> first | rfl | cases h

namespace Rule

/-- The rule has a defect. -/
def Malformed (rule : Rule κ) : Prop :=
  ∃ d, rule.HasDefect d

/-- Of the defects of the rule this one comes first. -/
structure FirstDefect (rule : Rule κ) (d : RuleDefect) : Prop where
  has : rule.HasDefect d
  first : ∀ d', rule.HasDefect d' → d.rank ≤ d'.rank

lemma FirstDefect.malformed {rule : Rule κ} {d : RuleDefect} (h : rule.FirstDefect d) :
    rule.Malformed :=
  ⟨d, h.has⟩

lemma FirstDefect.unique {rule : Rule κ} {d d' : RuleDefect} (h : rule.FirstDefect d)
    (h' : rule.FirstDefect d') : d = d' :=
  RuleDefect.rank_injective (Nat.le_antisymm (h.first d' h'.has) (h'.first d h.has))

/-! ### The check of one rule -/

/-- A rule that passes the check has no defect. -/
lemma not_malformed_of_defect? {rule : Rule κ} (h : rule.defect? = none) : ¬ rule.Malformed := by
  rintro ⟨d, hd⟩
  cases hd with
  | emptyLiteral => cases h
  | emptyOpening => cases h
  | noClosing kind opening =>
      simp only [defect?] at h
      split_ifs at h
  | emptyClosing kind opening _ _ hmem =>
      simp only [defect?, if_pos hmem] at h
      split_ifs at h

/-- A defect that the check finds comes first. -/
lemma firstDefect_of_defect? {rule : Rule κ} {d : RuleDefect} (h : rule.defect? = some d) :
    rule.FirstDefect d := by
  cases rule with
  | run | escape => cases h
  | literal kind text discard =>
      simp only [defect?] at h
      split_ifs at h with htext
      subst htext
      cases h
      exact ⟨.emptyLiteral .., fun d' hd' => Nat.zero_le _⟩
  | delimited kind opening closings nested discard =>
      simp only [defect?] at h
      split_ifs at h with hopening hclosings hmem
      · subst hopening
        cases h
        exact ⟨.emptyOpening .., fun d' hd' => by cases hd' <;> decide⟩
      · subst hclosings
        cases h
        refine ⟨.noClosing .., fun d' hd' => ?_⟩
        cases hd' with
        | emptyOpening => exact absurd rfl hopening
        | noClosing => exact Nat.le_refl _
        | emptyClosing => decide
      · cases h
        refine ⟨.emptyClosing _ _ _ _ hmem, fun d' hd' => ?_⟩
        cases hd' with
        | emptyOpening => exact absurd rfl hopening
        | noClosing => exact absurd rfl hclosings
        | emptyClosing => exact Nat.le_refl _

/-- **The check**: it finds the first defect. -/
theorem defect?_eq_some_iff {rule : Rule κ} {d : RuleDefect} :
    rule.defect? = some d ↔ rule.FirstDefect d := by
  refine ⟨firstDefect_of_defect?, fun hd => ?_⟩
  cases h : rule.defect? with
  | none => exact absurd hd.malformed (not_malformed_of_defect? h)
  | some d' => rw [(firstDefect_of_defect? h).unique hd]

theorem defect?_eq_none_iff {rule : Rule κ} : rule.defect? = none ↔ ¬ rule.Malformed := by
  refine ⟨not_malformed_of_defect?, fun hrule => ?_⟩
  cases h : rule.defect? with
  | none => rfl
  | some d => exact absurd (firstDefect_of_defect? h).malformed hrule

end Rule

/-! ### The pattern of one rule -/

lemma Marker.ofString?_eq_none_iff {s : String} : ofString? s = none ↔ s = "" := by
  rw [ofString?, ← String.toList_eq_nil_iff]
  cases s.toList with
  | nil => simp
  | cons c cs => simp

lemma Marker.ne_empty_of_ofString? {s : String} {m : Marker} (h : ofString? s = some m) :
    s ≠ "" := by
  intro hs
  rw [ofString?_eq_none_iff.mpr hs] at h
  cases h

/-- Texts are markers unless one of them is empty. -/
lemma Marker.mapM_ofString?_eq_none_iff {texts : List String} :
    texts.mapM ofString? = none ↔ "" ∈ texts := by
  induction texts with
  | nil => simp
  | cons s texts ih =>
      rw [List.mapM_cons, List.mem_cons, ← ih]
      cases hs : ofString? s with
      | none => simp [ofString?_eq_none_iff.mp hs]
      | some m =>
          have hne : "" ≠ s := (ne_empty_of_ofString? hs).symm
          cases texts.mapM ofString? with
          | none => simp
          | some markers => simp [hne]

lemma Marker.not_mem_of_mapM_ofString? {texts : List String} {markers : List Marker}
    (h : texts.mapM ofString? = some markers) : "" ∉ texts := by
  rw [← mapM_ofString?_eq_none_iff, h]
  exact Option.some_ne_none markers

namespace Rule

variable {rule : Rule κ}

/-- What keeps a rule from having a pattern is what the check finds. -/
lemma defect?_of_pattern_error {d : RuleDefect} (h : rule.pattern = .error d) :
    rule.defect? = some d := by
  cases rule with
  | run | escape => cases h
  | literal kind text discard =>
      rw [pattern] at h
      split at h
      · rename_i htext
        cases h
        exact if_pos (Marker.ofString?_eq_none_iff.mp htext)
      · cases h
  | delimited kind opening closings nested discard =>
      rw [pattern] at h
      split at h
      · rename_i hopening
        cases h
        exact if_pos (Marker.ofString?_eq_none_iff.mp hopening)
      · rename_i hopening hclosings
        cases h
        have hempty : closings = [] := by simpa using Marker.map_toList_of_mapM hclosings
        rw [defect?, if_neg (Marker.ne_empty_of_ofString? hopening), if_pos hempty]
      · rename_i hopening hclosings
        cases h
        have hmem : "" ∈ closings := Marker.mapM_ofString?_eq_none_iff.mp hclosings
        rw [defect?, if_neg (Marker.ne_empty_of_ofString? hopening),
          if_neg (List.ne_nil_of_mem hmem), if_pos hmem]
      · cases h

/-- A rule with a pattern passes the check. -/
lemma defect?_of_pattern {p : Pattern κ} (h : rule.pattern = .ok p) : rule.defect? = none := by
  cases rule with
  | run | escape => rfl
  | literal kind text discard =>
      rw [pattern] at h
      split at h
      · cases h
      · rename_i marker htext
        exact if_neg (Marker.ne_empty_of_ofString? htext)
  | delimited kind opening closings nested discard =>
      rw [pattern] at h
      split at h
      · cases h
      · cases h
      · cases h
      · rename_i marker markers hmarkers hopening hclosings
        have hne : closings ≠ [] := by
          rintro rfl
          exact hmarkers (Option.some_inj.mp hclosings).symm
        rw [defect?, if_neg (Marker.ne_empty_of_ofString? hopening), if_neg hne,
          if_neg (Marker.not_mem_of_mapM_ofString? hclosings)]

end Rule

/-! ### The first malformed rule -/

/-- The error blames the first of the malformed rules for the first of its defects. -/
structure RuleError.BlamesFirst (rules : List (Rule κ)) (e : RuleError) : Prop where
  least : IsLeast {i | ∃ rule, rules[i]? = some rule ∧ rule.Malformed} e.index
  first : ∃ rule, rules[e.index]? = some rule ∧ rule.FirstDefect e.defect

namespace RuleError

variable {rule : Rule κ} {rules : List (Rule κ)} {n : ℕ} {d : RuleDefect}

lemma not_blamesFirst_nil (e : RuleError) : ¬ e.BlamesFirst ([] : List (Rule κ)) := by
  rintro ⟨-, rule, hrule, -⟩
  cases hrule

/-- A malformed rule at the front takes the blame. -/
lemma blamesFirst_cons_of_malformed (h : rule.FirstDefect d) {d' : RuleDefect} :
    BlamesFirst (rule :: rules) ⟨n, d'⟩ ↔ n = 0 ∧ d' = d := by
  constructor
  · rintro ⟨hleast, rule', hrule', hfirst⟩
    obtain rfl : n = 0 := Nat.le_zero.mp (hleast.2 ⟨rule, rfl, h.malformed⟩)
    obtain rfl : rule = rule' := Option.some_inj.mp hrule'
    exact ⟨rfl, hfirst.unique h⟩
  · rintro ⟨rfl, rfl⟩
    exact ⟨⟨⟨rule, rfl, h.malformed⟩, fun i _ => Nat.zero_le i⟩, rule, rfl, h⟩

/-- A well-formed rule at the front leaves the blame to the rules behind it. -/
lemma blamesFirst_cons_of_not_malformed (h : ¬ rule.Malformed) :
    BlamesFirst (rule :: rules) ⟨n, d⟩ ↔ ∃ m, n = m + 1 ∧ BlamesFirst rules ⟨m, d⟩ := by
  constructor
  · rintro ⟨⟨hn, hlower⟩, hfirst⟩
    cases n with
    | zero =>
        obtain ⟨rule', hrule', hmalformed⟩ := hn
        obtain rfl : rule = rule' := Option.some_inj.mp hrule'
        exact absurd hmalformed h
    | succ m =>
        exact ⟨m, rfl, ⟨hn, fun i hi => Nat.le_of_succ_le_succ (hlower (a := i + 1) hi)⟩, hfirst⟩
  · rintro ⟨m, rfl, ⟨hm, hlower⟩, hfirst⟩
    refine ⟨⟨hm, ?_⟩, hfirst⟩
    rintro (_ | i) ⟨rule', hrule', hmalformed⟩
    · obtain rfl : rule = rule' := Option.some_inj.mp hrule'
      exact absurd hmalformed h
    · exact Nat.succ_le_succ (hlower ⟨rule', hrule', hmalformed⟩)

end RuleError

/-- Checking the rules and making their patterns stop at the same place. -/
theorem Rule.validateAll_eq_map (rules : List (Rule κ)) (i : ℕ) :
    validateAll i rules = (Pattern.ofRules i rules).map fun _ => () := by
  induction rules generalizing i with
  | nil => rfl
  | cons rule rules ih =>
      rw [validateAll, validate, Pattern.ofRules]
      cases h : rule.pattern with
      | error d => simp only [defect?_of_pattern_error h, Except.map]
      | ok p =>
          simp only [defect?_of_pattern h, ih]
          cases Pattern.ofRules (i + 1) rules <;> rfl

/-- **Blame**: the check ends in the error that blames the first malformed rule, counted from the
place of the rule at the front. -/
theorem Rule.validateAll_eq_error_iff {rules : List (Rule κ)} {i j : ℕ} {d : RuleDefect} :
    validateAll i rules = .error ⟨j, d⟩ ↔ ∃ n, j = i + n ∧ RuleError.BlamesFirst rules ⟨n, d⟩ := by
  induction rules generalizing i with
  | nil =>
      constructor
      · intro h
        cases h
      · rintro ⟨n, -, hblames⟩
        exact absurd hblames (RuleError.not_blamesFirst_nil _)
  | cons rule rules ih =>
      rw [validateAll, validate]
      cases h : rule.defect? with
      | some d' =>
          simp only [RuleError.blamesFirst_cons_of_malformed (defect?_eq_some_iff.mp h)]
          constructor
          · intro he
            cases he
            exact ⟨0, rfl, rfl, rfl⟩
          · rintro ⟨n, rfl, rfl, rfl⟩
            rfl
      | none =>
          simp only [ih, RuleError.blamesFirst_cons_of_not_malformed (defect?_eq_none_iff.mp h)]
          constructor
          · rintro ⟨m, rfl, hblames⟩
            exact ⟨m + 1, Nat.succ_add_eq_add_succ i m, m, rfl, hblames⟩
          · rintro ⟨n, rfl, m, rfl, hblames⟩
            exact ⟨m, (Nat.succ_add_eq_add_succ i m).symm, hblames⟩

/-- Rules pass the check when none is malformed. -/
theorem Rule.validateAll_eq_ok_iff {rules : List (Rule κ)} {i : ℕ} :
    validateAll i rules = .ok () ↔ ∀ rule ∈ rules, ¬ rule.Malformed := by
  induction rules generalizing i with
  | nil => exact iff_of_true rfl (List.forall_mem_nil _)
  | cons rule rules ih =>
      rw [validateAll, validate, List.forall_mem_cons, ← defect?_eq_none_iff, ← ih (i := i + 1)]
      cases rule.defect? with
      | none => simp
      | some d => simp

/-! ### Rule sets -/

namespace RuleSet

/-- Checking a rule set and building its tokenizer fail together. -/
lemma validate_eq_map (s : RuleSet κ) : s.validate = s.build.map fun _ => () := by
  rw [validate, Rule.validateAll_eq_map, build, Tokenizer.ofRules]
  split <;> simp_all only [Except.map]

/-- **Validation**: checking a rule set and building its tokenizer fail with the same error, which
blames the first malformed rule for the first of its defects. Where no rule is malformed there is a
tokenizer, and it has these rules. -/
theorem blames_first (s : RuleSet κ) :
    (∀ e, s.validate = .error e ↔ s.build = .error e) ∧
    (∀ e, s.build = .error e ↔ e.BlamesFirst s.rules) ∧
    ((∃ t, s.build = .ok t ∧ t.rules = s.rules) ↔ ∀ rule ∈ s.rules, ¬ rule.Malformed) := by
  have hfail : ∀ e, s.validate = .error e ↔ s.build = .error e := by
    intro e
    rw [validate_eq_map]
    cases s.build with
    | error e' => rw [Except.map, Except.error.injEq, Except.error.injEq]
    | ok t => simp only [Except.map, reduceCtorEq]
  refine ⟨hfail, fun e => ?_, ?_⟩
  · -- places are counted from that of the first rule, which is 0
    rw [← hfail, validate, Rule.validateAll_eq_error_iff]
    simp only [Nat.zero_add, exists_eq_left']
  · rw [← Rule.validateAll_eq_ok_iff (i := 0), ← validate, validate_eq_map]
    constructor
    · rintro ⟨t, ht, -⟩
      rw [ht]
      rfl
    · intro h
      obtain ⟨t, ht, -⟩ := exists_of_map_ok h
      exact ⟨t, ht, Tokenizer.eq_of_ofRules ht⟩

/-- The second rule is malformed in two ways and the third in one. Without them there is a
tokenizer. -/
theorem blames_first_sections :
    let s := ofRules [.literal 'a' "a", .delimited 'b' "" [""], .literal 'c' ""]
    let s' := ofRules [.literal 'a' "a", .delimited 'b' "<" [">"]]
    s.validate = .error ⟨1, .emptyOpening⟩ ∧ s.build = .error ⟨1, .emptyOpening⟩ ∧
    RuleError.BlamesFirst s.rules ⟨1, .emptyOpening⟩ ∧
    (∀ rule ∈ s'.rules, ¬ rule.Malformed) ∧ ∃ t, s'.build = .ok t ∧ t.rules = s'.rules := by
  intro s s'
  obtain ⟨hfail, hblames, -⟩ := blames_first s
  obtain ⟨-, -, hbuild⟩ := blames_first s'
  have hvalidate : s.validate = .error ⟨1, .emptyOpening⟩ := rfl
  have herror : s.build = .error ⟨1, .emptyOpening⟩ := (hfail _).mp hvalidate
  have hrules : ∀ rule ∈ s'.rules, ¬ rule.Malformed :=
    Rule.validateAll_eq_ok_iff.mp (show Rule.validateAll 0 s'.rules = .ok () from rfl)
  exact ⟨hvalidate, herror, (hblames _).mp herror, hrules, hbuild.mpr hrules⟩

end RuleSet

end RuleLexer
