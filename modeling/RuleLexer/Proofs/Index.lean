import Mathlib.Tactic
import RuleLexer.Tokenizer

/-!
What the index of a list of rules holds.

* `Tokenizer.ofRules_rules`: every tokenizer is the tokenizer of its rules, so what holds of all
  tokenizers holds of all lists of well-formed rules;
* `MultiMap.getD_get?_ofList`: the values under a key, in the order in which they came;
* `MatchIndex.fixedTextsFrom_ofPatterns`: the fixed texts that begin with a character are those
  declared, the longest first;
* `Tokenizer.exists_rule_of_run`, `Tokenizer.exists_rule_of_fixed`: whatever the index holds comes
  from one of the rules;
* `MatchIndex.KeepsAll`: nothing that the index finds is discarded, as when no rule discards.
-/

namespace RuleLexer

variable {κ : Type}

/-! ### Stable sorting of mapped lists -/

lemma insertSorted_map {α β : Type} {le : β → β → Bool} (f : α → β) (a : α) (l : List α) :
    insertSorted le (f a) (l.map f)
      = (insertSorted (fun x y => le (f x) (f y)) a l).map f := by
  induction l with
  | nil => rfl
  | cons b l ih =>
      simp only [List.map_cons, insertSorted]
      split
      · rfl
      · rw [ih, List.map_cons]

/-- Sorting commutes with a map that keeps the order. -/
lemma stableSort_map {α β : Type} {le : β → β → Bool} (f : α → β) (l : List α) :
    stableSort le (l.map f) = (stableSort (fun x y => le (f x) (f y)) l).map f := by
  induction l with
  | nil => rfl
  | cons a l ih => rw [List.map_cons, stableSort, stableSort, ih, insertSorted_map]

lemma mem_stableSort {α : Type} {le : α → α → Bool} {a : α} {l : List α} :
    a ∈ stableSort le l ↔ a ∈ l :=
  (perm_stableSort le l).mem_iff

/-! ### Groups of values -/

namespace MultiMap

variable {ι α : Type} [DecidableEq ι]

/-- An insertion adds to the group of its key and leaves the others alone. -/
lemma get?_insert (m : MultiMap ι α) (k k' : ι) (a : α) :
    (m.insert k a).get? k' = if k = k' then some ((m.get? k).getD [] ++ [a]) else m.get? k' := by
  obtain ⟨groups⟩ := m
  simp only [insert, get?]
  induction groups with
  | nil => by_cases h : k = k' <;> simp [insertGroup, h]
  | cons group rest ih =>
      obtain ⟨k₀, g⟩ := group
      by_cases h₀ : k₀ = k
      · subst h₀
        by_cases h : k₀ = k' <;> simp [insertGroup, h]
      · by_cases h' : k₀ = k'
        · subst h'
          simp [insertGroup, h₀, Ne.symm h₀]
        · simpa [insertGroup, h₀, h'] using ih

/-- The values under a key are those inserted under it, in this order. -/
lemma getD_get?_ofList (pairs : List (ι × α)) (k : ι) :
    ((ofList pairs).get? k).getD [] = (pairs.filter (·.1 = k)).map (·.2) := by
  -- the map that the values are added to is arbitrary
  have key : ∀ m : MultiMap ι α,
      ((pairs.foldl (fun m pair => m.insert pair.1 pair.2) m).get? k).getD []
        = (m.get? k).getD [] ++ (pairs.filter (·.1 = k)).map (·.2) := by
    induction pairs with
    | nil => simp
    | cons pair pairs ih =>
        intro m
        rw [List.foldl_cons, ih, get?_insert]
        by_cases h : pair.1 = k
        · subst h
          simp
        · simp [h]
  simpa [ofList, empty, get?] using key empty

/-- Sorting sorts the values under every key. -/
lemma get?_sortGroups (m : MultiMap ι α) (le : α → α → Bool) (k : ι) :
    (m.sortGroups le).get? k = (m.get? k).map (stableSort le) := by
  simp only [get?, sortGroups, List.find?_map, Option.map_map]
  rfl

lemma getD_get?_sortGroups (m : MultiMap ι α) (le : α → α → Bool) (k : ι) :
    ((m.sortGroups le).get? k).getD [] = stableSort le ((m.get? k).getD []) := by
  rw [get?_sortGroups]
  cases m.get? k <;> rfl

variable {β : Type}

/-- The map with the same keys and with `f` applied to all values. -/
def map (f : α → β) (m : MultiMap ι α) : MultiMap ι β :=
  ⟨m.groups.map fun (k, g) => (k, g.map f)⟩

lemma get?_map (f : α → β) (m : MultiMap ι α) (k : ι) :
    (m.map f).get? k = (m.get? k).map (List.map f) := by
  simp only [get?, map, List.find?_map, Option.map_map]
  rfl

lemma map_insert (f : α → β) (m : MultiMap ι α) (k : ι) (a : α) :
    (m.insert k a).map f = (m.map f).insert k (f a) := by
  obtain ⟨groups⟩ := m
  simp only [insert, map, mk.injEq]
  induction groups with
  | nil => rfl
  | cons group rest ih =>
      obtain ⟨k', g⟩ := group
      by_cases h : k' = k
      · simp [insertGroup, h]
      · simpa [insertGroup, h] using ih

lemma map_ofList (f : α → β) (pairs : List (ι × α)) :
    (ofList pairs).map f = ofList (pairs.map fun pair => (pair.1, f pair.2)) := by
  have key : ∀ m : MultiMap ι α,
      (pairs.foldl (fun m pair => m.insert pair.1 pair.2) m).map f
        = (pairs.map fun pair => (pair.1, f pair.2)).foldl
            (fun m pair => m.insert pair.1 pair.2) (m.map f) := by
    induction pairs with
    | nil => exact fun _ => rfl
    | cons pair pairs ih =>
        intro m
        rw [List.foldl_cons, ih, map_insert, List.map_cons, List.foldl_cons]
  exact key empty

omit [DecidableEq ι] in
/-- Sorting the groups commutes with a map that keeps the order. -/
lemma map_sortGroups (f : α → β) (m : MultiMap ι α) (le : β → β → Bool) :
    (m.sortGroups fun a b => le (f a) (f b)).map f = (m.map f).sortGroups le := by
  simp only [map, sortGroups, List.map_map, mk.injEq]
  refine List.map_congr_left fun group _ => ?_
  simp only [Function.comp_apply, stableSort_map]

end MultiMap

/-! ### Rules and their patterns -/

namespace Pattern

/-- The kind of the tokens of the pattern, if it has tokens. -/
def kind? : Pattern κ → Option κ
  | run r => some r.kind
  | fixed f => some f.kind
  | escape _ => none

/-- Whether the tokens of the pattern are discarded. -/
def discards : Pattern κ → Bool
  | run r => r.discard
  | fixed f => f.discard
  | escape _ => false

/-- The patterns stand in the order of their rules. -/
lemma forall₂_of_ofRules {i : ℕ} {rules : List (Rule κ)} {patterns : List (Pattern κ)}
    (h : ofRules i rules = .ok patterns) :
    List.Forall₂ (fun rule pattern => rule.pattern = .ok pattern) rules patterns := by
  induction rules generalizing i patterns with
  | nil =>
      obtain rfl : [] = patterns := Except.ok.inj h
      exact .nil
  | cons rule rules ih =>
      rw [ofRules] at h
      cases hrule : rule.pattern with
      | error defect => simp [hrule] at h
      | ok pattern =>
          simp only [hrule] at h
          cases hrest : ofRules (i + 1) rules with
          | error e => simp [hrest, Except.map] at h
          | ok rest =>
              rw [hrest] at h
              obtain rfl : pattern :: rest = patterns := Except.ok.inj h
              exact .cons hrule (ih hrest)

/-- Where every rule has a pattern, the rules have. -/
lemma exists_ofRules {rules : List (Rule κ)} (h : ∀ rule ∈ rules, ∃ p, rule.pattern = .ok p)
    (i : ℕ) : ∃ patterns, ofRules i rules = .ok patterns := by
  induction rules generalizing i with
  | nil => exact ⟨[], rfl⟩
  | cons rule rules ih =>
      obtain ⟨p, hp⟩ := h rule List.mem_cons_self
      obtain ⟨patterns, hpatterns⟩ := ih (fun r hr => h r (List.mem_cons_of_mem rule hr)) (i + 1)
      refine ⟨p :: patterns, ?_⟩
      simp only [ofRules, hp, hpatterns, Except.map]

end Pattern

/-- A pattern keeps the kind and the flag of its rule. -/
lemma Rule.kind?_of_pattern {rule : Rule κ} {pattern : Pattern κ} (h : rule.pattern = .ok pattern) :
    rule.kind? = pattern.kind? ∧ rule.discards = pattern.discards := by
  cases rule with
  | run kind charClass discard =>
      obtain rfl : _ = pattern := Except.ok.inj h
      exact ⟨rfl, rfl⟩
  | literal kind text discard =>
      rw [Rule.pattern] at h
      split at h
      · cases h
      · obtain rfl : _ = pattern := Except.ok.inj h
        exact ⟨rfl, rfl⟩
  | delimited kind opening closings nested discard =>
      rw [Rule.pattern] at h
      split at h
      · cases h
      · cases h
      · cases h
      · obtain rfl : _ = pattern := Except.ok.inj h
        exact ⟨rfl, rfl⟩
  | escape char =>
      obtain rfl : _ = pattern := Except.ok.inj h
      exact ⟨rfl, rfl⟩

/-! ### What the index finds -/

namespace MatchIndex

/-- The fixed texts that begin with a character are those declared, the longest first. -/
theorem fixedTextsFrom_ofPatterns (patterns : List (Pattern κ)) (c : Char) :
    (ofPatterns patterns).fixedTextsFrom c
      = stableSort (fun a b => b.marker.length ≤ a.marker.length)
          ((patterns.filterMap Pattern.fixed?).filter (·.marker.lead = c)) := by
  have hgroup := MultiMap.getD_get?_ofList
    ((patterns.filterMap Pattern.fixed?).map fun f => (f.marker.lead, f)) c
  rw [List.filter_map, List.map_map] at hgroup
  simp only [Function.comp_def, List.map_id'] at hgroup
  simp only [fixedTextsFrom, ofPatterns, MultiMap.getD_get?_sortGroups, hgroup]

lemma mem_runs_ofPatterns {patterns : List (Pattern κ)} {r : CharRun κ} :
    r ∈ (ofPatterns patterns).runs ↔ .run r ∈ patterns := by
  simp only [ofPatterns, List.mem_filterMap]
  constructor
  · rintro ⟨p, hp, hr⟩
    cases p with
    | run r' =>
        obtain rfl : r' = r := by simpa [Pattern.run?] using hr
        exact hp
    | fixed f => cases hr
    | escape c => cases hr
  · exact fun h => ⟨_, h, rfl⟩

lemma mem_fixedTextsFrom_ofPatterns {patterns : List (Pattern κ)} {f : FixedText κ} {c : Char} :
    f ∈ (ofPatterns patterns).fixedTextsFrom c ↔ .fixed f ∈ patterns ∧ f.marker.lead = c := by
  rw [fixedTextsFrom_ofPatterns, mem_stableSort, List.mem_filter, List.mem_filterMap]
  simp only [decide_eq_true_eq]
  refine and_congr_left fun _ => ⟨?_, fun h => ⟨_, h, rfl⟩⟩
  rintro ⟨p, hp, hf⟩
  cases p with
  | run r => cases hf
  | fixed f' =>
      obtain rfl : f' = f := by simpa [Pattern.fixed?] using hf
      exact hp
  | escape c => cases hf

lemma mem_runs_of_runFor? {ix : MatchIndex κ} {c : Char} {r : CharRun κ}
    (h : ix.runFor? c = some r) : r ∈ ix.runs :=
  List.mem_of_find?_eq_some h

/-- A fixed text that is found is looked up by the character that it begins with. It covers what it
is compared with, and the escape character before that. -/
lemma fixedFrom?_of_fixedAt? {ix : MatchIndex κ} {rest : List Char} {m : FixedMatch κ}
    (h : ix.fixedAt? rest = some m) : ∃ lead after, ix.fixedFrom? lead after = some m.text ∧
      rest.length = (if m.escaped then 1 else 0) + (after.length + 1) := by
  match rest, h with
  | [c], h =>
      obtain ⟨f, hf, rfl⟩ := Option.map_eq_some_iff.mp h
      exact ⟨c, [], hf, rfl⟩
  | c :: next :: after, h =>
      rw [fixedAt?] at h
      split at h
      · obtain ⟨f, hf, rfl⟩ := Option.map_eq_some_iff.mp h
        refine ⟨unescape next, after, hf, ?_⟩
        simp only [List.length_cons, if_true]
        omega
      · obtain ⟨f, hf, rfl⟩ := Option.map_eq_some_iff.mp h
        refine ⟨c, next :: after, hf, ?_⟩
        simp

/-- A fixed text that is found is one of those that begin with some character. -/
lemma mem_fixedTextsFrom_of_fixedAt? {ix : MatchIndex κ} {rest : List Char} {m : FixedMatch κ}
    (h : ix.fixedAt? rest = some m) : ∃ lead, m.text ∈ ix.fixedTextsFrom lead := by
  obtain ⟨lead, after, hf, -⟩ := fixedFrom?_of_fixedAt? h
  exact ⟨lead, List.mem_of_find?_eq_some hf⟩

/-- The match of a fixed text lies within the text. -/
lemma length_le_of_fixedAt? {ix : MatchIndex κ} {rest : List Char} {m : FixedMatch κ}
    (h : ix.fixedAt? rest = some m) : m.length ≤ rest.length := by
  obtain ⟨lead, after, hf, hlength⟩ := fixedFrom?_of_fixedAt? h
  have hprefix := List.find?_some hf
  have htail := (List.isPrefixOf_iff_prefix.mp hprefix).length_le
  rw [hlength, FixedMatch.length, Marker.length, Marker.chars, List.length_cons]
  omega

end MatchIndex

/-! ### Tokenizers and their rules -/

namespace Tokenizer

lemma eq_of_ofRules {rules : List (Rule κ)} {t : Tokenizer κ} (h : ofRules rules = .ok t) :
    t.rules = rules := by
  rw [ofRules] at h
  split at h
  · cases h
  · obtain rfl := Except.ok.inj h
    rfl

/-- Every tokenizer is the tokenizer of its rules. -/
lemma ofRules_rules (t : Tokenizer κ) : ofRules t.rules = .ok t := by
  obtain ⟨rules, patterns, index, hpatterns, rfl⟩ := t
  rw [ofRules]
  split
  · rename_i e he
    rw [hpatterns] at he
    cases he
  · rename_i patterns' hpatterns'
    rw [hpatterns] at hpatterns'
    obtain rfl := Except.ok.inj hpatterns'
    rfl

/-- Rules that all have patterns have a tokenizer. -/
lemma exists_of_patterns {rules : List (Rule κ)} (h : ∀ rule ∈ rules, ∃ p, rule.pattern = .ok p) :
    ∃ t, ofRules rules = .ok t := by
  obtain ⟨patterns, hpatterns⟩ := Pattern.exists_ofRules h 0
  exact ⟨_, ofRules_rules ⟨rules, patterns, .ofPatterns patterns, hpatterns, rfl⟩⟩

/-- Every pattern of a tokenizer is the pattern of one of its rules. -/
lemma exists_rule_of_pattern (t : Tokenizer κ) {pattern : Pattern κ}
    (h : pattern ∈ t.patterns) : ∃ rule ∈ t.rules, rule.pattern = .ok pattern := by
  have hforall := Pattern.forall₂_of_ofRules t.patterns_eq
  obtain ⟨i, hi, rfl⟩ := List.getElem_of_mem h
  have hlen := hforall.length_eq
  exact ⟨t.rules[i], List.getElem_mem _, (List.forall₂_iff_get.mp hforall).2 i (by omega) hi⟩

/-- The rule of a run that the tokenizer finds. -/
lemma exists_rule_of_run (t : Tokenizer κ) {c : Char} {r : CharRun κ}
    (h : t.index.runFor? c = some r) :
    ∃ rule ∈ t.rules, rule.kind? = some r.kind ∧ rule.discards = r.discard := by
  have hmem := MatchIndex.mem_runs_of_runFor? h
  rw [t.index_eq, MatchIndex.mem_runs_ofPatterns] at hmem
  obtain ⟨rule, hrule, hpattern⟩ := t.exists_rule_of_pattern hmem
  exact ⟨rule, hrule, Rule.kind?_of_pattern hpattern⟩

/-- The rule of a fixed text that the tokenizer finds. -/
lemma exists_rule_of_fixed (t : Tokenizer κ) {rest : List Char} {m : FixedMatch κ}
    (h : t.index.fixedAt? rest = some m) :
    ∃ rule ∈ t.rules, rule.kind? = some m.text.kind ∧ rule.discards = m.text.discard := by
  obtain ⟨lead, hmem⟩ := MatchIndex.mem_fixedTextsFrom_of_fixedAt? h
  rw [t.index_eq, MatchIndex.mem_fixedTextsFrom_ofPatterns] at hmem
  obtain ⟨rule, hrule, hpattern⟩ := t.exists_rule_of_pattern hmem.1
  exact ⟨rule, hrule, Rule.kind?_of_pattern hpattern⟩

/-- The tokens of a text by a list of rules, if the rules are well-formed and nothing stops
tokenizing. -/
def tokens? (rules : List (Rule κ)) (text : String) : Option (TokenList κ) :=
  (ofRules rules).toOption.bind fun t => (t.tokenize text).toOption

lemma exists_of_tokens? {rules : List (Rule κ)} {text : String} {tokens : TokenList κ}
    (h : tokens? rules text = some tokens) :
    ∃ t, ofRules rules = .ok t ∧ t.tokenize text = .ok tokens := by
  rw [tokens?] at h
  cases ht : ofRules rules with
  | error e => simp [ht, Except.toOption] at h
  | ok t =>
      cases htokens : t.tokenize text with
      | error e => simp [ht, htokens, Except.toOption] at h
      | ok tokens' =>
          obtain rfl : tokens' = tokens := by simpa [ht, htokens, Except.toOption] using h
          exact ⟨t, rfl, htokens⟩

lemma exists_of_isSome_tokens? {rules : List (Rule κ)} {text : String}
    (h : (tokens? rules text).isSome = true) :
    ∃ t tokens, ofRules rules = .ok t ∧ t.tokenize text = .ok tokens := by
  obtain ⟨tokens, htokens⟩ := Option.isSome_iff_exists.mp h
  obtain ⟨t, ht, h⟩ := exists_of_tokens? htokens
  exact ⟨t, tokens, ht, h⟩

end Tokenizer

/-- Nothing that the index finds is discarded. -/
structure MatchIndex.KeepsAll (ix : MatchIndex κ) : Prop where
  run : ∀ {c r}, ix.runFor? c = some r → r.discard = false
  fixed : ∀ {rest m}, ix.fixedAt? rest = some m → m.text.discard = false

/-- When no rule discards, nothing that the index finds is discarded. -/
lemma Tokenizer.keepsAll_index {t : Tokenizer κ} (h : ∀ rule ∈ t.rules, rule.discards = false) :
    t.index.KeepsAll where
  run hr := by
    obtain ⟨rule, hrule, -, hdiscard⟩ := t.exists_rule_of_run hr
    rw [← hdiscard, h rule hrule]
  fixed hm := by
    obtain ⟨rule, hrule, -, hdiscard⟩ := t.exists_rule_of_fixed hm
    rw [← hdiscard, h rule hrule]

/-! ### A sample -/

/-- Rules for calls with words, quoted texts and notes as arguments. The blanks and the notes are
discarded on demand. -/
def callRules (quiet : Bool) : List (Rule String) := [
  .run "word" .letter,
  .run "blank" .whitespace quiet,
  .literal "assign" "=",
  .literal "equal" "==",
  .delimited "quote" "\"" ["\""],
  .delimited "call" "(" [")"] true,
  .delimited "note" "<" [">"] true quiet,
  .escape '\\']

/-- A text of calls. -/
def callText : String := "f (x \"b\\\"\" <a (note)>) == \\=c"

end RuleLexer
