import RuleLexer.Proofs.Checked
import RuleLexer.Proofs.Longest

/-!
The index in which rules have numbers finds what the index of their patterns finds. Both are read
off one list, of the runs or the fixed texts of the rules together with their numbers.

* `numbered`: what the rules stand for, with the numbers of the rules;
* `entryFor?`: the first run for a character; `charClass_eq_of_entryFor?` says that runs found so
  are told apart by their numbers as they are by their classes;
* `entriesFrom`: the fixed texts that begin with a character;
* `Tokenizer.runFor?_numbered`, `Tokenizer.candidatesFrom_numbered`, `Tokenizer.lineEnds_numbered`,
  `Tokenizer.isEscape_numbered`, `Tokenizer.closings_numbered`: the parts of the numbered index.
-/

namespace RuleLexer

variable {κ : Type}

/-! ### Numbered lists -/

section Numbered

variable {β : Type} {f : Rule κ → Option β} {rules : List (Rule κ)}

/-- What the rules stand for, each with the number of its rule. -/
def numbered (f : Rule κ → Option β) (rules : List (Rule κ)) : List (ℕ × β) :=
  rules.zipIdx.filterMap fun entry => (f entry.1).map (entry.2, ·)

lemma map_snd_numbered (f : Rule κ → Option β) (rules : List (Rule κ)) :
    (numbered f rules).map (·.2) = rules.filterMap f := by
  have hsnd : ∀ entry : Rule κ × ℕ,
      ((f entry.1).map (entry.2, ·)).map (·.2) = f entry.1 := by
    intro entry
    cases f entry.1 <;> rfl
  have hrules : rules.zipIdx.map Prod.fst = rules := List.zipIdx_map_fst ..
  rw [numbered, List.map_filterMap]
  simp only [hsnd]
  conv_rhs => rw [← hrules, List.filterMap_map]
  rfl

/-- The number is that of a rule that stands for the value. -/
lemma getElem?_of_mem_numbered {n : ℕ} {b : β} (h : (n, b) ∈ numbered f rules) :
    ∃ rule, rules[n]? = some rule ∧ f rule = some b := by
  obtain ⟨⟨rule, m⟩, hentry, hb⟩ := List.mem_filterMap.mp h
  obtain ⟨b', hb', heq⟩ := Option.map_eq_some_iff.mp hb
  obtain ⟨rfl, rfl⟩ : m = n ∧ b' = b := by simpa using heq
  exact ⟨rule, List.mem_zipIdx_iff_getElem?.mp hentry, hb'⟩

end Numbered

/-! ### Runs -/

/-- The run that a rule recognises, if it is one. -/
def Rule.run? : Rule κ → Option (CharRun κ)
  | run kind charClass discard => some ⟨kind, charClass, discard⟩
  | _ => none

/-- The first run that accepts `c`, with the number of its rule. -/
def entryFor? (rules : List (Rule κ)) (c : Char) : Option (ℕ × CharRun κ) :=
  (numbered Rule.run? rules).find? (·.2.charClass.accepts c)

/-- What is found first for two characters is the same when each would do for the other. -/
lemma eq_of_find? {α : Type} {p q : α → Bool} {l : List α} {a b : α} (ha : l.find? p = some a)
    (hb : l.find? q = some b) (hpb : p b = true) (hqa : q a = true) : a = b := by
  induction l with
  | nil => cases ha
  | cons x l ih =>
      by_cases hp : p x = true
      · obtain rfl : x = a := by simpa [hp] using ha
        simpa [hqa] using hb
      · by_cases hq : q x = true
        · obtain rfl : x = b := by simpa [hq] using hb
          exact absurd hpb hp
        · refine ih ?_ ?_
          · simpa [hp] using ha
          · simpa [hq] using hb

section Runs

variable {rules : List (Rule κ)} {c d : Char} {n n' : ℕ} {r r' : CharRun κ}

/-- The number is that of the run. -/
lemma getElem?_of_entryFor? (h : entryFor? rules c = some (n, r)) :
    rules[n]? = some (.run r.kind r.charClass r.discard) := by
  obtain ⟨rule, hrule, hrun⟩ := getElem?_of_mem_numbered (List.mem_of_find?_eq_some h)
  cases rule with
  | run kind charClass discard =>
      obtain rfl : _ = r := Option.some.inj hrun
      exact hrule
  | literal kind text discard => cases hrun
  | delimited kind opening closings nested discard => cases hrun
  | escape char => cases hrun

/-- Runs that are found first are told apart by their numbers as they are by their classes. -/
lemma charClass_eq_of_entryFor? (h : entryFor? rules c = some (n, r))
    (h' : entryFor? rules d = some (n', r')) : r'.charClass = r.charClass ↔ n' = n := by
  constructor
  · intro hclass
    have hc := List.find?_some h
    have hd := List.find?_some h'
    -- of the runs of one class only the first is ever found
    have heq := eq_of_find? h h' (by simpa [hclass] using hc) (by simpa [hclass] using hd)
    exact (congrArg Prod.fst heq).symm
  · rintro rfl
    have hrules := (getElem?_of_entryFor? h).symm.trans (getElem?_of_entryFor? h')
    obtain ⟨-, hclass, -⟩ :
        r.kind = r'.kind ∧ r.charClass = r'.charClass ∧ r.discard = r'.discard := by
      simpa using hrules
    exact hclass.symm

end Runs

/-! ### Fixed texts -/

/-- The fixed text under the number of its rule. -/
def FixedText.candidate (n : ℕ) (f : FixedText κ) : Candidate :=
  ⟨n, f.marker.chars, f.breaksLine⟩

namespace Rule

/-- The pattern of a rule is a run just when the rule is. -/
lemma bind_run?_pattern (rule : Rule κ) : rule.pattern.toOption.bind Pattern.run? = rule.run? := by
  cases rule with
  | run kind charClass discard => rfl
  | escape char => rfl
  | literal kind text discard =>
      rw [pattern]
      split <;> rfl
  | delimited kind opening closings nested discard =>
      rw [pattern]
      split <;> rfl

/-- The fixed text of a well-formed rule, with its number. -/
lemma candidate?_of_pattern {rule : Rule κ} {p : Pattern κ} (h : rule.pattern = .ok p) (n : ℕ) :
    rule.candidate? n = rule.fixed?.map (FixedText.candidate n) := by
  rw [fixed?, h]
  cases rule with
  | run kind charClass discard =>
      obtain rfl : _ = p := Except.ok.inj h
      rfl
  | escape char =>
      obtain rfl : _ = p := Except.ok.inj h
      rfl
  | literal kind text discard =>
      obtain ⟨marker, htext, rfl⟩ := eq_of_pattern_literal h
      simp [candidate?, htext, Except.toOption, Pattern.fixed?, FixedText.candidate,
        FixedText.breaksLine, Marker.breaksLine]
  | delimited kind opening closings nested discard =>
      obtain ⟨marker, markers, htext, -, rfl⟩ := eq_of_pattern_delimited h
      cases nested <;>
        simp [candidate?, htext, Except.toOption, Pattern.fixed?, FixedText.candidate,
          FixedText.breaksLine]

/-- The closing markers of a rule with a fixed text. -/
lemma closingTexts_of_fixed? {rule : Rule κ} {f : FixedText κ} (h : rule.fixed? = some f) :
    rule.closingTexts = f.inside.closings.map Marker.chars := by
  rw [fixed?_eq_some_iff] at h
  cases rule with
  | run kind charClass discard => cases h
  | escape char => cases h
  | literal kind text discard =>
      obtain ⟨marker, -, heq⟩ := eq_of_pattern_literal h
      obtain rfl := Pattern.fixed.inj heq
      rfl
  | delimited kind opening closings nested discard =>
      obtain ⟨marker, markers, -, hclosings, heq⟩ := eq_of_pattern_delimited h
      obtain rfl := Pattern.fixed.inj heq
      rw [closingTexts, hclosings, stableSort_map]
      cases nested <;> rfl

/-- What kind of rule a fixed text comes from is said by what follows it. -/
lemma eq_of_fixed? {rule : Rule κ} {f : FixedText κ} (h : rule.fixed? = some f) :
    match f.inside with
    | .nothing => ∃ text, rule = .literal f.kind text f.discard
    | .nested _ => ∃ opening closings, rule = .delimited f.kind opening closings true f.discard
    | .raw _ => ∃ opening closings, rule = .delimited f.kind opening closings false f.discard := by
  rw [fixed?_eq_some_iff] at h
  cases rule with
  | run kind charClass discard => cases h
  | escape char => cases h
  | literal kind text discard =>
      obtain ⟨marker, -, heq⟩ := eq_of_pattern_literal h
      obtain rfl := Pattern.fixed.inj heq
      exact ⟨text, rfl⟩
  | delimited kind opening closings nested discard =>
      obtain ⟨marker, markers, -, -, heq⟩ := eq_of_pattern_delimited h
      obtain rfl := Pattern.fixed.inj heq
      cases nested <;> exact ⟨opening, closings, rfl⟩

end Rule

/-- The fixed texts that begin with `c`, with the numbers of their rules, the longest first. -/
def entriesFrom (rules : List (Rule κ)) (c : Char) : List (ℕ × FixedText κ) :=
  stableSort (fun a b => b.2.marker.length ≤ a.2.marker.length)
    ((numbered Rule.fixed? rules).filter (·.2.marker.lead = c))

/-- The number is that of a rule with the fixed text. -/
lemma getElem?_of_mem_entriesFrom {rules : List (Rule κ)} {c : Char} {n : ℕ} {f : FixedText κ}
    (h : (n, f) ∈ entriesFrom rules c) :
    ∃ rule, rules[n]? = some rule ∧ rule.fixed? = some f := by
  rw [entriesFrom, mem_stableSort, List.mem_filter] at h
  exact getElem?_of_mem_numbered h.1

/-- Dropping repeated elements commutes with an injective map. -/
lemma eraseDups_map {α β : Type} [BEq α] [LawfulBEq α] [BEq β] [LawfulBEq β] {f : α → β}
    (hf : Function.Injective f) (l : List α) : (l.map f).eraseDups = l.eraseDups.map f := by
  -- the tail is filtered before it is looked at, so the induction is on the length
  induction hn : l.length using Nat.strong_induction_on generalizing l with
  | _ n ih =>
      cases l with
      | nil => rfl
      | cons a l =>
          have hfilter :
              (l.map f).filter (fun b => !b == f a) = (l.filter fun b => !b == a).map f := by
            rw [List.filter_map]
            congr 1
            refine List.filter_congr fun b _ => ?_
            by_cases hb : b = a <;> simp [hb, hf.eq_iff]
          have hlt : (l.filter fun b => !b == a).length < n := by
            have hle := List.length_filter_le (fun b => !b == a) l
            rw [← hn, List.length_cons]
            omega
          rw [List.map_cons, List.eraseDups_cons, List.eraseDups_cons, hfilter, ih _ hlt _ rfl,
            List.map_cons]

/-! ### The numbered index of a tokenizer -/

namespace Tokenizer

variable (t : Tokenizer κ)

lemma declared_numbered : NumberedIndex.declared t.rules
    = (numbered Rule.fixed? t.rules).map fun entry => entry.2.candidate entry.1 := by
  rw [NumberedIndex.declared, numbered, List.map_filterMap]
  refine List.filterMap_congr fun entry hentry => ?_
  obtain ⟨p, -, hp⟩ := t.exists_pattern_of_rule (List.fst_mem_of_mem_zipIdx hentry)
  rw [Rule.candidate?_of_pattern hp, Option.map_map]
  rfl

/-- The runs are those of the rules, in their order. -/
lemma runs_eq (t : Tokenizer κ) : t.index.runs = t.rules.filterMap Rule.run? := by
  rw [t.index_eq]
  simp only [MatchIndex.ofPatterns, t.filterMap_patterns, Rule.bind_run?_pattern]

lemma declared_patterns :
    Pattern.declared t.patterns = (numbered Rule.fixed? t.rules).map (·.2) := by
  rw [map_snd_numbered, t.declared_eq]

/-- Both indexes find the same run, one by the number of its rule. -/
lemma runFor?_numbered (c : Char) :
    (NumberedIndex.ofRules t.rules).runFor? c = (entryFor? t.rules c).map (·.1) ∧
      t.index.runFor? c = (entryFor? t.rules c).map (·.2) := by
  have hruns : (NumberedIndex.ofRules t.rules).runs
      = (numbered Rule.run? t.rules).map fun entry => (entry.1, entry.2.charClass) := by
    rw [numbered, List.map_filterMap]
    refine List.filterMap_congr fun entry _ => ?_
    cases hrule : entry.1 <;> rfl
  have hindex : t.index.runs = (numbered Rule.run? t.rules).map (·.2) := by
    rw [map_snd_numbered, t.runs_eq]
  constructor
  · rw [NumberedIndex.runFor?, hruns, List.find?_map, Option.map_map]
    rfl
  · rw [MatchIndex.runFor?, hindex, List.find?_map]
    rfl

/-- Both indexes compare the same fixed texts in the same order. -/
lemma candidatesFrom_numbered (c : Char) :
    (NumberedIndex.ofRules t.rules).candidatesFrom c
        = (entriesFrom t.rules c).map (fun entry => entry.2.candidate entry.1) ∧
      t.index.fixedTextsFrom c = (entriesFrom t.rules c).map (·.2) := by
  have hpairs : (NumberedIndex.declared t.rules).filterMap (fun k => k.text.head?.map (·, k))
      = (numbered Rule.fixed? t.rules).map fun entry =>
        (entry.2.marker.lead, entry.2.candidate entry.1) := by
    rw [t.declared_numbered, List.filterMap_map, ← List.filterMap_eq_map]
    rfl
  constructor
  · have hgroup := MultiMap.getD_get?_ofList ((numbered Rule.fixed? t.rules).map fun entry =>
      (entry.2.marker.lead, entry.2.candidate entry.1)) c
    rw [List.filter_map, List.map_map] at hgroup
    simp only [NumberedIndex.candidatesFrom, NumberedIndex.ofRules, hpairs,
      MultiMap.getD_get?_sortGroups, hgroup]
    exact stableSort_map (fun entry : ℕ × FixedText κ => entry.2.candidate entry.1) _
  · rw [t.index_eq, MatchIndex.fixedTextsFrom_ofPatterns, ← Pattern.declared, t.declared_patterns,
      List.filter_map, stableSort_map]
    rfl

/-- Both indexes have the same line ends. -/
lemma lineEnds_numbered :
    (NumberedIndex.ofRules t.rules).lineEnds = t.index.lineEnds.map Marker.chars := by
  have htexts : ((NumberedIndex.declared t.rules).filter (·.endsLine)).map (·.text)
      = (((Pattern.declared t.patterns).filter FixedText.breaksLine).map (·.marker)).map
        Marker.chars := by
    rw [t.declared_numbered, t.declared_patterns]
    simp only [List.filter_map, List.map_map]
    rfl
  rw [t.index_eq]
  simp only [NumberedIndex.ofRules, htexts, eraseDups_map fun _ _ => Marker.chars_injective]
  exact stableSort_map Marker.chars _

lemma isEscape_numbered (c : Char) :
    (NumberedIndex.ofRules t.rules).isEscape c = t.index.isEscape c := by
  rw [Bool.eq_iff_iff, t.isEscape_iff, ← mem_escapeChars, NumberedIndex.isEscape,
    List.contains_iff_mem]
  exact List.mem_eraseDups

/-- The closing markers under the number of a rule with a fixed text. -/
lemma closings_numbered {n : ℕ} {rule : Rule κ} {f : FixedText κ} (hn : t.rules[n]? = some rule)
    (hf : rule.fixed? = some f) :
    (NumberedIndex.ofRules t.rules).closings[n]? = some (f.inside.closings.map Marker.chars) := by
  rw [← Rule.closingTexts_of_fixed? hf]
  simp [NumberedIndex.ofRules, hn]

end Tokenizer

end RuleLexer
