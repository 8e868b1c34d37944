import RuleLexer.Proofs.Refinement

/-!
Discarding erases tokens and does nothing else.

* `Rule.kept`, `Pattern.kept`, `MatchIndex.kept`: a rule, a pattern and an index with nothing
  discarded; `MatchIndex.ofPatterns_kept` and `Pattern.ofRules_kept` say that these belong together;
* `MatchIndex.ahead_kept`: what stands at a place is the same with nothing discarded;
* `TokenList.without`: tokens without those of some kinds, at every depth;
* `level_eq_without`: a level is the level with nothing discarded, without the discarded kinds;
* `tokenize_eq_without`: the same for the tokens and for the error of a text.
-/

namespace RuleLexer

variable {κ : Type}

/-! ### Nothing discarded -/

/-- The rule with its matches kept. -/
def Rule.kept : Rule κ → Rule κ
  | run kind charClass _ => run kind charClass false
  | literal kind text _ => literal kind text false
  | delimited kind opening closings nested _ => delimited kind opening closings nested false
  | escape char => escape char

/-- The run with its matches kept. -/
def CharRun.kept (r : CharRun κ) : CharRun κ :=
  { r with discard := false }

/-- The fixed text with its matches kept. -/
def FixedText.kept (f : FixedText κ) : FixedText κ :=
  { f with discard := false }

/-- The match of the fixed text with its matches kept. -/
def FixedMatch.kept (m : FixedMatch κ) : FixedMatch κ :=
  { m with text := m.text.kept }

/-- The pattern with its matches kept. -/
def Pattern.kept : Pattern κ → Pattern κ
  | run r => run r.kept
  | fixed f => fixed f.kept
  | escape c => escape c

/-- What is ahead, with everything kept. -/
def Ahead.kept : Ahead κ → Ahead κ
  | levelEnd => levelEnd
  | fixed m => fixed m.kept
  | run r length => run r.kept length
  | nothing => nothing

/-- The index with everything kept. -/
def MatchIndex.kept (ix : MatchIndex κ) : MatchIndex κ :=
  { ix with
    runs := ix.runs.map CharRun.kept
    fixedTexts := ix.fixedTexts.map FixedText.kept }

/-- The pattern of a rule that is kept is kept. -/
lemma Rule.pattern_kept (rule : Rule κ) : rule.kept.pattern = rule.pattern.map Pattern.kept := by
  cases rule with
  | run kind charClass discard => rfl
  | literal kind text discard =>
      simp only [kept, pattern]
      split <;> rfl
  | delimited kind opening closings nested discard =>
      simp only [kept, pattern]
      split <;> rfl
  | escape char => rfl

/-- The patterns of rules that are kept are kept. -/
lemma Pattern.ofRules_kept (i : ℕ) (rules : List (Rule κ)) :
    ofRules i (rules.map Rule.kept) = (ofRules i rules).map (List.map kept) := by
  induction rules generalizing i with
  | nil => rfl
  | cons rule rules ih =>
      rw [List.map_cons, ofRules, ofRules, Rule.pattern_kept]
      cases rule.pattern with
      | error defect => rfl
      | ok pattern =>
          simp only [Except.map, ih]
          cases ofRules (i + 1) rules <;> rfl

namespace MatchIndex

/-- The index of patterns that are kept is kept. -/
lemma ofPatterns_kept (patterns : List (Pattern κ)) :
    ofPatterns (patterns.map Pattern.kept) = (ofPatterns patterns).kept := by
  have hruns : (patterns.map Pattern.kept).filterMap Pattern.run?
      = (patterns.filterMap Pattern.run?).map CharRun.kept := by
    rw [List.filterMap_map, List.map_filterMap]
    exact List.filterMap_congr fun p _ => by cases p <;> rfl
  have hfixed : (patterns.map Pattern.kept).filterMap Pattern.fixed?
      = (patterns.filterMap Pattern.fixed?).map FixedText.kept := by
    rw [List.filterMap_map, List.map_filterMap]
    exact List.filterMap_congr fun p _ => by cases p <;> rfl
  have hescapes : (patterns.map Pattern.kept).filterMap Pattern.escape?
      = patterns.filterMap Pattern.escape? := by
    rw [List.filterMap_map]
    exact List.filterMap_congr fun p _ => by cases p <;> rfl
  have hbreaks : (FixedText.breaksLine ∘ FixedText.kept : FixedText κ → Bool)
      = FixedText.breaksLine := rfl
  simp only [ofPatterns, kept, hruns, hfixed, hescapes, mk.injEq, true_and]
  refine ⟨?_, ?_⟩
  · have hsort := MultiMap.map_sortGroups FixedText.kept
      (MultiMap.ofList ((patterns.filterMap Pattern.fixed?).map fun f => (f.marker.lead, f)))
      (fun a b => b.marker.length ≤ a.marker.length)
    rw [MultiMap.map_ofList, List.map_map] at hsort
    rw [List.map_map]
    exact hsort.symm
  · simp only [List.filter_map, hbreaks, List.map_map]
    rfl

variable (ix : MatchIndex κ)

lemma runFor?_kept (c : Char) : ix.kept.runFor? c = (ix.runFor? c).map CharRun.kept :=
  List.find?_map ..

lemma runPlace?_kept (c : Char) : ix.kept.runPlace? c = ix.runPlace? c :=
  List.findIdx?_map ..

lemma fixedFrom?_kept (lead : Char) (after : List Char) :
    ix.kept.fixedFrom? lead after = (ix.fixedFrom? lead after).map FixedText.kept := by
  have hfrom : ix.kept.fixedTextsFrom lead = (ix.fixedTextsFrom lead).map FixedText.kept := by
    simp only [fixedTextsFrom, kept, MultiMap.get?_map]
    cases ix.fixedTexts.get? lead <;> rfl
  rw [fixedFrom?, hfrom, List.find?_map]
  rfl

lemma fixedAt?_kept (rest : List Char) :
    ix.kept.fixedAt? rest = (ix.fixedAt? rest).map FixedMatch.kept := by
  match rest with
  | [] => rfl
  | [c] =>
      simp only [fixedAt?, fixedFrom?_kept, Option.map_map]
      rfl
  | c :: next :: after =>
      have hescape : ix.kept.isEscape c = ix.isEscape c := rfl
      simp only [fixedAt?, hescape, fixedFrom?_kept]
      split
      · simp only [Option.map_map]
        rfl
      · simp only [Option.map_map]
        rfl

/-- What stands at a place does not depend on what is discarded. -/
lemma ahead_kept (closings : List Marker) (rest : List Char) :
    ix.kept.ahead closings rest = (ix.ahead closings rest).kept := by
  cases rest with
  | nil => rfl
  | cons c after =>
      have hspan : ix.kept.spanLength closings (ix.kept.runPlace? c) (c :: after)
          = ix.spanLength closings (ix.runPlace? c) (c :: after) := by
        simp only [spanLength, runPlace?_kept]
      simp only [ahead, hspan, fixedAt?_kept, runFor?_kept]
      split
      · rfl
      · cases ix.fixedAt? (c :: after) with
        | some m => rfl
        | none => cases ix.runFor? c <;> rfl

lemma ahead_kept_of_ahead {closings : List Marker} {rest : List Char} {a : Ahead κ}
    (h : ix.ahead closings rest = a) : ix.kept.ahead closings rest = a.kept := by
  rw [ahead_kept, h]

/-- Neither does the inside of a section that is taken as it stands. -/
lemma captureFrom_kept (ends : List Marker) (decoded : List Char) (c : Cursor) :
    ix.kept.captureFrom ends decoded c = ix.captureFrom ends decoded c := by
  have hstep : ∀ rest, ix.kept.rawStep ends rest = ix.rawStep ends rest := fun _ => rfl
  fun_induction captureFrom ix ends decoded c with
  | case1 decoded c hr => rw [captureFrom_eq, hstep, hr]
  | case2 decoded c m hr => rw [captureFrom_eq, hstep, hr]
  | case3 decoded c p hr ih =>
      rw [captureFrom_eq, hstep, hr]
      exact ih

lemma capture_kept (ends : List Marker) (c : Cursor) :
    ix.kept.capture ends c = ix.capture ends c :=
  ix.captureFrom_kept ends [] c

end MatchIndex

/-! ### Tokens without some kinds -/

section Without

variable [DecidableEq κ]

mutual

/-- The token without the tokens inside whose kinds are in `kinds`. -/
def Token.without (kinds : List κ) : Token κ → Token κ
  | ⟨kind, text, nested, delimiters, position, span⟩ =>
      ⟨kind, text, TokenList.without kinds nested, delimiters, position, span⟩

/-- The tokens without those whose kinds are in `kinds`, at every depth. A token that is left out
takes the tokens inside with it. -/
def TokenList.without (kinds : List κ) : List (Token κ) → List (Token κ)
  | [] => []
  | t :: ts =>
      if t.kind ∈ kinds then TokenList.without kinds ts
      else t.without kinds :: TokenList.without kinds ts

end

variable {kinds : List κ}

lemma Token.without_of_nested_eq_nil {t : Token κ} (h : t.nested = []) : t.without kinds = t := by
  obtain ⟨kind, text, nested, delimiters, position, span⟩ := t
  obtain rfl : nested = [] := h
  rfl

/-- A token is left out together with the flag of its rule, when its kind tells that it is
discarded. -/
lemma TokenList.without_unlessDiscarded {discard : Bool} {token token' : Token κ}
    (hkind : token'.kind ∈ kinds ↔ discard = true) (htoken : token'.without kinds = token)
    (tokens : TokenList κ) :
    TokenList.without kinds (token'.unlessDiscarded false ++ tokens)
      = token.unlessDiscarded discard ++ TokenList.without kinds tokens := by
  cases discard with
  | true =>
      have hmem : token'.kind ∈ kinds := hkind.mpr rfl
      simp [Token.unlessDiscarded, TokenList.without, hmem]
  | false =>
      have hmem : token'.kind ∉ kinds := fun h => by simpa using hkind.mp h
      simp [Token.unlessDiscarded, TokenList.without, hmem, htoken]

/-- The stretch without the tokens whose kinds are in `kinds`. It covers as much as before. -/
def Stretch.without (kinds : List κ) (s : Stretch κ) : Stretch κ :=
  { s with tokens := TokenList.without kinds s.tokens }

lemma Stretch.map_after_without {x : Except ScanError (Stretch κ)} {c next : Cursor}
    {discard : Bool} {token token' : Token κ} (hkind : token'.kind ∈ kinds ↔ discard = true)
    (htoken : token'.without kinds = token) :
    (x.map (Stretch.without kinds)).map (·.after c next discard token)
      = (x.map (·.after c next false token')).map (Stretch.without kinds) := by
  cases x with
  | error e => rfl
  | ok s =>
      simp only [Except.map, Stretch.after, Stretch.without,
        TokenList.without_unlessDiscarded hkind htoken]

end Without

/-! ### Levels -/

/-- The kinds tell what is discarded. -/
structure MatchIndex.Discards (ix : MatchIndex κ) (kinds : List κ) : Prop where
  run : ∀ {c r}, ix.runFor? c = some r → (r.kind ∈ kinds ↔ r.discard = true)
  fixed : ∀ {rest m}, ix.fixedAt? rest = some m → (m.text.kind ∈ kinds ↔ m.text.discard = true)

/-- **Levels**: a level is the level with everything kept, without the kinds that are discarded. -/
theorem level_eq_without [DecidableEq κ] {ix : MatchIndex κ} {kinds : List κ}
    (hkinds : ix.Discards kinds) (closings : List Marker) (c : Cursor) :
    Spanwise.level ix closings c
      = (Spanwise.level ix.kept closings c).map (Stretch.without kinds) := by
  fun_induction Spanwise.level ix closings c with
  | case1 closings c hahead =>
      rw [Spanwise.level_of_levelEnd (ix.ahead_kept_of_ahead hahead)]
      rfl
  | case2 closings c hahead =>
      rw [Spanwise.level_of_nothing (ix.ahead_kept_of_ahead hahead)]
      rfl
  | case3 closings c r n hahead ih =>
      obtain ⟨d, hr⟩ := MatchIndex.runFor?_of_ahead hahead
      rw [Spanwise.level_of_run (ix.ahead_kept_of_ahead hahead), ih]
      exact Stretch.map_after_without (hkinds.run hr) (Token.without_of_nested_eq_nil rfl)
  | case4 closings c m hahead hi ih =>
      have hm := MatchIndex.fixedAt?_of_ahead hahead
      have hi' : m.kept.text.inside = .nothing := hi
      rw [Spanwise.level_of_fixed (ix.ahead_kept_of_ahead hahead), hi', ih]
      exact Stretch.map_after_without (hkinds.fixed hm) (Token.without_of_nested_eq_nil rfl)
  | case5 closings c m hahead ends hi stop hr =>
      have hi' : m.kept.text.inside = .raw ends := hi
      have hr' : ix.kept.capture ends (m.kept.stop c) = .error stop :=
        (ix.capture_kept ends _).trans hr
      rw [Spanwise.level_of_fixed (ix.ahead_kept_of_ahead hahead), hi']
      simp only [hr']
      rfl
  | case6 closings c m hahead ends hi r hr ih =>
      have hm := MatchIndex.fixedAt?_of_ahead hahead
      have hi' : m.kept.text.inside = .raw ends := hi
      have hr' : ix.kept.capture ends (m.kept.stop c) = .ok r :=
        (ix.capture_kept ends _).trans hr
      rw [Spanwise.level_of_fixed (ix.ahead_kept_of_ahead hahead), hi', ih]
      simp only [hr']
      exact Stretch.map_after_without (hkinds.fixed hm) (Token.without_of_nested_eq_nil rfl)
  -- the inside of a section is a level: either it fails with everything kept as well, or it ends
  -- at the same place, where the same marker is looked for
  | case7 closings c m hahead ends hi e he ih =>
      have hi' : m.kept.text.inside = .nested ends := hi
      have he' : Spanwise.level ix.kept ends (m.kept.stop c) = .error e :=
        error_of_map_eq (ih.symm.trans he)
      rw [Spanwise.level_of_fixed (ix.ahead_kept_of_ahead hahead), hi']
      simp only [he']
      rfl
  | case8 closings c m hahead ends hi inner hinner hm ih =>
      have hi' : m.kept.text.inside = .nested ends := hi
      obtain ⟨inner', hinner', rfl⟩ := exists_of_map_ok (ih.symm.trans hinner)
      have hkept : Spanwise.level ix.kept ends (m.kept.stop c) = .ok inner' := hinner'
      have hm' : Marker.firstAt? ends (inner'.stop (m.kept.stop c)).rest = none := hm
      rw [Spanwise.level_of_fixed (ix.ahead_kept_of_ahead hahead), hi']
      simp only [hkept, hm']
      rfl
  | case9 closings c m hahead ends hi inner hinner marker hm ihinner ih =>
      have hfixed := MatchIndex.fixedAt?_of_ahead hahead
      have hi' : m.kept.text.inside = .nested ends := hi
      obtain ⟨inner', hinner', rfl⟩ := exists_of_map_ok (ihinner.symm.trans hinner)
      have hkept : Spanwise.level ix.kept ends (m.kept.stop c) = .ok inner' := hinner'
      have hm' : Marker.firstAt? ends (inner'.stop (m.kept.stop c)).rest = some marker := hm
      rw [Spanwise.level_of_fixed (ix.ahead_kept_of_ahead hahead), hi', ih]
      simp only [hkept, hm']
      exact Stretch.map_after_without (hkinds.fixed hfixed) rfl

/-! ### Tokenizers -/

/-- The kinds of the rules that discard. -/
def discardedKinds (rules : List (Rule κ)) : List κ :=
  (rules.filter Rule.discards).filterMap Rule.kind?

namespace Tokenizer

/-- The tokenizer with everything kept. -/
def kept (t : Tokenizer κ) : Tokenizer κ where
  rules := t.rules.map Rule.kept
  patterns := t.patterns.map Pattern.kept
  index := t.index.kept
  patterns_eq := by rw [Pattern.ofRules_kept, t.patterns_eq]; rfl
  index_eq := by rw [MatchIndex.ofPatterns_kept, t.index_eq]

/-- When no kind is shared between rules that discard and rules that do not, the kind of a rule
tells whether it discards. -/
lemma mem_discardedKinds_iff {rules : List (Rule κ)} {rule : Rule κ} {kind : κ}
    (hapart : ∀ r ∈ rules, ∀ r' ∈ rules,
      r.discards = true → r'.discards = false → r.kind? ≠ r'.kind?)
    (hrule : rule ∈ rules) (hkind : rule.kind? = some kind) :
    kind ∈ discardedKinds rules ↔ rule.discards = true := by
  simp only [discardedKinds, List.mem_filterMap, List.mem_filter]
  constructor
  · rintro ⟨r, ⟨hr, hdiscards⟩, hkind'⟩
    by_contra hnot
    have hkeeps : rule.discards = false := by simpa using hnot
    exact hapart r hr rule hrule hdiscards hkeeps (hkind'.trans hkind.symm)
  · exact fun hdiscards => ⟨rule, ⟨hrule, hdiscards⟩, hkind⟩

lemma discards_index (t : Tokenizer κ)
    (hapart : ∀ r ∈ t.rules, ∀ r' ∈ t.rules,
      r.discards = true → r'.discards = false → r.kind? ≠ r'.kind?) :
    t.index.Discards (discardedKinds t.rules) where
  run hr := by
    obtain ⟨rule, hrule, hkind, hdiscards⟩ := t.exists_rule_of_run hr
    rw [mem_discardedKinds_iff hapart hrule hkind, hdiscards]
  fixed hm := by
    obtain ⟨rule, hrule, hkind, hdiscards⟩ := t.exists_rule_of_fixed hm
    rw [mem_discardedKinds_iff hapart hrule hkind, hdiscards]

/-- **Erasure**: when no kind is shared between rules that discard and rules that do not, the rules
give the tokens that they give with everything kept, without those of the kinds that are
discarded; and they stop with the same errors. -/
theorem tokenize_eq_without [DecidableEq κ] {rules : List (Rule κ)} {t : Tokenizer κ}
    (ht : ofRules rules = .ok t)
    (hapart : ∀ r ∈ rules, ∀ r' ∈ rules,
      r.discards = true → r'.discards = false → r.kind? ≠ r'.kind?) :
    ∃ t', ofRules (rules.map Rule.kept) = .ok t' ∧ ∀ text,
      t.tokenize text = (t'.tokenize text).map (TokenList.without (discardedKinds rules)) := by
  obtain rfl := eq_of_ofRules ht
  refine ⟨t.kept, t.kept.ofRules_rules, fun text => ?_⟩
  have hlevel := level_eq_without (t.discards_index hapart) [] (.ofText text.toList)
  calc t.tokenize text
      = (Spanwise.level t.index [] (.ofText text.toList)).map (·.tokens) :=
        State.result_run_ofText ..
    _ = ((Spanwise.level t.kept.index [] (.ofText text.toList)).map (·.tokens)).map
          (TokenList.without (discardedKinds t.rules)) := by
        rw [hlevel, kept]
        cases Spanwise.level t.index.kept [] (.ofText text.toList) <;> rfl
    _ = (t.kept.tokenize text).map (TokenList.without (discardedKinds t.rules)) :=
        congrArg _ (State.result_run_ofText ..).symm

theorem tokenize_eq_without_call : ∃ t t' tokens, ofRules (callRules true) = .ok t ∧
    (∀ r ∈ callRules true, ∀ r' ∈ callRules true,
      r.discards = true → r'.discards = false → r.kind? ≠ r'.kind?) ∧
    ofRules ((callRules true).map Rule.kept) = .ok t' ∧ t'.tokenize callText = .ok tokens ∧
    t.tokenize callText = .ok (TokenList.without (discardedKinds (callRules true)) tokens) := by
  have hapart : ∀ r ∈ callRules true, ∀ r' ∈ callRules true,
      r.discards = true → r'.discards = false → r.kind? ≠ r'.kind? := by decide
  obtain ⟨t, erased, ht, herased⟩ := exists_of_isSome_tokens?
    (show (tokens? (callRules true) callText).isSome = true by decide +kernel)
  obtain ⟨t', ht', h⟩ := tokenize_eq_without ht hapart
  obtain ⟨tokens, htokens, hwithout⟩ := exists_of_map_ok ((h callText).symm.trans herased)
  exact ⟨t, t', tokens, ht, hapart, ht', htokens, by rw [herased, ← hwithout]⟩

end Tokenizer

end RuleLexer
