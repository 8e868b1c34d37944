import RuleLexer.Proofs.Numbering
import RuleLexer.Proofs.Places

/-!
Every token comes from one of the rules, and it looks as the rule says.

* `Token.MadeAt`: how a token is made of what stands at a place, with one constructor for each kind
  of token; `Covers.exists_madeAt` says that all tokens of a level, at every depth, are made so;
* `firstRun?`: the run rule that comes first for a character, by the rules alone;
* `Written`: a text as it stands in the input, perhaps with its first character escaped;
* `Token.JustifiedBy`: what a token looks like that a rule accounts for;
* `justified_of_tokenize`: some rule that does not discard accounts for every token of a text.
-/

namespace RuleLexer

variable {κ : Type}

/-! ### How tokens are made -/

/-- The token is made of what stands at the place `c`, by something that does not discard. -/
inductive Token.MadeAt (ix : MatchIndex κ) (c : Cursor) : Token κ → Prop
  | run {closings : List Marker} {r : CharRun κ} {n : ℕ}
      (h : ix.ahead closings c.rest = .run r n) (hkeep : r.discard = false) :
      Token.MadeAt ix c (r.tokenAt c n)
  | literal {m : FixedMatch κ} (hm : ix.fixedAt? c.rest = some m) (hi : m.text.inside = .nothing)
      (hkeep : m.text.discard = false) : Token.MadeAt ix c (m.literalAt c)
  | raw {m : FixedMatch κ} {ends : List Marker} {r : Captured}
      (hm : ix.fixedAt? c.rest = some m) (hi : m.text.inside = .raw ends)
      (hr : ix.capture ends (m.stop c) = .ok r) (hkeep : m.text.discard = false) :
      Token.MadeAt ix c (m.rawAt c r)
  | nested {m : FixedMatch κ} {ends : List Marker} {closing : Cursor} {marker : Marker}
      {inner : TokenList κ} (hm : ix.fixedAt? c.rest = some m) (hi : m.text.inside = .nested ends)
      (hmarker : Marker.firstAt? ends closing.rest = some marker)
      (hkeep : m.text.discard = false) : Token.MadeAt ix c (m.nestedAt c closing marker inner)

/-- What occurs in a level that begins with a token is this token, unless it is discarded, or stands
inside it, or occurs in the rest of the level. -/
lemma Token.OccursIn.of_unlessDiscarded {t token : Token κ} {discard : Bool} {tokens : TokenList κ}
    (h : t.OccursIn (token.unlessDiscarded discard ++ tokens)) :
    discard = false ∧ (t = token ∨ t.OccursIn token.nested) ∨ t.OccursIn tokens := by
  rcases Token.occursIn_append.mp h with h | h
  · cases discard with
    | true => exact absurd h Token.not_occursIn_nil
    | false =>
        rcases Token.occursIn_cons.mp h with h | h | h
        · exact .inl ⟨rfl, .inl h⟩
        · exact .inl ⟨rfl, .inr h⟩
        · exact absurd h Token.not_occursIn_nil
  · exact .inr h

/-- **Making**: every token of a level, at any depth, is made of what stands at some place. -/
theorem Covers.exists_madeAt {ix : MatchIndex κ} {closings : List Marker} {c stop : Cursor}
    {tokens : TokenList κ} (h : Covers ix closings c tokens stop) {t : Token κ}
    (ht : t.OccursIn tokens) : ∃ d, t.MadeAt ix d := by
  induction h with
  | levelEnd h => exact absurd ht Token.not_occursIn_nil
  | @run closings c stop r n tokens h more ih =>
      rcases ht.of_unlessDiscarded with ⟨hkeep, rfl | hinside⟩ | hrest
      · exact ⟨c, .run h hkeep⟩
      · exact absurd hinside Token.not_occursIn_nil
      · exact ih hrest
  | @literal closings c stop m tokens h hi more ih =>
      rcases ht.of_unlessDiscarded with ⟨hkeep, rfl | hinside⟩ | hrest
      · exact ⟨c, .literal (MatchIndex.fixedAt?_of_ahead h) hi hkeep⟩
      · exact absurd hinside Token.not_occursIn_nil
      · exact ih hrest
  | @raw closings ends c stop m r tokens h hi hr more ih =>
      rcases ht.of_unlessDiscarded with ⟨hkeep, rfl | hinside⟩ | hrest
      · exact ⟨c, .raw (MatchIndex.fixedAt?_of_ahead h) hi hr hkeep⟩
      · exact absurd hinside Token.not_occursIn_nil
      · exact ih hrest
  | @nested closings ends c closing stop m marker inner tokens h hi inside hm more ihinside ih =>
      rcases ht.of_unlessDiscarded with ⟨hkeep, rfl | hinside⟩ | hrest
      · exact ⟨c, .nested (MatchIndex.fixedAt?_of_ahead h) hi hm hkeep⟩
      · exact ihinside hinside
      · exact ih hrest

/-! ### Runs -/

/-- The run rule that comes first for a character. -/
def firstRun? (rules : List (Rule κ)) (c : Char) : Option (Rule κ) :=
  rules.find? fun rule => rule.run?.any (·.charClass.accepts c)

/-- The run that the index finds for a character is that of the first run rule for it. -/
lemma Tokenizer.firstRun?_of_runFor? {t : Tokenizer κ} {c : Char} {r : CharRun κ}
    (h : t.index.runFor? c = some r) :
    firstRun? t.rules c = some (.run r.kind r.charClass r.discard) := by
  rw [MatchIndex.runFor?, t.runs_eq, List.find?_filterMap] at h
  obtain ⟨rule, hrule, hr⟩ := Option.bind_eq_some_iff.mp h
  rw [firstRun?, hrule]
  cases rule with
  | run kind charClass discard =>
      obtain rfl := Option.some.inj hr
      rfl
  | literal kind text discard => cases hr
  | delimited kind opening closings nested discard => cases hr
  | escape char => cases hr

/-- The characters of a run have the same run rule first, the one of the run. -/
lemma MatchIndex.runFor?_of_mem_run {ix : MatchIndex κ} {closings : List Marker}
    {rest : List Char} {r : CharRun κ} {n : ℕ} (h : ix.ahead closings rest = .run r n) {c : Char}
    (hc : c ∈ rest.take n) : ix.runFor? c = some r := by
  obtain ⟨d, after, rfl, hclose, -, hr, hn⟩ := describes_of_ahead h
  rw [hn, ← spanLength_cons hclose rfl] at hc
  rw [runFor?_eq_bind, runPlace?_of_mem_span hc, ← runFor?_eq_bind, hr]

/-! ### Fixed texts -/

/-- The text stands in the input as it is, or with its first character written as an escape. -/
inductive Written (rules : List (Rule κ)) (text : List Char) : List Char → Prop
  | verbatim : Written rules text text
  | escaped {e x : Char} {tail : List Char} (he : .escape e ∈ rules)
      (htext : text = unescape x :: tail) : Written rules text (e :: x :: tail)

namespace Tokenizer

variable {t : Tokenizer κ} {c : Cursor} {m : FixedMatch κ}

/-- A fixed text that is found is written there. -/
lemma written_of_fixedAt? (hm : t.index.fixedAt? c.rest = some m) :
    Written t.rules m.text.marker.chars (c.upTo (m.stop c)) := by
  have hupTo : c.upTo (m.stop c) = c.rest.take m.length := by
    rw [Cursor.upTo, FixedMatch.stop, Cursor.offset_skip, Nat.add_sub_cancel_left]
  rw [hupTo]
  -- the text that the marker is compared with begins with it
  have hfront : ∀ {lead : Char} {after : List Char} {f : FixedText κ},
      t.index.fixedFrom? lead after = some f →
        (lead :: after).take f.marker.length = f.marker.chars :=
    fun hf => (List.prefix_iff_eq_take.mp (t.chars_prefix_of_fixedFrom? hf)).symm
  generalize c.rest = rest at hm ⊢
  cases rest with
  | nil => cases hm
  | cons d rest =>
      cases rest with
      | nil =>
          obtain ⟨f, hf, rfl⟩ := Option.map_eq_some_iff.mp hm
          rw [show FixedMatch.length ⟨f, false⟩ = f.marker.length from Nat.zero_add _, hfront hf]
          exact .verbatim
      | cons next after =>
          rw [MatchIndex.fixedAt?] at hm
          split at hm
          · rename_i he
            obtain ⟨f, hf, rfl⟩ := Option.map_eq_some_iff.mp hm
            rw [show FixedMatch.length ⟨f, true⟩ = f.marker.tail.length + 1 + 1 from
              Nat.add_comm 1 _, List.take_succ_cons, List.take_succ_cons]
            exact .escaped (t.isEscape_iff.mp he) (hfront hf).symm
          · obtain ⟨f, hf, rfl⟩ := Option.map_eq_some_iff.mp hm
            rw [show FixedMatch.length ⟨f, false⟩ = f.marker.length from Nat.zero_add _, hfront hf]
            exact .verbatim

/-- The rule of a fixed text that is found. -/
lemma exists_rule_of_fixedAt? (hm : t.index.fixedAt? c.rest = some m) :
    ∃ rule ∈ t.rules, rule.pattern = .ok (.fixed m.text) := by
  obtain ⟨lead, hmem⟩ := MatchIndex.mem_fixedTextsFrom_of_fixedAt? hm
  rw [t.index_eq, MatchIndex.mem_fixedTextsFrom_ofPatterns] at hmem
  exact t.exists_rule_of_pattern hmem.1

end Tokenizer

namespace Rule

variable {rule : Rule κ} {f : FixedText κ}

/-- Only a literal has a fixed text with nothing inside. -/
lemma eq_literal_of_pattern (h : rule.pattern = .ok (.fixed f)) (hi : f.inside = .nothing) :
    ∃ text : String, rule = .literal f.kind text f.discard ∧ text.toList = f.marker.chars := by
  cases fixedBy_of_pattern h with
  | literal text htext => exact ⟨text, rfl, htext⟩
  | delimited opening closings nested htext hinside => exact absurd hi hinside

/-- Only a section has a fixed text with closing markers. The section is nested when its inside
is. -/
lemma eq_delimited_of_pattern (nested : Bool) {ends : List Marker}
    (h : rule.pattern = .ok (.fixed f))
    (hi : f.inside = if nested then .nested ends else .raw ends) :
    ∃ (opening : String) (closings : List String),
      rule = .delimited f.kind opening closings nested f.discard ∧
        opening.toList = f.marker.chars ∧ ∀ m ∈ ends, String.ofList m.chars ∈ closings := by
  cases rule with
  | run kind charClass discard => cases h
  | escape char => cases h
  | literal kind text discard =>
      obtain ⟨marker, -, heq⟩ := eq_of_pattern_literal h
      obtain rfl := Pattern.fixed.inj heq
      cases nested <;> cases hi
  | delimited kind opening closings nested' discard =>
      obtain ⟨marker, markers, htext, hclosings, heq⟩ := eq_of_pattern_delimited h
      obtain rfl := Pattern.fixed.inj heq
      obtain ⟨rfl, rfl⟩ : nested' = nested ∧ Marker.longestFirst markers = ends := by
        cases nested <;> cases nested' <;> simp_all
      refine ⟨opening, closings, rfl, htext, fun m hm => ?_⟩
      have hchars := List.mem_map_of_mem (f := Marker.chars) (mem_stableSort.mp hm)
      rw [← hclosings] at hchars
      obtain ⟨s, hs, hsm⟩ := List.mem_map.mp hchars
      rwa [← hsm, String.ofList_toList]

end Rule

/-- Up to the place behind a marker that stands there, the text is the marker. -/
lemma Cursor.upTo_past {markers : List Marker} {c : Cursor} {m : Marker}
    (hm : Marker.firstAt? markers c.rest = some m) : c.upTo (c.past m) = m.chars := by
  rw [upTo, offset_past, Nat.add_sub_cancel_left]
  exact (List.prefix_iff_eq_take.mp (Marker.occursAt_iff.mp (Marker.occursAt_of_firstAt? hm))).symm

/-! ### Tokens and their rules -/

/-- The rule, which does not discard, accounts for the token. The token of a run consists of
characters for which the rule comes first. The token of a literal is its text, as it may be
written. A section has an opening marker, as it may be written, and one of the closing markers of
its rule: the text of a nested section consists of the two alone, and that of any other section
begins and ends with them. -/
inductive Token.JustifiedBy (rules : List (Rule κ)) (t : Token κ) : Rule κ → Prop
  | run {charClass : CharClass} (hne : t.text ≠ "")
      (hfirst : ∀ c ∈ t.text.toList, firstRun? rules c = some (.run t.kind charClass false))
      (hd : t.delimiters = none) (hnested : t.nested = []) :
      Token.JustifiedBy rules t (.run t.kind charClass false)
  | literal {text : String} (hwritten : Written rules text.toList t.text.toList)
      (hd : t.delimiters = none) (hnested : t.nested = []) :
      Token.JustifiedBy rules t (.literal t.kind text false)
  | nested {opening : String} {closings : List String} {d : Delimiters}
      (hd : t.delimiters = some d) (hopening : Written rules opening.toList d.opening.toList)
      (hclosing : d.closing ∈ closings) (hcontent : d.content = none)
      (htext : t.text = d.opening ++ d.closing) :
      Token.JustifiedBy rules t (.delimited t.kind opening closings true false)
  | raw {opening : String} {closings : List String} {d : Delimiters} (inside : String)
      (hd : t.delimiters = some d) (hopening : Written rules opening.toList d.opening.toList)
      (hclosing : d.closing ∈ closings) (hcontent : d.content.isSome) (hnested : t.nested = [])
      (htext : t.text = d.opening ++ inside ++ d.closing) :
      Token.JustifiedBy rules t (.delimited t.kind opening closings false false)

/-- What is made at a place is accounted for by a rule. -/
lemma Tokenizer.exists_justifiedBy {t : Tokenizer κ} {c : Cursor} {token : Token κ}
    (h : token.MadeAt t.index c) : ∃ rule ∈ t.rules, token.JustifiedBy t.rules rule := by
  cases h with
  | @run closings r n h hkeep =>
      obtain ⟨d, after, hrest, -, -, hr, hn⟩ := MatchIndex.describes_of_ahead h
      have hupTo : c.upTo (c.advance n) = c.rest.take n := by
        rw [Cursor.upTo, Cursor.advance, Nat.add_sub_cancel_left]
      have hfirst : ∀ e ∈ (r.tokenAt c n).text.toList,
          firstRun? t.rules e = some (.run r.kind r.charClass false) := by
        intro e he
        rw [CharRun.tokenAt, Token.between, String.toList_ofList, hupTo] at he
        rw [← hkeep]
        exact firstRun?_of_runFor? (MatchIndex.runFor?_of_mem_run h he)
      have hd : d ∈ (r.tokenAt c n).text.toList := by
        rw [CharRun.tokenAt, Token.between, String.toList_ofList, hupTo, hrest, hn,
          List.take_succ_cons]
        exact List.mem_cons_self
      refine ⟨_, List.mem_of_find?_eq_some (hfirst d hd), .run (fun hempty => ?_) hfirst rfl rfl⟩
      rw [hempty] at hd
      exact List.not_mem_nil hd
  | @literal m hm hi hkeep =>
      obtain ⟨rule, hrule, hpattern⟩ := exists_rule_of_fixedAt? hm
      obtain ⟨text, rfl, htext⟩ := Rule.eq_literal_of_pattern hpattern hi
      rw [hkeep] at hrule
      refine ⟨_, hrule, .literal ?_ rfl rfl⟩
      rw [FixedMatch.literalAt, Token.between, String.toList_ofList, htext]
      exact written_of_fixedAt? hm
  | @raw m ends r hm hi hr hkeep =>
      obtain ⟨rule, hrule, hpattern⟩ := exists_rule_of_fixedAt? hm
      obtain ⟨opening, closings, rfl, htext, hends⟩ :=
        Rule.eq_delimited_of_pattern false hpattern hi
      obtain ⟨-, marker, hmarker, hstop⟩ := MatchIndex.captureFrom_reaches hr
      rw [hkeep] at hrule
      refine ⟨_, hrule, .raw (String.ofList ((m.stop c).upTo r.closing)) rfl ?_ ?_ rfl rfl ?_⟩
      · rw [String.toList_ofList, htext]
        exact written_of_fixedAt? hm
      · rw [hstop, Cursor.upTo_past hmarker]
        exact hends marker (List.mem_of_find?_eq_some hmarker)
      · simp only [FixedMatch.rawAt, Token.section, Option.isSome_some, if_true,
          String.ofList_append]
  | @nested m ends closing marker inner hm hi hmarker hkeep =>
      obtain ⟨rule, hrule, hpattern⟩ := exists_rule_of_fixedAt? hm
      obtain ⟨opening, closings, rfl, htext, hends⟩ :=
        Rule.eq_delimited_of_pattern true hpattern hi
      rw [hkeep] at hrule
      refine ⟨_, hrule, .nested rfl ?_ ?_ rfl ?_⟩
      · rw [String.toList_ofList, htext]
        exact written_of_fixedAt? hm
      · rw [Cursor.upTo_past hmarker]
        exact hends marker (List.mem_of_find?_eq_some hmarker)
      · simp [FixedMatch.nestedAt, Token.section, String.ofList_append]

/-- **Provenance**: every token of a text, at every depth, is accounted for by one of the rules,
which does not discard. -/
theorem justified_of_tokenize {rules : List (Rule κ)} {t : Tokenizer κ} {text : String}
    {tokens : TokenList κ} (ht : Tokenizer.ofRules rules = .ok t)
    (h : t.tokenize text = .ok tokens) {token : Token κ} (hoccurs : token.OccursIn tokens) :
    ∃ rule ∈ rules, token.JustifiedBy rules rule := by
  obtain rfl := Tokenizer.eq_of_ofRules ht
  obtain ⟨stop, hcovers, -⟩ := t.covers_of_tokenize h
  obtain ⟨c, hmade⟩ := hcovers.exists_madeAt hoccurs
  exact Tokenizer.exists_justifiedBy hmade

theorem justified_of_tokenize_call : ∃ t tokens, ∃ token : Token String,
    Tokenizer.ofRules (callRules true) = .ok t ∧ t.tokenize callText = .ok tokens ∧
    token.OccursIn tokens ∧ token.kind = "assign" ∧ token.text = "\\=" ∧
    ∃ rule ∈ callRules true, token.JustifiedBy (callRules true) rule := by
  have hfound : ((Tokenizer.tokens? (callRules true) callText).bind (·.find? fun token =>
      token.kind = "assign" ∧ token.text = "\\=")).isSome = true := by decide +kernel
  obtain ⟨token, hfind⟩ := Option.isSome_iff_exists.mp hfound
  obtain ⟨tokens, htokens, hfind⟩ := Option.bind_eq_some_iff.mp hfind
  obtain ⟨t, ht, h⟩ := Tokenizer.exists_of_tokens? htokens
  have hoccurs : token.OccursIn tokens := .here (List.mem_of_find?_eq_some hfind)
  have hescaped := List.find?_some hfind
  obtain ⟨hkind, htext⟩ := of_decide_eq_true hescaped
  exact ⟨t, tokens, token, ht, h, hoccurs, hkind, htext, justified_of_tokenize ht h hoccurs⟩

end RuleLexer
