import RuleLexer.Proofs.Refinement

/-!
The spans of tokens are faithful to the text, at every depth.

* `Token.Faithful`: a token has the characters in its span for its text; a nested section stands
  between its markers, and its tokens between these;
* `TokenList.Faithful`: the tokens of a level lie one after another between two offsets, with the
  gaps that are allowed;
* `faithful_of_covers`: the tokens of a level are faithful;
* `faithful_of_tokenize`: the tokens of a text are faithful between its ends, and without gaps when
  no rule discards.
-/

namespace RuleLexer

variable {κ : Type}

/-- The characters of the text in the span. -/
def Span.chars (s : Span) (text : List Char) : List Char :=
  (text.drop s.start.val).take (s.stop.val - s.start.val)

mutual

/-- The span of the token is faithful to the text. Where one token of a level ends and the next one
begins is as `gap` allows. -/
inductive Token.Faithful (text : List Char) (gap : ℕ → ℕ → Prop) : Token κ → Prop
  | plain {t : Token κ} (hcontent : ∀ d, t.delimiters = some d → d.content ≠ none)
      (hnested : t.nested = []) (hchars : t.span.chars text = t.text.toList) :
      Token.Faithful text gap t
  | nested {t : Token κ} {d : Delimiters} (inside : List Char) (hd : t.delimiters = some d)
      (hcontent : d.content = none)
      (hchars : t.span.chars text = d.opening.toList ++ inside ++ d.closing.toList)
      (htokens : TokenList.Faithful text gap (t.span.start.val + d.opening.length) t.nested
        (t.span.stop.val - d.closing.length)) :
      Token.Faithful text gap t

/-- The tokens of a level, which lies between the offsets `low` and `high`, are faithful and follow
one another; none is empty. -/
inductive TokenList.Faithful (text : List Char) (gap : ℕ → ℕ → Prop) :
    ℕ → List (Token κ) → ℕ → Prop
  | nil {low high : ℕ} (h : gap low high) : TokenList.Faithful text gap low [] high
  | cons {low high : ℕ} {t : Token κ} {ts : List (Token κ)} (hlow : gap low t.span.start.val)
      (hspan : t.span.start.val < t.span.stop.val) (ht : Token.Faithful text gap t)
      (hts : TokenList.Faithful text gap t.span.stop.val ts high) :
      TokenList.Faithful text gap low (t :: ts) high

end

/-- A level may begin earlier when gaps may be wider. -/
lemma TokenList.Faithful.widen {text : List Char} {gap : ℕ → ℕ → Prop} {low low' high : ℕ}
    {tokens : TokenList κ} (hgap : ∀ a, gap low a → gap low' a)
    (h : TokenList.Faithful text gap low tokens high) :
    TokenList.Faithful text gap low' tokens high := by
  cases h with
  | nil h => exact .nil (hgap _ h)
  | cons hlow hspan ht hts => exact .cons (hgap _ hlow) hspan ht hts

/-! ### The tokens that are made -/

section Tokens

variable {text : List Char} {gap : ℕ → ℕ → Prop} {c inside closing stop : Cursor}

/-- In a text that is not too long the two ends of a span are offsets. -/
lemma Span.between_val (hlength : text.length ≤ Coord.limit) (hc : (Cursor.ofText text).Reaches c)
    (hstop : c.Reaches stop) :
    (Span.between c.offset stop.offset).start.val = c.offset ∧
      (Span.between c.offset stop.offset).stop.val = stop.offset := by
  have h1 := hc.offset_le_length
  have h2 := (hc.trans hstop).offset_le_length
  simp only [Span.between, Coord.val_clamp]
  omega

/-- The characters in the span between two places are those from the one up to the other. -/
lemma Span.chars_between (hlength : text.length ≤ Coord.limit)
    (hc : (Cursor.ofText text).Reaches c) (hstop : c.Reaches stop) :
    (Span.between c.offset stop.offset).chars text = c.upTo stop := by
  obtain ⟨h1, h2⟩ := Span.between_val hlength hc hstop
  rw [Span.chars, h1, h2, hc.slice_eq_upTo]

/-- A token between two places is faithful. -/
lemma Token.faithful_between (kind : κ) (hlength : text.length ≤ Coord.limit)
    (hc : (Cursor.ofText text).Reaches c) (hstop : c.Reaches stop) :
    (Token.between kind c stop).Faithful text gap := by
  refine .plain (fun d hd => by cases hd) rfl ?_
  rw [Token.between, Span.chars_between hlength hc hstop, String.toList_ofList]

/-- A section whose inside is taken as it stands is faithful. -/
lemma FixedMatch.faithful_rawAt {m : FixedMatch κ} {r : Captured}
    (hlength : text.length ≤ Coord.limit) (hc : (Cursor.ofText text).Reaches c)
    (hinside : c.Reaches (m.stop c)) (hclosing : (m.stop c).Reaches r.closing)
    (hstop : r.closing.Reaches r.stop) : (m.rawAt c r).Faithful text gap := by
  have hwhole := (hinside.trans hclosing).trans hstop
  refine .plain (fun d hd => ?_) rfl ?_
  · obtain rfl := Option.some.inj hd
    simp
  · calc (m.rawAt c r).span.chars text
        = c.upTo r.stop := Span.chars_between hlength hc hwhole
      _ = c.upTo (m.stop c) ++ (m.stop c).upTo r.closing ++ r.closing.upTo r.stop := by
          rw [hinside.upTo_append hclosing, (hinside.trans hclosing).upTo_append hstop]
      _ = (m.rawAt c r).text.toList := String.toList_ofList.symm

/-- A nested section is faithful when the tokens inside are, between the two markers. -/
lemma FixedMatch.faithful_nestedAt {m : FixedMatch κ} {marker : Marker} {inner : TokenList κ}
    (hlength : text.length ≤ Coord.limit) (hc : (Cursor.ofText text).Reaches c)
    (hinside : c.Reaches (m.stop c)) (hclosing : (m.stop c).Reaches closing)
    (hstop : closing.Reaches (closing.past marker))
    (hinner : TokenList.Faithful text gap (m.stop c).offset inner closing.offset) :
    (m.nestedAt c closing marker inner).Faithful text gap := by
  have hwhole := (hinside.trans hclosing).trans hstop
  obtain ⟨hstart, hend⟩ := Span.between_val hlength hc hwhole
  refine .nested ((m.stop c).upTo closing) rfl rfl ?_ ?_
  · calc (m.nestedAt c closing marker inner).span.chars text
        = c.upTo (closing.past marker) := Span.chars_between hlength hc hwhole
      _ = c.upTo (m.stop c) ++ (m.stop c).upTo closing ++ closing.upTo (closing.past marker) := by
          rw [hinside.upTo_append hclosing, (hinside.trans hclosing).upTo_append hstop]
      _ = _ := by simp only [String.toList_ofList]
  · have h1 := hinside.offset_le
    have h2 := hstop.offset_le
    have hlow : c.offset + (c.upTo (m.stop c)).length = (m.stop c).offset := by
      rw [hinside.length_upTo]
      omega
    have hhigh : (closing.past marker).offset - (closing.upTo (closing.past marker)).length
        = closing.offset := by
      rw [hstop.length_upTo]
      omega
    simpa only [FixedMatch.nestedAt, Token.section, Token.between, String.length_ofList, hstart,
      hend, hlow, hhigh] using hinner

end Tokens

/-! ### Levels -/

/-- A token goes before the tokens of the rest of its level. If it is discarded there is a gap in
its place. -/
lemma TokenList.Faithful.unlessDiscarded {text : List Char} {gap : ℕ → ℕ → Prop} {c next : Cursor}
    {high : ℕ} {discard : Bool} {token : Token κ} {tokens : TokenList κ}
    (hts : TokenList.Faithful text gap next.offset tokens high)
    (hlength : text.length ≤ Coord.limit) (hrefl : ∀ a, gap a a)
    (hgap : discard = true → ∀ {a b c}, a ≤ b → gap b c → gap a c)
    (hc : (Cursor.ofText text).Reaches c) (hnext : c.Reaches next)
    (hlt : next.rest.length < c.rest.length)
    (hspan : token.span = .between c.offset next.offset) (ht : token.Faithful text gap) :
    TokenList.Faithful text gap c.offset (token.unlessDiscarded discard ++ tokens) high := by
  cases discard with
  | true => exact hts.widen fun _ => hgap rfl hnext.offset_le
  | false =>
      obtain ⟨hstart, hstop⟩ := Span.between_val hlength hc hnext
      rw [← hspan] at hstart hstop
      have htext := hnext.offset_add_length
      refine .cons (hstart ▸ hrefl _) (by omega) ht ?_
      rwa [hstop]

/-- **Levels**: the tokens of a level are faithful between its two ends, with gaps only where
something was discarded. -/
theorem faithful_of_covers {ix : MatchIndex κ} {text : List Char} {gap : ℕ → ℕ → Prop}
    (hlength : text.length ≤ Coord.limit) (hrefl : ∀ a, gap a a)
    (hgap : ix.KeepsAll ∨ ∀ {a b c}, a ≤ b → gap b c → gap a c) {closings : List Marker}
    {c stop : Cursor} {tokens : TokenList κ} (h : Covers ix closings c tokens stop)
    (hc : (Cursor.ofText text).Reaches c) :
    TokenList.Faithful text gap c.offset tokens stop.offset := by
  -- a gap opens only where something that the index finds is discarded
  have hskip : ∀ {discard : Bool}, (ix.KeepsAll → discard = false) → discard = true →
      ∀ {a b c}, a ≤ b → gap b c → gap a c := by
    intro discard hkeep hdiscard
    rcases hgap with hall | hgap
    · simp [hkeep hall] at hdiscard
    · exact hgap
  induction h with
  | @levelEnd closings c h => exact .nil (hrefl _)
  | @run closings c stop r n tokens h more ih =>
      obtain ⟨d, hr⟩ := MatchIndex.runFor?_of_ahead h
      have hnext : c.Reaches (c.advance n) := .advance (MatchIndex.run_length_le h)
      exact (ih (hc.trans hnext)).unlessDiscarded hlength hrefl (hskip (·.run hr)) hc hnext
        (rest_length_lt_of_run h) rfl (Token.faithful_between r.kind hlength hc hnext)
  | @literal closings c stop m tokens h hi more ih =>
      have hm := MatchIndex.fixedAt?_of_ahead h
      have hnext := FixedMatch.reaches_stop h
      exact (ih (hc.trans hnext)).unlessDiscarded hlength hrefl (hskip (·.fixed hm)) hc hnext
        (rest_length_lt_of_fixed h) rfl (Token.faithful_between m.text.kind hlength hc hnext)
  | @raw closings ends c stop m r tokens h hi hr more ih =>
      have hm := MatchIndex.fixedAt?_of_ahead h
      have hinside := FixedMatch.reaches_stop h
      obtain ⟨hclosing, hlast⟩ := MatchIndex.capture_reaches hr
      have hnext := (hinside.trans hclosing).trans hlast
      exact (ih (hc.trans hnext)).unlessDiscarded hlength hrefl (hskip (·.fixed hm)) hc hnext
        (Nat.lt_of_le_of_lt (MatchIndex.rest_stop_length_le hr) (rest_length_lt_of_fixed h)) rfl
        (FixedMatch.faithful_rawAt hlength hc hinside hclosing hlast)
  | @nested closings ends c closing stop m marker inner tokens h hi inside hmarker more ihinner ih =>
      have hm := MatchIndex.fixedAt?_of_ahead h
      have hinside := FixedMatch.reaches_stop h
      have hlast : closing.Reaches (closing.past marker) := .past hmarker
      have hnext := (hinside.trans inside.reaches).trans hlast
      have hlt : (closing.past marker).rest.length < c.rest.length := by
        have hlt' := rest_length_lt_of_fixed h
        have h1 := hinside.offset_add_length
        have h2 := (inside.reaches.trans hlast).offset_add_length
        have h3 := (inside.reaches.trans hlast).offset_le
        omega
      exact (ih (hc.trans hnext)).unlessDiscarded hlength hrefl (hskip (·.fixed hm)) hc hnext hlt rfl
        (FixedMatch.faithful_nestedAt hlength hc hinside inside.reaches hlast
          (ihinner (hc.trans hinside)))

/-- **Faithful spans**: the tokens of a text that is not too long are faithful between its two ends,
and without gaps when no rule discards. -/
theorem faithful_of_tokenize {rules : List (Rule κ)} {t : Tokenizer κ} {text : String}
    {tokens : TokenList κ} (ht : Tokenizer.ofRules rules = .ok t)
    (hlength : text.length ≤ Coord.limit) (h : t.tokenize text = .ok tokens) :
    TokenList.Faithful text.toList (· ≤ ·) 0 tokens text.length ∧
      ((∀ rule ∈ rules, rule.discards = false) →
        TokenList.Faithful text.toList (· = ·) 0 tokens text.length) := by
  obtain rfl := Tokenizer.eq_of_ofRules ht
  obtain ⟨stop, hcovers, hrest⟩ := t.covers_of_tokenize h
  have hstop : stop.offset = text.length := by
    have htext := hcovers.reaches.offset_add_length
    simpa [hrest, Cursor.ofText, ← String.length_toList] using htext
  rw [← hstop]
  refine ⟨?_, fun hkeep => ?_⟩
  · exact faithful_of_covers hlength le_refl (.inr fun h h' => h.trans h') hcovers (.refl _)
  · exact faithful_of_covers hlength (fun _ => rfl) (.inl (t.keepsAll_index hkeep)) hcovers
      (.refl _)

theorem faithful_of_tokenize_call :
    (∃ t tokens, Tokenizer.ofRules (callRules true) = .ok t ∧ callText.length ≤ Coord.limit ∧
      t.tokenize callText = .ok tokens ∧
      TokenList.Faithful callText.toList (· ≤ ·) 0 tokens callText.length) ∧
    ∃ t tokens, Tokenizer.ofRules (callRules false) = .ok t ∧
      (∀ rule ∈ callRules false, rule.discards = false) ∧ t.tokenize callText = .ok tokens ∧
      TokenList.Faithful callText.toList (· = ·) 0 tokens callText.length := by
  have hlength : callText.length ≤ Coord.limit := by decide
  have hkeep : ∀ rule ∈ callRules false, rule.discards = false := by decide
  obtain ⟨t, tokens, ht, h⟩ := Tokenizer.exists_of_isSome_tokens?
    (show (Tokenizer.tokens? (callRules true) callText).isSome = true by decide +kernel)
  obtain ⟨t', tokens', ht', h'⟩ := Tokenizer.exists_of_isSome_tokens?
    (show (Tokenizer.tokens? (callRules false) callText).isSome = true by decide +kernel)
  refine ⟨⟨t, tokens, ht, hlength, h, ?_⟩, t', tokens', ht', hkeep, h', ?_⟩
  · exact (faithful_of_tokenize ht hlength h).1
  · exact (faithful_of_tokenize ht' hlength h').2 hkeep

end RuleLexer
