import RuleLexer.Proofs.Refinement

/-!
Rendering undoes tokenizing, when no rule discards.

* `render_of_covers`: the tokens of a level render to the characters that the level covers;
* `render_of_tokenize`: the tokens of a text render to the text.
-/

namespace RuleLexer

variable {κ : Type}

/-! ### Rendering -/

lemma Token.render_between (kind : κ) (start stop : Cursor) :
    (Token.between kind start stop).render = String.ofList (start.upTo stop) := by
  rw [between, Token.render]
  exact fun _ _ h => by cases h

lemma FixedMatch.render_rawAt (m : FixedMatch κ) (c : Cursor) (r : Captured) :
    (m.rawAt c r).render = String.ofList
      (c.upTo (m.stop c) ++ (m.stop c).upTo r.closing ++ r.closing.upTo r.stop) := by
  rw [rawAt, Token.section, Token.render]
  · rfl
  · exact fun _ _ h => by cases h

lemma FixedMatch.render_nestedAt (m : FixedMatch κ) (c closing : Cursor) (marker : Marker)
    (inner : TokenList κ) :
    (m.nestedAt c closing marker inner).render = String.ofList (c.upTo (m.stop c))
      ++ TokenList.render inner ++ String.ofList (closing.upTo (closing.past marker)) := by
  simp only [nestedAt, Token.section, Option.map_none, Option.isSome_none, Token.render]

/-- A token that is not discarded is rendered before the others. -/
lemma TokenList.render_unlessDiscarded {discard : Bool} (h : discard = false) (token : Token κ)
    (tokens : TokenList κ) :
    TokenList.render (token.unlessDiscarded discard ++ tokens)
      = token.render ++ TokenList.render tokens := by
  rw [h]
  rfl

/-- The tokens of a level render to the characters that the level covers. -/
theorem render_of_covers {ix : MatchIndex κ} (hkeep : ix.KeepsAll) {closings : List Marker}
    {c stop : Cursor} {tokens : TokenList κ} (h : Covers ix closings c tokens stop) :
    TokenList.render tokens = String.ofList (c.upTo stop) := by
  induction h with
  | @levelEnd closings c h => simp [TokenList.render, Cursor.upTo]
  | @run closings c stop r n tokens h more ih =>
      obtain ⟨d, hr⟩ := MatchIndex.runFor?_of_ahead h
      have hnext : c.Reaches (c.advance n) := .advance (MatchIndex.run_length_le h)
      rw [TokenList.render_unlessDiscarded (hkeep.run hr), CharRun.tokenAt, Token.render_between,
        ih, ← String.ofList_append, hnext.upTo_append more.reaches]
  | @literal closings c stop m tokens h hi more ih =>
      have hm := MatchIndex.fixedAt?_of_ahead h
      have hnext := FixedMatch.reaches_stop h
      rw [TokenList.render_unlessDiscarded (hkeep.fixed hm), FixedMatch.literalAt,
        Token.render_between, ih, ← String.ofList_append, hnext.upTo_append more.reaches]
  | @raw closings ends c stop m r tokens h hi hr more ih =>
      have hm := MatchIndex.fixedAt?_of_ahead h
      -- opening marker, inside, closing marker and the rest of the level, joined from left to right
      have hinside := FixedMatch.reaches_stop h
      obtain ⟨hclosing, hlast⟩ := MatchIndex.capture_reaches hr
      rw [TokenList.render_unlessDiscarded (hkeep.fixed hm), FixedMatch.render_rawAt, ih,
        ← String.ofList_append, hinside.upTo_append hclosing,
        (hinside.trans hclosing).upTo_append hlast,
        ((hinside.trans hclosing).trans hlast).upTo_append more.reaches]
  | @nested closings ends c closing stop m marker inner tokens h hi inside hmarker more ihinner ih =>
      have hm := MatchIndex.fixedAt?_of_ahead h
      have hinside := FixedMatch.reaches_stop h
      have hlast : closing.Reaches (closing.past marker) := .past hmarker
      rw [TokenList.render_unlessDiscarded (hkeep.fixed hm), FixedMatch.render_nestedAt, ihinner,
        ih, ← String.ofList_append, ← String.ofList_append, ← String.ofList_append,
        hinside.upTo_append inside.reaches, (hinside.trans inside.reaches).upTo_append hlast,
        ((hinside.trans inside.reaches).trans hlast).upTo_append more.reaches]

/-- **Round trip**: when no rule discards, the tokens of a text render to the text. -/
theorem render_of_tokenize {rules : List (Rule κ)} {t : Tokenizer κ} {text : String}
    {tokens : TokenList κ} (ht : Tokenizer.ofRules rules = .ok t)
    (hkeep : ∀ rule ∈ rules, rule.discards = false) (h : t.tokenize text = .ok tokens) :
    TokenList.render tokens = text := by
  obtain rfl := Tokenizer.eq_of_ofRules ht
  obtain ⟨stop, hcovers, hrest⟩ := t.covers_of_tokenize h
  rw [render_of_covers (t.keepsAll_index hkeep) hcovers, hcovers.reaches.upTo_eq_rest hrest]
  exact String.ofList_toList

theorem render_of_tokenize_call : ∃ t tokens, Tokenizer.ofRules (callRules false) = .ok t ∧
    (∀ rule ∈ callRules false, rule.discards = false) ∧ t.tokenize callText = .ok tokens ∧
    TokenList.render tokens = callText := by
  have hkeep : ∀ rule ∈ callRules false, rule.discards = false := by decide
  obtain ⟨t, tokens, ht, h⟩ :=
    Tokenizer.exists_of_isSome_tokens?
      (show (Tokenizer.tokens? (callRules false) callText).isSome = true by decide +kernel)
  exact ⟨t, tokens, ht, hkeep, h, render_of_tokenize ht hkeep h⟩

end RuleLexer
