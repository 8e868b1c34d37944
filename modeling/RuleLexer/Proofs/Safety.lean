import RuleLexer.Proofs.Agreement
import RuleLexer.Proofs.Places
import RuleLexer.Proofs.Progress

/-!
What the checked scanner shows of the tokenizer: nothing that it does is ever out of place, and it
comes to an end.

* `Tokenizer.eq_of_tokenize_eq_error`: the errors of a tokenizer;
* `Scanner.tokenize_ofRules`: the checked scanner has no fault, whatever the text is;
* `Scanner.nil_notMem_lineEnds`: for the progress of both loops a line end has to have characters;
* `Scanner.terminates_ofRules`: both loops move forward, levels inside begin further on, and there
  is fuel left when the text is over.
-/

namespace RuleLexer

variable {κ : Type} {rules : List (Rule κ)} {t : Tokenizer κ}

/-- A text is not cut into tokens for one of two reasons. -/
lemma Tokenizer.eq_of_tokenize_eq_error {text : String} {e : ScanError}
    (h : t.tokenize text = .error e) :
    (∃ character preview position, e = .unexpectedCharacter character preview position) ∨
      ∃ start stop, e = .unterminatedSection start stop := by
  obtain ⟨u, -, hhalt⟩ := State.exists_halt t.index (.ofText text.toList)
  have hresult : ((State.ofText text.toList).run t.index).result = .error e := h
  rw [hresult] at hhalt
  cases State.halt_of_step hhalt with
  | opened hrest hopened => exact .inr ⟨_, _, rfl⟩
  | raw hm hi hr => exact .inr ⟨_, _, rfl⟩
  | unexpected hne => exact .inl ⟨_, _, _, rfl⟩

namespace Scanner

lemma works_ofRules (ht : Tokenizer.ofRules rules = .ok t) (text : String) :
    (Scanner.ofRules rules text).Works t := by
  obtain rfl := Tokenizer.eq_of_ofRules ht
  exact ⟨rfl, rfl⟩

/-- With fuel for the whole text the checked scanner of well-formed rules has the result of their
tokenizer. -/
lemma tokenize_eq_mapError (ht : Tokenizer.ofRules rules = .ok t) (text : String) {fuel depth : ℕ}
    (hfuel : text.length < fuel) (hdepth : text.length < depth) :
    (Scanner.ofRules rules text).tokenize fuel depth = (t.tokenize text).mapError .error :=
  tokenize_eq (works_ofRules ht text) rfl (by rwa [Scanner.ofRules, String.length_toList])
    (by rwa [Scanner.ofRules, String.length_toList])

/-- **Safety**: by well-formed rules every text is either cut into tokens, or there is a character
that no rule accepts, or a section that is not closed. The checked scanner has the same tokens or
the same error as the tokenizer. A fault would have stopped it, so none of its operations was out of
place: no characters were taken from outside a text, every number was that of a rule, what was found
by a fixed text had one, no span ended before it began, and there was fuel left. -/
theorem tokenize_ofRules (ht : Tokenizer.ofRules rules = .ok t) (text : String) :
    (∃ tokens,
      (Scanner.ofRules rules text).tokenize (text.length + 1) (text.length + 1) = .ok tokens ∧
      t.tokenize text = .ok tokens) ∨
    ∃ e,
      (Scanner.ofRules rules text).tokenize (text.length + 1) (text.length + 1)
        = .error (.error e) ∧
      t.tokenize text = .error e ∧
      ((∃ character preview position, e = .unexpectedCharacter character preview position) ∨
        ∃ start stop, e = .unterminatedSection start stop) := by
  have hchecked := tokenize_eq_mapError ht text (Nat.lt_succ_self _) (Nat.lt_succ_self _)
  cases h : t.tokenize text with
  | ok tokens =>
      rw [h] at hchecked
      exact .inl ⟨tokens, hchecked, rfl⟩
  | error e =>
      rw [h] at hchecked
      exact .inr ⟨e, hchecked, rfl, Tokenizer.eq_of_tokenize_eq_error h⟩

theorem tokenize_ofRules_call : ∃ t tokens, Tokenizer.ofRules (callRules false) = .ok t ∧
    (Scanner.ofRules (callRules false) callText).tokenize (callText.length + 1)
      (callText.length + 1) = .ok tokens ∧
    t.tokenize callText = .ok tokens := by
  obtain ⟨t, tokens, ht, h⟩ := Tokenizer.exists_of_isSome_tokens?
    (show (Tokenizer.tokens? (callRules false) callText).isSome = true by decide +kernel)
  obtain ⟨tokens', hchecked, h'⟩ | ⟨e, -, herror, -⟩ := tokenize_ofRules ht callText
  · exact ⟨t, tokens', ht, hchecked, h'⟩
  · cases h.symm.trans herror

/-- A line end is a fixed text, and by well-formed rules fixed texts have characters. -/
lemma nil_notMem_lineEnds (ht : Tokenizer.ofRules rules = .ok t) (text : String) :
    [] ∉ (Scanner.ofRules rules text).index.lineEnds := by
  obtain rfl := Tokenizer.eq_of_ofRules ht
  intro hnil
  rw [Scanner.ofRules, t.lineEnds_numbered] at hnil
  obtain ⟨m, -, hm⟩ := List.mem_map.mp hnil
  cases hm

/-- **Termination**: by well-formed rules every turn over a level moves forward and not beyond the
text, unless the level is over there, and so does every turn through the inside of a section. A
level asks for the levels inside only where they begin further on than it does itself: elsewhere
anything may be put in their place. So the fuel for the whole text is never used up, neither that of
the loops nor that of the recursion, and the checked scanner has the result of the tokenizer. -/
theorem terminates_ofRules (ht : Tokenizer.ofRules rules = .ok t) (text : String) :
    (∀ fuel depth ends, (Scanner.ofRules rules text).Advances (·.place.offset)
      ((Scanner.ofRules rules text).turn fuel
        (fun inner q => (Scanner.ofRules rules text).scan fuel depth (some inner) q) ends)) ∧
    (∀ ends start inside, (Scanner.ofRules rules text).Advances (·.place.offset)
      ((Scanner.ofRules rules text).captureTurn ends start inside)) ∧
    (∀ fuel depth ends p recur,
      (Scanner.ofRules rules text).AgreeBeyond p.offset
        (fun inner q => (Scanner.ofRules rules text).scan fuel depth (some inner) q) recur →
      (Scanner.ofRules rules text).scan fuel (depth + 1) ends p
        = (Scanner.ofRules rules text).scanLevel fuel recur ends p) ∧
    ∀ fuel depth, text.length < fuel → text.length < depth →
      (Scanner.ofRules rules text).tokenize fuel depth = (t.tokenize text).mapError .error := by
  have hlineEnds := nil_notMem_lineEnds ht text
  refine ⟨fun fuel depth => ?_, ?_, fun fuel depth ends p recur h => ?_, fun fuel depth => ?_⟩
  · exact advances_turn hlineEnds (forward_scan hlineEnds fuel depth)
  · exact advances_captureTurn hlineEnds
  · exact scanLevel_congr hlineEnds (forward_scan hlineEnds fuel depth) h ends
  · exact tokenize_eq_mapError ht text

theorem terminates_ofRules_call : ∃ t tokens, Tokenizer.ofRules (callRules false) = .ok t ∧
    (Scanner.ofRules (callRules false) callText).tokenize (callText.length + 1)
      (callText.length + 1) = .ok tokens := by
  obtain ⟨t, tokens, ht, h⟩ := Tokenizer.exists_of_isSome_tokens?
    (show (Tokenizer.tokens? (callRules false) callText).isSome = true by decide +kernel)
  obtain ⟨-, -, -, hfuel⟩ := terminates_ofRules ht callText
  have hchecked := hfuel _ _ (Nat.lt_succ_self _) (Nat.lt_succ_self _)
  rw [h] at hchecked
  exact ⟨t, tokens, ht, hchecked⟩

end Scanner

end RuleLexer
