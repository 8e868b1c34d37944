import RuleLexer.Proofs.Lookahead
import RuleLexer.Proofs.Translation

/-!
Texts in rows. Where the line feed is a token of its own and belongs to no other, rows are tokenized
one by one.

* `SeparatesRows`: rules with a literal for the line feed, and with no other use of it;
* `Tokenizer.blind_lineFeed`, `Tokenizer.fixedAt?_lineFeed`: nothing that is matched before a line
  feed goes on over it, and at the line feed the literal is matched;
* `tokenize_rows`: the tokens of two rows with a line feed between are those of the first, the
  line feed, and those of the second, moved behind it.
-/

namespace RuleLexer

variable {κ : Type}

/-- Rules by which a line feed is a token of kind `kind`, and part of no other token that is written
out in a rule. Sections may still have line feeds inside. -/
structure SeparatesRows (rules : List (Rule κ)) (kind : κ) : Prop where
  literal_mem : .literal kind "\n" ∈ rules
  /-- No other rule has a line feed in its texts. -/
  eq_literal : ∀ rule ∈ rules, ∀ s ∈ rule.texts, '\n' ∈ s.toList → rule = .literal kind "\n"
  runs : RunsWithinLine rules
  not_escape : .escape '\n' ∉ rules

/-- The fixed text of the line feed. -/
def FixedText.lineFeed (kind : κ) : FixedText κ :=
  ⟨⟨'\n', []⟩, kind, false, .nothing⟩

namespace Tokenizer

variable {t : Tokenizer κ} {kind : κ}

/-- No marker goes on over a line feed. -/
lemma blind_lineFeed (h : SeparatesRows t.rules kind) (after : List Char) :
    t.index.Blind [] ('\n' :: after) := by
  intro m hm
  refine Marker.blind_cons ?_ after
  intro htail
  obtain ⟨rule, hrule, s, hs, hchars⟩ := t.exists_text_of_knows hm
  have hmem : '\n' ∈ s.toList := hchars ▸ List.mem_cons_of_mem _ htail
  obtain rfl := h.eq_literal rule hrule s hs hmem
  obtain rfl : s = "\n" := by simpa [Rule.texts] using hs
  obtain ⟨-, hnil⟩ : '\n' = m.lead ∧ [] = m.tail := List.cons.inj hchars
  rw [← hnil] at htail
  cases htail

/-- Every fixed text that begins with a line feed is the line feed itself. -/
lemma eq_lineFeed (h : SeparatesRows t.rules kind) {f : FixedText κ}
    (hf : f ∈ t.index.fixedTextsFrom '\n') : f = .lineFeed kind := by
  have hlead := t.lead_of_mem_fixedTextsFrom hf
  have hbegins : '\n' ∈ f.marker.chars := hlead ▸ List.mem_cons_self
  obtain ⟨rule, hrule, hby⟩ := t.exists_fixedBy hf
  obtain ⟨⟨lead, tail⟩, kind', discard, inside⟩ := f
  cases hby with
  | literal text htext hinside =>
      have hrule' := h.eq_literal _ hrule text List.mem_cons_self (htext ▸ hbegins)
      obtain ⟨rfl, rfl, rfl⟩ : kind' = kind ∧ text = "\n" ∧ discard = false := by
        simpa using hrule'
      obtain ⟨rfl, rfl⟩ : '\n' = lead ∧ [] = tail := List.cons.inj htext
      obtain rfl : inside = .nothing := hinside
      rfl
  | delimited opening closings nested htext hinside hclosings =>
      have hrule' := h.eq_literal _ hrule opening List.mem_cons_self (htext ▸ hbegins)
      cases hrule'

/-- At a line feed the literal is matched. -/
lemma fixedAt?_lineFeed (h : SeparatesRows t.rules kind) (after : List Char) :
    t.index.fixedAt? ('\n' :: after) = some ⟨.lineFeed kind, false⟩ := by
  obtain ⟨f, hf, hchars, -⟩ := t.exists_fixed_of_literal h.literal_mem
  have hlead : f.marker.lead = '\n' := (List.cons.inj hchars).1
  rw [hlead] at hf
  have hsome : (t.index.fixedFrom? '\n' after).isSome = true := by
    refine List.find?_isSome.mpr ⟨f, hf, ?_⟩
    rw [eq_lineFeed h hf]
    rfl
  obtain ⟨g, hg⟩ := Option.isSome_iff_exists.mp hsome
  obtain rfl := eq_lineFeed h (List.mem_of_find?_eq_some hg)
  rw [MatchIndex.fixedAt?_of_not_escape (t.isEscape_eq_false h.not_escape), hg]
  rfl

/-- At a line feed outside of sections the level goes on with the literal. -/
lemma ahead_lineFeed (h : SeparatesRows t.rules kind) (after : List Char) :
    t.index.ahead [] ('\n' :: after) = .fixed ⟨.lineFeed kind, false⟩ :=
  MatchIndex.ahead_eq_of_describes ⟨rfl, fixedAt?_lineFeed h after⟩

end Tokenizer

/-! ### The line feed and what comes behind it -/

/-- Behind the line feed the next row begins: it is a text of its own, some lines further down. -/
lemma stop_lineFeed (kind : κ) (after : List Char) (offset : ℕ) (position : Position) :
    FixedMatch.stop ⟨.lineFeed kind, false⟩ ⟨'\n' :: after, offset, position⟩
      = (Cursor.ofText after).moved (.below position.line.val) (offset + 1) := by
  have hnext : position.nextLine = Position.below position.line.val .start := by
    rw [Position.below, Position.nextLine]
    congr 1
    ext
    simp only [Position.start, Coord.val_add, Coord.val_one, Nat.add_comm 1]
  calc FixedMatch.stop ⟨.lineFeed kind, false⟩ ⟨'\n' :: after, offset, position⟩
      = ⟨after, offset + 1, position.nextLine⟩ := rfl
    _ = (Cursor.ofText after).moved (.below position.line.val) (offset + 1) := by
        rw [hnext, Cursor.moved, Cursor.ofText, Nat.zero_add, Nat.add_comm offset]

lemma literalAt_lineFeed (kind : κ) (after : List Char) (offset : ℕ) (position : Position) :
    FixedMatch.literalAt ⟨.lineFeed kind, false⟩ ⟨'\n' :: after, offset, position⟩
      = ⟨kind, "\n", [], none, position, .between offset (offset + 1)⟩ := by
  have htext : (⟨'\n' :: after, offset, position⟩ : Cursor).upTo
      (FixedMatch.stop ⟨.lineFeed kind, false⟩ ⟨'\n' :: after, offset, position⟩) = ['\n'] := by
    rw [stop_lineFeed, Cursor.upTo, Cursor.moved, Cursor.ofText]
    have hone : 0 + (offset + 1) - offset = 1 := by omega
    simp only [hone, List.take_succ_cons, List.take_zero]
  rw [FixedMatch.literalAt, Token.between, htext]
  rfl

/-- **Rows**: a text is tokenized up to a line feed as if it ended there, and from the line feed on as
if it began there, unless an escape character stands before the line feed. The line feed stands
where the tokens of the first row end. -/
theorem tokenize_rows {rules : List (Rule κ)} {kind : κ} {t : Tokenizer κ} {a b : String}
    {ta tb : TokenList κ} (ht : Tokenizer.ofRules rules = .ok t) (hrules : SeparatesRows rules kind)
    (ha : t.tokenize a = .ok ta) (hb : t.tokenize b = .ok tb)
    (hlast : ∀ c, a.toList.getLast? = some c → .escape c ∉ rules) :
    ∃ position, Covers t.index [] (.ofText a.toList) ta ⟨[], a.length, position⟩ ∧
      t.tokenize (a ++ "\n" ++ b) = .ok (ta ++
        [⟨kind, "\n", [], none, position, .between a.length (a.length + 1)⟩] ++
        TokenList.moved (.below position.line.val) (a.length + 1) tb) := by
  obtain rfl := Tokenizer.eq_of_ofRules ht
  obtain ⟨⟨rest, offset, position⟩, hcovers, hrest⟩ := t.covers_of_tokenize ha
  obtain rfl : rest = [] := hrest
  obtain rfl : offset = a.length := by
    have hoffset := hcovers.reaches.offset_add_length
    simpa [Cursor.ofText, String.length_toList] using hoffset
  -- the second row is moved behind the line feed, and the line feed put in front of it
  obtain ⟨stop, hsecond, -⟩ := t.covers_of_tokenize hb
  have hbehind := hsecond.moved (Position.embedding_below position.line.val) (a.length + 1)
    Position.proper_start
  rw [← stop_lineFeed kind] at hbehind
  have hline := Covers.literal (Tokenizer.ahead_lineFeed hrules b.toList) rfl hbehind
  rw [literalAt_lineFeed] at hline
  have hnone : ∀ m ∈ ([] : List Marker), m ∈ [] ∧ m.Blind [] ('\n' :: b.toList) := by simp
  have hjoined := hcovers.exchange (Tokenizer.blind_lineFeed hrules b.toList) hnone List.nil_suffix
    (fun x hx => t.isEscape_eq_false (hlast x (getLast?_of_cons_suffix (List.append_nil a.toList ▸ hx))))
    (fun d after hd _ => by
      obtain ⟨rfl, -⟩ := List.cons.inj hd
      exact t.runFor?_eq_none_of_isLineBreak hrules.runs rfl)
    hline
  have htext : (Cursor.ofText a.toList).exchange [] ('\n' :: b.toList)
      = .ofText (a ++ "\n" ++ b).toList := by
    simp [Cursor.exchange, Cursor.ofText]
  rw [htext, ← List.append_assoc] at hjoined
  exact ⟨position, hcovers, Tokenizer.tokenize_of_covers hjoined⟩

/-- Rules for rows of fields. Quoted fields and groups of fields may go over several lines. -/
def fieldRules : List (Rule String) := [
  .run "word" .letter,
  .literal "comma" ",",
  .delimited "quote" "\"" ["\""],
  .delimited "group" "(" [")"] true,
  .literal "row" "\n",
  .escape '\\']

lemma separatesRows_fieldRules : SeparatesRows fieldRules "row" where
  literal_mem := by decide
  eq_literal := by decide +kernel
  runs kind charClass discard h := by
    obtain ⟨-, rfl, -⟩ : kind = "word" ∧ charClass = .letter ∧ discard = false := by
      simpa [fieldRules] using h
    decide
  not_escape := by decide

theorem tokenize_rows_fields : ∃ t ta tb position, Tokenizer.ofRules fieldRules = .ok t ∧
    t.tokenize "a,\"b\\\"\nc\"" = .ok ta ∧ t.tokenize "d,(e\nf)" = .ok tb ∧
    Covers t.index [] (.ofText "a,\"b\\\"\nc\"".toList) ta ⟨[], 9, position⟩ ∧
    t.tokenize "a,\"b\\\"\nc\"\nd,(e\nf)" = .ok (ta ++
      [⟨"row", "\n", [], none, position, .between 9 10⟩] ++
      TokenList.moved (.below position.line.val) 10 tb) := by
  have ha : (Tokenizer.tokens? fieldRules "a,\"b\\\"\nc\"").isSome = true := by decide +kernel
  have hb : (Tokenizer.tokens? fieldRules "d,(e\nf)").isSome = true := by decide +kernel
  obtain ⟨t, ta, ht, hta⟩ := Tokenizer.exists_of_isSome_tokens? ha
  obtain ⟨t', tb, ht', htb⟩ := Tokenizer.exists_of_isSome_tokens? hb
  obtain rfl : t = t' := Except.ok.inj (ht.symm.trans ht')
  have hlast : ∀ c, "a,\"b\\\"\nc\"".toList.getLast? = some c → .escape c ∉ fieldRules := by
    intro c hc
    obtain rfl : '"' = c := by simpa using hc
    decide
  obtain ⟨position, hcovers, htokens⟩ := tokenize_rows ht separatesRows_fieldRules hta htb hlast
  exact ⟨t, ta, tb, position, ht, hta, htb, hcovers, htokens⟩

end RuleLexer
