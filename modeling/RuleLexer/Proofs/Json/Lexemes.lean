import Mathlib.Tactic.IntervalCases
import RuleLexer.Json.Lexeme
import RuleLexer.Proofs.Json.Spelling

/-!
The lexemes of spellings.

Every part of the grammar of JSON that has no parts of its own is one lexeme of a text that goes on
behind it.

* `SpellsChars.read`: a spelled string is read as the string that it spells;
* `SpellsNatural.split`, `Numeral.integer?_of_le`: decimal digits are read as the number that they
  spell, without loss up to 64 bits;
* `Ends`: texts that can stand behind a value;
* `Lexeme.ofText_blanks`, `Lexeme.ofText_string`, `Lexeme.ofText_natural`, ...: what the lexemes of
  a text begin with, for each kind of spelling.
-/

namespace RuleLexer

/-! ### Strings -/

namespace StringPiece

lemma hexDigit?_of_hexDigit {c : Char} {n : ℕ} (h : HexDigit c n) : hexDigit? c = some n := by
  have hall : ∀ n < 16, hexDigit? n.digitChar = some n
      ∧ hexDigit? n.digitChar.toUpper = some n := by decide
  cases h with
  | lower h => exact (hall n h).1
  | upper h => exact (hall n h).2

lemma next_of_spellsUnit {w : List Char} {n : ℕ} (h : SpellsUnit w n) (rest : List Char) :
    next (w ++ rest) = .piece (.unit n) rest := by
  obtain ⟨ha, hb, hc, hd⟩ := h
  simp [next, afterBackslash, unitNumber, hexNumber?, hexDigit?_of_hexDigit ha,
    hexDigit?_of_hexDigit hb, hexDigit?_of_hexDigit hc, hexDigit?_of_hexDigit hd]

lemma next_of_mem_escapeLetters {l c : Char} (h : (l, c) ∈ escapeLetters) (rest : List Char) :
    next ('\\' :: l :: rest) = .piece (.char c) rest := by
  have hall : ∀ e ∈ escapeLetters, e.1 ≠ 'u' ∧ escaped? e.1 = some e.2 := by decide
  obtain ⟨hu, hl⟩ := hall _ h
  simp only at hu hl
  simp [next, afterBackslash, hu, hl]

/-- The number of a character is never that of a half of a pair. -/
lemma decode?_unit_toNat (c : Char) (ps : List StringPiece) :
    decode? (.unit c.toNat :: ps) = (decode? ps).map (c :: ·) := by
  have hc : c.toNat < 0xD800 ∨ 0xDFFF < c.toNat ∧ c.toNat < 0x110000 := c.valid
  have hhigh : isHigh c.toNat = false := by simp [isHigh]; omega
  have hlow : isLow c.toNat = false := by simp [isLow]; omega
  rw [decode?.eq_def]
  simp only [hhigh, hlow, Char.ofNat_toNat, Bool.false_eq_true, if_false]

lemma decode?_pair {n m : ℕ} {c : Char} (hm : m < 0x400)
    (hc : c.toNat = 0x10000 + n * 0x400 + m) (ps : List StringPiece) :
    decode? (.unit (0xD800 + n) :: .unit (0xDC00 + m) :: ps) = (decode? ps).map (c :: ·) := by
  have hn : n < 0x400 := by
    have hvalid : c.toNat < 0xD800 ∨ 0xDFFF < c.toNat ∧ c.toNat < 0x110000 := c.valid
    omega
  have hhigh : isHigh (0xD800 + n) = true := by simp [isHigh]; omega
  have hlow : isLow (0xDC00 + m) = true := by simp [isLow]; omega
  rw [decode?, hhigh]
  simp only [hlow, if_true, Nat.add_sub_cancel_left, ← hc, Char.ofNat_toNat]

end StringPiece

namespace JsonString

lemma readFrom_of_piece {before : List StringPiece} {text rest : List Char} {p : StringPiece}
    (h : StringPiece.next text = .piece p rest) :
    readFrom before text = readFrom (p :: before) rest := by
  rw [readFrom]
  split
  · rename_i h'; rw [h] at h'; cases h'
  · rename_i h'; rw [h] at h'; cases h'
  · rename_i h'; rw [h] at h'; cases h'; rfl

lemma readFrom_quote (before : List StringPiece) (rest : List Char) :
    readFrom before ('"' :: rest)
      = .whole ((StringPiece.decode? before.reverse).map String.ofList) rest := by
  have hclosed : StringPiece.next ('"' :: rest) = .closed rest := rfl
  rw [readFrom]
  split
  · rename_i h; rw [hclosed] at h; cases h; rfl
  · rename_i h; rw [hclosed] at h; cases h
  · rename_i h; rw [hclosed] at h; cases h

end JsonString

/-- A spelling of a character is taken as pieces that stand for it, whatever comes behind them. -/
lemma SpellsChar.exists_pieces {w : List Char} {c : Char} (h : SpellsChar w c) :
    ∃ ps : List StringPiece,
      (∀ qs, StringPiece.decode? (ps ++ qs) = (StringPiece.decode? qs).map (c :: ·)) ∧
      ∀ before rest, JsonString.readFrom before (w ++ rest)
        = JsonString.readFrom (ps.reverse ++ before) rest := by
  cases h with
  | plain hquote hbackslash hc =>
      refine ⟨[.char c], fun _ => rfl, fun before rest => JsonString.readFrom_of_piece ?_⟩
      simp [StringPiece.next, hquote, hbackslash, Nat.not_lt.2 hc]
  | letter h =>
      exact ⟨[.char c], fun _ => rfl, fun before rest =>
        JsonString.readFrom_of_piece (StringPiece.next_of_mem_escapeLetters h rest)⟩
  | unit h =>
      exact ⟨[.unit c.toNat], StringPiece.decode?_unit_toNat c, fun before rest =>
        JsonString.readFrom_of_piece (StringPiece.next_of_spellsUnit h rest)⟩
  | @pair w w' n m _ h h' hm hc =>
      refine ⟨[.unit (0xD800 + n), .unit (0xDC00 + m)], StringPiece.decode?_pair hm hc,
        fun before rest => ?_⟩
      rw [List.append_assoc, JsonString.readFrom_of_piece (StringPiece.next_of_spellsUnit h _),
        JsonString.readFrom_of_piece (StringPiece.next_of_spellsUnit h' _)]
      rfl

lemma SpellsChars.exists_pieces {w cs : List Char} (h : SpellsChars w cs) :
    ∃ ps : List StringPiece, StringPiece.decode? ps = some cs ∧
      ∀ before rest, JsonString.readFrom before (w ++ rest)
        = JsonString.readFrom (ps.reverse ++ before) rest := by
  induction h with
  | nil => exact ⟨[], rfl, fun _ _ => rfl⟩
  | @cons w ws c cs h more ih =>
      obtain ⟨ps, hdecode, hread⟩ := h.exists_pieces
      obtain ⟨qs, hdecode', hread'⟩ := ih
      refine ⟨ps ++ qs, by rw [hdecode, hdecode']; rfl, fun before rest => ?_⟩
      rw [List.append_assoc, hread, hread', List.reverse_append, List.append_assoc]

/-- A spelled string is read as the string that it spells. -/
lemma SpellsChars.read {w : List Char} {s : String} (h : SpellsChars w s.toList)
    (rest : List Char) : JsonString.read (w ++ '"' :: rest) = .whole (some s) rest := by
  obtain ⟨ps, hdecode, hread⟩ := h.exists_pieces
  rw [JsonString.read, hread, JsonString.readFrom_quote, List.append_nil, List.reverse_reverse,
    hdecode, Option.map_some, String.ofList_toList]

/-! ### Numbers -/

/-- What can stand behind a value: nothing, a blank, a comma, or the end of an array or object. -/
def Ends (rest : List Char) : Prop :=
  ∀ c ∈ rest.head?, Lexeme.isBlank c = true ∨ c = ',' ∨ c = ']' ∨ c = '\x7d'

lemma ends_nil : Ends [] := by
  intro c h
  cases h

lemma ends_comma (rest : List Char) : Ends (',' :: rest) := by
  rintro c ⟨⟩
  exact .inr (.inl rfl)

lemma ends_closeArray (rest : List Char) : Ends (']' :: rest) := by
  rintro c ⟨⟩
  exact .inr (.inr (.inl rfl))

lemma ends_closeObject (rest : List Char) : Ends ('\x7d' :: rest) := by
  rintro c ⟨⟩
  exact .inr (.inr (.inr rfl))

lemma Blanks.isBlank {w : List Char} (h : Blanks w) {c : Char} (hc : c ∈ w) :
    Lexeme.isBlank c = true := by
  rcases h c hc with rfl | rfl | rfl | rfl <;> rfl

lemma Ends.blanks {b rest : List Char} (hb : Blanks b) (h : Ends rest) : Ends (b ++ rest) := by
  cases b with
  | nil => exact h
  | cons c b =>
      rintro d ⟨⟩
      exact .inl (hb.isBlank List.mem_cons_self)

/-- No character that stands behind a value goes on with a number. -/
lemma Ends.not_mem {rest : List Char} (h : Ends rest) {c : Char} (hc : c ∈ rest.head?) :
    c.isDigit = false ∧ c ≠ '.' ∧ c ≠ 'e' ∧ c ≠ 'E' := by
  have hends := h c hc
  simp only [Lexeme.isBlank, Bool.or_eq_true, decide_eq_true_eq] at hends
  rcases hends with (((rfl | rfl) | rfl) | rfl) | rfl | rfl | rfl <;> decide

namespace Numeral

lemma digit?_digitChar {d : ℕ} (h : d < 10) : digit? d.digitChar = some d := by
  revert d
  decide

lemma digits_of_ends {rest : List Char} (h : Ends rest) : digits rest = ([], rest) := by
  cases rest with
  | nil => rfl
  | cons c rest => simp [digits, digit?, (h.not_mem (c := c) rfl).1]

lemma digits_map_append {ds : List ℕ} (hds : ∀ d ∈ ds, d < 10) {rest : List Char}
    (h : Ends rest) : digits (ds.map Nat.digitChar ++ rest) = (ds, rest) := by
  induction ds with
  | nil => exact digits_of_ends h
  | cons d ds ih =>
      have ih := ih fun d hd => hds d (List.mem_cons_of_mem _ hd)
      simp [digits, digit?_digitChar (hds d List.mem_cons_self), ih]

lemma fractionPart_of_ends {rest : List Char} (h : Ends rest) :
    fractionPart rest = .ok ([], rest) := by
  rw [fractionPart.eq_def]
  split
  · exact absurd rfl (h.not_mem rfl).2.1
  · rfl

lemma exponentPart_of_ends {rest : List Char} (h : Ends rest) :
    exponentPart rest = .ok (none, rest) := by
  cases rest with
  | nil => rfl
  | cons c rest =>
      obtain ⟨-, -, he, hE⟩ := h.not_mem (c := c) rfl
      simp [exponentPart, he, hE]

lemma le_foldl (ds : List ℕ) (n : ℕ) : n ≤ ds.foldl (fun n d => n * 10 + d) n := by
  induction ds generalizing n with
  | nil => exact Nat.le_refl n
  | cons d ds ih => exact Nat.le_trans (by omega) (ih (n * 10 + d))

/-- Digits are left out only of numbers that exceed the limit. -/
lemma accumulate_eq (ds : List ℕ) (n : ℕ)
    (h : ds.foldl (fun n d => n * 10 + d) n ≤ significandLimit) :
    accumulate n ds = (ds.foldl (fun n d => n * 10 + d) n, 0) := by
  induction ds generalizing n with
  | nil => rfl
  | cons d ds ih =>
      have hle : n * 10 + d ≤ significandLimit := Nat.le_trans (le_foldl ds _) h
      rw [accumulate, if_neg (Nat.not_lt.2 hle)]
      exact ih _ h

/-- A number that fits into 64 bits is read with all its digits. -/
lemma accumulate_zero {ds : List ℕ} (h : ofDigits ds ≤ significandLimit) :
    accumulate 0 ds = (ofDigits ds, 0) :=
  accumulate_eq ds 0 h

end Numeral

/-- Decimal digits one by one: they are not empty, and only a lone one is zero at the front. -/
lemma SpellsNatural.exists_digits {w : List Char} {n : ℕ} (h : SpellsNatural w n) :
    ∃ d ds, w = (d :: ds).map Nat.digitChar ∧ (∀ e ∈ d :: ds, e < 10) ∧
      Numeral.ofDigits (d :: ds) = n ∧ (n = 0 → d = 0 ∧ ds = []) ∧ (d = 0 → n = 0) := by
  induction h with
  | @digit d h => exact ⟨d, [], rfl, by simpa using h, by simp [Numeral.ofDigits], by simp, id⟩
  | @append w n e more hn he ih =>
      obtain ⟨d, ds, rfl, hds, hvalue, -, hzero⟩ := ih
      refine ⟨d, ds ++ [e], by simp, ?_, ?_, by omega, fun h => absurd (hzero h) (by omega)⟩
      · intro x hx
        rcases List.mem_append.1 (List.cons_append ▸ hx) with hx | hx
        · exact hds x hx
        · rwa [List.mem_singleton.1 hx]
      · rw [← List.cons_append, Numeral.ofDigits, List.foldl_append, ← Numeral.ofDigits, hvalue]
        rfl

/-- The digits of a number are read as they stand, and nothing else with them. -/
lemma SpellsNatural.split {w : List Char} {n : ℕ} (h : SpellsNatural w n) (negative : Bool)
    {rest : List Char} (hrest : Ends rest) :
    ∃ ds, Numeral.split negative (w ++ rest) = .ok (⟨negative, ds, [], none⟩, rest) ∧
      Numeral.ofDigits ds = n := by
  obtain ⟨d, ds, rfl, hds, hvalue, hlone, hzero⟩ := h.exists_digits
  have hsome : Numeral.someDigits ((d :: ds).map Nat.digitChar ++ rest) = .ok (d :: ds, rest) := by
    rw [Numeral.someDigits, Numeral.digits_map_append hds hrest]
  have hwhole : Numeral.wholePart ((d :: ds).map Nat.digitChar ++ rest) = .ok (d :: ds, rest) := by
    rw [Numeral.wholePart, hsome]
    split
    · rename_i heq
      -- the digits begin with a zero and go on
      cases heq
      exact absurd (hlone (hzero rfl)).2 (List.cons_ne_nil _ _)
    · rfl
  refine ⟨d :: ds, ?_, hvalue⟩
  rw [Numeral.split, hwhole]
  simp only [bind, Except.bind, Numeral.fractionPart_of_ends hrest,
    Numeral.exponentPart_of_ends hrest]
  rfl

namespace Numeral

/-- A number without fraction and power of ten that fits into 64 bits is an integer. -/
lemma integer?_of_le (negative : Bool) {ds : List ℕ} (h : ofDigits ds ≤ significandLimit) :
    integer? ⟨negative, ds, [], none⟩
      = if !negative then some (ofDigits ds : Int)
        else if ofDigits ds = 0 ∨ negativeLimit < ofDigits ds then none
        else some (-(ofDigits ds : Int)) := by
  simp [integer?, accumulate_zero h]

end Numeral

/-! ### Lexemes -/

namespace Lexeme

lemma ofText_of_startingWith {c : Char} {rest rest' : List Char} {l : Lexeme}
    (hc : isBlank c = false) (h : startingWith c rest = (l, rest')) :
    ofText (c :: rest) = l :: ofText rest' := by
  rw [ofText, hc]
  simp [h]

lemma ofText_blanks {b : List Char} (hb : Blanks b) (rest : List Char) :
    ofText (b ++ rest) = ofText rest := by
  induction b with
  | nil => rfl
  | cons c b ih =>
      rw [List.cons_append, ofText, hb.isBlank List.mem_cons_self, if_pos rfl]
      exact ih fun c hc => hb c (List.mem_cons_of_mem _ hc)

@[simp] lemma ofText_openArray (rest : List Char) :
    ofText ('[' :: rest) = openArray :: ofText rest :=
  ofText_of_startingWith rfl rfl

@[simp] lemma ofText_closeArray (rest : List Char) :
    ofText (']' :: rest) = closeArray :: ofText rest :=
  ofText_of_startingWith rfl rfl

@[simp] lemma ofText_openObject (rest : List Char) :
    ofText ('\x7b' :: rest) = openObject :: ofText rest :=
  ofText_of_startingWith rfl rfl

@[simp] lemma ofText_closeObject (rest : List Char) :
    ofText ('\x7d' :: rest) = closeObject :: ofText rest :=
  ofText_of_startingWith rfl rfl

@[simp] lemma ofText_comma (rest : List Char) : ofText (',' :: rest) = comma :: ofText rest :=
  ofText_of_startingWith rfl rfl

@[simp] lemma ofText_colon (rest : List Char) : ofText (':' :: rest) = colon :: ofText rest :=
  ofText_of_startingWith rfl rfl

@[simp] lemma ofText_null (rest : List Char) :
    ofText ('n' :: 'u' :: 'l' :: 'l' :: rest) = null :: ofText rest :=
  ofText_of_startingWith rfl rfl

@[simp] lemma ofText_true (rest : List Char) :
    ofText ('t' :: 'r' :: 'u' :: 'e' :: rest) = bool true :: ofText rest :=
  ofText_of_startingWith rfl rfl

@[simp] lemma ofText_false (rest : List Char) :
    ofText ('f' :: 'a' :: 'l' :: 's' :: 'e' :: rest) = bool false :: ofText rest :=
  ofText_of_startingWith rfl rfl

lemma ofText_string {w : List Char} {s : String} (h : SpellsChars w s.toList)
    (rest : List Char) : ofText ('"' :: (w ++ '"' :: rest)) = string (some s) :: ofText rest := by
  refine ofText_of_startingWith rfl ?_
  rw [startingWith, quoted, h.read]

lemma startingWith_digitChar {d : ℕ} (h : d < 10) (rest : List Char) :
    startingWith d.digitChar rest = number false (d.digitChar :: rest) := by
  interval_cases d <;> rfl

lemma ofText_natural {w : List Char} {n : ℕ} (h : SpellsNatural w n) (hn : n ≤ 0xFFFFFFFFFFFFFFFF)
    {rest : List Char} (hrest : Ends rest) : ofText (w ++ rest) = integer n :: ofText rest := by
  obtain ⟨ds, hsplit, rfl⟩ := h.split false hrest
  obtain ⟨d, es, rfl, hds, -⟩ := h.exists_digits
  have hd : d < 10 := hds d List.mem_cons_self
  have hblank : ∀ d < 10, isBlank (Nat.digitChar d) = false := by decide
  rw [List.map_cons, List.cons_append] at hsplit ⊢
  refine ofText_of_startingWith (hblank d hd) ?_
  rw [startingWith_digitChar hd, number, hsplit]
  simp only [Numeral.integer?_of_le false hn, Bool.not_false,
    if_true]

lemma ofText_negative {w : List Char} {n : ℕ} (h : SpellsNatural w n) (hpos : 0 < n)
    (hn : n ≤ 0x8000000000000000) {rest : List Char} (hrest : Ends rest) :
    ofText ('-' :: (w ++ rest)) = integer (-n) :: ofText rest := by
  obtain ⟨ds, hsplit, rfl⟩ := h.split true hrest
  have hle : Numeral.ofDigits ds ≤ Numeral.significandLimit := Nat.le_trans hn (by decide)
  have hneg : ¬ (Numeral.ofDigits ds = 0 ∨ Numeral.negativeLimit < Numeral.ofDigits ds) := by
    simp only [Numeral.negativeLimit]
    omega
  refine ofText_of_startingWith rfl ?_
  show number true (w ++ rest) = _
  rw [number, hsplit]
  simp only [Numeral.integer?_of_le true hle, Bool.not_true, if_neg hneg]
  rfl

lemma ofText_negativeZero {rest : List Char} (hrest : Ends rest) :
    ofText ('-' :: '0' :: rest) = real ⟨true, 0, Binary64.leastExponent⟩ :: ofText rest := by
  obtain ⟨ds, hsplit, hzero⟩ := (SpellsNatural.digit (d := 0) (by decide)).split true hrest
  refine ofText_of_startingWith rfl ?_
  show number true ('0' :: rest) = _
  rw [show '0' :: rest = [Nat.digitChar 0] ++ rest from rfl, number, hsplit]
  have hle : Numeral.ofDigits ds ≤ Numeral.significandLimit := hzero ▸ Nat.zero_le _
  have hreal : Numeral.real? ⟨true, ds, [], none⟩ = some ⟨true, 0, Binary64.leastExponent⟩ := by
    rw [Numeral.real?, Numeral.accumulate_zero hle, hzero]
    show Binary64.ofDecimal? true 0 0 = _
    decide +kernel
  simp only [Numeral.integer?_of_le true hle, hzero, hreal, Bool.not_true]
  rfl

end Lexeme

end RuleLexer
