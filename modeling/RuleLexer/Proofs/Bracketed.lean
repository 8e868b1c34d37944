import RuleLexer.Proofs.Brackets

/-!
The language of the brackets: the texts that are tokenized by rules for words and brackets are the
well bracketed ones, and any other text fails at the bracket that is to blame.

* `Bracketed`: the well bracketed texts, each with the words and pairs that it consists of;
* `Tokenizer.covers_of_bracketed`, `Tokenizer.bracketed_of_covers`: these are the tokens that cover
  the text, by induction on either side;
* `openAfter`: the brackets that a text leaves open, or the first closing bracket out of place;
* `State.Tracks`: the open sections of the machine are those of the open brackets; one step of the
  machine keeps to it at every kind of character (`State.Tracks.step_letter` and the lemmas behind
  it), and `State.verdict_run` says where a whole run comes to;
* `tokenize_brackets`: tokenizing succeeds just on the well bracketed texts, and otherwise blames the
  first closing bracket out of place, or else the last bracket that is left open.
-/

namespace RuleLexer

variable {κ : Type}

/-! ### Bracketed texts -/

/-- The token of a word with `i` characters in front of it. -/
def wordToken (word : κ) (i : ℕ) (w : List Char) : Token κ where
  kind := word
  text := String.ofList w
  nested := []
  delimiters := none
  position := Position.start.advance i
  span := .between i (i + w.length)

/-- The token of a pair with `i` characters in front of it, and with `n` characters inside that
consist of the tokens `inner`. -/
def Bracket.token (b : Bracket κ) (i n : ℕ) (inner : TokenList κ) : Token κ where
  kind := b.kind
  text := String.ofList b.chars
  nested := inner
  delimiters := some ⟨String.singleton b.opening, String.singleton b.closing, none⟩
  position := Position.start.advance i
  span := .between i (i + n + 2)

/-- The characters are well bracketed, and the tokens are the words and the pairs that they consist
of, in their order. There are `i` characters in front of them. Words are as long as possible. -/
inductive Bracketed (word : κ) (brackets : List (Bracket κ)) : ℕ → List Char → TokenList κ → Prop
  | nil (i : ℕ) : Bracketed word brackets i [] []
  | word {i : ℕ} {w rest : List Char} {tokens : TokenList κ} (hne : w ≠ [])
      (hw : ∀ c ∈ w, CharClass.letter.accepts c = true)
      (hrest : ∀ c, rest.head? = some c → CharClass.letter.accepts c = false)
      (more : Bracketed word brackets (i + w.length) rest tokens) :
      Bracketed word brackets i (w ++ rest) (wordToken word i w :: tokens)
  | pair {i : ℕ} {b : Bracket κ} {inside rest : List Char} {inner tokens : TokenList κ}
      (hb : b ∈ brackets) (within : Bracketed word brackets (i + 1) inside inner)
      (more : Bracketed word brackets (i + inside.length + 2) rest tokens) :
      Bracketed word brackets i (b.opening :: inside ++ b.closing :: rest)
        (b.token i inside.length inner :: tokens)

/-! ### Places on the first line -/

namespace Cursor

/-- The place with `n` characters in front of it, where no line has ended yet. -/
def onFirstLine (rest : List Char) (n : ℕ) : Cursor :=
  ⟨rest, n, Position.start.advance n⟩

lemma onFirstLine_zero (text : List Char) : onFirstLine text 0 = .ofText text := by
  rw [onFirstLine, Position.advance_zero, ofText]

lemma advance_onFirstLine (w rest : List Char) (i : ℕ) :
    (onFirstLine (w ++ rest) i).advance w.length = onFirstLine rest (i + w.length) := by
  simp only [onFirstLine, advance, List.drop_left, Position.advance_advance]

end Cursor

section Places

open Cursor

variable {b : Bracket κ}

lemma Bracket.stop_onFirstLine (b : Bracket κ) (after : List Char) (i : ℕ) :
    FixedMatch.stop ⟨b.fixed, false⟩ (onFirstLine (b.opening :: after) i)
      = onFirstLine after (i + 1) :=
  advance_onFirstLine [b.opening] after i

lemma Bracket.past_onFirstLine (hb : isLineBreak b.closing = false) (after : List Char) (i : ℕ) :
    (onFirstLine (b.closing :: after) i).past b.closer = onFirstLine after (i + 1) := by
  have hline : b.closer.breaksLine = false := by
    simp [closer, Marker.breaksLine, Marker.chars, hb]
  rw [past, hline]
  exact advance_onFirstLine [b.closing] after i

lemma tokenAt_onFirstLine (word : κ) (w rest : List Char) (i : ℕ) :
    (wordRun word).tokenAt (onFirstLine (w ++ rest) i) w.length = wordToken word i w := by
  have htext : (onFirstLine (w ++ rest) i).upTo (onFirstLine rest (i + w.length)) = w := by
    simp [upTo, onFirstLine]
  rw [CharRun.tokenAt, advance_onFirstLine, Token.between, htext]
  rfl

lemma Bracket.nestedAt_onFirstLine (hb : isLineBreak b.closing = false) (inside rest : List Char)
    (i : ℕ) (inner : TokenList κ) :
    FixedMatch.nestedAt ⟨b.fixed, false⟩ (onFirstLine (b.opening :: inside ++ b.closing :: rest) i)
        (onFirstLine (b.closing :: rest) (i + 1 + inside.length)) b.closer inner
      = b.token i inside.length inner := by
  have hopening : (onFirstLine (b.opening :: (inside ++ b.closing :: rest)) i).upTo
      (onFirstLine (inside ++ b.closing :: rest) (i + 1)) = [b.opening] := by
    simp [upTo, onFirstLine]
  have hclosing : (onFirstLine (b.closing :: rest) (i + 1 + inside.length)).upTo
      (onFirstLine rest (i + 1 + inside.length + 1)) = [b.closing] := by
    simp [upTo, onFirstLine]
  have hstop : i + 1 + inside.length + 1 = i + inside.length + 2 := by omega
  rw [FixedMatch.nestedAt, List.cons_append, b.stop_onFirstLine, past_onFirstLine hb, Token.section,
    hopening, hclosing, hstop]
  rfl

end Places

/-! ### Bracketed texts and their levels -/

namespace Tokenizer

variable {t : Tokenizer κ} {word : κ} {brackets : List (Bracket κ)} {closings : List Marker}

lemma isLineBreak_closing (h : BracketRules t.rules word brackets) {b : Bracket κ}
    (hb : b ∈ brackets) : isLineBreak b.closing = false :=
  h.not_lineBreak _ (BracketRules.mem_chars hb).2

/-- The tokens of a bracketed text cover it, up to where the level ends. -/
theorem covers_of_bracketed (h : BracketRules t.rules word brackets)
    (hclosings : ∀ m ∈ closings, ∃ b ∈ brackets, m = b.closer) {u : List Char}
    (hend : t.index.ahead closings u = .levelEnd)
    (hu : ∀ c, u.head? = some c → CharClass.letter.accepts c = false) {i : ℕ} {w : List Char}
    {tokens : TokenList κ} (hw : Bracketed word brackets i w tokens) :
    Covers t.index closings (.onFirstLine (w ++ u) i) tokens (.onFirstLine u (i + w.length)) := by
  induction hw generalizing closings u with
  | nil i => exact .levelEnd hend
  | @word i w rest tokens hne hw hrest more ih =>
      have hrest' : ∀ c, (rest ++ u).head? = some c → CharClass.letter.accepts c = false := by
        intro c hc
        cases rest with
        | nil => exact hu c hc
        | cons d rest => exact hrest c hc
      have hahead := ahead_word h hclosings hne hw hrest'
      have hmore := ih hclosings hend hu
      rw [← Cursor.advance_onFirstLine, Nat.add_assoc, ← List.length_append] at hmore
      have hcovers := Covers.run (c := .onFirstLine (w ++ (rest ++ u)) i) hahead hmore
      rw [tokenAt_onFirstLine] at hcovers
      rw [List.append_assoc]
      exact hcovers
  | @pair i b inside rest inner tokens hb within more ihwithin ih =>
      have hcloser : ∀ m ∈ [b.closer], ∃ b ∈ brackets, m = b.closer := by
        intro m hm
        exact ⟨b, hb, List.mem_singleton.mp hm⟩
      have hno : ∀ c, (b.closing :: (rest ++ u)).head? = some c →
          CharClass.letter.accepts c = false := by
        intro c hc
        obtain rfl : b.closing = c := Option.some.inj hc
        exact h.not_letter _ (BracketRules.mem_chars hb).2
      have hinside := ihwithin hcloser (ahead_closing b (rest ++ u)) hno
      have hmore := ih hclosings hend hu
      have hbehind : i + inside.length + 2 = i + 1 + inside.length + 1 := by omega
      have hlength : (b.opening :: inside ++ b.closing :: rest).length
          = inside.length + rest.length + 2 := by
        simp only [List.cons_append, List.length_cons, List.length_append]
        omega
      have hstop : i + inside.length + 2 + rest.length
          = i + (b.opening :: inside ++ b.closing :: rest).length := by
        omega
      rw [hstop, hbehind, ← Bracket.past_onFirstLine (isLineBreak_closing h hb)] at hmore
      rw [← b.stop_onFirstLine] at hinside
      have hcovers := Covers.nested (ahead_opening h hclosings hb) rfl hinside
        (firstAt?_closer b (rest ++ u)) hmore
      rw [← List.cons_append, Bracket.nestedAt_onFirstLine (isLineBreak_closing h hb)] at hcovers
      rw [List.append_assoc, List.cons_append]
      exact hcovers

/-- What covers a text up to where a level ends is bracketed. -/
theorem bracketed_of_covers (h : BracketRules t.rules word brackets)
    (hclosings : ∀ m ∈ closings, ∃ b ∈ brackets, m = b.closer) {c stop : Cursor}
    {tokens : TokenList κ} (hcovers : Covers t.index closings c tokens stop) {rest : List Char}
    {i : ℕ} (hc : c = .onFirstLine rest i) :
    ∃ w u, rest = w ++ u ∧ stop = .onFirstLine u (i + w.length) ∧
      Bracketed word brackets i w tokens := by
  induction hcovers generalizing rest i with
  | levelEnd hahead => exact ⟨[], rest, rfl, hc, .nil i⟩
  | @run closings c stop r n tokens hahead more ih =>
      subst hc
      obtain ⟨rfl, hpos, hletters, hbehind⟩ := word_of_ahead_run h hahead
      have hn := List.length_take_of_le (MatchIndex.run_length_le hahead)
      obtain ⟨w, behind, rfl, rfl⟩ : ∃ w behind, rest = w ++ behind ∧ w.length = n :=
        ⟨rest.take n, rest.drop n, (List.take_append_drop n rest).symm, hn⟩
      have hnext := Cursor.advance_onFirstLine w behind i
      obtain ⟨w', u, rfl, rfl, hmore⟩ := ih hclosings hnext
      have hstop : i + w.length + w'.length = i + (w ++ w').length := by
        rw [List.length_append, Nat.add_assoc]
      have hno : ∀ d, w'.head? = some d → CharClass.letter.accepts d = false := by
        intro d hd
        obtain ⟨w'', rfl⟩ := List.head?_eq_some_iff.mp hd
        refine hbehind d (w'' ++ u) (by simp [Cursor.onFirstLine]) ?_
        -- the level goes on at `d`, so it is no closing bracket
        rcases more.eq_or_lt with hsame | ⟨hgoes, -⟩
        · have hnil := congrArg (·.rest.length) (hsame.trans hnext)
          simp only [Cursor.onFirstLine, List.length_append, List.length_cons] at hnil
          omega
        · rw [hnext] at hgoes
          exact MatchIndex.firstAt?_eq_none_of_ahead_ne hgoes
      have hletters' : ∀ d ∈ w, CharClass.letter.accepts d = true := by
        intro d hd
        exact hletters d (by simpa [Cursor.onFirstLine] using hd)
      rw [hstop, tokenAt_onFirstLine]
      exact ⟨w ++ w', u, (List.append_assoc w w' u).symm, rfl,
        .word (List.length_pos_iff.mp hpos) hletters' hno hmore⟩
  | @literal closings c stop m tokens hahead hi more ih =>
      obtain ⟨b, -, after, -, rfl⟩ := exists_of_ahead_fixed h hahead
      cases hi
  | @raw closings ends c stop m r tokens hahead hi hr more ih =>
      obtain ⟨b, -, after, -, rfl⟩ := exists_of_ahead_fixed h hahead
      cases hi
  | @nested closings ends c closing stop m marker inner tokens hahead hi inside hm more ihinside ih =>
      subst hc
      obtain ⟨b, hb, after, hafter, rfl⟩ := exists_of_ahead_fixed h hahead
      obtain rfl : rest = b.opening :: after := hafter
      obtain rfl : [b.closer] = ends := Inside.nested.inj hi
      have hcloser : ∀ m ∈ [b.closer], ∃ b ∈ brackets, m = b.closer := by
        intro m hm
        exact ⟨b, hb, List.mem_singleton.mp hm⟩
      obtain ⟨w, u, rfl, rfl, hwithin⟩ := ihinside hcloser (b.stop_onFirstLine after i)
      obtain rfl : marker = b.closer := List.mem_singleton.mp (List.mem_of_find?_eq_some hm)
      obtain ⟨u, rfl⟩ : ∃ u', b.closing :: u' = u :=
        Marker.occursAt_iff.mp (Marker.occursAt_of_firstAt? hm)
      have hnext := Bracket.past_onFirstLine (isLineBreak_closing h hb) u (i + 1 + w.length)
      obtain ⟨w', u, rfl, rfl, hmore⟩ := ih hclosings hnext
      have hbehind : i + 1 + w.length + 1 = i + w.length + 2 := by omega
      have hstop : i + 1 + w.length + 1 + w'.length
          = i + (b.opening :: w ++ b.closing :: w').length := by
        simp only [List.cons_append, List.length_cons, List.length_append]
        omega
      rw [hbehind] at hmore
      rw [hstop, ← List.cons_append, Bracket.nestedAt_onFirstLine (isLineBreak_closing h hb)]
      refine ⟨b.opening :: w ++ b.closing :: w', u, ?_, rfl, .pair hb hwithin hmore⟩
      rw [List.append_assoc]
      rfl

end Tokenizer

/-! ### Brackets that are left open -/

/-- Goes through the characters and keeps the brackets that are open, the innermost first, each with
the number of characters in front of it. The answer is what is open at the end, or the number of
characters in front of a closing bracket that does not belong to the innermost open one. -/
def openAfter (brackets : List (Bracket κ)) :
    List (Bracket κ × ℕ) → ℕ → List Char → Except ℕ (List (Bracket κ × ℕ))
  | opened, _, [] => .ok opened
  | opened, i, c :: after =>
      match brackets.find? (·.opening = c) with
      | some b => openAfter brackets ((b, i) :: opened) (i + 1) after
      | none =>
          if brackets.all (·.closing ≠ c) then openAfter brackets opened (i + 1) after
          else match opened with
            | [] => .error i
            | (b, _) :: outer =>
                if b.closing = c then openAfter brackets outer (i + 1) after else .error i

section OpenAfter

variable {rules : List (Rule κ)} {word : κ} {brackets : List (Bracket κ)} {b : Bracket κ}

lemma find?_opening_eq_none {c : Char} (hc : ∀ b ∈ brackets, b.opening ≠ c) :
    brackets.find? (·.opening = c) = none :=
  List.find?_eq_none.mpr fun b hb => by simpa using hc b hb

lemma openAfter_letter (h : BracketRules rules word brackets) {c : Char}
    (hc : CharClass.letter.accepts c = true) (opened : List (Bracket κ × ℕ)) (i : ℕ)
    (after : List Char) :
    openAfter brackets opened i (c :: after) = openAfter brackets opened (i + 1) after := by
  have hopening := find?_opening_eq_none (h.letter_ne_opening hc)
  have hclosing : brackets.all (·.closing ≠ c) = true := by
    simpa using h.letter_ne_closing hc
  simp only [openAfter, hopening, hclosing, if_true]

lemma openAfter_opening (h : BracketRules rules word brackets) (hb : b ∈ brackets)
    (opened : List (Bracket κ × ℕ)) (i : ℕ) (after : List Char) :
    openAfter brackets opened i (b.opening :: after)
      = openAfter brackets ((b, i) :: opened) (i + 1) after := by
  have hfind : brackets.find? (·.opening = b.opening) = some b := by
    cases hfind : brackets.find? (·.opening = b.opening) with
    | none => simpa using List.find?_eq_none.mp hfind b hb
    | some b' =>
        have hopening : b'.opening = b.opening := by simpa using List.find?_some hfind
        rw [h.opening_injective (List.mem_of_find?_eq_some hfind) hb hopening]
  simp only [openAfter, hfind]

lemma openAfter_closing (h : BracketRules rules word brackets) (hb : b ∈ brackets)
    (opened : List (Bracket κ × ℕ)) (i : ℕ) (after : List Char) :
    openAfter brackets opened i (b.closing :: after) = match opened with
      | [] => .error i
      | (b', _) :: outer =>
          if b'.closing = b.closing then openAfter brackets outer (i + 1) after
          else .error i := by
  have hopening : brackets.find? (·.opening = b.closing) = none :=
    find?_opening_eq_none fun b' hb' => h.opening_ne_closing hb' hb
  have hclosing : ¬ brackets.all (·.closing ≠ b.closing) = true := by
    simp only [List.all_eq_true, not_forall]
    exact ⟨b, hb, by simp⟩
  cases opened with
  | nil => simp only [openAfter, hopening, if_neg hclosing]
  | cons p outer => simp only [openAfter, hopening, if_neg hclosing]

end OpenAfter

/-! ### The machine and the brackets that are open -/

namespace State

/-- The machine has `rest` to read, with `i` characters in front of it, and its open sections are
those of the brackets that are open. -/
structure Tracks (brackets : List (Bracket κ)) (s : State κ) (rest : List Char) (i : ℕ)
    (opened : List (Bracket κ × ℕ)) : Prop where
  cursor : s.cursor = .onFirstLine rest i
  opened : List.Forall₂ (fun o p => p.1 ∈ brackets ∧ o.closings = [p.1.closer] ∧
    o.start.position = Position.start.advance p.2) s.opened opened

variable {t : Tokenizer κ} {word : κ} {brackets : List (Bracket κ)} {s : State κ} {c : Char}
  {after rest : List Char} {i : ℕ} {opened : List (Bracket κ × ℕ)} {b : Bracket κ}

namespace Tracks

lemma rest_eq (hs : s.Tracks brackets rest i opened) : s.cursor.rest = rest := by
  rw [hs.cursor]
  rfl

/-- Only the closing bracket of the innermost open pair closes a section. -/
lemma closing?_eq_none (hs : s.Tracks brackets (c :: after) i opened)
    (hc : ∀ b j outer, b ∈ brackets → opened = (b, j) :: outer → b.closing ≠ c) :
    s.closing? = none := by
  rw [closing?_eq_none_iff, hs.rest_eq, closings]
  have hopened := hs.opened
  generalize s.opened = sections at hopened
  cases hopened with
  | nil => rfl
  | @cons o p sections outer hp _ =>
      obtain ⟨b, j⟩ := p
      obtain ⟨hb, hclosings, -⟩ := hp
      have hne : b.closing ≠ c := hc b j outer hb rfl
      simp [hclosings, Marker.firstAt?, Marker.occursAt, Bracket.closer, Marker.chars, hne]

/-- A letter leaves the open brackets as they are. -/
lemma step_letter (h : BracketRules t.rules word brackets)
    (hs : s.Tracks brackets (c :: after) i opened) (hc : CharClass.letter.accepts c = true) :
    ∃ s', s.step t.index = .next s' ∧ s'.Tracks brackets after (i + 1) opened := by
  have hclose := hs.closing?_eq_none fun b _ _ hb _ => h.letter_ne_closing hc b hb
  have hfixed := Tokenizer.fixedAt?_eq_none h (h.letter_ne_opening hc) after
  have hrun := Tokenizer.runFor?_letter h hc
  have hstep : s.step t.index = .next { s with
      cursor := s.cursor.advance 1
      level := s.level.extend (wordRun word) s.cursor } := by
    simp only [step, hs.rest_eq, hclose, takeChar, hrun, hfixed, ite_self]
  refine ⟨_, hstep, ?_, hs.opened⟩
  rw [hs.cursor]
  exact Cursor.advance_onFirstLine [c] after i

/-- An opening bracket is open from there on. -/
lemma step_opening (h : BracketRules t.rules word brackets) (hb : b ∈ brackets)
    (hs : s.Tracks brackets (b.opening :: after) i opened) :
    ∃ s', s.step t.index = .next s' ∧ s'.Tracks brackets after (i + 1) ((b, i) :: opened) := by
  have hclose := hs.closing?_eq_none fun b' _ _ hb' _ => (h.opening_ne_closing hb hb').symm
  have hfixed := Tokenizer.fixedAt?_opening h hb after
  have hrun := Tokenizer.runFor?_not_letter h (h.not_letter _ (BracketRules.mem_chars hb).1)
  have hstep : s.step t.index = .next {
      cursor := FixedMatch.stop ⟨b.fixed, false⟩ s.cursor
      level := {}
      opened := ⟨b.kind, false, [b.closer], s.cursor, FixedMatch.stop ⟨b.fixed, false⟩ s.cursor,
        s.level.flush s.cursor⟩ :: s.opened
      entered := s.cursor.position :: s.entered } := by
    simp only [step, hs.rest_eq, hclose, takeChar, hrun, hfixed]
    rfl
  refine ⟨_, hstep, ?_, .cons ⟨hb, rfl, ?_⟩ hs.opened⟩
  · rw [hs.cursor]
    exact b.stop_onFirstLine after i
  · rw [hs.cursor]
    rfl

/-- The closing bracket of the innermost open pair closes it. -/
lemma step_closing (h : BracketRules t.rules word brackets) {j : ℕ}
    (hs : s.Tracks brackets (b.closing :: after) i ((b, j) :: opened)) :
    ∃ s', s.step t.index = .next s' ∧ s'.Tracks brackets after (i + 1) opened := by
  obtain ⟨o, sections, ⟨hb, hclosings, -⟩, houter, hopened⟩ :=
    List.forall₂_cons_right_iff.mp hs.opened
  have hclose : s.closing? = some (o, sections, b.closer) := by
    simp only [closing?, hopened, hclosings, hs.rest_eq, Tokenizer.firstAt?_closer,
      Option.map_some]
  have hstep : s.step t.index = .next { s with
      cursor := s.cursor.past b.closer
      level := o.close s.level s.cursor (s.cursor.past b.closer)
      opened := sections } := by
    simp only [step, hs.rest_eq, hclose]
  refine ⟨_, hstep, ?_, houter⟩
  rw [hs.cursor]
  exact Bracket.past_onFirstLine (Tokenizer.isLineBreak_closing h hb) after i

/-- Any other closing bracket stops the machine. -/
lemma step_stray (h : BracketRules t.rules word brackets) (hb : b ∈ brackets)
    (hs : s.Tracks brackets (b.closing :: after) i opened)
    (hstray : ∀ b' j outer, opened = (b', j) :: outer → b'.closing ≠ b.closing) :
    s.step t.index = .halt (.error (.unexpected (b.closing :: after) (Position.start.advance i))) := by
  have hclose := hs.closing?_eq_none fun b' j outer _ hopened => hstray b' j outer hopened
  have hfixed := Tokenizer.fixedAt?_eq_none h (c := b.closing)
    (fun b' hb' => h.opening_ne_closing hb' hb) after
  have hrun := Tokenizer.runFor?_not_letter h (h.not_letter _ (BracketRules.mem_chars hb).2)
  simp only [step, hs.rest_eq, hclose, takeChar, hrun, hfixed]
  rw [hs.cursor]
  rfl

end Tracks

/-- What tokenizing leads to, said by the brackets that are left open. -/
def Verdict (text : List Char) :
    Except ℕ (List (Bracket κ × ℕ)) → Except ScanError (TokenList κ) → Prop
  | .error i, result => result = .error (.unexpected (text.drop i) (Position.start.advance i))
  | .ok [], result => ∃ tokens, result = .ok tokens
  | .ok ((_, i) :: _), result => result = .error
      (.unterminatedSection (Position.start.advance i) (Position.start.advance text.length))

/-- **Brackets**: what the machine leads to is what the brackets say. -/
theorem verdict_run (h : BracketRules t.rules word brackets) {text : List Char}
    (hrest : text.drop i = rest) (hlength : i + rest.length = text.length)
    (hover : OverBrackets brackets rest) (hs : s.Tracks brackets rest i opened) :
    Verdict text (openAfter brackets opened i rest) (s.run t.index).result := by
  -- the machine takes one character with each step
  induction rest generalizing s i opened with
  | nil =>
      have hend : i = text.length := hlength
      have hopened := hs.opened
      cases opened with
      | nil =>
          have hnil : s.opened = [] := List.forall₂_nil_right_iff.mp hopened
          have hstep : s.step t.index = .halt (.ok (s.level.tokensUpTo s.cursor)) := by
            simp only [step, hs.rest_eq, hnil]
          rw [run_of_halt hstep]
          exact ⟨_, rfl⟩
      | cons p outer =>
          obtain ⟨o, sections, ⟨-, -, hstart⟩, -, hcons⟩ := List.forall₂_cons_right_iff.mp hopened
          rw [run_of_rest_eq_nil hcons hs.rest_eq, hstart, hs.cursor, hend]
          rfl
  | cons c after ih =>
      have hafter : text.drop (i + 1) = after := by
        rw [← List.drop_drop, hrest]
        rfl
      have hlength' : i + 1 + after.length = text.length := by
        rw [List.length_cons] at hlength
        omega
      have hover' : OverBrackets brackets after := fun d hd => hover d (List.mem_cons_of_mem c hd)
      have hnext : ∀ {s' : State κ} {opened'}, s.step t.index = .next s' →
          s'.Tracks brackets after (i + 1) opened' →
          Verdict text (openAfter brackets opened' (i + 1) after) (s.run t.index).result := by
        intro s' opened' hstep hs'
        rw [run_of_next hstep]
        exact ih hafter hlength' hover' hs'
      rcases hover c List.mem_cons_self with hc | hc
      · obtain ⟨s', hstep, hs'⟩ := hs.step_letter h hc
        rw [openAfter_letter h hc]
        exact hnext hstep hs'
      · obtain ⟨b, hb, hc⟩ := List.mem_flatMap.mp hc
        have hcases : c = b.opening ∨ c = b.closing := by simpa [Bracket.chars] using hc
        rcases hcases with rfl | rfl
        · obtain ⟨s', hstep, hs'⟩ := hs.step_opening h hb
          rw [openAfter_opening h hb]
          exact hnext hstep hs'
        · rw [openAfter_closing h hb]
          cases opened with
          | nil =>
              have hstep := hs.step_stray h hb (by simp)
              rw [run_of_halt hstep, ← hrest]
              rfl
          | cons p outer =>
              obtain ⟨b', j⟩ := p
              by_cases hmatch : b'.closing = b.closing
              · rw [← hmatch] at hs
                obtain ⟨s', hstep, hs'⟩ := hs.step_closing h
                simp only [if_pos hmatch]
                exact hnext hstep hs'
              · have hstep := hs.step_stray h hb fun b'' j' outer' hcons => by
                  obtain ⟨rfl, -⟩ := Prod.mk.inj (List.cons.inj hcons).1
                  exact hmatch
                simp only [if_neg hmatch]
                rw [run_of_halt hstep, ← hrest]
                rfl

end State

/-! ### Tokenizers -/

namespace Tokenizer

variable {t : Tokenizer κ} {word : κ} {brackets : List (Bracket κ)} {text : String}

/-- A text is tokenized into the words and pairs that it consists of. -/
lemma tokenize_eq_ok_iff (h : BracketRules t.rules word brackets) {tokens : TokenList κ} :
    t.tokenize text = .ok tokens ↔ Bracketed word brackets 0 text.toList tokens := by
  have hnone : ∀ m ∈ ([] : List Marker), ∃ b ∈ brackets, m = b.closer := by simp
  constructor
  · intro htokens
    obtain ⟨stop, hcovers, hstop⟩ := t.covers_of_tokenize htokens
    obtain ⟨w, u, htext, rfl, hw⟩ :=
      bracketed_of_covers h hnone hcovers (Cursor.onFirstLine_zero text.toList).symm
    obtain rfl : u = [] := hstop
    rw [htext, List.append_nil]
    exact hw
  · intro hw
    have hcovers := covers_of_bracketed h hnone (u := []) rfl (by simp) hw
    rw [List.append_nil, Cursor.onFirstLine_zero] at hcovers
    exact t.tokenize_of_covers hcovers

lemma verdict_tokenize (h : BracketRules t.rules word brackets)
    (hover : OverBrackets brackets text.toList) :
    State.Verdict text.toList (openAfter brackets [] 0 text.toList) (t.tokenize text) := by
  have hstart : (State.ofText text.toList : State κ).Tracks brackets text.toList 0 [] :=
    ⟨(Cursor.onFirstLine_zero text.toList).symm, .nil⟩
  exact State.verdict_run h List.drop_zero (Nat.zero_add _) hover hstart

end Tokenizer

/-- **Brackets**: by rules for words and brackets a text of letters and brackets is tokenized just
when it is well bracketed, and its tokens are the words and the pairs in it. It is well bracketed
when no closing bracket is out of place and none is left open at the end. The first closing bracket
out of place is not expected; where there is none, the last bracket that is left open is not
terminated. -/
theorem tokenize_brackets {rules : List (Rule κ)} {word : κ} {brackets : List (Bracket κ)}
    (hrules : BracketRules rules word brackets) :
    ∃ t, Tokenizer.ofRules rules = .ok t ∧ ∀ text : String, OverBrackets brackets text.toList →
      (∀ tokens, t.tokenize text = .ok tokens ↔ Bracketed word brackets 0 text.toList tokens) ∧
      ((∃ tokens, Bracketed word brackets 0 text.toList tokens) ↔
        openAfter brackets [] 0 text.toList = .ok []) ∧
      (∀ i, openAfter brackets [] 0 text.toList = .error i →
        t.tokenize text =
          .error (.unexpected (text.toList.drop i) (Position.start.advance i))) ∧
      (∀ b i outer, openAfter brackets [] 0 text.toList = .ok ((b, i) :: outer) →
        t.tokenize text = .error (.unterminatedSection (Position.start.advance i)
          (Position.start.advance text.length))) := by
  obtain ⟨t, ht⟩ := hrules.exists_tokenizer
  obtain rfl := Tokenizer.eq_of_ofRules ht
  refine ⟨t, ht, fun text hover => ?_⟩
  have hverdict := t.verdict_tokenize hrules hover
  have hiff : ∀ tokens, t.tokenize text = .ok tokens ↔
      Bracketed word brackets 0 text.toList tokens :=
    fun tokens => Tokenizer.tokenize_eq_ok_iff hrules
  refine ⟨hiff, ?_, ?_, ?_⟩
  · constructor
    · rintro ⟨tokens, htokens⟩
      rw [(hiff tokens).mpr htokens] at hverdict
      cases hopen : openAfter brackets [] 0 text.toList with
      | error i =>
          rw [hopen] at hverdict
          cases hverdict
      | ok opened =>
          cases opened with
          | nil => rfl
          | cons p outer =>
              rw [hopen] at hverdict
              cases hverdict
    · intro hopen
      rw [hopen] at hverdict
      obtain ⟨tokens, htokens⟩ := hverdict
      exact ⟨tokens, (hiff tokens).mp htokens⟩
  · intro i hopen
    rw [hopen] at hverdict
    exact hverdict
  · intro b i outer hopen
    rw [hopen] at hverdict
    rw [← String.length_toList]
    exact hverdict

/-- Round and square brackets. -/
def roundAndSquare : List (Bracket String) :=
  [⟨"round", '(', ')'⟩, ⟨"square", '[', ']'⟩]

/-- Rules for words in round and square brackets. -/
def roundAndSquareRules : List (Rule String) := [
  .delimited "round" "(" [")"] true,
  .run "word" .letter,
  .delimited "square" "[" ["]"] true]

lemma bracketRules_roundAndSquare : BracketRules roundAndSquareRules "word" roundAndSquare where
  perm := .swap _ _ _
  nodup := by decide
  not_letter c hc := by
    have hcases : c = '(' ∨ c = ')' ∨ c = '[' ∨ c = ']' := by
      simpa [roundAndSquare, Bracket.chars] using hc
    rcases hcases with rfl | rfl | rfl | rfl <;> decide +kernel
  not_lineBreak c hc := by
    have hcases : c = '(' ∨ c = ')' ∨ c = '[' ∨ c = ']' := by
      simpa [roundAndSquare, Bracket.chars] using hc
    rcases hcases with rfl | rfl | rfl | rfl <;> decide

theorem tokenize_brackets_roundAndSquare : ∃ t tokens,
    Tokenizer.ofRules roundAndSquareRules = .ok t ∧ t.tokenize "a(b[c]d[])e" = .ok tokens ∧
    Bracketed "word" roundAndSquare 0 "a(b[c]d[])e".toList tokens ∧
    t.tokenize "a(b]c" = .error (.unexpected "]c".toList (Position.start.advance 3)) ∧
    t.tokenize "[(a)(b" =
      .error (.unterminatedSection (Position.start.advance 4) (Position.start.advance 6)) := by
  obtain ⟨t, ht, htexts⟩ := tokenize_brackets bracketRules_roundAndSquare
  obtain ⟨hok, hopen, -, -⟩ := htexts "a(b[c]d[])e" (by decide +kernel)
  obtain ⟨-, -, hstray, -⟩ := htexts "a(b]c" (by decide +kernel)
  obtain ⟨-, -, -, hleft⟩ := htexts "[(a)(b" (by decide +kernel)
  obtain ⟨tokens, htokens⟩ := hopen.mpr rfl
  exact ⟨t, tokens, ht, (hok tokens).mpr htokens, htokens, hstray 3 rfl, hleft _ 4 _ rfl⟩

end RuleLexer
