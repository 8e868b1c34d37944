import RuleLexer.Proofs.Ascending
import RuleLexer.Proofs.Lookahead
import RuleLexer.Proofs.Provenance
import RuleLexer.Proofs.Translation

/-!
An error points at the place that is to blame: from there on the text fails alike on its own, and
up to there nothing is wrong with it.

* `FailsAt.exists_own`: from a place on where the scan stops, the text fails alike on its own;
* `Descends.exchange`: in a text that ends at a place, the scan descends to it as before;
* `Covers.unbounded`: what fills a section that is left open is a text of its own;
* `Tokenizer.BlamesCharacter`, `Tokenizer.BlamesSection`: what is the matter with a place that an
  error blames; `blames_of_tokenize` says that the errors of tokenizing blame such places.
-/

namespace RuleLexer

open Relation (ReflTransGen)

variable {κ : Type}

/-- Where moves lead, lines and columns are still counted from 1. -/
lemma Cursor.proper_of_moves {c d : Cursor} (h : ReflTransGen Moves c d) (hc : c.position.Proper) :
    d.position.Proper := by
  induction h with
  | refl => exact hc
  | tail _ hmoves ih =>
      obtain ⟨n, endsLine, -, -, rfl⟩ := hmoves
      exact proper_skip ih n endsLine

namespace Descends

variable {ix : MatchIndex κ} {inner closings : List Marker} {c d : Cursor}

lemma reaches (h : Descends ix inner d closings c) : c.Reaches d :=
  Cursor.reaches_of_moves h.moves

lemma proper (h : Descends ix inner d closings c) (hc : c.position.Proper) : d.position.Proper :=
  Cursor.proper_of_moves h.moves hc

end Descends

/-! ### The text behind the place -/

section Unbounded

variable {ix : MatchIndex κ} {closings : List Marker} {c d stop : Cursor}

lemma ahead_nothing_unbounded {rest : List Char} (h : ix.ahead closings rest = .nothing) :
    ix.ahead [] rest = .nothing := by
  obtain ⟨x, after, hrest, -, hfixed, hr⟩ := MatchIndex.describes_of_ahead h
  exact MatchIndex.ahead_eq_of_describes ⟨x, after, hrest, rfl, hfixed, hr⟩

lemma ahead_fixed_unbounded {rest : List Char} {m : FixedMatch κ}
    (h : ix.ahead closings rest = .fixed m) : ix.ahead [] rest = .fixed m :=
  MatchIndex.ahead_eq_of_describes ⟨rfl, MatchIndex.fixedAt?_of_ahead h⟩

/-- A run goes no further when nothing closes the level, if no closing marker ends it. -/
lemma ahead_run_unbounded {r : CharRun κ} {n : ℕ} {tokens : TokenList κ}
    (h : ix.ahead closings c.rest = .run r n) (more : Covers ix closings (c.advance n) tokens stop)
    (hstop : stop.rest = []) : ix.ahead [] c.rest = .run r n := by
  obtain ⟨x, after, hrest, hnone, hfixed, hr, hn⟩ := MatchIndex.describes_of_ahead h
  obtain ⟨place, hplace, -⟩ := MatchIndex.runPlace?_of_runFor? hr
  have hspan : ix.spanLength closings (some place) (c.rest ++ []) = n := by
    rw [List.append_nil, hrest, MatchIndex.spanLength_cons (hrest ▸ hnone) hplace, hn, hplace]
  have hend : ix.spanLength [] (some place) (c.rest.drop n ++ []) = 0 :=
    spanLength_exchange_eq_zero hspan (MatchIndex.run_length_le h) (List.append_nil _).symm more
      (List.nil_suffix) fun y after hy _ => by simp [Cursor.exchange, hstop] at hy
  have hspan' : ix.spanLength [] (some place) (c.rest ++ [])
      = ix.spanLength closings (some place) (c.rest ++ []) :=
    MatchIndex.spanLength_of_blind (fun m hm => absurd hm List.not_mem_nil)
      (hspan ▸ MatchIndex.run_length_le h) (by rwa [hspan])
  rw [hspan, List.append_nil, hrest, MatchIndex.spanLength_cons rfl hplace] at hspan'
  refine MatchIndex.ahead_eq_of_describes ⟨x, after, hrest, rfl, hfixed, hr, ?_⟩
  rw [hplace, hspan']

/-- **A section that is left open**: a level that goes on to the end of the text is one that nothing
closes. -/
theorem Covers.unbounded {tokens : TokenList κ} (h : Covers ix closings c tokens stop)
    (hstop : stop.rest = []) : Covers ix [] c tokens stop := by
  induction h with
  | levelEnd h => exact .levelEnd (by rw [hstop]; rfl)
  | run h more ih => exact .run (ahead_run_unbounded h more hstop) (ih hstop)
  | literal h hi more ih => exact .literal (ahead_fixed_unbounded h) hi (ih hstop)
  | raw h hi hr more ih => exact .raw (ahead_fixed_unbounded h) hi hr (ih hstop)
  | nested h hi inside hm more _ ih =>
      exact .nested (ahead_fixed_unbounded h) hi inside hm (ih hstop)

/-- What covers a level covers the text from its beginning on, as far as it closes there. -/
lemma Covers.exists_own {tokens : TokenList κ} (h : Covers ix closings c tokens stop)
    (hc : c.position.Proper) :
    ∃ own stop', Covers ix closings (.ofText c.rest) own stop' := by
  have hmoved : Covers ix closings ((Cursor.ofText c.rest).moved (.within c.position) c.offset)
      tokens stop := by
    rwa [Cursor.moved_ofText]
  obtain ⟨own, stop', hown, -, -⟩ :=
    hmoved.exists_of_moved (Position.embedding_within hc) _ Position.proper_start
  exact ⟨own, stop', hown⟩

/-- **The text behind**: from the place on, the text fails alike on its own, and where it fails
there lies the error in the text around. -/
theorem FailsAt.exists_own {e : ScanError} (h : FailsAt ix closings d e) (hd : d.position.Proper) :
    ∃ e', FailsAt ix [] (.ofText d.rest) e' ∧ e = e'.moved (.within d.position) := by
  have hf := Position.embedding_within hd
  have hstart : Position.within d.position (Cursor.ofText d.rest).position = d.position :=
    Position.within_start _
  have hmoved : ∀ m : FixedMatch κ, m.stop d
      = (m.stop (.ofText d.rest)).moved (.within d.position) d.offset := by
    intro m
    rw [← FixedMatch.stop_moved hf _ Position.proper_start, Cursor.moved_ofText]
  have hproper : ∀ m : FixedMatch κ, (m.stop (.ofText d.rest)).position.Proper :=
    fun m => FixedMatch.proper_stop Position.proper_start m
  cases h with
  | nothing h =>
      refine ⟨_, .nothing (ahead_nothing_unbounded h), ?_⟩
      rw [ScanError.unexpected, ScanError.unexpected, ScanError.moved, hstart]
      rfl
  | @raw m ends stop h hi hr =>
      rw [hmoved, MatchIndex.capture_moved hf _ (hproper m)] at hr
      cases hown : ix.capture ends (m.stop (.ofText d.rest)) with
      | ok r =>
          rw [hown] at hr
          cases hr
      | error e' =>
          rw [hown] at hr
          obtain rfl := Except.error.inj hr
          refine ⟨_, .raw (ahead_fixed_unbounded h) hi hown, ?_⟩
          rw [ScanError.moved, hstart]
  | @nested m ends stop tokens h hi inside hstop =>
      rw [hmoved] at inside
      obtain ⟨own, stop', hown, -, rfl⟩ := inside.exists_of_moved hf _ (hproper m)
      refine ⟨_, .nested (ahead_fixed_unbounded h) hi hown hstop, ?_⟩
      rw [ScanError.moved, hstart]
      rfl

end Unbounded

/-! ### The text before the place -/

/-- **The text before**: in a text that ends at a place to which the scan descends, the scan descends
to that place in the same way, unless the last character is an escape character. -/
theorem Descends.exchange {ix : MatchIndex κ} {inner closings : List Marker} {c d : Cursor}
    (h : Descends ix inner d closings c) (hgoes : ix.ahead inner d.rest ≠ .levelEnd)
    (hlast : ∀ x, x :: d.rest <:+ c.rest → ix.isEscape x = false) :
    Descends ix inner (d.exchange d.rest []) closings (c.exchange d.rest []) := by
  have hblind : ix.Blind d.rest [] := fun m _ => m.blind_nil _
  have hends : ∀ markers : List Marker, ∀ m ∈ markers, m ∈ markers ∧ m.Blind d.rest [] :=
    fun _ m hm => ⟨hm, m.blind_nil _⟩
  induction h with
  | here => exact .here
  | @run closings c r n h more ih =>
      have hnext : c.Reaches (c.advance n) := .advance (MatchIndex.run_length_le h)
      have hmore := ih fun x hx => hlast x (hx.trans hnext.suffix)
      obtain ⟨hahead, hadvance⟩ := CharRun.exchange_of_ends hblind (hends closings) h
        more.reaches.suffix hlast fun place q hrest hn hspan => by
          by_cases hq : q.drop n = []
          · simp [hq, MatchIndex.spanLength]
          · exact spanLength_exchange_of_ahead_ne hspan hn hq (hrest ▸ more.ahead_ne hgoes)
      exact .run hahead (hadvance ▸ hmore)
  | @literal closings c m h hi more ih =>
      have hnext := FixedMatch.reaches_stop h
      have hmore := ih fun x hx => hlast x (hx.trans hnext.suffix)
      obtain ⟨hahead, hnext⟩ := FixedMatch.exchange hblind (hends closings) h more.reaches.suffix
        hlast
      exact .literal hahead hi (hnext ▸ hmore)
  | @raw closings ends c m r h hi hr more ih =>
      have hinside := FixedMatch.reaches_stop h
      obtain ⟨hclosing, hafter⟩ := MatchIndex.capture_reaches hr
      have hnext := hclosing.trans hafter
      have hmore := ih fun x hx => hlast x (hx.trans (hinside.trans hnext).suffix)
      obtain ⟨hahead, hstart⟩ := FixedMatch.exchange hblind (hends closings) h
        (more.reaches.suffix.trans hnext.suffix) hlast
      have hr' := MatchIndex.captureFrom_of_blind hblind (fun m hm => (hends ends m hm).2) hr
        more.reaches.suffix fun x hx => hlast x (hx.trans hinside.suffix)
      exact .raw hahead hi (hstart ▸ hr') hmore
  | @nested closings ends c closing m marker tokens h hi inside hm more ih =>
      have hinside := FixedMatch.reaches_stop h
      have hafter : closing.Reaches (closing.past marker) := .past hm
      have hnext := inside.reaches.trans hafter
      have hmore := ih fun x hx => hlast x (hx.trans (hinside.trans hnext).suffix)
      obtain ⟨hahead, hstart⟩ := FixedMatch.exchange hblind (hends closings) h
        (more.reaches.suffix.trans hnext.suffix) hlast
      obtain ⟨hm', hpast⟩ := Marker.exchange (fun m hm => (hends ends m hm).2) hm
        more.reaches.suffix
      have hlevelEnd : ix.ahead ends (closing.exchange d.rest []).rest = .levelEnd :=
        MatchIndex.ahead_eq_of_describes (.inr (Option.isSome_of_eq_some hm'))
      have hinner := inside.exchange hblind (hends ends) (more.reaches.suffix.trans hafter.suffix)
        (fun x hx => hlast x (hx.trans hinside.suffix))
        (fun y after hrest hnone => by rw [← hrest, hm'] at hnone; cases hnone)
        (.levelEnd hlevelEnd)
      exact .nested hahead hi (hstart ▸ hinner) hm' (hpast ▸ hmore)
  | @enter closings ends c m h hi inside ih =>
      have hnext := FixedMatch.reaches_stop h
      have hmore := ih fun x hx => hlast x (hx.trans hnext.suffix)
      obtain ⟨hahead, hnext⟩ := FixedMatch.exchange hblind (hends closings) h inside.reaches.suffix
        hlast
      exact .enter hahead hi (hnext ▸ hmore)

/-! ### Errors of tokenizing -/

/-- The position in the text around, as long as no coordinate stops at its limit. -/
lemma Position.within_eq {origin p : Position} (hp : p.Proper)
    (hline : origin.line.val + p.line.val ≤ Coord.limit + 1)
    (hcolumn : origin.column.val + p.column.val ≤ Coord.limit + 1) :
    (within origin p).line.val = origin.line.val + p.line.val - 1 ∧
      (within origin p).column.val
        = if p.line.val = 1 then origin.column.val + p.column.val - 1 else p.column.val := by
  have hline' := hp.line_pos
  have hcolumn' := hp.column_pos
  have horigin := origin.line.val_le
  by_cases hl : p.line.val = 1
  · simp only [within, hl, if_true, Coord.val_add]
    exact ⟨by omega, by omega⟩
  · simp only [within, hl, if_false, Coord.val_add, and_true]
    omega

/-- An error of the text behind a place to which the scan descends has its position in the text around
by counting on from the place. -/
lemma Descends.within_eq {ix : MatchIndex κ} {inner closings : List Marker} {text : List Char}
    {d : Cursor} (h : Descends ix inner d closings (.ofText text))
    (hlength : text.length < Coord.limit) {start stop : Position}
    (hfails : FailsAt ix [] (.ofText d.rest) (.unterminatedSection start stop)) :
    (Position.within d.position stop).line.val = d.position.line.val + stop.line.val - 1 ∧
      (Position.within d.position stop).column.val
        = if stop.line.val = 1 then d.position.column.val + stop.column.val - 1
          else stop.column.val := by
  obtain ⟨-, e, he, rfl⟩ := hfails.moves
  have hmoves := he.to_reflTransGen
  have htext := h.reaches.offset_add_length_rest
  obtain ⟨⟨hline, hcolumn, -⟩, -⟩ := (Cursor.exact_ofText hlength).of_reflTransGen h.moves
  have hlength' : d.rest.length < Coord.limit := by omega
  obtain ⟨⟨hline', hcolumn', -⟩, -⟩ := (Cursor.exact_ofText hlength').of_reflTransGen hmoves
  have hoffset := (Cursor.reaches_of_moves hmoves).offset_le_length
  exact Position.within_eq (Cursor.proper_of_moves hmoves Position.proper_start)
    (by omega) (by omega)

/-- Before a place of a text stands the text up to its offset. -/
lemma Cursor.Reaches.exchange_ofText {text : List Char} {d : Cursor} (h : (ofText text).Reaches d) :
    (ofText text).exchange d.rest [] = .ofText (text.take d.offset) := by
  have hlength : text.length - d.rest.length = d.offset := by
    have htext := h.offset_add_length_rest
    omega
  simp only [exchange, ofText, hlength, List.append_nil]

namespace Tokenizer

/-- Tokenizing the text comes to the place: to one of the outermost level, or to one inside a nested
section that is open there. -/
def ComesTo (t : Tokenizer κ) (text : String) (d : Cursor) : Prop :=
  ∃ closings, Descends t.index closings d [] (.ofText text.toList)

/-- The character at the place is to blame. From there on the text fails at its first character, and
the text before fails at most for a section that is open at its end. -/
structure BlamesCharacter (t : Tokenizer κ) (text : String) (d : Cursor) (character : Char)
    (preview : String) : Prop where
  comesTo : t.ComesTo text d
  character_eq : text.toList[d.offset]? = some character
  preview_eq : preview = String.ofList ((text.toList.drop d.offset).take 30)
  behind : t.tokenize (String.ofList (text.toList.drop d.offset))
    = .error (.unexpectedCharacter character preview .start)
  before : (∀ c, (text.toList.take d.offset).getLast? = some c → .escape c ∉ t.rules) →
    (∃ tokens, t.tokenize (String.ofList (text.toList.take d.offset)) = .ok tokens) ∨
      ∃ start, t.tokenize (String.ofList (text.toList.take d.offset))
        = .error (.unterminatedSection start d.position)

/-- The section that begins at the place with the match `m` is the innermost one that is open when
the text ends. What stands behind the opening marker of a nested section is tokenized as a text of
its own; for any other section no closing marker is found up to the end of the text. -/
structure InnermostOpen (t : Tokenizer κ) (text : String) (d : Cursor) (stop : Position)
    (m : FixedMatch κ) (opening : String) (closings : List String) (nested : Bool) : Prop where
  fixedAt?_eq : t.index.fixedAt? (text.toList.drop d.offset) = some m
  mem_rules : .delimited m.text.kind opening closings nested m.text.discard ∈ t.rules
  pattern_eq : (Rule.delimited m.text.kind opening closings nested m.text.discard).pattern
    = .ok (.fixed m.text)
  of_nested : nested = true →
    ∃ tokens, t.tokenize (String.ofList (text.toList.drop (d.offset + m.length))) = .ok tokens
  of_raw : nested = false → t.index.capture m.text.inside.closings (m.stop d) = .error stop

/-- A section that begins at the place is to blame. From there on the text fails for a section that
begins at its start, and the positions are those of the text around. -/
structure BlamesSection (t : Tokenizer κ) (text : String) (d : Cursor) (stop : Position) :
    Prop where
  comesTo : t.ComesTo text d
  behind : ∃ e, t.tokenize (String.ofList (text.toList.drop d.offset))
      = .error (.unterminatedSection .start e) ∧
    stop.line.val = d.position.line.val + e.line.val - 1 ∧
    stop.column.val
      = if e.line.val = 1 then d.position.column.val + e.column.val - 1 else e.column.val
  innermost : ∃ m opening closings nested, t.InnermostOpen text d stop m opening closings nested

variable {t : Tokenizer κ} {text : String} {closings : List Marker} {d : Cursor}

/-- The text behind a place to which the scan descends fails as the scan does there. -/
lemma tokenize_drop_eq_error (h : Descends t.index closings d [] (.ofText text.toList))
    {e : ScanError} (hfails : FailsAt t.index [] (.ofText d.rest) e) :
    t.tokenize (String.ofList (text.toList.drop d.offset)) = .error e := by
  rw [tokenize_eq_error_iff, String.toList_ofList, ← h.reaches.rest_eq_drop]
  exact hfails.level_eq

/-- The text before a place to which the scan descends is tokenized as far as the place. -/
lemma tokenize_take (h : Descends t.index closings d [] (.ofText text.toList))
    (hgoes : t.index.ahead closings d.rest ≠ .levelEnd)
    (hlast : ∀ c, (text.toList.take d.offset).getLast? = some c → .escape c ∉ t.rules) :
    (∃ tokens, t.tokenize (String.ofList (text.toList.take d.offset)) = .ok tokens) ∨
      ∃ start, t.tokenize (String.ofList (text.toList.take d.offset))
        = .error (.unterminatedSection start d.position) := by
  have hreach := h.reaches
  have hescape : ∀ x, x :: d.rest <:+ (Cursor.ofText text.toList).rest →
      t.index.isEscape x = false := by
    intro x hx
    have hsplit : (Cursor.ofText text.toList).rest = text.toList.take d.offset ++ d.rest := by
      rw [hreach.rest_eq_drop, List.take_append_drop]
      rfl
    rw [hsplit] at hx
    exact t.isEscape_eq_false (hlast x (getLast?_of_cons_suffix hx))
  have hbefore := h.exchange hgoes hescape
  rw [hreach.exchange_ofText, ← String.toList_ofList (l := text.toList.take d.offset)] at hbefore
  have hend : (d.exchange d.rest []).rest = [] := Cursor.rest_exchange (q := []) rfl
  rcases hbefore.covers_or_failsAt hend with ⟨tokens, hcovers⟩ | ⟨inner, d', hd', hfails⟩
  · exact .inl ⟨tokens, tokenize_of_covers hcovers⟩
  · have hlevel := Spanwise.level_eq_error_iff.mpr ⟨inner, d', hd', hfails⟩
    exact .inr ⟨d'.position, tokenize_eq_error_iff.mpr hlevel⟩

/-- Where nothing is matched the character there is to blame. -/
lemma blamesCharacter (h : Descends t.index closings d [] (.ofText text.toList))
    (hahead : t.index.ahead closings d.rest = .nothing) {character : Char} {after : List Char}
    (hrest : d.rest = character :: after) :
    t.BlamesCharacter text d character (String.ofList (d.rest.take 30)) where
  comesTo := ⟨closings, h⟩
  character_eq := by
    rw [← List.head?_drop, ← h.reaches.rest_eq_drop, hrest, List.head?_cons]
  preview_eq := by rw [h.reaches.rest_eq_drop]
  behind := by
    rw [tokenize_drop_eq_error h (.nothing (ahead_nothing_unbounded hahead))]
    simp only [ScanError.unexpected, Cursor.ofText, hrest, List.headD_cons]
    rfl
  before := tokenize_take h (by simp [hahead])

/-- The section that is open at last, by the way in which the scan stops. -/
lemma exists_innermostOpen (h : Descends t.index closings d [] (.ofText text.toList))
    {start stop : Position}
    (hfails : FailsAt t.index closings d (.unterminatedSection start stop)) :
    ∃ m opening closings nested, t.InnermostOpen text d stop m opening closings nested := by
  have hdrop := h.reaches.rest_eq_drop
  cases hfails with
  | @raw m ends _ hahead hi hr =>
      have hm := MatchIndex.fixedAt?_of_ahead hahead
      obtain ⟨rule, hrule, hpattern⟩ := exists_rule_of_fixedAt? hm
      obtain ⟨opening, closings, rfl, -, -⟩ := Rule.eq_delimited_of_pattern false hpattern hi
      exact ⟨m, opening, closings, false, hdrop ▸ hm, hrule, hpattern, by simp,
        fun _ => by rwa [hi]⟩
  | @nested m ends stop tokens hahead hi inside hstop =>
      have hm := MatchIndex.fixedAt?_of_ahead hahead
      obtain ⟨rule, hrule, hpattern⟩ := exists_rule_of_fixedAt? hm
      obtain ⟨opening, closings, rfl, -, -⟩ := Rule.eq_delimited_of_pattern true hpattern hi
      refine ⟨m, opening, closings, true, hdrop ▸ hm, hrule, hpattern, fun _ => ?_, by simp⟩
      have hproper := FixedMatch.proper_stop (h.proper Position.proper_start) m
      obtain ⟨own, stop', hown⟩ := (inside.unbounded hstop).exists_own hproper
      have hrest : (m.stop d).rest = text.toList.drop (d.offset + m.length) := by
        rw [FixedMatch.stop, Cursor.rest_skip, hdrop, List.drop_drop]
      rw [hrest, ← String.toList_ofList (l := text.toList.drop _)] at hown
      exact ⟨own, tokenize_of_covers hown⟩

/-- Where a section is left open it is to blame. -/
lemma blamesSection (hlength : text.toList.length < Coord.limit)
    (h : Descends t.index closings d [] (.ofText text.toList)) {start stop : Position}
    (hfails : FailsAt t.index closings d (.unterminatedSection start stop)) :
    d.position = start ∧ t.BlamesSection text d stop := by
  have hinnermost := exists_innermostOpen h hfails
  obtain ⟨e, hown, he⟩ := hfails.exists_own (h.proper Position.proper_start)
  cases e with
  | unexpectedCharacter character preview position => cases he
  | illegalToken kind text => cases he
  | unterminatedSection start' e =>
      obtain ⟨-, rfl⟩ := ScanError.unterminatedSection.inj he
      obtain ⟨rfl, -⟩ := hown.moves
      refine ⟨hfails.moves.1, ⟨closings, h⟩, ⟨e, tokenize_drop_eq_error h hown, ?_⟩, hinnermost⟩
      exact h.within_eq hlength hown

end Tokenizer

/-- **Blame**: if tokenizing a text fails at a character, from there on the text fails alike on its
own, and up to there it is tokenized unless it ends in a section or after an escape character. If
it fails for a section, the text fails alike from the beginning of the section on, and no section
inside is open at the end. -/
theorem blames_of_tokenize {t : Tokenizer κ} {text : String}
    (hlength : text.length < Coord.limit) :
    (∀ character preview position,
      t.tokenize text = .error (.unexpectedCharacter character preview position) →
        ∃ d, d.position = position ∧ t.BlamesCharacter text d character preview) ∧
    ∀ start stop, t.tokenize text = .error (.unterminatedSection start stop) →
      ∃ d, d.position = start ∧ t.BlamesSection text d stop := by
  rw [← String.length_toList] at hlength
  refine ⟨fun character preview position herror => ?_, fun start stop herror => ?_⟩
  · obtain ⟨closings, d, hd, hfails⟩ :=
      Spanwise.level_eq_error_iff.mp (Tokenizer.tokenize_eq_error_iff.mp herror)
    cases hfails with
    | nothing hahead =>
        obtain ⟨x, after, hrest, -⟩ := MatchIndex.describes_of_ahead hahead
        have hblames := Tokenizer.blamesCharacter hd hahead hrest
        refine ⟨d, rfl, ?_⟩
        rwa [hrest] at hblames ⊢
  · obtain ⟨closings, d, hd, hfails⟩ :=
      Spanwise.level_eq_error_iff.mp (Tokenizer.tokenize_eq_error_iff.mp herror)
    exact ⟨d, Tokenizer.blamesSection hlength hd hfails⟩

theorem blames_of_tokenize_breaks : ∃ t, Tokenizer.ofRules breakRules = .ok t ∧
    (t.tokenize "a\n\n(b?c" = .error (.unexpectedCharacter '?' "?c" ⟨.clamp 2, .clamp 3⟩) ∧
      ∃ d : Cursor, d.position = ⟨.clamp 2, .clamp 3⟩ ∧
        t.BlamesCharacter "a\n\n(b?c" d '?' "?c") ∧
    (t.tokenize "(a)\n\n(b(c\nd)" =
        .error (.unterminatedSection ⟨.clamp 2, .clamp 1⟩ ⟨.clamp 2, .clamp 8⟩) ∧
      ∃ d : Cursor, d.position = ⟨.clamp 2, .clamp 1⟩ ∧
        t.BlamesSection "(a)\n\n(b(c\nd)" d ⟨.clamp 2, .clamp 8⟩) ∧
    t.tokenize "(a\"b\n" = .error (.unterminatedSection ⟨.clamp 1, .clamp 3⟩ ⟨.clamp 1, .clamp 6⟩) ∧
      ∃ d : Cursor, d.position = ⟨.clamp 1, .clamp 3⟩ ∧
        t.BlamesSection "(a\"b\n" d ⟨.clamp 1, .clamp 6⟩ := by
  have hfails : (Tokenizer.ofRules breakRules).toOption.any (fun t =>
      t.tokenize "a\n\n(b?c" = .error (.unexpectedCharacter '?' "?c" ⟨.clamp 2, .clamp 3⟩) ∧
      t.tokenize "(a)\n\n(b(c\nd)" =
        .error (.unterminatedSection ⟨.clamp 2, .clamp 1⟩ ⟨.clamp 2, .clamp 8⟩) ∧
      t.tokenize "(a\"b\n" =
        .error (.unterminatedSection ⟨.clamp 1, .clamp 3⟩ ⟨.clamp 1, .clamp 6⟩)) = true := by
    decide +kernel
  obtain ⟨t, ht, hfails⟩ := (Option.any_eq_true _ _).mp hfails
  obtain ⟨hcharacter, hnested, hraw⟩ := of_decide_eq_true hfails
  have hlength : "a\n\n(b?c".length < Coord.limit := by decide
  have hlength' : "(a)\n\n(b(c\nd)".length < Coord.limit := by decide
  have hlength'' : "(a\"b\n".length < Coord.limit := by decide
  exact ⟨t, toOption_eq_some_iff.mp ht,
    ⟨hcharacter, (blames_of_tokenize hlength).1 _ _ _ hcharacter⟩,
    ⟨hnested, (blames_of_tokenize hlength').2 _ _ hnested⟩,
    hraw, (blames_of_tokenize hlength'').2 _ _ hraw⟩

end RuleLexer
