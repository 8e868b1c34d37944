import RuleLexer.Proofs.Ascending
import RuleLexer.Proofs.RawSection

/-!
What is reported while a text is tokenized mirrors the tree of its tokens.

A nested section is reported when it is entered, before anything of its inside is, and its token is
made when it is closed, after all tokens of its inside. What has been reported at any moment is
therefore the preorder of the tokens made so far, level by level from the outermost one, with the
sections that are still open in between.

* `TokenList.nestedSections`: the nested sections at every depth, in preorder;
* `OpenSection.reported`, `State.Reported`: the reports that an open section accounts for, and the
  invariant of the machine, kept by `State.Reported.move` and `State.Reported.steps`;
* `Tokenizer.EndsInNested`, `Tokenizer.EndsInRaw`: the two ways in which a section can be
  unterminated;
* `Tokenizer.tokenizeEvents_mirror`: the reports on a text, whether tokenizing succeeds or fails.
-/

namespace RuleLexer

variable {κ : Type}

/-! ### Nested sections in preorder -/

/-- Whether the token is a section whose inside was tokenized. -/
def Token.isNestedSection (t : Token κ) : Bool :=
  t.delimiters.any (·.content.isNone)

namespace TokenList

/-- The nested sections at every depth, each one before those inside it. -/
def nestedSections (ts : TokenList κ) : List (Token κ) :=
  (preorder ts).filter Token.isNestedSection

@[simp] lemma nestedSections_nil : nestedSections ([] : TokenList κ) = [] := rfl

lemma nestedSections_cons (t : Token κ) (ts : TokenList κ) :
    nestedSections (t :: ts) =
      [t].filter Token.isNestedSection ++ nestedSections t.nested ++ nestedSections ts := by
  rw [nestedSections, preorder, Token.preorder_eq, List.filter_append, ← List.singleton_append,
    List.filter_append]
  rfl

lemma nestedSections_append (ts us : TokenList κ) :
    nestedSections (ts ++ us) = nestedSections ts ++ nestedSections us := by
  induction ts with
  | nil => rfl
  | cons t ts ih =>
      rw [List.cons_append, nestedSections_cons, nestedSections_cons, ih]
      simp only [List.append_assoc]

/-- A nested section comes before those inside it. -/
lemma nestedSections_singleton {t : Token κ} (h : t.isNestedSection = true) :
    nestedSections [t] = t :: nestedSections t.nested := by
  rw [nestedSections_cons, List.filter_singleton, h]
  exact List.append_nil _

end TokenList

namespace Level

open TokenList (nestedSections)

variable {level : Level κ} {token : Token κ}

/-- The nested sections of the level so far. -/
def sections (level : Level κ) : List (Token κ) :=
  nestedSections level.emitted.reverse

lemma sections_emit :
    (level.emit false token).sections = level.sections ++ nestedSections [token] := by
  rw [sections, emit, if_neg Bool.false_ne_true, List.reverse_cons, TokenList.nestedSections_append]
  rfl

/-- A token that neither is a nested section nor has any inside makes no difference. -/
lemma sections_emit_of_not (htoken : token.isNestedSection = false) (hnested : token.nested = [])
    (discard : Bool) : (level.emit discard token).sections = level.sections := by
  cases discard with
  | true => rfl
  | false =>
      rw [sections_emit, TokenList.nestedSections_cons, hnested, List.filter_singleton, htoken]
      exact List.append_nil _

lemma sections_flush (stop : Cursor) : (level.flush stop).sections = level.sections := by
  rw [flush]
  split
  · rfl
  · exact sections_emit_of_not rfl rfl _

lemma sections_extend (r : CharRun κ) (place : Cursor) :
    (level.extend r place).sections = level.sections := by
  rw [extend]
  split
  · rfl
  · exact sections_flush place

lemma nestedSections_tokensUpTo (stop : Cursor) :
    nestedSections (level.tokensUpTo stop) = level.sections :=
  sections_flush stop

end Level

/-! ### The reports of the machine -/

/-- The reports that an open section accounts for: those on the sections before it, in the level
around it, and that on the section itself. -/
def OpenSection.reported (o : OpenSection κ) : List Position :=
  o.outer.sections.map Token.position ++ [o.start.position]

/-- When an open section is closed, its token and the tokens inside account for the same reports. -/
lemma OpenSection.sections_close {o : OpenSection κ} (hkept : o.discard = false) (level : Level κ)
    (closing stop : Cursor) :
    (o.close level closing stop).sections.map Token.position =
      o.reported ++ level.sections.map Token.position := by
  let token : Token κ :=
    .section o.kind o.start o.inside closing stop (level.tokensUpTo closing) none
  have hinside : TokenList.nestedSections token.nested = level.sections :=
    Level.nestedSections_tokensUpTo closing
  have htoken : TokenList.nestedSections [token] = token :: level.sections := by
    rw [TokenList.nestedSections_singleton rfl, hinside]
  calc (o.close level closing stop).sections.map Token.position
      = (o.outer.sections ++ token :: level.sections).map Token.position := by
        rw [close, hkept, Level.sections_emit, htoken]
    _ = o.outer.sections.map Token.position
          ++ o.start.position :: level.sections.map Token.position := by
        rw [List.map_append, List.map_cons]
        rfl
    _ = o.reported ++ level.sections.map Token.position := by
        rw [reported, List.append_assoc, List.singleton_append]

namespace State

variable {ix : MatchIndex κ} {s t : State κ}

/-- Nothing that is open will be discarded, and the sections that were entered are the nested
sections of all levels so far, together with those still open, from the outermost level on. -/
structure Reported (s : State κ) : Prop where
  kept : ∀ o ∈ s.opened, o.discard = false
  entered : s.entered.reverse =
    s.opened.reverse.flatMap OpenSection.reported ++ s.level.sections.map Token.position

lemma reported_ofText (text : List Char) : (ofText (κ := κ) text).Reported :=
  ⟨fun _ ho => absurd ho List.not_mem_nil, rfl⟩

/-- **One move** keeps the reports in line with the tokens. -/
theorem Reported.move (hkeeps : ix.KeepsAll) (hs : s.Reported) (h : s.Move ix t) : t.Reported := by
  obtain ⟨hkept, hentered⟩ := hs
  cases h with
  | @close o outer m hopened hm =>
      rw [hopened] at hkept hentered
      refine ⟨fun o' ho' => hkept o' (List.mem_cons_of_mem o ho'), ?_⟩
      -- what the open section accounted for passes to its token
      rw [OpenSection.sections_close (hkept o List.mem_cons_self), ← List.append_assoc]
      rwa [List.reverse_cons, List.flatMap_append, List.flatMap_singleton] at hentered
  | char hrest hr => exact ⟨hkept, by rw [Level.sections_extend]; exact hentered⟩
  | literal hm hi =>
      refine ⟨hkept, ?_⟩
      rw [Level.sections_emit_of_not rfl rfl, Level.sections_flush]
      exact hentered
  | raw hm hi hr =>
      refine ⟨hkept, ?_⟩
      rw [Level.sections_emit_of_not rfl rfl, Level.sections_flush]
      exact hentered
  | nested hm hi =>
      refine ⟨List.forall_mem_cons.mpr ⟨hkeeps.fixed hm, hkept⟩, ?_⟩
      -- the level inside is empty, and the section accounts for the level around it and for itself
      rw [List.reverse_cons, hentered, List.reverse_cons, List.flatMap_append,
        List.flatMap_singleton, OpenSection.reported, Level.sections_flush, List.append_assoc]
      exact (List.append_nil _).symm

/-- **All steps** keep the reports in line with the tokens. -/
theorem Reported.steps (hkeeps : ix.KeepsAll) (hs : s.Reported) (h : Steps ix s t) : t.Reported :=
  h.preserves hs fun _ hstep hreported => hreported.move hkeeps (move_of_step hstep)

/-- Whatever is discarded, every open section was reported. -/
lemma Steps.mem_entered {text : List Char} (h : Steps ix (ofText text) s) :
    ∀ o ∈ s.opened, o.start.position ∈ s.entered := by
  refine h.preserves (P := fun s => ∀ o ∈ s.opened, o.start.position ∈ s.entered)
    (fun _ ho => absurd ho List.not_mem_nil) fun _ hstep hs => ?_
  cases move_of_step hstep with
  | close hopened hm => exact fun o ho => hs o (hopened ▸ List.mem_cons_of_mem _ ho)
  | char | literal | raw => exact hs
  | nested hm hi =>
      refine List.forall_mem_cons.mpr ⟨List.mem_cons_self, fun o ho => ?_⟩
      exact List.mem_cons_of_mem _ (hs o ho)

/-- Where the machine stops before the end of the text and says that a section is unterminated, it
has just taken the opening marker of a section whose inside is taken as it stands. -/
lemma takes_of_halt {start stop : Position} (hne : s.cursor.rest ≠ [])
    (hstep : s.step ix = .halt (.error (.unterminatedSection start stop))) :
    ∃ m ends, s.Takes ix m ∧ m.text.inside = .raw ends ∧ s.cursor.position = start ∧
      ix.capture ends (m.stop s.cursor) = .error stop := by
  obtain ⟨c, after, hrest⟩ := List.exists_cons_of_ne_nil hne
  cases hclose : s.closing? with
  | some p => simp [step, hrest, hclose] at hstep
  | none =>
      have hends : ∀ r, ix.runFor? c = some r → s.level.continues r = false := by
        intro r hr
        by_contra hcont
        rw [step_of_continues hrest (closing?_eq_none_iff.mp hclose) hr (by simpa using hcont)]
          at hstep
        cases hstep
      simp only [step, hrest, hclose, takeChar_of_not_continues hends] at hstep
      split at hstep
      · rename_i m hm
        have htakes := takes_of_rest hrest (hrest ▸ hm) hclose hends
        rw [takeFixed] at hstep
        split at hstep
        · cases hstep
        · cases hstep
        · rename_i ends hi
          split at hstep
          · rename_i stop' hr
            cases hstep
            exact ⟨m, ends, htakes, hi, rfl, hr⟩
          · cases hstep
      · cases hstep
      · cases hstep

end State

/-! ### The reports on a text -/

namespace Tokenizer

variable {t : Tokenizer κ} {text : String}

/-- The text ends in a nested section that begins at `start`: this is the innermost section that is
open when the machine comes to the end of the text. -/
def EndsInNested (t : Tokenizer κ) (text : String) (start stop : Position) : Prop :=
  ∃ s o outer, State.Steps t.index (.ofText text.toList) s ∧ s.cursor.rest = [] ∧
    s.opened = o :: outer ∧ o.start.position = start ∧ s.cursor.position = stop

/-- The text ends in a section that begins at `start` and whose inside is taken as it stands. -/
def EndsInRaw (t : Tokenizer κ) (text : String) (start stop : Position) : Prop :=
  ∃ s m closings, OpensRaw t text s m closings ∧ s.cursor.position = start ∧
    t.index.capture m.text.inside.closings (m.stop s.cursor) = .error stop

/-- Where the machine stands when it stops, and what it has entered by then. -/
lemma exists_halt (t : Tokenizer κ) (text : String) :
    ∃ s, State.Steps t.index (.ofText text.toList) s ∧ s.step t.index = .halt (t.tokenize text) ∧
      (t.scan text).entered = s.entered.reverse := by
  obtain ⟨s, hsteps, hhalt⟩ := State.exists_halt t.index (.ofText text.toList)
  refine ⟨s, hsteps, hhalt, ?_⟩
  rw [scan, hsteps.run_eq, State.run_of_halt hhalt]

/-- What is reported when tokenizing succeeds. -/
lemma tokenizeEvents_of_ok {tokens : TokenList κ} (h : t.tokenize text = .ok tokens) :
    t.tokenizeEvents text = .tokenizing text.utf8ByteSize ::
      (t.scan text).entered.map .entering ++ [.tokenized tokens.length] := by
  rw [tokenize] at h
  rw [tokenizeEvents, h]

/-- What is reported when it fails. -/
lemma tokenizeEvents_of_error {e : ScanError} (h : t.tokenize text = .error e) :
    t.tokenizeEvents text =
      .tokenizing text.utf8ByteSize :: (t.scan text).entered.map .entering := by
  rw [tokenize] at h
  rw [tokenizeEvents, h, List.append_nil]

/-- **Entering in preorder**: where nothing is discarded, the sections were entered in the preorder
of the tokens. -/
theorem entered_eq_nestedSections (hkeep : ∀ rule ∈ t.rules, rule.discards = false)
    {tokens : TokenList κ} (h : t.tokenize text = .ok tokens) :
    (t.scan text).entered = tokens.nestedSections.map Token.position := by
  obtain ⟨s, hsteps, hstep, hentered⟩ := t.exists_halt text
  have hreported := (State.reported_ofText text.toList).steps (keepsAll_index hkeep) hsteps
  have hhalt := State.halt_of_step hstep
  rw [h] at hhalt
  cases hhalt with
  | done hrest hopened =>
      rw [hentered, hreported.entered, hopened, Level.nestedSections_tokensUpTo]
      rfl

/-- **Unterminated sections** are nested sections or such as are taken as they stand. -/
theorem unterminated_iff {start stop : Position} :
    t.tokenize text = .error (.unterminatedSection start stop) ↔
      t.EndsInNested text start stop ∨ t.EndsInRaw text start stop := by
  constructor
  · intro h
    obtain ⟨s, hsteps, hstep, -⟩ := t.exists_halt text
    rw [h] at hstep
    by_cases hrest : s.cursor.rest = []
    · have hhalt := State.halt_of_step hstep
      cases hhalt with
      | @opened o outer _ hopened => exact .inl ⟨s, o, outer, hsteps, hrest, hopened, rfl, rfl⟩
      | raw hm =>
          rw [hrest] at hm
          cases hm
    · obtain ⟨m, ends, htakes, hi, hstart, hr⟩ := State.takes_of_halt hrest hstep
      obtain ⟨rule, hrule, hpattern⟩ := exists_rule_of_fixedAt? htakes.fixedAt?_eq
      obtain ⟨opening, closings, rfl, -⟩ := Rule.eq_delimited_of_pattern false hpattern hi
      refine .inr ⟨s, m, closings, ⟨hsteps, htakes, opening, hrule, hpattern⟩, hstart, ?_⟩
      rw [hi]
      exact hr
  · rintro (⟨s, o, outer, hsteps, hrest, hopened, rfl, rfl⟩ | ⟨s, m, closings, hraw, rfl, hr⟩)
    · rw [tokenize, scan, hsteps.run_eq, State.run_of_rest_eq_nil hopened hrest]
    · exact hraw.unterminated hr

/-- A nested section in which the text ends was reported. -/
lemma entering_of_endsInNested {start stop : Position} (h : t.EndsInNested text start stop) :
    .entering start ∈ t.tokenizeEvents text := by
  have herror := unterminated_iff.mpr (.inl h)
  obtain ⟨s, o, outer, hsteps, hrest, hopened, rfl, rfl⟩ := h
  have hentered := hsteps.mem_entered o (by simp [hopened])
  rw [tokenizeEvents_of_error herror, scan, hsteps.run_eq, State.run_of_rest_eq_nil hopened hrest]
  exact List.mem_cons_of_mem _ (List.mem_map_of_mem (List.mem_reverse.mpr hentered))

/-- **The reports mirror the tokens**: when no rule discards and the text is cut into tokens, every
nested section is reported once, in preorder and with its position, and behind them the number of
tokens. When tokenizing fails no number is reported, and an unterminated section, if it is a nested
one, is among those that were reported. -/
theorem tokenizeEvents_mirror {rules : List (Rule κ)} (ht : ofRules rules = .ok t) (text : String) :
    ((∀ rule ∈ rules, rule.discards = false) → ∀ tokens, t.tokenize text = .ok tokens →
      t.tokenizeEvents text = .tokenizing text.utf8ByteSize ::
        tokens.nestedSections.map (fun s => .entering s.position) ++ [.tokenized tokens.length]) ∧
    (∀ e, t.tokenize text = .error e → ∀ n, .tokenized n ∉ t.tokenizeEvents text) ∧
    (∀ start stop, t.tokenize text = .error (.unterminatedSection start stop) ↔
      t.EndsInNested text start stop ∨ t.EndsInRaw text start stop) ∧
    (∀ start stop, t.EndsInNested text start stop → .entering start ∈ t.tokenizeEvents text) := by
  refine ⟨fun hkeep tokens h => ?_, fun e h n hmem => ?_, fun start stop => unterminated_iff,
    fun start stop => entering_of_endsInNested⟩
  · rw [← eq_of_ofRules ht] at hkeep
    rw [tokenizeEvents_of_ok h, entered_eq_nestedSections hkeep h, List.map_map]
    rfl
  · rw [tokenizeEvents_of_error h] at hmem
    simp at hmem

/-- Rules for words with notes in parentheses. -/
def noteRules : List (Rule String) := [
  .run "word" .letter,
  .literal "blank" " ",
  .delimited "note" "(" [")"] true]

/-- Of the notes on `a` the first has one of its own. The second text ends in that one. -/
theorem tokenizeEvents_mirror_notes : ∃ t, ofRules noteRules = .ok t ∧
    (∃ tokens, t.tokenize "a (b (c)) (d)" = .ok tokens ∧
      tokens.nestedSections.map Token.position =
        [⟨.one, .clamp 3⟩, ⟨.one, .clamp 6⟩, ⟨.one, .clamp 11⟩] ∧
      t.tokenizeEvents "a (b (c)) (d)" = .tokenizing 13 ::
        tokens.nestedSections.map (fun s => .entering s.position) ++ [.tokenized tokens.length]) ∧
    t.tokenize "a (b (c" = .error (.unterminatedSection ⟨.one, .clamp 6⟩ ⟨.one, .clamp 8⟩) ∧
    t.EndsInNested "a (b (c" ⟨.one, .clamp 6⟩ ⟨.one, .clamp 8⟩ ∧
    .entering ⟨.one, .clamp 6⟩ ∈ t.tokenizeEvents "a (b (c" ∧
    ∀ n, .tokenized n ∉ t.tokenizeEvents "a (b (c" := by
  have hkeep : ∀ rule ∈ noteRules, rule.discards = false := by decide
  have hsome : (tokens? noteRules "a (b (c)) (d)").any (fun tokens =>
      tokens.nestedSections.map Token.position =
        [⟨.one, .clamp 3⟩, ⟨.one, .clamp 6⟩, ⟨.one, .clamp 11⟩]) = true := by
    decide +kernel
  obtain ⟨tokens, htokens, hpositions⟩ := (Option.any_eq_true _ _).mp hsome
  obtain ⟨t, ht, htokens⟩ := exists_of_tokens? htokens
  have herror : (ofRules noteRules).toOption.any (fun t => t.tokenize "a (b (c" =
      .error (.unterminatedSection ⟨.one, .clamp 6⟩ ⟨.one, .clamp 8⟩)) = true := by
    decide +kernel
  rw [ht] at herror
  have herror := of_decide_eq_true herror
  obtain ⟨hevents, -⟩ := tokenizeEvents_mirror ht "a (b (c)) (d)"
  obtain ⟨-, hnone, hends, hentered⟩ := tokenizeEvents_mirror ht "a (b (c"
  have hnested : t.EndsInNested "a (b (c" ⟨.one, .clamp 6⟩ ⟨.one, .clamp 8⟩ := by
    rcases (hends _ _).mp herror with h | ⟨s, m, closings, ⟨-, -, opening, hrule, -⟩, -⟩
    · exact h
    · -- no rule takes the inside of a section as it stands
      rw [eq_of_ofRules ht] at hrule
      simp [noteRules] at hrule
  exact ⟨t, ht, ⟨tokens, htokens, of_decide_eq_true hpositions, hevents hkeep tokens htokens⟩,
    herror, hnested, hentered _ _ hnested, hnone _ herror⟩

end Tokenizer

end RuleLexer
