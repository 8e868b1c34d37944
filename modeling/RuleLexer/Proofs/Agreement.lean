import RuleLexer.Proofs.CheckedLevel

/-!
The checked scanner agrees with the machine: it has the same tokens and the same errors, and no
fault. What one turn over a level does is a step of the machine, except that a nested section is one
turn and many steps.

* `Scanner.Continues`, `Scanner.Agrees`: what a turn leads to, and what a level comes to;
* `Scanner.continues_takeFixed`, `Scanner.continues_takeChar`: a turn that takes a fixed text or a
  character leads to what the machine comes to; `Scanner.exists_turn_eq` says so of every turn;
* `Scanner.agrees_loop`: a level that is scanned in turns comes to what the machine makes of it;
* `Scanner.agrees_scan`: so it does with the levels inside, by recursion;
* `Scanner.tokenize_eq`: with fuel for the whole text the checked scanner has the result of the
  tokenizer.
-/

namespace RuleLexer

variable {κ : Type}

/-- The markers that end the innermost level, if it is one inside a section. -/
def State.ends (u : State κ) : Option (List (List Char)) :=
  u.opened.head?.map fun o => o.closings.map Marker.chars

namespace Scanner

variable {s : Scanner κ} {t : Tokenizer κ} {u : State κ} {st : Scanned κ} {fuel : ℕ}
  {recur : Recur κ}

/-! ### What turns and levels come to -/

/-- A turn leads to a level that the machine comes to as well, further on in the text and among the
same open sections, or it stops with the error of the machine. -/
def Continues (t : Tokenizer κ) (u : State κ) : Checked (Scanned κ) → Prop
  | .ok st => ∃ v : State κ, u.run t.index = v.run t.index ∧ v.opened = u.opened ∧
      u.cursor.Reaches v.cursor ∧ v.cursor.rest.length < u.cursor.rest.length ∧
      Tracks t st v.level v.cursor
  | .error (.error e) => (u.run t.index).result = .error e
  | .error (.fault _) => False

/-- A level ends where the machine ends it, with the same tokens, or stops with the error of the
machine. -/
def Agrees (t : Tokenizer κ) (u : State κ) : Checked (TokenList κ × Place) → Prop
  | .ok (tokens, p) => ∃ stop level entered, p = stop.place ∧ tokens = level.tokensUpTo stop ∧
      u.cursor.Reaches stop ∧ (stop.rest = [] ∨ (Marker.firstAt? u.closings stop.rest).isSome) ∧
      u.run t.index = State.run t.index ⟨stop, level, u.opened, entered⟩
  | .error (.error e) => (u.run t.index).result = .error e
  | .error (.fault _) => False

/-- The levels inside come to what the machine makes of them, if they begin further on than `c`. -/
def AgreesInside (t : Tokenizer κ) (c : Cursor) (recur : Recur κ) : Prop :=
  ∀ (v : State κ) (o : OpenSection κ) (outer : List (OpenSection κ)), v.opened = o :: outer →
    v.level = {} → c.Reaches v.cursor → v.cursor.rest.length < c.rest.length →
    Agrees t v (recur (o.closings.map Marker.chars) v.cursor.place)

lemma AgreesInside.mono {c d : Cursor} (h : AgreesInside t c recur) (hreach : c.Reaches d) :
    AgreesInside t d recur := by
  intro v o outer hopened hlevel hv hlt
  exact h v o outer hopened hlevel (hreach.trans hv) (hlt.trans_le hreach.length_le)

/-- What the machine makes of a level is what it makes of it from a later place on. -/
lemma Agrees.of_run {v : State κ} {r : Checked (TokenList κ × Place)} (h : Agrees t v r)
    (hrun : u.run t.index = v.run t.index) (hopened : v.opened = u.opened)
    (hreach : u.cursor.Reaches v.cursor) : Agrees t u r := by
  match r, h with
  | .error (.error e), h => exact (congrArg Outcome.result hrun).trans h
  | .ok (tokens, p), ⟨stop, level, entered, hp, htokens, hstop, hover, hrunv⟩ =>
      refine ⟨stop, level, entered, hp, htokens, hreach.trans hstop, ?_, ?_⟩
      · rwa [State.closings, hopened, ← State.closings] at hover
      · rw [hrun, hrunv, hopened]

/-! ### Turns -/

/-- A level is over where the text is, or where one of its closing markers stands. -/
lemma any_ends (hc : (Cursor.ofText s.text).Reaches u.cursor) :
    (u.ends.any fun markers => (s.matchAnyAt u.cursor.offset markers).isSome)
      = (Marker.firstAt? u.closings u.cursor.rest).isSome := by
  rw [State.ends, State.closings]
  cases u.opened with
  | nil => rfl
  | cons o outer => simp [matchAnyAt_here hc]

lemma turn_of_over (hc : (Cursor.ofText s.text).Reaches u.cursor)
    (htracks : Tracks t st u.level u.cursor)
    (hover : u.cursor.rest = [] ∨ (Marker.firstAt? u.closings u.cursor.rest).isSome) :
    s.turn fuel recur u.ends st = .ok (.done st) := by
  cases hrest : u.cursor.rest with
  | nil => simp only [turn, htracks.place_eq, Cursor.offset_place, getElem?_end hc hrest]
  | cons ch after =>
      have hclose := hover.resolve_left (by simp [hrest])
      simp only [turn, htracks.place_eq, Cursor.offset_place, getElem?_here hc hrest, any_ends hc,
        hclose, if_true]

section Fixed

variable {m : Found} {fm : FixedMatch κ}

/-- The machine takes the fixed text that was found, and the run in progress ends before it. -/
structure Takes (t : Tokenizer κ) (u : State κ) (m : Found) (fm : FixedMatch κ) : Prop where
  names : Names t m fm
  ahead_eq : t.index.ahead u.closings u.cursor.rest = .fixed fm
  run_eq : u.run t.index = u.flushed.run t.index

/-- A token that the machine adds as well. -/
lemma continues_token (hs : s.Works t) (htracks : Tracks t st u.level u.cursor)
    (hm : Names t m fm) {next : Cursor} {token : Token κ} (entered : List Position)
    (htoken : s.scanFixed fuel recur m u.cursor.place = .ok (token, next.place))
    (hreach : u.cursor.Reaches next) (hlt : next.rest.length < u.cursor.rest.length)
    (hrun : u.run t.index = State.run t.index
      { u.flushed.adding next fm.text.discard token with entered }) :
    Continues t u (s.takeFixed fuel recur m st) := by
  rw [takeFixed_eq hs htracks hm, htoken]
  exact ⟨_, hrun, rfl, hreach, hlt, .emit ..⟩

/-- A nested section that the machine enters as well: it is closed where the machine closes it. -/
lemma continues_nested (hs : s.Works t) (hc : (Cursor.ofText s.text).Reaches u.cursor)
    (htracks : Tracks t st u.level u.cursor) (hm : Names t m fm)
    (hahead : t.index.ahead u.closings u.cursor.rest = .fixed fm) {ends : List Marker}
    (hi : fm.text.inside = .nested ends)
    (hrun : u.run t.index = (u.flushed.inSection fm ends).run t.index)
    (hinside : AgreesInside t u.cursor recur) :
    Continues t u (s.takeFixed fuel recur m st) := by
  have hreach := FixedMatch.reaches_stop hahead
  have hlt := rest_length_lt_of_fixed hahead
  have hscan : s.scanFixed fuel recur m u.cursor.place = _ :=
    scanFixed_nested hs hc hm (MatchIndex.fixedAt?_of_ahead hahead) hi
  have hagrees : Agrees t (u.flushed.inSection fm ends)
      (recur (ends.map Marker.chars) (fm.stop u.cursor).place) :=
    hinside (u.flushed.inSection fm ends) _ u.opened rfl rfl hreach hlt
  cases hlevel : recur (ends.map Marker.chars) (fm.stop u.cursor).place with
  | error halt =>
      rw [hlevel] at hagrees hscan
      rw [takeFixed_eq hs htracks hm, hscan]
      cases halt with
      | fault f => exact hagrees.elim
      | error e => exact (congrArg Outcome.result hrun).trans hagrees
  | ok level =>
      obtain ⟨inner, p⟩ := level
      rw [hlevel] at hagrees hscan
      obtain ⟨closing, level, entered, rfl, rfl, hclosing, hover, hrunv⟩ := hagrees
      have hclose := closeNested_eq hc hreach hclosing ends (level.tokensUpTo closing)
      simp only [ok_bind, hclose] at hscan
      cases hmarker : Marker.firstAt? ends closing.rest with
      | none =>
          -- the text is over before the section is closed
          have hnil : closing.rest = [] := hover.resolve_right fun hsome =>
            Option.isSome_iff_ne_none.mp hsome hmarker
          rw [hmarker] at hscan
          rw [takeFixed_eq hs htracks hm, hscan]
          exact congrArg Outcome.result
            ((hrun.trans hrunv).trans (State.run_of_rest_eq_nil rfl hnil))
      | some marker =>
          have hpast : closing.Reaches (closing.past marker) := .past hmarker
          have hclosed : State.run t.index
              ⟨closing, level, (u.flushed.inSection fm ends).opened, entered⟩ = _ :=
            State.run_of_closing rfl hmarker
          rw [hmarker] at hscan
          exact continues_token hs htracks hm entered hscan ((hreach.trans hclosing).trans hpast)
            ((hclosing.trans hpast).length_le.trans_lt hlt) ((hrun.trans hrunv).trans hclosed)

/-- **A fixed text** leads to what the machine comes to by it. -/
theorem continues_takeFixed (hs : s.Works t) (hc : (Cursor.ofText s.text).Reaches u.cursor)
    (htracks : Tracks t st u.level u.cursor) (htakes : Takes t u m fm)
    (hfuel : s.text.length < fuel) (hinside : AgreesInside t u.cursor recur) :
    Continues t u (s.takeFixed fuel recur m st) := by
  obtain ⟨hm, hahead, hflushed⟩ := htakes
  have hfixed := MatchIndex.fixedAt?_of_ahead hahead
  have hreach := FixedMatch.reaches_stop hahead
  have hlt := rest_length_lt_of_fixed hahead
  have hpending : u.flushed.level.pending = none := Level.pending_flush ..
  cases hi : fm.text.inside with
  | nothing =>
      exact continues_token hs htracks hm u.entered (scanFixed_literal hs hc hm hfixed hi) hreach
        hlt (hflushed.trans (State.run_of_ahead_literal hpending hahead hi))
  | nested ends =>
      exact continues_nested hs hc htracks hm hahead hi
        (hflushed.trans (State.run_of_ahead_nested hpending hahead hi)) hinside
  | raw ends =>
      have hscan : s.scanFixed fuel recur m u.cursor.place = _ :=
        scanFixed_raw hs hc hm hfixed hi hfuel
      cases hr : t.index.capture ends (fm.stop u.cursor) with
      | error stop =>
          rw [hr] at hscan
          rw [takeFixed_eq hs htracks hm, hscan]
          exact congrArg Outcome.result
            (hflushed.trans (State.run_of_ahead_unterminated hpending hahead hi hr))
      | ok r =>
          rw [hr] at hscan
          obtain ⟨hclosing, hstop⟩ := MatchIndex.capture_reaches hr
          exact continues_token hs htracks hm u.entered hscan
            ((hreach.trans hclosing).trans hstop) ((hclosing.trans hstop).length_le.trans_lt hlt)
            (hflushed.trans (State.run_of_ahead_raw hpending hahead hi hr))

end Fixed

/-- **A character** leads to what the machine comes to by it. -/
lemma continues_takeChar (hs : s.Works t) (hc : (Cursor.ofText s.text).Reaches u.cursor)
    (htracks : Tracks t st u.level u.cursor) {ch : Char} {after : List Char}
    (hrest : u.cursor.rest = ch :: after) {n : ℕ} {r : CharRun κ}
    (hentry : entryFor? t.rules ch = some (n, r))
    (hstep : u.step t.index = .next { u with
      cursor := u.cursor.advance 1, level := u.level.extend r u.cursor }) :
    Continues t u (s.takeChar n st) := by
  obtain ⟨st', hst', htracks'⟩ := htracks.takeChar_eq hs hc hrest hentry
  have hreach : u.cursor.Reaches (u.cursor.advance 1) := .advance (by simp [hrest])
  rw [hst']
  refine ⟨_, State.run_of_next hstep, rfl, hreach, ?_, htracks'⟩
  simp [Cursor.advance, hrest]

/-- Both go on with the same run. -/
lemma continues_eq (hs : s.Works t) (htracks : Tracks t st u.level u.cursor) (ch : Char) :
    ((s.index.runFor? ch).any fun n => st.pending.any (·.rule == n))
      = (t.index.runFor? ch).any u.level.continues := by
  obtain ⟨hnumber, hrun⟩ := t.runFor?_numbered ch
  rw [hs.index_eq, hnumber, hrun]
  cases hentry : entryFor? t.rules ch with
  | none => rfl
  | some entry =>
      obtain ⟨n, r⟩ := entry
      have hpending := htracks.pending
      simp only [Option.map_some, Option.any_some, Level.continues]
      generalize st.pending = run, u.level.pending = p at hpending ⊢
      cases hpending with
      | none => rfl
      | some hrun =>
          obtain ⟨d, hd⟩ := hrun.entry
          simp [charClass_eq_of_entryFor? hentry hd, beq_eq_decide]

/-- A fixed text is taken unless the run in progress goes on. -/
lemma takes_of_names {ch : Char} {after : List Char} (hrest : u.cursor.rest = ch :: after)
    (hclose : Marker.firstAt? u.closings u.cursor.rest = none) {found : Option Found}
    (hnames : Option.Rel (Names t) found (t.index.fixedAt? u.cursor.rest)) :
    Option.Rel (Takes t u)
      (if (t.index.runFor? ch).any u.level.continues then none else found)
      (if (t.index.runFor? ch).any u.level.continues then none
        else t.index.fixedAt? u.cursor.rest) := by
  cases hcont : (t.index.runFor? ch).any u.level.continues with
  | true => exact .none
  | false =>
      have hends : u.EndsRun t.index := by
        intro ch' after' hrest' _ r hr
        obtain ⟨rfl, -⟩ := List.cons.inj (hrest.symm.trans hrest')
        simpa [hr] using hcont
      cases hfixed : t.index.fixedAt? u.cursor.rest with
      | none =>
          rw [hfixed] at hnames
          cases hnames
          exact .none
      | some fm =>
          rw [hfixed] at hnames
          cases hnames with
          | some hm =>
              exact .some ⟨hm, MatchIndex.ahead_eq_of_describes ⟨hclose, hfixed⟩,
                State.run_flushed hends⟩

/-- **A turn** where the level goes on leads to what the machine comes to. -/
theorem exists_turn_eq (hs : s.Works t) (hc : (Cursor.ofText s.text).Reaches u.cursor)
    (htracks : Tracks t st u.level u.cursor) (hne : u.cursor.rest ≠ [])
    (hclose : Marker.firstAt? u.closings u.cursor.rest = none) (hfuel : s.text.length < fuel)
    (hinside : AgreesInside t u.cursor recur) :
    ∃ next, s.turn fuel recur u.ends st = (next >>= fun st' => .ok (.more st')) ∧
      Continues t u next := by
  obtain ⟨ch, after, hrest⟩ := List.exists_cons_of_ne_nil hne
  obtain ⟨found, hfound, hnames⟩ := exists_bestFixed hs hc
  have htakes := takes_of_names hrest hclose hnames
  obtain ⟨hnumber, hrun⟩ := t.runFor?_numbered ch
  rw [← hs.index_eq] at hnumber
  have hstep : u.step t.index = u.takeChar t.index ch := by
    simp only [State.step, hrest, State.closing?_eq_none_iff.mpr hclose]
  simp only [State.takeChar] at hstep
  simp only [turn, htracks.place_eq, Cursor.offset_place, getElem?_here hc hrest, any_ends hc,
    hclose, Option.isSome_none, Bool.false_eq_true, if_false, hfound, ok_bind,
    continues_eq hs htracks]
  -- both go by what is left of the fixed texts and by the run for the character
  generalize (if (t.index.runFor? ch).any u.level.continues then none else found) = best,
    (if (t.index.runFor? ch).any u.level.continues then none
      else t.index.fixedAt? u.cursor.rest) = fixed at htakes hstep ⊢
  cases htakes with
  | some htake => exact ⟨_, rfl, continues_takeFixed hs hc htracks htake hfuel hinside⟩
  | none =>
      cases hentry : entryFor? t.rules ch with
      | some entry =>
          simp only [hrun, hnumber, hentry, Option.map_some] at hstep ⊢
          exact ⟨_, rfl, continues_takeChar hs hc htracks hrest hentry hstep⟩
      | none =>
          simp only [hrun, hnumber, hentry, Option.map_none, slice_rest hc, ok_bind] at hstep ⊢
          exact ⟨.error (.error (.unexpected u.cursor.rest u.cursor.position)), rfl,
            congrArg Outcome.result (State.run_of_halt hstep)⟩

/-! ### Levels -/

/-- **A level** that is scanned in turns comes to what the machine makes of it. -/
theorem agrees_loop (hs : s.Works t) (hc : (Cursor.ofText s.text).Reaches u.cursor)
    (htracks : Tracks t st u.level u.cursor) (hfuel : s.text.length < fuel)
    (hinside : AgreesInside t u.cursor recur) {n : ℕ} (hn : u.cursor.rest.length < n) :
    Agrees t u (loop (s.turn fuel recur u.ends) n st >>= s.finish) := by
  induction n generalizing u st with
  | zero => omega
  | succ n ih =>
      by_cases hover : u.cursor.rest = [] ∨ (Marker.firstAt? u.closings u.cursor.rest).isSome
      · rw [loop, turn_of_over hc htracks hover]
        simp only [ok_bind, finish, htracks.flush_eq hs]
        exact ⟨u.cursor, u.level, u.entered, htracks.place_eq, rfl, .refl _, hover, rfl⟩
      · obtain ⟨hne, hclose⟩ := not_or.mp hover
        obtain ⟨next, hturn, hnext⟩ :=
          exists_turn_eq hs hc htracks hne (by simpa using hclose) hfuel hinside
        rw [loop, hturn]
        cases next with
        | error halt =>
            cases halt with
            | fault f => exact hnext.elim
            | error e => exact hnext
        | ok st' =>
            obtain ⟨v, hrun, hopened, hreach, hlt, htracks'⟩ := hnext
            have hrest := ih (hc.trans hreach) htracks' (hinside.mono hreach) (by omega)
            rw [State.ends, hopened, ← State.ends] at hrest
            exact hrest.of_run hrun hopened hreach

/-- **Levels inside levels**: a level is scanned as the machine does, down to the depth that is left
of the text. -/
theorem agrees_scan (hs : s.Works t) (hfuel : s.text.length < fuel) {depth : ℕ}
    (hc : (Cursor.ofText s.text).Reaches u.cursor) (hlevel : u.level = {})
    (hdepth : u.cursor.rest.length < depth) :
    Agrees t u (s.scan fuel depth u.ends u.cursor.place) := by
  induction depth generalizing u with
  | zero => omega
  | succ depth ih =>
      have htracks : Tracks t ⟨u.cursor.place, [], none⟩ u.level u.cursor := hlevel ▸ .start t _
      have hlength := length_eq hc
      refine agrees_loop hs hc htracks hfuel ?_ (by omega)
      intro v o outer hopened hv hreach hlt
      have hends : v.ends = some (o.closings.map Marker.chars) := by simp [State.ends, hopened]
      have hinside := ih (hc.trans hreach) hv (by omega)
      rwa [hends] at hinside

/-- **The whole text**: with fuel for all of it the checked scanner has the result of the
tokenizer. -/
theorem tokenize_eq (hs : s.Works t) {text : String} (htext : s.text = text.toList) {depth : ℕ}
    (hfuel : s.text.length < fuel) (hdepth : s.text.length < depth) :
    s.tokenize fuel depth = (t.tokenize text).mapError .error := by
  have hc : (Cursor.ofText s.text).Reaches (Cursor.ofText text.toList) := htext ▸ .refl _
  have hagrees : Agrees t (State.ofText text.toList) (s.scan fuel depth none ⟨0, .start⟩) :=
    agrees_scan hs hfuel (u := State.ofText text.toList) hc rfl (htext ▸ hdepth)
  have htokenize : t.tokenize text = ((State.ofText text.toList).run t.index).result := rfl
  rw [tokenize]
  cases hscan : s.scan fuel depth none ⟨0, .start⟩ with
  | error halt =>
      rw [hscan] at hagrees
      cases halt with
      | fault f => exact hagrees.elim
      | error e =>
          rw [htokenize, hagrees]
          rfl
  | ok level =>
      obtain ⟨tokens, p⟩ := level
      rw [hscan] at hagrees
      obtain ⟨stop, level, entered, -, rfl, -, hover, hrun⟩ := hagrees
      -- no section is open around the whole text, so it is over where it ends
      have hnil : stop.rest = [] :=
        hover.resolve_right (by simp [State.ofText, State.closings, Marker.firstAt?])
      have hhalt : State.step t.index ⟨stop, level, [], entered⟩
          = .halt (.ok (level.tokensUpTo stop)) := by
        simp only [State.step, hnil]
      have hresult : t.tokenize text = .ok (level.tokensUpTo stop) :=
        congrArg Outcome.result (hrun.trans (State.run_of_halt hhalt))
      rw [hresult]
      rfl

end Scanner

end RuleLexer
