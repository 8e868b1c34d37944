import RuleLexer.Proofs.Spanwise

/-!
The machine, which leaves a run open until something ends it, cuts a text as tokenizing span by
span does.

* `MatchIndex.charClass_eq_iff`: runs are told apart by their classes as they are by their places;
* `State.step_flushed`: where the run in progress does not go on, it makes no difference whether it
  was ended before;
* `State.run_span`: a run in progress is carried on over the whole of its span;
* `State.agrees_level`: the machine does with a level what `Spanwise.level` says of it, by
  recursion on the levels inside;
* `tokenize_eq_spanwise`: the tokens and the errors of the two are the same for every text.
-/

namespace RuleLexer

variable {κ : Type}

/-! ### Which run is in progress -/

namespace MatchIndex

variable {ix : MatchIndex κ}

lemma runFor?_eq_bind (c : Char) : ix.runFor? c = (ix.runPlace? c).bind (ix.runs[·]?) :=
  List.find?_eq_bind_findIdx?_getElem?

/-- The run that is first for a character stands at its place and accepts it. -/
lemma runPlace?_of_runFor? {c : Char} {r : CharRun κ} (h : ix.runFor? c = some r) :
    ∃ i, ix.runPlace? c = some i ∧ ix.runs[i]? = some r := by
  rw [runFor?_eq_bind] at h
  exact Option.bind_eq_some_iff.mp h

lemma accepts_of_runFor? {c : Char} {r : CharRun κ} (h : ix.runFor? c = some r) :
    r.charClass.accepts c = true := by
  simpa using List.find?_some h

/-- No run before the place of the first one accepts the character. -/
lemma le_of_accepts {c : Char} {i j : ℕ} {r : CharRun κ} (hi : ix.runPlace? c = some i)
    (hj : ix.runs[j]? = some r) (h : r.charClass.accepts c = true) : i ≤ j := by
  obtain ⟨hlen, -, hbefore⟩ := List.findIdx?_eq_some_iff_getElem.mp hi
  obtain ⟨hjlen, hjr⟩ := List.getElem?_eq_some_iff.mp hj
  by_contra hlt
  have hnot := hbefore j (by omega)
  rw [hjr] at hnot
  exact hnot h

/-- Of the runs of one class only the first is ever in progress, so two runs in progress have one
class just when they are one. -/
lemma charClass_eq_iff {c d : Char} {i j : ℕ} {r r' : CharRun κ}
    (hr : ix.runFor? c = some r) (hi : ix.runPlace? c = some i)
    (hr' : ix.runFor? d = some r') (hj : ix.runPlace? d = some j) :
    r.charClass = r'.charClass ↔ j = i := by
  have hri : ix.runs[i]? = some r := by simpa [runFor?_eq_bind, hi] using hr
  have hrj : ix.runs[j]? = some r' := by simpa [runFor?_eq_bind, hj] using hr'
  constructor
  · intro hclass
    have h1 : i ≤ j := le_of_accepts hi hrj (hclass ▸ accepts_of_runFor? hr)
    have h2 : j ≤ i := le_of_accepts hj hri (hclass ▸ accepts_of_runFor? hr')
    omega
  · rintro rfl
    rw [hri] at hrj
    rw [Option.some.inj hrj]

end MatchIndex

/-! ### Levels -/

namespace Level

/-- A run that was ended cannot be ended again. -/
lemma flush_of_pending_eq_none {level : Level κ} (h : level.pending = none) (stop : Cursor) :
    level.flush stop = level := by
  rw [flush, h]

/-- Without a run in progress a level is no more than its tokens. -/
lemma mk_of_pending_eq_none {level : Level κ} (h : level.pending = none) :
    level = ⟨level.emitted, none⟩ := by
  rw [← h]

lemma emitted_emit (level : Level κ) (discard : Bool) (token : Token κ) :
    (level.emit discard token).emitted
      = (token.unlessDiscarded discard).reverse ++ level.emitted := by
  cases discard <;> rfl

lemma pending_emit (level : Level κ) (discard : Bool) (token : Token κ) :
    (level.emit discard token).pending = level.pending := by
  cases discard <;> rfl

lemma pending_flush (level : Level κ) (stop : Cursor) : (level.flush stop).pending = none := by
  rw [flush]
  split
  · assumption
  · exact pending_emit ..

@[simp] lemma flush_flush (level : Level κ) (stop stop' : Cursor) :
    (level.flush stop).flush stop' = level.flush stop :=
  flush_of_pending_eq_none (level.pending_flush stop) stop'

@[simp] lemma tokensUpTo_flush (level : Level κ) (stop : Cursor) :
    (level.flush stop).tokensUpTo stop = level.tokensUpTo stop := by
  rw [tokensUpTo, tokensUpTo, flush_flush]

/-- Without a run in progress the tokens of a level are those that were emitted. -/
lemma tokensUpTo_of_pending_eq_none {level : Level κ} (h : level.pending = none) (stop : Cursor) :
    level.tokensUpTo stop = level.emitted.reverse := by
  rw [tokensUpTo, flush_of_pending_eq_none h]

lemma continues_of_pending_eq_none {level : Level κ} (h : level.pending = none) (r : CharRun κ) :
    level.continues r = false := by
  rw [continues, h]

end Level

namespace State

variable {ix : MatchIndex κ}

/-- The markers that end the innermost level. -/
def closings (s : State κ) : List Marker :=
  match s.opened with
  | [] => []
  | o :: _ => o.closings

lemma closing?_eq_none_iff {s : State κ} :
    s.closing? = none ↔ Marker.firstAt? s.closings s.cursor.rest = none := by
  rw [closing?, closings]
  split <;> simp [Marker.firstAt?, *]

/-- The section that closes is the innermost one. -/
lemma closing?_eq_some_iff {s : State κ} {o : OpenSection κ} {outer : List (OpenSection κ)}
    {m : Marker} : s.closing? = some (o, outer, m) ↔
      s.opened = o :: outer ∧ Marker.firstAt? o.closings s.cursor.rest = some m := by
  rw [closing?]
  cases s.opened with
  | nil => simp
  | cons o' outer' =>
      simp only [Option.map_eq_some_iff, Prod.mk.injEq, List.cons.injEq]
      constructor
      · rintro ⟨m', hm, rfl, rfl, rfl⟩
        exact ⟨⟨rfl, rfl⟩, hm⟩
      · rintro ⟨⟨rfl, rfl⟩, hm⟩
        exact ⟨m, hm, rfl, rfl, rfl⟩

lemma run_of_next {s t : State κ} (h : s.step ix = .next t) : s.run ix = t.run ix := by
  rw [run]
  split
  · rename_i u hu
    rw [h] at hu
    rw [Step.next.inj hu]
  · rename_i r hr
    rw [h] at hr
    cases hr

lemma run_of_halt {s : State κ} {r : Except ScanError (TokenList κ)} (h : s.step ix = .halt r) :
    s.run ix = ⟨r, s.entered.reverse⟩ := by
  rw [run]
  split
  · rename_i u hu
    rw [h] at hu
    cases hu
  · rename_i r' hr
    rw [h] at hr
    rw [Step.halt.inj hr]

/-- Machines that take the same step run alike, if they have entered the same sections. -/
lemma run_congr {s t : State κ} (h : s.step ix = t.step ix) (he : s.entered = t.entered) :
    s.run ix = t.run ix := by
  cases ht : t.step ix with
  | next u => rw [run_of_next ht, run_of_next (h.trans ht)]
  | halt r => rw [run_of_halt ht, run_of_halt (h.trans ht), he]

/-! ### A run in progress -/

/-- At a character where the run in progress does not go on, fixed texts go before runs. -/
lemma takeChar_of_not_continues {s : State κ} {c : Char}
    (h : ∀ r, ix.runFor? c = some r → s.level.continues r = false) :
    s.takeChar ix c = match ix.fixedAt? s.cursor.rest, ix.runFor? c with
      | some m, _ => s.takeFixed ix m
      | none, some r =>
          .next { s with
            cursor := s.cursor.advance 1
            level := { s.level.flush s.cursor with pending := some ⟨r, s.cursor⟩ } }
      | none, none => .halt (.error (.unexpected s.cursor.rest s.cursor.position)) := by
  rw [takeChar]
  cases hr : ix.runFor? c with
  | none => cases hf : ix.fixedAt? s.cursor.rest <;> simp
  | some r =>
      have hcont := h r hr
      cases hf : ix.fixedAt? s.cursor.rest <;> simp [hcont, Level.extend]

/-- Whether the run in progress ends here, because of what stands at the cursor. -/
def EndsRun (ix : MatchIndex κ) (s : State κ) : Prop :=
  ∀ c after, s.cursor.rest = c :: after → Marker.firstAt? s.closings s.cursor.rest = none →
    ∀ r, ix.runFor? c = some r → s.level.continues r = false

/-- The machine with the run in progress ended at the cursor. -/
def flushed (s : State κ) : State κ :=
  { s with level := s.level.flush s.cursor }

/-- Where the run in progress ends, it makes no difference whether it was ended before. -/
lemma step_flushed {s : State κ} (h : s.EndsRun ix) : s.flushed.step ix = s.step ix := by
  cases hrest : s.cursor.rest with
  | nil => simp only [step, flushed, hrest, Level.tokensUpTo_flush]
  | cons c after =>
      have hrest' : s.flushed.cursor.rest = c :: after := hrest
      cases hclose : s.closing? with
      | some p =>
          have hclose' : s.flushed.closing? = some p := hclose
          simp only [step, hrest, hrest', hclose, hclose', OpenSection.close]
          simp only [flushed, Level.tokensUpTo_flush]
      | none =>
          have hclose' : s.flushed.closing? = none := hclose
          have hends := h c after hrest (closing?_eq_none_iff.mp hclose)
          have hends' : ∀ r, ix.runFor? c = some r → s.flushed.level.continues r = false :=
            fun r _ => Level.continues_of_pending_eq_none (s.level.pending_flush s.cursor) r
          have hchar : s.flushed.takeChar ix c = s.takeChar ix c := by
            rw [takeChar_of_not_continues hends, takeChar_of_not_continues hends']
            simp only [flushed, takeFixed, Level.flush_flush]
          simp only [step, hrest, hrest', hclose, hclose', hchar]

/-- Where the run in progress ends, the machine goes on as if it was ended before. -/
lemma run_flushed {s : State κ} (h : s.EndsRun ix) : s.run ix = s.flushed.run ix :=
  run_congr (step_flushed h).symm rfl

/-- A character whose first run is the one in progress is added to it. -/
lemma step_of_continues {s : State κ} {c : Char} {after : List Char} {r : CharRun κ}
    (hrest : s.cursor.rest = c :: after)
    (hclose : Marker.firstAt? s.closings s.cursor.rest = none)
    (hr : ix.runFor? c = some r) (hcont : s.level.continues r = true) :
    s.step ix = .next { s with cursor := s.cursor.advance 1 } := by
  simp only [step, hrest, closing?_eq_none_iff.mpr hclose, takeChar, hr, Option.any_some, hcont,
    if_true, Level.extend]

/-- A run in progress ends where another run is first, or none. -/
lemma endsRun_of_runPlace?_ne {s : State κ} {p : Pending κ} {c d : Char} {after : List Char}
    (hp : s.level.pending = some p) (hd : ix.runFor? d = some p.run)
    (hrest : s.cursor.rest = c :: after) (hplace : ix.runPlace? c ≠ ix.runPlace? d) :
    s.EndsRun ix := by
  intro c' after' hrest' _ r hr
  obtain ⟨rfl, -⟩ := List.cons.inj (hrest.symm.trans hrest')
  obtain ⟨i, hi, -⟩ := MatchIndex.runPlace?_of_runFor? hd
  obtain ⟨j, hj, -⟩ := MatchIndex.runPlace?_of_runFor? hr
  -- the machine compares classes, so the other run must be of another class
  have hne : ¬ p.run.charClass = r.charClass := by
    intro hclass
    exact hplace (by rw [hj, hi, (MatchIndex.charClass_eq_iff hd hi hr hj).mp hclass])
  simpa [Level.continues, hp] using hne

/-- **A run in progress** is carried on over its whole span, and ended after it. -/
lemma run_span {s : State κ} {p : Pending κ} {d : Char} (hp : s.level.pending = some p)
    (hd : ix.runFor? d = some p.run) :
    s.run ix = run ix (flushed { s with
      cursor := s.cursor.advance
        (ix.spanLength s.closings (ix.runPlace? d) s.cursor.rest) }) := by
  -- the run stays in progress from character to character, so the induction is on what is left
  induction hrest : s.cursor.rest generalizing s with
  | nil =>
      have hends : s.EndsRun ix := fun c after h => by simp [hrest] at h
      have hzero : ix.spanLength s.closings (ix.runPlace? d) [] = 0 := by
        simp [MatchIndex.spanLength]
      rw [hzero, Cursor.advance_zero]
      exact run_flushed hends
  | cons c after ih =>
      by_cases hclose : (Marker.firstAt? s.closings (c :: after)).isSome
      · have hends : s.EndsRun ix := fun c' after' _ hnone => by
          rw [hrest] at hnone
          simp [hnone] at hclose
        rw [MatchIndex.spanLength_of_closing hclose, Cursor.advance_zero]
        exact run_flushed hends
      · have hnone : Marker.firstAt? s.closings (c :: after) = none := by simpa using hclose
        by_cases hplace : ix.runPlace? c = ix.runPlace? d
        · have hc : ix.runFor? c = some p.run := by
            rw [MatchIndex.runFor?_eq_bind, hplace, ← MatchIndex.runFor?_eq_bind, hd]
          have hcont : s.level.continues p.run = true := by simp [Level.continues, hp]
          have hstep := step_of_continues hrest (by rw [hrest, hnone]) hc hcont
          have hafter : (s.cursor.advance 1).rest = after := by simp [Cursor.advance, hrest]
          have hspan := ih (s := { s with cursor := s.cursor.advance 1 }) hp hafter
          rw [run_of_next hstep, hspan, MatchIndex.spanLength_cons hnone hplace,
            Cursor.advance_advance, Nat.add_comm 1]
          rfl
        · have hends : s.EndsRun ix := endsRun_of_runPlace?_ne hp hd hrest hplace
          rw [MatchIndex.spanLength_of_ne hplace, Cursor.advance_zero]
          exact run_flushed hends

/-! ### A level from its beginning

In these lemmas no run is in progress, so what happens next is what stands ahead. -/

lemma takeChar_of_pending_eq_none (ix : MatchIndex κ) {s : State κ}
    (hp : s.level.pending = none) (c : Char) :
    s.takeChar ix c = match ix.fixedAt? s.cursor.rest, ix.runFor? c with
      | some m, _ => s.takeFixed ix m
      | none, some r =>
          .next { s with
            cursor := s.cursor.advance 1
            level := { s.level with pending := some ⟨r, s.cursor⟩ } }
      | none, none => .halt (.error (.unexpected s.cursor.rest s.cursor.position)) := by
  rw [takeChar_of_not_continues fun r _ => Level.continues_of_pending_eq_none hp r,
    Level.flush_of_pending_eq_none hp]

lemma step_of_ahead_fixed {s : State κ} {m : FixedMatch κ} (hp : s.level.pending = none)
    (h : ix.ahead s.closings s.cursor.rest = .fixed m) : s.step ix = s.takeFixed ix m := by
  obtain ⟨c, after, hrest⟩ := List.exists_cons_of_ne_nil (MatchIndex.ne_nil_of_ahead_fixed h)
  obtain ⟨hnone, hfixed⟩ := MatchIndex.describes_of_ahead h
  have hclose := closing?_eq_none_iff.mpr hnone
  have hchar := takeChar_of_pending_eq_none ix hp c
  rw [hfixed] at hchar
  simp only [step, hrest, hclose, hchar]

/-- The machine at `next`, with a token added to the innermost level. -/
def adding (s : State κ) (next : Cursor) (discard : Bool) (token : Token κ) : State κ :=
  { s with cursor := next, level := s.level.emit discard token }

lemma run_of_ahead_run {s : State κ} {r : CharRun κ} {n : ℕ} (hp : s.level.pending = none)
    (h : ix.ahead s.closings s.cursor.rest = .run r n) :
    s.run ix = (s.adding (s.cursor.advance n) r.discard (r.tokenAt s.cursor n)).run ix := by
  obtain ⟨c, after, hrest, hnone, hfixed, hr, rfl⟩ := MatchIndex.describes_of_ahead h
  have hchar := takeChar_of_pending_eq_none ix hp c
  rw [hfixed, hr] at hchar
  have hstep : s.step ix = .next { s with
      cursor := s.cursor.advance 1
      level := { s.level with pending := some ⟨r, s.cursor⟩ } } := by
    simp only [step, hrest, closing?_eq_none_iff.mpr hnone, hchar]
  have hafter : (s.cursor.advance 1).rest = after := by simp [Cursor.advance, hrest]
  rw [run_of_next hstep, run_span rfl hr]
  simp only [flushed, Level.flush, hafter, Cursor.advance_advance, Nat.add_comm 1]
  rw [← Level.mk_of_pending_eq_none hp]
  rfl

lemma run_of_ahead_nothing {s : State κ} (hp : s.level.pending = none)
    (h : ix.ahead s.closings s.cursor.rest = .nothing) :
    s.run ix = ⟨.error (.unexpected s.cursor.rest s.cursor.position), s.entered.reverse⟩ := by
  obtain ⟨c, after, hrest, hnone, hfixed, hr⟩ := MatchIndex.describes_of_ahead h
  have hchar := takeChar_of_pending_eq_none ix hp c
  rw [hfixed, hr] at hchar
  have hclose := closing?_eq_none_iff.mpr hnone
  refine run_of_halt ?_
  rw [step]
  simp only [hrest, hclose, hchar]

lemma run_of_ahead_literal {s : State κ} {m : FixedMatch κ} (hp : s.level.pending = none)
    (h : ix.ahead s.closings s.cursor.rest = .fixed m) (hi : m.text.inside = .nothing) :
    s.run ix = (s.adding (m.stop s.cursor) m.text.discard (m.literalAt s.cursor)).run ix := by
  refine run_of_next ?_
  rw [step_of_ahead_fixed hp h, takeFixed, hi]
  simp only [Level.flush_of_pending_eq_none hp]
  rfl

lemma run_of_ahead_raw {s : State κ} {m : FixedMatch κ} {ends : List Marker} {r : Captured}
    (hp : s.level.pending = none) (h : ix.ahead s.closings s.cursor.rest = .fixed m)
    (hi : m.text.inside = .raw ends) (hr : ix.capture ends (m.stop s.cursor) = .ok r) :
    s.run ix = (s.adding r.stop m.text.discard (m.rawAt s.cursor r)).run ix := by
  refine run_of_next ?_
  rw [FixedMatch.stop] at hr
  rw [step_of_ahead_fixed hp h, takeFixed, hi]
  simp only [Level.flush_of_pending_eq_none hp, hr]
  rfl

lemma run_of_ahead_unterminated {s : State κ} {m : FixedMatch κ} {ends : List Marker}
    {stop : Position} (hp : s.level.pending = none)
    (h : ix.ahead s.closings s.cursor.rest = .fixed m) (hi : m.text.inside = .raw ends)
    (hr : ix.capture ends (m.stop s.cursor) = .error stop) :
    s.run ix = ⟨.error (.unterminatedSection s.cursor.position stop), s.entered.reverse⟩ := by
  refine run_of_halt ?_
  rw [FixedMatch.stop] at hr
  rw [step_of_ahead_fixed hp h, takeFixed, hi]
  simp only [hr]

/-- The machine inside the nested section that `m` opens. -/
def inSection (s : State κ) (m : FixedMatch κ) (ends : List Marker) : State κ where
  cursor := m.stop s.cursor
  level := {}
  opened := ⟨m.text.kind, m.text.discard, ends, s.cursor, m.stop s.cursor, s.level⟩ :: s.opened
  entered := s.cursor.position :: s.entered

lemma run_of_ahead_nested {s : State κ} {m : FixedMatch κ} {ends : List Marker}
    (hp : s.level.pending = none) (h : ix.ahead s.closings s.cursor.rest = .fixed m)
    (hi : m.text.inside = .nested ends) : s.run ix = (s.inSection m ends).run ix := by
  refine run_of_next ?_
  rw [step_of_ahead_fixed hp h, takeFixed, hi]
  simp only [Level.flush_of_pending_eq_none hp]
  rfl

/-- Where the text ends inside a section, the section is unterminated. -/
lemma run_of_rest_eq_nil {s : State κ} {o : OpenSection κ} {outer : List (OpenSection κ)}
    (hopened : s.opened = o :: outer) (hrest : s.cursor.rest = []) :
    s.run ix = ⟨.error (.unterminatedSection o.start.position s.cursor.position),
      s.entered.reverse⟩ := by
  refine run_of_halt ?_
  rw [step]
  simp only [hrest, hopened]

/-- Where a closing marker stands, the innermost section is closed. -/
lemma run_of_closing {s : State κ} {o : OpenSection κ} {outer : List (OpenSection κ)} {m : Marker}
    (hopened : s.opened = o :: outer) (hm : Marker.firstAt? o.closings s.cursor.rest = some m) :
    s.run ix = run ix { s with
      cursor := s.cursor.past m
      level := o.close s.level s.cursor (s.cursor.past m)
      opened := outer } := by
  have hne : s.cursor.rest ≠ [] := fun h => by
    have hoccurs := Marker.occursAt_of_firstAt? hm
    simp [h, Marker.occursAt, Marker.chars] at hoccurs
  obtain ⟨c, after, hrest⟩ := List.exists_cons_of_ne_nil hne
  have hclose : s.closing? = some (o, outer, m) := by
    rw [closing?, hopened]
    simp only [hm, Option.map_some]
  refine run_of_next ?_
  rw [step]
  simp only [hrest, hclose]

/-- What a machine at the beginning of a level does, said by what the level is: it comes to the end
of the level with the tokens of the level added, or stops with the error of the level. -/
def Agrees (ix : MatchIndex κ) (s : State κ) : Except ScanError (Stretch κ) → Prop
  | .error e => (s.run ix).result = .error e
  | .ok r => ∃ entered, s.run ix = run ix
      ⟨r.stop s.cursor, ⟨r.tokens.reverse ++ s.level.emitted, none⟩, s.opened, entered⟩

/-- When the machine adds a token and then agrees with what comes after, it agrees with both
together. -/
lemma Agrees.after {s : State κ} {next : Cursor} {discard : Bool} {token : Token κ}
    {entered : List Position} {r : Except ScanError (Stretch κ)}
    (h : Agrees ix { s.adding next discard token with entered } r)
    (hrun : s.run ix = run ix { s.adding next discard token with entered })
    (hreach : s.cursor.Reaches next) :
    s.Agrees ix (r.map (·.after s.cursor next discard token)) := by
  cases r with
  | error e =>
      have h' : (run ix { s.adding next discard token with entered }).result = .error e := h
      rw [← hrun] at h'
      exact h'
  | ok r =>
      obtain ⟨entered', h⟩ := h
      refine ⟨entered', ?_⟩
      rw [hrun, h, Stretch.stop_after hreach]
      simp only [adding, Stretch.after, Level.emitted_emit, List.reverse_append,
        List.append_assoc]

/-- **Levels**: at the beginning of a level the machine agrees with the scan of the level. -/
theorem agrees_level {c : Cursor} {closings : List Marker} {s : State κ} (hc : s.cursor = c)
    (hclosings : s.closings = closings) (hp : s.level.pending = none) :
    s.Agrees ix (Spanwise.level ix closings c) := by
  -- the recursion of the level is the induction: inside a section the machine is at the beginning
  -- of a level again, with one more section open
  fun_induction Spanwise.level ix closings c generalizing s with
  | case1 closings c hahead =>
      subst hc
      obtain ⟨cursor, ⟨emitted, pending⟩, opened, entered⟩ := s
      obtain rfl : pending = none := hp
      exact ⟨entered, rfl⟩
  | case2 closings c hahead =>
      subst hc hclosings
      rw [Agrees, run_of_ahead_nothing hp hahead]
  | case3 closings c r n hahead ih =>
      subst hc hclosings
      have htail := ih (s := s.adding (s.cursor.advance n) r.discard (r.tokenAt s.cursor n)) rfl rfl
        (hp ▸ Level.pending_emit ..)
      exact htail.after (run_of_ahead_run hp hahead) (.advance (MatchIndex.run_length_le hahead))
  | case4 closings c m hahead hi ih =>
      subst hc hclosings
      have htail := ih (s := s.adding (m.stop s.cursor) m.text.discard (m.literalAt s.cursor)) rfl
        rfl (hp ▸ Level.pending_emit ..)
      exact htail.after (run_of_ahead_literal hp hahead hi) (FixedMatch.reaches_stop hahead)
  | case5 closings c m hahead ends hi stop hr =>
      subst hc hclosings
      rw [Agrees, run_of_ahead_unterminated hp hahead hi hr]
  | case6 closings c m hahead ends hi r hr ih =>
      subst hc hclosings
      have htail := ih (s := s.adding r.stop m.text.discard (m.rawAt s.cursor r)) rfl rfl
        (hp ▸ Level.pending_emit ..)
      exact htail.after (run_of_ahead_raw hp hahead hi hr) (Covers.reaches_captured hahead hr)
  | case7 closings c m hahead ends hi e he ih =>
      subst hc hclosings
      have hinner : (s.inSection m ends).Agrees ix (.error e) := he ▸ ih rfl rfl rfl
      rw [Agrees] at hinner ⊢
      rw [run_of_ahead_nested hp hahead hi, hinner]
  | case8 closings c m hahead ends hi inner hinner hm ih =>
      subst hc hclosings
      have hcovers := covers_of_level hinner
      obtain ⟨entered, hrun⟩ : (s.inSection m ends).Agrees ix (.ok inner) :=
        hinner ▸ ih rfl rfl rfl
      -- a level ends where the text does, or where one of its closing markers stands
      have hnil : (inner.stop (m.stop s.cursor)).rest = [] := by
        simpa [MatchIndex.Describes, hm] using MatchIndex.describes_of_ahead hcovers.ahead_stop
      rw [Agrees, run_of_ahead_nested hp hahead hi, hrun, run_of_rest_eq_nil rfl hnil]
      rfl
  | case9 closings c m hahead ends hi inner hinner marker hm ihinner ih =>
      subst hc hclosings
      have hcovers := covers_of_level hinner
      obtain ⟨entered, hrun⟩ : (s.inSection m ends).Agrees ix (.ok inner) :=
        hinner ▸ ihinner rfl rfl rfl
      have hreach := ((FixedMatch.reaches_stop hahead).trans hcovers.reaches).trans (.past hm)
      set closing := inner.stop (m.stop s.cursor) with hclosing
      have htail := ih
        (s := { s.adding (closing.past marker) m.text.discard
          (m.nestedAt s.cursor closing marker inner.tokens) with entered }) rfl rfl
        (hp ▸ Level.pending_emit ..)
      refine htail.after ?_ hreach
      rw [run_of_ahead_nested hp hahead hi, hrun, run_of_closing rfl hm]
      simp only [OpenSection.close, Level.tokensUpTo_of_pending_eq_none, inSection,
        List.append_nil, List.reverse_reverse]
      rfl

/-- The machine before a text ends as the scan of its outermost level does. -/
theorem result_run_ofText (ix : MatchIndex κ) (text : List Char) :
    ((ofText text).run ix).result = (Spanwise.level ix [] (.ofText text)).map (·.tokens) := by
  have hagrees : (ofText text).Agrees ix (Spanwise.level ix [] (.ofText text)) :=
    agrees_level rfl rfl rfl
  cases hlevel : Spanwise.level ix [] (.ofText text) with
  | error e =>
      rw [hlevel] at hagrees
      exact hagrees
  | ok s =>
      rw [hlevel] at hagrees
      obtain ⟨entered, hrun⟩ := hagrees
      have hnil := (covers_of_level hlevel).rest_stop_eq_nil
      have hstep : step ix ⟨s.stop (.ofText text), ⟨s.tokens.reverse ++ [], none⟩, [], entered⟩
          = .halt (.ok s.tokens) := by
        simp only [step, hnil, Level.tokensUpTo_of_pending_eq_none, List.append_nil,
          List.reverse_reverse]
      exact congrArg Outcome.result (hrun.trans (run_of_halt hstep))

end State

/-! ### Tokenizers -/

namespace Tokenizer

/-- The tokens of a text that is tokenized without an error cover it from beginning to end. -/
theorem covers_of_tokenize {t : Tokenizer κ} {text : String} {tokens : TokenList κ}
    (h : t.tokenize text = .ok tokens) :
    ∃ stop, Covers t.index [] (.ofText text.toList) tokens stop ∧ stop.rest = [] := by
  obtain ⟨s, hs, rfl⟩ := exists_of_map_ok ((State.result_run_ofText t.index text.toList).symm.trans h)
  have hcovers := covers_of_level hs
  exact ⟨_, hcovers, hcovers.rest_stop_eq_nil⟩

/-- A text that tokens cover is tokenized into them. -/
theorem tokenize_of_covers {t : Tokenizer κ} {text : String} {tokens : TokenList κ} {stop : Cursor}
    (h : Covers t.index [] (.ofText text.toList) tokens stop) : t.tokenize text = .ok tokens := by
  have hrun := State.result_run_ofText t.index text.toList
  rw [level_of_covers h] at hrun
  exact hrun

/-- Tokenizing a text fails as the scan of its outermost level does. -/
lemma tokenize_eq_error_iff {t : Tokenizer κ} {text : String} {e : ScanError} :
    t.tokenize text = .error e ↔ Spanwise.level t.index [] (.ofText text.toList) = .error e := by
  rw [tokenize, scan, State.result_run_ofText]
  exact ⟨error_of_map_eq, fun h => by rw [h]; rfl⟩

/-- **Refinement**: tokenizing with a run in progress gives the same tokens, and the same error, as
tokenizing span by span. -/
theorem tokenize_eq_spanwise (t : Tokenizer κ) (text : String) :
    t.tokenize text = t.tokenizeSpanwise text :=
  State.result_run_ofText t.index text.toList

end Tokenizer

end RuleLexer
