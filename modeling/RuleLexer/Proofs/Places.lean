import RuleLexer.Proofs.Markers
import RuleLexer.Proofs.Refinement

/-!
What holds at every place that the machine comes to holds where its tokens begin, at every depth,
and where its errors lie.

* `Token.OccursIn`: the token is one of a list of tokens, or stands inside one of them;
* `State.Move`, `State.Halt`: everything that a step of the machine can do, with one constructor for
  each way to go on and for each way to stop; `State.Steps` are steps one after another;
* `MatchIndex.Keeps`: a property of places that no move of the machine loses;
* `State.Placed.move`, `State.Placed.steps`: the machine, its tokens and its open sections keep to
  places with the property;
* `Tokenizer.beginsAt_of_tokenize`, `Tokenizer.stop_of_unterminated`,
  `Tokenizer.halt_of_unexpected`: so do the tokens of a text and the errors that stop tokenizing;
* `Tokenizer.exists_steps_of_tokenize`: tokens begin where the machine stands after some steps.
-/

namespace RuleLexer

variable {κ : Type}

/-! ### Tokens at every depth -/

/-- The token is one of the list, or stands at some depth inside one of the list. -/
inductive Token.OccursIn (t : Token κ) : List (Token κ) → Prop
  | here {ts : List (Token κ)} (h : t ∈ ts) : t.OccursIn ts
  | inside {s : Token κ} {ts : List (Token κ)} (hs : s ∈ ts) (h : t.OccursIn s.nested) :
      t.OccursIn ts

namespace Token

variable {t s : Token κ} {ts us : List (Token κ)}

lemma not_occursIn_nil : ¬ t.OccursIn [] := by
  rintro (h | ⟨hs, -⟩)
  · exact List.not_mem_nil h
  · exact List.not_mem_nil hs

lemma OccursIn.mono (h : t.OccursIn ts) (hsub : ts ⊆ us) : t.OccursIn us := by
  cases h with
  | here h => exact .here (hsub h)
  | inside hs h => exact .inside (hsub hs) h

lemma occursIn_cons : t.OccursIn (s :: ts) ↔ t = s ∨ t.OccursIn s.nested ∨ t.OccursIn ts := by
  constructor
  · intro h
    cases h with
    | here h =>
        rcases List.mem_cons.mp h with rfl | h
        · exact .inl rfl
        · exact .inr (.inr (.here h))
    | inside hs h =>
        rcases List.mem_cons.mp hs with rfl | hs
        · exact .inr (.inl h)
        · exact .inr (.inr (.inside hs h))
  · rintro (rfl | h | h)
    · exact .here List.mem_cons_self
    · exact .inside List.mem_cons_self h
    · exact h.mono (List.subset_cons_self s ts)

lemma occursIn_append : t.OccursIn (ts ++ us) ↔ t.OccursIn ts ∨ t.OccursIn us := by
  induction ts with
  | nil => simp [not_occursIn_nil]
  | cons s ts ih => rw [List.cons_append, occursIn_cons, ih, occursIn_cons, or_assoc, or_assoc]

lemma occursIn_reverse : t.OccursIn ts.reverse ↔ t.OccursIn ts :=
  ⟨fun h => h.mono fun _ hs => List.mem_reverse.mp hs,
    fun h => h.mono fun _ hs => List.mem_reverse.mpr hs⟩

end Token

/-! ### The moves of the machine -/

namespace State

/-- The machine goes on from `s`. -/
inductive Move (ix : MatchIndex κ) (s : State κ) : State κ → Prop
  /-- The innermost section is closed. -/
  | close {o : OpenSection κ} {outer : List (OpenSection κ)} {m : Marker}
      (hopened : s.opened = o :: outer) (hm : Marker.firstAt? o.closings s.cursor.rest = some m) :
      s.Move ix { s with
        cursor := s.cursor.past m
        level := o.close s.level s.cursor (s.cursor.past m)
        opened := outer }
  /-- A character is added to a run. -/
  | char {c : Char} {after : List Char} {r : CharRun κ} (hrest : s.cursor.rest = c :: after)
      (hr : ix.runFor? c = some r) :
      s.Move ix { s with cursor := s.cursor.advance 1, level := s.level.extend r s.cursor }
  /-- A literal is matched. -/
  | literal {m : FixedMatch κ} (hm : ix.fixedAt? s.cursor.rest = some m)
      (hi : m.text.inside = .nothing) :
      s.Move ix { s with
        cursor := m.stop s.cursor
        level := (s.level.flush s.cursor).emit m.text.discard (m.literalAt s.cursor) }
  /-- A section is matched that is taken as it stands. -/
  | raw {m : FixedMatch κ} {ends : List Marker} {r : Captured}
      (hm : ix.fixedAt? s.cursor.rest = some m) (hi : m.text.inside = .raw ends)
      (hr : ix.capture ends (m.stop s.cursor) = .ok r) :
      s.Move ix { s with
        cursor := r.stop
        level := (s.level.flush s.cursor).emit m.text.discard (m.rawAt s.cursor r) }
  /-- A nested section is opened. -/
  | nested {m : FixedMatch κ} {ends : List Marker} (hm : ix.fixedAt? s.cursor.rest = some m)
      (hi : m.text.inside = .nested ends) :
      s.Move ix {
        cursor := m.stop s.cursor
        level := {}
        opened := ⟨m.text.kind, m.text.discard, ends, s.cursor, m.stop s.cursor,
          s.level.flush s.cursor⟩ :: s.opened
        entered := s.cursor.position :: s.entered }

/-- The machine stops at `s`. -/
inductive Halt (ix : MatchIndex κ) (s : State κ) : Except ScanError (TokenList κ) → Prop
  /-- The text is over, and no section is open. -/
  | done (hrest : s.cursor.rest = []) (hopened : s.opened = []) :
      s.Halt ix (.ok (s.level.tokensUpTo s.cursor))
  /-- The text is over in a nested section. -/
  | opened {o : OpenSection κ} {outer : List (OpenSection κ)} (hrest : s.cursor.rest = [])
      (hopened : s.opened = o :: outer) :
      s.Halt ix (.error (.unterminatedSection o.start.position s.cursor.position))
  /-- The text is over in a section that is taken as it stands. -/
  | raw {m : FixedMatch κ} {ends : List Marker} {stop : Position}
      (hm : ix.fixedAt? s.cursor.rest = some m) (hi : m.text.inside = .raw ends)
      (hr : ix.capture ends (m.stop s.cursor) = .error stop) :
      s.Halt ix (.error (.unterminatedSection s.cursor.position stop))
  /-- No rule matches. -/
  | unexpected (hne : s.cursor.rest ≠ []) :
      s.Halt ix (.error (.unexpected s.cursor.rest s.cursor.position))

/-- What a step leads to is a move or a halt. -/
def Leads (ix : MatchIndex κ) (s : State κ) : Step κ → Prop
  | .next t => s.Move ix t
  | .halt r => s.Halt ix r

variable {ix : MatchIndex κ} {s t : State κ}

lemma leads_takeFixed {m : FixedMatch κ} (hm : ix.fixedAt? s.cursor.rest = some m) :
    s.Leads ix (s.takeFixed ix m) := by
  rw [takeFixed]
  cases hi : m.text.inside with
  | nothing => exact Move.literal hm hi
  | nested ends => exact Move.nested hm hi
  | raw ends =>
      cases hr : ix.capture ends (m.stop s.cursor) with
      | error stop =>
          simp only [FixedMatch.stop] at hr
          simp only [hr]
          exact Halt.raw hm hi hr
      | ok r =>
          simp only [FixedMatch.stop] at hr
          simp only [hr]
          exact Move.raw hm hi hr

lemma leads_takeChar {c : Char} {after : List Char} (hrest : s.cursor.rest = c :: after) :
    s.Leads ix (s.takeChar ix c) := by
  rw [takeChar]
  split
  · rename_i m hfixed
    split_ifs at hfixed
    exact leads_takeFixed hfixed
  · rename_i r hfixed hr
    exact Move.char hrest hr
  · exact Halt.unexpected (by simp [hrest])

/-- **Steps**: a step is one of the moves or one of the halts. -/
theorem leads_step (ix : MatchIndex κ) (s : State κ) : s.Leads ix (s.step ix) := by
  cases hrest : s.cursor.rest with
  | nil =>
      simp only [step, hrest]
      cases hopened : s.opened with
      | nil => exact Halt.done hrest hopened
      | cons o outer => exact Halt.opened hrest hopened
  | cons c after =>
      cases hclose : s.closing? with
      | none =>
          simp only [step, hrest, hclose]
          exact leads_takeChar hrest
      | some p =>
          obtain ⟨o, outer, m⟩ := p
          simp only [step, hrest, hclose]
          obtain ⟨hopened, hm⟩ := closing?_eq_some_iff.mp hclose
          exact Move.close hopened hm

lemma move_of_step (h : s.step ix = .next t) : s.Move ix t := by
  have hleads := s.leads_step ix
  rwa [h] at hleads

lemma halt_of_step {r : Except ScanError (TokenList κ)} (h : s.step ix = .halt r) :
    s.Halt ix r := by
  have hleads := s.leads_step ix
  rwa [h] at hleads

/-- Steps of the machine one after another. -/
inductive Steps (ix : MatchIndex κ) : State κ → State κ → Prop
  | refl (s : State κ) : Steps ix s s
  | next {s t u : State κ} (h : s.step ix = .next t) (more : Steps ix t u) : Steps ix s u

lemma Steps.trans {s t u : State κ} (h : Steps ix s t) (h' : Steps ix t u) : Steps ix s u := by
  induction h with
  | refl s => exact h'
  | next hstep more ih => exact .next hstep (ih h')

/-- Of two states that the machine comes to, it comes to one from the other. -/
lemma Steps.total {s t u : State κ} (ht : Steps ix s t) (hu : Steps ix s u) :
    Steps ix t u ∨ Steps ix u t := by
  induction ht with
  | refl s => exact .inl hu
  | next hstep more ih =>
      cases hu with
      | refl s => exact .inr (.next hstep more)
      | next hstep' more' =>
          obtain rfl := Step.next.inj (hstep.symm.trans hstep')
          exact ih more'

/-- No more of the text is left after some steps. -/
lemma Steps.length_le {s t : State κ} (h : Steps ix s t) :
    t.cursor.rest.length ≤ s.cursor.rest.length := by
  induction h with
  | refl s => exact le_rfl
  | next hstep more ih => exact ih.trans (rest_length_lt_of_step hstep).le

/-- Less of the text is left after a step, so the machine comes to no place twice. -/
lemma Steps.eq_of_length_eq {s t : State κ} (h : Steps ix s t)
    (hlength : t.cursor.rest.length = s.cursor.rest.length) : t = s := by
  cases h with
  | refl s => rfl
  | next hstep more =>
      have hlt := rest_length_lt_of_step hstep
      have hle := more.length_le
      omega

/-- What every step keeps, among the states that the machine comes to, holds at all of them. -/
theorem Steps.preserves {P : State κ → Prop} {start : State κ} (hstart : P start)
    (hstep : ∀ {s t}, Steps ix start s → s.step ix = .next t → P s → P t) {u : State κ}
    (h : Steps ix start u) : P u := by
  have hfrom : ∀ {s v}, Steps ix s v → Steps ix start s → P s → P v := by
    intro s v hsv
    induction hsv with
    | refl s => exact fun _ hP => hP
    | next hnext more ih =>
        intro hs hP
        exact ih (hs.trans (.next hnext (.refl _))) (hstep hs hnext hP)
  exact hfrom h (.refl start) hstart

/-- After some steps the machine runs on to the same end. -/
lemma Steps.run_eq {s u : State κ} (h : Steps ix s u) : s.run ix = u.run ix := by
  induction h with
  | refl s => rfl
  | next hstep more ih => rw [run_of_next hstep, ih]

lemma Steps.result_eq {s u : State κ} (h : Steps ix s u) : (s.run ix).result = (u.run ix).result :=
  congrArg Outcome.result h.run_eq

/-- A run of the machine comes to a halt after some steps. -/
theorem exists_halt (ix : MatchIndex κ) (s : State κ) :
    ∃ u, Steps ix s u ∧ u.step ix = .halt (s.run ix).result := by
  fun_induction run ix s with
  | case1 s t h ih =>
      obtain ⟨u, hsteps, hhalt⟩ := ih
      exact ⟨u, .next h hsteps, hhalt⟩
  | case2 s r h => exact ⟨s, .refl s, h⟩

end State

/-! ### Properties of places -/

/-- A property of places that no move of the machine loses. -/
structure MatchIndex.Keeps (ix : MatchIndex κ) (Q : Cursor → Prop) : Prop where
  char : ∀ {c d after r}, Q c → c.rest = d :: after → ix.runFor? d = some r → Q (c.advance 1)
  fixed : ∀ {c m}, Q c → ix.fixedAt? c.rest = some m → Q (m.stop c)
  closing : ∀ {c f lead m}, f ∈ ix.fixedTextsFrom lead → Q c →
    Marker.firstAt? f.inside.closings c.rest = some m → Q (c.past m)
  piece : ∀ {c ends p}, Q c → ix.rawStep ends c.rest = .piece p → Q (c.skip p.length p.endsLine)

/-- The machine never goes back: the places that come later than some place are kept. -/
lemma MatchIndex.keeps_reaches (ix : MatchIndex κ) (origin : Cursor) :
    ix.Keeps (origin.Reaches ·) where
  char hc hrest _ := hc.trans (.advance (by simp [hrest]))
  fixed hc hm := hc.trans (.skip (length_le_of_fixedAt? hm) _)
  closing _ hc hm := hc.trans (.past hm)
  piece hc hp := hc.trans (.skip (length_le_of_rawStep hp) _)

/-- The token begins at a place with the property. -/
def Token.BeginsAt (Q : Cursor → Prop) (t : Token κ) : Prop :=
  ∃ c, Q c ∧ t.position = c.position ∧ t.span.start = .clamp c.offset

variable {ix : MatchIndex κ} {Q : Cursor → Prop}

/-- A section that is captured closes, and ends, at places with the property; where it is not
closed the text ends at such a place. -/
lemma MatchIndex.Keeps.captureFrom (hkeeps : ix.Keeps Q) {f : FixedText κ} {lead : Char}
    (hf : f ∈ ix.fixedTextsFrom lead) (decoded : List Char) {c : Cursor} (hc : Q c) :
    match ix.captureFrom f.inside.closings decoded c with
    | .ok r => Q r.stop
    | .error stop => ∃ d, Q d ∧ d.rest = [] ∧ d.position = stop := by
  fun_induction MatchIndex.captureFrom ix f.inside.closings decoded c with
  | case1 decoded c hr => exact ⟨c, hc, rest_eq_nil_of_rawStep hr, rfl⟩
  | case2 decoded c m hr => exact hkeeps.closing hf hc (firstAt?_of_rawStep hr)
  | case3 decoded c p hr ih => exact ih (hkeeps.piece hc hr)

/-- The tokens of a level, at every depth, and the run in progress begin at places with the
property. -/
structure Level.Placed (Q : Cursor → Prop) (level : Level κ) : Prop where
  emitted : ∀ t : Token κ, t.OccursIn level.emitted → t.BeginsAt Q
  pending : ∀ p, level.pending = some p → Q p.start

namespace Level

variable {level : Level κ}

lemma placed_empty : Placed Q ({} : Level κ) :=
  ⟨fun _ h => absurd h Token.not_occursIn_nil, by simp⟩

lemma Placed.emit (h : level.Placed Q) {token : Token κ} (htoken : token.BeginsAt Q)
    (hnested : ∀ t : Token κ, t.OccursIn token.nested → t.BeginsAt Q) (discard : Bool) :
    (level.emit discard token).Placed Q := by
  cases discard with
  | true => exact h
  | false =>
      refine ⟨fun t ht => ?_, h.pending⟩
      rcases Token.occursIn_cons.mp ht with rfl | ht | ht
      · exact htoken
      · exact hnested t ht
      · exact h.emitted t ht

lemma Placed.flush (h : level.Placed Q) (stop : Cursor) : (level.flush stop).Placed Q := by
  rw [Level.flush]
  split
  · exact h
  · rename_i p hp
    have hlevel : Placed Q { level with pending := none } := ⟨h.emitted, by simp⟩
    exact hlevel.emit ⟨p.start, h.pending p hp, rfl, rfl⟩
      (fun _ ht => absurd ht Token.not_occursIn_nil) _

lemma Placed.extend (h : level.Placed Q) (r : CharRun κ) {place : Cursor} (hplace : Q place) :
    (level.extend r place).Placed Q := by
  rw [Level.extend]
  split
  · exact h
  · refine ⟨(h.flush place).emitted, fun p hp => ?_⟩
    obtain rfl : _ = p := Option.some.inj hp
    exact hplace

lemma Placed.tokensUpTo (h : level.Placed Q) {stop : Cursor} {t : Token κ}
    (ht : t.OccursIn (level.tokensUpTo stop)) : t.BeginsAt Q :=
  (h.flush stop).emitted t (Token.occursIn_reverse.mp ht)

end Level

/-- The tokens of the machine, at every depth, and its open sections began at places with the
property. -/
structure State.Began (Q : Cursor → Prop) (s : State κ) : Prop where
  level : s.level.Placed Q
  opened : ∀ o ∈ s.opened, Q o.start ∧ o.outer.Placed Q

namespace State

variable {s t : State κ}

/-- What begins with a move begins at the place of the machine. -/
theorem Began.move (hs : s.Began Q) (hcursor : Q s.cursor) (h : s.Move ix t) : t.Began Q := by
  have hnothing : ∀ t : Token κ, t.OccursIn [] → t.BeginsAt Q :=
    fun _ ht => absurd ht Token.not_occursIn_nil
  cases h with
  | @close o outer m hopened hm =>
      obtain ⟨hstart, houter⟩ := hs.opened o (by simp [hopened])
      refine ⟨?_, fun o' ho' => hs.opened o' (by simp [hopened, ho'])⟩
      exact houter.emit ⟨o.start, hstart, rfl, rfl⟩ (fun _ ht => hs.level.tokensUpTo ht) _
  | char hrest hr => exact ⟨hs.level.extend _ hcursor, hs.opened⟩
  | literal hm hi =>
      exact ⟨(hs.level.flush _).emit ⟨s.cursor, hcursor, rfl, rfl⟩ hnothing _, hs.opened⟩
  | raw hm hi hr =>
      exact ⟨(hs.level.flush _).emit ⟨s.cursor, hcursor, rfl, rfl⟩ hnothing _, hs.opened⟩
  | nested hm hi =>
      refine ⟨Level.placed_empty, fun o ho => ?_⟩
      rcases List.mem_cons.mp ho with rfl | ho
      · exact ⟨hcursor, hs.level.flush _⟩
      · exact hs.opened o ho

end State

/-- The machine stands at a place with the property. Its tokens began at such places, and so did
its open sections, which are closed by markers that the index knows. -/
structure State.Placed (ix : MatchIndex κ) (Q : Cursor → Prop) (s : State κ) : Prop where
  cursor : Q s.cursor
  level : s.level.Placed Q
  opened : ∀ o ∈ s.opened, Q o.start ∧ o.outer.Placed Q ∧
    ∃ f lead, f ∈ ix.fixedTextsFrom lead ∧ f.inside.closings = o.closings

namespace State

variable {s t : State κ}

lemma placed_ofText {text : List Char} (h : Q (.ofText text)) : (ofText text).Placed ix Q :=
  ⟨h, Level.placed_empty, by simp [ofText]⟩

lemma Placed.began (hs : s.Placed ix Q) : s.Began Q :=
  ⟨hs.level, fun o ho => ⟨(hs.opened o ho).1, (hs.opened o ho).2.1⟩⟩

/-- **One move** leads from places with the property to places with it. -/
theorem Placed.move (hkeeps : ix.Keeps Q) (hs : s.Placed ix Q) (h : s.Move ix t) :
    t.Placed ix Q := by
  have hbegan := hs.began.move hs.cursor h
  have hplaced : Q t.cursor ∧
      ∀ o ∈ t.opened, ∃ f lead, f ∈ ix.fixedTextsFrom lead ∧ f.inside.closings = o.closings := by
    cases h with
    | @close o outer m hopened hm =>
        obtain ⟨-, -, f, lead, hf, hclosings⟩ := hs.opened o (by simp [hopened])
        rw [← hclosings] at hm
        exact ⟨hkeeps.closing hf hs.cursor hm,
          fun o' ho' => (hs.opened o' (by simp [hopened, ho'])).2.2⟩
    | char hrest hr =>
        exact ⟨hkeeps.char hs.cursor hrest hr, fun o ho => (hs.opened o ho).2.2⟩
    | literal hm hi => exact ⟨hkeeps.fixed hs.cursor hm, fun o ho => (hs.opened o ho).2.2⟩
    | @raw m ends r hm hi hr =>
        obtain ⟨lead, hf⟩ := MatchIndex.mem_fixedTextsFrom_of_fixedAt? hm
        have hstop := hkeeps.captureFrom hf [] (hkeeps.fixed hs.cursor hm)
        rw [hi, Inside.closings, ← MatchIndex.capture, hr] at hstop
        exact ⟨hstop, fun o ho => (hs.opened o ho).2.2⟩
    | @nested m ends hm hi =>
        obtain ⟨lead, hf⟩ := MatchIndex.mem_fixedTextsFrom_of_fixedAt? hm
        refine ⟨hkeeps.fixed hs.cursor hm, fun o ho => ?_⟩
        rcases List.mem_cons.mp ho with rfl | ho
        · exact ⟨m.text, lead, hf, by rw [hi]; rfl⟩
        · exact (hs.opened o ho).2.2
  refine ⟨hplaced.1, hbegan.level, fun o ho => ?_⟩
  obtain ⟨hstart, houter⟩ := hbegan.opened o ho
  exact ⟨hstart, houter, hplaced.2 o ho⟩

/-- **All steps** lead from places with the property to places with it. -/
theorem Placed.steps (hkeeps : ix.Keeps Q) (hs : s.Placed ix Q) (h : Steps ix s t) :
    t.Placed ix Q := by
  induction h with
  | refl s => exact hs
  | next hstep more ih => exact ih (hs.move hkeeps (move_of_step hstep))

/-- What the machine has begun, it began at places that it came to. -/
theorem Began.steps {start : State κ}
    (hstart : start.Began fun c => ∃ s, Steps ix start s ∧ s.cursor = c) (h : Steps ix start t) :
    t.Began fun c => ∃ s, Steps ix start s ∧ s.cursor = c :=
  h.preserves hstart fun hs hstep hbegan => hbegan.move ⟨_, hs, rfl⟩ (move_of_step hstep)

/-- The machine comes to places of the text. -/
lemma Steps.reaches {text : List Char} (h : Steps ix (ofText text) s) :
    (Cursor.ofText text).Reaches s.cursor :=
  ((placed_ofText (.refl _)).steps (ix.keeps_reaches _) h).cursor

/-- The machine comes to every offset of a text at most once. -/
lemma Steps.eq_of_offset_eq {text : List Char} {u : State κ} (hs : Steps ix (ofText text) s)
    (hu : Steps ix (ofText text) u) (h : s.cursor.offset = u.cursor.offset) : s = u := by
  have hslength := hs.reaches.offset_add_length_rest
  have hulength := hu.reaches.offset_add_length_rest
  rcases hs.total hu with hsu | hus
  · exact (hsu.eq_of_length_eq (by omega)).symm
  · exact hus.eq_of_length_eq (by omega)

/-- The machine does not come to the offsets between one step and the next. -/
lemma Steps.offset_le_of_step {text : List Char} {u v : State κ} (hs : Steps ix (ofText text) s)
    (hstep : s.step ix = .next u) (hv : Steps ix (ofText text) v)
    (hsv : s.cursor.offset < v.cursor.offset) : u.cursor.offset ≤ v.cursor.offset := by
  have hu : Steps ix (ofText text) u := hs.trans (.next hstep (.refl u))
  have hslength := hs.reaches.offset_add_length_rest
  have hulength := hu.reaches.offset_add_length_rest
  have hvlength := hv.reaches.offset_add_length_rest
  rcases hs.total hv with hsv' | hvs
  · cases hsv' with
    | refl => omega
    | next hstep' more =>
        obtain rfl := Step.next.inj (hstep.symm.trans hstep')
        have hle := more.length_le
        omega
  · have hle := hvs.length_le
    omega

end State

/-! ### Tokenizers -/

namespace Tokenizer

variable {t : Tokenizer κ} {text : String}

/-- The machine with which tokenizing stops. -/
lemma exists_placed_halt (hkeeps : t.index.Keeps Q) (hQ : Q (.ofText text.toList)) :
    ∃ s, State.Steps t.index (.ofText text.toList) s ∧
      s.step t.index = .halt (t.tokenize text) ∧ s.Placed t.index Q := by
  obtain ⟨s, hsteps, hhalt⟩ := State.exists_halt t.index (.ofText text.toList)
  exact ⟨s, hsteps, hhalt, (State.placed_ofText hQ).steps hkeeps hsteps⟩

/-- Every token of a text, at every depth, begins at a place with a property that the moves of the
machine keep. -/
theorem beginsAt_of_tokenize (hkeeps : t.index.Keeps Q) (hQ : Q (.ofText text.toList))
    {tokens : TokenList κ} (h : t.tokenize text = .ok tokens) {token : Token κ}
    (ht : token.OccursIn tokens) : token.BeginsAt Q := by
  obtain ⟨s, -, hstep, hplaced⟩ := exists_placed_halt hkeeps hQ
  have hhalt := State.halt_of_step hstep
  rw [h] at hhalt
  cases hhalt with
  | done hrest hopened => exact hplaced.level.tokensUpTo ht

/-- Every token of a text, at every depth, begins where the machine stands after some steps. -/
theorem exists_steps_of_tokenize {tokens : TokenList κ} (h : t.tokenize text = .ok tokens)
    {token : Token κ} (ht : token.OccursIn tokens) :
    ∃ s, State.Steps t.index (.ofText text.toList) s ∧ token.position = s.cursor.position ∧
      token.span.start = .clamp s.cursor.offset := by
  obtain ⟨u, hsteps, hstep⟩ := State.exists_halt t.index (.ofText text.toList)
  have hbegan := State.Began.steps ⟨Level.placed_empty, by simp [State.ofText]⟩ hsteps
  have hhalt := State.halt_of_step hstep
  rw [← scan, ← tokenize, h] at hhalt
  cases hhalt with
  | done hrest hopened =>
      obtain ⟨c, ⟨s, hs, rfl⟩, hposition, hspan⟩ := hbegan.level.tokensUpTo ht
      exact ⟨s, hs, hposition, hspan⟩

/-- Where a section is not terminated, the text ends at such a place. -/
theorem stop_of_unterminated (hkeeps : t.index.Keeps Q) (hQ : Q (.ofText text.toList))
    {start stop : Position} (h : t.tokenize text = .error (.unterminatedSection start stop)) :
    ∃ c, Q c ∧ c.rest = [] ∧ c.position = stop := by
  obtain ⟨s, -, hstep, hplaced⟩ := exists_placed_halt hkeeps hQ
  have hhalt := State.halt_of_step hstep
  rw [h] at hhalt
  cases hhalt with
  | opened hrest hopened => exact ⟨s.cursor, hplaced.cursor, hrest, rfl⟩
  | @raw m ends _ hm hi hr =>
      obtain ⟨lead, hf⟩ := MatchIndex.mem_fixedTextsFrom_of_fixedAt? hm
      have hstop := hkeeps.captureFrom hf [] (hkeeps.fixed hplaced.cursor hm)
      rw [hi, Inside.closings, ← MatchIndex.capture, hr] at hstop
      exact hstop

/-- Where no rule matches, the machine has come to such a place and stops there. -/
theorem halt_of_unexpected (hkeeps : t.index.Keeps Q) (hQ : Q (.ofText text.toList))
    {character : Char} {preview : String} {position : Position}
    (h : t.tokenize text = .error (.unexpectedCharacter character preview position)) :
    ∃ s, State.Steps t.index (.ofText text.toList) s ∧
      s.step t.index = .halt (.error (.unexpectedCharacter character preview position)) ∧
      Q s.cursor ∧ .unexpectedCharacter character preview position
        = ScanError.unexpected s.cursor.rest s.cursor.position := by
  obtain ⟨s, hsteps, hstep, hplaced⟩ := exists_placed_halt hkeeps hQ
  rw [h] at hstep
  refine ⟨s, hsteps, hstep, hplaced.cursor, ?_⟩
  have hhalt := State.halt_of_step hstep
  generalize hresult : Except.error (ScanError.unexpectedCharacter character preview position)
    = result at hhalt
  cases hhalt with
  | done hrest hopened => cases hresult
  | opened hrest hopened => cases hresult
  | raw hm hi hr => cases hresult
  | unexpected hne => exact Except.error.inj hresult

end Tokenizer

end RuleLexer
