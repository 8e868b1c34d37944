import RuleLexer.Proofs.Search

/-!
A section whose inside is taken as it stands, at the moment when it is opened.

* `State.Takes`: the machine takes a fixed text at a place, as no closing marker and no run goes
  before it; `State.Takes.cursor_eq` and `State.step_of_not_takes` say where it goes on;
* `OpensRaw`: tokenizing a text has come to the opening marker of such a section and takes it;
* `Token.rawSection`, `State.ClosesAt`: the token of the section, cut out of the text by offsets,
  and the step that makes it;
* `MatchIndex.captureFrom_keeps`: what every piece of the inside keeps holds where capturing ends;
* `OpensRaw.closesAt`, `OpensRaw.unterminated`: where capturing the inside ends the section closes,
  and where it fails so does tokenizing;
* `MatchIndex.CapturesFirst`: capturing ends at the first offset with some property;
  `OpensRaw.capturesFirst` proves it piece by piece, and `OpensRaw.closes_of_capturesFirst` says what
  it means for the section.
-/

namespace RuleLexer

variable {κ : Type}

/-! ### Opening a section -/

/-- The machine takes the fixed text: neither closes the innermost section here nor does the run in
progress go on. -/
structure State.Takes (ix : MatchIndex κ) (s : State κ) (m : FixedMatch κ) : Prop where
  fixedAt?_eq : ix.fixedAt? s.cursor.rest = some m
  not_closes : s.closing? = none
  not_continues : ∀ c r, s.cursor.rest.head? = some c → ix.runFor? c = some r →
    s.level.continues r = false

lemma State.Takes.step_eq {ix : MatchIndex κ} {s : State κ} {m : FixedMatch κ}
    (h : s.Takes ix m) : s.step ix = s.takeFixed ix m := by
  cases hrest : s.cursor.rest with
  | nil =>
      have hfound := h.fixedAt?_eq
      rw [hrest] at hfound
      cases hfound
  | cons c after =>
      have hchar := takeChar_of_not_continues fun r => h.not_continues c r (by simp [hrest])
      rw [h.fixedAt?_eq] at hchar
      simp only [step, hrest, h.not_closes, hchar]

/-- A fixed text that stands where neither the innermost section closes nor the run in progress goes
on is taken. -/
lemma State.takes_of_rest {ix : MatchIndex κ} {s : State κ} {m : FixedMatch κ} {c : Char}
    {after : List Char} (hrest : s.cursor.rest = c :: after)
    (hm : ix.fixedAt? s.cursor.rest = some m) (hclose : s.closing? = none)
    (hends : ∀ r, ix.runFor? c = some r → s.level.continues r = false) : s.Takes ix m := by
  refine ⟨hm, hclose, fun d r hd hr => hends r ?_⟩
  rw [hrest] at hd
  obtain rfl := Option.some.inj hd
  exact hr

/-- Where no fixed text is taken, the innermost section closes or a run takes a character. -/
lemma State.step_of_not_takes {ix : MatchIndex κ} {s u : State κ} (hnot : ∀ m, ¬ s.Takes ix m)
    (hstep : s.step ix = .next u) :
    (∃ o ∈ s.opened, ∃ m, Marker.firstAt? o.closings s.cursor.rest = some m ∧
      u.cursor = s.cursor.past m) ∨
    ∃ c after r, s.cursor.rest = c :: after ∧ ix.runFor? c = some r ∧
      u.cursor = s.cursor.advance 1 := by
  cases hrest : s.cursor.rest with
  | nil => simp [step, hrest] at hstep
  | cons c after =>
      cases hclose : s.closing? with
      | some p =>
          obtain ⟨o, outer, m⟩ := p
          obtain ⟨hopened, hm⟩ := closing?_eq_some_iff.mp hclose
          simp only [step, hrest, hclose] at hstep
          obtain rfl := Step.next.inj hstep
          exact .inl ⟨o, by simp [hopened], m, hrest ▸ hm, rfl⟩
      | none =>
          by_cases hends : ∀ r, ix.runFor? c = some r → s.level.continues r = false
          · simp only [step, hrest, hclose, takeChar_of_not_continues hends] at hstep
            split at hstep
            · rename_i m hm
              exact absurd (takes_of_rest hrest (hrest ▸ hm) hclose hends) (hnot m)
            · rename_i r hm hr
              obtain rfl := Step.next.inj hstep
              exact .inr ⟨c, after, r, rfl, hr, rfl⟩
            · cases hstep
          · push Not at hends
            obtain ⟨r, hr, hcont⟩ := hends
            rw [step_of_continues hrest (closing?_eq_none_iff.mp hclose) hr (by simpa using hcont)]
              at hstep
            obtain rfl := Step.next.inj hstep
            exact .inr ⟨c, after, r, rfl, hr, rfl⟩

/-- Behind a fixed text that is taken the machine goes on, or behind the section that it opens. -/
lemma State.Takes.cursor_eq {ix : MatchIndex κ} {s u : State κ} {m : FixedMatch κ}
    (h : s.Takes ix m) (hstep : s.step ix = .next u) :
    u.cursor = m.stop s.cursor ∨ ∃ ends r, m.text.inside = .raw ends ∧
      ix.capture ends (m.stop s.cursor) = .ok r ∧ u.cursor = r.stop := by
  rw [h.step_eq, takeFixed] at hstep
  split at hstep
  · obtain rfl := Step.next.inj hstep
    exact .inl rfl
  · obtain rfl := Step.next.inj hstep
    exact .inl rfl
  · rename_i ends hi
    split at hstep
    · cases hstep
    · rename_i r hr
      obtain rfl := Step.next.inj hstep
      exact .inr ⟨ends, r, hi, hr, rfl⟩

/-- Tokenizing the text has come to the state `s` and there opens, by the match `m`, the section of
the rule. Its inside is taken as it stands. -/
structure OpensRaw (t : Tokenizer κ) (text : String) (s : State κ) (m : FixedMatch κ)
    (closings : List String) : Prop where
  steps : State.Steps t.index (.ofText text.toList) s
  takes : s.Takes t.index m
  exists_rule : ∃ opening, .delimited m.text.kind opening closings false m.text.discard ∈ t.rules ∧
    (Rule.delimited m.text.kind opening closings false m.text.discard).pattern
      = .ok (.fixed m.text)

/-- Whether the text begins with the opening marker of the rule, and the match covers `length`
characters. -/
def startsWith [DecidableEq κ] (rules : List (Rule κ)) (text : String) (rule : Rule κ)
    (length : ℕ) : Bool :=
  (Tokenizer.ofRules rules).toOption.any fun t => (t.index.fixedAt? text.toList).any fun m =>
    decide (m.length = length ∧ rule.fixed? = some m.text)

/-- A section whose opening marker the text begins with is opened at once. -/
lemma OpensRaw.exists_of_startsWith [DecidableEq κ] {rules : List (Rule κ)} {text : String}
    {kind : κ} {opening : String} {closings : List String} {discard : Bool} {length : ℕ}
    (hrule : .delimited kind opening closings false discard ∈ rules)
    (h : startsWith rules text (.delimited kind opening closings false discard) length = true) :
    ∃ t m, Tokenizer.ofRules rules = .ok t ∧
      OpensRaw t text (.ofText text.toList) m closings ∧ m.length = length := by
  obtain ⟨t, ht, h⟩ := (Option.any_eq_true _ _).mp h
  obtain ⟨m, hm, h⟩ := (Option.any_eq_true _ _).mp h
  obtain ⟨hlength, hfixed⟩ := of_decide_eq_true h
  have ht := toOption_eq_some_iff.mp ht
  have hpattern := Rule.fixed?_eq_some_iff.mp hfixed
  obtain ⟨marker, markers, -, -, heq⟩ := Rule.eq_of_pattern_delimited hpattern
  have htext := Pattern.fixed.inj heq
  have hkind : m.text.kind = kind := by rw [htext]
  have hdiscard : m.text.discard = discard := by rw [htext]
  refine ⟨t, m, ht, ⟨.refl _, ⟨hm, rfl, fun _ _ _ _ => rfl⟩, opening, ?_, ?_⟩, hlength⟩
  · rwa [Tokenizer.eq_of_ofRules ht, hkind, hdiscard]
  · rwa [hkind, hdiscard]

/-- The offset at which the inside of the section begins. -/
def State.insideOf (s : State κ) (m : FixedMatch κ) : ℕ :=
  s.cursor.offset + m.length

/-! ### Closing it -/

/-- The token of a section of the text whose inside is taken as it stands: the section begins at
offset `start`, its inside at `inside`, and the closing marker `ending` stands at `closing`. -/
def Token.rawSection (kind : κ) (text : List Char) (position : Position) (start inside closing : ℕ)
    (ending : String) (content : List Char) : Token κ where
  kind := kind
  text := String.ofList (text.extract start inside ++ text.extract inside closing) ++ ending
  nested := []
  delimiters := some ⟨String.ofList (text.extract start inside), ending,
    some (String.ofList content)⟩
  position := position
  span := .between start (closing + ending.length)

/-- The step at `s` takes the whole section that `m` opens: its closing marker `ending` stands at
offset `closing`, the machine goes on behind it, and the token is added to the level, unless the
rule discards. -/
def State.ClosesAt (ix : MatchIndex κ) (text : List Char) (s : State κ) (m : FixedMatch κ)
    (closing : ℕ) (ending : String) (content : List Char) : Prop :=
  ∃ stop : Cursor, stop.offset = closing + ending.length ∧ stop.rest = text.drop stop.offset ∧
    s.step ix = .next { s with
      cursor := stop
      level := (s.level.flush s.cursor).emit m.text.discard
        (.rawSection m.text.kind text s.cursor.position s.cursor.offset (s.insideOf m) closing
          ending content) }

/-- What every piece of the inside keeps holds where the section closes, and where the text ends
if it does not close. -/
theorem MatchIndex.captureFrom_keeps {ix : MatchIndex κ} {closings : List Marker}
    (P : Cursor → List Char → Prop)
    (hpiece : ∀ c decoded p, P c decoded → ix.rawStep closings c.rest = .piece p →
      P (c.skip p.length p.endsLine) (p.content.reverse ++ decoded))
    {decoded : List Char} {c : Cursor} (h : P c decoded) :
    match ix.captureFrom closings decoded c with
    | .ok r => P r.closing r.content.reverse ∧ ∃ m,
        ix.rawStep closings r.closing.rest = .closes m
    | .error _ => ∃ d decoded', P d decoded' ∧ d.rest = [] := by
  fun_induction MatchIndex.captureFrom ix closings decoded c with
  | case1 decoded c hr => exact ⟨c, decoded, h, rest_eq_nil_of_rawStep hr⟩
  | case2 decoded c m hr => exact ⟨by rwa [List.reverse_reverse], m, hr⟩
  | case3 decoded c p hr ih => exact ih (hpiece c decoded p h hr)

/-- Capturing the inside ends at the first offset with the property `P`, and what the inside up to
there stands for is given by `content`. When there is no such offset capturing fails. -/
def MatchIndex.CapturesFirst (ix : MatchIndex κ) (closings : List Marker) (c : Cursor)
    (P : ℕ → Prop) (content : ℕ → List Char) : Prop :=
  match ix.capture closings c with
  | .ok r => IsLeast {q | P q} r.closing.offset ∧ r.content = content r.closing.offset
  | .error _ => ∀ q, ¬ P q

namespace OpensRaw

variable {t : Tokenizer κ} {text : String} {s : State κ} {m : FixedMatch κ} {closings : List String}

lemma reaches (h : OpensRaw t text s m closings) : (Cursor.ofText text.toList).Reaches s.cursor :=
  h.steps.reaches

/-- The inside begins within the text. -/
lemma reaches_inside (h : OpensRaw t text s m closings) :
    (Cursor.ofText text.toList).Reaches (m.stop s.cursor) :=
  h.reaches.trans (FixedMatch.reaches_stop_of_fixedAt? h.takes.fixedAt?_eq)

lemma offset_inside (s : State κ) (m : FixedMatch κ) :
    (m.stop s.cursor).offset = s.insideOf m :=
  Cursor.offset_skip ..

lemma inside_eq (h : OpensRaw t text s m closings) :
    m.text.inside = .raw m.text.inside.closings := by
  obtain ⟨opening, -, hpattern⟩ := h.exists_rule
  obtain ⟨marker, markers, -, -, heq⟩ := Rule.eq_of_pattern_delimited hpattern
  rw [Pattern.fixed.inj heq]
  rfl

lemma ne_nil_of_mem (h : OpensRaw t text s m closings) {e : String} (he : e ∈ closings) :
    e.toList ≠ [] := by
  obtain ⟨opening, -, hpattern⟩ := h.exists_rule
  obtain ⟨marker, markers, -, hclosings, -⟩ := Rule.eq_of_pattern_delimited hpattern
  obtain ⟨closing, -, hchars⟩ := (Marker.spell_of_map_eq hclosings e).mp he
  rw [← hchars]
  exact List.cons_ne_nil _ _

/-- No closing marker stands at the end of the text. -/
lemma lt_length_of_standsAt (h : OpensRaw t text s m closings) {e : String} (he : e ∈ closings)
    {q : ℕ} (hstands : StandsAt text.toList q e) : q < text.toList.length := by
  by_contra hle
  rw [StandsAt, List.drop_eq_nil_iff.mpr (by omega)] at hstands
  exact h.ne_nil_of_mem he (List.prefix_nil.mp hstands)

/-- The longest of the closing markers is looked for. -/
lemma answersLongest (h : OpensRaw t text s m closings) (i : ℕ) :
    AnswersLongest (Marker.firstAt? m.text.inside.closings (text.toList.drop i)) closings
      text.toList i := by
  obtain ⟨opening, -, hpattern⟩ := h.exists_rule
  exact Tokenizer.answersLongest_closings hpattern text.toList i

/-- **Closing**: where capturing the inside ends, the longest closing marker stands, and the step
takes the section up to there. -/
theorem closesAt (h : OpensRaw t text s m closings) {r : Captured}
    (hr : t.index.capture m.text.inside.closings (m.stop s.cursor) = .ok r) :
    ∃ ending, LongestAt closings text.toList r.closing.offset ending ∧
      s.ClosesAt t.index text.toList m r.closing.offset ending r.content := by
  obtain ⟨hclosing, marker, hmarker, hstop⟩ := MatchIndex.captureFrom_reaches hr
  have hreach := h.reaches_inside.trans hclosing
  have hreachStop : (Cursor.ofText text.toList).Reaches r.stop :=
    hreach.trans (hstop ▸ .past hmarker)
  have hupTo : r.closing.upTo r.stop = marker.chars := by rw [hstop, Cursor.upTo_past hmarker]
  refine ⟨String.ofList marker.chars, ?_, r.stop, ?_, ?_, ?_⟩
  · rw [hreach.rest_eq_drop] at hmarker
    exact ((h.answersLongest r.closing.offset).eq_some_iff marker).mp hmarker
  · rw [hstop, Cursor.offset_past, Marker.length_ofList_chars]
  · exact hreachStop.rest_eq_drop
  · have hopening : s.cursor.upTo (m.stop s.cursor)
        = text.toList.extract s.cursor.offset (s.insideOf m) := by
      rw [← h.reaches.slice_eq_upTo, offset_inside]
    have hinside : (m.stop s.cursor).upTo r.closing
        = text.toList.extract (s.insideOf m) r.closing.offset := by
      rw [← h.reaches_inside.slice_eq_upTo, offset_inside]
    have htoken : m.rawAt s.cursor r = .rawSection m.text.kind text.toList s.cursor.position
        s.cursor.offset (s.insideOf m) r.closing.offset (String.ofList marker.chars) r.content := by
      rw [FixedMatch.rawAt, Token.section, hopening, hupTo, Option.isSome_some, if_pos rfl, hinside]
      simp only [Token.rawSection, Token.between, String.ofList_append, hstop, Cursor.offset_past,
        Marker.length_ofList_chars, Option.map_some]
    rw [h.takes.step_eq, State.takeFixed, h.inside_eq, ← htoken]
    simp only [FixedMatch.stop] at hr
    simp only [hr]
    rfl

/-- **Failing**: where capturing the inside fails, so does tokenizing the text, and the error says
where the section begins. -/
theorem unterminated (h : OpensRaw t text s m closings) {stop : Position}
    (hr : t.index.capture m.text.inside.closings (m.stop s.cursor) = .error stop) :
    t.tokenize text = .error (.unterminatedSection s.cursor.position stop) := by
  have hstep : s.step t.index = .halt (.error (.unterminatedSection s.cursor.position stop)) := by
    rw [h.takes.step_eq, State.takeFixed, h.inside_eq]
    simp only [FixedMatch.stop] at hr
    simp only [hr]
  rw [Tokenizer.tokenize, Tokenizer.scan, h.steps.result_eq, State.run_of_halt hstep]

/-- **Capturing, piece by piece**: when every piece keeps that the property held at no offset so far,
and it holds where capturing ends, then capturing ends at the first offset with the property. -/
theorem capturesFirst (h : OpensRaw t text s m closings) {ix : MatchIndex κ} {P : ℕ → Prop}
    {content : ℕ → List Char} (kept : Cursor → List Char → Prop)
    (hstart : kept (m.stop s.cursor) [])
    (hpiece : ∀ c decoded p, kept c decoded →
      ix.rawStep m.text.inside.closings c.rest = .piece p →
        kept (c.skip p.length p.endsLine) (p.content.reverse ++ decoded))
    (hkept : ∀ c decoded, kept c decoded → c.rest = text.toList.drop c.offset ∧
      (∀ q < c.offset, ¬ P q) ∧ decoded.reverse = content c.offset)
    (hcloses : ∀ c decoded marker, kept c decoded →
      ix.rawStep m.text.inside.closings c.rest = .closes marker → P c.offset)
    (hstands : ∀ q, P q → ∃ e ∈ closings, StandsAt text.toList q e) :
    ix.CapturesFirst m.text.inside.closings (m.stop s.cursor) P content := by
  have hkeeps := MatchIndex.captureFrom_keeps kept hpiece hstart
  rw [← MatchIndex.capture] at hkeeps
  rw [MatchIndex.CapturesFirst]
  cases hr : ix.capture m.text.inside.closings (m.stop s.cursor) with
  | ok r =>
      rw [hr] at hkeeps
      obtain ⟨hclosing, marker, hstep⟩ := hkeeps
      obtain ⟨-, hnot, hcontent⟩ := hkept _ _ hclosing
      rw [List.reverse_reverse] at hcontent
      refine ⟨⟨hcloses _ _ marker hclosing hstep, fun q hq => ?_⟩, hcontent⟩
      by_contra hlt
      exact hnot q (by omega) hq
  | error stop =>
      rw [hr] at hkeeps
      obtain ⟨d, decoded, hd, hnil⟩ := hkeeps
      obtain ⟨hrest, hnot, -⟩ := hkept _ _ hd
      have hlength : text.toList.length ≤ d.offset := List.drop_eq_nil_iff.mp (hrest ▸ hnil)
      intro q hq
      obtain ⟨e, he, hstands⟩ := hstands q hq
      have hlt := h.lt_length_of_standsAt he hstands
      exact hnot q (by omega) hq

/-- **Closing at the first offset**: when capturing the inside ends at the first offset with a
property, the section closes there, and when there is no such offset it is unterminated. -/
theorem closes_of_capturesFirst (h : OpensRaw t text s m closings) {P : ℕ → Prop}
    {content : ℕ → List Char}
    (hfirst : t.index.CapturesFirst m.text.inside.closings (m.stop s.cursor) P content) :
    (∀ q, IsLeast {q | P q} q → ∃ e, LongestAt closings text.toList q e ∧
      s.ClosesAt t.index text.toList m q e (content q)) ∧
    ((∀ q, ¬ P q) →
      ∃ stop, t.tokenize text = .error (.unterminatedSection s.cursor.position stop)) := by
  rw [MatchIndex.CapturesFirst] at hfirst
  cases hr : t.index.capture m.text.inside.closings (m.stop s.cursor) with
  | ok r =>
      rw [hr] at hfirst
      obtain ⟨hleast, hcontent⟩ := hfirst
      refine ⟨fun q hq => ?_, fun hnone => absurd hleast.1 (hnone _)⟩
      obtain rfl := hleast.unique hq
      exact hcontent ▸ h.closesAt hr
  | error stop =>
      rw [hr] at hfirst
      exact ⟨fun q hq => absurd hq.1 (hfirst q), fun _ => ⟨stop, h.unterminated hr⟩⟩

end OpensRaw

end RuleLexer
