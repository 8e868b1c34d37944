import RuleLexer.Proofs.Checked

/-!
The checked scanner moves forward. Nothing here is said of runs that stop with a fault: what they
would go on with does not matter.

* `Scanner.Advances`: every turn that is followed by another one moves forward, but not beyond the
  text; `Scanner.advances_captureTurn` and `Scanner.advances_turn` say so of the two loops;
* `Scanner.Forward`, `Scanner.forward_scan`: a level ends at a later place than it begins, or at the
  same;
* `Scanner.AgreeBeyond`, `Scanner.scanLevel_congr`: a level asks for the levels inside only at later
  places than its own.
-/

namespace RuleLexer

namespace Scanner

variable {κ : Type} {s : Scanner κ} {p q : Place} {n : ℕ}

/-! ### Places -/

@[simp] lemma Place.offset_skip (p : Place) (n : ℕ) (b : Bool) :
    (p.skip n b).offset = p.offset + n := by
  cases b <;> rfl

@[simp] lemma Place.offset_advance (p : Place) (n : ℕ) : (p.advance n).offset = p.offset + n := rfl

@[simp] lemma Place.offset_advanceLine (p : Place) (n : ℕ) :
    (p.advanceLine n).offset = p.offset + n := rfl

/-! ### Checked operations -/

lemma slice_eq_ok_iff {chars w : List Char} {start stop : ℕ} :
    slice chars start stop = .ok w ↔
      start ≤ stop ∧ stop ≤ chars.length ∧ (chars.drop start).take (stop - start) = w := by
  rw [slice]
  split_ifs with h
  · simp [h]
  · simp only [false_iff]
    exact fun hw => h ⟨hw.1, hw.2.1⟩

/-- A marker that was found lies within the text. -/
lemma add_le_of_matchAnyAt {offset : ℕ} {markers : List (List Char)}
    (h : s.matchAnyAt offset markers = some n) :
    offset + n ≤ s.text.length ∧ ∃ m ∈ markers, m.length = n := by
  obtain ⟨m, hm, rfl⟩ := Option.map_eq_some_iff.mp h
  have hmatch := List.find?_some hm
  simp only [matchesAt, Bool.and_eq_true, decide_eq_true_eq] at hmatch
  exact ⟨hmatch.1, m, List.mem_of_find?_eq_some hm, rfl⟩

/-- A closing marker lies within the text. -/
lemma offset_of_pastMarker (h : s.pastMarker p n = .ok q) :
    q.offset = p.offset + n ∧ q.offset ≤ s.text.length := by
  obtain ⟨marker, hslice, hq⟩ := bind_eq_ok_iff.mp h
  obtain rfl := Except.ok.inj hq
  obtain ⟨-, hle, -⟩ := slice_eq_ok_iff.mp hslice
  rw [Place.offset_skip]
  exact ⟨rfl, hle⟩

/-- A fixed text whose first character could be left out has a first character. -/
lemma length_pos_of_findCandidate {offset : ℕ} {l : List Candidate} {k : Candidate}
    (h : s.findCandidate offset l = .ok (some k)) : 0 < k.text.length := by
  induction l with
  | nil => cases h
  | cons k' l ih =>
      obtain ⟨tail, hslice, h⟩ := bind_eq_ok_iff.mp h
      obtain ⟨hpos, -, -⟩ := slice_eq_ok_iff.mp hslice
      split_ifs at h with hmatch
      · obtain rfl : k' = k := Option.some.inj (Except.ok.inj h)
        exact hpos
      · exact ih h

/-- A fixed text that was found covers something. -/
lemma consumed_pos_of_bestFixed {m : Found} (h : s.bestFixed p = .ok (some m)) :
    0 < m.consumed := by
  rw [bestFixed] at h
  split at h
  · cases h
  · obtain ⟨found, hfound, h⟩ := bind_eq_ok_iff.mp h
    obtain ⟨k, rfl, rfl⟩ := Option.map_eq_some_iff.mp (Except.ok.inj h)
    have hpos := length_pos_of_findCandidate hfound
    exact Nat.lt_of_lt_of_le hpos (Nat.le_add_left _ _)

/-! ### Loops -/

section Loop

variable {σ ρ : Type} {turn turn' : σ → Checked (Turn σ ρ)}

/-- What every turn keeps holds when the loop is over. -/
lemma loop_invariant {P : σ → Prop} {Q : ρ → Prop}
    (hturn : ∀ st next, P st → turn st = .ok next → next.Keeps P Q) {fuel : ℕ} {st : σ} {r : ρ}
    (hst : P st) (h : loop turn fuel st = .ok r) : Q r := by
  induction fuel generalizing st with
  | zero => cases h
  | succ fuel ih =>
      obtain ⟨next, hnext, h⟩ := bind_eq_ok_iff.mp h
      have hkeeps := hturn st next hst hnext
      cases next with
      | more st' => exact ih hkeeps h
      | done r' =>
          obtain rfl := Except.ok.inj h
          exact hkeeps

/-- Loops are the same when their turns are, in the states that they come through. -/
lemma loop_congr {P : σ → Prop} {Q : ρ → Prop}
    (hkeeps : ∀ st next, P st → turn st = .ok next → next.Keeps P Q)
    (hturn : ∀ st, P st → turn st = turn' st) (fuel : ℕ) {st : σ} (hst : P st) :
    loop turn fuel st = loop turn' fuel st := by
  induction fuel generalizing st with
  | zero => rfl
  | succ fuel ih =>
      rw [loop, loop, ← hturn st hst]
      refine bind_congr_of_ok fun next hnext => ?_
      cases next with
      | more st' => exact ih (hkeeps st _ hst hnext)
      | done r => rfl

end Loop

/-- Every turn that is followed by another one moves forward, but not beyond the text. -/
def Advances {σ ρ : Type} (s : Scanner κ) (offset : σ → ℕ) (turn : σ → Checked (Turn σ ρ)) : Prop :=
  ∀ st st', turn st = .ok (.more st') → offset st < offset st' ∧ offset st' ≤ s.text.length

/-! ### The inside of a section -/

section Capture

variable {ends : List (List Char)} {start : Position} {inside : ℕ}

/-- Unless a line end has no characters, every turn through the inside of a section moves forward.
The section ends behind its closing marker. -/
lemma offset_of_captureTurn (hlineEnds : [] ∉ s.index.lineEnds) {st : Inner}
    {next : Turn Inner RawInside} (h : s.captureTurn ends start inside st = .ok next) :
    next.Keeps
      (fun st' => st.place.offset < st'.place.offset ∧ st'.place.offset ≤ s.text.length)
      (fun r => st.place.offset ≤ r.stop.offset ∧ r.stop.offset ≤ s.text.length) := by
  simp only [captureTurn] at h
  split at h
  · cases h
  · rename_i c hc
    obtain ⟨hlt, -⟩ := List.getElem?_eq_some_iff.mp hc
    split_ifs at h with hescape
    · split at h
      · obtain rfl := Except.ok.inj h
        exact ⟨Nat.lt_succ_self _, hlt⟩
      · rename_i d hd
        obtain ⟨hlt', -⟩ := List.getElem?_eq_some_iff.mp hd
        split_ifs at h with hbreak
        · obtain ⟨lineEnd, hslice, h⟩ := bind_eq_ok_iff.mp h
          obtain rfl := Except.ok.inj h
          obtain ⟨-, hle, -⟩ := slice_eq_ok_iff.mp hslice
          simp only [Turn.Keeps, Place.offset_advanceLine]
          omega
        · obtain rfl := Except.ok.inj h
          simp only [Turn.Keeps, Place.offset_advance]
          omega
    · split at h
      · obtain ⟨raw, -, h⟩ := bind_eq_ok_iff.mp h
        obtain ⟨closing, -, h⟩ := bind_eq_ok_iff.mp h
        obtain ⟨stop, hstop, h⟩ := bind_eq_ok_iff.mp h
        obtain rfl := Except.ok.inj h
        obtain ⟨heq, hle⟩ := offset_of_pastMarker hstop
        exact ⟨heq ▸ Nat.le_add_right _ _, hle⟩
      · split at h
        · rename_i n hn
          obtain ⟨lineEnd, -, h⟩ := bind_eq_ok_iff.mp h
          obtain rfl := Except.ok.inj h
          obtain ⟨hle, m, hm, rfl⟩ := add_le_of_matchAnyAt hn
          -- here the loop would stand still if there were a line end without characters
          have hne : m ≠ [] := fun hnil => hlineEnds (hnil ▸ hm)
          have hpos := List.length_pos_iff.mpr hne
          simp only [Turn.Keeps, Place.offset_advanceLine]
          omega
        · obtain rfl := Except.ok.inj h
          exact ⟨Nat.lt_succ_self _, hlt⟩

/-- **Progress through the inside of a section**. -/
theorem advances_captureTurn (hlineEnds : [] ∉ s.index.lineEnds) (ends : List (List Char))
    (start : Position) (inside : ℕ) :
    s.Advances (·.place.offset) (s.captureTurn ends start inside) :=
  fun _ _ h => offset_of_captureTurn hlineEnds h

end Capture

/-! ### Levels -/

/-- A level ends at a later place than it begins, or at the same. -/
def Forward (recur : Recur κ) : Prop :=
  ∀ ends p tokens q, recur ends p = .ok (tokens, q) → p.offset ≤ q.offset

section Level

variable {fuel : ℕ} {recur recur' : Recur κ} {m : Found}

/-- A nested section ends behind its closing marker. -/
lemma offset_of_closeNested {kind : κ} {text : List Char} {ends : List (List Char)}
    {nested : TokenList κ} {closing : Place} {token : Token κ}
    (h : s.closeNested kind p text ends nested closing = .ok (token, q)) :
    closing.offset ≤ q.offset ∧ q.offset ≤ s.text.length := by
  rw [closeNested] at h
  split at h
  · cases h
  · obtain ⟨close, -, h⟩ := bind_eq_ok_iff.mp h
    obtain ⟨stop, hstop, h⟩ := bind_eq_ok_iff.mp h
    obtain ⟨span, -, h⟩ := bind_eq_ok_iff.mp h
    obtain ⟨-, rfl⟩ := Prod.mk.inj (Except.ok.inj h)
    have hoffset := offset_of_pastMarker hstop
    omega

/-- A fixed text covers what it was found by, and lies within the text with what follows inside. -/
lemma offset_of_scanFixed (hlineEnds : [] ∉ s.index.lineEnds) (hrecur : Forward recur)
    {token : Token κ} (h : s.scanFixed fuel recur m p = .ok (token, q)) :
    p.offset + m.consumed ≤ q.offset ∧ q.offset ≤ s.text.length := by
  obtain ⟨text, hslice, h⟩ := bind_eq_ok_iff.mp h
  obtain ⟨-, hle, -⟩ := slice_eq_ok_iff.mp hslice
  obtain ⟨rule, -, h⟩ := bind_eq_ok_iff.mp h
  have hinside := p.offset_skip m.consumed m.endsLine
  cases rule with
  | run kind charClass discard => cases h
  | escape char => cases h
  | literal kind text discard =>
      obtain ⟨span, -, h⟩ := bind_eq_ok_iff.mp h
      obtain ⟨-, rfl⟩ := Prod.mk.inj (Except.ok.inj h)
      omega
  | delimited kind opening closings nested discard =>
      cases nested with
      | true =>
          obtain ⟨ends, -, h⟩ := bind_eq_ok_iff.mp h
          obtain ⟨⟨inner, closing⟩, hinner, h⟩ := bind_eq_ok_iff.mp h
          have hforward := hrecur _ _ _ _ hinner
          have hclose := offset_of_closeNested h
          omega
      | false =>
          obtain ⟨ends, -, h⟩ := bind_eq_ok_iff.mp h
          obtain ⟨inner, hinner, h⟩ := bind_eq_ok_iff.mp h
          obtain ⟨span, -, h⟩ := bind_eq_ok_iff.mp h
          obtain ⟨-, rfl⟩ := Prod.mk.inj (Except.ok.inj h)
          have hstop := loop_invariant
            (P := fun st => (p.skip m.consumed m.endsLine).offset ≤ st.place.offset)
            (Q := fun r => (p.skip m.consumed m.endsLine).offset ≤ r.stop.offset ∧
              r.stop.offset ≤ s.text.length) ?_ le_rfl hinner
          · omega
          · intro st next hst hnext
            have hoffset := offset_of_captureTurn hlineEnds hnext
            cases next with
            | more st' => exact hst.trans hoffset.1.le
            | done r => exact ⟨hst.trans hoffset.1, hoffset.2⟩

/-- Every turn over a level moves forward, when the levels inside do not lead back. A level that is
over stays where it is. -/
lemma offset_of_turn (hlineEnds : [] ∉ s.index.lineEnds) (hrecur : Forward recur)
    {ends : Option (List (List Char))} {st : Scanned κ} {next : Turn (Scanned κ) (Scanned κ)}
    (h : s.turn fuel recur ends st = .ok next) :
    next.Keeps
      (fun st' => st.place.offset < st'.place.offset ∧ st'.place.offset ≤ s.text.length)
      (· = st) := by
  rw [turn] at h
  split at h
  · obtain rfl := Except.ok.inj h
    rfl
  · rename_i c hc
    obtain ⟨hlt, -⟩ := List.getElem?_eq_some_iff.mp hc
    split_ifs at h with hends
    · obtain rfl := Except.ok.inj h
      rfl
    · obtain ⟨best, hbest, h⟩ := bind_eq_ok_iff.mp h
      split at h
      · rename_i m hm
        split_ifs at hm
        obtain ⟨st', hst', h⟩ := bind_eq_ok_iff.mp h
        obtain rfl := Except.ok.inj h
        obtain ⟨tokens, -, hst'⟩ := bind_eq_ok_iff.mp hst'
        obtain ⟨rule, -, hst'⟩ := bind_eq_ok_iff.mp hst'
        obtain ⟨⟨token, place⟩, hfixed, hst'⟩ := bind_eq_ok_iff.mp hst'
        obtain rfl := Except.ok.inj hst'
        have hpos := consumed_pos_of_bestFixed (hm ▸ hbest)
        have hoffset := offset_of_scanFixed hlineEnds hrecur hfixed
        simp only [Turn.Keeps]
        omega
      · obtain ⟨st', hst', h⟩ := bind_eq_ok_iff.mp h
        obtain rfl := Except.ok.inj h
        obtain ⟨⟨tokens, run⟩, -, hst'⟩ := bind_eq_ok_iff.mp hst'
        obtain ⟨char, -, hst'⟩ := bind_eq_ok_iff.mp hst'
        obtain rfl := Except.ok.inj hst'
        exact ⟨Nat.lt_succ_self _, hlt⟩
      · obtain ⟨rest, -, h⟩ := bind_eq_ok_iff.mp h
        cases h

/-- **Progress over a level**. -/
theorem advances_turn (hlineEnds : [] ∉ s.index.lineEnds) (hrecur : Forward recur)
    (ends : Option (List (List Char))) :
    s.Advances (·.place.offset) (s.turn fuel recur ends) :=
  fun _ _ h => offset_of_turn hlineEnds hrecur h

/-- A level never comes before its beginning. -/
lemma keeps_of_turn (hlineEnds : [] ∉ s.index.lineEnds) (hrecur : Forward recur)
    {ends : Option (List (List Char))} {st : Scanned κ} {next : Turn (Scanned κ) (Scanned κ)}
    (hle : p.offset ≤ st.place.offset) (h : s.turn fuel recur ends st = .ok next) :
    next.Keeps (p.offset ≤ ·.place.offset) (p.offset ≤ ·.place.offset) := by
  have hoffset := offset_of_turn hlineEnds hrecur h
  cases next with
  | more st' => exact hle.trans hoffset.1.le
  | done st' =>
      obtain rfl : st' = st := hoffset
      exact hle

/-- A level ends at a later place than it begins, or at the same, when the levels inside do. -/
lemma offset_of_scanLevel (hlineEnds : [] ∉ s.index.lineEnds) (hrecur : Forward recur)
    {ends : Option (List (List Char))} {tokens : TokenList κ}
    (h : s.scanLevel fuel recur ends p = .ok (tokens, q)) : p.offset ≤ q.offset := by
  obtain ⟨st, hst, h⟩ := bind_eq_ok_iff.mp h
  obtain ⟨tokens, -, h⟩ := bind_eq_ok_iff.mp h
  obtain ⟨-, rfl⟩ := Prod.mk.inj (Except.ok.inj h)
  exact loop_invariant (fun _ _ => keeps_of_turn hlineEnds hrecur) le_rfl hst

/-- A level ends at a later place than it begins, or at the same, at every depth. -/
theorem forward_scan (hlineEnds : [] ∉ s.index.lineEnds) (fuel depth : ℕ) :
    Forward fun ends p => s.scan fuel depth (some ends) p := by
  induction depth with
  | zero => exact fun ends p tokens q h => by cases h
  | succ depth ih => exact fun ends p tokens q h => offset_of_scanLevel hlineEnds ih h

/-! ### Levels inside -/

/-- The two scan the levels alike that begin beyond an offset, but within the text. -/
def AgreeBeyond (s : Scanner κ) (offset : ℕ) (recur recur' : Recur κ) : Prop :=
  ∀ ends q, offset < q.offset → q.offset ≤ s.text.length → recur ends q = recur' ends q

/-- A fixed text that covers something asks for the level inside at a later place. -/
lemma scanFixed_congr (hm : 0 < m.consumed) (h : s.AgreeBeyond p.offset recur recur') :
    s.scanFixed fuel recur m p = s.scanFixed fuel recur' m p := by
  rw [scanFixed, scanFixed]
  cases hslice : slice s.text p.offset (p.offset + m.consumed) with
  | error halt => rfl
  | ok text =>
      obtain ⟨-, hle, -⟩ := slice_eq_ok_iff.mp hslice
      have hinside := p.offset_skip m.consumed m.endsLine
      have hagree : ∀ ends, recur ends (p.skip m.consumed m.endsLine)
          = recur' ends (p.skip m.consumed m.endsLine) :=
        fun ends => h ends _ (by omega) (by omega)
      simp only [hagree]

/-- A turn over a level asks for the levels inside at later places. -/
lemma turn_congr {ends : Option (List (List Char))} {st : Scanned κ}
    (h : s.AgreeBeyond st.place.offset recur recur') :
    s.turn fuel recur ends st = s.turn fuel recur' ends st := by
  rw [turn, turn]
  split
  · rfl
  · split_ifs with hends
    · rfl
    · refine bind_congr_of_ok fun best hbest => ?_
      split
      · rename_i m hm
        split_ifs at hm
        rw [takeFixed, takeFixed, scanFixed_congr (consumed_pos_of_bestFixed (hm ▸ hbest)) h]
      · rfl
      · rfl

/-- **Levels inside** begin at later places: how a level is scanned depends only on how the levels
are scanned that begin beyond its own beginning, and within the text. -/
theorem scanLevel_congr (hlineEnds : [] ∉ s.index.lineEnds) (hrecur : Forward recur)
    (h : s.AgreeBeyond p.offset recur recur') (ends : Option (List (List Char))) :
    s.scanLevel fuel recur ends p = s.scanLevel fuel recur' ends p := by
  have hloop : loop (s.turn fuel recur ends) fuel ⟨p, [], none⟩
      = loop (s.turn fuel recur' ends) fuel ⟨p, [], none⟩ := by
    refine loop_congr (P := fun st => p.offset ≤ st.place.offset)
      (fun _ _ => keeps_of_turn hlineEnds hrecur) ?_ fuel le_rfl
    exact fun st hle => turn_congr fun ends q hlt => h ends q (hle.trans_lt hlt)
  rw [scanLevel, scanLevel, hloop]

end Level

end Scanner

end RuleLexer
