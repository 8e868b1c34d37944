import RuleLexer.Proofs.RawSection

/-!
Where a section closes whose inside is taken as it stands, when no character escapes another. The
inside is read unit by unit, and a literal that ends a line is one unit.

* `UnitAt`: the number of characters in the unit at an offset;
* `UnitStart`: the offsets at which units begin; `UnitStart.add_le` says that none begins within
  another, and `exists_unitStart` that every offset lies in one;
* `OpensRaw.terminates`: the section closes at the first offset at which a unit begins and a closing
  marker stands, which is the first at which one stands if no closing marker begins within a unit;
* `OpensRaw.terminates_not_first`: a closing marker within a unit is passed over.
-/

namespace RuleLexer

variable {κ : Type}

/-! ### Units -/

/-- The unit at an offset covers that many characters: a literal that ends a line is a unit, the
longest that stands there, and any other character is one. -/
inductive UnitAt (rules : List (Rule κ)) (text : List Char) (i : ℕ) : ℕ → Prop
  | char (hi : i < text.length) (hnone : ∀ e ∈ lineEndTexts rules, ¬ StandsAt text i e) :
      UnitAt rules text i 1
  | lineEnd {e : String} (he : LongestAt (lineEndTexts rules) text i e) :
      UnitAt rules text i e.length

/-- A unit begins at the offset when the text is read from `inside` on. -/
inductive UnitStart (rules : List (Rule κ)) (text : List Char) (inside : ℕ) : ℕ → Prop
  | inside : UnitStart rules text inside inside
  | next {i n : ℕ} (h : UnitStart rules text inside i) (hunit : UnitAt rules text i n) :
      UnitStart rules text inside (i + n)

section Units

variable {t : Tokenizer κ} {text : List Char} {inside i q n n' : ℕ}

lemma Tokenizer.ne_nil_of_mem_lineEndTexts {e : String} (he : e ∈ lineEndTexts t.rules) :
    e.toList ≠ [] := by
  obtain ⟨rule, hrule, hs⟩ := List.mem_filterMap.mp he
  obtain ⟨f, -, rfl⟩ := Rule.exists_fixed?_of_fixedText? t hrule (Rule.fixedText?_of_lineEnd? hs)
  rw [String.toList_ofList]
  exact List.cons_ne_nil _ _

lemma UnitAt.pos (h : UnitAt t.rules text i n) : 0 < n := by
  cases h with
  | char hi hnone => exact Nat.one_pos
  | lineEnd he =>
      rw [← String.length_toList]
      exact List.length_pos_iff.mpr (Tokenizer.ne_nil_of_mem_lineEndTexts he.mem)

lemma UnitAt.eq {rules : List (Rule κ)} (h : UnitAt rules text i n) (h' : UnitAt rules text i n') :
    n = n' := by
  cases h with
  | char hi hnone =>
      cases h' with
      | char hi' hnone' => rfl
      | lineEnd he' => exact absurd he'.stands (hnone _ he'.mem)
  | lineEnd he =>
      cases h' with
      | char hi' hnone' => exact absurd he.stands (hnone' _ he.mem)
      | lineEnd he' =>
          exact le_antisymm (he'.longest _ he.mem he.stands) (he.longest _ he'.mem he'.stands)

/-- There is a unit at every offset. -/
lemma Tokenizer.exists_unitAt (t : Tokenizer κ) (hi : i < text.length) :
    ∃ n, UnitAt t.rules text i n := by
  have hanswers := t.answersLongest_lineEnds text i
  cases hfound : Marker.firstAt? t.index.lineEnds (text.drop i) with
  | none => exact ⟨1, .char hi (hanswers.eq_none_iff.mp hfound)⟩
  | some m => exact ⟨_, .lineEnd ((hanswers.eq_some_iff m).mp hfound)⟩

lemma UnitStart.le {rules : List (Rule κ)} (h : UnitStart rules text inside i) : inside ≤ i := by
  induction h with
  | inside => exact le_rfl
  | next h hunit ih => omega

/-- No unit begins within another. -/
theorem UnitStart.add_le (hq : UnitStart t.rules text inside q) (hunit : UnitAt t.rules text q n)
    (hi : UnitStart t.rules text inside i) (hlt : q < i) : q + n ≤ i := by
  -- of two units that overlap the one that begins first comes earlier, so the sum goes down
  induction hsum : q + i using Nat.strong_induction_on generalizing q i n with
  | _ sum ih =>
    cases hi with
    | inside => exact absurd hq.le (by omega)
    | @next i' n' hi' hunit' =>
        have hpos := hunit'.pos
        rcases lt_trichotomy q i' with hbefore | rfl | hafter
        · have hle := ih (q + i') (by omega) hq hunit hi' hbefore rfl
          omega
        · rw [hunit.eq hunit']
        · have hle := ih (i' + q) (by omega) hi' hunit' hq hafter rfl
          omega

/-- Every offset of the inside lies in a unit. -/
theorem Tokenizer.exists_unitStart (t : Tokenizer κ) (hinside : inside ≤ q) (hq : q < text.length) :
    ∃ i n, UnitStart t.rules text inside i ∧ UnitAt t.rules text i n ∧ i ≤ q ∧ q < i + n := by
  induction q, hinside using Nat.le_induction with
  | base =>
      obtain ⟨n, hunit⟩ := t.exists_unitAt hq
      exact ⟨inside, n, .inside, hunit, le_rfl, Nat.lt_add_of_pos_right hunit.pos⟩
  | succ q hinside ih =>
      obtain ⟨i, n, hi, hunit, hle, hlt⟩ := ih (by omega)
      by_cases hwithin : q + 1 < i + n
      · exact ⟨i, n, hi, hunit, by omega, hwithin⟩
      · obtain ⟨n', hunit'⟩ := t.exists_unitAt hq
        have hnext : i + n = q + 1 := by omega
        exact ⟨q + 1, n', hnext ▸ hi.next hunit, hunit', le_rfl,
          Nat.lt_add_of_pos_right hunit'.pos⟩

/-- When no closing marker begins with a character that a literal that ends a line has behind its
first one, a unit begins wherever a closing marker stands. -/
theorem Tokenizer.unitStart_of_standsAt {closings : List String}
    (hfree : ∀ l ∈ lineEndTexts t.rules, ∀ c ∈ l.toList.tail, ∀ e ∈ closings,
      e.toList.head? ≠ some c)
    (hnonempty : ∀ e ∈ closings, e.toList ≠ []) (hinside : inside ≤ q) {e : String}
    (he : e ∈ closings) (hstands : StandsAt text q e) : UnitStart t.rules text inside q := by
  obtain ⟨c, tail, hc⟩ := List.exists_cons_of_ne_nil (hnonempty e he)
  have hcq : text[q]? = some c := by
    obtain ⟨after, hafter⟩ := hstands
    rw [hc] at hafter
    rw [← Nat.add_zero q, ← List.getElem?_drop, ← hafter]
    rfl
  obtain ⟨i, n, hi, hunit, hle, hlt⟩ :=
    t.exists_unitStart hinside (List.getElem?_eq_some_iff.mp hcq).1
  rcases hle.eq_or_lt with rfl | hbefore
  · exact hi
  · -- the character would lie in a line end, behind its first one
    cases hunit with
    | char hi' hnone => omega
    | @lineEnd l hl =>
        obtain ⟨after, hafter⟩ := hl.stands
        have hlength : q - i < l.toList.length := by
          rw [String.length_toList]
          omega
        have hget : l.toList[q - i]? = some c := by
          rw [← hcq, ← List.getElem?_append_left hlength, hafter, List.getElem?_drop]
          congr 1
          omega
        have hmem : c ∈ l.toList.tail := by
          refine List.mem_of_getElem? (i := q - i - 1) ?_
          rw [List.getElem?_tail, ← hget]
          congr 1
          omega
        exact absurd (by simp [hc]) (hfree l hl.mem c hmem e he)

end Units

/-! ### The way through the inside -/

/-- Capturing the inside has come to the place `c`, with `decoded` for what came before, last character
first: a unit begins there, no closing marker stood where an earlier one begins, and the content is
what stands in the text. -/
structure UnitsTo (rules : List (Rule κ)) (closings : List String) (text : List Char) (inside : ℕ)
    (c : Cursor) (decoded : List Char) : Prop where
  rest_eq : c.rest = text.drop c.offset
  unitStart : UnitStart rules text inside c.offset
  not_stands : ∀ q < c.offset, UnitStart rules text inside q → ∀ e ∈ closings, ¬ StandsAt text q e
  decoded_eq : decoded.reverse = text.extract inside c.offset

lemma extract_append_extract {text : List Char} {i j k : ℕ} (hij : i ≤ j) (hjk : j ≤ k) :
    text.extract i j ++ text.extract j k = text.extract i k := by
  have hj : text.drop j = (text.drop i).drop (j - i) := by
    rw [List.drop_drop]
    congr 1
    omega
  rw [List.extract_eq_take_drop, List.extract_eq_take_drop, List.extract_eq_take_drop, hj,
    ← List.take_add]
  congr 1
  omega

/-- Without escape characters every piece of the inside is a unit. -/
theorem Tokenizer.unitAt_of_rawStep {t : Tokenizer κ} (hescapes : ∀ c, .escape c ∉ t.rules)
    {markers : List Marker} {text : List Char} {i : ℕ} {p : RawPiece}
    (hp : t.index.rawStep markers (text.drop i) = .piece p) :
    UnitAt t.rules text i p.length ∧ p.content = text.extract i (i + p.length) ∧
      Marker.firstAt? markers (text.drop i) = none := by
  have hanswers := t.answersLongest_lineEnds text i
  rw [List.extract_eq_take_drop, Nat.add_sub_cancel_left]
  cases hrest : text.drop i with
  | nil =>
      rw [hrest] at hp
      cases hp
  | cons c after =>
      obtain ⟨hc, -⟩ := getElem?_of_drop_eq_cons hrest
      rw [hrest] at hp hanswers
      rw [MatchIndex.rawStep_of_not_escape _ (t.isEscape_eq_false (hescapes c))] at hp
      cases hclose : Marker.firstAt? markers (c :: after) with
      | some m =>
          rw [hclose] at hp
          cases hp
      | none =>
          cases hm : Marker.firstAt? t.index.lineEnds (c :: after) with
          | some m =>
              rw [hclose, hm] at hp
              obtain rfl := RawStep.piece.inj hp
              have hunit := UnitAt.lineEnd ((hanswers.eq_some_iff m).mp hm)
              rw [Marker.length_ofList_chars] at hunit
              have hfront := Marker.occursAt_iff.mp (Marker.occursAt_of_firstAt? hm)
              exact ⟨hunit, List.prefix_iff_eq_take.mp hfront, rfl⟩
          | none =>
              rw [hclose, hm] at hp
              obtain rfl := RawStep.piece.inj hp
              exact ⟨.char (List.getElem?_eq_some_iff.mp hc).1 (hanswers.eq_none_iff.mp hm), rfl,
                rfl⟩

namespace OpensRaw

variable {rules : List (Rule κ)} {t : Tokenizer κ} {text : String} {s : State κ} {m : FixedMatch κ}
  {closings : List String}

/-- With every piece it goes on so. -/
lemma unitsTo_piece (h : OpensRaw t text s m closings) (hescapes : ∀ c, .escape c ∉ t.rules)
    {inside : ℕ} {c : Cursor} {decoded : List Char} {p : RawPiece}
    (hunits : UnitsTo t.rules closings text.toList inside c decoded)
    (hp : t.index.rawStep m.text.inside.closings c.rest = .piece p) :
    UnitsTo t.rules closings text.toList inside (c.skip p.length p.endsLine)
      (p.content.reverse ++ decoded) := by
  obtain ⟨hrest, hstart, hnot, hdecoded⟩ := hunits
  rw [hrest] at hp
  obtain ⟨hunit, hcontent, hnone⟩ := Tokenizer.unitAt_of_rawStep hescapes hp
  refine ⟨?_, ?_, ?_, ?_⟩
  · rw [Cursor.rest_skip, Cursor.offset_skip, hrest, List.drop_drop]
  · rw [Cursor.offset_skip]
    exact hstart.next hunit
  · rw [Cursor.offset_skip]
    intro q hlt hq
    rcases lt_trichotomy q c.offset with hbefore | rfl | hafter
    · exact hnot q hbefore hq
    · exact (h.answersLongest c.offset).eq_none_iff.mp hnone
    · exact absurd (hstart.add_le hunit hq hafter) (by omega)
  · rw [Cursor.offset_skip, List.reverse_append, List.reverse_reverse, hdecoded, hcontent,
      extract_append_extract hstart.le (Nat.le_add_right ..)]

/-- The inside is captured up to the first offset at which a unit begins and a closing marker
stands. -/
theorem capture_units (h : OpensRaw t text s m closings) (hescapes : ∀ c, .escape c ∉ t.rules) :
    t.index.CapturesFirst m.text.inside.closings (m.stop s.cursor)
      (fun q => UnitStart t.rules text.toList (s.insideOf m) q ∧
        ∃ e ∈ closings, StandsAt text.toList q e)
      (fun q => text.toList.extract (s.insideOf m) q) := by
  have hstart : UnitsTo t.rules closings text.toList (s.insideOf m) (m.stop s.cursor) [] := by
    refine ⟨h.reaches_inside.rest_eq_drop, offset_inside s m ▸ .inside, ?_, ?_⟩
    · rw [offset_inside]
      exact fun q hlt hq => absurd hq.le (by omega)
    · simp [offset_inside]
  refine h.capturesFirst (UnitsTo t.rules closings text.toList (s.insideOf m)) hstart
    (fun c decoded p => h.unitsTo_piece hescapes) ?_ ?_ fun q hq => hq.2
  · rintro c decoded ⟨hrest, -, hnot, hdecoded⟩
    exact ⟨hrest, fun q hlt ⟨hq, e, he, hstands⟩ => hnot q hlt hq e he hstands, hdecoded⟩
  · rintro c decoded marker ⟨hrest, hunit, -, -⟩ hcloses
    rw [hrest] at hcloses
    have hbest := ((h.answersLongest c.offset).eq_some_iff marker).mp
      (MatchIndex.firstAt?_of_rawStep hcloses)
    exact ⟨hunit, _, hbest.mem, hbest.stands⟩

/-- **Terminators**: without escape characters the section closes at the first offset at which a
unit begins and one of its closing markers stands; the longest there is taken, and the content is the
inside as it stands. If there is no such offset the section is reported as unterminated. When no
closing marker begins within a unit, the section closes at the first offset at which one stands. -/
theorem terminates (ht : Tokenizer.ofRules rules = .ok t) (h : OpensRaw t text s m closings)
    (hescapes : ∀ c, .escape c ∉ rules) :
    (∀ q, IsLeast {q | UnitStart rules text.toList (s.insideOf m) q ∧
        ∃ e ∈ closings, StandsAt text.toList q e} q →
      ∃ e, LongestAt closings text.toList q e ∧ s.ClosesAt t.index text.toList m q e
        (text.toList.extract (s.insideOf m) q)) ∧
    ((∀ q, UnitStart rules text.toList (s.insideOf m) q →
        ∀ e ∈ closings, ¬ StandsAt text.toList q e) →
      ∃ stop, t.tokenize text = .error (.unterminatedSection s.cursor.position stop)) ∧
    ((∀ l ∈ lineEndTexts rules, ∀ c ∈ l.toList.tail, ∀ e ∈ closings, e.toList.head? ≠ some c) →
      ∀ q, IsLeast {q | s.insideOf m ≤ q ∧ ∃ e ∈ closings, StandsAt text.toList q e} q →
        ∃ e, LongestAt closings text.toList q e ∧ s.ClosesAt t.index text.toList m q e
          (text.toList.extract (s.insideOf m) q)) := by
  obtain rfl := Tokenizer.eq_of_ofRules ht
  obtain ⟨hfirst, hnone⟩ := h.closes_of_capturesFirst (h.capture_units hescapes)
  refine ⟨hfirst, fun hnot => hnone ?_, fun hfree q hq => hfirst q ?_⟩
  · rintro q ⟨hunit, e, he, hstands⟩
    exact hnot q hunit e he hstands
  · obtain ⟨⟨hinside, e, he, hstands⟩, hleast⟩ := hq
    refine ⟨⟨Tokenizer.unitStart_of_standsAt hfree (fun e he => h.ne_nil_of_mem he) hinside he
      hstands, e, he, hstands⟩, ?_⟩
    rintro q' ⟨hunit', hstands'⟩
    exact hleast ⟨hunit'.le, hstands'⟩

/-- Rules for notes up to the end of the line, where a line ends in two characters. -/
def noteRules : List (Rule String) := [
  .run "word" .letter,
  .literal "line" "\r\n",
  .delimited "note" "#" ["\n"]]

lemma not_escape_noteRules (c : Char) : .escape c ∉ noteRules := by
  simp [noteRules]

theorem terminates_note : ∃ t m, Tokenizer.ofRules noteRules = .ok t ∧
    OpensRaw t "#a\r\nb\n" (.ofText "#a\r\nb\n".toList) m ["\n"] ∧
    ∃ e, LongestAt ["\n"] "#a\r\nb\n".toList 5 e ∧
      (State.ofText "#a\r\nb\n".toList).ClosesAt t.index "#a\r\nb\n".toList m 5 e
        "a\r\nb".toList := by
  have hstarts : startsWith noteRules "#a\r\nb\n" (.delimited "note" "#" ["\n"]) 1 = true := by
    decide +kernel
  obtain ⟨t, m, ht, h, hlength⟩ := exists_of_startsWith (by decide) hstarts
  have hinside : (State.ofText "#a\r\nb\n".toList).insideOf m = 1 := by
    rw [State.insideOf, hlength]
    rfl
  have hrules := Tokenizer.eq_of_ofRules ht
  have hchar : ∀ i ∈ [1, 4], UnitAt noteRules "#a\r\nb\n".toList i 1 := by
    intro i hi
    have hall : ∀ i ∈ [1, 4], i < "#a\r\nb\n".toList.length ∧
        ∀ e ∈ lineEndTexts noteRules, ¬ StandsAt "#a\r\nb\n".toList i e := by decide +kernel
    exact .char (hall i hi).1 (hall i hi).2
  have hlongest : LongestAt (lineEndTexts noteRules) "#a\r\nb\n".toList 2 "\r\n" := by
    decide +kernel
  have hline : UnitAt noteRules "#a\r\nb\n".toList 2 2 := .lineEnd hlongest
  have hsecond : UnitStart noteRules "#a\r\nb\n".toList 1 2 := .next .inside (hchar 1 (by simp))
  have hleast : IsLeast {q | UnitStart noteRules "#a\r\nb\n".toList 1 q ∧
      ∃ e ∈ ["\n"], StandsAt "#a\r\nb\n".toList q e} 5 := by
    refine ⟨⟨.next (.next hsecond hline) (hchar 4 (by simp)), by decide +kernel⟩, ?_⟩
    rintro q ⟨hq, hstands⟩
    by_contra hlt
    have honly : ∀ q < 5, (∃ e ∈ ["\n"], StandsAt "#a\r\nb\n".toList q e) → q = 3 := by
      decide +kernel
    obtain rfl := honly q (by omega) hstands
    -- the line feed lies in the unit that begins before it
    rw [← hrules] at hsecond hline hq
    exact absurd (hsecond.add_le hline hq (by decide)) (by decide)
  obtain ⟨hcloses, -⟩ := terminates ht h not_escape_noteRules
  rw [hinside] at hcloses
  exact ⟨t, m, ht, h, hcloses 5 hleast⟩

/-- **Not the first terminator**: the line feed that the section could close at belongs to a unit, so
it is passed over, and the section is reported as unterminated. -/
theorem terminates_not_first : ∃ t m, Tokenizer.ofRules noteRules = .ok t ∧
    (∀ c, .escape c ∉ noteRules) ∧
    OpensRaw t "#a\r\n" (.ofText "#a\r\n".toList) m ["\n"] ∧
    IsLeast {q | (State.ofText "#a\r\n".toList).insideOf m ≤ q ∧
      ∃ e ∈ ["\n"], StandsAt "#a\r\n".toList q e} 3 ∧
    (¬ ∃ e content, (State.ofText "#a\r\n".toList).ClosesAt t.index "#a\r\n".toList m 3 e
      content) ∧
    t.tokenize "#a\r\n" =
      .error (.unterminatedSection ⟨.clamp 1, .clamp 1⟩ ⟨.clamp 2, .clamp 1⟩) := by
  have hstarts : startsWith noteRules "#a\r\n" (.delimited "note" "#" ["\n"]) 1 = true := by
    decide +kernel
  obtain ⟨t, m, ht, h, hlength⟩ := exists_of_startsWith (by decide) hstarts
  have hinside : (State.ofText "#a\r\n".toList).insideOf m = 1 := by
    rw [State.insideOf, hlength]
    rfl
  have herror : (Tokenizer.ofRules noteRules).toOption.any (fun t => t.tokenize "#a\r\n" =
      .error (.unterminatedSection ⟨.clamp 1, .clamp 1⟩ ⟨.clamp 2, .clamp 1⟩)) = true := by
    decide +kernel
  rw [ht] at herror
  have herror := of_decide_eq_true herror
  refine ⟨t, m, ht, not_escape_noteRules, h, ⟨?_, ?_⟩, ?_, herror⟩
  · rw [hinside]
    exact ⟨by decide, by decide +kernel⟩
  · rintro q ⟨-, hstands⟩
    by_contra hlt
    have hnone : ∀ q < 3, ¬ ∃ e ∈ ["\n"], StandsAt "#a\r\n".toList q e := by decide +kernel
    exact hnone q (by omega) hstands
  · rintro ⟨e, content, stop, -, -, hstep⟩
    have hhalts : (Tokenizer.ofRules noteRules).toOption.any (fun t =>
        match (State.ofText "#a\r\n".toList).step t.index with
        | .halt _ => true
        | .next _ => false) = true := by decide +kernel
    rw [ht] at hhalts
    simp only [Except.toOption, Option.any_some, hstep, Bool.false_eq_true] at hhalts

end OpensRaw

end RuleLexer
