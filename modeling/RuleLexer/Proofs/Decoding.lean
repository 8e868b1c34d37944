import RuleLexer.Proofs.RawSection

/-!
Where a section closes whose inside is taken as it stands, and what its content is, when its
closing markers and the escape characters keep away from the ends of lines.

* `escapedAt`: whether the character at an offset is escaped;
* `ClosableAt`: a section may close at an offset;
* `decodedSlice`: what a slice of the inside stands for;
* `Reads`: a slice of the inside in which the section cannot close, with what it stands for;
  `Tokenizer.reads_of_rawStep` says that every piece of the inside is one, however many characters
  it covers;
* `OpensRaw.decodes`: the section closes at the first offset at which it may, and its content is
  what the inside up to there stands for.
-/

namespace RuleLexer

variable {κ : Type}

/-! ### Escaped characters -/

/-- Whether the character at an offset is escaped, when the inside of the section begins at offset
`inside`: the character before it lies in the inside, is an escape character, and is not itself
escaped. -/
def escapedAt (escapes : List Char) (text : List Char) (inside : ℕ) : ℕ → Bool
  | 0 => false
  | i + 1 =>
      decide (inside ≤ i) && text[i]?.any (escapes.contains ·) && !escapedAt escapes text inside i

/-- A section with these closing markers may close at offset `q`: no escape character stands there,
nor is the character escaped, and one of the markers stands there. -/
structure ClosableAt (escapes : List Char) (closings : List String) (text : List Char)
    (inside q : ℕ) : Prop where
  le : inside ≤ q
  not_escaped : escapedAt escapes text inside q = false
  not_escape : ∀ c, text[q]? = some c → c ∉ escapes
  stands : ∃ e ∈ closings, StandsAt text q e

lemma closableAt_iff {escapes : List Char} {closings : List String} {text : List Char}
    {inside q : ℕ} : ClosableAt escapes closings text inside q ↔
      inside ≤ q ∧ escapedAt escapes text inside q = false ∧
        (text[q]?.all fun c => decide (c ∉ escapes)) = true ∧ ∃ e ∈ closings, StandsAt text q e := by
  simp only [Option.all_eq_true, decide_eq_true_eq]
  exact ⟨fun ⟨hle, hescaped, hescape, hstands⟩ => ⟨hle, hescaped, hescape, hstands⟩,
    fun ⟨hle, hescaped, hescape, hstands⟩ => ⟨hle, hescaped, hescape, hstands⟩⟩

instance (escapes : List Char) (closings : List String) (text : List Char) (inside q : ℕ) :
    Decidable (ClosableAt escapes closings text inside q) :=
  decidable_of_iff' _ closableAt_iff

/-- What the character at an offset of the inside stands for: for nothing, if it escapes the next
one, and if it is escaped for its translation. -/
def decodedAt (escapes : List Char) (text : List Char) (inside i : ℕ) : List Char :=
  match text[i]? with
  | none => []
  | some c =>
      if escapedAt escapes text inside i then [unescape c]
      else if c ∈ escapes then [] else [c]

/-- What the characters of the inside from offset `i` up to `j` stand for. -/
def decodedSlice (escapes : List Char) (text : List Char) (inside i j : ℕ) : List Char :=
  (List.range' i (j - i)).flatMap (decodedAt escapes text inside)

section Escapes

variable {escapes text : List Char} {inside i j k : ℕ} {c : Char}

/-- The first character of the inside is not escaped. -/
lemma escapedAt_inside : escapedAt escapes text inside inside = false := by
  cases inside <;> simp [escapedAt]

lemma escapedAt_succ_of_not_escape (hc : text[i]? = some c) (hescape : c ∉ escapes) :
    escapedAt escapes text inside (i + 1) = false := by
  simp [escapedAt, hc, hescape]

/-- An escaped character does not escape. -/
lemma escapedAt_succ_of_escaped (h : escapedAt escapes text inside i = true) :
    escapedAt escapes text inside (i + 1) = false := by
  simp [escapedAt, h]

lemma escapedAt_succ_of_escape (hi : inside ≤ i) (hc : text[i]? = some c) (hescape : c ∈ escapes)
    (h : escapedAt escapes text inside i = false) :
    escapedAt escapes text inside (i + 1) = true := by
  simp [escapedAt, hi, hc, hescape, h]

lemma decodedSlice_self : decodedSlice escapes text inside i i = [] := by
  simp [decodedSlice]

lemma decodedSlice_succ : decodedSlice escapes text inside i (i + 1)
    = decodedAt escapes text inside i := by
  simp [decodedSlice]

lemma decodedSlice_append (hij : i ≤ j) (hjk : j ≤ k) : decodedSlice escapes text inside i j
    ++ decodedSlice escapes text inside j k = decodedSlice escapes text inside i k := by
  have hrange : List.range' i (j - i) ++ List.range' j (k - j) = List.range' i (k - i) := by
    have hj : i + (j - i) = j := by omega
    have hk : (j - i) + (k - j) = k - i := by omega
    have happend := @List.range'_append_1 i (j - i) (k - j)
    rwa [hj, hk] at happend
  rw [decodedSlice, decodedSlice, decodedSlice, ← hrange, List.flatMap_append]

end Escapes

/-! ### Slices in which a section cannot close -/

/-- From offset `i` up to `j` the section cannot close; the slice stands for `content`, and the
character behind it is not escaped. -/
structure Reads (escapes : List Char) (closings : List String) (text : List Char) (inside i j : ℕ)
    (content : List Char) : Prop where
  le : i ≤ j
  not_closable : ∀ q, i ≤ q → q < j → ¬ ClosableAt escapes closings text inside q
  decodedSlice_eq : decodedSlice escapes text inside i j = content
  not_escaped : j < text.length → escapedAt escapes text inside j = false

namespace Reads

variable {escapes : List Char} {closings : List String} {text : List Char} {inside i j k : ℕ}
  {c next : Char} {content content' : List Char}

lemma nil (hescaped : escapedAt escapes text inside i = false) :
    Reads escapes closings text inside i i [] :=
  ⟨le_rfl, fun q hi hlt => absurd hi (by omega), decodedSlice_self, fun _ => hescaped⟩

lemma trans (h : Reads escapes closings text inside i j content)
    (h' : Reads escapes closings text inside j k content') :
    Reads escapes closings text inside i k (content ++ content') := by
  refine ⟨h.le.trans h'.le, fun q hi hk => ?_, ?_, h'.not_escaped⟩
  · by_cases hj : q < j
    · exact h.not_closable q hi hj
    · exact h'.not_closable q (by omega) hk
  · rw [← decodedSlice_append h.le h'.le, h.decodedSlice_eq, h'.decodedSlice_eq]

/-- One character. -/
lemma single (hclosable : ¬ ClosableAt escapes closings text inside i)
    (hcontent : decodedAt escapes text inside i = content)
    (hescaped : i + 1 < text.length → escapedAt escapes text inside (i + 1) = false) :
    Reads escapes closings text inside i (i + 1) content :=
  ⟨Nat.le_succ i, fun q hi hq => by rwa [show q = i by omega], by rw [decodedSlice_succ, hcontent],
    hescaped⟩

/-- A character that is neither an escape character nor escaped, where no closing marker
stands. -/
lemma char (hescaped : escapedAt escapes text inside i = false) (hc : text[i]? = some c)
    (hescape : c ∉ escapes) (hnone : ∀ e ∈ closings, ¬ StandsAt text i e) :
    Reads escapes closings text inside i (i + 1) [c] := by
  refine single ?_ ?_ fun _ => escapedAt_succ_of_not_escape hc hescape
  · rintro ⟨-, -, -, e, he, hstands⟩
    exact hnone e he hstands
  · simp [decodedAt, hc, hescaped, hescape]

/-- An escape character at the end of the text. -/
lemma last (hescaped : escapedAt escapes text inside i = false) (hc : text[i]? = some c)
    (hescape : c ∈ escapes) (hlast : text[i + 1]? = none) :
    Reads escapes closings text inside i (i + 1) [] := by
  refine single (fun hclosable => hclosable.not_escape c hc hescape) ?_ ?_
  · simp [decodedAt, hc, hescaped, hescape]
  · intro hlt
    rw [List.getElem?_eq_getElem hlt] at hlast
    cases hlast

/-- An escape character and the character that it escapes. -/
lemma pair (hi : inside ≤ i) (hescaped : escapedAt escapes text inside i = false)
    (hc : text[i]? = some c) (hescape : c ∈ escapes) (hnext : text[i + 1]? = some next) :
    Reads escapes closings text inside i (i + 2) [unescape next] := by
  have hsecond := escapedAt_succ_of_escape hi hc hescape hescaped
  refine ⟨by omega, fun q hq hlt hclosable => ?_, ?_, fun _ => escapedAt_succ_of_escaped hsecond⟩
  · obtain rfl | rfl : q = i ∨ q = i + 1 := by omega
    · exact hclosable.not_escape c hc hescape
    · rw [hclosable.not_escaped] at hsecond
      cases hsecond
  · rw [← decodedSlice_append (Nat.le_succ i) (Nat.le_succ (i + 1)), decodedSlice_succ,
      decodedSlice_succ]
    simp [decodedAt, hc, hescaped, hescape, hnext, hsecond]

/-- Line breaks, where neither an escape character nor the beginning of a closing marker is a line
break. -/
lemma lineBreaks (hescapes : ∀ c ∈ escapes, isLineBreak c = false)
    (hclosings : ∀ e ∈ closings, ∀ c, e.toList.head? = some c → isLineBreak c = false)
    (hnonempty : ∀ e ∈ closings, e.toList ≠ []) {breaks : List Char}
    (hbreaks : ∀ c ∈ breaks, isLineBreak c = true) (hfront : breaks <+: text.drop i)
    (hescaped : escapedAt escapes text inside i = false) :
    Reads escapes closings text inside i (i + breaks.length) breaks := by
  induction breaks generalizing i with
  | nil => exact nil hescaped
  | cons c breaks ih =>
      have hbreak := hbreaks c List.mem_cons_self
      obtain ⟨after, hafter⟩ := hfront
      have hc : text[i]? = some c := by
        rw [← Nat.add_zero i, ← List.getElem?_drop, ← hafter]
        rfl
      have hescape : c ∉ escapes := by
        intro hmem
        rw [hescapes c hmem] at hbreak
        cases hbreak
      have hnone : ∀ e ∈ closings, ¬ StandsAt text i e := by
        intro e he hstands
        obtain ⟨d, tail, hd⟩ := List.exists_cons_of_ne_nil (hnonempty e he)
        rw [StandsAt, hd, ← hafter] at hstands
        obtain ⟨rfl, -⟩ := List.cons_prefix_cons.mp hstands
        rw [hclosings e he d (by simp [hd])] at hbreak
        cases hbreak
      have hrest : breaks <+: text.drop (i + 1) := by
        rw [← List.tail_drop, ← hafter]
        exact List.prefix_append breaks after
      have hread := (char hescaped hc hescape hnone).trans
        (ih (fun d hd => hbreaks d (List.mem_cons_of_mem c hd)) hrest
          (escapedAt_succ_of_not_escape hc hescape))
      rwa [Nat.add_assoc, Nat.add_comm 1] at hread

end Reads

/-- Capturing the inside has come to the place `c`, with `decoded` for what came before, last character
first: the section could not close so far. -/
structure ReadsTo (escapes : List Char) (closings : List String) (text : List Char) (inside : ℕ)
    (c : Cursor) (decoded : List Char) : Prop where
  rest_eq : c.rest = text.drop c.offset
  reads : Reads escapes closings text inside inside c.offset decoded.reverse

/-! ### The way through the inside -/

namespace Tokenizer

variable {t : Tokenizer κ}

lemma isLineBreak_of_mem_lineEnds {m : Marker} (h : m ∈ t.index.lineEnds) {c : Char}
    (hc : c ∈ m.chars) : isLineBreak c = true := by
  obtain ⟨f, -, hbreaks, rfl⟩ := t.mem_lineEnds_iff.mp h
  obtain ⟨-, hall⟩ := Bool.and_eq_true_iff.mp hbreaks
  exact List.all_eq_true.mp hall c hc

variable {markers : List Marker} {closings : List String} {text : List Char} {inside i : ℕ}

/-- **One piece** of the inside is a slice in which the section cannot close: what is skipped at one
go behind its first character are line breaks, or the character that an escape character stands
before. -/
theorem reads_of_rawStep (hescapes : ∀ c, .escape c ∈ t.rules → isLineBreak c = false)
    (hclosings : ∀ e ∈ closings, ∀ c, e.toList.head? = some c → isLineBreak c = false)
    (hnonempty : ∀ e ∈ closings, e.toList ≠ [])
    (hlongest : AnswersLongest (Marker.firstAt? markers (text.drop i)) closings text i)
    (hi : inside ≤ i) (hescaped : escapedAt (escapeChars t.rules) text inside i = false)
    {p : RawPiece} (hp : t.index.rawStep markers (text.drop i) = .piece p) :
    Reads (escapeChars t.rules) closings text inside i (i + p.length) p.content := by
  have hplain : ∀ c ∈ escapeChars t.rules, isLineBreak c = false := fun c hc =>
    hescapes c (mem_escapeChars.mp hc)
  cases hrest : text.drop i with
  | nil =>
      rw [hrest] at hp
      cases hp
  | cons c after =>
      obtain ⟨hc, hafter⟩ := getElem?_of_drop_eq_cons hrest
      rw [hrest] at hp hlongest
      by_cases hescape : .escape c ∈ t.rules
      · have hmem := mem_escapeChars.mpr hescape
        rw [MatchIndex.rawStep, if_pos (t.isEscape_iff.mpr hescape)] at hp
        obtain rfl := RawStep.piece.inj hp
        cases after with
        | nil =>
            have hlast : text[i + 1]? = none := by rw [← List.head?_drop, hafter]; rfl
            exact .last hescaped hc hmem hlast
        | cons next after =>
            obtain ⟨hnext, hbehind⟩ := getElem?_of_drop_eq_cons hafter
            have hpair : Reads (escapeChars t.rules) closings text inside i (i + 2)
                [unescape next] := .pair hi hescaped hc hmem hnext
            by_cases hb : isLineBreak next = true
            · rw [unescape_of_isLineBreak hb] at hpair
              cases hm : Marker.firstAt? t.index.lineEnds (next :: after) with
              | none =>
                  rw [MatchIndex.escapePiece_of_not_lineEnd hb hm]
                  exact hpair
              | some m =>
                  rw [MatchIndex.escapePiece_of_lineEnd hb hm]
                  have hmem := List.mem_of_find?_eq_some hm
                  obtain ⟨hlead, htail⟩ :=
                    Marker.occursAt_cons_iff.mp (Marker.occursAt_of_firstAt? hm)
                  -- behind the escaped line break the rest of the line end follows unescaped
                  have hbreaks := Reads.lineBreaks (i := i + 2) hplain hclosings hnonempty
                    (fun d hd => isLineBreak_of_mem_lineEnds hmem (List.mem_cons_of_mem m.lead hd))
                    (by rw [hbehind]; exact List.isPrefixOf_iff_prefix.mp htail)
                    (escapedAt_succ_of_escaped
                      (escapedAt_succ_of_escape hi hc (mem_escapeChars.mpr hescape) hescaped))
                  have hread := hpair.trans hbreaks
                  have hlength : i + (1 + m.length) = i + 2 + m.tail.length := by
                    rw [Marker.length, Marker.chars, List.length_cons]
                    omega
                  rw [hlength, Marker.chars, hlead]
                  exact hread
            · have hpiece : t.index.escapePiece (next :: after)
                  = ⟨2, [unescape next], false, Nat.two_pos⟩ := by
                simp [MatchIndex.escapePiece, hb]
              rw [hpiece]
              exact hpair
      · have hmem : c ∉ escapeChars t.rules := fun h => hescape (mem_escapeChars.mp h)
        rw [MatchIndex.rawStep_of_not_escape _ (t.isEscape_eq_false hescape)] at hp
        cases hclose : Marker.firstAt? markers (c :: after) with
        | some m =>
            rw [hclose] at hp
            cases hp
        | none =>
            rw [hclose] at hp hlongest
            cases hm : Marker.firstAt? t.index.lineEnds (c :: after) with
            | some m =>
                rw [hm] at hp
                obtain rfl := RawStep.piece.inj hp
                exact .lineBreaks hplain hclosings hnonempty
                  (fun d hd => isLineBreak_of_mem_lineEnds (List.mem_of_find?_eq_some hm) hd)
                  (by rw [hrest]; exact Marker.occursAt_iff.mp (Marker.occursAt_of_firstAt? hm))
                  hescaped
            | none =>
                rw [hm] at hp
                obtain rfl := RawStep.piece.inj hp
                exact .char hescaped hc hmem (hlongest.eq_none_iff.mp rfl)

end Tokenizer

/-! ### The whole inside -/

namespace OpensRaw

variable {rules : List (Rule κ)} {t : Tokenizer κ} {text : String} {s : State κ} {m : FixedMatch κ}
  {closings : List String}

/-- With every piece it goes on so. -/
lemma readsTo_piece (h : OpensRaw t text s m closings) {t' : Tokenizer κ}
    (hescapes : ∀ c, .escape c ∈ t'.rules → isLineBreak c = false)
    (hclosings : ∀ e ∈ closings, ∀ c, e.toList.head? = some c → isLineBreak c = false) {inside : ℕ}
    {c : Cursor} {decoded : List Char} {p : RawPiece}
    (hreads : ReadsTo (escapeChars t'.rules) closings text.toList inside c decoded)
    (hp : t'.index.rawStep m.text.inside.closings c.rest = .piece p) :
    ReadsTo (escapeChars t'.rules) closings text.toList inside (c.skip p.length p.endsLine)
      (p.content.reverse ++ decoded) := by
  obtain ⟨hrest, hreads⟩ := hreads
  have hlt : c.offset < text.toList.length := by
    by_contra hge
    rw [hrest, List.drop_eq_nil_iff.mpr (by omega)] at hp
    cases hp
  rw [hrest] at hp
  have hpiece := Tokenizer.reads_of_rawStep hescapes hclosings (fun e he => h.ne_nil_of_mem he)
    (h.answersLongest c.offset) hreads.le (hreads.not_escaped hlt) hp
  refine ⟨?_, ?_⟩
  · rw [Cursor.rest_skip, Cursor.offset_skip, hrest, List.drop_drop]
  · rw [Cursor.offset_skip, List.reverse_append, List.reverse_reverse]
    exact hreads.trans hpiece

/-- Where capturing ends the section may close. -/
lemma closableAt_of_readsTo (h : OpensRaw t text s m closings) {t' : Tokenizer κ} {inside : ℕ}
    {c : Cursor} {decoded : List Char} {marker : Marker}
    (hreads : ReadsTo (escapeChars t'.rules) closings text.toList inside c decoded)
    (hcloses : t'.index.rawStep m.text.inside.closings c.rest = .closes marker) :
    ClosableAt (escapeChars t'.rules) closings text.toList inside c.offset := by
  obtain ⟨hrest, hreads⟩ := hreads
  rw [hrest] at hcloses
  have hfound := MatchIndex.firstAt?_of_rawStep hcloses
  have hbest := ((h.answersLongest c.offset).eq_some_iff marker).mp hfound
  have hlt := h.lt_length_of_standsAt hbest.mem hbest.stands
  refine ⟨hreads.le, hreads.not_escaped hlt, fun d hd hmem => ?_, _, hbest.mem, hbest.stands⟩
  rw [drop_eq_cons_of_getElem? hd] at hcloses
  have hescape := MatchIndex.isEscape_eq_false_of_rawStep hcloses
  rw [t'.isEscape_iff.mpr (mem_escapeChars.mp hmem)] at hescape
  cases hescape

/-- Any index captures the inside up to the first offset at which the section may close by its
escape characters. -/
theorem capture_spec (h : OpensRaw t text s m closings) {t' : Tokenizer κ}
    (hescapes : ∀ c, .escape c ∈ t'.rules → isLineBreak c = false)
    (hclosings : ∀ e ∈ closings, ∀ c, e.toList.head? = some c → isLineBreak c = false) :
    t'.index.CapturesFirst m.text.inside.closings (m.stop s.cursor)
      (ClosableAt (escapeChars t'.rules) closings text.toList (s.insideOf m))
      (decodedSlice (escapeChars t'.rules) text.toList (s.insideOf m) (s.insideOf m)) := by
  refine h.capturesFirst (ReadsTo (escapeChars t'.rules) closings text.toList (s.insideOf m))
    ⟨h.reaches_inside.rest_eq_drop, offset_inside s m ▸ .nil escapedAt_inside⟩
    (fun c decoded p => h.readsTo_piece hescapes hclosings) ?_
    (fun c decoded marker => h.closableAt_of_readsTo) fun q hq => hq.stands
  rintro c decoded ⟨hrest, hreads⟩
  exact ⟨hrest, fun q hlt hq => hreads.not_closable q hq.le hlt hq, hreads.decodedSlice_eq.symm⟩

/-- What capturing an inside comes to: the offset at which it ends, the inside as it stands in the
text, and what it stands for. -/
def captureOutcome (ix : MatchIndex κ) (closings : List Marker) (c : Cursor) :
    Option (ℕ × List Char × List Char) :=
  (ix.capture closings c).toOption.map fun r => (r.closing.offset, c.upTo r.closing, r.content)

/-- Two indices that capture an inside up to the first offset with the same property come to the
same. -/
lemma captureOutcome_eq {ix ix' : MatchIndex κ} {markers : List Marker} {c : Cursor} {P : ℕ → Prop}
    {content : ℕ → List Char} (h : ix.CapturesFirst markers c P content)
    (h' : ix'.CapturesFirst markers c P content) :
    captureOutcome ix markers c = captureOutcome ix' markers c := by
  rw [MatchIndex.CapturesFirst] at h h'
  rw [captureOutcome, captureOutcome]
  cases hr : ix.capture markers c with
  | ok r =>
      rw [hr] at h
      cases hr' : ix'.capture markers c with
      | ok r' =>
          rw [hr'] at h'
          have hoffset := h.1.unique h'.1
          simp only [Except.toOption, Option.map_some, Cursor.upTo, h.2, h'.2, hoffset]
      | error stop =>
          rw [hr'] at h'
          exact absurd h.1.1 (h' _)
  | error stop =>
      rw [hr] at h
      cases hr' : ix'.capture markers c with
      | ok r' =>
          rw [hr'] at h'
          exact absurd h'.1.1 (h _)
      | error stop' => rfl

/-- **Decoding**: when neither an escape character nor the beginning of a closing marker is a line
break, the section closes at the first offset at which it may, its closing marker is the longest one
there, and its content is what the inside up to there stands for. If there is no such offset the
section is reported as unterminated. The literals that end a line have no say in it. -/
theorem decodes (ht : Tokenizer.ofRules rules = .ok t) (h : OpensRaw t text s m closings)
    (hescapes : ∀ c, .escape c ∈ rules → isLineBreak c = false)
    (hclosings : ∀ e ∈ closings, ∀ c, e.toList.head? = some c → isLineBreak c = false) :
    (∀ q, IsLeast {q | ClosableAt (escapeChars rules) closings text.toList (s.insideOf m) q} q →
      ∃ e, LongestAt closings text.toList q e ∧ s.ClosesAt t.index text.toList m q e
        (decodedSlice (escapeChars rules) text.toList (s.insideOf m) (s.insideOf m) q)) ∧
    ((∀ q, ¬ ClosableAt (escapeChars rules) closings text.toList (s.insideOf m) q) →
      ∃ stop, t.tokenize text = .error (.unterminatedSection s.cursor.position stop)) ∧
    ∀ (rules' : List (Rule κ)) (t' : Tokenizer κ), Tokenizer.ofRules rules' = .ok t' →
      escapeChars rules' = escapeChars rules →
      captureOutcome t'.index m.text.inside.closings (m.stop s.cursor)
        = captureOutcome t.index m.text.inside.closings (m.stop s.cursor) := by
  obtain rfl := Tokenizer.eq_of_ofRules ht
  have hspec := h.capture_spec hescapes hclosings
  obtain ⟨hcloses, hnone⟩ := h.closes_of_capturesFirst hspec
  refine ⟨hcloses, hnone, fun rules' t' ht' hsame => ?_⟩
  obtain rfl := Tokenizer.eq_of_ofRules ht'
  have hescapes' : ∀ c, .escape c ∈ t'.rules → isLineBreak c = false := fun c hc =>
    hescapes c (mem_escapeChars.mp (hsame ▸ mem_escapeChars.mpr hc))
  have hspec' := h.capture_spec hescapes' hclosings
  rw [hsame] at hspec'
  exact captureOutcome_eq hspec' hspec

/-- Rules for quoted texts that may hold quotes and line ends, when these are escaped. -/
def quotedRules : List (Rule String) := [
  .run "word" .letter,
  .literal "line" "\r\n",
  .delimited "quoted" "\"" ["\"", "\"."],
  .escape '\\']

/-- A quoted text with an escaped quote, a tabulator, a line end and an escape character. -/
def quotedText : String := "\"a\\\"\\t\\\r\n\\\\\"."

theorem decodes_quoted : ∃ t m, Tokenizer.ofRules quotedRules = .ok t ∧
    OpensRaw t quotedText (.ofText quotedText.toList) m ["\"", "\"."] ∧
    ∃ e, LongestAt ["\"", "\"."] quotedText.toList 11 e ∧
      (State.ofText quotedText.toList).ClosesAt t.index quotedText.toList m 11 e
        "a\"\t\r\n\\".toList := by
  have hstarts : startsWith quotedRules quotedText (.delimited "quoted" "\"" ["\"", "\"."]) 1
      = true := by decide +kernel
  obtain ⟨t, m, ht, h, hlength⟩ := exists_of_startsWith (by decide) hstarts
  have hinside : (State.ofText quotedText.toList).insideOf m = 1 := by
    rw [State.insideOf, hlength]
    rfl
  have hescapes : ∀ c, .escape c ∈ quotedRules → isLineBreak c = false := by
    intro c hc
    obtain rfl : c = '\\' := by simpa [quotedRules] using hc
    rfl
  have hclosings : ∀ e ∈ ["\"", "\"."], ∀ c, e.toList.head? = some c → isLineBreak c = false := by
    intro e he c hc
    have hcases : e = "\"" ∨ e = "\"." := by simpa using he
    rcases hcases with rfl | rfl
    · obtain rfl := Option.some.inj hc
      rfl
    · obtain rfl := Option.some.inj hc
      rfl
  have hleast : IsLeast {q | ClosableAt (escapeChars quotedRules) ["\"", "\"."] quotedText.toList 1 q}
      11 := by
    refine ⟨by decide +kernel, fun q hq => ?_⟩
    by_contra hlt
    have hbefore : ∀ q < 11, ¬ ClosableAt (escapeChars quotedRules) ["\"", "\"."]
        quotedText.toList 1 q := by decide +kernel
    exact hbefore q (by omega) hq
  have hcontent : decodedSlice (escapeChars quotedRules) quotedText.toList 1 1 11
      = "a\"\t\r\n\\".toList := by decide +kernel
  obtain ⟨hcloses, -⟩ := decodes ht h hescapes hclosings
  rw [hinside] at hcloses
  have hresult := hcloses 11 hleast
  rw [hcontent] at hresult
  exact ⟨t, m, ht, h, hresult⟩

end OpensRaw

end RuleLexer
