import RuleLexer.Proofs.Markers
import RuleLexer.Proofs.Refinement

/-!
What a level sees of the text behind it. A level that comes to its end before a place of the text
comes to the same end, with the same tokens, when the text goes on differently from there.

* `Marker.Blind`: the marker does not occur because of what is put in the place of the text behind;
  every marker is blind to the end of the text (`Marker.blind_nil`), and a marker without a
  character `c` after its first one to a text that begins with `c` (`Marker.blind_cons`);
* `Cursor.exchange`: the place with another text behind a later one;
* `MatchIndex.fixedAt?_of_blind`, `MatchIndex.rawStep_of_blind`, `MatchIndex.spanLength_of_blind`: what
  is matched before the exchange is matched after it, for fixed texts, for the inside of sections
  and for runs;
* `Covers.exchange`: the same for a whole level, which goes on with what covers the new text.
-/

namespace RuleLexer

variable {κ : Type} {u u' : List Char}

/-! ### Markers -/

/-- What a list of candidates is searched for may become harder to meet: what was not found is not
found then, and what was found is found if it still meets it. -/
lemma find?_of_imp {α : Type} {p p' : α → Bool} {l : List α}
    (h : ∀ a ∈ l, p' a = true → p a = true) :
    (l.find? p = none → l.find? p' = none) ∧
      ∀ a, l.find? p = some a → p' a = true → l.find? p' = some a := by
  refine ⟨?_, ?_⟩
  · intro hnone
    refine List.find?_eq_none.mpr fun a ha hp => ?_
    exact List.find?_eq_none.mp hnone a ha (h a ha hp)
  · intro a hsome ha
    obtain ⟨-, front, back, rfl, hfront⟩ := List.find?_eq_some_iff_append.mp hsome
    refine List.find?_eq_some_iff_append.mpr ⟨ha, front, back, rfl, ?_⟩
    intro b hb
    have hnot := hfront b hb
    have himp := h b (List.mem_append_left _ hb)
    cases hb' : p' b with
    | false => rfl
    | true => simp [himp hb'] at hnot

/-- A character in front of the end of a text is the last one before it. -/
lemma getLast?_of_cons_suffix {q u : List Char} {x : Char} (h : x :: u <:+ q ++ u) :
    q.getLast? = some x := by
  obtain ⟨p, hp⟩ := h
  have hall : p ++ [x] ++ u = q ++ u := by simpa using hp
  have hq : p ++ [x] = q := List.append_cancel_right hall
  rw [← hq, List.getLast?_concat]

namespace Marker

/-- The marker is begun before a place. With `u'` behind the place it is not found where it would
not be with `u` behind. -/
def Blind (u u' : List Char) (m : Marker) : Prop :=
  ∀ q, m.tail <+: q ++ u' → m.tail <+: q ++ u

/-- No marker is found because the text ends. -/
lemma blind_nil (u : List Char) (m : Marker) : m.Blind u [] := by
  intro q h
  rw [List.append_nil] at h
  exact h.trans (List.prefix_append q u)

/-- A marker that has no `c` after its first character does not go on over a `c`. -/
lemma blind_cons {c : Char} {m : Marker} (hc : c ∉ m.tail) (u' : List Char) :
    m.Blind [] (c :: u') := by
  intro q h
  rw [List.append_nil]
  obtain ⟨s, hs⟩ := h
  rcases List.append_eq_append_iff.mp hs with ⟨r, hq, -⟩ | ⟨r, htail, hr⟩
  · exact ⟨r, hq.symm⟩
  · cases r with
    | nil => simp [htail]
    | cons d r =>
        obtain ⟨rfl, -⟩ := List.cons.inj hr
        exact absurd (htail ▸ List.mem_append_right q List.mem_cons_self) hc

lemma Blind.occursAt {m : Marker} (h : m.Blind u u') {q : List Char} (hq : q ≠ [])
    (hoccurs : m.occursAt (q ++ u') = true) : m.occursAt (q ++ u) = true := by
  obtain ⟨c, q, rfl⟩ := List.exists_cons_of_ne_nil hq
  rw [occursAt_iff, List.cons_append] at hoccurs ⊢
  obtain ⟨hlead, htail⟩ := List.cons_prefix_cons.mp hoccurs
  exact List.cons_prefix_cons.mpr ⟨hlead, h q htail⟩

/-- A marker that ends before a place does not depend on what stands behind. -/
lemma occursAt_append_of_length_le {m : Marker} {q : List Char}
    (hoccurs : m.occursAt (q ++ u) = true) (hle : m.length ≤ q.length) :
    m.occursAt (q ++ u') = true := by
  rw [occursAt_iff] at hoccurs ⊢
  exact (List.prefix_of_prefix_length_le hoccurs (List.prefix_append q u) hle).trans
    (List.prefix_append q u')

variable {markers markers' : List Marker} {q : List Char}

lemma firstAt?_none_of_subset (h : ∀ m ∈ markers', m ∈ markers ∧ m.Blind u u') (hq : q ≠ [])
    (hnone : firstAt? markers (q ++ u) = none) : firstAt? markers' (q ++ u') = none := by
  refine List.find?_eq_none.mpr fun m hm hoccurs => ?_
  obtain ⟨hmem, hblind⟩ := h m hm
  exact List.find?_eq_none.mp hnone m hmem (hblind.occursAt hq hoccurs)

lemma firstAt?_none_of_blind (h : ∀ m ∈ markers, m.Blind u u') (hq : q ≠ [])
    (hnone : firstAt? markers (q ++ u) = none) : firstAt? markers (q ++ u') = none :=
  firstAt?_none_of_subset (fun m hm => ⟨hm, h m hm⟩) hq hnone

lemma firstAt?_some_of_blind (h : ∀ m ∈ markers, m.Blind u u') (hq : q ≠ []) {m : Marker}
    (hsome : firstAt? markers (q ++ u) = some m) (hle : m.length ≤ q.length) :
    firstAt? markers (q ++ u') = some m :=
  (find?_of_imp fun m hm => (h m hm).occursAt hq).2 m hsome
    (occursAt_append_of_length_le (occursAt_of_firstAt? hsome) hle)

end Marker

/-! ### What stands before a place -/

namespace MatchIndex

/-- No marker that the index knows is found because `u'` stands in the place of `u`. -/
def Blind (ix : MatchIndex κ) (u u' : List Char) : Prop :=
  ∀ m, ix.Knows m → m.Blind u u'

variable {ix : MatchIndex κ} {q : List Char}

section Fixed

lemma fixedFrom?_none_of_blind (h : ix.Blind u u') {lead : Char}
    (hnone : ix.fixedFrom? lead (q ++ u) = none) : ix.fixedFrom? lead (q ++ u') = none := by
  refine (find?_of_imp fun f hf hp => ?_).1 hnone
  rw [List.isPrefixOf_iff_prefix] at hp ⊢
  exact h _ (.fixed hf) q hp

lemma fixedFrom?_some_of_blind (h : ix.Blind u u') {lead : Char} {f : FixedText κ}
    (hsome : ix.fixedFrom? lead (q ++ u) = some f) (hle : f.marker.tail.length ≤ q.length) :
    ix.fixedFrom? lead (q ++ u') = some f := by
  refine (find?_of_imp fun g hg hp => ?_).2 f hsome ?_
  · rw [List.isPrefixOf_iff_prefix] at hp ⊢
    exact h _ (.fixed hg) q hp
  · have hp := List.find?_some hsome
    rw [List.isPrefixOf_iff_prefix] at hp ⊢
    exact (List.prefix_of_prefix_length_le hp (List.prefix_append q u) hle).trans
      (List.prefix_append q u')

/-- An escape character before a place has its next character before the place as well, unless it
is the last one there. -/
lemma exists_next_of_escape {c : Char} {q : List Char} (hc : ix.isEscape c = true)
    (hlast : ∀ x, x :: u <:+ c :: q ++ u → ix.isEscape x = false) :
    ∃ next q', q = next :: q' := by
  cases q with
  | nil => simp [hlast c (List.suffix_refl _)] at hc
  | cons next q' => exact ⟨next, q', rfl⟩

/-- **Fixed texts**: what is found before a place, and ends there, is found with another text
behind; where nothing was found nothing is. -/
lemma fixedAt?_of_blind (h : ix.Blind u u') (hq : q ≠ [])
    (hlast : ∀ x, x :: u <:+ q ++ u → ix.isEscape x = false) :
    (ix.fixedAt? (q ++ u) = none → ix.fixedAt? (q ++ u') = none) ∧
      ∀ m, ix.fixedAt? (q ++ u) = some m → m.length ≤ q.length →
        ix.fixedAt? (q ++ u') = some m := by
  obtain ⟨c, q, rfl⟩ := List.exists_cons_of_ne_nil hq
  by_cases hc : ix.isEscape c = true
  · obtain ⟨next, q, rfl⟩ := exists_next_of_escape hc hlast
    simp only [List.cons_append, fixedAt?_of_escape hc, Option.map_eq_none_iff]
    refine ⟨fixedFrom?_none_of_blind h, ?_⟩
    intro m hm hle
    obtain ⟨f, hf, rfl⟩ := Option.map_eq_some_iff.mp hm
    have htail : f.marker.tail.length ≤ q.length := by
      simp only [FixedMatch.length, if_true, Marker.length, Marker.chars, List.length_cons] at hle
      omega
    rw [fixedFrom?_some_of_blind h hf htail, Option.map_some]
  · have hc' : ix.isEscape c = false := by simpa using hc
    simp only [List.cons_append, fixedAt?_of_not_escape hc', Option.map_eq_none_iff]
    refine ⟨fixedFrom?_none_of_blind h, ?_⟩
    intro m hm hle
    obtain ⟨f, hf, rfl⟩ := Option.map_eq_some_iff.mp hm
    have htail : f.marker.tail.length ≤ q.length := by
      simp only [FixedMatch.length, Bool.false_eq_true, if_false, Marker.length, Marker.chars,
        List.length_cons] at hle
      omega
    rw [fixedFrom?_some_of_blind h hf htail, Option.map_some]

end Fixed

section Raw

variable {ends : List Marker}

/-- The piece that an escape character begins where a line end stands behind it. -/
lemma escapePiece_of_lineEnd {next : Char} (hb : isLineBreak next = true) {after : List Char}
    {m : Marker} (hm : Marker.firstAt? ix.lineEnds (next :: after) = some m) :
    ix.escapePiece (next :: after) = ⟨1 + m.length, m.chars, true, by omega⟩ := by
  simp only [escapePiece, hb, if_true, hm, Marker.length]

/-- The piece that an escape character begins where a line break stands behind it that no literal
is made of. -/
lemma escapePiece_of_not_lineEnd {next : Char} (hb : isLineBreak next = true) {after : List Char}
    (hm : Marker.firstAt? ix.lineEnds (next :: after) = none) :
    ix.escapePiece (next :: after) = ⟨2, [next], true, Nat.two_pos⟩ := by
  simp only [escapePiece, hb, if_true, hm, List.length_singleton]

/-- It is the same piece with another text behind it. -/
lemma escapePiece_of_blind (h : ix.Blind u u') (hq : q ≠ [])
    (hle : (ix.escapePiece (q ++ u)).length ≤ q.length + 1) :
    ix.escapePiece (q ++ u') = ix.escapePiece (q ++ u) := by
  have hlineEnds : ∀ m ∈ ix.lineEnds, m.Blind u u' := fun m hm => h m (.lineEnd hm)
  obtain ⟨next, q', rfl⟩ := List.exists_cons_of_ne_nil hq
  by_cases hb : isLineBreak next
  · cases hm : Marker.firstAt? ix.lineEnds (next :: q' ++ u) with
    | none =>
        have hm' := Marker.firstAt?_none_of_blind hlineEnds hq hm
        exact (escapePiece_of_not_lineEnd hb hm').trans (escapePiece_of_not_lineEnd hb hm).symm
    | some m =>
        have hpiece : (ix.escapePiece (next :: q' ++ u)) = _ := escapePiece_of_lineEnd hb hm
        have hlength : m.length ≤ (next :: q').length := by
          rw [hpiece] at hle
          simp only at hle
          omega
        have hm' := Marker.firstAt?_some_of_blind hlineEnds hq hm hlength
        exact (escapePiece_of_lineEnd hb hm').trans hpiece.symm
  · simp only [List.cons_append, escapePiece, hb, Bool.false_eq_true, if_false]

/-- **Insides of sections**: a piece that ends before a place, and a closing marker that does, stand
there with another text behind. -/
lemma rawStep_of_blind (h : ix.Blind u u') (hends : ∀ m ∈ ends, m.Blind u u') (hq : q ≠ [])
    (hlast : ∀ x, x :: u <:+ q ++ u → ix.isEscape x = false) :
    (∀ p, ix.rawStep ends (q ++ u) = .piece p → p.length ≤ q.length →
        ix.rawStep ends (q ++ u') = .piece p) ∧
      ∀ m, ix.rawStep ends (q ++ u) = .closes m → m.length ≤ q.length →
        ix.rawStep ends (q ++ u') = .closes m := by
  obtain ⟨c, q', rfl⟩ := List.exists_cons_of_ne_nil hq
  have hlineEnds : ∀ m ∈ ix.lineEnds, m.Blind u u' := fun m hm => h m (.lineEnd hm)
  by_cases hc : ix.isEscape c = true
  · have hstep : ∀ w, ix.rawStep ends (c :: q' ++ w) = .piece (ix.escapePiece (q' ++ w)) := by
      intro w
      simp only [List.cons_append, rawStep, hc, if_true]
    have hq' : q' ≠ [] := by
      obtain ⟨next, q'', rfl⟩ := exists_next_of_escape hc hlast
      exact List.cons_ne_nil _ _
    simp only [hstep]
    refine ⟨?_, ?_⟩
    · intro p hp hle
      obtain rfl := RawStep.piece.inj hp
      rw [escapePiece_of_blind h hq' hle]
    · intro m hm
      cases hm
  · have hc' : ix.isEscape c = false := by simpa using hc
    have hstep := fun w => rawStep_of_not_escape ends hc' (q' ++ w)
    simp only [← List.cons_append] at hstep
    simp only [hstep]
    cases hm : Marker.firstAt? ends (c :: q' ++ u) with
    | some m =>
        refine ⟨?_, ?_⟩
        · intro p hp
          cases hp
        · intro m' hm' hle
          obtain rfl := RawStep.closes.inj hm'
          rw [Marker.firstAt?_some_of_blind hends hq hm hle]
    | none =>
        rw [Marker.firstAt?_none_of_blind hends hq hm]
        cases hl : Marker.firstAt? ix.lineEnds (c :: q' ++ u) with
        | some m =>
            refine ⟨?_, ?_⟩
            · intro p hp hle
              obtain rfl := RawStep.piece.inj hp
              rw [Marker.firstAt?_some_of_blind hlineEnds hq hl hle]
            · intro m hm
              cases hm
        | none =>
            rw [Marker.firstAt?_none_of_blind hlineEnds hq hl]
            refine ⟨fun p hp _ => hp, ?_⟩
            intro m hm
            cases hm

end Raw

section Runs

variable {closings closings' : List Marker} {place : Option ℕ}

/-- A span ends where it ends. -/
lemma spanLength_drop (rest : List Char) : ix.spanLength closings place
    (rest.drop (ix.spanLength closings place rest)) = 0 := by
  induction rest with
  | nil => simp [spanLength]
  | cons c after ih =>
      by_cases hclose : (Marker.firstAt? closings (c :: after)).isSome
      · rw [spanLength_of_closing hclose, List.drop_zero, spanLength_of_closing hclose]
      · by_cases hplace : ix.runPlace? c = place
        · rw [spanLength_cons (by simpa using hclose) hplace, List.drop_succ_cons, ih]
        · rw [spanLength_of_ne hplace, List.drop_zero, spanLength_of_ne hplace]

/-- At the end of a span another run is first, or none, unless a closing marker stands there. -/
lemma runPlace?_ne_of_drop {rest after : List Char} {d : Char}
    (h : rest.drop (ix.spanLength closings place rest) = d :: after)
    (hnone : Marker.firstAt? closings (d :: after) = none) : ix.runPlace? d ≠ place := by
  intro hplace
  have hzero : ix.spanLength closings place
      (rest.drop (ix.spanLength closings place rest)) = 0 := spanLength_drop rest
  rw [h, spanLength_cons hnone hplace] at hzero
  omega

lemma runPlace?_eq_none {d : Char} (h : ix.runFor? d = none) : ix.runPlace? d = none :=
  List.findIdx?_eq_none_iff.mpr fun r hr => by simpa using List.find?_eq_none.mp h r hr

/-- **Runs**: a span that ends before a place is the same with another text behind, if it does not
go on over its end. -/
lemma spanLength_of_blind (hclosings : ∀ m ∈ closings', m ∈ closings ∧ m.Blind u u')
    (hle : ix.spanLength closings place (q ++ u) ≤ q.length)
    (hend : ix.spanLength closings' place
      (q.drop (ix.spanLength closings place (q ++ u)) ++ u') = 0) :
    ix.spanLength closings' place (q ++ u') = ix.spanLength closings place (q ++ u) := by
  induction q with
  | nil =>
      have hzero : ix.spanLength closings place ([] ++ u) = 0 := Nat.le_zero.mp hle
      rw [hzero] at hend ⊢
      exact hend
  | cons c q ih =>
      simp only [List.cons_append] at hle hend ⊢
      by_cases hclose : (Marker.firstAt? closings (c :: (q ++ u))).isSome
      · rw [spanLength_of_closing hclose] at hend ⊢
        exact hend
      · have hnone : Marker.firstAt? closings (c :: (q ++ u)) = none := by simpa using hclose
        by_cases hplace : ix.runPlace? c = place
        · have hnone' : Marker.firstAt? closings' (c :: (q ++ u')) = none :=
            Marker.firstAt?_none_of_subset hclosings (List.cons_ne_nil c q) hnone
          rw [spanLength_cons hnone hplace] at hle hend ⊢
          rw [List.drop_succ_cons] at hend
          rw [List.length_cons] at hle
          rw [spanLength_cons hnone' hplace, ih (by omega) hend]
        · rw [spanLength_of_ne hplace, spanLength_of_ne hplace]

end Runs

end MatchIndex

/-! ### Places -/

namespace Cursor

variable {c d : Cursor}

lemma Reaches.suffix (h : c.Reaches d) : d.rest <:+ c.rest := by
  rw [h.rest_eq]
  exact List.drop_suffix _ _

/-- The place in the text that has `u'` in the place of `u` at its end. -/
def exchange (u u' : List Char) (c : Cursor) : Cursor :=
  { c with rest := c.rest.take (c.rest.length - u.length) ++ u' }

lemma rest_exchange {q : List Char} (h : c.rest = q ++ u) :
    (c.exchange u u').rest = q ++ u' := by
  simp [exchange, h]

/-- What stands before the end of a text that is exchanged behind `d`. -/
lemma Reaches.exists_front (h : c.Reaches d) (hu : u <:+ d.rest) :
    ∃ q, c.rest = q ++ u ∧ d.offset - c.offset ≤ q.length := by
  obtain ⟨q, hq⟩ := hu
  refine ⟨c.upTo d ++ q, ?_, ?_⟩
  · rw [List.append_assoc, hq, h.upTo_append_rest]
  · rw [List.length_append, h.length_upTo]
    exact Nat.le_add_right _ _

lemma exchange_skip {k : ℕ} {endsLine : Bool} {q : List Char} (hq : c.rest = q ++ u)
    (hk : k ≤ q.length) :
    (c.exchange u u').skip k endsLine = (c.skip k endsLine).exchange u u' := by
  have hrest : (c.skip k endsLine).rest = q.drop k ++ u := by
    rw [rest_skip, hq, List.drop_append_of_le_length hk]
  have hdrop : ((c.exchange u u').skip k endsLine).rest
      = ((c.skip k endsLine).exchange u u').rest := by
    rw [rest_exchange hrest, rest_skip, rest_exchange hq, List.drop_append_of_le_length hk]
  cases endsLine <;> exact congrArg (Cursor.mk · _ _) hdrop

/-- What stands between two places before the exchange stays as it is. -/
lemma Reaches.upTo_exchange (h : c.Reaches d) (hu : u <:+ d.rest) :
    (c.exchange u u').upTo (d.exchange u u') = c.upTo d := by
  obtain ⟨q, hq, hle⟩ := h.exists_front hu
  have hoffset : (d.exchange u u').offset - (c.exchange u u').offset = d.offset - c.offset := rfl
  rw [upTo, upTo, hoffset, rest_exchange hq, hq, List.take_append_of_le_length hle,
    List.take_append_of_le_length hle]

end Cursor

/-! ### Tokens -/

lemma Token.between_exchange (kind : κ) {c d : Cursor} (h : c.Reaches d) (hu : u <:+ d.rest) :
    Token.between kind (c.exchange u u') (d.exchange u u') = Token.between kind c d := by
  rw [between, between, h.upTo_exchange hu]
  rfl

lemma Token.section_exchange (kind : κ) {start inside closing stop : Cursor} (tokens : TokenList κ)
    (content : Option (List Char)) (h1 : start.Reaches inside) (h2 : inside.Reaches closing)
    (h3 : closing.Reaches stop) (hu : u <:+ stop.rest) :
    Token.section kind (start.exchange u u') (inside.exchange u u') (closing.exchange u u')
        (stop.exchange u u') tokens content
      = Token.section kind start inside closing stop tokens content := by
  have hclosing := hu.trans h3.suffix
  have hinside := hclosing.trans h2.suffix
  rw [Token.section, Token.section, Token.between_exchange kind ((h1.trans h2).trans h3) hu,
    h1.upTo_exchange hinside, h2.upTo_exchange hclosing, h3.upTo_exchange hu]

/-! ### Captured insides -/

/-- The captured inside in the text that has `u'` in the place of `u` at its end. -/
def Captured.exchange (u u' : List Char) (r : Captured) : Captured :=
  ⟨r.content, r.closing.exchange u u', r.stop.exchange u u'⟩

/-- An inside that is captured before a place is captured with another text behind. -/
lemma MatchIndex.captureFrom_of_blind {ix : MatchIndex κ} (h : ix.Blind u u') {ends : List Marker}
    (hends : ∀ m ∈ ends, m.Blind u u') {decoded : List Char} {c : Cursor} {r : Captured}
    (hr : ix.captureFrom ends decoded c = .ok r) (hu : u <:+ r.stop.rest)
    (hlast : ∀ x, x :: u <:+ c.rest → ix.isEscape x = false) :
    ix.captureFrom ends decoded (c.exchange u u') = .ok (r.exchange u u') := by
  fun_induction captureFrom ix ends decoded c with
  | case1 => cases hr
  | case2 decoded c m hstep =>
      obtain rfl : _ = r := by simpa using hr
      obtain ⟨q, hq, hle⟩ := (Cursor.Reaches.past (firstAt?_of_rawStep hstep)).exists_front hu
      have hm : m.length ≤ q.length := by
        rw [Cursor.offset_past] at hle
        omega
      have hne : q ≠ [] := List.length_pos_iff.mp (m.length_pos.trans_le hm)
      rw [hq] at hstep hlast
      rw [captureFrom_eq, Cursor.rest_exchange hq, (rawStep_of_blind h hends hne hlast).2 m hstep hm]
      simp only [Cursor.past, Cursor.exchange_skip hq hm]
      rfl
  | case3 decoded c p hstep ih =>
      obtain ⟨hclosing, m, hm, hstop⟩ := captureFrom_reaches hr
      have hlater := hclosing.trans (hstop ▸ Cursor.Reaches.past hm)
      have hskip : c.Reaches (c.skip p.length p.endsLine) := .skip (length_le_of_rawStep hstep) _
      obtain ⟨q, hq, hle⟩ := hskip.exists_front (hu.trans hlater.suffix)
      have hp : p.length ≤ q.length := by
        rw [Cursor.offset_skip] at hle
        omega
      have hne : q ≠ [] := List.length_pos_iff.mp (p.length_pos.trans_le hp)
      have hmore := ih hr fun x hx => hlast x (hx.trans hskip.suffix)
      rw [hq] at hstep hlast
      rw [captureFrom_eq, Cursor.rest_exchange hq, (rawStep_of_blind h hends hne hlast).1 p hstep hp,
        ← hmore]
      simp only [Cursor.exchange_skip hq hp]

/-! ### Levels -/

namespace Covers

variable {ix : MatchIndex κ} {closings : List Marker} {c stop : Cursor} {tokens : TokenList κ}

/-- A level ends at once, or it goes on and something of the text is consumed. -/
lemma eq_or_lt (h : Covers ix closings c tokens stop) :
    stop = c ∨ ix.ahead closings c.rest ≠ .levelEnd ∧ stop.rest.length < c.rest.length := by
  cases h with
  | levelEnd h => exact .inl rfl
  | run h more =>
      have hle := more.reaches.suffix.length_le
      exact .inr ⟨by simp [h], hle.trans_lt (rest_length_lt_of_run h)⟩
  | literal h hi more =>
      have hle := more.reaches.suffix.length_le
      exact .inr ⟨by simp [h], hle.trans_lt (rest_length_lt_of_fixed h)⟩
  | raw h hi hr more =>
      have hle := more.reaches.suffix.length_le.trans (MatchIndex.rest_stop_length_le hr)
      exact .inr ⟨by simp [h], hle.trans_lt (rest_length_lt_of_fixed h)⟩
  | nested h hi inside hm more =>
      have hreach := inside.reaches.trans ((Cursor.Reaches.past hm).trans more.reaches)
      exact .inr ⟨by simp [h],
        hreach.suffix.length_le.trans_lt (rest_length_lt_of_fixed h)⟩

end Covers

/-- The closing markers of a section that is found are blind when the index is. -/
lemma MatchIndex.Blind.closings {ix : MatchIndex κ} (h : ix.Blind u u') {closings : List Marker}
    {rest : List Char} {m : FixedMatch κ} (hahead : ix.ahead closings rest = .fixed m)
    {inside : Inside} (hi : m.text.inside = inside) : ∀ k ∈ inside.closings, k.Blind u u' := by
  intro k hk
  rw [← hi] at hk
  obtain ⟨lead, hmem⟩ := mem_fixedTextsFrom_of_fixedAt? (fixedAt?_of_ahead hahead)
  exact h k (.closing hmem hk)

section Exchange

variable {ix : MatchIndex κ} {closings closings' : List Marker} {c stop : Cursor}

/-- A fixed text that ends before the exchange stands there after it. -/
lemma FixedMatch.exchange {m : FixedMatch κ} (hblind : ix.Blind u u')
    (hclosings : ∀ k ∈ closings', k ∈ closings ∧ k.Blind u u')
    (h : ix.ahead closings c.rest = .fixed m) (hu : u <:+ (m.stop c).rest)
    (hlast : ∀ x, x :: u <:+ c.rest → ix.isEscape x = false) :
    ix.ahead closings' (c.exchange u u').rest = .fixed m ∧
      m.stop (c.exchange u u') = (m.stop c).exchange u u' := by
  obtain ⟨q, hq, hle⟩ := (FixedMatch.reaches_stop h).exists_front hu
  have hm : m.length ≤ q.length := by
    rw [stop, Cursor.offset_skip] at hle
    omega
  have hne : q ≠ [] := List.length_pos_iff.mp (m.length_pos.trans_le hm)
  obtain ⟨hnone, hfixed⟩ := MatchIndex.describes_of_ahead h
  rw [hq] at hnone hfixed hlast
  have hnone' := Marker.firstAt?_none_of_subset hclosings hne hnone
  have hfixed' := (MatchIndex.fixedAt?_of_blind hblind hne hlast).2 m hfixed hm
  refine ⟨?_, Cursor.exchange_skip hq hm⟩
  rw [Cursor.rest_exchange hq]
  exact MatchIndex.ahead_eq_of_describes ⟨hnone', hfixed'⟩

/-- A run that ends before the exchange, where the level goes on, ends there after it: the character
that ended the run stands there as before. -/
lemma spanLength_exchange_of_ahead_ne {place n : ℕ} {q : List Char}
    (hspan : ix.spanLength closings (some place) (q ++ u) = n) (hn : n ≤ q.length)
    (hne : q.drop n ≠ []) (hgoes : ix.ahead closings (q.drop n ++ u) ≠ .levelEnd) :
    ix.spanLength closings' (some place) (q.drop n ++ u') = 0 := by
  obtain ⟨d, after, hdrop⟩ := List.exists_cons_of_ne_nil hne
  rw [hdrop, List.cons_append] at hgoes
  have hnone : Marker.firstAt? closings (d :: (after ++ u)) = none :=
    MatchIndex.firstAt?_eq_none_of_ahead_ne hgoes
  have hdrop' : (q ++ u).drop (ix.spanLength closings (some place) (q ++ u))
      = d :: (after ++ u) := by
    rw [hspan, List.drop_append_of_le_length hn, hdrop, List.cons_append]
  rw [hdrop, List.cons_append]
  exact MatchIndex.spanLength_of_ne (MatchIndex.runPlace?_ne_of_drop hdrop' hnone)

/-- A run that ends before the exchange, at `c`, does not go on after it: either the level ends there,
or it goes on. -/
lemma spanLength_exchange_eq_zero {place n : ℕ} {q : List Char} {tokens : TokenList κ}
    (hspan : ix.spanLength closings (some place) (q ++ u) = n) (hn : n ≤ q.length)
    (hc : c.rest = q.drop n ++ u) (more : Covers ix closings c tokens stop) (hu : u <:+ stop.rest)
    (hrun : ∀ d after, (stop.exchange u u').rest = d :: after →
      Marker.firstAt? closings' (d :: after) = none → ix.runFor? d = none) :
    ix.spanLength closings' (some place) (q.drop n ++ u') = 0 := by
  rcases more.eq_or_lt with rfl | ⟨hgoes, hlt⟩
  · rw [Cursor.rest_exchange hc] at hrun
    cases hw : q.drop n ++ u' with
    | nil => simp [MatchIndex.spanLength]
    | cons d after =>
        by_cases hclose : (Marker.firstAt? closings' (d :: after)).isSome
        · exact MatchIndex.spanLength_of_closing hclose
        · have hno := hrun d after hw (by simpa using hclose)
          refine MatchIndex.spanLength_of_ne ?_
          simp [MatchIndex.runPlace?_eq_none hno]
  · have hne : q.drop n ≠ [] := by
      intro hnil
      have hshort := hu.length_le
      rw [hc, hnil, List.nil_append] at hlt
      omega
    exact spanLength_exchange_of_ahead_ne hspan hn hne (hc ▸ hgoes)

/-- A run that ends before the exchange is the same after it, if it does not go on then. -/
lemma CharRun.exchange_of_ends {r : CharRun κ} {n : ℕ} (hblind : ix.Blind u u')
    (hclosings : ∀ k ∈ closings', k ∈ closings ∧ k.Blind u u')
    (h : ix.ahead closings c.rest = .run r n) (hu : u <:+ (c.advance n).rest)
    (hlast : ∀ x, x :: u <:+ c.rest → ix.isEscape x = false)
    (hends : ∀ place q, (c.advance n).rest = q.drop n ++ u → n ≤ q.length →
      ix.spanLength closings (some place) (q ++ u) = n →
      ix.spanLength closings' (some place) (q.drop n ++ u') = 0) :
    ix.ahead closings' (c.exchange u u').rest = .run r n ∧
      (c.exchange u u').advance n = (c.advance n).exchange u u' := by
  have hnext : c.Reaches (c.advance n) := .advance (MatchIndex.run_length_le h)
  obtain ⟨q, hq, hle⟩ := hnext.exists_front hu
  obtain ⟨d, after, hrest, hnone, hfixed, hr, hn⟩ := MatchIndex.describes_of_ahead h
  obtain ⟨place, hplace, -⟩ := MatchIndex.runPlace?_of_runFor? hr
  have hn' : n ≤ q.length := by
    simp only [Cursor.advance] at hle
    omega
  have hadvance : (c.advance n).rest = q.drop n ++ u := by
    simp only [Cursor.advance, hq, List.drop_append_of_le_length hn']
  have hspan : ix.spanLength closings (some place) (q ++ u) = n := by
    rw [← hq, hrest, MatchIndex.spanLength_cons (hrest ▸ hnone) hplace, hn, hplace]
  have hend := hends place q hadvance hn' hspan
  have hspan' : ix.spanLength closings' (some place) (q ++ u') = n := by
    rw [MatchIndex.spanLength_of_blind hclosings (by rwa [hspan]) (by rwa [hspan]), hspan]
  have hne : q ≠ [] := List.length_pos_iff.mp (by omega)
  rw [hq] at hnone hfixed hlast
  have hnone' := Marker.firstAt?_none_of_subset hclosings hne hnone
  have hfixed' := (MatchIndex.fixedAt?_of_blind hblind hne hlast).1 hfixed
  have hadvance' : (c.exchange u u').skip n false = (c.skip n false).exchange u u' :=
    Cursor.exchange_skip hq hn'
  refine ⟨?_, hadvance'⟩
  rw [Cursor.rest_exchange hq]
  obtain ⟨d', q, rfl⟩ := List.exists_cons_of_ne_nil hne
  obtain ⟨rfl, -⟩ := List.cons.inj (hq.symm.trans hrest)
  rw [List.cons_append] at hnone' hfixed' hspan' ⊢
  refine MatchIndex.ahead_eq_of_describes ⟨d', q ++ u', rfl, hnone', hfixed', hr, ?_⟩
  rw [← hspan', MatchIndex.spanLength_cons hnone' hplace, hplace]

/-- A run that ends before the exchange is the same after it, unless it ends together with the
level and could go on then. -/
lemma CharRun.exchange {r : CharRun κ} {n : ℕ} {tokens : TokenList κ} (hblind : ix.Blind u u')
    (hclosings : ∀ k ∈ closings', k ∈ closings ∧ k.Blind u u')
    (h : ix.ahead closings c.rest = .run r n) (more : Covers ix closings (c.advance n) tokens stop)
    (hu : u <:+ stop.rest) (hlast : ∀ x, x :: u <:+ c.rest → ix.isEscape x = false)
    (hrun : ∀ d after, (stop.exchange u u').rest = d :: after →
      Marker.firstAt? closings' (d :: after) = none → ix.runFor? d = none) :
    ix.ahead closings' (c.exchange u u').rest = .run r n ∧
      (c.exchange u u').advance n = (c.advance n).exchange u u' :=
  CharRun.exchange_of_ends hblind hclosings h (hu.trans more.reaches.suffix) hlast
    fun _ _ hrest hn hspan => spanLength_exchange_eq_zero hspan hn hrest more hu hrun

/-- A closing marker that ends before the exchange stands there after it. -/
lemma Marker.exchange {ends : List Marker} {marker : Marker} (hends : ∀ k ∈ ends, k.Blind u u')
    (hm : firstAt? ends c.rest = some marker) (hu : u <:+ (c.past marker).rest) :
    firstAt? ends (c.exchange u u').rest = some marker ∧
      (c.exchange u u').past marker = (c.past marker).exchange u u' := by
  obtain ⟨q, hq, hle⟩ := (Cursor.Reaches.past hm).exists_front hu
  have hlength : marker.length ≤ q.length := by
    rw [Cursor.offset_past] at hle
    omega
  have hne : q ≠ [] := List.length_pos_iff.mp (marker.length_pos.trans_le hlength)
  refine ⟨?_, Cursor.exchange_skip hq hlength⟩
  rw [Cursor.rest_exchange hq]
  exact firstAt?_some_of_blind hends hne (hq ▸ hm) hlength

end Exchange

namespace Covers

variable {ix : MatchIndex κ} {closings : List Marker} {c stop : Cursor} {tokens : TokenList κ}

/-- **Lookahead**: a level that comes to its end at `stop` comes to it with another text behind
`stop`, and with the same tokens. There it goes on with what covers the other text. -/
theorem exchange (hblind : ix.Blind u u') (h : Covers ix closings c tokens stop)
    {closings' : List Marker} (hclosings : ∀ m ∈ closings', m ∈ closings ∧ m.Blind u u')
    (hu : u <:+ stop.rest) (hlast : ∀ x, x :: u <:+ c.rest → ix.isEscape x = false)
    (hrun : ∀ d after, (stop.exchange u u').rest = d :: after →
      Marker.firstAt? closings' (d :: after) = none → ix.runFor? d = none)
    {tokens' : TokenList κ} {stop' : Cursor}
    (h' : Covers ix closings' (stop.exchange u u') tokens' stop') :
    Covers ix closings' (c.exchange u u') (tokens ++ tokens') stop' := by
  induction h generalizing closings' tokens' stop' with
  | levelEnd h => exact h'
  | @run closings c stop r n tokens h more ih =>
      have hnext : c.Reaches (c.advance n) := .advance (MatchIndex.run_length_le h)
      have hmore := ih hclosings hu (fun x hx => hlast x (hx.trans hnext.suffix)) hrun h'
      obtain ⟨hahead, hadvance⟩ := CharRun.exchange hblind hclosings h more hu hlast hrun
      rw [← hadvance] at hmore
      have htoken : r.tokenAt (c.exchange u u') n = r.tokenAt c n := by
        rw [CharRun.tokenAt, hadvance]
        exact Token.between_exchange r.kind hnext (hu.trans more.reaches.suffix)
      rw [List.append_assoc, ← htoken]
      exact .run hahead hmore
  | @literal closings c stop m tokens h hi more ih =>
      have hnext := FixedMatch.reaches_stop h
      have hu' := hu.trans more.reaches.suffix
      have hmore := ih hclosings hu (fun x hx => hlast x (hx.trans hnext.suffix)) hrun h'
      obtain ⟨hahead, hstop⟩ := FixedMatch.exchange hblind hclosings h hu' hlast
      rw [← hstop] at hmore
      have htoken : m.literalAt (c.exchange u u') = m.literalAt c := by
        rw [FixedMatch.literalAt, hstop]
        exact Token.between_exchange m.text.kind hnext hu'
      rw [List.append_assoc, ← htoken]
      exact .literal hahead hi hmore
  | @raw closings ends c stop m r tokens h hi hr more ih =>
      have hinside := FixedMatch.reaches_stop h
      obtain ⟨hclosing, hafter⟩ := MatchIndex.capture_reaches hr
      have hnext := (hinside.trans hclosing).trans hafter
      have hu' := hu.trans more.reaches.suffix
      have hmore := ih hclosings hu (fun x hx => hlast x (hx.trans hnext.suffix)) hrun h'
      obtain ⟨hahead, hstop⟩ := FixedMatch.exchange hblind hclosings h
        (hu'.trans (hclosing.trans hafter).suffix) hlast
      have hends : ∀ k ∈ ends, k.Blind u u' := hblind.closings h hi
      have hr' : ix.capture ends (m.stop (c.exchange u u')) = .ok (r.exchange u u') := by
        rw [hstop]
        exact MatchIndex.captureFrom_of_blind hblind hends hr hu'
          fun x hx => hlast x (hx.trans hinside.suffix)
      have htoken : m.rawAt (c.exchange u u') (r.exchange u u') = m.rawAt c r := by
        rw [FixedMatch.rawAt, hstop]
        exact Token.section_exchange m.text.kind [] (some r.content) hinside hclosing hafter hu'
      rw [List.append_assoc, ← htoken]
      exact .raw hahead hi hr' hmore
  | @nested closings ends c closing stop m marker inner tokens h hi inside hm more ihinside ih =>
      have hinside := FixedMatch.reaches_stop h
      have hafter : closing.Reaches (closing.past marker) := .past hm
      have hnext := (hinside.trans inside.reaches).trans hafter
      have hu' := hu.trans more.reaches.suffix
      have hmore := ih hclosings hu (fun x hx => hlast x (hx.trans hnext.suffix)) hrun h'
      obtain ⟨hahead, hstop⟩ := FixedMatch.exchange hblind hclosings h
        (hu'.trans (inside.reaches.trans hafter).suffix) hlast
      have hends : ∀ k ∈ ends, k.Blind u u' := hblind.closings h hi
      -- the closing marker stands before the exchange, so the level inside ends at it as before
      obtain ⟨hm', hpast⟩ := Marker.exchange hends hm hu'
      have hlevelEnd : ix.ahead ends (closing.exchange u u').rest = .levelEnd :=
        MatchIndex.ahead_eq_of_describes (.inr (Option.isSome_of_eq_some hm'))
      have hinner := ihinside (fun k hk => ⟨hk, hends k hk⟩) (hu'.trans hafter.suffix)
        (fun x hx => hlast x (hx.trans hinside.suffix))
        (fun d after hrest hnone => by rw [← hrest, hm'] at hnone; cases hnone)
        (.levelEnd hlevelEnd)
      rw [List.append_nil, ← hstop] at hinner
      have htoken : m.nestedAt (c.exchange u u') (closing.exchange u u') marker inner
          = m.nestedAt c closing marker inner := by
        rw [FixedMatch.nestedAt, hstop, hpast]
        exact Token.section_exchange m.text.kind inner none hinside inside.reaches hafter hu'
      rw [← hpast] at hmore
      rw [List.append_assoc, ← htoken]
      exact .nested hahead hi hinner hm' hmore

end Covers

end RuleLexer
