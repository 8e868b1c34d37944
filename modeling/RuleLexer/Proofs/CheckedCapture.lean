import RuleLexer.Proofs.Numbering

/-!
At a place of the text the checked operations have results, and these are what the place says. So
the inside of a section is captured in turns as it is captured at once.

* `Cursor.place`: a place by its offset;
* `Scanner.slice_at`, `Scanner.matchAnyAt_eq`, `Scanner.pastMarker_eq`, `Scanner.spanFrom_eq`: the
  checked operations at a place of the text;
* `Scanner.Works`: the scanner works by the rules of a tokenizer;
* `Scanner.captureTurn_eq`: one turn through the inside of a section is one step through it;
* `Scanner.loop_captureTurn`: with fuel for all that is left of the text the whole inside is
  captured.
-/

namespace RuleLexer

variable {κ : Type}

/-- The place without the text. -/
def Cursor.place (c : Cursor) : Scanner.Place :=
  ⟨c.offset, c.position⟩

@[simp] lemma Cursor.offset_place (c : Cursor) : c.place.offset = c.offset := rfl

@[simp] lemma Cursor.position_place (c : Cursor) : c.place.position = c.position := rfl

lemma Cursor.place_skip (c : Cursor) (n : ℕ) (b : Bool) :
    (c.skip n b).place = c.place.skip n b := by
  cases b <;> rfl

/-- A marker is what the text begins with where it stands. -/
lemma Marker.take_of_occursAt {m : Marker} {rest : List Char} (h : m.occursAt rest = true) :
    rest.take m.length = m.chars :=
  (List.prefix_iff_eq_take.mp (occursAt_iff.mp h)).symm

namespace Scanner

/-! ### Checked operations at a place of the text -/

variable {s : Scanner κ} {c d : Cursor} {n : ℕ}

section Operations

variable (hc : (Cursor.ofText s.text).Reaches c)

include hc

lemma drop_eq (n : ℕ) : s.text.drop (c.offset + n) = c.rest.drop n := by
  rw [hc.rest_eq_drop, List.drop_drop]

lemma length_eq : s.text.length = c.offset + c.rest.length :=
  hc.offset_add_length_rest.symm

lemma getElem?_eq (n : ℕ) : s.text[c.offset + n]? = c.rest[n]? := by
  have hdrop := congrArg (·[0]?) (drop_eq hc n)
  simpa using hdrop

lemma getElem?_here {ch : Char} {after : List Char} (hrest : c.rest = ch :: after) :
    s.text[c.offset]? = some ch := by
  simpa [hrest] using getElem?_eq hc 0

lemma getElem?_next {ch : Char} {after : List Char} (hrest : c.rest = ch :: after) :
    s.text[c.offset + 1]? = after[0]? := by
  simpa [hrest] using getElem?_eq hc 1

lemma getElem?_end (hrest : c.rest = []) : s.text[c.offset]? = none := by
  simpa [hrest] using getElem?_eq hc 0

/-- The characters between two places that are `m` and `n` characters further. -/
lemma slice_at {m n : ℕ} (hmn : m ≤ n) (hn : n ≤ c.rest.length) :
    slice s.text (c.offset + m) (c.offset + n) = .ok ((c.rest.drop m).take (n - m)) := by
  have hlength := length_eq hc
  have hsub : c.offset + n - (c.offset + m) = n - m := by omega
  rw [slice, if_pos ⟨by omega, by omega⟩, drop_eq hc, hsub]

/-- The characters up to a later place. -/
lemma slice_upTo (h : c.Reaches d) : slice s.text c.offset d.offset = .ok (c.upTo d) := by
  have hle := h.offset_le
  have hslice := slice_at hc (Nat.zero_le _) h.sub_le_length
  rwa [Nat.add_zero, Nat.add_sub_cancel' hle] at hslice

/-- The characters that are left. -/
lemma slice_rest : slice s.text c.offset s.text.length = .ok c.rest := by
  rw [length_eq hc]
  simpa using slice_at hc (Nat.zero_le _) le_rfl

lemma matchesAt_eq (hn : n ≤ c.rest.length) (w : List Char) :
    s.matchesAt (c.offset + n) w = w.isPrefixOf (c.rest.drop n) := by
  rw [Bool.eq_iff_iff, matchesAt, drop_eq hc, List.isPrefixOf_iff_prefix, List.prefix_iff_eq_take,
    Bool.and_eq_true, beq_iff_eq, decide_eq_true_eq]
  constructor
  · exact fun h => h.2.symm
  · intro h
    have hlength := length_eq hc
    have hle := congrArg List.length h
    rw [List.length_take, List.length_drop] at hle
    exact ⟨by omega, h.symm⟩

/-- The first marker that stands some characters further. -/
lemma matchAnyAt_eq (hn : n ≤ c.rest.length) (markers : List Marker) :
    s.matchAnyAt (c.offset + n) (markers.map Marker.chars)
      = (Marker.firstAt? markers (c.rest.drop n)).map Marker.length := by
  rw [matchAnyAt, List.find?_map, Option.map_map]
  congr 1
  exact List.find?_congr fun m _ => matchesAt_eq hc hn m.chars

lemma matchAnyAt_here (markers : List Marker) :
    s.matchAnyAt c.offset (markers.map Marker.chars)
      = (Marker.firstAt? markers c.rest).map Marker.length := by
  simpa using matchAnyAt_eq hc (Nat.zero_le _) markers

/-- The characters of a marker that stands some characters further. -/
lemma slice_marker {m : Marker} (hm : m.occursAt (c.rest.drop n) = true) :
    slice s.text (c.offset + n) (c.offset + n + m.length) = .ok m.chars := by
  have hle := (Marker.occursAt_iff.mp hm).length_le
  have hpos := m.length_pos
  rw [List.length_drop, ← Marker.length] at hle
  rw [Nat.add_assoc, slice_at hc (Nat.le_add_right _ _) (by omega), Nat.add_sub_cancel_left,
    Marker.take_of_occursAt hm]

/-- The place after a closing marker. -/
lemma pastMarker_eq {m : Marker} (hm : m.occursAt c.rest = true) :
    s.pastMarker c.place m.length = .ok (c.past m).place := by
  have hslice := slice_marker (n := 0) hc hm
  rw [Nat.add_zero] at hslice
  rw [pastMarker, Cursor.place, hslice, Cursor.past, Cursor.place_skip]
  rfl

end Operations

/-- The span up to a later place. -/
lemma spanFrom_eq (h : c.Reaches d) :
    spanFrom c.offset d.place = .ok (.between c.offset d.offset) := by
  have hle := h.offset_le
  have hclamp : (Coord.clamp c.offset).val ≤ (Coord.clamp d.offset).val := by
    simp only [Coord.val_clamp]
    omega
  simp only [spanFrom, Cursor.place, Span.between, hclamp, if_true]

/-! ### Captured insides -/

/-- The scanner works by the rules of the tokenizer. -/
structure Works (s : Scanner κ) (t : Tokenizer κ) : Prop where
  rules_eq : s.rules = t.rules
  index_eq : s.index = .ofRules t.rules

section Capture

variable {t : Tokenizer κ} {inside : Cursor} {ends : List Marker} {start : Position} {ch : Char}
  {after content : List Char}

/-- A turn at an escape character takes the piece that it begins. -/
lemma captureTurn_escape (hs : s.Works t) (hc : (Cursor.ofText s.text).Reaches c)
    (hrest : c.rest = ch :: after) (hescape : t.index.isEscape ch = true) (inside : ℕ) :
    s.captureTurn (ends.map Marker.chars) start inside ⟨c.place, content⟩
      = .ok (.more ⟨(c.skip (t.index.escapePiece after).length
          (t.index.escapePiece after).endsLine).place,
        content ++ (t.index.escapePiece after).content⟩) := by
  have hescape' : s.index.isEscape ch = true := by
    rw [hs.index_eq, t.isEscape_numbered, hescape]
  simp only [captureTurn, Cursor.offset_place, getElem?_here hc hrest, getElem?_next hc hrest,
    hescape', if_true, Cursor.place_skip]
  cases after with
  | nil =>
      simp only [List.getElem?_nil, MatchIndex.escapePiece, List.append_nil]
      rfl
  | cons next rest =>
      have hlength : 1 ≤ c.rest.length := by simp [hrest]
      have hdrop : c.rest.drop 1 = next :: rest := by simp [hrest]
      by_cases hbreak : isLineBreak next = true
      · have hmatch := matchAnyAt_eq hc hlength t.index.lineEnds
        rw [hdrop, ← t.lineEnds_numbered, ← hs.index_eq] at hmatch
        simp only [List.getElem?_cons_zero, hbreak, if_true, hmatch]
        cases hm : Marker.firstAt? t.index.lineEnds (next :: rest) with
        | none =>
            have hslice := slice_at hc (Nat.le_add_right 1 1) (by simp [hrest])
            rw [hdrop, ← Nat.add_assoc] at hslice
            simp only [Option.map_none, Option.getD_none, hslice, ok_bind,
              MatchIndex.escapePiece_of_not_lineEnd hbreak hm]
            rfl
        | some m =>
            have hslice := slice_marker hc (hdrop ▸ Marker.occursAt_of_firstAt? hm)
            simp only [Option.map_some, Option.getD_some, hslice, ok_bind,
              MatchIndex.escapePiece_of_lineEnd hbreak hm]
            rfl
      · simp only [List.getElem?_cons_zero, hbreak, MatchIndex.escapePiece]
        rfl

/-- **One turn** through the inside of a section is one step through it. -/
theorem captureTurn_eq (hs : s.Works t) (hinside : (Cursor.ofText s.text).Reaches inside)
    (h : inside.Reaches c) :
    s.captureTurn (ends.map Marker.chars) start inside.offset ⟨c.place, content⟩
      = match t.index.rawStep ends c.rest with
        | .endOfText => .error (.error (.unterminatedSection start c.position))
        | .closes m => .ok (.done ⟨inside.upTo c, content, c.upTo (c.past m), (c.past m).place⟩)
        | .piece p => .ok (.more ⟨(c.skip p.length p.endsLine).place, content ++ p.content⟩) := by
  have hc := hinside.trans h
  cases hrest : c.rest with
  | nil =>
      simp only [captureTurn, Cursor.offset_place, getElem?_end hc hrest, MatchIndex.rawStep,
        Cursor.position_place]
  | cons ch after =>
      by_cases hescape : t.index.isEscape ch = true
      · rw [captureTurn_escape hs hc hrest hescape, MatchIndex.rawStep, if_pos hescape]
      · have hnot : t.index.isEscape ch = false := by simpa using hescape
        have hescape' : s.index.isEscape ch = false := by
          rw [hs.index_eq, t.isEscape_numbered, hnot]
        have hlineEnds := matchAnyAt_here hc t.index.lineEnds
        rw [← t.lineEnds_numbered, ← hs.index_eq] at hlineEnds
        rw [MatchIndex.rawStep_of_not_escape _ hnot, ← hrest]
        simp only [captureTurn, Cursor.offset_place, getElem?_here hc hrest, hescape',
          matchAnyAt_here hc ends, hlineEnds, Bool.false_eq_true, if_false]
        cases hm : Marker.firstAt? ends c.rest with
        | some m =>
            have hoccurs := Marker.occursAt_of_firstAt? hm
            have hclosing := slice_upTo hc (.past hm)
            rw [Cursor.offset_past] at hclosing
            simp only [Option.map_some, slice_upTo hinside h, hclosing, pastMarker_eq hc hoccurs,
              ok_bind]
        | none =>
            cases hl : Marker.firstAt? t.index.lineEnds c.rest with
            | some m =>
                have hslice := slice_marker (n := 0) hc (Marker.occursAt_of_firstAt? hl)
                rw [Nat.add_zero] at hslice
                simp only [Option.map_some, Option.map_none, hslice, ok_bind, Cursor.place_skip]
                rfl
            | none =>
                simp only [Option.map_none, Cursor.place_skip]
                rfl

/-- **The whole inside** is captured, with fuel for all that is left of the text. -/
theorem loop_captureTurn (hs : s.Works t) (hinside : (Cursor.ofText s.text).Reaches inside)
    (h : inside.Reaches c) {fuel : ℕ} (hfuel : c.rest.length < fuel) (decoded : List Char) :
    loop (s.captureTurn (ends.map Marker.chars) start inside.offset) fuel
        ⟨c.place, decoded.reverse⟩
      = match t.index.captureFrom ends decoded c with
        | .error stop => .error (.error (.unterminatedSection start stop))
        | .ok r =>
            .ok ⟨inside.upTo r.closing, r.content, r.closing.upTo r.stop, r.stop.place⟩ := by
  induction fuel generalizing c decoded with
  | zero => omega
  | succ fuel ih =>
      rw [loop, captureTurn_eq hs hinside h, MatchIndex.captureFrom_eq]
      cases hstep : t.index.rawStep ends c.rest with
      | endOfText => rfl
      | closes m => rfl
      | piece p =>
          have hle := MatchIndex.length_le_of_rawStep hstep
          have hpos := p.length_pos
          have hshorter : (c.skip p.length p.endsLine).rest.length < fuel := by
            rw [Cursor.rest_skip, List.length_drop]
            omega
          have hnext := ih (h.trans (.skip hle _)) hshorter (p.content.reverse ++ decoded)
          rw [List.reverse_append, List.reverse_reverse] at hnext
          exact hnext

/-- The inside is captured in turns as it is at once. -/
lemma loop_capture (hs : s.Works t) (hinside : (Cursor.ofText s.text).Reaches inside) {fuel : ℕ}
    (hfuel : s.text.length < fuel) :
    loop (s.captureTurn (ends.map Marker.chars) start inside.offset) fuel ⟨inside.place, []⟩
      = match t.index.capture ends inside with
        | .error stop => .error (.error (.unterminatedSection start stop))
        | .ok r =>
            .ok ⟨inside.upTo r.closing, r.content, r.closing.upTo r.stop, r.stop.place⟩ := by
  have hlength := length_eq hinside
  exact loop_captureTurn hs hinside (.refl inside) (by omega) []

end Capture

end Scanner

end RuleLexer
