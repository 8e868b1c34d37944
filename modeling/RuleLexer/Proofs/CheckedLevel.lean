import RuleLexer.Proofs.CheckedCapture
import RuleLexer.Proofs.Refinement

/-!
A level as the checked scanner has it, and what the checked scanner does with a fixed text, at a
place of the text.

* `Scanner.Tracks`: a level as it was scanned is a level of the machine; `Tracks.flush_eq` and
  `Tracks.takeChar_eq` say what becomes of it;
* `Scanner.Names`, `Scanner.exists_bestFixed`: the fixed text that is found at a place;
* `Scanner.scanFixed_literal`, `Scanner.scanFixed_raw`, `Scanner.scanFixed_nested`: its token, by
  what follows the fixed text.
-/

namespace RuleLexer

variable {κ : Type}

namespace Scanner

variable {s : Scanner κ} {t : Tokenizer κ} {c d : Cursor}

/-! ### The level so far -/

/-- The run in progress is that of the machine. -/
structure PendingRun.Tracks (t : Tokenizer κ) (c : Cursor) (run : PendingRun) (p : Pending κ) :
    Prop where
  buffer_eq : run.buffer = p.start.upTo c
  start_eq : run.start = p.start.place
  reaches : p.start.Reaches c
  entry : ∃ ch, entryFor? t.rules ch = some (run.rule, p.run)

/-- A level as it was scanned up to `c` is a level of the machine there. -/
structure Tracks (t : Tokenizer κ) (st : Scanned κ) (level : Level κ) (c : Cursor) : Prop where
  place_eq : st.place = c.place
  tokens_eq : st.tokens = level.emitted.reverse
  pending : Option.Rel (PendingRun.Tracks t c) st.pending level.pending

namespace Tracks

variable {st : Scanned κ} {level : Level κ}

/-- A level of which nothing was scanned yet. -/
lemma start (t : Tokenizer κ) (c : Cursor) : Tracks t ⟨c.place, [], none⟩ {} c :=
  ⟨rfl, rfl, .none⟩

/-- Ending the run in progress adds its token. -/
lemma flush_eq (hs : s.Works t) (h : Tracks t st level c) :
    s.flush st.tokens st.pending st.place = .ok (level.tokensUpTo c) := by
  obtain ⟨place, tokens, pending⟩ := st
  obtain ⟨emitted, pending'⟩ := level
  obtain ⟨rfl, rfl, hpending⟩ := h
  cases hpending with
  | none => rfl
  | @some run p hrun =>
      obtain ⟨ch, hentry⟩ := hrun.entry
      have hrule := getElem?_of_entryFor? hentry
      rw [← hs.rules_eq] at hrule
      simp only [flush, rule, hrule, ok_bind, Level.tokensUpTo, Level.flush, Rule.discards,
        Rule.kind?]
      cases hdiscard : p.run.discard with
      | true => rfl
      | false =>
          simp only [hrun.start_eq, hrun.buffer_eq, Cursor.offset_place, spanFrom_eq hrun.reaches,
            ok_bind, Level.emit, Bool.false_eq_true, if_false, List.reverse_cons,
            Cursor.position_place]
          rfl

/-- A token that is added to a level without a run in progress. -/
lemma emit (level : Level κ) (discard : Bool) (token : Token κ) :
    Tracks t ⟨d.place, if discard then level.tokensUpTo c else level.tokensUpTo c ++ [token], none⟩
      ((level.flush c).emit discard token) d := by
  have hpending : ((level.flush c).emit discard token).pending = none := by
    rw [Level.pending_emit, Level.pending_flush]
  refine ⟨rfl, ?_, hpending ▸ .none⟩
  cases discard with
  | true => rfl
  | false => simp [Level.emit, Level.tokensUpTo]

/-- The run that is in progress goes on, another one ends, and the run is in progress. -/
lemma resume_eq (hs : s.Works t) (h : Tracks t st level c) {ch : Char} {n : ℕ} {r : CharRun κ}
    (hentry : entryFor? t.rules ch = some (n, r)) :
    ∃ tokens run p, s.resume st.tokens st.pending n st.place = .ok (tokens, run) ∧
      run.Tracks t c p ∧ level.extend r c = ⟨tokens.reverse, some p⟩ := by
  have hflush := h.flush_eq hs
  obtain ⟨place, tokens, pending⟩ := st
  obtain ⟨emitted, pending'⟩ := level
  obtain ⟨rfl, rfl, hpending⟩ := h
  have hstarted : PendingRun.Tracks t c ⟨n, [], c.place⟩ ⟨r, c⟩ :=
    ⟨by simp [Cursor.upTo], rfl, .refl c, ch, hentry⟩
  cases hpending with
  | none =>
      refine ⟨_, _, ⟨r, c⟩, rfl, hstarted, ?_⟩
      simp [Level.extend, Level.continues, Level.flush]
  | @some run p hrun =>
      obtain ⟨d, hd⟩ := hrun.entry
      have hsame := charClass_eq_of_entryFor? hentry hd
      by_cases hn : run.rule = n
      · refine ⟨_, run, p, if_pos hn, hrun, ?_⟩
        simp [Level.extend, Level.continues, hsame.mpr hn]
      · refine ⟨Level.tokensUpTo ⟨emitted, some p⟩ c, ⟨n, [], c.place⟩, ⟨r, c⟩, ?_, hstarted, ?_⟩
        · simp only [resume, if_neg hn]
          rw [hflush]
          rfl
        · have hclass : ¬ p.run.charClass = r.charClass := fun hclass => hn (hsame.mp hclass)
          simp [Level.extend, Level.continues, hclass, Level.tokensUpTo]

/-- A character is added to a run. -/
lemma takeChar_eq (hs : s.Works t) (hc : (Cursor.ofText s.text).Reaches c)
    (h : Tracks t st level c) {ch : Char} {after : List Char} (hrest : c.rest = ch :: after)
    {n : ℕ} {r : CharRun κ} (hentry : entryFor? t.rules ch = some (n, r)) :
    ∃ st', s.takeChar n st = .ok st' ∧ Tracks t st' (level.extend r c) (c.advance 1) := by
  obtain ⟨tokens, run, p, hresume, hrun, hlevel⟩ := h.resume_eq hs hentry
  have hreach : c.Reaches (c.advance 1) := .advance (by simp [hrest])
  have hslice : slice s.text st.place.offset (st.place.offset + 1)
      = .ok (c.upTo (c.advance 1)) := by
    rw [h.place_eq]
    exact slice_upTo hc hreach
  refine ⟨⟨(c.advance 1).place, tokens,
    some { run with buffer := run.buffer ++ c.upTo (c.advance 1) }⟩, ?_, ?_⟩
  · rw [takeChar, hresume, ok_bind, hslice, h.place_eq]
    rfl
  · rw [hlevel]
    refine ⟨rfl, by simp, .some ⟨?_, hrun.start_eq, hrun.reaches.trans hreach, hrun.entry⟩⟩
    rw [← hrun.reaches.upTo_append hreach, hrun.buffer_eq]

end Tracks

/-! ### Fixed texts -/

/-- The fixed text was found under the number of its rule. -/
structure Names (t : Tokenizer κ) (m : Found) (fm : FixedMatch κ) : Prop where
  rule : ∃ rule, t.rules[m.rule]? = some rule ∧ rule.fixed? = some fm.text
  consumed_eq : m.consumed = fm.length
  endsLine_eq : m.endsLine = fm.breaksLine

/-- The first entry that goes on with what stands there is found. -/
lemma findCandidate_eq (hc : (Cursor.ofText s.text).Reaches c) {n : ℕ} (hn : n ≤ c.rest.length)
    (entries : List (ℕ × FixedText κ)) :
    s.findCandidate (c.offset + n) (entries.map fun entry => entry.2.candidate entry.1)
      = .ok ((entries.find? (·.2.marker.tail.isPrefixOf (c.rest.drop n))).map
        fun entry => entry.2.candidate entry.1) := by
  induction entries with
  | nil => rfl
  | cons entry entries ih =>
      have htail : slice entry.2.marker.chars 1 entry.2.marker.chars.length
          = .ok entry.2.marker.tail := by
        simp [slice, Marker.chars]
      simp only [List.map_cons, findCandidate, FixedText.candidate, htail, ok_bind,
        matchesAt_eq hc hn, List.find?_cons]
      split
      · rename_i hmatch
        rw [hmatch]
        rfl
      · rename_i hmatch
        rw [Bool.eq_false_iff.mpr hmatch]
        exact ih

/-- The fixed text, in the two forms in which it is looked up. -/
structure Stands (t : Tokenizer κ) (k : Candidate) (f : FixedText κ) : Prop where
  rule : ∃ rule, t.rules[k.rule]? = some rule ∧ rule.fixed? = some f
  text_eq : k.text = f.marker.chars
  endsLine_eq : k.endsLine = f.breaksLine

/-- The first candidate that goes on with what stands there is what the index finds. -/
lemma exists_findCandidate (hs : s.Works t) (hc : (Cursor.ofText s.text).Reaches c) {n : ℕ}
    (hn : n ≤ c.rest.length) (lead : Char) :
    ∃ found, s.findCandidate (c.offset + n) (s.index.candidatesFrom lead) = .ok found ∧
      Option.Rel (Stands t) found (t.index.fixedFrom? lead (c.rest.drop n)) := by
  obtain ⟨hcandidates, htexts⟩ := t.candidatesFrom_numbered lead
  rw [← hs.index_eq] at hcandidates
  rw [hcandidates, MatchIndex.fixedFrom?, htexts, List.find?_map]
  refine ⟨_, findCandidate_eq hc hn _, ?_⟩
  cases hfind : (entriesFrom t.rules lead).find? (·.2.marker.tail.isPrefixOf (c.rest.drop n)) with
  | none =>
      have hnone : (entriesFrom t.rules lead).find?
          ((fun f : FixedText κ => f.marker.tail.isPrefixOf (c.rest.drop n)) ∘ (·.2))
            = none := hfind
      rw [hnone]
      exact .none
  | some entry =>
      have hsome : (entriesFrom t.rules lead).find?
          ((fun f : FixedText κ => f.marker.tail.isPrefixOf (c.rest.drop n)) ∘ (·.2))
            = some entry := hfind
      have hrule := getElem?_of_mem_entriesFrom (List.mem_of_find?_eq_some hfind)
      rw [hsome]
      exact .some ⟨hrule, rfl, rfl⟩

/-- What is found at a place, by how many characters the escape character before it takes. -/
lemma names_of_stands {found : Option Candidate} {f : Option (FixedText κ)}
    (h : Option.Rel (Stands t) found f) (escaped : Bool) :
    Option.Rel (Names t)
      (found.map fun k => ⟨k.rule, escaped.toNat + k.text.length, k.endsLine && escaped.toNat == 0⟩)
      (f.map (⟨·, escaped⟩)) := by
  cases h with
  | none => exact .none
  | some hk =>
      refine .some ⟨hk.rule, ?_, ?_⟩
      · simp only [hk.text_eq, FixedMatch.length, Marker.length]
        cases escaped <;> rfl
      · simp only [hk.endsLine_eq, FixedMatch.breaksLine]
        cases escaped <;> rfl

/-- **The fixed text** that is found at a place is the one that the index finds. -/
lemma exists_bestFixed (hs : s.Works t) (hc : (Cursor.ofText s.text).Reaches c) :
    ∃ found, s.bestFixed c.place = .ok found ∧
      Option.Rel (Names t) found (t.index.fixedAt? c.rest) := by
  cases hrest : c.rest with
  | nil =>
      refine ⟨none, ?_, .none⟩
      rw [bestFixed, Cursor.offset_place, getElem?_end hc hrest]
  | cons ch after =>
      have hone : 1 ≤ c.rest.length := by simp [hrest]
      obtain ⟨plain, hplain, hstands⟩ := exists_findCandidate hs hc hone ch
      have hdrop : c.rest.drop 1 = after := by simp [hrest]
      rw [hdrop] at hstands
      simp only [bestFixed, Cursor.offset_place, getElem?_here hc hrest, getElem?_next hc hrest]
      cases after with
      | nil =>
          simp only [List.getElem?_nil, Nat.add_zero, hplain, ok_bind]
          exact ⟨_, rfl, names_of_stands hstands false⟩
      | cons next rest =>
          simp only [List.getElem?_cons_zero, hs.index_eq, t.isEscape_numbered]
          rw [← hs.index_eq]
          cases hescape : t.index.isEscape ch with
          | false =>
              rw [MatchIndex.fixedAt?_of_not_escape hescape]
              simp only [Bool.false_eq_true, if_false, Nat.add_zero, hplain, ok_bind]
              exact ⟨_, rfl, names_of_stands hstands false⟩
          | true =>
              have htwo : 2 ≤ c.rest.length := by simp [hrest]
              obtain ⟨found, hfound, hstands⟩ := exists_findCandidate hs hc htwo (unescape next)
              have hdrop : c.rest.drop 2 = rest := by simp [hrest]
              rw [hdrop] at hstands
              rw [MatchIndex.fixedAt?_of_escape hescape]
              simp only [if_true, Nat.add_assoc, hfound, ok_bind]
              exact ⟨_, rfl, names_of_stands hstands true⟩

section Fixed

variable {fuel : ℕ} {recur : Recur κ} {m : Found} {fm : FixedMatch κ}

/-- The number under which a fixed text was found is that of its rule, -/
lemma exists_rule_eq (hs : s.Works t) (hm : Names t m fm) :
    ∃ rule, s.rule m.rule = .ok rule ∧ rule.fixed? = some fm.text := by
  obtain ⟨rule, hn, hrule⟩ := hm.rule
  rw [← hs.rules_eq] at hn
  exact ⟨rule, by simp only [Scanner.rule, hn], hrule⟩

/-- and the closing markers are found under it. -/
lemma closingsOf_eq (hs : s.Works t) (hm : Names t m fm) :
    s.closingsOf m.rule = .ok (fm.text.inside.closings.map Marker.chars) := by
  obtain ⟨rule, hn, hrule⟩ := hm.rule
  have hends := t.closings_numbered hn hrule
  rw [← hs.index_eq] at hends
  simp only [closingsOf, hends]

/-- The opening marker, or the literal. -/
lemma slice_fixed (hc : (Cursor.ofText s.text).Reaches c) (hm : Names t m fm)
    (hfixed : t.index.fixedAt? c.rest = some fm) :
    slice s.text c.offset (c.offset + m.consumed) = .ok (c.upTo (fm.stop c)) := by
  have hslice := slice_upTo hc (FixedMatch.reaches_stop_of_fixedAt? hfixed)
  rw [FixedMatch.stop, Cursor.offset_skip] at hslice
  rw [hm.consumed_eq, hslice]
  rfl

/-- The place behind it. -/
lemma skip_fixed (hm : Names t m fm) (c : Cursor) :
    c.place.skip m.consumed m.endsLine = (fm.stop c).place := by
  rw [hm.consumed_eq, hm.endsLine_eq, ← Cursor.place_skip]
  rfl

/-- The token of a literal. -/
lemma scanFixed_literal (hs : s.Works t) (hc : (Cursor.ofText s.text).Reaches c)
    (hm : Names t m fm) (hfixed : t.index.fixedAt? c.rest = some fm)
    (hi : fm.text.inside = .nothing) :
    s.scanFixed fuel recur m c.place = .ok (fm.literalAt c, (fm.stop c).place) := by
  obtain ⟨rule, hn, hrule⟩ := exists_rule_eq hs hm
  have hshape := Rule.eq_of_fixed? hrule
  rw [hi] at hshape
  obtain ⟨text, rfl⟩ := hshape
  simp only [scanFixed, Cursor.offset_place, slice_fixed hc hm hfixed, skip_fixed hm, hn, ok_bind,
    spanFrom_eq (FixedMatch.reaches_stop_of_fixedAt? hfixed)]
  rfl

/-- The token of a section whose inside is taken as it stands. -/
lemma scanFixed_raw (hs : s.Works t) (hc : (Cursor.ofText s.text).Reaches c) (hm : Names t m fm)
    (hfixed : t.index.fixedAt? c.rest = some fm) {ends : List Marker}
    (hi : fm.text.inside = .raw ends) (hfuel : s.text.length < fuel) :
    s.scanFixed fuel recur m c.place = match t.index.capture ends (fm.stop c) with
      | .error stop => .error (.error (.unterminatedSection c.position stop))
      | .ok r => .ok (fm.rawAt c r, r.stop.place) := by
  obtain ⟨rule, hn, hrule⟩ := exists_rule_eq hs hm
  have hshape := Rule.eq_of_fixed? hrule
  rw [hi] at hshape
  obtain ⟨opening, closings, rfl⟩ := hshape
  have hreach := FixedMatch.reaches_stop_of_fixedAt? hfixed
  simp only [scanFixed, Cursor.offset_place, slice_fixed hc hm hfixed, skip_fixed hm, hn, ok_bind,
    Cursor.position_place, closingsOf_eq hs hm, hi, Inside.closings,
    loop_capture hs (hc.trans hreach) hfuel]
  cases hr : t.index.capture ends (fm.stop c) with
  | error stop => rfl
  | ok r =>
      obtain ⟨hclosing, hstop⟩ := MatchIndex.capture_reaches hr
      simp only [ok_bind, spanFrom_eq ((hreach.trans hclosing).trans hstop)]
      rfl

/-- The token of a nested section, when its inside is over at `closing`. -/
lemma closeNested_eq (hc : (Cursor.ofText s.text).Reaches c) (hreach : c.Reaches (fm.stop c))
    {closing : Cursor} (hclosing : (fm.stop c).Reaches closing) (ends : List Marker)
    (inner : TokenList κ) :
    s.closeNested fm.text.kind c.place (c.upTo (fm.stop c)) (ends.map Marker.chars) inner
        closing.place
      = match Marker.firstAt? ends closing.rest with
        | none => .error (.error (.unterminatedSection c.position closing.position))
        | some marker => .ok (fm.nestedAt c closing marker inner, (closing.past marker).place) := by
  have htext := (hc.trans hreach).trans hclosing
  simp only [closeNested, Cursor.offset_place, matchAnyAt_here htext]
  cases hm : Marker.firstAt? ends closing.rest with
  | none => rfl
  | some marker =>
      have hslice := slice_upTo htext (.past hm)
      rw [Cursor.offset_past] at hslice
      simp only [Option.map_some, hslice, pastMarker_eq htext (Marker.occursAt_of_firstAt? hm),
        ok_bind, spanFrom_eq ((hreach.trans hclosing).trans (.past hm)), FixedMatch.nestedAt,
        Token.section, Option.isSome_none, Bool.false_eq_true, if_false, List.append_nil]
      rfl

/-- A nested section: its inside is scanned as a level, and then it closes. -/
lemma scanFixed_nested (hs : s.Works t) (hc : (Cursor.ofText s.text).Reaches c)
    (hm : Names t m fm) (hfixed : t.index.fixedAt? c.rest = some fm) {ends : List Marker}
    (hi : fm.text.inside = .nested ends) :
    s.scanFixed fuel recur m c.place = (do
      let (inner, closing) ← recur (ends.map Marker.chars) (fm.stop c).place
      s.closeNested fm.text.kind c.place (c.upTo (fm.stop c)) (ends.map Marker.chars) inner
        closing) := by
  obtain ⟨rule, hn, hrule⟩ := exists_rule_eq hs hm
  have hshape := Rule.eq_of_fixed? hrule
  rw [hi] at hshape
  obtain ⟨opening, closings, rfl⟩ := hshape
  simp only [scanFixed, Cursor.offset_place, slice_fixed hc hm hfixed, skip_fixed hm, hn, ok_bind,
    closingsOf_eq hs hm, hi, Inside.closings]

/-- The level with the token of a fixed text. -/
lemma takeFixed_eq {st : Scanned κ} {level : Level κ} (hs : s.Works t) (h : Tracks t st level c)
    (hm : Names t m fm) :
    s.takeFixed fuel recur m st = (do
      let (token, place) ← s.scanFixed fuel recur m c.place
      .ok ⟨place, if fm.text.discard then level.tokensUpTo c else level.tokensUpTo c ++ [token],
        none⟩) := by
  obtain ⟨rule, hn, hrule⟩ := exists_rule_eq hs hm
  have hdiscards : rule.discards = fm.text.discard :=
    (Rule.kind?_of_pattern (Rule.fixed?_eq_some_iff.mp hrule)).2
  rw [takeFixed, h.flush_eq hs, ok_bind, hn, ok_bind, hdiscards, h.place_eq]

end Fixed

end Scanner

end RuleLexer
