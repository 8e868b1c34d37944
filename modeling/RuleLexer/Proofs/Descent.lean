import RuleLexer.Proofs.Spanwise

/-!
Where the scan of a level comes to, and where it stops with an error.

* `Descends`: the scan of a level comes to a place, on the level itself or in a section open there;
* `FailsAt`: the ways in which a scan stops at a place with an error;
* `Spanwise.level_eq_error_iff`: the scan of a level fails just if it descends to a place where it
  stops in one of them;
* `Descends.covers_or_failsAt`: a scan that descends to the end of the text comes to its end there, or
  it fails for a section that is open.
-/

namespace RuleLexer

variable {κ : Type}

/-- The scan of the level from `c` on that `closings` end comes to the place `d` of a level that
`inner` end. That is the same level, or the one inside a section that is open at `d`. -/
inductive Descends (ix : MatchIndex κ) (inner : List Marker) (d : Cursor) :
    List Marker → Cursor → Prop where
  | here : Descends ix inner d inner d
  | run {closings : List Marker} {c : Cursor} {r : CharRun κ} {n : ℕ}
      (h : ix.ahead closings c.rest = .run r n)
      (more : Descends ix inner d closings (c.advance n)) : Descends ix inner d closings c
  | literal {closings : List Marker} {c : Cursor} {m : FixedMatch κ}
      (h : ix.ahead closings c.rest = .fixed m) (hi : m.text.inside = .nothing)
      (more : Descends ix inner d closings (m.stop c)) : Descends ix inner d closings c
  | raw {closings ends : List Marker} {c : Cursor} {m : FixedMatch κ} {r : Captured}
      (h : ix.ahead closings c.rest = .fixed m) (hi : m.text.inside = .raw ends)
      (hr : ix.capture ends (m.stop c) = .ok r)
      (more : Descends ix inner d closings r.stop) : Descends ix inner d closings c
  /-- A nested section is passed over. -/
  | nested {closings ends : List Marker} {c closing : Cursor} {m : FixedMatch κ} {marker : Marker}
      {tokens : TokenList κ}
      (h : ix.ahead closings c.rest = .fixed m) (hi : m.text.inside = .nested ends)
      (inside : Covers ix ends (m.stop c) tokens closing)
      (hm : Marker.firstAt? ends closing.rest = some marker)
      (more : Descends ix inner d closings (closing.past marker)) : Descends ix inner d closings c
  /-- A nested section is entered and not left again. -/
  | enter {closings ends : List Marker} {c : Cursor} {m : FixedMatch κ}
      (h : ix.ahead closings c.rest = .fixed m) (hi : m.text.inside = .nested ends)
      (inside : Descends ix inner d ends (m.stop c)) : Descends ix inner d closings c

/-- The scan of a level that `closings` end stops at its place `d` with an error. -/
inductive FailsAt (ix : MatchIndex κ) (closings : List Marker) (d : Cursor) : ScanError → Prop where
  /-- No rule matches. -/
  | nothing (h : ix.ahead closings d.rest = .nothing) :
      FailsAt ix closings d (.unexpected d.rest d.position)
  /-- A section begins that is taken as it stands, and does not close. -/
  | raw {m : FixedMatch κ} {ends : List Marker} {stop : Position}
      (h : ix.ahead closings d.rest = .fixed m) (hi : m.text.inside = .raw ends)
      (hr : ix.capture ends (m.stop d) = .error stop) :
      FailsAt ix closings d (.unterminatedSection d.position stop)
  /-- A nested section begins, and with its inside the text is over. -/
  | nested {m : FixedMatch κ} {ends : List Marker} {stop : Cursor} {tokens : TokenList κ}
      (h : ix.ahead closings d.rest = .fixed m) (hi : m.text.inside = .nested ends)
      (inside : Covers ix ends (m.stop d) tokens stop) (hstop : stop.rest = []) :
      FailsAt ix closings d (.unterminatedSection d.position stop.position)

/-- No marker stands at the end of the text. -/
lemma Marker.firstAt?_nil (markers : List Marker) : firstAt? markers [] = none :=
  List.find?_eq_none.mpr fun m _ hoccurs => by simp [occursAt_iff, chars] at hoccurs

section Level

variable {ix : MatchIndex κ} {inner closings : List Marker} {c d stop : Cursor} {e : ScanError}

/-- Where a level ends and no closing marker stands the text is over. -/
lemma Covers.rest_eq_nil {tokens : TokenList κ} (h : Covers ix closings c tokens stop)
    (hnone : Marker.firstAt? closings stop.rest = none) : stop.rest = [] := by
  have hend := MatchIndex.describes_of_ahead h.ahead_stop
  simpa [MatchIndex.Describes, hnone] using hend

/-- The scan of a level that begins at the place fails there. -/
lemma FailsAt.level_eq (h : FailsAt ix closings d e) :
    Spanwise.level ix closings d = .error e := by
  cases h with
  | nothing h => exact Spanwise.level_of_nothing h
  | raw h hi hr =>
      rw [Spanwise.level_of_fixed h, hi]
      simp only [hr]
  | nested h hi inside hstop =>
      rw [Spanwise.level_of_fixed h, hi]
      simp only [level_of_covers inside, Stretch.stop_upTo inside.reaches, hstop,
        Marker.firstAt?_nil]

namespace Descends

/-- Where the level at `d` goes on, so do the levels on the way. -/
lemma ahead_ne (h : Descends ix inner d closings c)
    (hgoes : ix.ahead inner d.rest ≠ .levelEnd) : ix.ahead closings c.rest ≠ .levelEnd := by
  cases h with
  | here => exact hgoes
  | run h more => simp [h]
  | literal h hi more => simp [h]
  | raw h hi hr more => simp [h]
  | nested h hi inside hm more => simp [h]
  | enter h hi inside => simp [h]

/-- An error at the place is the error of the level. -/
lemma level_eq (h : Descends ix inner d closings c)
    (he : Spanwise.level ix inner d = .error e) : Spanwise.level ix closings c = .error e := by
  induction h with
  | here => exact he
  | run h more ih =>
      rw [Spanwise.level_of_run h, ih]
      rfl
  | literal h hi more ih =>
      rw [Spanwise.level_of_fixed h, hi]
      simp only [ih]
      rfl
  | raw h hi hr more ih =>
      rw [Spanwise.level_of_fixed h, hi]
      simp only [hr, ih]
      rfl
  | nested h hi inside hm more ih =>
      rw [Spanwise.level_of_fixed h, hi]
      simp only [level_of_covers inside, Stretch.stop_upTo inside.reaches, hm, ih]
      rfl
  | enter h hi inside ih =>
      rw [Spanwise.level_of_fixed h, hi]
      simp only [ih]

/-- A scan that descends to the end of the text comes to its end there, unless a section is open. -/
theorem covers_or_failsAt (h : Descends ix inner d closings c) (hd : d.rest = []) :
    (∃ tokens, Covers ix closings c tokens d) ∨ ∃ inner' d', Descends ix inner' d' closings c ∧
      FailsAt ix inner' d' (.unterminatedSection d'.position d.position) := by
  induction h with
  | here => exact .inl ⟨[], .levelEnd (by rw [hd]; rfl)⟩
  | run h more ih =>
      rcases ih with ⟨tokens, hcovers⟩ | ⟨inner', d', hmore, hfails⟩
      · exact .inl ⟨_, .run h hcovers⟩
      · exact .inr ⟨inner', d', .run h hmore, hfails⟩
  | literal h hi more ih =>
      rcases ih with ⟨tokens, hcovers⟩ | ⟨inner', d', hmore, hfails⟩
      · exact .inl ⟨_, .literal h hi hcovers⟩
      · exact .inr ⟨inner', d', .literal h hi hmore, hfails⟩
  | raw h hi hr more ih =>
      rcases ih with ⟨tokens, hcovers⟩ | ⟨inner', d', hmore, hfails⟩
      · exact .inl ⟨_, .raw h hi hr hcovers⟩
      · exact .inr ⟨inner', d', .raw h hi hr hmore, hfails⟩
  | nested h hi inside hm more ih =>
      rcases ih with ⟨tokens, hcovers⟩ | ⟨inner', d', hmore, hfails⟩
      · exact .inl ⟨_, .nested h hi inside hm hcovers⟩
      · exact .inr ⟨inner', d', .nested h hi inside hm hmore, hfails⟩
  | @enter closings ends c m h hi inside ih =>
      rcases ih with ⟨tokens, hcovers⟩ | ⟨inner', d', hmore, hfails⟩
      · exact .inr ⟨closings, c, .here, .nested h hi hcovers hd⟩
      · exact .inr ⟨inner', d', .enter h hi hmore, hfails⟩

end Descends

namespace Spanwise

/-- The scan of a level that fails descends to a place where it stops. -/
theorem exists_failsAt (h : level ix closings c = .error e) :
    ∃ inner d, Descends ix inner d closings c ∧ FailsAt ix inner d e := by
  fun_induction level ix closings c with
  | case1 => cases h
  | case2 closings c hahead =>
      obtain rfl := Except.error.inj h
      exact ⟨closings, c, .here, .nothing hahead⟩
  | case3 closings c r n hahead ih =>
      obtain ⟨inner, d, hd, hfails⟩ := ih (error_of_map_eq h)
      exact ⟨inner, d, .run hahead hd, hfails⟩
  | case4 closings c m hahead hi ih =>
      obtain ⟨inner, d, hd, hfails⟩ := ih (error_of_map_eq h)
      exact ⟨inner, d, .literal hahead hi hd, hfails⟩
  | case5 closings c m hahead ends hi stop hr =>
      obtain rfl := Except.error.inj h
      exact ⟨closings, c, .here, .raw hahead hi hr⟩
  | case6 closings c m hahead ends hi r hr ih =>
      obtain ⟨inner, d, hd, hfails⟩ := ih (error_of_map_eq h)
      exact ⟨inner, d, .raw hahead hi hr hd, hfails⟩
  | case7 closings c m hahead ends hi e' he' ih =>
      obtain rfl := Except.error.inj h
      obtain ⟨inner, d, hd, hfails⟩ := ih he'
      exact ⟨inner, d, .enter hahead hi hd, hfails⟩
  | case8 closings c m hahead ends hi s hs hm ih =>
      obtain rfl := Except.error.inj h
      have hinside := covers_of_level hs
      exact ⟨closings, c, .here, .nested hahead hi hinside (hinside.rest_eq_nil hm)⟩
  | case9 closings c m hahead ends hi s hs marker hm ihinner ih =>
      obtain ⟨inner, d, hd, hfails⟩ := ih (error_of_map_eq h)
      exact ⟨inner, d, .nested hahead hi (covers_of_level hs) hm hd, hfails⟩

/-- **The source of an error**: the scan of a level fails with an error just if it descends to a
place where it stops with this error. -/
theorem level_eq_error_iff : level ix closings c = .error e ↔
    ∃ inner d, Descends ix inner d closings c ∧ FailsAt ix inner d e :=
  ⟨exists_failsAt, fun ⟨_, _, hd, hfails⟩ => hd.level_eq hfails.level_eq⟩

end Spanwise

end Level

end RuleLexer
