import RuleLexer.Proofs.Refinement

/-!
Indices that find the same everywhere, though they may keep their closing markers in different
orders.

* `Marker.Alike`: markers that are looked for with the same result everywhere;
* `Inside.Alike`, `FixedText.Alike`, `MatchIndex.Alike`: the same for what is inside a section, for a
  fixed text and for an index;
* `MatchIndex.Alike.ahead`, `MatchIndex.Alike.capture_eq`: what stands at a place, and the inside of a
  section that is taken as it stands, are the same by indices that are alike;
* `level_eq_of_alike`: so is a whole level.
-/

namespace RuleLexer

variable {κ : Type}

/-! ### What is looked for -/

/-- The markers are looked for with the same result everywhere. -/
def Marker.Alike (markers markers' : List Marker) : Prop :=
  ∀ rest, firstAt? markers rest = firstAt? markers' rest

/-- The insides are of the same form, and are closed by the same markers everywhere. -/
inductive Inside.Alike : Inside → Inside → Prop
  | nothing : Alike nothing nothing
  | nested {closings closings' : List Marker} (h : Marker.Alike closings closings') :
      Alike (nested closings) (nested closings')
  | raw {closings closings' : List Marker} (h : Marker.Alike closings closings') :
      Alike (raw closings) (raw closings')

/-- The fixed texts are the same, but for the order of markers that close them. -/
structure FixedText.Alike (f g : FixedText κ) : Prop where
  marker : f.marker = g.marker
  kind : f.kind = g.kind
  discard : f.discard = g.discard
  inside : f.inside.Alike g.inside

lemma Inside.Alike.refl (inside : Inside) : inside.Alike inside := by
  cases inside with
  | nothing => exact .nothing
  | nested closings => exact .nested fun _ => rfl
  | raw closings => exact .raw fun _ => rfl

lemma FixedText.Alike.refl (f : FixedText κ) : f.Alike f :=
  ⟨rfl, rfl, rfl, .refl _⟩

namespace Inside.Alike

variable {a b : Inside} {closings : List Marker}

lemma eq_nothing_iff (h : a.Alike b) : a = .nothing ↔ b = .nothing := by
  cases h <;> simp

lemma exists_nested (h : a.Alike b) (ha : a = .nested closings) :
    ∃ closings', b = .nested closings' ∧ Marker.Alike closings closings' := by
  subst ha
  cases h with
  | nested h => exact ⟨_, rfl, h⟩

lemma exists_raw (h : a.Alike b) (ha : a = .raw closings) :
    ∃ closings', b = .raw closings' ∧ Marker.Alike closings closings' := by
  subst ha
  cases h with
  | raw h => exact ⟨_, rfl, h⟩

end Inside.Alike

/-- Matching the one ends the line just when matching the other does. -/
lemma FixedText.Alike.breaksLine_eq {f g : FixedText κ} (h : f.Alike g) :
    f.breaksLine = g.breaksLine := by
  simp only [breaksLine, h.marker, h.inside.eq_nothing_iff]

/-- What is found is the same, but for the order of closing markers. -/
structure MatchIndex.Alike (ix ix' : MatchIndex κ) : Prop where
  runs : ix.runs = ix'.runs
  isEscape : ∀ c, ix.isEscape c = ix'.isEscape c
  lineEnds : Marker.Alike ix.lineEnds ix'.lineEnds
  fixedFrom : ∀ lead after,
    Option.Rel FixedText.Alike (ix.fixedFrom? lead after) (ix'.fixedFrom? lead after)

/-! ### What is found at a place -/

/-- The matches are the same, but for the order of closing markers. -/
structure FixedMatch.Alike (m m' : FixedMatch κ) : Prop where
  text : m.text.Alike m'.text
  escaped : m.escaped = m'.escaped

/-- What is ahead is the same, but for the order of closing markers. -/
inductive Ahead.Alike : Ahead κ → Ahead κ → Prop
  | levelEnd : Alike levelEnd levelEnd
  | fixed {m m' : FixedMatch κ} (h : m.Alike m') : Alike (fixed m) (fixed m')
  | run (r : CharRun κ) (n : ℕ) : Alike (run r n) (run r n)
  | nothing : Alike nothing nothing

lemma Marker.Alike.distance_eq {closings closings' : List Marker} (h : Alike closings closings')
    (rest : List Char) : distance closings rest = distance closings' rest := by
  induction rest with
  | nil => rfl
  | cons c after ih => rw [distance, distance, h, ih]

namespace FixedMatch.Alike

variable {m m' : FixedMatch κ}

lemma length_eq (h : m.Alike m') : m.length = m'.length := by
  rw [FixedMatch.length, FixedMatch.length, h.escaped, h.text.marker]

lemma stop_eq (h : m.Alike m') (c : Cursor) : m.stop c = m'.stop c := by
  simp only [FixedMatch.stop, FixedMatch.breaksLine, h.length_eq, h.escaped, h.text.breaksLine_eq]

lemma literalAt_eq (h : m.Alike m') (c : Cursor) : m.literalAt c = m'.literalAt c := by
  rw [literalAt, literalAt, h.stop_eq, h.text.kind]

lemma rawAt_eq (h : m.Alike m') (c : Cursor) (r : Captured) : m.rawAt c r = m'.rawAt c r := by
  rw [rawAt, rawAt, h.stop_eq, h.text.kind]

lemma nestedAt_eq (h : m.Alike m') (c closing : Cursor) (marker : Marker) (inner : TokenList κ) :
    m.nestedAt c closing marker inner = m'.nestedAt c closing marker inner := by
  rw [nestedAt, nestedAt, h.stop_eq, h.text.kind]

end FixedMatch.Alike

namespace MatchIndex.Alike

variable {ix ix' : MatchIndex κ} {closings closings' : List Marker}

lemma fixedAt? (h : ix.Alike ix') (rest : List Char) :
    Option.Rel FixedMatch.Alike (ix.fixedAt? rest) (ix'.fixedAt? rest) := by
  have hmap : ∀ (escaped : Bool) lead after, Option.Rel FixedMatch.Alike
      ((ix.fixedFrom? lead after).map (⟨·, escaped⟩))
      ((ix'.fixedFrom? lead after).map (⟨·, escaped⟩)) := by
    intro escaped lead after
    have hrel := h.fixedFrom lead after
    generalize ix.fixedFrom? lead after = found, ix'.fixedFrom? lead after = found' at hrel
    cases hrel with
    | some hfg => exact .some ⟨hfg, rfl⟩
    | none => exact .none
  match rest with
  | [] => exact .none
  | [c] => exact hmap false c []
  | c :: next :: after =>
      simp only [MatchIndex.fixedAt?, h.isEscape]
      split
      · exact hmap true _ _
      · exact hmap false _ _

/-- What stands at a place is the same. -/
lemma ahead (h : ix.Alike ix') (hclosings : Marker.Alike closings closings') (rest : List Char) :
    (ix.ahead closings rest).Alike (ix'.ahead closings' rest) := by
  have hfor : ∀ c, ix.runFor? c = ix'.runFor? c := fun c => by rw [runFor?, runFor?, h.runs]
  have hplace : ∀ c, ix.runPlace? c = ix'.runPlace? c := fun c => by
    rw [runPlace?, runPlace?, h.runs]
  cases rest with
  | nil => exact .levelEnd
  | cons c after =>
      have hspan : ix.spanLength closings (ix.runPlace? c) (c :: after)
          = ix'.spanLength closings' (ix'.runPlace? c) (c :: after) := by
        simp only [spanLength, hplace, hclosings.distance_eq]
      simp only [MatchIndex.ahead, hclosings (c :: after), hspan, hfor]
      split
      · exact .levelEnd
      · have hrel := h.fixedAt? (c :: after)
        generalize ix.fixedAt? (c :: after) = found, ix'.fixedAt? (c :: after) = found' at hrel
        cases hrel with
        | some hm => exact .fixed hm
        | none =>
            cases ix'.runFor? c with
            | some r => exact .run r _
            | none => exact .nothing

lemma ahead_eq (h : ix.Alike ix') (hclosings : Marker.Alike closings closings')
    {rest : List Char} {a : Ahead κ} (ha : ix.ahead closings rest = a) (hne : ∀ m, a ≠ .fixed m) :
    ix'.ahead closings' rest = a := by
  have halike := h.ahead hclosings rest
  rw [ha] at halike
  generalize ix'.ahead closings' rest = a' at halike ⊢
  cases halike with
  | fixed _ => exact absurd rfl (hne _)
  | _ => rfl

lemma ahead_fixed (h : ix.Alike ix') (hclosings : Marker.Alike closings closings')
    {rest : List Char} {m : FixedMatch κ} (ha : ix.ahead closings rest = .fixed m) :
    ∃ m', ix'.ahead closings' rest = .fixed m' ∧ m.Alike m' := by
  have halike := h.ahead hclosings rest
  rw [ha] at halike
  generalize ix'.ahead closings' rest = a' at halike ⊢
  cases halike with
  | fixed hm => exact ⟨_, rfl, hm⟩

/-- An inside that is taken as it stands is the same. -/
lemma capture_eq (h : ix.Alike ix') {ends ends' : List Marker} (hends : Marker.Alike ends ends')
    (c : Cursor) : ix.capture ends c = ix'.capture ends' c := by
  have hescape : ∀ rest, ix.escapePiece rest = ix'.escapePiece rest := by
    intro rest
    cases rest with
    | nil => rfl
    | cons next rest => simp only [escapePiece, h.lineEnds (next :: rest)]
  have hstep : ∀ rest, ix.rawStep ends rest = ix'.rawStep ends' rest := by
    intro rest
    cases rest with
    | nil => rfl
    | cons d after => rw [rawStep, rawStep, h.isEscape, hescape, hends, h.lineEnds]
  rw [capture, capture]
  generalize ([] : List Char) = decoded
  fun_induction captureFrom ix ends decoded c with
  | case1 decoded c hr => rw [captureFrom_eq, ← hstep, hr]
  | case2 decoded c m hr => rw [captureFrom_eq, ← hstep, hr]
  | case3 decoded c p hr ih =>
      rw [captureFrom_eq ix' ends' decoded c, ← hstep, hr]
      exact ih

end MatchIndex.Alike

/-! ### Levels -/

/-- **Levels**: indices that are alike scan a level alike. -/
theorem level_eq_of_alike {ix ix' : MatchIndex κ} (h : ix.Alike ix')
    {closings closings' : List Marker} (hclosings : Marker.Alike closings closings') (c : Cursor) :
    Spanwise.level ix closings c = Spanwise.level ix' closings' c := by
  fun_induction Spanwise.level ix closings c generalizing closings' with
  | case1 closings c hahead =>
      exact (Spanwise.level_of_levelEnd (h.ahead_eq hclosings hahead (by simp))).symm
  | case2 closings c hahead =>
      exact (Spanwise.level_of_nothing (h.ahead_eq hclosings hahead (by simp))).symm
  | case3 closings c r n hahead ih =>
      rw [Spanwise.level_of_run (h.ahead_eq hclosings hahead (by simp)), ih hclosings]
  | case4 closings c m hahead hi ih =>
      obtain ⟨m', hahead', hm⟩ := h.ahead_fixed hclosings hahead
      have hi' := hm.text.inside.eq_nothing_iff.mp hi
      rw [Spanwise.level_of_fixed hahead', hi', ih hclosings]
      simp only [hm.stop_eq, hm.literalAt_eq, hm.text.discard]
  | case5 closings c m hahead ends hi stop hr =>
      obtain ⟨m', hahead', hm⟩ := h.ahead_fixed hclosings hahead
      obtain ⟨ends', hi', hends⟩ := hm.text.inside.exists_raw hi
      rw [h.capture_eq hends, hm.stop_eq] at hr
      rw [Spanwise.level_of_fixed hahead', hi']
      simp only [hr]
  | case6 closings c m hahead ends hi r hr ih =>
      obtain ⟨m', hahead', hm⟩ := h.ahead_fixed hclosings hahead
      obtain ⟨ends', hi', hends⟩ := hm.text.inside.exists_raw hi
      rw [h.capture_eq hends, hm.stop_eq] at hr
      rw [Spanwise.level_of_fixed hahead', hi', ih hclosings]
      simp only [hr, hm.rawAt_eq, hm.text.discard]
  -- the level inside is the same, so the same marker is looked for where it ends
  | case7 closings c m hahead ends hi e he ih =>
      obtain ⟨m', hahead', hm⟩ := h.ahead_fixed hclosings hahead
      obtain ⟨ends', hi', hends⟩ := hm.text.inside.exists_nested hi
      rw [ih hends, hm.stop_eq] at he
      rw [Spanwise.level_of_fixed hahead', hi']
      simp only [he]
  | case8 closings c m hahead ends hi inner hinner hnone ih =>
      obtain ⟨m', hahead', hm⟩ := h.ahead_fixed hclosings hahead
      obtain ⟨ends', hi', hends⟩ := hm.text.inside.exists_nested hi
      rw [ih hends, hm.stop_eq] at hinner
      rw [hm.stop_eq, hends] at hnone
      rw [Spanwise.level_of_fixed hahead', hi', hm.stop_eq]
      simp only [hinner, hnone]
  | case9 closings c m hahead ends hi inner hinner marker hsome ihinner ih =>
      obtain ⟨m', hahead', hm⟩ := h.ahead_fixed hclosings hahead
      obtain ⟨ends', hi', hends⟩ := hm.text.inside.exists_nested hi
      rw [ihinner hends, hm.stop_eq] at hinner
      rw [hm.stop_eq, hends] at hsome
      rw [Spanwise.level_of_fixed hahead', hi', ih hclosings]
      simp only [hinner, hsome, hm.stop_eq, hm.nestedAt_eq, hm.text.discard]

end RuleLexer
