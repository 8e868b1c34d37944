import RuleLexer.Json.Outline
import RuleLexer.Proofs.Json.Lexemes

/-!
A spelling of a value has the outline of the value.

* `Json.outline`: the outline of a value, which has no faults;
* `Outline.Progress.through`: how far a text has been taken apart behind some characters;
* `Outline.takes_of_spells`: behind a spelling its value is complete, whatever encloses it;
* `Outline.ofText_of_spelledBy`: a text that writes a value has the outline of the value, and
  nothing follows it;
* `Outline.read_outline`, `Outline.skip?_outline`: the outline of a value is read as the value if
  there is room for its depth, and passed over at any depth.
-/

namespace RuleLexer

/-! ### Outlines of values -/

namespace Json

mutual

/-- The outline of a value. -/
def outline : Json → Outline
  | .null => .null
  | .bool b => .bool b
  | .integer n => .integer n
  | .real x => .real x
  | .string s => .string s
  | .array items => .array (outlineItems items) none
  | .object members => .object (outlineMembers members) none

/-- The outlines of the items. -/
def outlineItems : List Json → List Outline
  | [] => []
  | v :: vs => v.outline :: outlineItems vs

/-- The keys and the outlines of the members. -/
def outlineMembers : List (String × Json) → List (Option String × Outline)
  | [] => []
  | (key, v) :: ms => (some key, v.outline) :: outlineMembers ms

end

lemma outlineItems_eq_map (vs : List Json) : outlineItems vs = vs.map outline := by
  induction vs with
  | nil => rfl
  | cons v vs ih => rw [outlineItems, ih, List.map_cons]

end Json

namespace Outline

/-! ### Taking texts apart -/

namespace Progress

/-- How far a text has been taken apart when `text` comes next. -/
def through (p : Progress) (text : List Char) : Progress :=
  (Lexeme.ofText text).foldl step p

lemma through_nil (p : Progress) : p.through [] = p := by
  rw [through, Lexeme.ofText]
  rfl

lemma through_blanks (p : Progress) {b : List Char} (hb : Blanks b) (rest : List Char) :
    p.through (b ++ rest) = p.through rest := by
  rw [through, Lexeme.ofText_blanks hb, through]

lemma through_of_ofText {p : Progress} {text rest : List Char} {l : Lexeme}
    (h : Lexeme.ofText text = l :: Lexeme.ofText rest) :
    p.through text = (p.step l).through rest := by
  rw [through, h, List.foldl_cons, through]

/-- A value must come, and `context` encloses it. The first item of an array is such a value. -/
def Awaits (p : Progress) (context : Context) : Prop :=
  ∀ l, l ≠ .closeArray → p.step l = beginValue context l

/-- A key must come. The first key of an object is such a key. -/
def AwaitsKey (p : Progress) (before : List (Option String × Outline)) (outer : Context) : Prop :=
  ∀ l, l ≠ .closeObject → p.step l = beginKey before outer l

lemma awaits_value (context : Context) : (value context).Awaits context :=
  fun _ _ => rfl

lemma awaits_firstItem (outer : Context) : (firstItem outer).Awaits (.item [] outer) := by
  intro l h
  cases l with
  | closeArray => exact absurd rfl h
  | _ => rfl

lemma awaitsKey_nextKey (before : List (Option String × Outline)) (outer : Context) :
    (nextKey before outer).AwaitsKey before outer :=
  fun _ _ => rfl

lemma awaitsKey_firstKey (outer : Context) : (firstKey outer).AwaitsKey [] outer := by
  intro l h
  cases l with
  | closeObject => exact absurd rfl h
  | _ => rfl

end Progress

open Progress

/-- What taking a text apart comes to behind the spelling `w` of a phrase. The parts of an array or
object are taken with the bracket that closes it. -/
def Takes (w : List Char) : Phrase → Prop
  | .value v | .element v => ∀ (p : Progress) (context : Context) (rest : List Char),
      p.Awaits context → Ends rest →
        p.through (w ++ rest) = (after v.outline context).through rest
  | .elements vs => ∀ (p : Progress) (before : List Outline) (outer : Context) (rest : List Char),
      p.Awaits (.item before outer) →
        p.through (w ++ ']' :: rest)
          = (after (.array (before.reverse ++ Json.outlineItems vs) none) outer).through rest
  | .member key v => ∀ (p : Progress) (before : List (Option String × Outline)) (outer : Context)
      (rest : List Char), p.AwaitsKey before outer → Ends rest →
        p.through (w ++ rest)
          = (after v.outline (.member before (some key) outer)).through rest
  | .members ms => ∀ (p : Progress) (before : List (Option String × Outline)) (outer : Context)
      (rest : List Char), p.AwaitsKey before outer →
        p.through (w ++ '\x7d' :: rest)
          = (after (.object (before.reverse ++ Json.outlineMembers ms) none) outer).through rest

/-- A value of one lexeme is complete behind it. -/
lemma Takes.of_lexeme {w : List Char} {v : Json} {l : Lexeme}
    (hl : ∀ rest, Ends rest → Lexeme.ofText (w ++ rest) = l :: Lexeme.ofText rest)
    (hstep : ∀ context, beginValue context l = after v.outline context) : Takes w (.value v) := by
  intro p context rest hp hrest
  have hne : l ≠ .closeArray := by
    rintro rfl
    exact nomatch hstep .whole
  rw [through_of_ofText (hl rest hrest), hp l hne, hstep]

lemma takes_of_spellsNumber {w : List Char} {v : Json} (h : SpellsNumber w v) :
    Takes w (.value v) := by
  cases h with
  | natural h hn => exact .of_lexeme (fun _ => Lexeme.ofText_natural h hn) fun _ => rfl
  | negative h hpos hn => exact .of_lexeme (fun _ => Lexeme.ofText_negative h hpos hn) fun _ => rfl
  | negativeZero => exact .of_lexeme (fun _ => Lexeme.ofText_negativeZero) fun _ => rfl

/-- Behind a spelling, its phrase is complete. -/
theorem takes_of_spells {w : List Char} {phrase : Phrase} (h : Spells w phrase) :
    Takes w phrase := by
  induction h with
  | null => exact .of_lexeme (fun rest _ => Lexeme.ofText_null rest) fun _ => rfl
  | true => exact .of_lexeme (fun rest _ => Lexeme.ofText_true rest) fun _ => rfl
  | false => exact .of_lexeme (fun rest _ => Lexeme.ofText_false rest) fun _ => rfl
  | number h => exact takes_of_spellsNumber h
  | @string w s h =>
      refine .of_lexeme (l := .string (some s)) (fun rest _ => ?_) fun _ => rfl
      rw [List.cons_append, List.append_assoc]
      exact Lexeme.ofText_string h rest
  | emptyArray hb =>
      intro p context rest hp _
      rw [List.cons_append, List.append_assoc, through_of_ofText (Lexeme.ofText_openArray _),
        hp _ (by simp), through_blanks _ hb]
      exact through_of_ofText (Lexeme.ofText_closeArray rest)
  | array _ ih =>
      intro p context rest hp _
      rw [List.cons_append, List.append_assoc, through_of_ofText (Lexeme.ofText_openArray _),
        hp _ (by simp)]
      exact ih _ [] context rest (awaits_firstItem context)
  | emptyObject hb =>
      intro p context rest hp _
      rw [List.cons_append, List.append_assoc, through_of_ofText (Lexeme.ofText_openObject _),
        hp _ (by simp), through_blanks _ hb]
      exact through_of_ofText (Lexeme.ofText_closeObject rest)
  | object _ ih =>
      intro p context rest hp _
      rw [List.cons_append, List.append_assoc, through_of_ofText (Lexeme.ofText_openObject _),
        hp _ (by simp)]
      exact ih _ [] context rest (awaitsKey_firstKey context)
  | element hb _ hb' ih =>
      intro p context rest hp hrest
      rw [List.append_assoc, List.append_assoc, through_blanks _ hb,
        ih p context _ hp (hrest.blanks hb'), through_blanks _ hb']
  | lastElement _ ih =>
      intro p before outer rest hp
      rw [ih p _ _ hp (ends_closeArray rest), through_of_ofText (Lexeme.ofText_closeArray rest),
        step, List.reverse_cons]
      rfl
  | elements _ _ ih ihmore =>
      intro p before outer rest hp
      rw [List.append_assoc, List.cons_append, ih p _ _ hp (ends_comma _),
        through_of_ofText (Lexeme.ofText_comma _)]
      refine (ihmore _ (_ :: before) outer rest (awaits_value _)).trans ?_
      rw [List.reverse_cons, List.append_assoc]
      rfl
  | @member b k b' w key v hb hkey hb' _ ih =>
      intro p before outer rest hp hrest
      have hkey := Lexeme.ofText_string hkey (b' ++ ':' :: (w ++ rest))
      simp only [List.append_assoc, List.cons_append]
      rw [through_blanks _ hb, through_of_ofText hkey, hp _ (by simp)]
      show (afterKey before (some key) outer).through _ = _
      rw [through_blanks _ hb', through_of_ofText (Lexeme.ofText_colon _)]
      exact ih _ _ rest (awaits_value _) hrest
  | lastMember _ ih =>
      intro p before outer rest hp
      rw [ih p _ _ _ hp (ends_closeObject rest),
        through_of_ofText (Lexeme.ofText_closeObject rest), step, List.reverse_cons]
      rfl
  | members _ _ ih ihmore =>
      intro p before outer rest hp
      rw [List.append_assoc, List.cons_append, ih p _ _ _ hp (ends_comma _),
        through_of_ofText (Lexeme.ofText_comma _)]
      refine (ihmore _ (_ :: before) outer rest (awaitsKey_nextKey _ _)).trans ?_
      rw [List.reverse_cons, List.append_assoc]
      rfl

/-- A text that writes a value has the outline of the value, and nothing follows it. -/
theorem ofText_of_spelledBy {v : Json} {text : String} (h : v.SpelledBy text) :
    ofText text = (v.outline, false) := by
  have htaken := takes_of_spells h (.value .whole) .whole [] (awaits_value .whole) ends_nil
  rw [List.append_nil, through_nil] at htaken
  show ((Progress.through _ _).outline _, (Progress.through _ _).trails) = _
  rw [htaken]
  rfl

/-! ### Reading outlines of values -/

/-- Arrays and objects take one level of the room. -/
lemma exists_room {n room : ℕ} (h : n + 1 ≤ room) : ∃ room', room = room' + 1 ∧ n ≤ room' :=
  ⟨room - 1, by omega, by omega⟩

mutual

/-- The outline of a value is read as the value, if there is room for its depth. -/
theorem read_outline {room : ℕ} : ∀ {v : Json}, v.depth ≤ room → v.outline.read room = .ok v
  | .null, _ => rfl
  | .bool _, _ => rfl
  | .integer _, _ => rfl
  | .real _, _ => rfl
  | .string _, _ => rfl
  | .array items, h => by
      obtain ⟨room, rfl, hroom⟩ := exists_room h
      rw [Json.outline, read, readItems_outlineItems hroom]
      rfl
  | .object members, h => by
      obtain ⟨room, rfl, hroom⟩ := exists_room h
      rw [Json.outline, read, readMembers_outlineMembers hroom]
      rfl

theorem readItems_outlineItems {room : ℕ} : ∀ {vs : List Json}, Json.depthItems vs ≤ room →
    readItems room (Json.outlineItems vs) = .ok vs
  | [], _ => rfl
  | v :: vs, h => by
      rw [Json.outlineItems, readItems, read_outline (Nat.le_trans (Nat.le_max_left ..) h),
        readItems_outlineItems (Nat.le_trans (Nat.le_max_right ..) h)]
      rfl

theorem readMembers_outlineMembers {room : ℕ} : ∀ {ms : List (String × Json)},
    Json.depthMembers ms ≤ room → readMembers room (Json.outlineMembers ms) = .ok ms
  | [], _ => rfl
  | (key, v) :: ms, h => by
      rw [Json.outlineMembers, readMembers, read_outline (Nat.le_trans (Nat.le_max_left ..) h),
        readMembers_outlineMembers (Nat.le_trans (Nat.le_max_right ..) h)]
      rfl

end

mutual

/-- There is no fault in the outline of a value. -/
theorem skip?_outline : ∀ v : Json, v.outline.skip? = none
  | .null => rfl
  | .bool _ => rfl
  | .integer _ => rfl
  | .real _ => rfl
  | .string _ => rfl
  | .array items => by rw [Json.outline, skip?, skipItems?_outlineItems items]; rfl
  | .object members => by rw [Json.outline, skip?, skipMembers?_outlineMembers members]; rfl

theorem skipItems?_outlineItems : ∀ vs : List Json, skipItems? (Json.outlineItems vs) = none
  | [] => rfl
  | v :: vs => by
      rw [Json.outlineItems, skipItems?, skip?_outline v, skipItems?_outlineItems vs]
      rfl

theorem skipMembers?_outlineMembers : ∀ ms : List (String × Json),
    skipMembers? (Json.outlineMembers ms) = none
  | [] => rfl
  | (key, v) :: ms => by
      rw [Json.outlineMembers, skipMembers?, skip?_outline v, skipMembers?_outlineMembers ms]
      rfl

end

end Outline

end RuleLexer
