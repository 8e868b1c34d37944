import Mathlib.Data.Int.Notation
import Mathlib.Tactic.SplitIfs
import RuleLexer.Json.Writer
import RuleLexer.Proofs.Json.Laws

/-!
What is written for a value is one of its spellings.

* `Json.spellsChar_spell`: every character is spelled between quotes, controls and quotes too;
* `spellsNatural_toDigits`: the decimal digits of a number spell it;
* `JsonLayout.Blank`: layouts that put nothing but blanks between the parts of a value;
* `Json.spelledBy_render`: the text of an integral value in such a layout writes the value;
* `Json.lawful_writer`: the writer is lawful.
-/

namespace RuleLexer

/-! ### Leaves -/

/-- Every character is spelled. -/
lemma Json.spellsChar_spell (c : Char) : SpellsChar (spell c) c := by
  rw [spell]
  split_ifs with hquote hbackslash h h h h h hcontrol
  · subst hquote; exact .letter (by decide)
  · subst hbackslash; exact .letter (by decide)
  · subst h; exact .letter (by decide)
  · subst h; exact .letter (by decide)
  · subst h; exact .letter (by decide)
  · subst h; exact .letter (by decide)
  · subst h; exact .letter (by decide)
  · have hunit := SpellsUnit.digits (.lower (n := 0) (by decide)) (.lower (n := 0) (by decide))
      (.lower (show c.toNat / 16 < 16 by omega)) (.lower (show c.toNat % 16 < 16 by omega))
    rw [show ((0 * 16 + 0) * 16 + c.toNat / 16) * 16 + c.toNat % 16 = c.toNat by omega] at hunit
    exact .unit hunit
  · exact .plain hquote hbackslash (Nat.le_of_not_lt hcontrol)

lemma Json.spellsChars_flatMap_spell (cs : List Char) : SpellsChars (cs.flatMap spell) cs := by
  induction cs with
  | nil => exact .nil
  | cons c cs ih => exact .cons (spellsChar_spell c) ih

/-- The digits of a number spell it: all but the last one are the digits of its tenth part. -/
lemma spellsNatural_toDigits (n : ℕ) : SpellsNatural (Nat.toDigits 10 n) n := by
  induction n using Nat.strongRecOn with
  | ind n ih =>
      by_cases h : n < 10
      · rw [Nat.toDigits_of_lt_base h]
        exact .digit h
      · rw [Nat.toDigits_of_base_le (by decide) (Nat.le_of_not_lt h)]
        have hspell := SpellsNatural.append (ih (n / 10) (by omega)) (by omega)
          (show n % 10 < 10 by omega)
        rwa [Nat.div_add_mod' n 10] at hspell

lemma spellsNumber_toString {n : ℤ} (hlow : -0x8000000000000000 ≤ n)
    (hhigh : n ≤ 0xFFFFFFFFFFFFFFFF) :
    SpellsNumber (toString n).toList (.integer n) := by
  cases n with
  | ofNat n =>
      show SpellsNumber n.repr.toList (.integer n)
      rw [Nat.toList_repr]
      rw [Int.ofNat_eq_natCast] at hhigh
      exact .natural (spellsNatural_toDigits n) (by omega)
  | negSucc n =>
      show SpellsNumber ("-" ++ n.succ.repr).toList (.integer (-(n.succ : ℤ)))
      rw [String.toList_append, Nat.toList_repr]
      exact .negative (spellsNatural_toDigits _) (Nat.succ_pos n) (by omega)

/-! ### Values -/

/-- Only blanks stand between the parts of a value, beside the colons. -/
structure JsonLayout.Blank (layout : JsonLayout) : Prop where
  lineStart : ∀ depth, Blanks (layout.lineStart depth)
  colon : ∃ b, layout.colon = ':' :: b ∧ Blanks b

lemma blanks_nil : Blanks [] := fun _ h => nomatch h

/-- Lines of their own and their indentation are blanks. -/
lemma JsonLayout.blank_pretty : pretty.Blank where
  lineStart depth := by
    intro c h
    rcases List.mem_cons.1 h with rfl | h
    · exact .inr (.inr (.inl rfl))
    · exact .inl (List.eq_of_mem_replicate h)
  colon := ⟨[' '], rfl, by simp [Blanks]⟩

namespace Json

variable {layout : JsonLayout} {depth : ℕ} {b b' : List Char}

lemma spells_quote (s : String) : Spells (quote s) (.value (.string s)) :=
  .string (spellsChars_flatMap_spell s.toList)

/-- The items of an array are written one after another. -/
lemma spells_writeItems (hlayout : layout.Blank) (hb : Blanks b) (hb' : Blanks b') {vs : List Json}
    {v : Json} (h : ∀ u ∈ v :: vs, Spells (u.write layout depth) (.value u)) :
    Spells (b ++ (v.write layout depth ++ (writeItems layout depth vs ++ b')))
      (.elements (v :: vs)) := by
  induction vs generalizing b v with
  | nil => exact .lastElement (.element hb (h v List.mem_cons_self) hb')
  | cons u us ih =>
      have hfirst := Spells.element hb (h v List.mem_cons_self) blanks_nil
      have hmore := ih (hlayout.lineStart depth) fun t ht => h t (List.mem_cons_of_mem v ht)
      simpa [writeItems] using Spells.elements hfirst hmore

/-- A key and its value, as they are written. -/
lemma spells_member (hlayout : layout.Blank) (hb : Blanks b) (hb' : Blanks b') (key : String)
    {v : Json} (h : Spells (v.write layout depth) (.value v)) :
    Spells (b ++ (quote key ++ (layout.colon ++ (v.write layout depth ++ b'))))
      (.member key v) := by
  obtain ⟨c, hcolon, hc⟩ := hlayout.colon
  have hmember := Spells.member hb (spellsChars_flatMap_spell key.toList) blanks_nil
    (.element hc h hb')
  simpa [quote, hcolon] using hmember

/-- The members of an object are written one after another. -/
lemma spells_writeMembers (hlayout : layout.Blank) (hb : Blanks b) (hb' : Blanks b')
    {ms : List (String × Json)} {key : String} {v : Json}
    (h : ∀ m ∈ (key, v) :: ms, Spells (m.2.write layout depth) (.value m.2)) :
    Spells (b ++ (quote key ++ (layout.colon ++ (v.write layout depth
      ++ (writeMembers layout depth ms ++ b'))))) (.members ((key, v) :: ms)) := by
  induction ms generalizing b key v with
  | nil => exact .lastMember (spells_member hlayout hb hb' key (h _ List.mem_cons_self))
  | cons m ms ih =>
      have hfirst := spells_member hlayout hb blanks_nil key (h _ List.mem_cons_self)
      have hmore := ih (hlayout.lineStart depth) fun t ht => h t (List.mem_cons_of_mem _ ht)
      simpa [writeMembers] using Spells.members hfirst hmore

/-- What is written for a value spells it. -/
theorem spells_write (hlayout : layout.Blank) {v : Json} (h : v.Integral) (depth : ℕ) :
    Spells (v.write layout depth) (.value v) := by
  induction h generalizing depth with
  | null => exact .null
  | bool b =>
      cases b with
      | false => exact .false
      | true => exact .true
  | integer hlow hhigh => exact .number (spellsNumber_toString hlow hhigh)
  | string s => exact spells_quote s
  | @array vs h ih =>
      cases vs with
      | nil => exact .emptyArray blanks_nil
      | cons v vs =>
          have hitems := spells_writeItems hlayout (hlayout.lineStart (depth + 1))
            (hlayout.lineStart depth) fun u hu => ih u hu (depth + 1)
          simpa [write] using Spells.array hitems
  | @object ms h ih =>
      cases ms with
      | nil => exact .emptyObject blanks_nil
      | cons m ms =>
          have hmembers := spells_writeMembers hlayout (hlayout.lineStart (depth + 1))
            (hlayout.lineStart depth) fun u hu => ih u hu (depth + 1)
          simpa [write] using Spells.object hmembers

/-- The text of a value writes the value. -/
theorem spelledBy_render (hlayout : layout.Blank) {v : Json} (h : v.Integral) :
    v.SpelledBy (v.render layout) := by
  have hspells := Spells.element blanks_nil (spells_write hlayout h 0) blanks_nil
  rwa [List.append_nil, List.nil_append, ← String.toList_ofList (l := v.write layout 0)] at hspells

/-! ### The writer -/

/-- Members that are written for the fields of a record are the members of the record. -/
lemma eq_ofFields_of_writesFields {fields : List Field}
    {parts : Tuple (fun f => f.Value → Json) fields} {values : Values fields}
    {ms : List (String × Json)} (h : WritesFields (· = ·) parts values ms) :
    ofFields parts values = ms := by
  induction fields generalizing ms with
  | nil => exact h.symm
  | cons f fields ih =>
      obtain ⟨write, parts⟩ := parts
      obtain ⟨a, values⟩ := values
      rw [ofFields]
      rcases h with ⟨h, hmore⟩ | ⟨h, _, _, rfl, rfl, hmore⟩
      · rw [if_pos h, ih hmore]
      · rw [if_neg h, ih hmore]

lemma map_eq_of_forall₂ {α : Type} {write : α → Json} {as : List α} {vs : List Json}
    (h : List.Forall₂ (fun a v => write a = v) as vs) : as.map write = vs := by
  rwa [← List.forall₂_eq_eq_eq, List.forall₂_map_left_iff]

/-- The writer is lawful. -/
theorem lawful_writer : writer.Lawful (· = ·) where
  leaf _ _ := rfl
  optional_some h := h
  list h := congrArg Json.array (map_eq_of_forall₂ h)
  record h := congrArg Json.object (eq_ofFields_of_writesFields h)
  tagged {T parts form values ms} h := by
    have hmembers := eq_ofFields_of_writesFields h
    exact congrArg (fun ms => Json.object ((T.tag, .string (T.naming.name form)) :: ms)) hmembers
  toText := by
    rintro v _ rfl hv
    exact ⟨_, rfl, spelledBy_render JsonLayout.blank_pretty hv⟩

end Json

end RuleLexer
