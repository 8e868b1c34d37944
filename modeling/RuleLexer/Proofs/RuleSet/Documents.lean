import RuleLexer.Proofs.Json.Printing
import RuleLexer.Proofs.Json.Reading
import RuleLexer.Proofs.RuleSet.Reading
import RuleLexer.RuleSet.Reader
import RuleLexer.RuleSet.Writer

/-!
Rule documents: what is accepted, and that writing and reading are inverse.

The library for JSON is any that keeps the laws. The reader and the writer of `RuleLexer.Json` do.

* `RuleSet.fromText_eq_ok_iff`: with texts for kinds, a JSON text is read as a rule set exactly if
  its value presents the rule set;
* `RuleSet.writes_toJson`: what is written for a rule set is its value `RuleSet.toJson`;
* `RuleSet.presentsSet_toJson`: what is written for a rule set presents it;
* `RuleSet.fromText_toText`: the document of a rule set, malformed or not, is read as the set;
* `RuleSet.document_roundTrip`: the same for texts, 32-bit integers and choices as kinds;
* `RuleSet.ofText_document`: the same for the reader and the writer of `RuleLexer.Json`.
-/

namespace RuleLexer

variable {κ : Type}

/-! ### What is accepted -/

/-- **What is accepted**: a text that writes a value is read as a rule set exactly if the value
presents the rule set, where a kind is written as a string. Objects in the place of a class of
characters are left out. -/
theorem RuleSet.fromText_eq_ok_iff {L : JsonReader} {Shows : Stage → L.Source → Json → Prop}
    {limit : ℕ} (hL : L.Lawful Shows limit) {text : String} {v : Json} (htext : v.SpelledBy text)
    (hdepth : v.depth ≤ limit)
    (hclass : ∀ rule charClass, v.HasRule rule → rule.HasClass charClass → ¬ charClass.IsObject)
    (s : RuleSet String) :
    RuleSet.fromText L text = .ok s ↔ PresentsSet (fun v kind => v = .string kind) v s :=
  fromText_eq_ok_iff_presentsSet hL htext hdepth fun rule hrule =>
    ⟨nofun, fun charClass => hclass rule charClass hrule⟩

/-- A document with a field that is passed over, a rule in the form of an array, and a rule that
does not begin with its type. -/
def mixedDocument : String :=
  "\x7b\"v\": -7,\"rules\" :[[\"escape\",\"\\u005C\"],"
    ++ "\x7b\"class\":\"digit\",\"type\":\"characterRun\",\"kind\":\"n\"\x7d]\x7d\n"

/-- The value of the second rule of `mixedDocument`. -/
def mixedRun : Json :=
  .object [("class", .string "digit"), ("type", .string "characterRun"), ("kind", .string "n")]

/-- The value that `mixedDocument` writes. -/
def mixedValue : Json :=
  .object [("v", .integer (-7)),
    ("rules", .array [.array [.string "escape", .string "\\"], mixedRun])]

/-- The rule set that `mixedDocument` presents. -/
def mixedSet : RuleSet String :=
  .ofRules [.escape '\\', .run "n" .digit]

lemma mixedValue_spelledBy : mixedValue.SpelledBy mixedDocument := by
  have blank {c : Char} (h : c = ' ' ∨ c = '\t' ∨ c = '\n' ∨ c = '\r') : Blanks [c] := by
    simpa [Blanks] using h
  have text (s : String) : Spells _ (.element (.string s)) :=
    .element blanks_nil (Json.spells_quote s) blanks_nil
  have member (key s : String) : Spells _ (.member key (.string s)) :=
    .member blanks_nil (Json.spellsChars_flatMap_spell _) blanks_nil (text s)
  have hv : Spells _ (.member "v" (.integer (-7))) :=
    .member blanks_nil (Json.spellsChars_flatMap_spell _) blanks_nil
      (.element (blank (.inl rfl)) (.number (.negative (n := 7) (.digit (by decide)) (by decide)
        (by decide))) blanks_nil)
  have hchar : SpellsChars _ "\\".toList :=
    .cons (.unit (.digits (.lower (n := 0) (by decide)) (.lower (n := 0) (by decide))
      (.lower (n := 5) (by decide)) (.upper (n := 12) (by decide)))) .nil
  have hescape : Spells _ (.element (.array [.string "escape", .string "\\"])) :=
    .element blanks_nil (.array (.elements (text "escape")
      (.lastElement (.element blanks_nil (.string hchar) blanks_nil)))) blanks_nil
  have hrun : Spells _ (.element mixedRun) :=
    .element blanks_nil (.object (.members (member "class" "digit") (.members
      (member "type" "characterRun") (.lastMember (member "kind" "n"))))) blanks_nil
  have hrules : Spells _ (.member "rules"
      (.array [.array [.string "escape", .string "\\"], mixedRun])) :=
    .member blanks_nil (Json.spellsChars_flatMap_spell _) (blank (.inl rfl))
      (.element blanks_nil (.array (.elements hescape (.lastElement hrun))) blanks_nil)
  have hspelled : Spells _ (.element mixedValue) :=
    .element blanks_nil (.object (.members hv (.lastMember hrules)))
      (blank (.inr (.inr (.inl rfl))))
  refine Eq.subst (motive := fun w => Spells w (.element mixedValue)) ?_ hspelled
  decide

lemma mixedValue_presentsSet :
    PresentsSet (fun v (kind : String) => v = .string kind) mixedValue mixedSet := by
  have hescape : PresentsRule (fun v (kind : String) => v = .string kind)
      (.array [.string "escape", .string "\\"]) (.escape '\\') := .array (by decide) (.escape rfl)
  have hrun : PresentsRule (fun v (kind : String) => v = .string kind) mixedRun
      (.run "n" .digit) := .object rfl (.run ⟨_, rfl, rfl⟩ rfl .absent)
  exact .object .absent rfl (.cons hescape (.cons hrun .nil))

/-- The only class in `mixedDocument` is given by its name. -/
lemma mixedValue_hasClass {rule charClass : Json} (hrule : mixedValue.HasRule rule)
    (hclass : rule.HasClass charClass) : ¬ charClass.IsObject := by
  cases hrule with
  | object hrules h =>
      obtain rfl := Json.array.inj (List.mem_singleton.1 hrules)
      rcases List.mem_cons.1 h with rfl | h
      · -- nothing stands behind the character of the escape
        generalize Json.string "escape" = first at hclass
        cases hclass
      · obtain rfl := List.mem_singleton.1 h
        cases hclass with
        | object _ h =>
            obtain rfl := List.mem_singleton.1 h
            exact id

theorem RuleSet.fromText_eq_ok_iff_mixed :
    Json.reader.Lawful JsonSource.Shows Json.room ∧ mixedValue.SpelledBy mixedDocument ∧
    mixedValue.depth ≤ Json.room ∧
    PresentsSet (fun v kind => v = .string kind) mixedValue mixedSet ∧
    RuleSet.fromText Json.reader mixedDocument = .ok mixedSet :=
  ⟨Json.lawful_reader, mixedValue_spelledBy, by decide, mixedValue_presentsSet,
    (fromText_eq_ok_iff Json.lawful_reader mixedValue_spelledBy (by decide)
      (fun _ _ => mixedValue_hasClass) mixedSet).2 mixedValue_presentsSet⟩

/-! ### Values without parts -/

namespace Leaf

variable {α : Type}

/-- What is written for a value without parts has integers of 64 bits only. -/
lemma integral_toJson (t : Leaf α) (a : α) : (t.toJson a).Integral := by
  cases t with
  | int32 =>
      have hlow : -2147483648 ≤ a.toInt := Int32.minValue_le_toInt a
      have hhigh : a.toInt ≤ 2147483647 := a.toInt_le
      exact .integer (by omega) (by omega)
  | bool => exact .bool a
  | _ => exact .string _

lemma depth_toJson (t : Leaf α) (a : α) : (t.toJson a).depth = 0 := by
  cases t <;> rfl

lemma not_isObject_toJson (t : Leaf α) (a : α) : ¬ (t.toJson a).IsObject := by
  cases t <;> exact id

end Leaf

/-! ### Written rule sets -/

attribute [simp] Json.Integral.bool Json.Integral.string

section Written

variable [DocumentKind κ] {W : JsonWriter} {Writes : W.Tree → Json → Prop}

namespace Rule

/-- The value of a rule: its type, and its fields in their order, the flags included. -/
def toJson : Rule κ → Json
  | run kind charClass discard =>
      .object [("type", .string "characterRun"), ("kind", DocumentKind.toJson kind),
        ("class", .string charClass.name), ("discard", .bool discard)]
  | literal kind text discard =>
      .object [("type", .string "literal"), ("kind", DocumentKind.toJson kind),
        ("text", .string text), ("discard", .bool discard)]
  | delimited kind opening closings nested discard =>
      .object [("type", .string "section"), ("kind", DocumentKind.toJson kind),
        ("begin", .string opening), ("end", .array (closings.map .string)),
        ("nested", .bool nested), ("discard", .bool discard)]
  | escape char => .object [("type", .string "escape"), ("escape", .string char.toString)]

/-- What is written for a rule is its value. -/
lemma writes_toJson (hW : W.Lawful Writes) (rule : Rule κ) :
    Writes (rule.encode W) rule.toJson := by
  have hflag (b : Bool) : Writes (W.leaf .bool b) (.bool b) := hW.leaf .bool b
  cases rule with
  | run kind charClass discard =>
      exact hW.tagged (.cons nofun (hW.leaf _ kind) (.cons nofun (hW.leaf (.named _) charClass)
        (.cons nofun (hflag discard) rfl)))
  | literal kind text discard =>
      exact hW.tagged (.cons nofun (hW.leaf _ kind) (.cons nofun (hW.leaf .text text)
        (.cons nofun (hflag discard) rfl)))
  | delimited kind opening closings nested discard =>
      have hclosings : List.Forall₂ (fun text v => Writes (W.leaf .text text) v) closings
          (closings.map .string) := by
        rw [List.forall₂_map_right_iff, List.forall₂_same]
        exact fun text _ => hW.leaf .text text
      exact hW.tagged (.cons nofun (hW.leaf _ kind) (.cons nofun (hW.leaf .text opening)
        (.cons nofun (hW.list hclosings) (.cons nofun (hflag nested)
          (.cons nofun (hflag discard) rfl)))))
  | escape char => exact hW.tagged (.cons nofun (hW.leaf .char char) rfl)

lemma integral_toJson (rule : Rule κ) : rule.toJson.Integral := by
  have hkind (kind : κ) : (DocumentKind.toJson kind).Integral := Leaf.integral_toJson _ kind
  cases rule with
  | delimited kind opening closings nested discard =>
      have hclosings : (Json.array (closings.map .string)).Integral := .array (by simp)
      exact .object (by simp [hkind, hclosings])
  | _ => exact .object (by simp [hkind])

lemma depth_toJson_le (rule : Rule κ) : rule.toJson.depth ≤ 2 := by
  have hkind (kind : κ) : (DocumentKind.toJson kind).depth = 0 := Leaf.depth_toJson _ kind
  have hclosings (texts : List String) : Json.depthItems (texts.map .string) = 0 :=
    Nat.le_zero.1 (Json.depthItems_le (by simp [Json.depth]))
  cases rule <;> simp [toJson, Json.depth, Json.depthMembers, hkind, hclosings]

/-- What is written for a rule presents it. -/
lemma presentsRule_toJson (rule : Rule κ) : PresentsRule WritesKind rule.toJson rule := by
  have hkind (kind : κ) : GivesOnce WritesKind [DocumentKind.toJson kind] kind := ⟨_, rfl, rfl⟩
  cases rule with
  | run kind charClass discard => exact .object rfl (.run (hkind kind) rfl (.given discard))
  | literal kind text discard => exact .object rfl (.literal (hkind kind) rfl (.given discard))
  | delimited kind opening closings nested discard =>
      exact .object rfl (.delimited (hkind kind) rfl rfl (.given nested) (.given discard))
  | escape char => exact .object rfl (.escape rfl)

/-- No object is written for a name. -/
lemma namesPlain_toJson (rule : Rule κ) : NamesPlain κ rule.toJson where
  kind _ kind h := by
    cases rule with
    | escape char =>
        cases h with
        | object h => simp at h
    | _ =>
        cases h with
        | object h =>
            obtain rfl : kind = DocumentKind.toJson _ := by simpa using h
            exact Leaf.not_isObject_toJson _ _
  charClass charClass h := by
    cases rule with
    | run kind name discard =>
        cases h with
        | object _ h =>
            obtain rfl : charClass = .string name.name := by simpa using h
            exact id
    | _ =>
        cases h with
        | object htype _ => simp at htype

end Rule

namespace RuleSet

/-- The value of a rule set: its name, if it has one, and its rules. -/
def toJson (s : RuleSet κ) : Json :=
  .object (
    (match s.name with
      | none => []
      | some name => [("name", .string name)])
    ++ [("rules", .array (s.rules.map Rule.toJson))])

/-- What is written for a rule set is its value. -/
lemma writes_toJson (hW : W.Lawful Writes) (s : RuleSet κ) : Writes (s.encode W) s.toJson := by
  have hrules : Writes (W.list (Rule.encode W) s.rules) (.array (s.rules.map Rule.toJson)) := by
    refine hW.list ?_
    rw [List.forall₂_map_right_iff, List.forall₂_same]
    exact fun rule _ => rule.writes_toJson hW
  obtain ⟨_ | name, rules⟩ := s
  · exact hW.record (.inl ⟨rfl, .cons nofun hrules rfl⟩)
  · exact hW.record (.cons nofun (hW.optional_some (hW.leaf .text name))
      (.cons nofun hrules rfl))

lemma integral_toJson (s : RuleSet κ) : s.toJson.Integral := by
  have hrules : (Json.array (s.rules.map Rule.toJson)).Integral :=
    .array (by simp [Rule.integral_toJson])
  obtain ⟨_ | name, rules⟩ := s
  · exact .object (by simpa using hrules)
  · exact .object (by simpa using hrules)

lemma depth_toJson_le (s : RuleSet κ) : s.toJson.depth ≤ 4 := by
  obtain ⟨name, rules⟩ := s
  have hrules : Json.depthItems (rules.map Rule.toJson) ≤ 2 :=
    Json.depthItems_le (by simpa using fun rule _ => rule.depth_toJson_le)
  cases name
  · simp only [toJson, List.nil_append, Json.depth, Json.depthMembers]
    omega
  · simp only [toJson, List.cons_append, List.nil_append, Json.depth, Json.depthMembers]
    omega

/-- What is written for a rule set presents it. -/
theorem presentsSet_toJson (s : RuleSet κ) : PresentsSet WritesKind s.toJson s := by
  have hrules : List.Forall₂ (PresentsRule WritesKind) (s.rules.map Rule.toJson) s.rules := by
    rw [List.forall₂_map_left_iff, List.forall₂_same]
    exact fun rule _ => rule.presentsRule_toJson
  obtain ⟨_ | name, rules⟩ := s
  · exact .object .absent rfl hrules
  · exact .object (.given (.string name)) rfl hrules

/-- No object is written for a name. -/
lemma namesPlain_of_hasRule_toJson (s : RuleSet κ) {rule : Json} (h : s.toJson.HasRule rule) :
    NamesPlain κ rule := by
  have hrules : valuesOf "rules" ((match s.name with
      | none => []
      | some name => [("name", Json.string name)])
      ++ [("rules", .array (s.rules.map Rule.toJson))]) = [.array (s.rules.map Rule.toJson)] := by
    cases s.name <;> rfl
  cases h with
  | object hitems h =>
      rw [hrules] at hitems
      obtain rfl := Json.array.inj (List.mem_singleton.1 hitems)
      obtain ⟨rule, -, rfl⟩ := List.mem_map.1 h
      exact rule.namesPlain_toJson

/-- The document of a rule set is read as the rule set. -/
theorem fromText_toText {L : JsonReader} {Shows : Stage → L.Source → Json → Prop} {limit : ℕ}
    (hL : L.Lawful Shows limit) (hlimit : 4 ≤ limit) (hW : W.Lawful Writes) (s : RuleSet κ) :
    ∃ text, s.toText W = .ok text ∧ RuleSet.fromText L text = .ok s := by
  obtain ⟨text, htext, hspelled⟩ := hW.toText (s.writes_toJson hW) s.integral_toJson
  have hdepth : s.toJson.depth ≤ limit := Nat.le_trans s.depth_toJson_le hlimit
  exact ⟨text, htext, (fromText_eq_ok_iff_presentsSet hL hspelled hdepth fun _ =>
    s.namesPlain_of_hasRule_toJson).2 s.presentsSet_toJson⟩

end RuleSet

end Written

/-- **Round trip of documents**: whatever its rules, there is a document of a rule set, and the rule
set is read back from it, be its kinds texts, integers of 32 bits, or choices. -/
theorem RuleSet.document_roundTrip {L : JsonReader} {Shows : Stage → L.Source → Json → Prop}
    {limit : ℕ} (hL : L.Lawful Shows limit) (hlimit : 4 ≤ limit) {W : JsonWriter}
    {Writes : W.Tree → Json → Prop} (hW : W.Lawful Writes) (names : List String) :
    (∀ s : RuleSet String, ∃ text, s.toText W = .ok text ∧ RuleSet.fromText L text = .ok s) ∧
    (∀ s : RuleSet Int32, ∃ text, s.toText W = .ok text ∧ RuleSet.fromText L text = .ok s) ∧
    ∀ s : RuleSet (Choice names), ∃ text, s.toText W = .ok text
      ∧ RuleSet.fromText L text = .ok s :=
  ⟨fromText_toText hL hlimit hW, fromText_toText hL hlimit hW, fromText_toText hL hlimit hW⟩

theorem RuleSet.document_roundTrip_mixed :
    Json.reader.Lawful JsonSource.Shows Json.room ∧ 4 ≤ Json.room ∧ Json.writer.Lawful (· = ·) ∧
    ∃ text, mixedSet.toText Json.writer = .ok text ∧
      RuleSet.fromText Json.reader text = .ok mixedSet :=
  ⟨Json.lawful_reader, by decide, Json.lawful_writer,
    (document_roundTrip Json.lawful_reader (by decide) Json.lawful_writer []).1 mixedSet⟩

/-- The document of a rule set in the text of `Json.writer` is read back by `Json.reader`. -/
theorem RuleSet.ofText_document [DocumentKind κ] (s : RuleSet κ) :
    RuleSet.ofText s.document = .ok s := by
  obtain ⟨text, htext, hread⟩ :=
    fromText_toText Json.lawful_reader (by decide) Json.lawful_writer s
  rw [document, htext]
  exact hread

end RuleLexer
