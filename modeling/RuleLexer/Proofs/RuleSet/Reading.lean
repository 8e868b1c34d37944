import RuleLexer.Proofs.Json.Laws
import RuleLexer.Proofs.Results
import RuleLexer.Proofs.RuleSet.Presentation
import RuleLexer.RuleSet.Document

/-!
A document is read as a rule set exactly if its value presents the rule set.

The reader is any that keeps the laws. Names are given as strings: what a reader makes of an object
in the place of a name is not known.

* `givesField_iff_of_shows`: what sources give for a field, by the values that they show;
* `givesFields_iff_presentsFields`: the fields of a rule are read from what presents them;
* `Rule.decode_eq_ok_iff`, `RuleSet.decode_eq_ok_iff`: a rule and a rule set are read from the
  values that present them, and from no others;
* `RuleSet.fromText_eq_ok_iff_presentsSet`: the same for a text that writes a value.
-/

namespace RuleLexer

variable {κ : Type} {L : JsonReader} {Shows : Stage → L.Source → Json → Prop} {limit : ℕ}
  {stage : Stage}

/-! ### Fields -/

section Fields

variable {sources : List L.Source} {vs : List Json}

/-- What sources give for a field, by the values that they show. -/
lemma givesField_iff_of_shows (h : List.Forall₂ (Shows stage) sources vs) {f : Field}
    {read : L.Decoder f.Value} {Stands : Json → f.Value → Prop}
    (hread : ∀ v ∈ vs, ∀ source, Shows stage source v → ∀ a, read source = .ok a ↔ Stands v a)
    {a : f.Value} :
    GivesField f read sources a ↔ GivesOnce Stands vs a ∨ vs = [] ∧ f.default? = some a := by
  constructor
  · rintro (hsource | hdefault)
    · obtain ⟨v, hv, rfl⟩ : ∃ v, Shows stage _ v ∧ vs = [v] := by
        cases h with
        | cons hv hmore => exact ⟨_, hv, by cases hmore; rfl⟩
      exact .inl ⟨v, rfl, (hread v List.mem_cons_self _ hv a).1 hsource⟩
    · cases h
      exact .inr ⟨rfl, hdefault⟩
  · rintro (⟨v, rfl, hv⟩ | ⟨rfl, hdefault⟩)
    · cases h with
      | cons hsource hmore =>
          cases hmore
          exact .once ((hread v List.mem_cons_self _ hsource a).2 hv)
    · cases h
      exact .missing hdefault

/-- A field that must be given. -/
lemma givesField_required_iff (h : List.Forall₂ (Shows stage) sources vs) (name : String)
    {Value : Type} {read : L.Decoder Value} {Stands : Json → Value → Prop}
    (hread : ∀ v ∈ vs, ∀ source, Shows stage source v → ∀ a, read source = .ok a ↔ Stands v a)
    (a : Value) : GivesField (.required name Value) read sources a ↔ GivesOnce Stands vs a := by
  rw [givesField_iff_of_shows h hread]
  exact ⟨fun h => h.elim id fun h => (nomatch h.2), .inl⟩

/-- A field without parts that must be given. -/
lemma givesField_leaf_iff (hL : L.Lawful Shows limit) (h : List.Forall₂ (Shows stage) sources vs)
    (name : String) {Value : Type} (t : Leaf Value) (ht : t.isNamed → ∀ v ∈ vs, ¬ v.IsObject)
    (a : Value) : GivesField (.required name Value) (L.leaf t) sources a ↔ vs = [t.toJson a] := by
  rw [givesField_required_iff h name fun v hv source hsource a =>
    hL.leaf hsource t (fun hnamed => ht hnamed v hv) a]
  exact ⟨fun ⟨_, hvs, hv⟩ => hv ▸ hvs, fun h => ⟨_, h, rfl⟩⟩

/-- A flag. -/
lemma givesField_flag_iff (hL : L.Lawful Shows limit) (h : List.Forall₂ (Shows stage) sources vs)
    (name : String) (b : Bool) :
    GivesField (.flag name) (L.leaf .bool) sources b ↔ GivesFlag vs b := by
  rw [givesField_iff_of_shows h fun v _ source hsource b => hL.leaf hsource .bool nofun b]
  constructor
  · rintro (⟨_, rfl, rfl⟩ | ⟨rfl, ⟨⟩⟩)
    · exact .given b
    · exact .absent
  · rintro (_ | _)
    · exact .inr ⟨rfl, rfl⟩
    · exact .inl ⟨_, rfl, rfl⟩

end Fields

/-! ### Lists -/

/-- Items are read from sources as the values that these show stand for them. -/
lemma forall₂_read_iff {α : Type} {read : L.Decoder α} {Stands : Json → α → Prop}
    {sources : List L.Source} {vs : List Json} (h : List.Forall₂ (Shows stage) sources vs)
    (hread : ∀ v ∈ vs, ∀ source, Shows stage source v → ∀ a, read source = .ok a ↔ Stands v a)
    {as : List α} : List.Forall₂ (fun source a => read source = .ok a) sources as
      ↔ List.Forall₂ Stands vs as := by
  induction h generalizing as with
  | nil => simp
  | @cons source v sources vs hsource _ ih =>
      rw [List.forall₂_cons_left_iff, List.forall₂_cons_left_iff]
      refine exists_congr fun a => exists_congr fun more => ?_
      rw [hread v List.mem_cons_self source hsource a,
        ih fun u hu => hread u (List.mem_cons_of_mem v hu)]

/-- A list is read from an array. -/
lemma list_eq_ok_iff (hL : L.Lawful Shows limit) {source : L.Source} {v : Json}
    (h : Shows stage source v) {α : Type} {read : L.Decoder α} {Stands : Json → α → Prop}
    (hread : ∀ vs, v = .array vs → ∀ u ∈ vs, ∀ source, Shows stage source u →
      ∀ a, read source = .ok a ↔ Stands u a) {as : List α} :
    L.list read source = .ok as ↔ ∃ vs, v = .array vs ∧ List.Forall₂ Stands vs as := by
  constructor
  · intro has
    obtain ⟨vs, rfl⟩ := hL.list_array h has
    obtain ⟨sources, hsources, hlist⟩ := hL.list h
    exact ⟨vs, rfl, (forall₂_read_iff hsources (hread vs rfl)).1 ((hlist read as).1 has)⟩
  · rintro ⟨vs, rfl, has⟩
    obtain ⟨sources, hsources, hlist⟩ := hL.list h
    exact (hlist read as).2 ((forall₂_read_iff hsources (hread vs rfl)).2 has)

/-- Texts are read from an array of strings. -/
lemma texts_eq_ok_iff (hL : L.Lawful Shows limit) {source : L.Source} {v : Json}
    (h : Shows stage source v) {texts : List String} :
    L.list (L.leaf .text) source = .ok texts ↔ v = .array (texts.map .string) := by
  rw [list_eq_ok_iff hL h fun _ _ u _ source hu text => hL.leaf hu .text nofun text]
  have hmap {vs : List Json} : List.Forall₂ (fun u text => u = Leaf.text.toJson text) vs texts
      ↔ vs = texts.map .string := by
    rw [← List.forall₂_eq_eq_eq, List.forall₂_map_right_iff]
    rfl
  simp only [hmap]
  exact ⟨fun ⟨_, hv, htexts⟩ => htexts ▸ hv, fun hv => ⟨_, hv, rfl⟩⟩

/-! ### Rules -/

namespace Rule

/-- The kind of a rule is the first item behind the type. -/
lemma hasKind_of_mem_zip {rule : Rule κ} {first kind : Json} {items : List Json}
    (h : kind ∈ valuesOf "kind" (rule.fieldNames.zip items)) :
    (Json.array (first :: items)).HasKind kind := by
  rw [mem_valuesOf_iff] at h
  have hmore {names : List String} {items : List Json} (hnames : "kind" ∉ names) :
      ("kind", kind) ∉ names.zip items := fun h => hnames (List.of_mem_zip h).1
  cases items with
  | nil => simp at h
  | cons item items =>
      have hitem : kind = item := by
        cases rule with
        | escape => simp [fieldNames] at h
        | _ => simpa [fieldNames, hmore] using h
      rw [hitem]
      exact .array

/-- The class of a run is the second item behind the type. -/
lemma hasClass_of_mem_zip {rule : Rule κ} {charClass : Json} {items : List Json}
    (hrun : rule.typeName = "characterRun")
    (h : charClass ∈ valuesOf "class" (rule.fieldNames.zip items)) :
    (Json.array (.string rule.typeName :: items)).HasClass charClass := by
  rw [mem_valuesOf_iff] at h
  have hmore {names : List String} {items : List Json} (hnames : "class" ∉ names) :
      ("class", charClass) ∉ names.zip items := fun h => hnames (List.of_mem_zip h).1
  match items with
  | [] => simp at h
  | [kind] => cases rule <;> simp [fieldNames] at h
  | kind :: item :: items =>
      have hitem : charClass = item := by
        cases rule <;> simp [typeName] at hrun
        simpa [fieldNames, hmore] using h
      rw [hrun, hitem]
      exact .array

end Rule

variable [DocumentKind κ]

/-- The value is what is written for the kind. -/
def WritesKind (v : Json) (kind : κ) : Prop :=
  v = DocumentKind.toJson kind

/-- Where a rule has a name, no object stands for it. -/
structure NamesPlain (κ : Type) [DocumentKind κ] (rule : Json) : Prop where
  kind : (DocumentKind.leaf : Leaf κ).isNamed → ∀ kind, rule.HasKind kind → ¬ kind.IsObject
  charClass : ∀ charClass, rule.HasClass charClass → ¬ charClass.IsObject

/-- The fields of a rule are read from what presents them. -/
theorem givesFields_iff_presentsFields (hL : L.Lawful Shows limit)
    {sources : List (String × L.Source)} {ms : List (String × Json)}
    (h : ShowsMembers (Shows stage) sources ms) {rule : Rule κ}
    (hkind : (DocumentKind.leaf : Leaf κ).isNamed → ∀ v ∈ valuesOf "kind" ms, ¬ v.IsObject)
    (hclass : rule.typeName = "characterRun" → ∀ v ∈ valuesOf "class" ms, ¬ v.IsObject) :
    GivesFields (RuleForm.decoders L rule.values.1) sources rule.values.2
      ↔ PresentsFields WritesKind ms rule := by
  have hvalues (name : String) := forall₂_valuesOf h name
  have hkinds (kind : κ) := givesField_required_iff (hvalues "kind") "kind" (fun v hv _ hsource k =>
    hL.leaf hsource DocumentKind.leaf (fun hnamed => hkind hnamed v hv) k) kind
  have htexts (name : String) := givesField_leaf_iff hL (hvalues name) name .text nofun
  have hflags (name : String) := givesField_flag_iff hL (hvalues name) name
  cases rule with
  | run kind charClass discard =>
      have hclasses := givesField_leaf_iff hL (hvalues "class") "class" (.named CharClass.naming)
        (fun _ => hclass rfl) charClass
      constructor
      · rintro ⟨hkind, hclass, hdiscard, -⟩
        exact .run ((hkinds kind).1 hkind) (hclasses.1 hclass)
          ((hflags "discard" discard).1 hdiscard)
      · rintro ⟨hkind, hclass, hdiscard⟩
        exact ⟨(hkinds kind).2 hkind, hclasses.2 hclass, (hflags "discard" discard).2 hdiscard,
          trivial⟩
  | literal kind text discard =>
      constructor
      · rintro ⟨hkind, htext, hdiscard, -⟩
        exact .literal ((hkinds kind).1 hkind) ((htexts "text" text).1 htext)
          ((hflags "discard" discard).1 hdiscard)
      · intro hrule
        cases hrule with
        | literal hkind htext hdiscard =>
            exact ⟨(hkinds kind).2 hkind, (htexts "text" text).2 htext,
              (hflags "discard" discard).2 hdiscard, trivial⟩
  | delimited kind opening closings nested discard =>
      have hclosings := givesField_required_iff (hvalues "end") "end" (fun v _ _ hsource texts =>
        texts_eq_ok_iff hL hsource) closings
      constructor
      · rintro ⟨hkind, hopening, hends, hnested, hdiscard, -⟩
        obtain ⟨_, hgiven, rfl⟩ := hclosings.1 hends
        exact .delimited ((hkinds kind).1 hkind) ((htexts "begin" opening).1 hopening) hgiven
          ((hflags "nested" nested).1 hnested) ((hflags "discard" discard).1 hdiscard)
      · intro hrule
        cases hrule with
        | delimited hkind hopening hends hnested hdiscard =>
            exact ⟨(hkinds kind).2 hkind, (htexts "begin" opening).2 hopening,
              hclosings.2 ⟨_, hends, rfl⟩, (hflags "nested" nested).2 hnested,
              (hflags "discard" discard).2 hdiscard, trivial⟩
  | escape char =>
      have hchars := givesField_leaf_iff hL (hvalues "escape") "escape" .char nofun char
      constructor
      · rintro ⟨hchar, -⟩
        exact .escape (hchars.1 hchar)
      · intro hrule
        cases hrule with
        | escape hchar => exact ⟨hchars.2 hchar, trivial⟩

namespace Rule

/-- A rule is read with the form and the values of its fields that it consists of. -/
lemma decode_eq_ok_iff_tagged {source : L.Source} {rule : Rule κ} : decode L source = .ok rule
    ↔ L.tagged (type κ) (RuleForm.decoders L) source = .ok ⟨rule.values.1, rule.values.2⟩ := by
  rw [decode, map_eq_ok_iff]
  constructor
  · rintro ⟨⟨_ | _ | _ | _, _⟩, h, rfl⟩ <;> exact h
  · intro h
    exact ⟨_, h, by cases rule <;> rfl⟩

/-- A rule is read from the members of an object that present it. -/
lemma decode_object_eq_ok_iff (hL : L.Lawful Shows limit) {source : L.Source}
    {ms : List (String × Json)} (h : Shows .direct source (.object ms)) {rule : Rule κ}
    (hnames : NamesPlain κ (.object ms)) :
    decode L source = .ok rule ↔ valuesOf "type" ms = [.string rule.typeName]
      ∧ PresentsFields WritesKind ms rule := by
  obtain ⟨sources, hsources, htagged⟩ := hL.tagged_object h
  have htype : RuleForm.naming.name rule.values.1 = rule.typeName := by cases rule <;> rfl
  refine (decode_eq_ok_iff_tagged.trans (htagged _ _ _ _)).trans ?_
  show valuesOf "type" ms = [.string (RuleForm.naming.name rule.values.1)] ∧ _ ↔ _
  rw [htype]
  refine and_congr_right fun hgiven => givesFields_iff_presentsFields hL hsources ?_ ?_
  · exact fun hnamed v hv => hnames.kind hnamed v (.object hv)
  · exact fun hrun v hv => hnames.charClass v (.object (hrun ▸ hgiven) hv)

/-- A rule is read from the items of an array that present it behind its type. -/
lemma decode_array_eq_ok_iff (hL : L.Lawful Shows limit) {source : L.Source} {first : Json}
    {items : List Json} (h : Shows .direct source (.array (first :: items))) {rule : Rule κ}
    (hnames : NamesPlain κ (.array (first :: items))) :
    decode L source = .ok rule ↔ first = .string rule.typeName
      ∧ items.length ≤ rule.fieldNames.length
      ∧ PresentsFields WritesKind (rule.fieldNames.zip items) rule := by
  obtain ⟨sources, hsources, htagged⟩ := hL.tagged_array h
  have htype : RuleForm.naming.name rule.values.1 = rule.typeName := by cases rule <;> rfl
  have hfields : (rule.values.1.fields κ).map Field.name = rule.fieldNames := by
    cases rule <;> rfl
  refine (decode_eq_ok_iff_tagged.trans (htagged _ _ _ _)).trans ?_
  show first = .string (RuleForm.naming.name rule.values.1)
    ∧ items.length ≤ (rule.values.1.fields κ).length
    ∧ GivesFields _ (((rule.values.1.fields κ).map Field.name).zip sources) _ ↔ _
  have hlength : (rule.values.1.fields κ).length = rule.fieldNames.length := by
    rw [← hfields, List.length_map]
  rw [htype, hlength, hfields]
  refine and_congr_right fun hfirst => and_congr_right fun _ =>
    givesFields_iff_presentsFields hL (showsMembers_zip hsources _) ?_ ?_
  · exact fun hnamed v hv => hnames.kind hnamed v (hasKind_of_mem_zip hv)
  · subst hfirst
    exact fun hrun v hv => hnames.charClass v (hasClass_of_mem_zip hrun hv)

/-- A value is read as a rule exactly if it presents the rule. -/
theorem decode_eq_ok_iff (hL : L.Lawful Shows limit) {source : L.Source} {v : Json}
    (h : Shows .direct source v) {rule : Rule κ} (hnames : NamesPlain κ v) :
    decode L source = .ok rule ↔ PresentsRule WritesKind v rule := by
  constructor
  · intro hrule
    obtain ⟨ms, rfl⟩ | ⟨first, items, rfl⟩ := hL.tagged_parts h (decode_eq_ok_iff_tagged.1 hrule)
    · obtain ⟨htype, hfields⟩ := (decode_object_eq_ok_iff hL h hnames).1 hrule
      exact .object htype hfields
    · obtain ⟨rfl, hlength, hfields⟩ := (decode_array_eq_ok_iff hL h hnames).1 hrule
      exact .array hlength hfields
  · intro hrule
    cases hrule with
    | object htype hfields =>
        exact (decode_object_eq_ok_iff hL h hnames).2 ⟨htype, hfields⟩
    | array hlength hfields =>
        exact (decode_array_eq_ok_iff hL h hnames).2 ⟨rfl, hlength, hfields⟩

end Rule

/-! ### Rule sets -/

lemma name_eq_ok_iff (hL : L.Lawful Shows limit) {source : L.Source} {v : Json}
    (h : Shows stage source v) {name : Option String} :
    L.optional (L.leaf .text) source = .ok name ↔ PresentsName v name := by
  have htext (s : String) : L.leaf .text source = .ok s ↔ v = .string s :=
    hL.leaf h .text nofun s
  rw [hL.optional h]
  simp only [htext]
  constructor
  · rintro (⟨rfl, rfl⟩ | ⟨-, s, rfl, rfl⟩)
    · exact .null
    · exact .string s
  · rintro (_ | s)
    · exact .inl ⟨rfl, rfl⟩
    · exact .inr ⟨Json.noConfusion, s, rfl, rfl⟩

/-- The name of a rule set, which may be missing. -/
lemma givesField_name_iff (hL : L.Lawful Shows limit) {sources : List L.Source} {vs : List Json}
    (h : List.Forall₂ (Shows stage) sources vs) (name : Option String) :
    GivesField (.optional "name" String) (L.optional (L.leaf .text)) sources name
      ↔ GivesName vs name := by
  rw [givesField_iff_of_shows h fun v _ source hsource name => name_eq_ok_iff hL hsource]
  constructor
  · rintro (⟨v, rfl, hv⟩ | ⟨rfl, ⟨⟩⟩)
    · exact .given hv
    · exact .absent
  · rintro (_ | hv)
    · exact .inr ⟨rfl, rfl⟩
    · exact .inl ⟨_, rfl, hv⟩

namespace RuleSet

/-- The fields of a document are read from what presents them. -/
lemma givesFields_iff (hL : L.Lawful Shows limit) {sources : List (String × L.Source)}
    {ms : List (String × Json)} (h : ShowsMembers (Shows .direct) sources ms) {s : RuleSet κ}
    (hnames : ∀ items, .array items ∈ valuesOf "rules" ms → ∀ rule ∈ items, NamesPlain κ rule) :
    GivesFields (decoders L) sources s.values ↔ GivesName (valuesOf "name" ms) s.name
      ∧ ∃ items, valuesOf "rules" ms = [.array items]
        ∧ List.Forall₂ (PresentsRule WritesKind) items s.rules := by
  have hvalues (name : String) := forall₂_valuesOf h name
  have hname := givesField_name_iff hL (hvalues "name") s.name
  have hrules := givesField_required_iff (hvalues "rules") "rules"
    (fun v hv source hsource rules => list_eq_ok_iff hL hsource
      fun items hitems u hu source hsource rule => Rule.decode_eq_ok_iff hL hsource
        (hnames items (hitems ▸ hv) u hu)) s.rules
  constructor
  · rintro ⟨hoptional, hlist, -⟩
    obtain ⟨_, hgiven, items, rfl, hitems⟩ := hrules.1 hlist
    exact ⟨hname.1 hoptional, items, hgiven, hitems⟩
  · rintro ⟨hgivesName, items, hgiven, hitems⟩
    exact ⟨hname.2 hgivesName, hrules.2 ⟨_, hgiven, items, rfl, hitems⟩, trivial⟩

/-- A rule set is read with the values of its fields. -/
lemma decode_eq_ok_iff_record {source : L.Source} {s : RuleSet κ} :
    decode L source = .ok s ↔ L.record (type κ) (decoders L) source = .ok s.values := by
  rw [decode, map_eq_ok_iff]
  constructor
  · rintro ⟨⟨name, rules, _⟩, h, rfl⟩
    exact h
  · exact fun h => ⟨_, h, rfl⟩

/-- A rule set is read from the members of an object that present it. -/
lemma decode_object_eq_ok_iff (hL : L.Lawful Shows limit) {source : L.Source}
    {ms : List (String × Json)} (h : Shows .direct source (.object ms)) {s : RuleSet κ}
    (hnames : ∀ rule, (Json.object ms).HasRule rule → NamesPlain κ rule) :
    decode L source = .ok s ↔ GivesName (valuesOf "name" ms) s.name
      ∧ ∃ items, valuesOf "rules" ms = [.array items]
        ∧ List.Forall₂ (PresentsRule WritesKind) items s.rules := by
  obtain ⟨sources, hsources, hrecord⟩ := hL.record_object h
  exact (decode_eq_ok_iff_record.trans (hrecord _ _ _)).trans
    (givesFields_iff hL hsources fun items hitems rule hrule =>
      hnames rule (.object hitems hrule))

/-- A rule set is read from an array of its name and its rules. -/
lemma decode_array_eq_ok_iff (hL : L.Lawful Shows limit) {source : L.Source} {vs : List Json}
    (h : Shows .direct source (.array vs)) {s : RuleSet κ}
    (hnames : ∀ rule, (Json.array vs).HasRule rule → NamesPlain κ rule) :
    decode L source = .ok s ↔ ∃ v items, vs = [v, .array items] ∧ PresentsName v s.name
      ∧ List.Forall₂ (PresentsRule WritesKind) items s.rules := by
  obtain ⟨sources, hsources, hrecord⟩ := hL.record_array h
  refine (decode_eq_ok_iff_record.trans (hrecord _ _ _)).trans ?_
  show vs.length ≤ 2 ∧ GivesFields (decoders L) (["name", "rules"].zip sources) s.values ↔ _
  have hmembers := showsMembers_zip hsources ["name", "rules"]
  match vs with
  | _ :: _ :: _ :: _ => simp
  | [] =>
      rw [givesFields_iff hL hmembers (by simp)]
      simp
  | [v] =>
      rw [givesFields_iff hL hmembers (by simp)]
      simp
  | [v, w] =>
      have hname : valuesOf "name" (["name", "rules"].zip [v, w]) = [v] := by simp
      have hrules : valuesOf "rules" (["name", "rules"].zip [v, w]) = [w] := by simp
      rw [givesFields_iff hL hmembers fun items hitems rule hrule => hnames rule
        ((List.mem_singleton.1 (hrules ▸ hitems)) ▸ .array hrule), hname, hrules]
      constructor
      · rintro ⟨-, ⟨⟩ | hv, items, ⟨⟩, hitems⟩
        exact ⟨v, items, rfl, hv, hitems⟩
      · rintro ⟨_, items, ⟨⟩, hv, hitems⟩
        exact ⟨Nat.le_refl 2, .given hv, items, rfl, hitems⟩

/-- A value is read as a rule set exactly if it presents the rule set. -/
theorem decode_eq_ok_iff (hL : L.Lawful Shows limit) {source : L.Source} {v : Json}
    (h : Shows .direct source v) {s : RuleSet κ}
    (hnames : ∀ rule, v.HasRule rule → NamesPlain κ rule) :
    decode L source = .ok s ↔ PresentsSet WritesKind v s := by
  constructor
  · intro hset
    obtain ⟨name, rules⟩ := s
    obtain ⟨ms, rfl⟩ | ⟨vs, rfl⟩ := hL.record_parts h (decode_eq_ok_iff_record.1 hset)
    · obtain ⟨hname, items, hgiven, hrules⟩ :=
        (decode_object_eq_ok_iff hL h hnames).1 hset
      exact .object hname hgiven hrules
    · obtain ⟨v, items, rfl, hname, hrules⟩ := (decode_array_eq_ok_iff hL h hnames).1 hset
      exact .array hname hrules
  · intro hset
    cases hset with
    | object hname hgiven hrules =>
        exact (decode_object_eq_ok_iff hL h hnames).2 ⟨hname, _, hgiven, hrules⟩
    | array hname hrules =>
        exact (decode_array_eq_ok_iff hL h hnames).2 ⟨_, _, rfl, hname, hrules⟩

/-- A text that writes a value is read as a rule set exactly if the value presents the rule
set. -/
theorem fromText_eq_ok_iff_presentsSet (hL : L.Lawful Shows limit) {text : String} {v : Json}
    (htext : v.SpelledBy text) (hdepth : v.depth ≤ limit) {s : RuleSet κ}
    (hnames : ∀ rule, v.HasRule rule → NamesPlain κ rule) :
    fromText L text = .ok s ↔ PresentsSet WritesKind v s := by
  obtain ⟨source, hsource, hread⟩ := hL.fromText htext hdepth
  rw [fromText, hread]
  exact decode_eq_ok_iff hL hsource hnames

end RuleSet

end RuleLexer
