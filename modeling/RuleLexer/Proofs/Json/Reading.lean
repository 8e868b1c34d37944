import RuleLexer.Json.Reader
import RuleLexer.Proofs.Json.Laws
import RuleLexer.Proofs.Json.Outlines
import RuleLexer.Proofs.Results

/-!
The reader of JSON texts is lawful.

A loop over members fills places: what the members give for a key is read into the place of the key,
and only the first finds it empty.

* `Leaf.ofJson_eq_ok_iff`: values without parts are read from what is written for them;
* `Fills`, `FillsFields`: what places hold after some sources were read into them;
* `Places.readMembers_eq_ok_iff`: the members of an object fill the place of every field;
* `givesFields_iff`: the fields are given if places that were empty make up their values;
* `TaggedType.collect_eq_ok_iff`: the members of an object fill the place of its form;
* `Json.lawful_reader`: what is read from a text is what the value of the text gives.
-/

namespace RuleLexer

variable {α : Type}

/-! ### Values without parts -/

lemma charOf_eq_ok_iff {v : Json} {c : Char} : charOf v = .ok c ↔ v = .string c.toString := by
  show _ ↔ v = .string (String.ofList [c])
  cases v with
  | string s =>
      rw [charOf]
      split
      · rename_i d h
        rw [← String.ofList_toList (s := s), h]
        simp
      · rename_i h
        simp only [reduceCtorEq, Json.string.injEq, false_iff]
        rintro rfl
        exact h c String.toList_ofList
  | _ => simp [charOf]

lemma int32Of_eq_ok_iff {v : Json} {n : Int32} : int32Of v = .ok n ↔ v = .integer n.toInt := by
  cases v with
  | integer m =>
      rw [int32Of]
      split
      · rename_i h
        have hlow : -2147483648 ≤ m := h.1
        have hhigh : m ≤ 2147483647 := h.2
        rw [Except.ok.injEq, Json.integer.injEq]
        constructor
        · rintro rfl
          exact (Int32.toInt_ofInt_of_le hlow (by omega)).symm
        · rintro rfl
          exact Int32.ofInt_toInt n
      · rename_i h
        simp only [reduceCtorEq, Json.integer.injEq, false_iff]
        rintro rfl
        exact h ⟨Int32.minValue_le_toInt n, n.toInt_le⟩
  | _ => simp [int32Of]

lemma Naming.lookUp_eq_ok_iff {naming : Naming α} {s : String} {a : α} :
    naming.lookUp s = .ok a ↔ s = naming.name a := by
  rw [← naming.find?_eq_some_iff, lookUp]
  cases naming.find? s <;> simp

/-- A value without parts is read from what is written for it. -/
theorem Leaf.ofJson_eq_ok_iff {t : Leaf α} {v : Json} (hv : t.isNamed → ¬ v.IsObject) {a : α} :
    t.ofJson v = .ok a ↔ v = t.toJson a := by
  cases t with
  | text => cases v <;> simp [ofJson, textOf, toJson]
  | bool => cases v <;> simp [ofJson, boolOf, toJson]
  | char => exact charOf_eq_ok_iff
  | int32 => exact int32Of_eq_ok_iff
  | named naming =>
      cases v with
      | string s => simp [ofJson, namedOf, toJson, Naming.lookUp_eq_ok_iff]
      | object ms => exact absurd trivial (hv rfl)
      | _ => simp [ofJson, namedOf, toJson]

/-- What is seen of a value is enough to know which value without parts it is. -/
lemma Outline.exists_face (v : Json) : ∃ u, v.outline.face = .ok u
    ∧ ∀ {α : Type} (t : Leaf α) (a : α), u = t.toJson a ↔ v = t.toJson a := by
  cases v with
  | array vs => exact ⟨.array [], rfl, fun t a => by cases t <;> simp [Leaf.toJson]⟩
  | object ms => exact ⟨.object [], rfl, fun t a => by cases t <;> simp [Leaf.toJson]⟩
  | _ => exact ⟨_, rfl, fun _ _ => Iff.rfl⟩

/-! ### Sources of values -/

/-- A source shows a value if it is the outline of the value and has room for its depth. -/
def JsonSource.Shows (_ : Stage) (s : JsonSource) (v : Json) : Prop :=
  s.outline = v.outline ∧ v.depth ≤ s.room

/-- The source of a value. -/
def Json.source (room : ℕ) (v : Json) : JsonSource :=
  ⟨room, v.outline⟩

/-- The sources of the values of members. -/
def Json.sources (room : ℕ) (ms : List (String × Json)) : List (String × JsonSource) :=
  ms.map fun m => (m.1, m.2.source room)

namespace JsonSource

variable {stage : Stage} {room : ℕ}

/-- A source of an array or object has room for its parts. -/
lemma Shows.exists_room {s : JsonSource} {v : Json} {n : ℕ} (h : Shows stage s v)
    (hv : v.depth = n + 1) : ∃ room, s = ⟨room + 1, v.outline⟩ ∧ n ≤ room := by
  obtain ⟨room, outline⟩ := s
  obtain ⟨rfl, hdepth⟩ := h
  obtain ⟨room, rfl, hn⟩ := Outline.exists_room (hv ▸ hdepth : n + 1 ≤ room)
  exact ⟨room, rfl, hn⟩

lemma shows_source {v : Json} (h : v.depth ≤ room) : Shows stage (v.source room) v :=
  ⟨rfl, h⟩

lemma shows_items {vs : List Json} (h : Json.depthItems vs ≤ room) :
    List.Forall₂ (Shows stage) (vs.map (Json.source room)) vs := by
  rw [List.forall₂_map_left_iff, List.forall₂_same]
  exact fun v hv => shows_source (Nat.le_trans (Json.depth_le_of_mem hv) h)

lemma shows_members {ms : List (String × Json)} (h : Json.depthMembers ms ≤ room) :
    ShowsMembers (Shows stage) (Json.sources room ms) ms := by
  rw [ShowsMembers, Json.sources, List.forall₂_map_left_iff, List.forall₂_same]
  exact fun m hm => ⟨rfl, shows_source (Nat.le_trans (Json.depth_le_of_mem_members hm) h)⟩

end JsonSource

lemma Json.outlineMembers_eq_map (ms : List (String × Json)) :
    outlineMembers ms = ms.map fun m => (some m.1, m.2.outline) := by
  induction ms with
  | nil => rfl
  | cons m ms ih => rw [outlineMembers, ih, List.map_cons]

/-- Items are named as the members that have the names of the fields. -/
lemma RecordType.nameItems_outlineItems (R : RecordType) (vs : List Json) :
    R.nameItems (Json.outlineItems vs)
      = Json.outlineMembers ((R.fields.map Field.name).zip vs) := by
  rw [nameItems, Json.outlineItems_eq_map, Json.outlineMembers_eq_map, List.zip_map_left,
    List.zip_map_right, List.zip_map_left, List.map_map, List.map_map]
  rfl

lemma Json.sources_zip (room : ℕ) (names : List String) (vs : List Json) :
    sources room (names.zip vs) = names.zip (vs.map (source room)) := by
  rw [List.zip_map_right]
  rfl

/-! ### Places -/

/-- What a place holds after the given sources were read into it: a source is read into an empty
place only. -/
inductive Fills {σ ε : Type} (read : Decoder σ ε α) : Option α → List σ → Option α → Prop
  | keep (old : Option α) : Fills read old [] old
  | put {source : σ} {a : α} (h : read source = .ok a) : Fills read none [source] (some a)

section Fills

variable {σ ε : Type} {read : Decoder σ ε α} {old new : Option α} {source : σ} {sources : List σ}

lemma fills_nil_iff : Fills read old [] new ↔ old = new := by
  constructor
  · rintro ⟨⟩
    rfl
  · rintro rfl
    exact .keep old

lemma fills_cons_iff : Fills read old (source :: sources) new
    ↔ old = none ∧ ∃ a, read source = .ok a ∧ Fills read (some a) sources new := by
  constructor
  · rintro ⟨⟩
    rename_i a h
    exact ⟨rfl, a, h, .keep (some a)⟩
  · rintro ⟨rfl, a, h, hmore⟩
    cases hmore
    exact .put h

/-- A field is given if a place that was empty holds its value or is left empty for its default. -/
lemma givesField_iff {f : Field} {read : Decoder σ ε f.Value} {a : f.Value} :
    GivesField f read sources a ↔ ∃ place, Fills read none sources place
      ∧ place.or f.default? = some a := by
  constructor
  · rintro (h | h)
    · exact ⟨_, .put h, rfl⟩
    · exact ⟨none, .keep none, h⟩
  · rintro ⟨_, ⟨⟩ | h, hplace⟩
    · exact .missing hplace
    · cases hplace
      exact .once h

end Fills

namespace Places

variable {fields : List Field}

/-- What the places of all fields hold after the given sources were read into them. -/
def FillsFields : {fields : List Field} → SourceParts fields → Places fields →
    List (String × JsonSource) → Places fields → Prop
  | [], _, _, _, _ => True
  | f :: _, (read, parts), (old, olds), sources, (new, news) =>
      Fills read old (valuesOf f.name sources) new ∧ FillsFields parts olds sources news

/-- Only what is given for the fields matters. -/
lemma fillsFields_congr {parts : SourceParts fields} {olds news : Places fields}
    {sources sources' : List (String × JsonSource)}
    (h : ∀ name ∈ fields.map Field.name, valuesOf name sources = valuesOf name sources') :
    FillsFields parts olds sources news ↔ FillsFields parts olds sources' news := by
  induction fields with
  | nil => rfl
  | cons f fields ih =>
      obtain ⟨read, parts⟩ := parts
      obtain ⟨old, olds⟩ := olds
      obtain ⟨new, news⟩ := news
      rw [List.map_cons, List.forall_mem_cons] at h
      rw [FillsFields, FillsFields, h.1, ih h.2]

lemma fillsFields_nil_iff {parts : SourceParts fields} {olds news : Places fields} :
    FillsFields parts olds [] news ↔ olds = news := by
  induction fields with
  | nil => exact ⟨fun _ => rfl, fun _ => trivial⟩
  | cons f fields ih =>
      obtain ⟨read, parts⟩ := parts
      obtain ⟨old, olds⟩ := olds
      obtain ⟨new, news⟩ := news
      rw [FillsFields, valuesOf_nil, fills_nil_iff, ih, Prod.mk.injEq]

/-- A member that is no field is passed over. -/
lemma put?_eq_none {key : String} {s : JsonSource} {parts : SourceParts fields}
    {places : Places fields} (h : put? key s parts places = none) :
    key ∉ fields.map Field.name := by
  induction fields with
  | nil => exact List.not_mem_nil
  | cons f fields ih =>
      obtain ⟨read, parts⟩ := parts
      obtain ⟨place, places⟩ := places
      simp only [put?] at h
      split at h
      · split at h <;> cases h
      · rename_i hkey
        rw [Option.map_eq_none_iff] at h
        rw [List.map_cons, List.mem_cons, not_or]
        exact ⟨hkey, ih h⟩

/-- The member of a field is read into the place of the field. -/
theorem fillsFields_cons_iff (hnodup : (fields.map Field.name).Nodup) {key : String}
    {s : JsonSource} {parts : SourceParts fields} {olds news : Places fields}
    {put : Except DocumentError (Places fields)} (h : put? key s parts olds = some put)
    (sources : List (String × JsonSource)) : FillsFields parts olds ((key, s) :: sources) news
      ↔ ∃ places, put = .ok places ∧ FillsFields parts places sources news := by
  induction fields with
  | nil => cases h
  | cons f fields ih =>
      obtain ⟨read, parts⟩ := parts
      obtain ⟨old, olds⟩ := olds
      obtain ⟨new, news⟩ := news
      obtain ⟨hnot, hnodup⟩ := List.nodup_cons.1 hnodup
      simp only [put?] at h
      split at h
      · rename_i hkey
        subst hkey
        have hothers : FillsFields parts olds ((f.name, s) :: sources) news
            ↔ FillsFields parts olds sources news := by
          refine fillsFields_congr fun name hname => valuesOf_cons_of_ne ?_ _ _
          rintro rfl
          exact hnot hname
        rw [FillsFields, valuesOf_cons_self, fills_cons_iff, hothers]
        cases old with
        | some old =>
            obtain rfl := Option.some.inj h
            simp
        | none =>
            obtain rfl := Option.some.inj h
            cases hread : read s with
            | error e => simp [Except.map]
            | ok a => simp [Except.map, FillsFields]
      · rename_i hkey
        obtain ⟨put, hput, rfl⟩ := Option.map_eq_some_iff.1 h
        rw [FillsFields, valuesOf_cons_of_ne hkey, ih hnodup hput]
        cases put with
        | error e => simp [Except.map]
        | ok places => simp [Except.map, FillsFields]

/-- The members of an object fill the place of every field. -/
theorem readMembers_eq_ok_iff (hnodup : (fields.map Field.name).Nodup) {room : ℕ}
    {parts : SourceParts fields} {olds news : Places fields} {ms : List (String × Json)} :
    readMembers parts room olds (Json.outlineMembers ms) = .ok news
      ↔ FillsFields parts olds (Json.sources room ms) news := by
  induction ms generalizing olds with
  | nil =>
      rw [Json.outlineMembers, readMembers, Except.ok.injEq]
      exact fillsFields_nil_iff.symm
  | cons m ms ih =>
      obtain ⟨key, v⟩ := m
      rw [Json.outlineMembers, readMembers, Json.sources, List.map_cons]
      split
      · rename_i hput
        rw [Outline.skip?_outline, checkFault, ok_bind, ih]
        refine (fillsFields_congr fun name hname => (valuesOf_cons_of_ne ?_ _ _)).symm
        rintro rfl
        exact put?_eq_none hput hname
      · rename_i put hput
        rw [bind_eq_ok_iff]
        simp only [ih]
        exact (fillsFields_cons_iff hnodup hput _).symm

/-- The fields are given if places that were empty make up their values. -/
theorem givesFields_iff {parts : SourceParts fields} {sources : List (String × JsonSource)}
    {values : Values fields} (n : ℕ) : GivesFields parts sources values
      ↔ ∃ places, FillsFields parts (empty fields) sources places
        ∧ places.values n = .ok values := by
  induction fields generalizing n with
  | nil => exact ⟨fun _ => ⟨(), trivial, rfl⟩, fun _ => trivial⟩
  | cons f fields ih =>
      obtain ⟨read, parts⟩ := parts
      obtain ⟨a, values⟩ := values
      rw [GivesFields, givesField_iff, ih (n + 1)]
      constructor
      · rintro ⟨⟨place, hfills, ha⟩, places, hmore, hvalues⟩
        refine ⟨(place, places), ⟨hfills, hmore⟩, ?_⟩
        rw [Places.values, ha]
        simp [hvalues, Except.map]
      · rintro ⟨⟨place, places⟩, ⟨hfills, hmore⟩, hvalues⟩
        rw [Places.values] at hvalues
        split at hvalues
        · cases hvalues
        · rename_i b hb
          obtain ⟨bs, hbs, hvalues⟩ := exists_of_map_ok hvalues
          cases hvalues
          exact ⟨⟨place, hfills, hb⟩, places, hmore, hbs⟩

/-- The same where more is said of the values. -/
lemma exists_givesFields_iff {parts : SourceParts fields} {sources : List (String × JsonSource)}
    {p : Values fields → Prop} : (∃ values, GivesFields parts sources values ∧ p values)
      ↔ ∃ places, FillsFields parts (empty fields) sources places
        ∧ ∃ values, places.values 0 = .ok values ∧ p values := by
  simp only [givesFields_iff 0]
  constructor
  · rintro ⟨values, ⟨places, hfills, hvalues⟩, h⟩
    exact ⟨places, hfills, values, hvalues, h⟩
  · rintro ⟨places, hfills, values, hvalues, h⟩
    exact ⟨values, ⟨places, hfills, hvalues⟩, h⟩

end Places

/-! ### Records -/

lemma RecordType.ofPlaces_eq_ok_iff {R : RecordType} {places : Places R.fields}
    {values : Values R.fields} : R.ofPlaces places = .ok values ↔ places.values 0 = .ok values :=
  mapError_eq_ok_iff

lemma RecordType.ofItemPlaces_eq_ok_iff {R : RecordType} {places : Places R.fields}
    {values : Values R.fields} :
    R.ofItemPlaces places = .ok values ↔ places.values 0 = .ok values :=
  mapError_eq_ok_iff

namespace JsonSource

/-- A record is read from the members of an object. -/
lemma record_object_eq_ok_iff {R : RecordType} {parts : SourceParts R.fields}
    {values : Values R.fields} {room : ℕ} {ms : List (String × Json)} :
    record R parts ⟨room + 1, (Json.object ms).outline⟩ = .ok values
      ↔ GivesFields parts (Json.sources room ms) values := by
  rw [Places.givesFields_iff 0, record, Json.outline]
  simp only [inside, Option.map_none, checkFault, ok_bind, bind_eq_ok_iff,
    Places.readMembers_eq_ok_iff R.nodup, RecordType.ofPlaces_eq_ok_iff]

/-- A record is read from the items of an array. -/
lemma record_array_eq_ok_iff {R : RecordType} {parts : SourceParts R.fields}
    {values : Values R.fields} {room : ℕ} {vs : List Json} :
    record R parts ⟨room + 1, (Json.array vs).outline⟩ = .ok values
      ↔ vs.length ≤ R.fields.length
        ∧ GivesFields parts ((R.fields.map Field.name).zip (vs.map (Json.source room))) values := by
  rw [← Json.sources_zip, Places.givesFields_iff 0, record, Json.outline]
  have hlength : (Json.outlineItems vs).length = vs.length := by
    rw [Json.outlineItems_eq_map, List.length_map]
  simp only [inside, Option.map_none, checkFault, ok_bind, bind_eq_ok_iff, hlength,
    RecordType.nameItems_outlineItems, Places.readMembers_eq_ok_iff R.nodup]
  by_cases h : R.fields.length < vs.length
  · simp [h, Nat.not_le.2 h]
  · simp only [h, if_false, RecordType.ofItemPlaces_eq_ok_iff, Nat.le_of_not_lt h, true_and]

end JsonSource

/-! ### Records of several forms -/

lemma typeError_ne_ok {expected : Expected} {o : Outline} {a : α} :
    typeError expected o ≠ .ok a := by
  rw [typeError]
  split <;> exact fun h => nomatch h

lemma Outline.check_outline {room : ℕ} {v : Json} (h : v.depth ≤ room) :
    v.outline.check room = .ok () := by
  rw [check, read_outline h]
  rfl

lemma forM_check_outlineItems {room : ℕ} {vs : List Json} (h : Json.depthItems vs ≤ room) :
    (Json.outlineItems vs).forM (Outline.check room) = .ok () := by
  induction vs with
  | nil => rfl
  | cons v vs ih =>
      show (v.outline.check room >>= fun _ => (Json.outlineItems vs).forM (Outline.check room)) = _
      rw [Outline.check_outline (Nat.le_trans (Nat.le_max_left ..) h), ok_bind]
      exact ih (Nat.le_trans (Nat.le_max_right ..) h)

namespace TaggedType

variable {T : TaggedType}

lemma formOf_outline_eq_ok_iff {v : Json} {form : T.Form} :
    T.formOf v.outline = .ok form ↔ v = .string (T.naming.name form) := by
  cases v with
  | string s =>
      rw [Json.outline, formOf, mapError_eq_ok_iff, Naming.lookUp_eq_ok_iff, Json.string.injEq]
  | _ => simp [Json.outline, formOf, typeError_ne_ok]

/-- The form is filled in by its only name. -/
lemma fills_formOf_iff {given : List Json} {form : T.Form} :
    Fills (fun v => T.formOf v.outline) none given (some form)
      ↔ given = [.string (T.naming.name form)] := by
  constructor
  · rintro ⟨⟩
    rename_i v h
    rw [formOf_outline_eq_ok_iff.1 h]
  · rintro rfl
    exact .put (formOf_outline_eq_ok_iff.2 rfl)

/-- The members of an object fill the place of the form by their tags, and what is left are the
other members. -/
theorem collect_eq_ok_iff {room : ℕ} {form form' : Option T.Form} {ms : List (String × Json)}
    {members : List (Option String × Outline)} (hdepth : Json.depthMembers ms ≤ room) :
    T.collect room form (Json.outlineMembers ms) = .ok (form', members)
      ↔ Fills (fun v => T.formOf v.outline) form (valuesOf T.tag ms) form'
        ∧ members = Json.outlineMembers (ms.filter (·.1 ≠ T.tag)) := by
  induction ms generalizing form members with
  | nil => simp [Json.outlineMembers, collect, fills_nil_iff, eq_comm]
  | cons m ms ih =>
      obtain ⟨key, v⟩ := m
      have hv : v.depth ≤ room := Nat.le_trans (Nat.le_max_left ..) hdepth
      have ih {form members} := @ih form members (Nat.le_trans (Nat.le_max_right ..) hdepth)
      rw [Json.outlineMembers, collect]
      by_cases hkey : key = T.tag
      · subst hkey
        rw [valuesOf_cons_self, fills_cons_iff, List.filter_cons_of_neg (by simp)]
        cases form with
        | some form => simp
        | none => simp [bind_eq_ok_iff, ih, ← and_assoc]
      · rw [valuesOf_cons_of_ne hkey, List.filter_cons_of_pos (by simpa using hkey),
          Json.outlineMembers]
        simp only [hkey, if_false, Outline.check_outline hv, ok_bind, bind_eq_ok_iff]
        constructor
        · rintro ⟨⟨form₁, members₁⟩, hmore, ⟨⟩⟩
          obtain ⟨hfills, rfl⟩ := ih.1 hmore
          exact ⟨hfills, rfl⟩
        · rintro ⟨hfills, rfl⟩
          exact ⟨(form', _), ih.2 ⟨hfills, rfl⟩, rfl⟩

variable {parts : (form : T.Form) → SourceParts (T.record form).fields} {room : ℕ}
  {form : T.Form} {values : T.Value}

/-- Members that name the form do not matter for its record. -/
lemma givesFields_filter_tag {ms : List (String × Json)} {values : Values (T.record form).fields} :
    GivesFields (parts form) (Json.sources room (ms.filter (·.1 ≠ T.tag))) values
      ↔ GivesFields (parts form) (Json.sources room ms) values := by
  have hsources : Json.sources room (ms.filter (·.1 ≠ T.tag))
      = (Json.sources room ms).filter (·.1 ≠ T.tag) := by
    rw [Json.sources, Json.sources, List.filter_map]
    rfl
  simp only [Places.givesFields_iff 0, hsources]
  refine exists_congr fun places => and_congr_left' (Places.fillsFields_congr fun name hname => ?_)
  refine valuesOf_filter_ne ?_ _
  rintro rfl
  exact T.tag_notMem form hname

lemma ofMembers_eq_ok_iff {ms : List (String × Json)} :
    T.ofMembers parts room form (Json.outlineMembers ms) = .ok values
      ↔ ∃ values', GivesFields (parts form) (Json.sources room ms) values'
        ∧ ⟨form, values'⟩ = values := by
  simp only [ofMembers, bind_eq_ok_iff, Places.readMembers_eq_ok_iff (T.record form).nodup,
    RecordType.ofPlaces_eq_ok_iff, pure_eq_ok_iff, Places.exists_givesFields_iff]

lemma ofItems_eq_ok_iff {vs : List Json} :
    T.ofItems parts room form (Json.outlineItems vs) = .ok values
      ↔ vs.length ≤ (T.record form).fields.length ∧ ∃ values', GivesFields (parts form)
          (((T.record form).fields.map Field.name).zip (vs.map (Json.source room))) values'
        ∧ ⟨form, values'⟩ = values := by
  have hlength : (Json.outlineItems vs).length = vs.length := by
    rw [Json.outlineItems_eq_map, List.length_map]
  rw [← Json.sources_zip, Places.exists_givesFields_iff]
  simp only [ofItems, bind_eq_ok_iff, RecordType.nameItems_outlineItems, hlength,
    Places.readMembers_eq_ok_iff (T.record form).nodup, RecordType.ofItemPlaces_eq_ok_iff]
  by_cases h : (T.record form).fields.length < vs.length
  · simp [h, Nat.not_le.2 h]
  · simp only [h, if_false, Nat.le_of_not_lt h, true_and, pure_eq_ok_iff]

end TaggedType

namespace JsonSource

variable {T : TaggedType} {parts : (form : T.Form) → SourceParts (T.record form).fields}
  {form : T.Form} {values : Values (T.record form).fields} {room : ℕ}

/-- A record of one of several forms is read from the members of an object. -/
lemma tagged_object_eq_ok_iff {ms : List (String × Json)} (h : Json.depthMembers ms ≤ room) :
    tagged T parts ⟨room + 1, (Json.object ms).outline⟩ = .ok ⟨form, values⟩
      ↔ valuesOf T.tag ms = [.string (T.naming.name form)]
        ∧ GivesFields (parts form) (Json.sources room ms) values := by
  rw [tagged, Json.outline]
  simp only [inside, Option.map_none, checkFault, ok_bind, bind_eq_ok_iff]
  constructor
  · rintro ⟨⟨form', members⟩, hcollect, hread⟩
    obtain ⟨htag, rfl⟩ := (TaggedType.collect_eq_ok_iff h).1 hcollect
    cases form' with
    | none => cases hread
    | some form' =>
        obtain ⟨values', hvalues, heq⟩ := TaggedType.ofMembers_eq_ok_iff.1 hread
        cases heq
        exact ⟨TaggedType.fills_formOf_iff.1 htag, TaggedType.givesFields_filter_tag.1 hvalues⟩
  · rintro ⟨htag, hvalues⟩
    exact ⟨_, (TaggedType.collect_eq_ok_iff h).2 ⟨TaggedType.fills_formOf_iff.2 htag, rfl⟩,
      TaggedType.ofMembers_eq_ok_iff.2
        ⟨values, TaggedType.givesFields_filter_tag.2 hvalues, rfl⟩⟩

/-- A record of one of several forms is read from the items of an array. -/
lemma tagged_array_eq_ok_iff {first : Json} {vs : List Json} (h : Json.depthItems vs ≤ room) :
    tagged T parts ⟨room + 1, (Json.array (first :: vs)).outline⟩ = .ok ⟨form, values⟩
      ↔ first = .string (T.naming.name form) ∧ vs.length ≤ (T.record form).fields.length
        ∧ GivesFields (parts form)
          (((T.record form).fields.map Field.name).zip (vs.map (Json.source room))) values := by
  rw [tagged, Json.outline, Json.outlineItems]
  simp only [inside, Option.map_none, checkFault, ok_bind, bind_eq_ok_iff,
    TaggedType.formOf_outline_eq_ok_iff, forM_check_outlineItems h, TaggedType.ofItems_eq_ok_iff]
  constructor
  · rintro ⟨form', hform, hlength, values', hvalues, heq⟩
    cases heq
    exact ⟨hform, hlength, hvalues⟩
  · rintro ⟨hform, hlength, hvalues⟩
    exact ⟨form, hform, hlength, values, hvalues, rfl⟩

end JsonSource

/-! ### The reader -/

namespace JsonSource

variable {stage : Stage} {s : JsonSource} {v : Json}

/-- A value without parts is read from what is written for it. -/
lemma Shows.leaf_eq_ok_iff (h : Shows stage s v) {t : Leaf α} (hv : t.isNamed → ¬ v.IsObject)
    {a : α} : leaf t s = .ok a ↔ v = t.toJson a := by
  obtain ⟨room, outline⟩ := s
  obtain ⟨rfl, hdepth⟩ := h
  rw [leaf]
  by_cases ht : t.isNamed
  · simp only [ht, if_true, Outline.read_outline hdepth]
    exact mapError_eq_ok_iff.trans (Leaf.ofJson_eq_ok_iff hv)
  · obtain ⟨u, hu, hface⟩ := Outline.exists_face v
    simp only [ht, Bool.false_eq_true, if_false, hu]
    rw [← hface]
    exact mapError_eq_ok_iff.trans (Leaf.ofJson_eq_ok_iff fun hnamed => absurd hnamed ht)

/-- A list is read from the items of an array. -/
lemma list_array_eq_ok_iff {read : JsonSource → Except DocumentError α} {as : List α} {room : ℕ}
    {vs : List Json} : list read ⟨room + 1, (Json.array vs).outline⟩ = .ok as
      ↔ List.Forall₂ (fun source a => read source = .ok a) (vs.map (Json.source room)) as := by
  rw [list, Json.outline, Json.outlineItems_eq_map]
  simp only [inside, Option.map_none, checkFault, ok_bind, bind_eq_ok_iff, mapM_eq_ok_iff,
    List.forall₂_map_left_iff]
  constructor
  · rintro ⟨_, h, ⟨⟩⟩
    exact h
  · intro h
    exact ⟨as, h, rfl⟩

/-- Nothing is read from null, and a value from everything else. -/
lemma Shows.optional_eq_ok_iff (h : Shows stage s v) {read : JsonSource → Except DocumentError α}
    {a? : Option α} : optional read s = .ok a?
      ↔ v = .null ∧ a? = none ∨ v ≠ .null ∧ ∃ a, read s = .ok a ∧ a? = some a := by
  obtain ⟨room, outline⟩ := s
  obtain ⟨rfl, -⟩ := h
  cases v with
  | null => simp [optional, Json.outline, eq_comm (a := none)]
  | _ => simp [optional, Json.outline, map_eq_ok_iff, eq_comm (a := a?)]

/-- A list is read from an array only. -/
lemma Shows.exists_array_of_list (h : Shows stage s v)
    {read : JsonSource → Except DocumentError α} {as : List α} (hread : list read s = .ok as) :
    ∃ vs, v = .array vs := by
  rw [list, h.1] at hread
  cases v with
  | array vs => exact ⟨vs, rfl⟩
  | _ => exact absurd hread typeError_ne_ok

/-- A record is read from an object or array only. -/
lemma Shows.parts_of_record (h : Shows stage s v) {R : RecordType} {parts : SourceParts R.fields}
    {values : Values R.fields} (hread : record R parts s = .ok values) :
    (∃ ms, v = .object ms) ∨ ∃ vs, v = .array vs := by
  rw [record, h.1] at hread
  cases v with
  | object ms => exact .inl ⟨ms, rfl⟩
  | array vs => exact .inr ⟨vs, rfl⟩
  | _ => exact absurd hread typeError_ne_ok

/-- A record of one of several forms is read from an object or array only, and the form needs an
item. -/
lemma Shows.parts_of_tagged (h : Shows stage s v) {T : TaggedType}
    {parts : (form : T.Form) → SourceParts (T.record form).fields} {value : T.Value}
    (hread : tagged T parts s = .ok value) :
    (∃ ms, v = .object ms) ∨ ∃ first vs, v = .array (first :: vs) := by
  rw [tagged, h.1] at hread
  cases v with
  | object ms => exact .inl ⟨ms, rfl⟩
  | array vs =>
      cases vs with
      | nil => exact nomatch hread
      | cons first vs => exact .inr ⟨first, vs, rfl⟩
  | _ => exact absurd hread typeError_ne_ok

end JsonSource

/-- What is read from a text is what is read from the source of its value. -/
lemma Json.reader_fromText_eq_ok_iff {text : String} {v : Json} (htext : v.SpelledBy text)
    {read : JsonSource → Except DocumentError α} {a : α} :
    reader.fromText read text = .ok a ↔ read (v.source room) = .ok a := by
  simp only [reader, Outline.ofText_of_spelledBy htext, bind_eq_ok_iff, Bool.false_eq_true,
    if_false]
  constructor
  · rintro ⟨_, h, ⟨⟩⟩
    exact h
  · intro h
    exact ⟨a, h, rfl⟩

open JsonSource in
/-- The reader is lawful. -/
theorem Json.lawful_reader : reader.Lawful JsonSource.Shows room where
  fromText {text v} htext hdepth :=
    ⟨v.source room, shows_source hdepth, fun _ _ => reader_fromText_eq_ok_iff htext⟩
  leaf h _ t hv a := h.leaf_eq_ok_iff hv
  optional h _ read a? := h.optional_eq_ok_iff
  list h := by
    obtain ⟨room, rfl, hroom⟩ := h.exists_room rfl
    exact ⟨_, shows_items hroom, fun read as => list_array_eq_ok_iff⟩
  list_array h _ read as hread := h.exists_array_of_list hread
  record_object h := by
    obtain ⟨room, rfl, hroom⟩ := h.exists_room rfl
    exact ⟨_, shows_members hroom, fun R parts values => record_object_eq_ok_iff⟩
  record_array h := by
    obtain ⟨room, rfl, hroom⟩ := h.exists_room rfl
    exact ⟨_, shows_items hroom, fun R parts values => record_array_eq_ok_iff⟩
  record_parts h R parts values hread := h.parts_of_record hread
  tagged_object h := by
    obtain ⟨room, rfl, hroom⟩ := h.exists_room rfl
    exact ⟨_, shows_members hroom, fun T parts form values => tagged_object_eq_ok_iff hroom⟩
  tagged_array h := by
    obtain ⟨room, rfl, hroom⟩ := h.exists_room rfl
    have hitems := Nat.le_trans (Nat.le_max_right ..) hroom
    exact ⟨_, shows_items hitems, fun T parts form values => tagged_array_eq_ok_iff hitems⟩
  tagged_parts h T parts values hread := h.parts_of_tagged hread

end RuleLexer
