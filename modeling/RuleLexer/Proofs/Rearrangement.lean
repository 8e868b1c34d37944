import RuleLexer.Proofs.Alike
import RuleLexer.Proofs.Longest

/-!
The order in which rules are declared. It matters among the runs, and among the literals and
sections that begin with the same text; nowhere else.

* `Rule.Resembles`: rules that differ at most in the order of their closing markers;
* `Rearrangement`: a list of rules in another order that keeps to what matters;
* `Rearrangement.forall₂_filter`: the rules whose order is kept stand in the same order;
* `Rule.Resembles.exists_pattern`: rules that resemble each other have patterns that are alike;
* `Rearrangement.fixedFrom?_alike`, `Rearrangement.alike_index`: rearranged rules have indices that
  find the same everywhere;
* `tokenize_rearranged`: rearranged rules give the same tokens and the same errors.
-/

namespace RuleLexer

variable {κ : Type}

/-! ### Rules in another order -/

/-- The rules are the same, but for the order in which a section lists its closing markers. -/
inductive Rule.Resembles : Rule κ → Rule κ → Prop
  | refl (rule : Rule κ) : rule.Resembles rule
  | delimited {kind : κ} {opening : String} {closings closings' : List String}
      {nested discard : Bool} (h : closings.Perm closings') :
      (Rule.delimited kind opening closings nested discard).Resembles
        (.delimited kind opening closings' nested discard)

namespace Rule

variable {r s : Rule κ}

lemma Resembles.symm (h : r.Resembles s) : s.Resembles r := by
  cases h with
  | refl => exact .refl _
  | delimited h => exact .delimited h.symm

/-- Whether the rule is one for runs. -/
def isRun : Rule κ → Bool
  | run .. => true
  | _ => false

lemma Resembles.isRun_eq (h : r.Resembles s) : r.isRun = s.isRun := by
  cases h <;> rfl

lemma Resembles.fixedText?_eq (h : r.Resembles s) : r.fixedText? = s.fixedText? := by
  cases h <;> rfl

end Rule

/-- The rules `S` are the rules `R` in another order. Runs keep their order, and so do literals and
sections that begin with the same text. -/
structure Rearrangement (R S : List (Rule κ)) where
  /-- Where a rule has gone. -/
  place : Fin R.length ≃ Fin S.length
  resembles : ∀ i, (R.get i).Resembles (S.get (place i))
  runs : ∀ i j, i < j → (R.get i).isRun = true → (R.get j).isRun = true → place i < place j
  fixed : ∀ i j, i < j → (R.get i).fixedText? ≠ none →
    (R.get i).fixedText? = (R.get j).fixedText? → place i < place j

namespace Rearrangement

variable {R S : List (Rule κ)}

lemma resembles_symm (h : Rearrangement R S) (j : Fin S.length) :
    (R.get (h.place.symm j)).Resembles (S.get j) := by
  have hresembles := h.resembles (h.place.symm j)
  rwa [Equiv.apply_symm_apply] at hresembles

/-- Places that are in order afterwards were in order before, if they would have kept the other
order. -/
lemma symm_lt_symm (h : Rearrangement R S) {i j : Fin S.length} (hlt : i < j)
    (hkeep : h.place.symm j < h.place.symm i →
      h.place (h.place.symm j) < h.place (h.place.symm i)) :
    h.place.symm i < h.place.symm j := by
  by_contra hnot
  have hne : h.place.symm j ≠ h.place.symm i := fun heq => hlt.ne' (h.place.symm.injective heq)
  have hback := hkeep (lt_of_le_of_ne (not_lt.mp hnot) hne)
  rw [Equiv.apply_symm_apply, Equiv.apply_symm_apply] at hback
  exact hlt.asymm hback

/-- The way back. -/
def symm (h : Rearrangement R S) : Rearrangement S R where
  place := h.place.symm
  resembles j := (h.resembles_symm j).symm
  runs i j hlt hi hj := h.symm_lt_symm hlt fun hback =>
    h.runs _ _ hback ((h.resembles_symm j).isRun_eq.trans hj)
      ((h.resembles_symm i).isRun_eq.trans hi)
  fixed i j hlt hi hij := h.symm_lt_symm hlt fun hback => by
    have hi' := (h.resembles_symm i).fixedText?_eq
    have hj' := (h.resembles_symm j).fixedText?_eq
    refine h.fixed _ _ hback ?_ ?_
    · rw [hj', ← hij]
      exact hi
    · rw [hi', hj', hij]

lemma exists_mem (h : Rearrangement R S) {r : Rule κ} (hr : r ∈ R) : ∃ s ∈ S, r.Resembles s := by
  obtain ⟨i, rfl⟩ := List.mem_iff_get.mp hr
  exact ⟨_, List.get_mem S (h.place i), h.resembles i⟩

/-- **Order kept**: rules that do not pass each other stand in the same order afterwards. -/
lemma forall₂_filter (h : Rearrangement R S) {p : Rule κ → Bool}
    (hp : ∀ r s, r.Resembles s → p r = p s)
    (hkeep : ∀ i j, i < j → p (R.get i) = true → p (R.get j) = true → h.place i < h.place j) :
    List.Forall₂ Rule.Resembles (R.filter p) (S.filter p) := by
  -- the places of the rules in question are in order before, and are carried in order to the
  -- places afterwards; two lists in order with the same members are equal
  have hplaces : ((List.finRange R.length).filter (p ∘ R.get)).map h.place
      = (List.finRange S.length).filter (p ∘ S.get) := by
    have hbefore : (((List.finRange R.length).filter (p ∘ R.get)).map h.place).Pairwise (· < ·) := by
      refine List.pairwise_map.mpr ?_
      refine ((List.pairwise_lt_finRange _).filter _).imp_of_mem ?_
      intro i j hi hj hlt
      exact hkeep i j hlt (List.mem_filter.mp hi).2 (List.mem_filter.mp hj).2
    have hafter : ((List.finRange S.length).filter (p ∘ S.get)).Pairwise (· < ·) :=
      (List.pairwise_lt_finRange _).filter _
    refine List.Perm.eq_of_pairwise' (r := (· ≤ ·)) (hbefore.imp le_of_lt) (hafter.imp le_of_lt) ?_
    refine (List.perm_ext_iff_of_nodup hbefore.nodup hafter.nodup).mpr fun j => ?_
    simp only [List.mem_map, List.mem_filter, List.mem_finRange, true_and, Function.comp_apply]
    constructor
    · rintro ⟨i, hi, rfl⟩
      rwa [← hp _ _ (h.resembles i)]
    · intro hj
      exact ⟨h.place.symm j, by rwa [hp _ _ (h.resembles_symm j)], h.place.apply_symm_apply j⟩
  have hR : R.filter p = ((List.finRange R.length).filter (p ∘ R.get)).map R.get := by
    rw [← List.filter_map, List.map_get_finRange]
  have hS : S.filter p = ((List.finRange S.length).filter (p ∘ S.get)).map S.get := by
    rw [← List.filter_map, List.map_get_finRange]
  rw [hR, hS, ← hplaces, List.map_map, List.forall₂_map_left_iff, List.forall₂_map_right_iff,
    List.forall₂_same]
  exact fun i _ => h.resembles i

end Rearrangement

/-! ### Patterns that match alike -/

/-- The patterns are the same, but for the order of closing markers. -/
inductive Pattern.Alike : Pattern κ → Pattern κ → Prop
  | run (r : CharRun κ) : Alike (run r) (run r)
  | fixed {f g : FixedText κ} (h : f.Alike g) : Alike (fixed f) (fixed g)
  | escape (c : Char) : Alike (escape c) (escape c)

lemma Pattern.Alike.refl (p : Pattern κ) : p.Alike p := by
  cases p with
  | run r => exact .run r
  | fixed f => exact .fixed (.refl f)
  | escape c => exact .escape c

/-- Texts in another order have their markers in another order. -/
lemma Marker.exists_mapM_of_perm {texts texts' : List String} (h : texts.Perm texts') :
    ∀ {markers}, texts.mapM ofString? = some markers →
      ∃ markers', texts'.mapM ofString? = some markers' ∧ markers.Perm markers' := by
  induction h with
  | nil => exact fun h => ⟨_, h, .refl _⟩
  | cons s h ih =>
      intro markers hm
      simp only [List.mapM_cons, Option.bind_eq_bind, Option.bind_eq_some_iff, Option.pure_def,
        Option.some.injEq] at hm ⊢
      obtain ⟨m, hs, ms, hms, rfl⟩ := hm
      obtain ⟨ms', hms', hperm⟩ := ih hms
      exact ⟨m :: ms', ⟨m, hs, ms', hms', rfl⟩, hperm.cons m⟩
  | swap s s' texts =>
      intro markers hm
      simp only [List.mapM_cons, Option.bind_eq_bind, Option.bind_eq_some_iff, Option.pure_def,
        Option.some.injEq] at hm ⊢
      obtain ⟨m', hs', _, ⟨m, hs, ms, hms, rfl⟩, rfl⟩ := hm
      exact ⟨m :: m' :: ms, ⟨m, hs, m' :: ms, ⟨m', hs', ms, hms, rfl⟩, rfl⟩, .swap m m' ms⟩
  | trans h h' ih ih' =>
      intro markers hm
      obtain ⟨markers', hm', hperm⟩ := ih hm
      obtain ⟨markers'', hm'', hperm'⟩ := ih' hm'
      exact ⟨markers'', hm'', hperm.trans hperm'⟩

/-- Rules that resemble each other have patterns that are alike. -/
lemma Rule.Resembles.exists_pattern {r s : Rule κ} (h : r.Resembles s) {p : Pattern κ}
    (hp : r.pattern = .ok p) : ∃ q, s.pattern = .ok q ∧ p.Alike q := by
  cases h with
  | refl => exact ⟨p, hp, .refl p⟩
  | @delimited kind opening closings closings' nested discard hperm =>
      rw [Rule.pattern] at hp
      split at hp
      · cases hp
      · cases hp
      · cases hp
      · rename_i marker markers hne hmarker hmarkers
        obtain ⟨markers', hmarkers', hperm'⟩ := Marker.exists_mapM_of_perm hperm hmarkers
        have hne' : markers' ≠ [] := by
          rintro rfl
          exact hne hperm'.eq_nil
        obtain ⟨m', ms', rfl⟩ := List.exists_cons_of_ne_nil hne'
        have halike : Marker.Alike (Marker.longestFirst markers) (Marker.longestFirst (m' :: ms')) :=
          Marker.firstAt?_longestFirst_congr fun m => hperm'.mem_iff
        have hq : (Rule.delimited kind opening closings' nested discard).pattern = .ok (.fixed
            ⟨marker, kind, discard, if nested then .nested (Marker.longestFirst (m' :: ms'))
              else .raw (Marker.longestFirst (m' :: ms'))⟩) := by
          simp only [Rule.pattern, hmarker, hmarkers']
        obtain rfl : _ = p := Except.ok.inj hp
        refine ⟨_, hq, .fixed ⟨rfl, rfl, rfl, ?_⟩⟩
        cases nested with
        | true => exact .nested halike
        | false => exact .raw halike

namespace Rule

/-- The run of a well-formed rule that is one for runs. -/
def charRun? (r : Rule κ) : Option (CharRun κ) :=
  r.pattern.toOption.bind Pattern.run?

variable {r s : Rule κ}

lemma Resembles.exists_fixed (h : r.Resembles s) {f : FixedText κ} (hf : r.fixed? = some f) :
    ∃ g, s.fixed? = some g ∧ f.Alike g := by
  obtain ⟨q, hq, halike⟩ := h.exists_pattern (fixed?_eq_some_iff.mp hf)
  cases halike with
  | fixed halike => exact ⟨_, fixed?_eq_some_iff.mpr hq, halike⟩

/-- Rules that resemble each other have fixed texts that are alike, if they have any. -/
lemma Resembles.fixed? (h : r.Resembles s) : Option.Rel FixedText.Alike r.fixed? s.fixed? := by
  cases hr : r.fixed? with
  | some f =>
      obtain ⟨g, hg, halike⟩ := h.exists_fixed hr
      rw [hg]
      exact .some halike
  | none =>
      cases hs : s.fixed? with
      | none => exact .none
      | some g =>
          obtain ⟨f, hf, -⟩ := h.symm.exists_fixed hs
          rw [hr] at hf
          cases hf

lemma Resembles.charRun?_eq (h : r.Resembles s) : r.charRun? = s.charRun? := by
  cases h with
  | refl => rfl
  | delimited h =>
      have hnone : ∀ (kind : κ) opening closings nested discard,
          (Rule.delimited kind opening closings nested discard).charRun? = none := by
        intro kind opening closings nested discard
        rw [charRun?, pattern]
        split <;> rfl
      rw [hnone, hnone]

lemma isRun_of_charRun? {c : CharRun κ} (h : r.charRun? = some c) : r.isRun = true := by
  cases r with
  | run => rfl
  | escape => cases h
  | literal =>
      rw [charRun?, pattern] at h
      split at h <;> cases h
  | delimited =>
      rw [charRun?, pattern] at h
      split at h <;> cases h

end Rule

/-! ### The indices of rearranged rules -/

lemma filterMap_eq_of_forall₂ {α β γ : Type} {r : α → β → Prop} {f : α → Option γ}
    {g : β → Option γ} {l : List α} {l' : List β} (h : List.Forall₂ r l l')
    (hfg : ∀ a b, r a b → f a = g b) : l.filterMap f = l'.filterMap g := by
  induction h with
  | nil => rfl
  | cons hab _ ih => rw [List.filterMap_cons, List.filterMap_cons, hfg _ _ hab, ih]

/-- Lists that correspond have first elements that correspond. -/
lemma rel_head?_of_forall₂ {α β : Type} {r : α → β → Prop} {l : List α} {l' : List β}
    (h : List.Forall₂ r l l') : Option.Rel r l.head? l'.head? := by
  cases h with
  | nil => exact .none
  | cons hab _ => exact .some hab

namespace Rearrangement

variable {R S : List (Rule κ)} {t t' : Tokenizer κ}

lemma escape_mem (h : Rearrangement R S) {c : Char} (hc : .escape c ∈ R) : .escape c ∈ S := by
  obtain ⟨s, hs, hresembles⟩ := h.exists_mem hc
  cases hresembles
  exact hs

lemma isEscape_eq (h : Rearrangement t.rules t'.rules) (c : Char) :
    t.index.isEscape c = t'.index.isEscape c := by
  rw [Bool.eq_iff_iff, t.isEscape_iff, t'.isEscape_iff]
  exact ⟨h.escape_mem, h.symm.escape_mem⟩

/-- Runs keep their order. -/
lemma runs_eq (h : Rearrangement t.rules t'.rules) : t.index.runs = t'.index.runs := by
  have hruns : ∀ rules : List (Rule κ),
      rules.filterMap Rule.charRun? = (rules.filter Rule.isRun).filterMap Rule.charRun? := by
    intro rules
    rw [List.filterMap_filter]
    refine List.filterMap_congr fun r _ => ?_
    split
    · rfl
    · rename_i hr
      cases hc : r.charRun? with
      | none => rfl
      | some c => exact absurd (Rule.isRun_of_charRun? hc) hr
  have hindex : ∀ t : Tokenizer κ, t.index.runs = t.rules.filterMap Rule.charRun? := by
    intro t
    rw [t.index_eq]
    exact t.filterMap_patterns Pattern.run?
  rw [hindex t, hindex t', hruns, hruns t'.rules]
  exact filterMap_eq_of_forall₂ (h.forall₂_filter (fun _ _ hr => hr.isRun_eq) h.runs)
    fun _ _ hr => hr.charRun?_eq

/-- Of the fixed texts with one marker the same is declared first. -/
lemma find?_declared (h : Rearrangement t.rules t'.rules) (m : Marker) :
    Option.Rel FixedText.Alike ((Pattern.declared t.patterns).find? (·.marker = m))
      ((Pattern.declared t'.patterns).find? (·.marker = m)) := by
  have hwith : ∀ t : Tokenizer κ, (Pattern.declared t.patterns).filter (·.marker = m)
      = (t.rules.filter (·.fixedText? = some (String.ofList m.chars))).filterMap Rule.fixed? := by
    intro t
    rw [Pattern.declared, t.filterMap_patterns, List.filter_filterMap, List.filterMap_filter]
    refine List.filterMap_congr fun r _ => ?_
    change Option.filter _ r.fixed? = _
    cases hf : r.fixed? with
    | none => simp
    | some f =>
        have htext : r.fixedText? = some (String.ofList m.chars) ↔ f.marker = m := by
          rw [Rule.fixedText?_of_fixed? hf, Option.some.injEq, String.ofList_inj]
          exact ⟨Marker.chars_injective, congrArg Marker.chars⟩
        by_cases hm : f.marker = m <;> simp [htext, hm]
  rw [← List.head?_filter, ← List.head?_filter, hwith t, hwith t']
  have hforall : List.Forall₂ FixedText.Alike
      ((t.rules.filter (·.fixedText? = some (String.ofList m.chars))).filterMap Rule.fixed?)
      ((t'.rules.filter (·.fixedText? = some (String.ofList m.chars))).filterMap Rule.fixed?) := by
    refine List.rel_filterMap (fun _ _ hr => Rule.Resembles.fixed? hr) (h.forall₂_filter ?_ ?_)
    · intro r s hr
      rw [hr.fixedText?_eq]
    · intro i j hlt hi hj
      have hi' := of_decide_eq_true hi
      have hj' := of_decide_eq_true hj
      exact h.fixed i j hlt (hi' ▸ Option.some_ne_none _) (hi'.trans hj'.symm)
  exact rel_head?_of_forall₂ hforall

/-- The fixed texts that are declared have the same markers. -/
lemma exists_declared_iff (h : Rearrangement t.rules t'.rules) (m : Marker) :
    (∃ f ∈ Pattern.declared t.patterns, f.marker = m) ↔
      ∃ g ∈ Pattern.declared t'.patterns, g.marker = m := by
  have hrel := h.find?_declared m
  have hsome : ∀ l : List (FixedText κ),
      (∃ f ∈ l, f.marker = m) ↔ (l.find? (·.marker = m)).isSome = true := by
    intro l
    simp [List.find?_isSome]
  rw [hsome, hsome]
  generalize (Pattern.declared t.patterns).find? (·.marker = m) = found,
    (Pattern.declared t'.patterns).find? (·.marker = m) = found' at hrel
  cases hrel <;> simp

/-- The index finds fixed texts that are alike, if it finds any. -/
lemma fixedFrom?_alike (h : Rearrangement t.rules t'.rules) (lead : Char) (after : List Char) :
    Option.Rel FixedText.Alike (t.index.fixedFrom? lead after)
      (t'.index.fixedFrom? lead after) := by
  rw [t.index_eq, t'.index_eq]
  cases hf : (MatchIndex.ofPatterns t.patterns).fixedFrom? lead after with
  | none =>
      have hnone := MatchIndex.fixedFrom?_eq_none_iff.mp hf
      have hnone' : (MatchIndex.ofPatterns t'.patterns).fixedFrom? lead after = none := by
        refine MatchIndex.fixedFrom?_eq_none_iff.mpr fun g hg => ?_
        obtain ⟨f, hmem, hmarker⟩ := (h.exists_declared_iff g.marker).mpr ⟨g, hg, rfl⟩
        rw [← hmarker, hnone f hmem]
      rw [hnone']
      exact .none
  | some f =>
      have hbest := MatchIndex.isBest_of_fixedFrom? hf
      have hmem := List.mem_of_find?_eq_some hbest.first
      -- the first one declared with the same marker is to be found by the other rules
      have hrel := h.find?_declared f.marker
      rw [hbest.first] at hrel
      generalize hfound : (Pattern.declared t'.patterns).find? (·.marker = f.marker) = found at hrel
      cases hrel with
      | @some _ g halike =>
          have hbest' : g.IsBest (Pattern.declared t'.patterns) (lead :: after) := by
            refine ⟨halike.marker ▸ hbest.occurs, ?_, ?_⟩
            · intro g' hg' hoccurs
              obtain ⟨f', hf', hmarker⟩ := (h.exists_declared_iff g'.marker).mpr ⟨g', hg', rfl⟩
              rw [← hmarker, ← halike.marker]
              exact hbest.longest f' hf' (hmarker ▸ hoccurs)
            · rw [← halike.marker, hfound]
          rw [MatchIndex.fixedFrom?_eq_some_iff.mpr hbest']
          exact .some halike

/-- The same literals end a line. -/
lemma exists_breaksLine (h : Rearrangement t.rules t'.rules) {m : Marker}
    (hm : ∃ f ∈ Pattern.declared t.patterns, f.breaksLine = true ∧ f.marker = m) :
    ∃ g ∈ Pattern.declared t'.patterns, g.breaksLine = true ∧ g.marker = m := by
  obtain ⟨f, hf, hbreaks, rfl⟩ := hm
  obtain ⟨r, hr, hrf⟩ := t.mem_declared_iff.mp hf
  obtain ⟨s, hs, hresembles⟩ := h.exists_mem hr
  obtain ⟨g, hg, halike⟩ := hresembles.exists_fixed hrf
  exact ⟨g, t'.mem_declared_iff.mpr ⟨s, hs, hg⟩, halike.breaksLine_eq ▸ hbreaks,
    halike.marker.symm⟩

/-- The line ends are looked for with the same result. -/
lemma lineEnds_alike (h : Rearrangement t.rules t'.rules) :
    Marker.Alike t.index.lineEnds t'.index.lineEnds := by
  rw [t.index_eq, t'.index_eq]
  refine Marker.firstAt?_longestFirst_congr fun m => ?_
  simp only [List.mem_eraseDups, List.mem_map, List.mem_filter, and_assoc]
  exact ⟨h.exists_breaksLine, h.symm.exists_breaksLine⟩

/-- Rearranged rules have indices that find the same. -/
theorem alike_index (h : Rearrangement t.rules t'.rules) : t.index.Alike t'.index :=
  ⟨h.runs_eq, h.isEscape_eq, h.lineEnds_alike, h.fixedFrom?_alike⟩

/-- Rearranged rules are well-formed if the rules were. -/
lemma exists_tokenizer {R S : List (Rule κ)} (h : Rearrangement R S) {t : Tokenizer κ}
    (ht : Tokenizer.ofRules R = .ok t) : ∃ t', Tokenizer.ofRules S = .ok t' := by
  obtain rfl := Tokenizer.eq_of_ofRules ht
  refine Tokenizer.exists_of_patterns fun s hs => ?_
  obtain ⟨r, hr, hresembles⟩ := h.symm.exists_mem hs
  obtain ⟨p, -, hp⟩ := t.exists_pattern_of_rule hr
  obtain ⟨q, hq, -⟩ := hresembles.symm.exists_pattern hp
  exact ⟨q, hq⟩

end Rearrangement

/-! ### Texts -/

/-- **Rearranged rules**: the order of declaration matters only among runs and among the literals and
sections that begin with the same text. Rules in another order that keeps to this are well-formed
as well, and every text gives the same tokens by them, or the same error. -/
theorem tokenize_rearranged {R S : List (Rule κ)} (h : Rearrangement R S) {t : Tokenizer κ}
    (ht : Tokenizer.ofRules R = .ok t) :
    ∃ t', Tokenizer.ofRules S = .ok t' ∧ ∀ text, t'.tokenize text = t.tokenize text := by
  obtain ⟨t', ht'⟩ := h.exists_tokenizer ht
  refine ⟨t', ht', fun text => ?_⟩
  obtain rfl := Tokenizer.eq_of_ofRules ht
  obtain rfl := Tokenizer.eq_of_ofRules ht'
  calc t'.tokenize text
      = (Spanwise.level t'.index [] (.ofText text.toList)).map (·.tokens) :=
        State.result_run_ofText ..
    _ = (Spanwise.level t.index [] (.ofText text.toList)).map (·.tokens) := by
        rw [level_eq_of_alike h.alike_index fun _ => rfl]
    _ = t.tokenize text := (State.result_run_ofText ..).symm

/-- Rules for tags around words and numbered names. A tag and the sign for less begin alike. -/
def tagRules : List (Rule String) := [
  .run "word" .letter,
  .run "name" .letterOrDigit,
  .delimited "tag" "<" ["/>", "))", ">"] true,
  .literal "less" "<",
  .literal "arrow" "<-",
  .escape '\\']

/-- The same rules in another order. -/
def shuffledTagRules : List (Rule String) := [
  .escape '\\',
  .literal "arrow" "<-",
  .run "word" .letter,
  .delimited "tag" "<" [">", "))", "/>"] true,
  .run "name" .letterOrDigit,
  .literal "less" "<"]

/-- The runs keep their order, and so do the tag and the sign for less. -/
def shuffleTagRules : Rearrangement tagRules shuffledTagRules where
  place := (⟨![2, 4, 3, 5, 1, 0], ![5, 4, 0, 2, 1, 3], by decide, by decide⟩ : Fin 6 ≃ Fin 6)
  resembles
    | ⟨0, _⟩ => .refl _
    | ⟨1, _⟩ => .refl _
    | ⟨2, _⟩ => .delimited (by decide)
    | ⟨3, _⟩ => .refl _
    | ⟨4, _⟩ => .refl _
    | ⟨5, _⟩ => .refl _
  runs := by decide
  fixed := by decide

theorem tokenize_rearranged_tags : ∃ t t' tokens, Tokenizer.ofRules tagRules = .ok t ∧
    Tokenizer.ofRules shuffledTagRules = .ok t' ∧ t.tokenize "ab<-<c1\\<-d2))3" = .ok tokens ∧
    t'.tokenize "ab<-<c1\\<-d2))3" = .ok tokens := by
  have hsome : (Tokenizer.tokens? tagRules "ab<-<c1\\<-d2))3").isSome = true := by decide +kernel
  obtain ⟨t, tokens, ht, htokens⟩ := Tokenizer.exists_of_isSome_tokens? hsome
  obtain ⟨t', ht', hsame⟩ := tokenize_rearranged shuffleTagRules ht
  exact ⟨t, t', tokens, ht, ht', htokens, (hsame _).trans htokens⟩

end RuleLexer
