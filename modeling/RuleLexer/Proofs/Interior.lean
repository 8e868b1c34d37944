import RuleLexer.Proofs.Faithful
import RuleLexer.Proofs.Lookahead
import RuleLexer.Proofs.Places
import RuleLexer.Proofs.Translation

/-!
The inside of a nested section is tokenized as it is on its own.

* `Token.interior`: the characters between the two markers of a section;
* `NestedSection`: where the markers of a nested section stand, and the level between them;
  `Covers.exists_nestedSection` finds it for every nested section at any depth;
* `tokenize_interior`: the text between the markers, tokenized on its own, gives the tokens inside
  the section, moved to their places in the text around.
-/

namespace RuleLexer

variable {κ : Type}

/-- The characters of the text between the markers of a section. -/
def Token.interior (token : Token κ) (d : Delimiters) (text : List Char) : List Char :=
  (text.drop (token.span.start.val + d.opening.length)).take
    (token.span.stop.val - d.closing.length - (token.span.start.val + d.opening.length))

/-! ### Where the sections come from -/

/-- The token is a nested section: its opening marker stands at `start`, its closing marker at
`closing`, and the level between them consists of the tokens inside. -/
structure NestedSection (ix : MatchIndex κ) (token : Token κ) where
  start : Cursor
  closing : Cursor
  found : FixedMatch κ
  ends : List Marker
  marker : Marker
  around : List Marker
  ahead : ix.ahead around start.rest = .fixed found
  inside_eq : found.text.inside = .nested ends
  covers : Covers ix ends (found.stop start) token.nested closing
  closes : Marker.firstAt? ends closing.rest = some marker
  token_eq : token = found.nestedAt start closing marker token.nested

/-- Every nested section among the tokens of a level, at any depth, lies between its markers. -/
theorem Covers.exists_nestedSection {ix : MatchIndex κ} {closings : List Marker} {c stop : Cursor}
    {tokens : TokenList κ} (h : Covers ix closings c tokens stop) (hc : c.position.Proper)
    {token : Token κ} (ht : token.OccursIn tokens) {d : Delimiters}
    (hd : token.delimiters = some d) (hcontent : d.content = none) :
    ∃ s : NestedSection ix token, c.Reaches s.start ∧ s.start.position.Proper := by
  -- only the tokens that a level adds for nested sections have no content of their own
  have hother : ∀ {t : Token κ} {discard : Bool}, token.OccursIn (t.unlessDiscarded discard) →
      t.nested = [] → (∀ d', t.delimiters = some d' → d'.content ≠ none) → False := by
    intro t discard hin hnested hdelimiters
    cases discard with
    | true => exact Token.not_occursIn_nil hin
    | false =>
        rcases Token.occursIn_cons.mp hin with rfl | hin | hin
        · exact hdelimiters d hd hcontent
        · rw [hnested] at hin
          exact Token.not_occursIn_nil hin
        · exact Token.not_occursIn_nil hin
  induction h with
  | levelEnd h => exact absurd ht Token.not_occursIn_nil
  | @run closings c stop r n tokens h more ih =>
      rcases Token.occursIn_append.mp ht with ht | ht
      · exact (hother ht rfl (by simp [CharRun.tokenAt, Token.between])).elim
      · obtain ⟨s, hreach, hproper⟩ := ih (hc.advance n) ht
        exact ⟨s, (Cursor.Reaches.advance (MatchIndex.run_length_le h)).trans hreach, hproper⟩
  | @literal closings c stop m tokens h hi more ih =>
      rcases Token.occursIn_append.mp ht with ht | ht
      · exact (hother ht rfl (by simp [FixedMatch.literalAt, Token.between])).elim
      · obtain ⟨s, hreach, hproper⟩ := ih (FixedMatch.proper_stop hc m) ht
        exact ⟨s, (FixedMatch.reaches_stop h).trans hreach, hproper⟩
  | @raw closings ends c stop m r tokens h hi hr more ih =>
      rcases Token.occursIn_append.mp ht with ht | ht
      · refine (hother ht rfl fun d' hd' => ?_).elim
        obtain rfl := Option.some.inj hd'
        simp
      · obtain ⟨s, hreach, hproper⟩ :=
          ih (MatchIndex.proper_captureFrom (FixedMatch.proper_stop hc m) hr).2 ht
        exact ⟨s, (reaches_captured h hr).trans hreach, hproper⟩
  | @nested closings ends c closing stop m marker inner tokens h hi inside hm more ihinside ih =>
      have hinside := FixedMatch.reaches_stop h
      have hproper := FixedMatch.proper_stop hc m
      rcases Token.occursIn_append.mp ht with ht | ht
      · cases hdiscard : m.text.discard with
        | true =>
            rw [hdiscard] at ht
            exact absurd ht Token.not_occursIn_nil
        | false =>
            rw [hdiscard] at ht
            rcases Token.occursIn_cons.mp ht with rfl | ht | ht
            · exact ⟨⟨c, closing, m, ends, marker, closings, h, hi, inside, hm, rfl⟩, .refl c, hc⟩
            · obtain ⟨s, hreach, hs⟩ := ihinside hproper ht
              exact ⟨s, hinside.trans hreach, hs⟩
            · exact absurd ht Token.not_occursIn_nil
      · have hlast : closing.Reaches (closing.past marker) := .past hm
        obtain ⟨s, hreach, hs⟩ := ih (Cursor.proper_skip (inside.proper hproper) _ _) ht
        exact ⟨s, ((hinside.trans inside.reaches).trans hlast).trans hreach, hs⟩

namespace NestedSection

variable {ix : MatchIndex κ} {token : Token κ} (s : NestedSection ix token)

/-- The place behind the opening marker. -/
def inside : Cursor := s.found.stop s.start

lemma reaches_inside : s.start.Reaches s.inside := FixedMatch.reaches_stop s.ahead

lemma reaches_closing : s.inside.Reaches s.closing := s.covers.reaches

/-- A section does not end the line, so its inside begins on the line of its opening marker. -/
lemma position_inside : s.inside.position = s.start.position.advance s.found.length := by
  have hline : s.found.breaksLine = false := by
    simp [FixedMatch.breaksLine, FixedText.breaksLine, s.inside_eq]
  rw [inside, FixedMatch.stop, hline]
  rfl

lemma delimiters_eq : token.delimiters = some ⟨String.ofList (s.start.upTo s.inside),
    String.ofList (s.closing.upTo (s.closing.past s.marker)), none⟩ :=
  congrArg Token.delimiters s.token_eq

/-- The numbers by which a token says where its section lies are the places of its markers. -/
lemma bounds {text : List Char} (hlength : text.length ≤ Coord.limit)
    (hstart : (Cursor.ofText text).Reaches s.start) {d : Delimiters}
    (hd : token.delimiters = some d) :
    d.opening.length = s.found.length ∧
      token.span.start.val + d.opening.length = s.inside.offset ∧
      token.span.stop.val - d.closing.length = s.closing.offset := by
  have hlast : s.closing.Reaches (s.closing.past s.marker) := .past s.closes
  have hwhole := (s.reaches_inside.trans s.reaches_closing).trans hlast
  obtain ⟨hlow, hhigh⟩ := Span.between_val hlength hstart hwhole
  have hspan : token.span = .between s.start.offset (s.closing.past s.marker).offset :=
    congrArg Token.span s.token_eq
  have hoffset : s.inside.offset = s.start.offset + s.found.length := Cursor.offset_skip ..
  obtain rfl := Option.some.inj (s.delimiters_eq.symm.trans hd)
  have h1 := s.reaches_inside.length_upTo
  have h2 := hlast.length_upTo
  have h3 := hlast.offset_le
  simp only [String.length_ofList, hspan, hlow, hhigh, h1, h2]
  omega

/-- The characters between the markers are those between the two places. -/
lemma interior_eq {text : List Char} (hlength : text.length ≤ Coord.limit)
    (hstart : (Cursor.ofText text).Reaches s.start) {d : Delimiters}
    (hd : token.delimiters = some d) : token.interior d text = s.inside.upTo s.closing := by
  obtain ⟨-, hlow, hhigh⟩ := s.bounds hlength hstart hd
  rw [Token.interior, hlow, hhigh, (hstart.trans s.reaches_inside).slice_eq_upTo]

end NestedSection

/-! ### The inside on its own -/

/-- The inside of a nested section covers a text of its own, when no escape character stands before
the closing marker. -/
lemma NestedSection.covers_interior {ix : MatchIndex κ} {token : Token κ}
    (s : NestedSection ix token)
    (hlast : ∀ x, (s.inside.upTo s.closing).getLast? = some x → ix.isEscape x = false) :
    ∃ stop, Covers ix [] ⟨s.inside.upTo s.closing, s.inside.offset, s.inside.position⟩
      token.nested stop := by
  have hrest := s.reaches_closing.upTo_append_rest
  have hblind : ix.Blind s.closing.rest [] := fun m _ => m.blind_nil _
  have hend : (s.closing.exchange s.closing.rest []).rest = [] :=
    Cursor.rest_exchange (q := []) rfl
  have hnone : ∀ m ∈ ([] : List Marker), m ∈ s.ends ∧ m.Blind s.closing.rest [] := by simp
  have hcovers := s.covers.exchange hblind hnone (List.suffix_refl _)
    (fun x hx => hlast x (getLast?_of_cons_suffix (u := s.closing.rest) (hrest ▸ hx)))
    (fun d after h => by rw [hend] at h; cases h)
    (.levelEnd (by rw [hend]; rfl))
  have hstart : s.inside.exchange s.closing.rest []
      = ⟨s.inside.upTo s.closing, s.inside.offset, s.inside.position⟩ := by
    have htext : (s.inside.exchange s.closing.rest []).rest = s.inside.upTo s.closing ++ [] :=
      Cursor.rest_exchange hrest.symm
    rw [List.append_nil] at htext
    rw [← htext]
    rfl
  rw [List.append_nil] at hcovers
  exact ⟨_, hstart ▸ hcovers⟩

/-- **The inside of a section** that no escape character stands at the end of is tokenized on its
own as in the section: its tokens are the tokens inside, when they are moved behind the opening
marker. -/
theorem tokenize_interior {rules : List (Rule κ)} {t : Tokenizer κ} {text : String}
    {tokens : TokenList κ} {token : Token κ} {d : Delimiters} (ht : Tokenizer.ofRules rules = .ok t)
    (hlength : text.length < Coord.limit) (h : t.tokenize text = .ok tokens)
    (hoccurs : token.OccursIn tokens) (hd : token.delimiters = some d) (hnested : d.content = none)
    (hlast : ∀ x, (token.interior d text.toList).getLast? = some x → .escape x ∉ rules) :
    ∃ inner, t.tokenize (String.ofList (token.interior d text.toList)) = .ok inner ∧
      token.nested = TokenList.moved (.within (token.position.advance d.opening.length))
        (token.span.start.val + d.opening.length) inner := by
  obtain rfl := Tokenizer.eq_of_ofRules ht
  obtain ⟨stop, hcovers, -⟩ := t.covers_of_tokenize h
  obtain ⟨s, hstart, hproper⟩ :=
    hcovers.exists_nestedSection Position.proper_start hoccurs hd hnested
  have hlength' : text.toList.length ≤ Coord.limit := by
    rw [String.length_toList]
    exact hlength.le
  obtain ⟨hopening, hoffset, -⟩ := s.bounds hlength' hstart hd
  rw [s.interior_eq hlength' hstart hd] at hlast ⊢
  have hescape : ∀ x, (s.inside.upTo s.closing).getLast? = some x → t.index.isEscape x = false :=
    fun x hx => t.isEscape_eq_false (hlast x hx)
  obtain ⟨stop', hinside⟩ := s.covers_interior hescape
  -- the place behind the opening marker is the beginning of the inside, moved there
  have hposition : token.position = s.start.position := congrArg Token.position s.token_eq
  have horigin : s.inside.position = token.position.advance d.opening.length := by
    rw [s.position_inside, hopening, hposition]
  have hproper' : s.inside.position.Proper := FixedMatch.proper_stop hproper s.found
  rw [← Cursor.moved_ofText] at hinside
  obtain ⟨inner, stop'', hinner, hmoved, -⟩ :=
    hinside.exists_of_moved (Position.embedding_within hproper') _ Position.proper_start
  rw [← String.toList_ofList (l := s.inside.upTo s.closing)] at hinner
  refine ⟨inner, Tokenizer.tokenize_of_covers hinner, ?_⟩
  rw [hoffset, ← horigin]
  exact hmoved

theorem tokenize_interior_call : ∃ t tokens, ∃ token : Token String, ∃ inner,
    Tokenizer.ofRules (callRules true) = .ok t ∧ callText.length < Coord.limit ∧
    t.tokenize callText = .ok tokens ∧ token.OccursIn tokens ∧
    token.delimiters = some ⟨"(", ")", none⟩ ∧
    token.interior ⟨"(", ")", none⟩ callText.toList = "x \"b\\\"\" <a (note)>".toList ∧
    t.tokenize "x \"b\\\"\" <a (note)>" = .ok inner ∧
    token.nested = TokenList.moved (.within (token.position.advance 1)) (token.span.start.val + 1)
      inner := by
  have hlength : callText.length < Coord.limit := by decide
  have hfound : ((Tokenizer.tokens? (callRules true) callText).bind (·.find? fun token =>
      token.delimiters = some ⟨"(", ")", none⟩ ∧
        token.interior ⟨"(", ")", none⟩ callText.toList
          = "x \"b\\\"\" <a (note)>".toList)).isSome = true := by decide +kernel
  obtain ⟨token, hfind⟩ := Option.isSome_iff_exists.mp hfound
  obtain ⟨tokens, htokens, hfind⟩ := Option.bind_eq_some_iff.mp hfind
  obtain ⟨t, ht, h⟩ := Tokenizer.exists_of_tokens? htokens
  have hoccurs : token.OccursIn tokens := .here (List.mem_of_find?_eq_some hfind)
  have hfits := List.find?_some hfind
  obtain ⟨hd, hinterior⟩ := of_decide_eq_true hfits
  have hlast : ∀ x, (token.interior ⟨"(", ")", none⟩ callText.toList).getLast? = some x →
      .escape x ∉ callRules true := by
    rw [hinterior]
    intro x hx
    obtain rfl : '>' = x := by simpa using hx
    decide
  obtain ⟨inner, hinner, hnested⟩ := tokenize_interior ht hlength h hoccurs hd rfl hlast
  rw [hinterior, String.ofList_toList] at hinner
  exact ⟨t, tokens, token, inner, ht, hlength, h, hoccurs, hd, hinterior, hinner, hnested⟩

end RuleLexer
