import RuleLexer.Proofs.Descent
import RuleLexer.Proofs.Places

/-!
Lines and columns ascend with the offsets, whatever the rules are.

* `Position.Before`: an earlier line, or an earlier column on the same line;
* `Cursor.Moves`: a move over at least one character, on the line or to the next one;
  `Cursor.Exact.of_moves` says that it leads to a later position as long as no coordinate stops at
  its limit;
* `TokenList.preorder`: the tokens at every depth, each one before those inside it;
* `TokenList.Chain`: the tokens begin at places each of which is moved to from the one before;
  `Covers.chain` says so of a level;
* `ascends_of_tokenize`: offsets and positions of the tokens of a text ascend together, and a section
  that is not terminated begins before the text ends.
-/

namespace RuleLexer

open Relation (TransGen ReflTransGen)

variable {κ : Type}

/-! ### Moves -/

/-- The position comes first: on an earlier line, or in an earlier column of the same line. -/
def Position.Before (p q : Position) : Prop :=
  p.line.val < q.line.val ∨ p.line.val = q.line.val ∧ p.column.val < q.column.val

instance (p q : Position) : Decidable (p.Before q) :=
  inferInstanceAs (Decidable (_ ∨ _))

namespace Cursor

/-- The place `d` lies behind `c`, on the same line or at the beginning of the next one. -/
def Moves (c d : Cursor) : Prop :=
  ∃ n endsLine, 0 < n ∧ n ≤ c.rest.length ∧ d = c.skip n endsLine

/-- No coordinate of the place has stopped at the limit, and none will in the rest of the text. -/
structure Exact (c : Cursor) : Prop where
  line_le : c.position.line.val ≤ c.offset + 1
  column_le : c.position.column.val ≤ c.offset + 1
  length_lt : c.offset + c.rest.length < Coord.limit

/-- The place is reached later, and its position comes later too. -/
structure Precedes (c d : Cursor) : Prop where
  offset_lt : c.offset < d.offset
  before : c.position.Before d.position

variable {c d e : Cursor}

lemma Precedes.trans (h : c.Precedes d) (h' : d.Precedes e) : c.Precedes e := by
  obtain ⟨hoffset, hbefore⟩ := h
  obtain ⟨hoffset', hbefore'⟩ := h'
  refine ⟨hoffset.trans hoffset', ?_⟩
  rw [Position.Before] at *
  omega

/-- **One move** leads to a later place. -/
lemma Exact.of_moves (hc : c.Exact) (h : c.Moves d) : d.Exact ∧ c.Precedes d := by
  obtain ⟨n, endsLine, hn, hle, rfl⟩ := h
  obtain ⟨hline, hcolumn, hlength⟩ := hc
  have hrest : (c.skip n endsLine).rest.length = c.rest.length - n := by
    rw [rest_skip, List.length_drop]
  have hoffset := offset_skip c n endsLine
  cases endsLine with
  | false =>
      have hsame : (c.skip n false).position.line.val = c.position.line.val := rfl
      have hadd : (c.skip n false).position.column.val = c.position.column.val + n :=
        min_eq_left (by omega)
      exact ⟨⟨by omega, by omega, by omega⟩, by omega, .inr ⟨hsame.symm, by omega⟩⟩
  | true =>
      have hnext : (c.skip n true).position.line.val = c.position.line.val + 1 :=
        min_eq_left (by omega)
      have hstart : (c.skip n true).position.column.val = 1 := rfl
      exact ⟨⟨by omega, by omega, by omega⟩, by omega, .inl (by omega)⟩

/-- Moves one after another lead to a later place. -/
lemma Exact.of_transGen (hc : c.Exact) (h : TransGen Moves c d) : d.Exact ∧ c.Precedes d := by
  induction h with
  | single h => exact hc.of_moves h
  | tail _ h ih =>
      obtain ⟨hexact, hprecedes⟩ := ih
      obtain ⟨hexact', hprecedes'⟩ := hexact.of_moves h
      exact ⟨hexact', hprecedes.trans hprecedes'⟩

lemma Exact.of_reflTransGen (hc : c.Exact) (h : ReflTransGen Moves c d) :
    d.Exact ∧ (c = d ∨ c.Precedes d) := by
  rcases Relation.reflTransGen_iff_eq_or_transGen.mp h with rfl | h
  · exact ⟨hc, .inl rfl⟩
  · obtain ⟨hexact, hprecedes⟩ := hc.of_transGen h
    exact ⟨hexact, .inr hprecedes⟩

lemma exact_ofText {text : List Char} (h : text.length < Coord.limit) : (ofText text).Exact :=
  ⟨le_rfl, le_rfl, by simpa [ofText] using h⟩

/-- Moves lead to later places of the same text. -/
lemma reaches_of_moves (h : ReflTransGen Moves c d) : c.Reaches d := by
  induction h with
  | refl => exact .refl c
  | tail _ hmoves ih =>
      obtain ⟨n, endsLine, -, hle, rfl⟩ := hmoves
      exact ih.trans (.skip hle endsLine)

/-! What the rules match is moved over. -/

lemma moves_advance {n : ℕ} (hn : 0 < n) (hle : n ≤ c.rest.length) : c.Moves (c.advance n) :=
  ⟨n, false, hn, hle, rfl⟩

lemma moves_past {markers : List Marker} {m : Marker}
    (hm : Marker.firstAt? markers c.rest = some m) : c.Moves (c.past m) :=
  ⟨m.length, m.breaksLine, m.length_pos,
    (Marker.occursAt_iff.mp (Marker.occursAt_of_firstAt? hm)).length_le, rfl⟩

end Cursor

section Index

variable {ix : MatchIndex κ} {closings : List Marker} {c : Cursor}

lemma FixedMatch.moves_stop {m : FixedMatch κ} (h : ix.ahead closings c.rest = .fixed m) :
    c.Moves (m.stop c) :=
  ⟨m.length, m.breaksLine, m.length_pos,
    MatchIndex.length_le_of_fixedAt? (MatchIndex.fixedAt?_of_ahead h), rfl⟩

lemma CharRun.moves_advance {r : CharRun κ} {n : ℕ} (h : ix.ahead closings c.rest = .run r n) :
    c.Moves (c.advance n) := by
  have hle := MatchIndex.run_length_le h
  obtain ⟨d, after, -, -, -, -, rfl⟩ := MatchIndex.describes_of_ahead h
  exact Cursor.moves_advance (Nat.succ_pos _) hle

/-- The inside of a section is moved over piece by piece, up to its closing marker or to the end of
the text. -/
lemma MatchIndex.moves_captureFrom (ix : MatchIndex κ) (ends : List Marker) (decoded : List Char)
    (c : Cursor) : match ix.captureFrom ends decoded c with
      | .ok r => TransGen Cursor.Moves c r.stop
      | .error stop => ∃ d, ReflTransGen Cursor.Moves c d ∧ d.position = stop := by
  fun_induction MatchIndex.captureFrom ix ends decoded c with
  | case1 decoded c hr => exact ⟨c, .refl, rfl⟩
  | case2 decoded c m hr => exact .single (Cursor.moves_past (firstAt?_of_rawStep hr))
  | case3 decoded c p hr ih =>
      have hmoves : c.Moves (c.skip p.length p.endsLine) :=
        ⟨p.length, p.endsLine, p.length_pos, length_le_of_rawStep hr, rfl⟩
      split at ih
      · exact .head hmoves ih
      · obtain ⟨d, hd, rfl⟩ := ih
        exact ⟨d, .head hmoves hd, rfl⟩

lemma MatchIndex.moves_capture {ends : List Marker} {r : Captured}
    (h : ix.capture ends c = .ok r) : TransGen Cursor.Moves c r.stop := by
  have hmoves := ix.moves_captureFrom ends [] c
  rw [capture] at h
  rwa [h] at hmoves

end Index

/-! ### Tokens in preorder -/

mutual

/-- The token and, behind it, the tokens inside, at every depth. -/
def Token.preorder : Token κ → List (Token κ)
  | ⟨kind, text, nested, delimiters, position, span⟩ =>
      ⟨kind, text, nested, delimiters, position, span⟩ :: TokenList.preorder nested

/-- The tokens at every depth, each one before those inside it. -/
def TokenList.preorder : List (Token κ) → List (Token κ)
  | [] => []
  | t :: ts => t.preorder ++ TokenList.preorder ts

end

lemma Token.preorder_eq (t : Token κ) : t.preorder = t :: TokenList.preorder t.nested := by
  cases t
  rw [preorder]

namespace TokenList

lemma preorder_subset {t : Token κ} {ts : TokenList κ} (h : t ∈ ts) : t.preorder ⊆ preorder ts := by
  induction ts with
  | nil => exact absurd h List.not_mem_nil
  | cons s ts ih =>
      rw [preorder]
      rcases List.mem_cons.mp h with rfl | h
      · exact List.subset_append_left _ _
      · exact List.subset_append_of_subset_right _ (ih h)

/-- The preorder has every token that occurs at some depth. -/
lemma mem_preorder_of_occursIn {t : Token κ} {ts : TokenList κ} (h : t.OccursIn ts) :
    t ∈ preorder ts := by
  induction h with
  | here h =>
      refine preorder_subset h ?_
      rw [Token.preorder_eq]
      exact List.mem_cons_self
  | @inside s ts hs h ih =>
      refine preorder_subset hs ?_
      rw [Token.preorder_eq]
      exact List.mem_cons_of_mem s ih

/-! ### Chains -/

/-- The tokens begin at places between `c` and `stop`, and from each of them one moves to the
next. -/
inductive Chain : Cursor → List (Token κ) → Cursor → Prop
  | nil {c stop : Cursor} (h : ReflTransGen Cursor.Moves c stop) : Chain c [] stop
  | cons {c d e stop : Cursor} {t : Token κ} {ts : List (Token κ)}
      (hd : ReflTransGen Cursor.Moves c d) (hposition : t.position = d.position)
      (hspan : t.span.start = .clamp d.offset) (he : TransGen Cursor.Moves d e)
      (hts : Chain e ts stop) : Chain c (t :: ts) stop

namespace Chain

variable {c d e stop : Cursor} {ts us : List (Token κ)}

lemma le (h : Chain c ts stop) : ReflTransGen Cursor.Moves c stop := by
  induction h with
  | nil h => exact h
  | cons hd hposition hspan he hts ih => exact (hd.trans he.to_reflTransGen).trans ih

/-- A chain may begin earlier. -/
lemma widen (h : Chain d ts stop) (hd : ReflTransGen Cursor.Moves c d) : Chain c ts stop := by
  cases h with
  | nil h => exact .nil (hd.trans h)
  | cons hd' hposition hspan he hts => exact .cons (hd.trans hd') hposition hspan he hts

/-- Chains are joined where the one ends and the other begins. -/
lemma append (h : Chain c ts d) (h' : Chain d us stop) : Chain c (ts ++ us) stop := by
  induction h with
  | nil h => exact h'.widen h
  | cons hd hposition hspan he hts ih => exact .cons hd hposition hspan he (ih h')

/-- A token goes before a chain, together with the tokens inside it. If it is discarded they are
all left out. -/
lemma unlessDiscarded {tokens : TokenList κ} {t : Token κ} (h : Chain e (preorder tokens) stop)
    (hposition : t.position = c.position) (hspan : t.span.start = .clamp c.offset)
    (hinside : TransGen Cursor.Moves c d) (hnested : Chain d (preorder t.nested) e)
    (discard : Bool) : Chain c (preorder (t.unlessDiscarded discard ++ tokens)) stop := by
  cases discard with
  | true => exact h.widen (hinside.to_reflTransGen.trans hnested.le)
  | false =>
      have hlist : preorder (t.unlessDiscarded false ++ tokens)
          = t :: (preorder t.nested ++ preorder tokens) := by
        rw [Token.unlessDiscarded, if_neg Bool.false_ne_true, List.singleton_append, preorder,
          Token.preorder_eq, List.cons_append]
      rw [hlist]
      exact .cons .refl hposition hspan hinside (hnested.append h)

end Chain

end TokenList

/-- The tokens of a level are a chain from its beginning to its end. -/
theorem Covers.chain {ix : MatchIndex κ} {closings : List Marker} {c stop : Cursor}
    {tokens : TokenList κ} (h : Covers ix closings c tokens stop) :
    TokenList.Chain c (TokenList.preorder tokens) stop := by
  induction h with
  | levelEnd h => exact .nil .refl
  | run h more ih =>
      exact ih.unlessDiscarded rfl rfl (.single (CharRun.moves_advance h)) (.nil .refl) _
  | literal h hi more ih =>
      exact ih.unlessDiscarded rfl rfl (.single (FixedMatch.moves_stop h)) (.nil .refl) _
  | raw h hi hr more ih =>
      have hinside := FixedMatch.moves_stop h
      exact ih.unlessDiscarded rfl rfl (.head hinside (MatchIndex.moves_capture hr)) (.nil .refl) _
  | nested h hi inside hm more ihinside ih =>
      have hlast := TokenList.Chain.nil (κ := κ) (.single (Cursor.moves_past hm))
      have hnested := ihinside.append hlast
      rw [List.append_nil] at hnested
      exact ih.unlessDiscarded rfl rfl (.single (FixedMatch.moves_stop h)) hnested _

/-! ### Order -/

/-- The token begins earlier, by its offset and by its position. -/
structure Token.Precedes (t s : Token κ) : Prop where
  start_lt : t.span.start.val < s.span.start.val
  before : t.position.Before s.position

/-- The tokens of a chain begin one after another, not before the chain does. -/
lemma TokenList.Chain.pairwise {c stop : Cursor} {ts : List (Token κ)} (h : Chain c ts stop)
    (hc : c.Exact) : ts.Pairwise Token.Precedes ∧ ∀ t ∈ ts, ∃ d : Cursor, (c = d ∨ c.Precedes d) ∧
      t.span.start.val = d.offset ∧ t.position = d.position := by
  induction h with
  | nil h => exact ⟨.nil, fun t ht => absurd ht List.not_mem_nil⟩
  | @cons c d e stop t ts hd hposition hspan he hts ih =>
      obtain ⟨hdexact, hcd⟩ := hc.of_reflTransGen hd
      obtain ⟨heexact, hde⟩ := hdexact.of_transGen he
      obtain ⟨hpairwise, hplaces⟩ := ih heexact
      have hstart : t.span.start.val = d.offset := by
        have hlength := hdexact.length_lt
        rw [hspan, Coord.val_clamp]
        omega
      -- what comes behind the token begins where it was moved to, or later
      have hbehind : ∀ s ∈ ts, ∃ f : Cursor, d.Precedes f ∧ s.span.start.val = f.offset ∧
          s.position = f.position := by
        intro s hs
        obtain ⟨f, hef, hf⟩ := hplaces s hs
        rcases hef with rfl | hef
        · exact ⟨e, hde, hf⟩
        · exact ⟨f, hde.trans hef, hf⟩
      refine ⟨List.pairwise_cons.mpr ⟨fun s hs => ?_, hpairwise⟩, fun s hs => ?_⟩
      · obtain ⟨f, hdf, hoffset, hfposition⟩ := hbehind s hs
        refine ⟨?_, ?_⟩
        · rw [hstart, hoffset]
          exact hdf.offset_lt
        · rw [hposition, hfposition]
          exact hdf.before
      · rcases List.mem_cons.mp hs with rfl | hs
        · exact ⟨d, hcd, hstart, hposition⟩
        · obtain ⟨f, hdf, hf⟩ := hbehind s hs
          rcases hcd with rfl | hcd
          · exact ⟨f, .inr hdf, hf⟩
          · exact ⟨f, .inr (hcd.trans hdf), hf⟩

/-- Where one of two tokens precedes the other, offsets and positions agree on which one it is. -/
lemma Token.start_lt_iff_before {tokens : List (Token κ)} (h : tokens.Pairwise Token.Precedes)
    {t s : Token κ} (ht : t ∈ tokens) (hs : s ∈ tokens) :
    t.span.start.val < s.span.start.val ↔ t.position.Before s.position := by
  obtain ⟨i, hi, rfl⟩ := List.getElem_of_mem ht
  obtain ⟨j, hj, rfl⟩ := List.getElem_of_mem hs
  rcases lt_trichotomy i j with hij | rfl | hij
  · obtain ⟨hlt, hbefore⟩ := List.pairwise_iff_getElem.mp h i j hi hj hij
    exact iff_of_true hlt hbefore
  · rw [Position.Before]
    omega
  · obtain ⟨hlt, hbefore⟩ := List.pairwise_iff_getElem.mp h j i hj hi hij
    rw [Position.Before] at *
    omega

/-- A place to which the scan of a level descends is moved to. -/
lemma Descends.moves {ix : MatchIndex κ} {inner closings : List Marker} {c d : Cursor}
    (h : Descends ix inner d closings c) : ReflTransGen Cursor.Moves c d := by
  induction h with
  | here => exact .refl
  | run h more ih => exact .head (CharRun.moves_advance h) ih
  | literal h hi more ih => exact .head (FixedMatch.moves_stop h) ih
  | raw h hi hr more ih =>
      have hsection := (MatchIndex.moves_capture hr).to_reflTransGen
      exact (ReflTransGen.head (FixedMatch.moves_stop h) hsection).trans ih
  | nested h hi inside hm more ih =>
      have hsection := ReflTransGen.head (FixedMatch.moves_stop h) inside.chain.le
      exact (hsection.tail (Cursor.moves_past hm)).trans ih
  | enter h hi inside ih => exact .head (FixedMatch.moves_stop h) ih

/-- From the beginning of a section that is not terminated one moves to where the text ends. -/
lemma FailsAt.moves {ix : MatchIndex κ} {closings : List Marker} {d : Cursor}
    {start stop : Position} (h : FailsAt ix closings d (.unterminatedSection start stop)) :
    d.position = start ∧ ∃ e, TransGen Cursor.Moves d e ∧ e.position = stop := by
  cases h with
  | @raw m ends _ h hi hr =>
      have hinside := ix.moves_captureFrom ends [] (m.stop d)
      rw [MatchIndex.capture] at hr
      rw [hr] at hinside
      obtain ⟨e, he, hposition⟩ := hinside
      exact ⟨rfl, e, .head' (FixedMatch.moves_stop h) he, hposition⟩
  | @nested m ends stop tokens h hi inside hstop =>
      exact ⟨rfl, stop, .head' (FixedMatch.moves_stop h) inside.chain.le, rfl⟩

/-- **Ascending positions**: of two tokens of a text, at whatever depth, the one with the smaller
offset has the earlier position, and in preorder both ascend strictly. Where a section is not
terminated, it begins before the end of the text. -/
theorem ascends_of_tokenize {rules : List (Rule κ)} {t : Tokenizer κ} {text : String}
    (ht : Tokenizer.ofRules rules = .ok t) (hlength : text.length < Coord.limit) :
    (∀ tokens, t.tokenize text = .ok tokens →
      (∀ a b : Token κ, a.OccursIn tokens → b.OccursIn tokens →
        (a.span.start.val < b.span.start.val ↔ a.position.Before b.position)) ∧
      (TokenList.preorder tokens).Pairwise fun a b =>
        a.span.start.val < b.span.start.val ∧ a.position.Before b.position) ∧
    ∀ start stop, t.tokenize text = .error (.unterminatedSection start stop) →
      start.Before stop := by
  obtain rfl := Tokenizer.eq_of_ofRules ht
  rw [← String.length_toList] at hlength
  have hexact := Cursor.exact_ofText hlength
  refine ⟨fun tokens htokens => ?_, fun start stop herror => ?_⟩
  · obtain ⟨stop, hcovers, -⟩ := t.covers_of_tokenize htokens
    obtain ⟨hpairwise, -⟩ := hcovers.chain.pairwise hexact
    refine ⟨fun a b ha hb => ?_, hpairwise.imp fun h => ⟨h.start_lt, h.before⟩⟩
    exact Token.start_lt_iff_before hpairwise (TokenList.mem_preorder_of_occursIn ha)
      (TokenList.mem_preorder_of_occursIn hb)
  · have hlevel := Tokenizer.tokenize_eq_error_iff.mp herror
    obtain ⟨inner, d, hd, hfails⟩ := Spanwise.level_eq_error_iff.mp hlevel
    obtain ⟨rfl, e, he, rfl⟩ := hfails.moves
    exact ((hexact.of_reflTransGen hd.moves).1.of_transGen he).2.before

/-- Rules by which line breaks are literals of two characters, runs, closing markers and escaped. -/
def breakRules : List (Rule String) := [
  .run "word" .letter,
  .literal "gap" "\n\n",
  .run "break" .endOfLine,
  .delimited "group" "(" [")", "\n\n"] true,
  .delimited "quote" "\"" ["\""],
  .escape '\\']

theorem ascends_of_tokenize_breaks : ∃ t, Tokenizer.ofRules breakRules = .ok t ∧
    (∃ tokens, t.tokenize "a\n\n\n(b\nc\n\n(\"d\\\n\"\\\n\n)" = .ok tokens ∧
      (∀ a b : Token String, a.OccursIn tokens → b.OccursIn tokens →
        (a.span.start.val < b.span.start.val ↔ a.position.Before b.position)) ∧
      (TokenList.preorder tokens).Pairwise fun a b =>
        a.span.start.val < b.span.start.val ∧ a.position.Before b.position) ∧
    t.tokenize "a\n\n(\"b\n" =
        .error (.unterminatedSection ⟨.clamp 2, .clamp 2⟩ ⟨.clamp 2, .clamp 5⟩) ∧
      Position.Before ⟨.clamp 2, .clamp 2⟩ ⟨.clamp 2, .clamp 5⟩ := by
  have htokens : (Tokenizer.tokens? breakRules
      "a\n\n\n(b\nc\n\n(\"d\\\n\"\\\n\n)").isSome = true := by decide +kernel
  obtain ⟨t, tokens, ht, htokens⟩ := Tokenizer.exists_of_isSome_tokens? htokens
  have herror : (Tokenizer.ofRules breakRules).toOption.any (fun t =>
      t.tokenize "a\n\n(\"b\n" =
        .error (.unterminatedSection ⟨.clamp 2, .clamp 2⟩ ⟨.clamp 2, .clamp 5⟩)) = true := by
    decide +kernel
  rw [ht] at herror
  have hopen := of_decide_eq_true herror
  have hlength : "a\n\n\n(b\nc\n\n(\"d\\\n\"\\\n\n)".length < Coord.limit := by decide
  have hlength' : "a\n\n(\"b\n".length < Coord.limit := by decide
  obtain ⟨hascend, -⟩ := ascends_of_tokenize ht hlength
  obtain ⟨-, hbefore⟩ := ascends_of_tokenize ht hlength'
  exact ⟨t, ht, ⟨tokens, htokens, hascend tokens htokens⟩, hopen, hbefore _ _ hopen⟩

end RuleLexer
