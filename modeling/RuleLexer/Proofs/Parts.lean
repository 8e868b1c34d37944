import Mathlib.Data.List.DropRight
import Mathlib.Data.List.ModifyLast
import Mathlib.Tactic
import RuleLexer.Token.List

/-!
Parts of a list of tokens: the groups between separators, and the tokens without those at the ends.

* `TokenList.interleave`: groups with separators between them, as one list;
* `split_eq_foldl`: splitting is one pass over the tokens, in which the last group is still open;
* `split_append_of_free`: tokens in front that are no separators go to the first group;
* `interleave_split`, `split_interleave`: splitting and interleaving undo each other, which
  `split_inverts_interleave` sums up;
* `TokenList.Trims`: tokens are taken off at both ends, as many as there are of some kinds;
* `Trims.core_eq`, `Trims.parts_eq`: what is left then is determined, and so is what was taken off,
  unless all tokens were;
* `trim_keeps_core`: trimming leaves just that, from either end and no less the first time than the
  second.
-/

namespace RuleLexer

namespace TokenList

variable {κ : Type}

/-! ### Groups and separators -/

/-- The groups as one list, with the separators between them in order. Between the groups there is
one separator less than there are groups. -/
def interleave : List (TokenList κ) → TokenList κ → TokenList κ
  | [], _ => []
  | group :: _, [] => group
  | group :: groups, separator :: separators => group ++ separator :: interleave groups separators

/-- A token in front of groups with separators between them is the first of the first group. -/
lemma interleave_modifyHead (t : Token κ) {groups : List (TokenList κ)} (h : groups ≠ [])
    (separators : TokenList κ) :
    interleave (groups.modifyHead (t :: ·)) separators = t :: interleave groups separators := by
  obtain ⟨group, groups, rfl⟩ := List.exists_cons_of_ne_nil h
  cases separators <;> rfl

variable [DecidableEq κ] {sentinel : κ} {tokens : TokenList κ}

/-- There is a first group. -/
lemma split_ne_nil (sentinel : κ) (tokens : TokenList κ) : split sentinel tokens ≠ [] := by
  cases tokens with
  | nil => simp [split]
  | cons t ts =>
      rw [split]
      split_ifs
      · simp
      · cases split sentinel ts <;> simp

/-- A separator ends a group that is empty so far; any other token is the first of its group. -/
lemma split_cons (sentinel : κ) (t : Token κ) (ts : TokenList κ) :
    split sentinel (t :: ts) = if t.kind = sentinel then [] :: split sentinel ts
      else (split sentinel ts).modifyHead (t :: ·) := by
  obtain ⟨group, groups, hgroups⟩ := List.exists_cons_of_ne_nil (split_ne_nil sentinel ts)
  simp only [split, hgroups, List.modifyHead_cons]

/-- There is one group more than there are separators. -/
lemma length_split (sentinel : κ) (tokens : TokenList κ) :
    (split sentinel tokens).length = (tokens.filter (·.kind = sentinel)).length + 1 := by
  induction tokens with
  | nil => rfl
  | cons t ts ih =>
      rw [split_cons]
      split_ifs with ht
      · simp [ht, ih]
      · simp [ht, ih]

/-- No group holds a separator. -/
lemma kind_ne_of_mem_split {group : TokenList κ} (h : group ∈ split sentinel tokens) {t : Token κ}
    (ht : t ∈ group) : t.kind ≠ sentinel := by
  induction tokens generalizing group with
  | nil =>
      obtain rfl : group = [] := by simpa [split] using h
      cases ht
  | cons s ts ih =>
      obtain ⟨first, groups, hgroups⟩ := List.exists_cons_of_ne_nil (split_ne_nil sentinel ts)
      rw [hgroups] at ih
      rw [split_cons, hgroups] at h
      split_ifs at h with hs
      · rcases List.mem_cons.mp h with rfl | h
        · cases ht
        · exact ih h ht
      · rcases List.mem_cons.mp h with rfl | h
        · rcases List.mem_cons.mp ht with rfl | ht
          · exact hs
          · exact ih List.mem_cons_self ht
        · exact ih (List.mem_cons_of_mem first h) ht

/-- **Splitting and interleaving**: the groups with the separators between them are the tokens. -/
theorem interleave_split (sentinel : κ) (tokens : TokenList κ) :
    interleave (split sentinel tokens) (tokens.filter (·.kind = sentinel)) = tokens := by
  induction tokens with
  | nil => rfl
  | cons t ts ih =>
      rw [split_cons]
      split_ifs with ht
      · rw [List.filter_cons_of_pos (by simpa using ht), interleave, ih, List.nil_append]
      · rw [List.filter_cons_of_neg (by simpa using ht),
          interleave_modifyHead t (split_ne_nil sentinel ts), ih]

/-- Tokens in front that are no separators go to the first group. -/
lemma split_append_of_free {front : TokenList κ} (h : ∀ t ∈ front, t.kind ≠ sentinel)
    (rest : TokenList κ) :
    split sentinel (front ++ rest) = (split sentinel rest).modifyHead (front ++ ·) := by
  induction front with
  | nil =>
      obtain ⟨group, groups, hgroups⟩ := List.exists_cons_of_ne_nil (split_ne_nil sentinel rest)
      rw [List.nil_append, hgroups]
      rfl
  | cons t front ih =>
      have ht : t.kind ≠ sentinel := h t List.mem_cons_self
      have hfront := ih fun s hs => h s (List.mem_cons_of_mem t hs)
      rw [List.cons_append, split_cons, if_neg ht, hfront, List.modifyHead_modifyHead]
      rfl

/-- **Interleaving and splitting**: groups without separators are found again, whatever separators
stand between them. -/
theorem split_interleave {groups : List (TokenList κ)} {separators : TokenList κ}
    (hlength : groups.length = separators.length + 1)
    (hgroups : ∀ group ∈ groups, ∀ t ∈ group, t.kind ≠ sentinel)
    (hseparators : ∀ t ∈ separators, t.kind = sentinel) :
    split sentinel (interleave groups separators) = groups := by
  induction groups generalizing separators with
  | nil => simp at hlength
  | cons group groups ih =>
      have hgroup := hgroups group List.mem_cons_self
      cases separators with
      | nil =>
          obtain rfl : groups = [] := by simpa using hlength
          have hsplit := split_append_of_free hgroup []
          simpa [interleave, split] using hsplit
      | cons s separators =>
          have hs : s.kind = sentinel := hseparators s List.mem_cons_self
          have hrest := ih (by simpa using hlength)
            (fun g hg => hgroups g (List.mem_cons_of_mem group hg))
            (fun t ht => hseparators t (List.mem_cons_of_mem s ht))
          rw [interleave, split_append_of_free hgroup, split_cons, if_pos hs, hrest,
            List.modifyHead_cons, List.append_nil]

/-- One turn of the pass over the tokens: a separator opens a group, and any other token is added to
the group that is open, the last one. -/
def splitTurn (sentinel : κ) (groups : List (TokenList κ)) (t : Token κ) : List (TokenList κ) :=
  if t.kind = sentinel then groups ++ [[]] else groups.modifyLast (· ++ [t])

/-- The pass over the tokens goes on with the open group, and leaves those before it alone. -/
lemma foldl_splitTurn (sentinel : κ) (closed : List (TokenList κ)) (current tokens : TokenList κ) :
    tokens.foldl (splitTurn sentinel) (closed ++ [current])
      = closed ++ (split sentinel tokens).modifyHead (current ++ ·) := by
  induction tokens generalizing closed current with
  | nil => simp [split]
  | cons t ts ih =>
      obtain ⟨group, groups, hgroups⟩ := List.exists_cons_of_ne_nil (split_ne_nil sentinel ts)
      rw [List.foldl_cons, splitTurn, split_cons]
      split_ifs with ht
      · rw [ih (closed ++ [current]) [], hgroups]
        simp
      · rw [List.modifyLast_concat, ih closed (current ++ [t]), hgroups]
        simp

/-- **One pass**: the groups are those that one pass over the tokens makes. -/
theorem split_eq_foldl (sentinel : κ) (tokens : TokenList κ) :
    split sentinel tokens = tokens.foldl (splitTurn sentinel) [[]] := by
  obtain ⟨group, groups, hgroups⟩ := List.exists_cons_of_ne_nil (split_ne_nil sentinel tokens)
  have hpass := foldl_splitTurn sentinel [] [] tokens
  rw [List.nil_append, hgroups] at hpass
  rw [hpass, hgroups]
  rfl

/-- **Splitting is the inverse of interleaving.** There is one group more than there are separators,
no group holds a separator, and with the separators in order between them the groups are the tokens.
Conversely, groups without separators are found again, whatever separators stand between them. -/
theorem split_inverts_interleave (sentinel : κ) (tokens : TokenList κ) :
    (split sentinel tokens).length = (tokens.filter (·.kind = sentinel)).length + 1 ∧
    (∀ group ∈ split sentinel tokens, ∀ t ∈ group, t.kind ≠ sentinel) ∧
    interleave (split sentinel tokens) (tokens.filter (·.kind = sentinel)) = tokens ∧
    ∀ (groups : List (TokenList κ)) (separators : TokenList κ),
      groups.length = separators.length + 1 →
      (∀ group ∈ groups, ∀ t ∈ group, t.kind ≠ sentinel) →
      (∀ t ∈ separators, t.kind = sentinel) →
      split sentinel (interleave groups separators) = groups :=
  ⟨length_split sentinel tokens, fun _ hgroup _ ht => kind_ne_of_mem_split hgroup ht,
    interleave_split sentinel tokens, fun _ _ => split_interleave⟩

/-- A token at the beginning of a text. -/
def sampleToken (kind text : String) : Token String :=
  ⟨kind, text, [], none, .start, .between 0 text.length⟩

theorem split_inverts_interleave_commas :
    split "comma" (interleave
        [[], [sampleToken "word" "a", sampleToken "blank" " "], [], [sampleToken "word" "b"], []]
        [sampleToken "comma" ",", sampleToken "comma" ";", sampleToken "comma" ",",
          sampleToken "comma" ""])
      = [[], [sampleToken "word" "a", sampleToken "blank" " "], [], [sampleToken "word" "b"], []] := by
  obtain ⟨-, -, -, hinverse⟩ := split_inverts_interleave "comma" []
  exact hinverse _ _ rfl (by decide) (by decide)

/-! ### What stands between the ends -/

/-- The tokens are `before`, `core` and `after` in a row. The kinds of all tokens before and after
the core are among `kinds`, and those of its first and of its last token are not. -/
structure Trims (kinds : List κ) (tokens before core after : TokenList κ) : Prop where
  append_eq : before ++ core ++ after = tokens
  before_mem : ∀ t ∈ before, t.kind ∈ kinds
  after_mem : ∀ t ∈ after, t.kind ∈ kinds
  first_notMem : ∀ t ∈ core.head?, t.kind ∉ kinds
  last_notMem : ∀ t ∈ core.getLast?, t.kind ∉ kinds

namespace Trims

variable {kinds : List κ} {before core after before' core' after' : TokenList κ}

omit [DecidableEq κ] in
/-- From the other end it is the other way round. -/
lemma reverse (h : Trims kinds tokens before core after) :
    Trims kinds tokens.reverse after.reverse core.reverse before.reverse where
  append_eq := by simp [← h.append_eq]
  before_mem t ht := h.after_mem t (List.mem_reverse.mp ht)
  after_mem t ht := h.before_mem t (List.mem_reverse.mp ht)
  first_notMem t ht := h.last_notMem t (by rwa [List.head?_reverse] at ht)
  last_notMem t ht := h.first_notMem t (by rwa [List.getLast?_reverse] at ht)

/-- If there is a core, what stands before it are the tokens up to the first that is kept. -/
lemma before_eq (h : Trims kinds tokens before core after) (hcore : core ≠ []) :
    before = tokens.takeWhile (·.kind ∈ kinds) := by
  obtain ⟨t, core, rfl⟩ := List.exists_cons_of_ne_nil hcore
  have ht : t.kind ∉ kinds := h.first_notMem t rfl
  rw [← h.append_eq, List.append_assoc, List.takeWhile_append_of_pos (by simpa using h.before_mem),
    List.cons_append, List.takeWhile_cons_of_neg (by simpa using ht), List.append_nil]

omit [DecidableEq κ] in
/-- There is a core just when some token is to be kept. -/
lemma core_ne_nil_iff (h : Trims kinds tokens before core after) :
    core ≠ [] ↔ ∃ t ∈ tokens, t.kind ∉ kinds := by
  constructor
  · intro hcore
    obtain ⟨t, core, rfl⟩ := List.exists_cons_of_ne_nil hcore
    exact ⟨t, by simp [← h.append_eq], h.first_notMem t rfl⟩
  · rintro ⟨t, ht, hkind⟩ rfl
    rw [← h.append_eq, List.append_nil] at ht
    rcases List.mem_append.mp ht with ht | ht
    · exact hkind (h.before_mem t ht)
    · exact hkind (h.after_mem t ht)

/-- **What is taken off is determined** when some token is to be kept, and so is the core. -/
theorem parts_eq (h : Trims kinds tokens before core after)
    (h' : Trims kinds tokens before' core' after') (hkeep : ∃ t ∈ tokens, t.kind ∉ kinds) :
    before' = before ∧ core' = core ∧ after' = after := by
  have hcore : core ≠ [] := h.core_ne_nil_iff.mpr hkeep
  have hcore' : core' ≠ [] := h'.core_ne_nil_iff.mpr hkeep
  obtain rfl : before' = before := by rw [h.before_eq hcore, h'.before_eq hcore']
  -- the tokens after the core are those before it from the other end
  have hafter : after'.reverse = after.reverse := by
    rw [h.reverse.before_eq (by simpa using hcore), h'.reverse.before_eq (by simpa using hcore')]
  obtain rfl : after' = after := List.reverse_injective hafter
  have htokens : before' ++ core' ++ after' = before' ++ core ++ after' :=
    h'.append_eq.trans h.append_eq.symm
  exact ⟨rfl, List.append_cancel_left (List.append_cancel_right htokens), rfl⟩

/-- **The core is determined**: when no token is to be kept, there is none. -/
theorem core_eq (h : Trims kinds tokens before core after)
    (h' : Trims kinds tokens before' core' after') : core' = core := by
  by_cases hkeep : ∃ t ∈ tokens, t.kind ∉ kinds
  · exact (h.parts_eq h' hkeep).2.1
  · have hcore : core = [] := by
      by_contra hne
      exact hkeep (h.core_ne_nil_iff.mp hne)
    have hcore' : core' = [] := by
      by_contra hne
      exact hkeep (h'.core_ne_nil_iff.mp hne)
    rw [hcore, hcore']

end Trims

omit [DecidableEq κ] in
/-- A core without anything around it. -/
lemma Trims.alone {kinds : List κ} {before core after : TokenList κ}
    (h : Trims kinds tokens before core after) : Trims kinds core [] core [] where
  append_eq := by simp
  before_mem := by simp
  after_mem := by simp
  first_notMem := h.first_notMem
  last_notMem := h.last_notMem

/-- **Trimming** takes off the tokens in front of the first that is kept, and of what is left those
behind the last. -/
theorem trims_trim (kinds : List κ) (tokens : TokenList κ) :
    Trims kinds tokens (tokens.takeWhile (·.kind ∈ kinds)) (trim kinds tokens)
      ((trimFront kinds tokens).rtakeWhile (·.kind ∈ kinds)) := by
  have hfront : trimFront kinds tokens = tokens.dropWhile (·.kind ∈ kinds) := by
    simp only [trimFront, List.contains_eq_mem]
  have htrim : trim kinds tokens = (trimFront kinds tokens).rdropWhile (·.kind ∈ kinds) := by
    rw [trim, trimFront, List.rdropWhile]
    simp only [List.contains_eq_mem]
  rw [htrim]
  refine ⟨?_, ?_, ?_, ?_, ?_⟩
  · calc tokens.takeWhile (·.kind ∈ kinds) ++ (trimFront kinds tokens).rdropWhile (·.kind ∈ kinds)
          ++ (trimFront kinds tokens).rtakeWhile (·.kind ∈ kinds)
        = tokens.takeWhile (·.kind ∈ kinds) ++ trimFront kinds tokens := by
          rw [List.append_assoc, List.rdropWhile_append_rtakeWhile]
      _ = tokens := by rw [hfront, List.takeWhile_append_dropWhile]
  · intro t ht
    simpa using List.mem_takeWhile_imp ht
  · intro t ht
    simpa using List.mem_rtakeWhile_imp ht
  · -- the core is the front of what is left of the first token that is kept on
    intro t ht
    obtain ⟨core, hcore⟩ := List.head?_eq_some_iff.mp ht
    obtain ⟨after, hafter⟩ := List.rdropWhile_prefix (·.kind ∈ kinds) (trimFront kinds tokens)
    have hleft : (tokens.dropWhile (·.kind ∈ kinds)).head? = some t := by
      rw [← hfront, ← hafter, hcore]
      rfl
    have hnot := List.head?_dropWhile_not (·.kind ∈ kinds) tokens
    rw [hleft] at hnot
    simpa using hnot
  · intro t ht
    obtain ⟨hne, rfl⟩ := List.mem_getLast?_eq_getLast ht
    simpa using List.rdropWhile_last_not (·.kind ∈ kinds) (trimFront kinds tokens) hne

/-- **Trimming takes off the ends and nothing else.** The tokens are those taken off, the trimmed
list and those taken off; no other list between tokens of these kinds begins and ends with a token
that is kept, and unless no token is kept it stands at no other place. Trimming can be done from
either end, and a second time it takes nothing off. -/
theorem trim_keeps_core (kinds : List κ) (tokens : TokenList κ) :
    (∃ before after, Trims kinds tokens before (trim kinds tokens) after ∧
      ∀ before' core' after', Trims kinds tokens before' core' after' →
        core' = trim kinds tokens ∧
        ((∃ t ∈ tokens, t.kind ∉ kinds) → before' = before ∧ after' = after)) ∧
    trim kinds tokens.reverse = (trim kinds tokens).reverse ∧
    trim kinds (trim kinds tokens) = trim kinds tokens := by
  have htrim := trims_trim kinds tokens
  refine ⟨⟨_, _, htrim, fun before' core' after' h => ⟨htrim.core_eq h, fun hkeep => ?_⟩⟩, ?_, ?_⟩
  · obtain ⟨hbefore, -, hafter⟩ := htrim.parts_eq h hkeep
    exact ⟨hbefore, hafter⟩
  · exact htrim.reverse.core_eq (trims_trim kinds tokens.reverse)
  · exact htrim.alone.core_eq (trims_trim kinds (trim kinds tokens))

/-- Two words, with blanks around and between them. -/
def sampleWords : TokenList String := [
  sampleToken "line" "\n",
  sampleToken "blank" " ",
  sampleToken "word" "a",
  sampleToken "blank" " ",
  sampleToken "word" "b",
  sampleToken "blank" "\t"]

theorem trim_keeps_core_words : ∃ before after,
    Trims ["blank", "line"] sampleWords before (trim ["blank", "line"] sampleWords) after ∧
    [sampleToken "line" "\n", sampleToken "blank" " "] = before ∧
    [sampleToken "word" "a", sampleToken "blank" " ", sampleToken "word" "b"]
      = trim ["blank", "line"] sampleWords ∧
    [sampleToken "blank" "\t"] = after := by
  have htrims : Trims ["blank", "line"] sampleWords
      [sampleToken "line" "\n", sampleToken "blank" " "]
      [sampleToken "word" "a", sampleToken "blank" " ", sampleToken "word" "b"]
      [sampleToken "blank" "\t"] :=
    ⟨rfl, by decide, by decide, by decide, by decide⟩
  have hkeep : ∃ t ∈ sampleWords, t.kind ∉ ["blank", "line"] := by decide
  obtain ⟨⟨before, after, h, honly⟩, -, -⟩ := trim_keeps_core ["blank", "line"] sampleWords
  obtain ⟨hcore, hends⟩ := honly _ _ _ htrims
  obtain ⟨hbefore, hafter⟩ := hends hkeep
  exact ⟨before, after, h, hbefore, hcore, hafter⟩

end TokenList

end RuleLexer
