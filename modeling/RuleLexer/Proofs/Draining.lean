import Mathlib.Tactic
import RuleLexer.Token.List

/-!
Taking tokens one after another, up to the first whose kind is not allowed.

* `TokenList.allowedPrefix`, `TokenList.answers`: the tokens up to there, and what a drain has to
  say of a list;
* `Drain.next_of_finished`, `Drain.nextMany_of_finished`: after its last answer a drain takes
  nothing;
* `Drain.nextMany_eq`: any number of calls gives the answers in order, and then nothing any more;
  what is left are the tokens that no answer was about;
* `Drain.consumeMany_eq`: up to the last answer these are calls of `consume`;
* `Drain.exhaust_eq`: calling until nothing comes gives all the answers;
* `Drain.nextMany_drains`: all this about one drain.
-/

namespace RuleLexer

variable {κ : Type} [DecidableEq κ]

/-! ### What a list has to answer -/

namespace TokenList

lemma allows_iff {allowed : List κ} {kind : κ} :
    allows allowed kind = true ↔ allowed = [] ∨ kind ∈ allowed := by
  simp [allows]

/-- The tokens up to the first whose kind is not allowed. The empty list allows every kind. -/
def allowedPrefix (allowed : List κ) (tokens : TokenList κ) : TokenList κ :=
  tokens.takeWhile fun t => allowed = [] ∨ t.kind ∈ allowed

/-- The error about a token whose kind is not allowed. -/
def illegal [Inspect κ] (t : Token κ) : ScanError :=
  .illegalToken (Inspect.inspect t.kind) t.text

/-- The tokens up to the first whose kind is not allowed, and the error about this one. -/
def answers [Inspect κ] (allowed : List κ) (tokens : TokenList κ) :
    List (Except ScanError (Token κ)) :=
  (allowedPrefix allowed tokens).map .ok ++
    (tokens[(allowedPrefix allowed tokens).length]?.map fun t => .error (illegal t)).toList

section

variable {allowed : List κ} {t : Token κ} {ts : TokenList κ}

lemma allowedPrefix_cons_of_allows (h : allows allowed t.kind = true) :
    allowedPrefix allowed (t :: ts) = t :: allowedPrefix allowed ts :=
  List.takeWhile_cons_of_pos (by simpa using allows_iff.mp h)

lemma allowedPrefix_cons_of_not_allows (h : allows allowed t.kind = false) :
    allowedPrefix allowed (t :: ts) = [] := by
  refine List.takeWhile_cons_of_neg ?_
  have hnot : ¬ (allowed = [] ∨ t.kind ∈ allowed) := by
    rw [← allows_iff, h]
    simp
  simpa using hnot

lemma length_allowedPrefix_le (allowed : List κ) (tokens : TokenList κ) :
    (allowedPrefix allowed tokens).length ≤ tokens.length :=
  (List.takeWhile_prefix _).length_le

variable [Inspect κ]

lemma answers_nil (allowed : List κ) : answers allowed ([] : TokenList κ) = [] :=
  rfl

lemma answers_cons_of_allows (h : allows allowed t.kind = true) :
    answers allowed (t :: ts) = .ok t :: answers allowed ts := by
  simp [answers, allowedPrefix_cons_of_allows h]

lemma answers_cons_of_not_allows (h : allows allowed t.kind = false) :
    answers allowed (t :: ts) = [.error (illegal t)] := by
  simp [answers, allowedPrefix_cons_of_not_allows h]

end

end TokenList

open TokenList

variable [Inspect κ] {allowed : List κ} {tokens ts : TokenList κ} {t : Token κ} {d : Drain κ}

namespace Drain

/-! ### One call -/

/-- After its last answer a drain takes nothing. -/
lemma next_of_finished (h : d.finished = true) : d.next allowed = (none, d) := by
  rw [next, if_pos h]

lemma next_nil : next allowed ⟨[], false⟩ = (none, (⟨[], true⟩ : Drain κ)) :=
  rfl

lemma next_of_allows (h : allows allowed t.kind = true) :
    next allowed ⟨t :: ts, false⟩ = (some (.ok t), ⟨ts, false⟩) := by
  simp [next, consume, h]

/-- The token that is not allowed is taken, too. -/
lemma next_of_not_allows (h : allows allowed t.kind = false) :
    next allowed ⟨t :: ts, false⟩ = (some (.error (illegal t)), ⟨ts, true⟩) := by
  simp [next, consume, h, illegal]

/-! ### Calls in a row -/

lemma nextMany_succ (allowed : List κ) (n : ℕ) (d : Drain κ) :
    nextMany allowed (n + 1) d
      = ((d.next allowed).1 :: (nextMany allowed n (d.next allowed).2).1,
          (nextMany allowed n (d.next allowed).2).2) :=
  rfl

/-- After its last answer a drain takes nothing, however often it is called. -/
lemma nextMany_of_finished (h : d.finished = true) (n : ℕ) :
    nextMany allowed n d = (List.replicate n none, d) := by
  induction n with
  | zero => rfl
  | succ n ih => rw [nextMany_succ, next_of_finished h, ih, List.replicate_succ]

/-- **Calls in a row** give the answers in order, and nothing when there are no more of them. Every
answer takes the token that it is about. -/
theorem nextMany_eq (allowed : List κ) (n : ℕ) (tokens : TokenList κ) :
    nextMany allowed n ⟨tokens, false⟩
      = (((answers allowed tokens).take n).map some
            ++ List.replicate (n - (answers allowed tokens).length) none,
          ⟨tokens.drop (min n ((allowedPrefix allowed tokens).length + 1)),
            decide ((allowedPrefix allowed tokens).length < n)⟩) := by
  induction n generalizing tokens with
  | zero => simp [nextMany]
  | succ n ih =>
      rw [nextMany_succ]
      cases tokens with
      | nil =>
          rw [next_nil, nextMany_of_finished rfl]
          simp [answers_nil, allowedPrefix, List.replicate_succ]
      | cons t ts =>
          cases h : allows allowed t.kind with
          | true =>
              rw [next_of_allows h, ih, answers_cons_of_allows h, allowedPrefix_cons_of_allows h]
              simp [Nat.add_min_add_right]
          | false =>
              rw [next_of_not_allows h, nextMany_of_finished rfl, answers_cons_of_not_allows h,
                allowedPrefix_cons_of_not_allows h]
              simp

end Drain

/-! ### Calls of `consume` -/

/-- What `consume` answers when the drain gives the answer. -/
def Drain.asConsumed : Option (Except ScanError (Token κ)) → Except ScanError (Option (Token κ))
  | none => .ok none
  | some (.ok t) => .ok (some t)
  | some (.error e) => .error e

/-- The answers to `n` calls of `consume` in a row, and the list that is left. -/
def TokenList.consumeMany (allowed : List κ) : ℕ → TokenList κ →
    List (Except ScanError (Option (Token κ))) × TokenList κ
  | 0, tokens => ([], tokens)
  | n + 1, tokens =>
      let (answer, tokens) := consume allowed tokens
      let (answers, tokens) := consumeMany allowed n tokens
      (answer :: answers, tokens)

namespace Drain

/-- A call of a drain that has not given its last answer is a call of `consume`. -/
lemma consume_eq_next (allowed : List κ) (tokens : TokenList κ) :
    consume allowed tokens
      = (asConsumed (next allowed ⟨tokens, false⟩).1, (next allowed ⟨tokens, false⟩).2.tokens) := by
  cases tokens with
  | nil => rfl
  | cons t ts =>
      cases h : allows allowed t.kind with
      | true =>
          rw [next_of_allows h]
          simp [consume, h, asConsumed]
      | false =>
          rw [next_of_not_allows h]
          simp [consume, h, asConsumed, illegal]

/-- **Up to the last answer** the calls of a drain are calls of `consume`. -/
theorem consumeMany_eq {n : ℕ} (h : n ≤ (allowedPrefix allowed tokens).length + 1) :
    consumeMany allowed n tokens
      = ((nextMany allowed n ⟨tokens, false⟩).1.map asConsumed,
          (nextMany allowed n ⟨tokens, false⟩).2.tokens) := by
  induction n generalizing tokens with
  | zero => rfl
  | succ n ih =>
      -- a call that is not the last one leaves a drain that goes on
      have hnext : n = 0 ∨ (next allowed ⟨tokens, false⟩).2.finished = false ∧
          n ≤ (allowedPrefix allowed (next allowed ⟨tokens, false⟩).2.tokens).length + 1 := by
        cases tokens with
        | nil => exact .inl (by simpa [allowedPrefix] using h)
        | cons t ts =>
            cases hallows : allows allowed t.kind with
            | true =>
                rw [allowedPrefix_cons_of_allows hallows, List.length_cons] at h
                rw [next_of_allows hallows]
                exact .inr ⟨rfl, Nat.le_of_succ_le_succ h⟩
            | false =>
                rw [allowedPrefix_cons_of_not_allows hallows] at h
                exact .inl (by simpa using h)
      rw [consumeMany, consume_eq_next, nextMany_succ]
      rcases hnext with rfl | ⟨hfinished, hle⟩
      · rfl
      · have hrest := ih hle
        generalize (next allowed ⟨tokens, false⟩).2 = d at hfinished hrest ⊢
        obtain ⟨left, finished⟩ := d
        obtain rfl : finished = false := hfinished
        simp only [hrest, List.map_cons]

/-! ### All the answers -/

lemma length_answers_le (allowed : List κ) (tokens : TokenList κ) :
    (answers allowed tokens).length ≤ (allowedPrefix allowed tokens).length + 1 := by
  rw [answers, List.length_append, List.length_map]
  cases tokens[(allowedPrefix allowed tokens).length]? <;> simp

/-- **Calling until nothing comes** gives all the answers. -/
theorem exhaust_eq (allowed : List κ) (tokens : TokenList κ) :
    exhaust allowed ⟨tokens, false⟩
      = ((answers allowed tokens).map some ++ [none],
          ⟨tokens.drop ((allowedPrefix allowed tokens).length + 1), true⟩) := by
  have hprefix := length_allowedPrefix_le allowed tokens
  have hanswers := length_answers_le allowed tokens
  have hcalls : (answers allowed tokens).length < tokens.length + 2 := by omega
  have hmin : min (tokens.length + 2) ((allowedPrefix allowed tokens).length + 1)
      = (allowedPrefix allowed tokens).length + 1 := by omega
  have hlast : (allowedPrefix allowed tokens).length < tokens.length + 2 := by omega
  obtain ⟨k, hk⟩ : ∃ k, tokens.length + 2 - (answers allowed tokens).length = k + 1 :=
    ⟨tokens.length + 1 - (answers allowed tokens).length, by omega⟩
  rw [exhaust, nextMany_eq]
  simp only [List.take_of_length_le hcalls.le, hk, hmin, hlast, decide_true, List.replicate_succ]
  rw [List.takeWhile_append_of_pos (by simp)]
  simp

/-- **Draining.** The first answers to any number of calls are the tokens up to the first whose kind
is not allowed, the next one is the error about that token, and after it, or after the last token,
nothing comes. Every answer takes the token that it is about, and no other token is taken. Up to the
first answer that is an error or nothing, the answers and what is left are those of calls of
`consume`. -/
theorem nextMany_drains (allowed : List κ) (n : ℕ) (tokens : TokenList κ) :
    (nextMany allowed n ⟨tokens, false⟩).1
      = ((answers allowed tokens).take n).map some
          ++ List.replicate (n - (answers allowed tokens).length) none ∧
    (nextMany allowed n ⟨tokens, false⟩).2.tokens
      = tokens.drop (min n ((allowedPrefix allowed tokens).length + 1)) ∧
    (n ≤ (allowedPrefix allowed tokens).length + 1 →
      consumeMany allowed n tokens
        = ((nextMany allowed n ⟨tokens, false⟩).1.map asConsumed,
            (nextMany allowed n ⟨tokens, false⟩).2.tokens)) := by
  refine ⟨?_, ?_, consumeMany_eq⟩
  · rw [nextMany_eq]
  · rw [nextMany_eq]

/-- Three tokens, of which the second is not a word. -/
def mixedTokens : TokenList String := [
  ⟨"word", "a", [], none, .start, .between 0 1⟩,
  ⟨"equal", "=", [], none, .start, .between 1 2⟩,
  ⟨"word", "b", [], none, .start, .between 2 3⟩]

theorem nextMany_drains_mixed :
    2 ≤ (allowedPrefix ["word"] mixedTokens).length + 1 ∧
    consumeMany ["word"] 2 mixedTokens
      = ((nextMany ["word"] 2 ⟨mixedTokens, false⟩).1.map asConsumed,
          (nextMany ["word"] 2 ⟨mixedTokens, false⟩).2.tokens) ∧
    (nextMany ["word"] 4 ⟨mixedTokens, false⟩).1
      = [some (.ok ⟨"word", "a", [], none, .start, .between 0 1⟩),
          some (.error (.illegalToken "\"equal\"" "=")), none, none] ∧
    (nextMany ["word"] 4 ⟨mixedTokens, false⟩).2.tokens
      = [⟨"word", "b", [], none, .start, .between 2 3⟩] := by
  have hcalls : 2 ≤ (allowedPrefix ["word"] mixedTokens).length + 1 := by decide
  obtain ⟨-, -, hconsume⟩ := nextMany_drains ["word"] 2 mixedTokens
  obtain ⟨hanswers, hleft, -⟩ := nextMany_drains ["word"] 4 mixedTokens
  have hspelled : Inspect.inspect "equal" = "\"equal\"" := by decide +kernel
  refine ⟨hcalls, hconsume hcalls, ?_, hleft⟩
  rw [hanswers, ← hspelled]
  rfl

end Drain

end RuleLexer
