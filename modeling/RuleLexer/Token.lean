import RuleLexer.Cursor

/-!
Tokens: the pieces that a text is cut into.

* `Token`: a kind, a text, a place, and for a section its markers and what stands between them;
* `Token.content`: the text that a token stands for;
* `Token.render`, `TokenList.render`: the text that tokens were cut from.
-/

namespace RuleLexer

/-- The markers of a section and, unless the section is nested, its inside with the escapes
decoded. -/
structure Delimiters where
  opening : String
  closing : String
  content : Option String
deriving DecidableEq, Repr

/-- A piece of a text. The text of a nested section consists of its two markers only; the tokens of
its inside are in `nested`. -/
structure Token (κ : Type) where
  kind : κ
  text : String
  nested : List (Token κ)
  delimiters : Option Delimiters
  position : Position
  span : Span
deriving Repr

/-- Tokens in the order of the text. -/
abbrev TokenList (κ : Type) := List (Token κ)

variable {κ : Type}

namespace Token

/-- Whether the token is a section. -/
def isSection (t : Token κ) : Bool :=
  t.delimiters.isSome

/-- The decoded inside of a section that is not nested, and the text of any other token. -/
def content (t : Token κ) : String :=
  match t.delimiters with
  | some ⟨_, _, some content⟩ => content
  | _ => t.text

end Token

/-! ### Equality -/

mutual

/-- Tokens are equal when all their parts are. -/
def Token.decEq [DecidableEq κ] : (a b : Token κ) → Decidable (a = b)
  | ⟨kind, text, nested, delimiters, position, span⟩,
    ⟨kind', text', nested', delimiters', position', span'⟩ =>
      if h : kind = kind' ∧ text = text' ∧ delimiters = delimiters' ∧ position = position'
          ∧ span = span' then
        match TokenList.decEq nested nested' with
        | isTrue hn => isTrue (by obtain ⟨rfl, rfl, rfl, rfl, rfl⟩ := h; rw [hn])
        | isFalse hn => isFalse fun e => hn (by injection e)
      else isFalse fun e => h (by injection e; simp_all)

/-- Lists of tokens are equal when they are so place by place. -/
def TokenList.decEq [DecidableEq κ] : (a b : List (Token κ)) → Decidable (a = b)
  | [], [] => isTrue rfl
  | [], _ :: _ => isFalse nofun
  | _ :: _, [] => isFalse nofun
  | a :: as, b :: bs =>
      match Token.decEq a b, TokenList.decEq as bs with
      | isTrue h, isTrue hs => isTrue (by rw [h, hs])
      | isFalse h, _ => isFalse fun e => h (by injection e)
      | _, isFalse hs => isFalse fun e => hs (by injection e)

end

instance [DecidableEq κ] : DecidableEq (Token κ) := Token.decEq

/-! ### Rendering -/

mutual

/-- The text that a token was cut from. A nested section stands between its markers. -/
def Token.render : Token κ → String
  | ⟨_, _, nested, some ⟨opening, closing, none⟩, _, _⟩ =>
      opening ++ TokenList.render nested ++ closing
  | ⟨_, text, _, _, _, _⟩ => text

/-- The text that tokens were cut from, one token after another. -/
def TokenList.render : List (Token κ) → String
  | [] => ""
  | t :: ts => t.render ++ TokenList.render ts

end

end RuleLexer
