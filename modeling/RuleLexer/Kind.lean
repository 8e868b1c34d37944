import RuleLexer.Text.Quoted

/-!
Kinds: the tags by which the caller of the library tells tokens apart.

* `Inspect`: kinds that can be shown in messages;
* `Choice`: the kinds that are one of a fixed list of names.

Texts, 32-bit integers and choices are kinds.
-/

namespace RuleLexer

/-- Values that can be shown to whoever reads a message. -/
class Inspect (α : Type) where
  /-- The value in words. -/
  inspect : α → String

/-- A text is shown between quotes. -/
instance : Inspect String := ⟨Quoted.string⟩

/-- An integer is shown in decimal. -/
instance : Inspect Int32 := ⟨fun n => toString n.toInt⟩

/-- One of the given names. -/
structure Choice (names : List String) where
  name : String
  mem : name ∈ names
deriving DecidableEq

namespace Choice

variable {names : List String}

/-- The choice with a given name, if it is one of the names. -/
def ofName? (name : String) : Option (Choice names) :=
  if h : name ∈ names then some ⟨name, h⟩ else none

/-- A choice is shown as its bare name. -/
instance : Inspect (Choice names) := ⟨Choice.name⟩

end Choice

end RuleLexer
