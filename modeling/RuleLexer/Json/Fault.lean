/-!
Why a text is not JSON.

* `Fault`: it goes on with something that cannot stand there, or it ends too early;
* `Fault.at`: the fault of a text that does not go on as it must;
* `Faults`: the fault for a reader that decodes a value, and for one that passes over it.

Passing over a value is the more lenient: it takes surrogates that stand alone and numbers of any
size.
-/

namespace RuleLexer

/-- Why a text is not JSON. -/
inductive Fault where
  /-- Something stands where it must not. -/
  | malformed
  /-- The text ends too early. -/
  | truncated
deriving DecidableEq, Repr

/-- The fault of a text that should go on otherwise than with `rest`. -/
def Fault.at (rest : List Char) : Fault :=
  if rest.isEmpty then .truncated else .malformed

/-- The faults that two kinds of readers meet at one place. -/
structure Faults where
  /-- The fault for a reader that decodes the value. -/
  asRead : Fault
  /-- The fault for a reader that passes over the value. -/
  asSkipped : Fault
deriving DecidableEq, Repr

/-- The same fault for both kinds of readers. -/
def Faults.both (fault : Fault) : Faults := ⟨fault, fault⟩

end RuleLexer
