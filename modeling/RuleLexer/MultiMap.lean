import RuleLexer.StableSort

/-!
Maps that keep a list of values under each key.

* `MultiMap.ofList`, `MultiMap.insert`, `MultiMap.get?`: values are added at the end of their group;
* `MultiMap.sortGroups`: every group is sorted stably, in place;
* `MultiMap.valueCount`: the number of values under all keys.
-/

namespace RuleLexer

/-- The groups of values, each under its key; keys are in the order of their first insertion. -/
structure MultiMap (κ α : Type) where
  groups : List (κ × List α)
deriving Repr

namespace MultiMap

variable {κ α : Type}

/-- The map without values. -/
def empty : MultiMap κ α := ⟨[]⟩

/-- Adds `a` at the end of the group of `k`, which is opened when there is none. -/
def insertGroup [DecidableEq κ] (k : κ) (a : α) : List (κ × List α) → List (κ × List α)
  | [] => [(k, [a])]
  | (k', g) :: rest => if k' = k then (k', g ++ [a]) :: rest else (k', g) :: insertGroup k a rest

/-- Adds the value `a` under the key `k`. -/
def insert [DecidableEq κ] (m : MultiMap κ α) (k : κ) (a : α) : MultiMap κ α :=
  ⟨insertGroup k a m.groups⟩

/-- The map of the pairs, inserted one after another. -/
def ofList [DecidableEq κ] (pairs : List (κ × α)) : MultiMap κ α :=
  pairs.foldl (fun m pair => m.insert pair.1 pair.2) empty

/-- The values under `k`, or nothing when none was ever inserted. -/
def get? [DecidableEq κ] (m : MultiMap κ α) (k : κ) : Option (List α) :=
  (m.groups.find? (·.1 = k)).map (·.2)

/-- The values under all keys. -/
def values (m : MultiMap κ α) : List α :=
  m.groups.flatMap (·.2)

/-- The number of values under all keys. -/
def valueCount (m : MultiMap κ α) : Nat :=
  m.values.length

/-- Sorts every group by `le`, equals staying in their order. -/
def sortGroups (m : MultiMap κ α) (le : α → α → Bool) : MultiMap κ α :=
  ⟨m.groups.map fun (k, g) => (k, stableSort le g)⟩

end MultiMap

end RuleLexer
