import RuleLexer.Proofs.Index

/-!
The groups of a map with a list of values under each key do not depend on each other.

* `Comparison`: a comparison by which values can be sorted;
* `stableSort_eq_mergeSort`: sorting by such a comparison is the library's stable sort;
* `MultiMap.Op`, `MultiMap.ofOps`: insertions and sorts, one after another;
* `MultiMap.replay`: what the operations make of one list, when only the values under one key are
  inserted into it;
* `MultiMap.get?_ofOps`, `MultiMap.replay_filter`, `MultiMap.valueCount_ofOps`: the group of every
  key is such a list, other keys do not matter to it, and no value is lost;
* `MultiMap.ofOps_groups`: all this about one map.
-/

namespace RuleLexer

variable {α : Type}

/-! ### Stable sorting -/

section Sorting

variable {le : α → α → Bool} {a : α} {l : List α}

/-- In an ascending list an element is inserted behind those that it is above. -/
lemma insertSorted_append {front back : List α} (hfront : ∀ b ∈ front, le a b = false)
    (hback : ∀ b ∈ back, le a b = true) :
    insertSorted le a (front ++ back) = front ++ a :: back := by
  induction front with
  | nil =>
      cases back with
      | nil => rfl
      | cons b back => exact if_pos (hback b List.mem_cons_self)
  | cons b front ih =>
      have htail := ih fun c hc => hfront c (List.mem_cons_of_mem b hc)
      rw [List.cons_append, insertSorted, hfront b List.mem_cons_self, htail]
      rfl

/-- **Stable sorting**: by a total preorder there is one way to sort without disturbing the order of
equals. -/
theorem stableSort_eq_mergeSort (htrans : ∀ a b c, le a b = true → le b c = true → le a c = true)
    (htotal : ∀ a b, (le a b || le b a) = true) (l : List α) :
    stableSort le l = l.mergeSort le := by
  induction l with
  | nil => simp [stableSort]
  | cons a l ih =>
      obtain ⟨front, back, hcons, hl, hfront⟩ := List.mergeSort_cons htrans htotal a l
      have hsorted := List.pairwise_mergeSort htrans htotal (a :: l)
      rw [hcons] at hsorted
      have hback := (List.pairwise_cons.mp (List.pairwise_append.mp hsorted).2.1).1
      rw [stableSort, ih, hl, hcons]
      exact insertSorted_append (fun b hb => by simpa using hfront b hb) hback

end Sorting

/-- A comparison by which values can be sorted: being not above is total and transitive. Values may
compare as equal without being the same. -/
structure Comparison (α : Type) where
  compare : α → α → Ordering
  transCmp : Std.TransCmp compare

namespace Comparison

/-- Whether `a` is not above `b`. -/
def le (c : Comparison α) (a b : α) : Bool :=
  (c.compare a b).isLE

lemma le_trans (x : Comparison α) (a b c : α) (hab : x.le a b = true) (hbc : x.le b c = true) :
    x.le a c = true :=
  x.transCmp.isLE_trans hab hbc

lemma le_total (x : Comparison α) (a b : α) : (x.le a b || x.le b a) = true := by
  have hswap : x.compare b a = (x.compare a b).swap := x.transCmp.eq_swap
  rw [le, le, hswap]
  cases x.compare a b <;> rfl

lemma stableSort_eq (x : Comparison α) (l : List α) : stableSort x.le l = l.mergeSort x.le :=
  stableSort_eq_mergeSort x.le_trans x.le_total l

end Comparison

/-! ### Operations on a map -/

namespace MultiMap

variable {ι : Type}

/-- An operation on a map. -/
inductive Op (ι α : Type) where
  /-- A value is added under a key. -/
  | insert (k : ι) (a : α)
  /-- Every group is sorted. -/
  | sort (x : Comparison α)

/-- The key under which the operation adds a value, if it adds one. -/
def Op.key? : Op ι α → Option ι
  | insert k _ => some k
  | sort _ => none

/-- The keys under which the operations add values, one for each value. -/
def insertedKeys (ops : List (Op ι α)) : List ι :=
  ops.filterMap Op.key?

lemma insertedKeys_insert (ops : List (Op ι α)) (k : ι) (a : α) :
    insertedKeys (ops ++ [.insert k a]) = insertedKeys ops ++ [k] := by
  simp [insertedKeys, Op.key?]

lemma insertedKeys_sort (ops : List (Op ι α)) (x : Comparison α) :
    insertedKeys (ops ++ [.sort x]) = insertedKeys ops := by
  simp [insertedKeys, Op.key?]

lemma mem_insertedKeys {k : ι} {ops : List (Op ι α)} :
    k ∈ insertedKeys ops ↔ ∃ a, .insert k a ∈ ops := by
  simp only [insertedKeys, List.mem_filterMap]
  constructor
  · rintro ⟨op, hop, hk⟩
    cases op with
    | insert k' a => exact ⟨a, Option.some_inj.mp hk ▸ hop⟩
    | sort x => cases hk
  · rintro ⟨a, h⟩
    exact ⟨_, h, rfl⟩

variable [DecidableEq ι]

/-- The map after an operation. -/
def apply (m : MultiMap ι α) : Op ι α → MultiMap ι α
  | .insert k a => m.insert k a
  | .sort x => m.sortGroups x.le

/-- The map that some operations make of the map without values. -/
def ofOps (ops : List (Op ι α)) : MultiMap ι α :=
  ops.foldl apply empty

/-- What an operation makes of a list that stands for the group of `k`: a value under `k` goes to
its end, and sorting is the library's stable sort. -/
def Op.onList (k : ι) (l : List α) : Op ι α → List α
  | insert k' a => if k' = k then l ++ [a] else l
  | sort x => l.mergeSort x.le

/-- The list that some operations make of the empty one. -/
def replay (k : ι) (ops : List (Op ι α)) : List α :=
  ops.foldl (Op.onList k) []

/-- Whether the operation matters to the group of `k`: it adds a value under this key or sorts. -/
def Op.concerns (k : ι) (op : Op ι α) : Bool :=
  op.key?.all (· = k)

lemma ofOps_concat (ops : List (Op ι α)) (op : Op ι α) :
    ofOps (ops ++ [op]) = (ofOps ops).apply op :=
  List.foldl_concat ..

lemma replay_concat (k : ι) (ops : List (Op ι α)) (op : Op ι α) :
    replay k (ops ++ [op]) = op.onList k (replay k ops) :=
  List.foldl_concat ..

/-! ### The groups -/

/-- Where no value was added there is none. -/
lemma replay_eq_nil {k : ι} {ops : List (Op ι α)} (h : k ∉ insertedKeys ops) :
    replay k ops = [] := by
  induction ops using List.reverseRecOn with
  | nil => rfl
  | append_singleton ops op ih =>
      rw [replay_concat]
      cases op with
      | insert k' a =>
          rw [insertedKeys_insert, List.mem_append, List.mem_singleton, not_or] at h
          rw [ih h.1]
          exact if_neg (Ne.symm h.2)
      | sort x =>
          rw [insertedKeys_sort] at h
          rw [ih h]
          exact List.mergeSort_nil

/-- **Groups**: the group of a key is what the operations make of one list. -/
theorem get?_ofOps (ops : List (Op ι α)) (k : ι) :
    (ofOps ops).get? k = if k ∈ insertedKeys ops then some (replay k ops) else none := by
  induction ops using List.reverseRecOn with
  | nil => rfl
  | append_singleton ops op ih =>
      rw [ofOps_concat, replay_concat]
      cases op with
      | insert k' a =>
          have hgroup : ((ofOps ops).get? k).getD [] = replay k ops := by
            rw [ih]
            split_ifs with h
            · rfl
            · exact (replay_eq_nil h).symm
          rw [apply, get?_insert, insertedKeys_insert]
          by_cases hk : k' = k
          · subst hk
            simp [hgroup, Op.onList]
          · simp [hk, Ne.symm hk, ih, Op.onList]
      | sort x =>
          rw [apply, get?_sortGroups, ih, insertedKeys_sort]
          split_ifs with h
          · exact congrArg some (x.stableSort_eq _)
          · rfl

/-- Values under other keys do not matter to a group. -/
theorem replay_filter (k : ι) (ops : List (Op ι α)) :
    replay k (ops.filter (Op.concerns k)) = replay k ops := by
  induction ops using List.reverseRecOn with
  | nil => rfl
  | append_singleton ops op ih =>
      rw [List.filter_append, replay_concat, ← ih]
      cases h : op.concerns k with
      | true => rw [List.filter_singleton, h, cond_true, replay_concat]
      | false =>
          rw [List.filter_singleton, h, cond_false, List.append_nil]
          cases op with
          | insert k' a =>
              have hk : k' ≠ k := by simpa [Op.concerns, Op.key?] using h
              exact (if_neg hk).symm
          | sort x => cases h

lemma mem_insertedKeys_filter {k : ι} {ops : List (Op ι α)} :
    k ∈ insertedKeys (ops.filter (Op.concerns k)) ↔ k ∈ insertedKeys ops := by
  simp only [insertedKeys, List.mem_filterMap, List.mem_filter]
  constructor
  · rintro ⟨op, ⟨hop, -⟩, hk⟩
    exact ⟨op, hop, hk⟩
  · rintro ⟨op, hop, hk⟩
    exact ⟨op, ⟨hop, by simp [Op.concerns, hk]⟩, hk⟩

/-! ### The number of values -/

lemma valueCount_insert (m : MultiMap ι α) (k : ι) (a : α) :
    (m.insert k a).valueCount = m.valueCount + 1 := by
  obtain ⟨groups⟩ := m
  simp only [valueCount, values, insert]
  induction groups with
  | nil => rfl
  | cons group rest ih =>
      obtain ⟨k', g⟩ := group
      rw [insertGroup]
      split_ifs with h
      · simp only [List.flatMap_cons, List.length_append, List.length_singleton]
        omega
      · simp only [List.flatMap_cons, List.length_append, ih]
        omega

omit [DecidableEq ι] in
lemma valueCount_sortGroups (m : MultiMap ι α) (le : α → α → Bool) :
    (m.sortGroups le).valueCount = m.valueCount := by
  obtain ⟨groups⟩ := m
  simp only [valueCount, values, sortGroups]
  induction groups with
  | nil => rfl
  | cons group rest ih =>
      simp only [List.map_cons, List.flatMap_cons, List.length_append, ih,
        (perm_stableSort le group.2).length_eq]

/-- **No loss**: every insertion adds one value, and sorting none. -/
theorem valueCount_ofOps (ops : List (Op ι α)) :
    (ofOps ops).valueCount = (insertedKeys ops).length := by
  induction ops using List.reverseRecOn with
  | nil => rfl
  | append_singleton ops op ih =>
      rw [ofOps_concat]
      cases op with
      | insert k a =>
          rw [apply, valueCount_insert, ih, insertedKeys_insert, List.length_append]
          rfl
      | sort x => rw [apply, valueCount_sortGroups, ih, insertedKeys_sort]

/-- **Independent groups**: a key has a group once a value was inserted under it, and the group is
the list that its insertions and the sorts make. Insertions under other keys do not matter to it,
and there are as many values as there were insertions. -/
theorem ofOps_groups (ops : List (Op ι α)) :
    (∀ k, (ofOps ops).get? k = none ↔ ∀ a, .insert k a ∉ ops) ∧
    (∀ k a, .insert k a ∈ ops → (ofOps ops).get? k = some (replay k ops)) ∧
    (∀ k, (ofOps ops).get? k = (ofOps (ops.filter (Op.concerns k))).get? k) ∧
    (ofOps ops).valueCount = (insertedKeys ops).length := by
  refine ⟨fun k => ?_, fun k a h => ?_, fun k => ?_, valueCount_ofOps ops⟩
  · rw [get?_ofOps, ite_eq_right_iff, ← not_exists, ← mem_insertedKeys]
    exact ⟨fun h hk => Option.some_ne_none _ (h hk), fun h hk => absurd hk h⟩
  · rw [get?_ofOps, if_pos (mem_insertedKeys.mpr ⟨a, h⟩)]
  · simp only [get?_ofOps, replay_filter, mem_insertedKeys_filter]

/-- Words compared by their length. -/
def byLength : Comparison String where
  compare := compareOn String.length
  transCmp := inferInstance

/-- Words under their first letters: those of one length stay in the order of insertion, whatever is
inserted under the other letter. -/
theorem ofOps_groups_words :
    let ops := [.insert 'b' "bee", .insert 'a' "ant", .sort byLength, .insert 'b' "by",
      .insert 'b' "bat", .sort byLength]
    .insert 'b' "bee" ∈ ops ∧ replay 'b' ops = ["by", "bee", "bat"] := by
  intro ops
  have hmem : .insert 'b' "bee" ∈ ops := List.mem_cons_self
  have hgroup := (ofOps_groups ops).2.1 'b' "bee" hmem
  exact ⟨hmem, Option.some_inj.mp (hgroup.symm.trans (by decide +kernel))⟩

end MultiMap

end RuleLexer
