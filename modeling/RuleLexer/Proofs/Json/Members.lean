import Mathlib.Data.List.Forall2
import RuleLexer.Proofs.Json.Spelling

/-!
The members of JSON objects.

* `valuesOf`: everything that members give for a key;
* `Json.IsObject`: objects;
* `Json.depth_le_of_mem`, `Json.depth_le_of_mem_members`: parts are nested less deep than the whole.
-/

namespace RuleLexer

variable {α β : Type}

/-- What members give for a key, in their order. -/
def valuesOf (key : String) (ms : List (String × α)) : List α :=
  ms.filterMap fun m => if m.1 = key then some m.2 else none

@[simp] lemma valuesOf_nil (key : String) : valuesOf key ([] : List (String × α)) = [] := rfl

@[simp] lemma valuesOf_cons_self (key : String) (a : α) (ms : List (String × α)) :
    valuesOf key ((key, a) :: ms) = a :: valuesOf key ms := by
  simp [valuesOf]

@[simp] lemma valuesOf_cons_of_ne {key key' : String} (h : key' ≠ key) (a : α)
    (ms : List (String × α)) : valuesOf key ((key', a) :: ms) = valuesOf key ms := by
  simp [valuesOf, h]

lemma mem_valuesOf_iff {key : String} {a : α} {ms : List (String × α)} :
    a ∈ valuesOf key ms ↔ (key, a) ∈ ms := by
  simp [valuesOf]

/-- What is given for other keys does not matter. -/
lemma valuesOf_filter_ne {key key' : String} (h : key' ≠ key) (ms : List (String × α)) :
    valuesOf key (ms.filter (·.1 ≠ key')) = valuesOf key ms := by
  induction ms with
  | nil => rfl
  | cons m ms ih =>
      obtain ⟨k, a⟩ := m
      by_cases hk : k = key'
      · subst hk
        rw [List.filter_cons_of_neg (by simp), valuesOf_cons_of_ne h, ih]
      · rw [List.filter_cons_of_pos (by simpa using hk)]
        by_cases hkey : k = key
        · subst hkey
          rw [valuesOf_cons_self, valuesOf_cons_self, ih]
        · rw [valuesOf_cons_of_ne hkey, valuesOf_cons_of_ne hkey, ih]

/-- Members that have the same keys and are related give related parts for each key. -/
lemma forall₂_valuesOf {R : α → β → Prop} {ms : List (String × α)} {ms' : List (String × β)}
    (h : List.Forall₂ (fun m m' => m.1 = m'.1 ∧ R m.2 m'.2) ms ms') (key : String) :
    List.Forall₂ R (valuesOf key ms) (valuesOf key ms') := by
  induction h with
  | nil => exact .nil
  | @cons m m' ms ms' hm _ ih =>
      obtain ⟨k, a⟩ := m
      obtain ⟨k', b⟩ := m'
      obtain ⟨rfl, hab⟩ : k = k' ∧ R a b := hm
      by_cases hk : k = key
      · subst hk
        rw [valuesOf_cons_self, valuesOf_cons_self]
        exact .cons hab ih
      · rwa [valuesOf_cons_of_ne hk, valuesOf_cons_of_ne hk]

namespace Json

/-- The value is an object. -/
def IsObject : Json → Prop
  | .object _ => True
  | _ => False

lemma depth_le_of_mem {v : Json} {vs : List Json} (h : v ∈ vs) : v.depth ≤ depthItems vs := by
  induction vs with
  | nil => cases h
  | cons u us ih =>
      rw [depthItems]
      rcases List.mem_cons.1 h with rfl | h
      · exact Nat.le_max_left ..
      · exact Nat.le_trans (ih h) (Nat.le_max_right ..)

lemma depth_le_of_mem_members {m : String × Json} {ms : List (String × Json)} (h : m ∈ ms) :
    m.2.depth ≤ depthMembers ms := by
  induction ms with
  | nil => cases h
  | cons m' ms ih =>
      rw [depthMembers]
      rcases List.mem_cons.1 h with rfl | h
      · exact Nat.le_max_left ..
      · exact Nat.le_trans (ih h) (Nat.le_max_right ..)

lemma depthItems_le {vs : List Json} {n : ℕ} (h : ∀ v ∈ vs, v.depth ≤ n) :
    depthItems vs ≤ n := by
  induction vs with
  | nil => exact Nat.zero_le n
  | cons v vs ih =>
      exact Nat.max_le.2 ⟨h v List.mem_cons_self, ih fun u hu => h u (List.mem_cons_of_mem v hu)⟩

end Json

end RuleLexer
