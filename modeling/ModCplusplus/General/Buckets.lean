import Mathlib.Data.List.Basic
import Mathlib.Data.Nat.Bitwise
import Mathlib.Tactic.Common

/-!
# Lists distributed over buckets

Each element of a list goes to the bucket that its index says, behind those that are
there.  A search for something that decides the index is a search of the bucket of that
index, and finds what a search of the whole list would.

An index that is reduced by a mask is below the mask, if it lacks a bit of the mask.

## Main definitions

* `Buckets.distribute` — a list distributed over a number of buckets.

## Main results

* `Buckets.distribute_append_singleton` — an element is added to its bucket.
* `Buckets.find_bucket` — a search of one bucket.
* `Buckets.and_lt_iff` — which indices a mask reduces below itself.
-/

namespace Buckets

variable {α : Type*} {index : α → ℕ} {n i : ℕ}

/-- A list distributed over buckets. -/
def distribute (index : α → ℕ) (n : ℕ) (l : List α) : List (List α) :=
  (List.range n).map fun i => l.filter (index · = i)

@[simp] theorem length_distribute (index : α → ℕ) (n : ℕ) (l : List α) :
    (distribute index n l).length = n := by
  rw [distribute, List.length_map, List.length_range]

theorem distribute_nil (index : α → ℕ) (n : ℕ) : distribute index n [] = List.replicate n [] := by
  rw [distribute]
  simp

theorem getElem?_distribute (h : i < n) (l : List α) :
    (distribute index n l)[i]? = some (l.filter (index · = i)) := by
  rw [distribute, List.getElem?_map, List.getElem?_range h]
  rfl

/-- **An element is added to its bucket**, and the others stay as they are. -/
theorem distribute_append_singleton (index : α → ℕ) (n : ℕ) (l : List α) (a : α) :
    (distribute index n l).set (index a) (l.filter (index · = index a) ++ [a])
      = distribute index n (l ++ [a]) := by
  refine List.ext_getElem? fun i => ?_
  rw [List.getElem?_set, length_distribute]
  by_cases hi : i < n
  · rw [getElem?_distribute hi, getElem?_distribute hi, List.filter_append]
    split
    · next heq =>
      subst heq
      rw [if_pos hi]
      simp
    · next hne => simp [hne]
  · have hnone (l : List α) : (distribute index n l)[i]? = none :=
      List.getElem?_eq_none (by rw [length_distribute]; omega)
    rw [hnone, hnone]
    split
    · next heq => rw [if_neg (by omega)]
    · rfl

/-- **A search of one bucket** finds what a search of all would. -/
theorem find_bucket {p : α → Bool} (h : ∀ a, p a = true → index a = i) (l : List α) :
    (l.filter (index · = i)).find? p = l.find? p := by
  rw [List.find?_filter]
  congr 1
  funext a
  by_cases hp : p a = true
  · simp [hp, h a hp]
  · simp [hp]

/-! ### Masks -/

/-- **A mask reduces to itself what has all of its bits**, and everything else below. -/
theorem and_lt_iff (x mask : ℕ) :
    x &&& mask < mask ↔ ∃ i, mask.testBit i = true ∧ x.testBit i = false := by
  constructor
  · intro hlt
    by_contra hall
    push Not at hall
    refine hlt.ne (Nat.eq_of_testBit_eq fun i => ?_)
    rw [Nat.testBit_and]
    cases hbit : mask.testBit i with
    | false => exact Bool.and_false _
    | true => simpa using hall i hbit
  · rintro ⟨i, hmask, hbit⟩
    refine lt_of_le_of_ne Nat.and_le_right fun heq => ?_
    rw [← heq, Nat.testBit_and, hbit, Bool.false_and] at hmask
    exact Bool.false_ne_true hmask

end Buckets
