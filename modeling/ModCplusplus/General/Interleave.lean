import Mathlib.Data.List.Basic
import Mathlib.Data.List.Perm.Basic
import Mathlib.Tactic.Common

/-!
# Interleavings

Two lists interleave the same sequences if each tag occurs in both with the same elements
in the same order, whatever the order between tags.  Such lists are permutations of each
other, and what looks at one tag only does not tell them apart.

## Main definitions

* `SameSequences` — the lists agree tag by tag.

## Main results

* `SameSequences.perm` — the lists are permutations of each other.
* `SameSequences.filterMap_eq` — a function of one tag collects the same from both.
-/

variable {α β T : Type*} [DecidableEq T]

/-- The elements of each tag occur in the same order in both lists. -/
def SameSequences (tag : α → T) (l l' : List α) : Prop :=
  ∀ t, l.filter (fun a => tag a = t) = l'.filter (fun a => tag a = t)

namespace SameSequences

variable {tag : α → T} {l l' : List α}

theorem symm (h : SameSequences tag l l') : SameSequences tag l' l := fun t => (h t).symm

/-- **Interleavings are permutations of each other.** -/
theorem perm (h : SameSequences tag l l') : l.Perm l' := by
  classical
  rw [List.perm_iff_count]
  intro a
  have hcount : ∀ k : List α, (k.filter fun b => tag b = tag a).count a = k.count a :=
    fun k => List.count_filter (by simp)
  calc l.count a
      = (l.filter fun b => tag b = tag a).count a := (hcount l).symm
    _ = (l'.filter fun b => tag b = tag a).count a := by rw [h (tag a)]
    _ = l'.count a := hcount l'

/-- **What looks at one tag only** collects the same from both. -/
theorem filterMap_eq (h : SameSequences tag l l') {f : α → Option β} {t : T}
    (hf : ∀ a, tag a ≠ t → f a = none) : l.filterMap f = l'.filterMap f := by
  have honly : ∀ k : List α, k.filterMap f = (k.filter fun a => tag a = t).filterMap f := by
    intro k
    rw [List.filterMap_filter]
    apply List.filterMap_congr
    intro a _
    by_cases ha : tag a = t
    · simp [ha]
    · simp [ha, hf a ha]
  rw [honly l, honly l', h t]

end SameSequences
