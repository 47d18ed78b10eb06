import Mathlib.Data.List.Basic
import Mathlib.Data.List.Count
import Mathlib.Tactic.Common

/-!
# Cleanup stacks

Cleanups are registered one after the other and run in the opposite order when
their owner is destroyed.  A stack is the list of registered cleanups, newest
first, and destroying it concatenates what the cleanups do.

## Main definitions

* `CleanupStack.register`, `CleanupStack.destroy` — push, and run newest first.
* `CleanupStack.Precedes` — one event happens before another in a trace.

## Main results

* `CleanupStack.count_destroy_register` — how often an event happens.
* `CleanupStack.Precedes.register` — registering keeps what happens in order.
* `CleanupStack.Precedes.of_filterMap` — so does a trace with other events in between.
-/

namespace CleanupStack

variable {κ ε : Type*}

/-- Register a cleanup. -/
def register (c : κ) (stack : List κ) : List κ := c :: stack

/-- Run the cleanups, the one registered last first. -/
def destroy (run : κ → List ε) (stack : List κ) : List ε := stack.flatMap run

@[simp] theorem destroy_nil (run : κ → List ε) : destroy run [] = [] := rfl

@[simp] theorem destroy_register (run : κ → List ε) (c : κ) (stack : List κ) :
    destroy run (register c stack) = run c ++ destroy run stack := rfl

theorem count_destroy_register [DecidableEq ε] (run : κ → List ε) (c : κ) (stack : List κ) (e : ε) :
    (destroy run (register c stack)).count e = (run c).count e + (destroy run stack).count e := by
  rw [destroy_register, List.count_append]

/-- `x` happens in the trace before `y` does. -/
def Precedes (trace : List ε) (x y : ε) : Prop := ∃ a b, trace = a ++ b ∧ x ∈ a ∧ y ∈ b

theorem Precedes.append_left {trace : List ε} {x y : ε} (h : Precedes trace x y) (pre : List ε) :
    Precedes (pre ++ trace) x y := by
  obtain ⟨a, b, rfl, hx, hy⟩ := h
  exact ⟨pre ++ a, b, (List.append_assoc _ _ _).symm, List.mem_append_right _ hx, hy⟩

theorem precedes_append {s t : List ε} {x y : ε} (hx : x ∈ s) (hy : y ∈ t) :
    Precedes (s ++ t) x y := ⟨s, t, rfl, hx, hy⟩

/-- Events in order among those picked out are so in the trace. -/
theorem Precedes.of_filterMap {ε' : Type*} {pick : ε' → Option ε} {trace : List ε'} {x y : ε}
    (h : Precedes (trace.filterMap pick) x y) :
    ∃ x' y', pick x' = some x ∧ pick y' = some y ∧ Precedes trace x' y' := by
  obtain ⟨a, b, htrace, hx, hy⟩ := h
  obtain ⟨a', b', rfl, rfl, rfl⟩ := List.filterMap_eq_append_iff.mp htrace
  obtain ⟨x', hx', hpick⟩ := List.mem_filterMap.mp hx
  obtain ⟨y', hy', hpick'⟩ := List.mem_filterMap.mp hy
  exact ⟨x', y', hpick, hpick', a', b', rfl, hx', hy'⟩

/-- Registering more cleanups keeps the order among the old ones. -/
theorem Precedes.register {run : κ → List ε} {stack : List κ} {x y : ε}
    (h : Precedes (destroy run stack) x y) (c : κ) :
    Precedes (destroy run (CleanupStack.register c stack)) x y := h.append_left (run c)

end CleanupStack
