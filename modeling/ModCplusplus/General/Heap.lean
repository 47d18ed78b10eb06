import Mathlib.Data.List.Basic
import Mathlib.Data.List.ReduceOption
import ModCplusplus.General.Memory

/-!
# Heaps

Objects are made on a heap one after the other, and what has been deleted leaves its place
empty: no address is given out twice, so that whatever goes through a pointer to an object
that is no longer there is seen to do so.

What a computation does with pointers can be compared with what another one does that has
the objects in hand.

## Main definitions

* `Heap`, `HeapFault` — the objects by address, and what can go wrong with a pointer.
* `Heap.new`, `Heap.read`, `Heap.update`, `Heap.delete`, `Heap.objects` — their use.
* `Follows` — a computation with pointers does what one without them does.
* `Heap.Holds` — one object at most has been made and not deleted since.

## Main results

* `Follows.bind` — one part follows the other, one by one.
* `Heap.read_at`, `Heap.follows_update`, `Heap.delete_at` — the use of an object made since.
* `Heap.Holds.delete`, `Heap.Holds.objects` — what is left in the end.
* `Heap.map_get_mono`, `Heap.map_get_range` — pointers that are good.
-/

/-- A fault of a computation with pointers: there is no object at an address, or an
access inside an object faults. -/
inductive HeapFault where
  | dangling (p : ℕ)
  | inside (fault : Fault)
  deriving DecidableEq, Repr

universe u

/-! ### Computations with and without pointers -/

section Follows

variable {α β α' β' : Type u}

/-- A step without pointers, within a computation that has them. -/
def inside (x : Except Fault α) : Except HeapFault α := x.mapError .inside

/-- **The second computation follows the first**: it faults where the first faults, and
nowhere else, and the results are related. -/
def Follows (R : α → β → Prop) : Except Fault α → Except HeapFault β → Prop
  | .ok a, .ok b => R a b
  | .error fault, .error fault' => fault' = .inside fault
  | _, _ => False

theorem Follows.bind {R : α → β → Prop} {S : α' → β' → Prop} {x : Except Fault α}
    {y : Except HeapFault β} (h : Follows R x y) {f : α → Except Fault α'}
    {g : β → Except HeapFault β'} (hnext : ∀ a b, R a b → Follows S (f a) (g b)) :
    Follows S (x >>= f) (y >>= g) := by
  cases x with
  | error fault =>
    cases y with
    | error fault' => exact h
    | ok b => exact h.elim
  | ok a =>
    cases y with
    | error fault' => exact h.elim
    | ok b => exact hnext a b h

/-- The same step, with and without pointers. -/
theorem Follows.step {S : α' → β' → Prop} (x : Except Fault α) {f : α → Except Fault α'}
    {g : α → Except HeapFault β'} (hnext : ∀ a, Follows S (f a) (g a)) :
    Follows S (x >>= f) (inside x >>= g) := by
  cases x with
  | error fault => exact rfl
  | ok a => exact hnext a

/-- What follows a computation that gets through gets through. -/
theorem Follows.of_ok {R : α → β → Prop} {a : α} {y : Except HeapFault β}
    (h : Follows R (.ok a) y) : ∃ b, y = .ok b ∧ R a b := by
  cases y with
  | error fault => exact h.elim
  | ok b => exact ⟨b, rfl, h⟩

/-- What follows a computation that faults faults alike. -/
theorem Follows.of_error {R : α → β → Prop} {fault : Fault} {y : Except HeapFault β}
    (h : Follows R (.error fault) y) : y = .error (.inside fault) := by
  cases y with
  | error fault' => exact congrArg Except.error h
  | ok b => exact h.elim

end Follows

/-! ### Objects by address -/

/-- The objects that have been made, in the order of their addresses; nothing is left in
the place of one that has been deleted. -/
@[ext] structure Heap (β : Type u) where
  cells : List (Option β)

namespace Heap

variable {β : Type u}

/-- The heap before any object is made. -/
def empty : Heap β := ⟨[]⟩

/-- The next address. -/
def size (h : Heap β) : ℕ := h.cells.length

/-- `new`. -/
def new (b : β) (h : Heap β) : ℕ × Heap β := (h.size, ⟨h.cells ++ [some b]⟩)

/-- The object at an address, if it is there. -/
def get (h : Heap β) (p : ℕ) : Option β := h.cells[p]?.join

/-- Read through a pointer. -/
def read (p : ℕ) (h : Heap β) : Except HeapFault β :=
  match h.get p with
  | some b => .ok b
  | none => .error (.dangling p)

/-- Write through a pointer, what the object makes of its content. -/
def update (p : ℕ) (f : β → Except Fault β) (h : Heap β) : Except HeapFault (Heap β) := do
  let b ← h.read p
  let b ← inside (f b)
  return ⟨h.cells.set p (some b)⟩

/-- `delete`. -/
def delete (p : ℕ) (h : Heap β) : Except HeapFault (Heap β) := do
  let _ ← h.read p
  return ⟨h.cells.set p none⟩

/-- The objects that are there. -/
def objects (h : Heap β) : List β := h.cells.reduceOption

/-- The heap with more places behind it. -/
def extend (h : Heap β) (l : List (Option β)) : Heap β := ⟨h.cells ++ l⟩

variable (h : Heap β)

@[simp] theorem extend_nil : h.extend [] = h := Heap.ext (List.append_nil _)

@[simp] theorem size_extend (l : List (Option β)) : (h.extend l).size = h.size + l.length :=
  List.length_append

theorem objects_extend (l : List (Option β)) :
    (h.extend l).objects = h.objects ++ l.reduceOption := List.reduceOption_append _ _

theorem objects_extend_some (bs : List β) : (h.extend (bs.map some)).objects = h.objects ++ bs := by
  rw [objects_extend, List.reduceOption, List.filterMap_map]
  exact congrArg (h.objects ++ ·) List.filterMap_some

theorem new_extend (b : β) (l : List (Option β)) :
    (h.extend l).new b = (h.size + l.length, h.extend (l ++ [some b])) := by
  rw [new, size_extend]
  exact Prod.ext rfl (Heap.ext (List.append_assoc _ _ _))

/-- What was made stays where it is. -/
theorem get_extend_of_lt {p : ℕ} (hp : p < h.size) (l : List (Option β)) :
    (h.extend l).get p = h.get p := by
  rw [get, get, extend, List.getElem?_append_left hp]

theorem get_extend_of_get {p : ℕ} {b : β} (hb : h.get p = some b) (l : List (Option β)) :
    (h.extend l).get p = some b := by
  have hp : p < h.size := by
    by_contra hp
    rw [get, List.getElem?_eq_none (not_lt.mp hp)] at hb
    exact absurd hb nofun
  rw [get_extend_of_lt h hp, hb]

/-! ### An object made since -/

theorem get_extend_add (l : List (Option β)) (i : ℕ) :
    (h.extend l).get (h.size + i) = l[i]?.join := by
  rw [get, extend, size, List.getElem?_append_right (Nat.le_add_right _ _), Nat.add_sub_cancel_left]

theorem get_at (l m : List (Option β)) (o : Option β) :
    (h.extend (l ++ o :: m)).get (h.size + l.length) = o := by
  rw [get_extend_add, List.getElem?_append_right (le_refl _), Nat.sub_self]
  rfl

theorem read_at (l m : List (Option β)) (b : β) :
    (h.extend (l ++ some b :: m)).read (h.size + l.length) = .ok b := by
  rw [read, get_at]

theorem set_at (l m : List (Option β)) (o o' : Option β) :
    (⟨(h.extend (l ++ o :: m)).cells.set (h.size + l.length) o'⟩ : Heap β)
      = h.extend (l ++ o' :: m) := by
  refine Heap.ext ?_
  rw [extend, extend, size]
  simp

/-- **Writing to an object** follows the write without a pointer. -/
theorem follows_update (f : β → Except Fault β) (l m : List (Option β)) (b : β) :
    Follows (fun b' h' => h' = h.extend (l ++ some b' :: m)) (f b)
      ((h.extend (l ++ some b :: m)).update (h.size + l.length) f) := by
  rw [update, read_at, ok_bind]
  cases f b with
  | error fault => exact rfl
  | ok b' => exact set_at h l m (some b) (some b')

theorem delete_at (l m : List (Option β)) (b : β) :
    (h.extend (l ++ some b :: m)).delete (h.size + l.length) = .ok (h.extend (l ++ none :: m)) := by
  rw [delete, read_at, ok_bind]
  exact congrArg Except.ok (set_at h l m (some b) none)

/-! ### One object that is left -/

/-- **Since `start` at most one object has been made and not deleted**: the one that is
given, at the address that is given. -/
def Holds (start : Heap β) (b : Option β) (p : Option ℕ) (h : Heap β) : Prop :=
  ∃ k, p = b.map (fun _ => start.size + k) ∧
    h = start.extend (List.replicate k none ++ b.toList.map some)

theorem holds_start : Holds h none none h :=
  ⟨0, rfl, (extend_nil h).symm⟩

variable {h} {start : Heap β} {b : β} {p : ℕ}

theorem Holds.read (hh : start.Holds (some b) (some p) h) : h.read p = .ok b := by
  obtain ⟨k, hp, rfl⟩ := hh
  obtain rfl : p = start.size + k := by simpa using hp
  have hread := read_at start (List.replicate k none) [] b
  rwa [List.length_replicate] at hread

/-- Nothing is left once the object is deleted. -/
theorem Holds.delete (hh : start.Holds (some b) (some p) h) :
    ∃ h', h.delete p = .ok h' ∧ start.Holds none none h' := by
  obtain ⟨k, hp, rfl⟩ := hh
  obtain rfl : p = start.size + k := by simpa using hp
  have hdelete := delete_at start (List.replicate k none) [] b
  rw [List.length_replicate] at hdelete
  refine ⟨_, hdelete, k + 1, rfl, ?_⟩
  rw [List.replicate_succ']
  simp

variable {o : Option β} {q : Option ℕ}

theorem Holds.exists_eq_some (hh : start.Holds (some b) q h) : ∃ p, q = some p := by
  obtain ⟨k, rfl, -⟩ := hh
  exact ⟨_, rfl⟩

/-- The pointer is good, if there is an object. -/
theorem Holds.map_get (hh : start.Holds o q h) : q.map h.get = o.map some := by
  obtain ⟨k, rfl, rfl⟩ := hh
  cases o with
  | none => rfl
  | some b =>
    have hget := get_at start (List.replicate k none) [] (some b)
    rw [List.length_replicate] at hget
    exact congrArg some hget

/-- The objects that were there are there. -/
theorem Holds.get (hh : start.Holds o q h) {p : ℕ} {b : β} (hb : start.get p = some b) :
    h.get p = some b := by
  obtain ⟨k, -, rfl⟩ := hh
  exact get_extend_of_get start hb _

theorem Holds.objects (hh : start.Holds o q h) :
    h.objects = start.objects ++ o.toList := by
  obtain ⟨k, -, rfl⟩ := hh
  rw [objects_extend, List.reduceOption_append, List.reduceOption_replicate_none, List.nil_append]
  cases o with
  | none => rfl
  | some b => rfl

/-! ### Pointers that are good -/

/-- Pointers that are good stay so as long as nothing is deleted. -/
theorem map_get_mono {h h' : Heap β} (hold : ∀ p b, h.get p = some b → h'.get p = some b)
    {ps : List ℕ} {bs : List β} (hps : ps.map h.get = bs.map some) :
    ps.map h'.get = bs.map some := by
  rw [← hps]
  refine List.map_congr_left fun p hp => ?_
  have hmem : h.get p ∈ bs.map some := hps ▸ List.mem_map_of_mem hp
  obtain ⟨b, -, hb⟩ := List.mem_map.mp hmem
  rw [← hb, hold p b hb.symm]

/-- Objects made one behind the other are at addresses one behind the other. -/
theorem map_get_range (h : Heap β) (bs : List β) :
    (List.range' h.size bs.length).map (h.extend (bs.map some)).get = bs.map some := by
  refine List.ext_getElem (by simp) fun i hi hi' => ?_
  rw [List.length_map, List.length_range'] at hi
  rw [List.getElem_map, List.getElem_range', Nat.one_mul, get_extend_add]
  simp [hi]

end Heap
