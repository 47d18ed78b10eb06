import Mathlib.Data.List.Basic
import Mathlib.Tactic.Common

/-!
# NULL-terminated slot arrays

A fixed array of `n` pointer slots in which a NULL slot marks the end of the
entries.  Two loops run over such an array: one looks for the first NULL slot
in order to fill it, under a counter with a limit, and one visits the entries
and stops at a NULL slot only.  A pointer into the array is the list of slots
from it to the end of the array, so the empty list is a pointer past the end
and reading through it is an overrun.

## Main definitions

* `SlotArray n α` — an array of exactly `n` slots.
* `SlotArray.Holds xs l` — the slots of `xs` are the entries `l` and then NULLs.
* `seekNull`, `seekReads` — the loop that looks for a NULL slot, and the indices it reads.
* `walk` — the loop that visits the entries, with the indices it reads.
* `foldUntil` — what a visit does over a list, whatever array holds the list.

## Main results

* `SlotArray.Holds.seekNull_eq` — where the search for a NULL slot ends.
* `SlotArray.lt_of_mem_seekReads` — the search stays inside the array.
* `SlotArray.mem_seekReads_iff` — the slots read are those that decide where it ends.
* `SlotArray.Holds.store` — filling that slot appends one entry.
* `walk_state`, `lt_of_mem_reads_walk`, `mem_reads_walk_of_full` — what a walk
  computes, and when it stays inside the array.
-/

/-- An array of `n` pointer slots; `none` is a NULL slot. -/
@[ext] structure SlotArray (n : ℕ) (α : Type*) where
  cells : List (Option α)
  length_cells : cells.length = n
  deriving DecidableEq

namespace SlotArray

variable {n : ℕ} {α : Type*}

/-- The array as a zeroing allocation leaves it. -/
def blank (n : ℕ) (α : Type*) : SlotArray n α := ⟨List.replicate n none, List.length_replicate⟩

/-- Assign slot `i`. -/
def store (xs : SlotArray n α) (i : ℕ) (a : α) : SlotArray n α :=
  ⟨xs.cells.set i (some a), by rw [List.length_set, xs.length_cells]⟩

/-- The entries before the first NULL slot. -/
def entries (xs : SlotArray n α) : List α := (xs.cells.takeWhile Option.isSome).filterMap id

/-- Some slot of the array is NULL. -/
def HasNull (xs : SlotArray n α) : Prop := none ∈ xs.cells

instance [DecidableEq α] (xs : SlotArray n α) : Decidable xs.HasNull :=
  inferInstanceAs (Decidable (none ∈ xs.cells))

/-- `xs` holds exactly the entries `l`, from slot 0 and in order. -/
def Holds (xs : SlotArray n α) (l : List α) : Prop :=
  ∃ k, xs.cells = l.map some ++ List.replicate k none

theorem holds_blank : (blank n α).Holds [] := ⟨n, rfl⟩

theorem Holds.length_add {xs : SlotArray n α} {l : List α} {k : ℕ}
    (h : xs.cells = l.map some ++ List.replicate k none) : l.length + k = n := by
  have := congrArg List.length h
  rw [xs.length_cells, List.length_append, List.length_map, List.length_replicate] at this
  omega

theorem Holds.length_le {xs : SlotArray n α} {l : List α} (h : xs.Holds l) : l.length ≤ n := by
  obtain ⟨k, hk⟩ := h
  have := Holds.length_add hk
  omega

/-- A terminator is left exactly as long as the array is not full. -/
theorem Holds.hasNull_iff {xs : SlotArray n α} {l : List α} (h : xs.Holds l) :
    xs.HasNull ↔ l.length < n := by
  obtain ⟨k, hk⟩ := h
  have hlen := Holds.length_add hk
  rw [HasNull, hk, List.mem_append, List.mem_replicate]
  simp only [List.mem_map, reduceCtorEq, and_false, exists_false, false_or, and_true]
  omega

@[simp] theorem takeWhile_isSome_map (l : List α) (k : ℕ) :
    (l.map some ++ List.replicate k none).takeWhile Option.isSome = l.map some := by
  induction l with
  | nil => cases k <;> simp [List.replicate_succ]
  | cons a l ih => simp [ih]

theorem Holds.entries_eq {xs : SlotArray n α} {l : List α} (h : xs.Holds l) : xs.entries = l := by
  obtain ⟨k, hk⟩ := h
  rw [entries, hk, takeWhile_isSome_map, List.filterMap_map]
  exact List.filterMap_some

/-- Filling the first NULL slot appends one entry. -/
theorem Holds.store {xs : SlotArray n α} {l : List α} (h : xs.Holds l) (hl : l.length < n) (a : α) :
    (xs.store l.length a).Holds (l ++ [a]) := by
  obtain ⟨k, hk⟩ := h
  have hlen := Holds.length_add hk
  obtain ⟨k, rfl⟩ : ∃ j, k = j + 1 := ⟨k - 1, by omega⟩
  refine ⟨k, ?_⟩
  show xs.cells.set l.length (some a) = _
  rw [hk, List.set_append_right _ _ (by simp), List.length_map, Nat.sub_self,
    List.replicate_succ, List.set_cons_zero]
  simp

end SlotArray

/-! ### Looking for a NULL slot -/

/-- How the search for a NULL slot ends. -/
inductive Seek where
  -- at a NULL slot, at the limit, or outside the array
  | found (i : ℕ)
  | full
  | overrun (i : ℕ)
  deriving DecidableEq, Repr

section

variable {α σ : Type*}

/-- Read a slot, and while it is not NULL step on, giving up once the counter
reaches `limit`.  Pointer and counter advance together, so `i` is also the index
of the slot the pointer is at. -/
def seekNull (limit : ℕ) : List (Option α) → ℕ → Seek
  | [], i => .overrun i
  | none :: _, i => .found i
  | some _ :: rest, i => if limit ≤ i + 1 then .full else seekNull limit rest (i + 1)

/-- The indices of the slots that the search reads. -/
def seekReads (limit : ℕ) : List (Option α) → ℕ → List ℕ
  | [], i => [i]
  | none :: _, i => [i]
  | some _ :: rest, i => i :: if limit ≤ i + 1 then [] else seekReads limit rest (i + 1)

/-- **The search stays inside**, whatever the slots hold, when the limit is the end of
the array. -/
theorem mem_seekReads_lt {cells : List (Option α)} {i j : ℕ} (hpos : 0 < cells.length)
    (hj : j ∈ seekReads (i + cells.length) cells i) : j < i + cells.length := by
  induction cells generalizing i with
  | nil => exact absurd hpos (Nat.lt_irrefl 0)
  | cons a rest ih =>
    rw [List.length_cons] at hj ⊢
    cases a with
    | none =>
      rw [seekReads, List.mem_singleton] at hj
      omega
    | some a =>
      rw [seekReads, List.mem_cons] at hj
      rcases hj with rfl | hj
      · omega
      · split at hj
        · exact absurd hj List.not_mem_nil
        · next hlt =>
          rw [show i + (rest.length + 1) = i + 1 + rest.length by omega] at hj ⊢
          exact ih (by omega) hj

theorem SlotArray.lt_of_mem_seekReads {n : ℕ} (xs : SlotArray n α) (hn : 0 < n) {j : ℕ}
    (hj : j ∈ seekReads n xs.cells 0) : j < n := by
  have hlength : 0 + xs.cells.length = n := by rw [Nat.zero_add, xs.length_cells]
  rw [← hlength]
  exact mem_seekReads_lt (by rw [xs.length_cells]; exact hn) (by rw [hlength]; exact hj)

/-- The slot found is one of those read. -/
theorem mem_seekReads_of_found {limit : ℕ} {cells : List (Option α)} {i j : ℕ}
    (h : seekNull limit cells i = .found j) : j ∈ seekReads limit cells i := by
  induction cells generalizing i with
  | nil => exact Seek.noConfusion h
  | cons a rest ih =>
    cases a with
    | none =>
      rw [seekNull, Seek.found.injEq] at h
      rw [seekReads, h]
      exact List.mem_singleton_self j
    | some a =>
      rw [seekNull] at h
      rw [seekReads]
      split at h
      · exact Seek.noConfusion h
      · next hlt =>
        rw [if_neg hlt]
        exact List.mem_cons_of_mem _ (ih h)

/-- An overrun reads behind the slots. -/
theorem mem_seekReads_of_overrun {limit : ℕ} {cells : List (Option α)} {i j : ℕ}
    (h : seekNull limit cells i = .overrun j) :
    j ∈ seekReads limit cells i ∧ i + cells.length ≤ j := by
  induction cells generalizing i with
  | nil =>
    rw [seekNull, Seek.overrun.injEq] at h
    rw [seekReads, h]
    exact ⟨List.mem_singleton_self j, Nat.le_refl j⟩
  | cons a rest ih =>
    cases a with
    | none => exact Seek.noConfusion h
    | some a =>
      rw [seekNull] at h
      rw [seekReads]
      split at h
      · exact Seek.noConfusion h
      · next hlt =>
        obtain ⟨hread, hle⟩ := ih h
        rw [if_neg hlt, List.length_cons]
        exact ⟨List.mem_cons_of_mem _ hread, by omega⟩

/-- The search does not leave an array whose end is its limit. -/
theorem SlotArray.seekNull_ne_overrun {n : ℕ} (xs : SlotArray n α) (hn : 0 < n) (j : ℕ) :
    seekNull n xs.cells 0 ≠ .overrun j := by
  intro h
  obtain ⟨hread, hle⟩ := mem_seekReads_of_overrun h
  have hlt := xs.lt_of_mem_seekReads hn hread
  rw [xs.length_cells] at hle
  omega

/-- The search starts at its pointer. -/
theorem le_of_mem_seekReads {limit : ℕ} {cells : List (Option α)} {i j : ℕ}
    (h : j ∈ seekReads limit cells i) : i ≤ j := by
  induction cells generalizing i with
  | nil => rw [seekReads, List.mem_singleton] at h; omega
  | cons a rest ih =>
    cases a with
    | none => rw [seekReads, List.mem_singleton] at h; omega
    | some a =>
      rw [seekReads, List.mem_cons] at h
      rcases h with rfl | h
      · exact Nat.le_refl _
      · split at h
        · exact absurd h List.not_mem_nil
        · exact Nat.le_of_succ_le (ih h)

/-- A slot that the search has passed is not the one it finds. -/
theorem seekNull_succ_ne (limit : ℕ) (cells : List (Option α)) (i : ℕ) :
    (if limit ≤ i + 1 then Seek.full else seekNull limit cells (i + 1)) ≠ .found i := by
  split
  · exact Seek.noConfusion
  · intro h
    have := le_of_mem_seekReads (mem_seekReads_of_found h)
    omega

/-- **Where the search ends depends on no other slot** than those it reads. -/
theorem seekNull_congr {limit : ℕ} : ∀ {cells cells' : List (Option α)} {i : ℕ},
    cells'.length = cells.length →
      (∀ k, i + k ∈ seekReads limit cells i → cells'[k]? = cells[k]?) →
        seekNull limit cells' i = seekNull limit cells i := by
  intro cells
  induction cells with
  | nil =>
    intro cells' i hlength _
    rw [List.eq_nil_of_length_eq_zero hlength]
  | cons a rest ih =>
    intro cells' i hlength hagree
    cases cells' with
    | nil => exact absurd hlength (by simp)
    | cons a' rest' =>
      have hhead : a' = a := by
        have := hagree 0 (by cases a <;> simp [seekReads])
        simpa using this
      subst hhead
      cases a' with
      | none => rfl
      | some a =>
        rw [seekNull, seekNull]
        split
        · rfl
        · next hlt =>
          refine ih (by simpa using hlength) fun k hk => ?_
          have := hagree (k + 1) (by
            rw [seekReads, if_neg hlt, show i + (k + 1) = i + 1 + k by omega]
            exact List.mem_cons_of_mem _ hk)
          simpa using this

/-- **Where the search ends depends on each slot** it reads. -/
theorem exists_seekNull_set_ne [Inhabited α] {limit : ℕ} : ∀ {cells : List (Option α)} {i k : ℕ},
    k < cells.length → i + k ∈ seekReads limit cells i →
      ∃ c, seekNull limit (cells.set k c) i ≠ seekNull limit cells i := by
  intro cells
  induction cells with
  | nil => intro i k hk _; exact absurd hk (Nat.not_lt_zero k)
  | cons a rest ih =>
    intro i k hk hread
    cases k with
    | zero =>
      -- a NULL slot is taken, a taken one is made NULL
      cases a with
      | none => exact ⟨some default, seekNull_succ_ne limit rest i⟩
      | some a => exact ⟨none, (seekNull_succ_ne limit rest i).symm⟩
    | succ k =>
      cases a with
      | none =>
        rw [seekReads, List.mem_singleton] at hread
        omega
      | some a =>
        rw [seekReads, List.mem_cons] at hread
        rcases hread with hread | hread
        · omega
        · split at hread
          · exact absurd hread List.not_mem_nil
          · next hlt =>
            obtain ⟨c, hc⟩ := ih (i := i + 1) (k := k) (by simpa using hk) (by
              rwa [show i + 1 + k = i + (k + 1) by omega])
            refine ⟨c, ?_⟩
            rwa [List.set_cons_succ, seekNull, seekNull, if_neg hlt, if_neg hlt]

/-- **The slots read are those that decide** where the search ends. -/
theorem SlotArray.mem_seekReads_iff [Inhabited α] {n : ℕ} (xs : SlotArray n α) (hn : 0 < n)
    {j : ℕ} : j ∈ seekReads n xs.cells 0 ↔ ∃ ys : SlotArray n α,
      (∀ k, k ≠ j → ys.cells[k]? = xs.cells[k]?) ∧
        seekNull n ys.cells 0 ≠ seekNull n xs.cells 0 := by
  constructor
  · intro hj
    have hlt := xs.lt_of_mem_seekReads hn hj
    obtain ⟨c, hc⟩ := exists_seekNull_set_ne (i := 0) (k := j) (by rwa [xs.length_cells])
      (by rwa [Nat.zero_add])
    refine ⟨⟨xs.cells.set j c, by rw [List.length_set, xs.length_cells]⟩, ?_, hc⟩
    exact fun k hk => List.getElem?_set_ne (Ne.symm hk)
  · rintro ⟨ys, hagree, hne⟩
    by_contra hj
    refine hne (seekNull_congr (by rw [ys.length_cells, xs.length_cells]) fun k hk => ?_)
    rw [Nat.zero_add] at hk
    exact hagree k fun h => hj (h ▸ hk)

/-- The search over `l` and then `k` NULL slots, when the limit is the end of
the array. -/
theorem seekNull_packed : ∀ (l : List α) (k i : ℕ), 0 < l.length + k →
    seekNull (i + (l.length + k)) (l.map some ++ List.replicate k none) i
      = if k = 0 then .full else .found (i + l.length) := by
  intro l
  induction l with
  | nil =>
    intro k i hk
    cases k with
    | zero => simp at hk
    | succ k => simp [List.replicate_succ, seekNull]
  | cons a l ih =>
    intro k i _
    simp only [List.map_cons, List.cons_append, seekNull, List.length_cons]
    rcases Nat.eq_zero_or_pos (l.length + k) with h0 | hpos
    · rw [if_pos (by omega), if_pos (by omega)]
    · rw [if_neg (by omega), show i + (l.length + 1 + k) = i + 1 + (l.length + k) by omega,
        ih k (i + 1) hpos]
      split
      · rfl
      · rw [show i + 1 + l.length = i + (l.length + 1) by omega]

/-- **Where the search ends**, with the size of the array as its limit: at the
first NULL slot, or at the limit when every slot is taken; never outside. -/
theorem SlotArray.Holds.seekNull_eq {n : ℕ} {xs : SlotArray n α} {l : List α} (h : xs.Holds l)
    (hn : 0 < n) : seekNull n xs.cells 0 = if l.length = n then .full else .found l.length := by
  obtain ⟨k, hk⟩ := h
  have hlen := SlotArray.Holds.length_add hk
  have := seekNull_packed l k 0 (by omega)
  rw [Nat.zero_add, Nat.zero_add, hlen, ← hk] at this
  rw [this]
  split <;> split <;> first | rfl | omega

/-! ### Visiting the entries -/

/-- The outcome of a walk: the visitor's state, the indices of the slots read, and
whether the last of them lies outside the array. -/
structure Walk (σ : Type*) where
  state : σ
  reads : List ℕ
  overrun : Bool
  deriving DecidableEq, Repr

/-- One walk after another, the second from the state the first leaves. -/
def Walk.andThen {σ : Type*} (first : Walk σ) (next : σ → Walk σ) : Walk σ :=
  let second := next first.state
  ⟨second.state, first.reads ++ second.reads, first.overrun || second.overrun⟩

@[simp] theorem Walk.mem_reads_andThen {σ : Type*} {first : Walk σ} {next : σ → Walk σ} {j : ℕ} :
    j ∈ (first.andThen next).reads ↔ j ∈ first.reads ∨ j ∈ (next first.state).reads :=
  List.mem_append

/-- Visit the entries from a pointer on.  The walk stops at a NULL slot, when
the visitor breaks, or when it has left the array. -/
def walk (visit : σ → α → σ × Bool) : List (Option α) → ℕ → σ → Walk σ
  | [], i, s => ⟨s, [i], true⟩
  | none :: _, i, s => ⟨s, [i], false⟩
  | some a :: rest, i, s =>
      if (visit s a).2 then ⟨(visit s a).1, [i], false⟩
      else
        let w := walk visit rest (i + 1) (visit s a).1
        { w with reads := i :: w.reads }

/-- What a walk leaves, renamed. -/
def Walk.map {σ τ : Type*} (f : σ → τ) (w : Walk σ) : Walk τ := ⟨f w.state, w.reads, w.overrun⟩

/-- A visitor on renamed states walks alike. -/
theorem walk_map {σ τ : Type*} {f : σ → τ} {visit : σ → α → σ × Bool} {visit' : τ → α → τ × Bool}
    (h : ∀ s a, visit' (f s) a = (f (visit s a).1, (visit s a).2)) :
    ∀ (cells : List (Option α)) (i : ℕ) (s : σ),
      walk visit' cells i (f s) = (walk visit cells i s).map f := by
  intro cells
  induction cells with
  | nil => intro i s; rfl
  | cons cell cells ih =>
    intro i s
    cases cell with
    | none => rfl
    | some a =>
      rw [walk, walk, h]
      split
      · rfl
      · rw [ih]
        rfl

/-- Visit the entries of a list until the visitor breaks. -/
def foldUntil (visit : σ → α → σ × Bool) : List α → σ → σ
  | [], s => s
  | a :: l, s => if (visit s a).2 then (visit s a).1 else foldUntil visit l (visit s a).1

theorem walk_packed_state (visit : σ → α → σ × Bool) (k : ℕ) : ∀ (l : List α) (i : ℕ) (s : σ),
    (walk visit (l.map some ++ List.replicate k none) i s).state = foldUntil visit l s := by
  intro l
  induction l with
  | nil => intro i s; cases k <;> simp [List.replicate_succ, walk, foldUntil]
  | cons a l ih =>
    intro i s
    simp only [List.map_cons, List.cons_append, walk, foldUntil]
    split
    · rfl
    · exact ih _ _

theorem walk_packed_reads (visit : σ → α → σ × Bool) (k : ℕ) : ∀ (l : List α) (i : ℕ) (s : σ),
    ∀ j ∈ (walk visit (l.map some ++ List.replicate k none) i s).reads, j ≤ i + l.length := by
  intro l
  induction l with
  | nil => intro i s; cases k <;> simp [List.replicate_succ, walk]
  | cons a l ih =>
    intro i s j hj
    simp only [List.map_cons, List.cons_append, walk] at hj
    split at hj
    · rw [List.mem_singleton] at hj
      simp only [List.length_cons]
      omega
    · rw [List.mem_cons] at hj
      rcases hj with rfl | hj
      · omega
      · have := ih _ _ j hj
        simp only [List.length_cons]
        omega

theorem walk_packed_overrun (visit : σ → α → σ × Bool) (k : ℕ) : ∀ (l : List α) (i : ℕ) (s : σ),
    (walk visit (l.map some ++ List.replicate (k + 1) none) i s).overrun = false := by
  intro l
  induction l with
  | nil => intro i s; simp [List.replicate_succ, walk]
  | cons a l ih =>
    intro i s
    simp only [List.map_cons, List.cons_append, walk]
    split
    · rfl
    · exact ih _ _

theorem mem_reads_walk_packed {visit : σ → α → σ × Bool} (hv : ∀ s a, (visit s a).2 = false)
    (k : ℕ) : ∀ (l : List α) (i : ℕ) (s : σ),
      i + l.length ∈ (walk visit (l.map some ++ List.replicate k none) i s).reads := by
  intro l
  induction l with
  | nil => intro i s; cases k <;> simp [List.replicate_succ, walk]
  | cons a l ih =>
    intro i s
    simp only [List.map_cons, List.cons_append, walk, hv, Bool.false_eq_true, if_false,
      List.length_cons, List.mem_cons]
    exact Or.inr (by rw [show i + (l.length + 1) = i + 1 + l.length by omega]; exact ih _ _)

variable {n : ℕ} {xs : SlotArray n α} {l : List α}

/-- **A walk computes what the visitor makes of the entries held.** -/
theorem walk_state (h : xs.Holds l) (visit : σ → α → σ × Bool) (s : σ) :
    (walk visit xs.cells 0 s).state = foldUntil visit l s := by
  obtain ⟨k, hk⟩ := h
  rw [hk]
  exact walk_packed_state visit k l 0 s

/-- **A walk over an array with a terminator stays inside it.** -/
theorem lt_of_mem_reads_walk (h : xs.Holds l) (hl : l.length < n) (visit : σ → α → σ × Bool)
    (s : σ) {j : ℕ} (hj : j ∈ (walk visit xs.cells 0 s).reads) : j < n := by
  obtain ⟨k, hk⟩ := h
  rw [hk] at hj
  have := walk_packed_reads visit k l 0 s j hj
  omega

theorem walk_overrun (h : xs.Holds l) (hl : l.length < n) (visit : σ → α → σ × Bool) (s : σ) :
    (walk visit xs.cells 0 s).overrun = false := by
  obtain ⟨k, hk⟩ := h
  have := SlotArray.Holds.length_add hk
  obtain ⟨k, rfl⟩ : ∃ j, k = j + 1 := ⟨k - 1, by omega⟩
  rw [hk]
  exact walk_packed_overrun visit k l 0 s

/-- **A walk over a full array leaves it**, unless its visitor breaks. -/
theorem mem_reads_walk_of_full (h : xs.Holds l) (hl : l.length = n) {visit : σ → α → σ × Bool}
    (hv : ∀ s a, (visit s a).2 = false) (s : σ) : n ∈ (walk visit xs.cells 0 s).reads := by
  obtain ⟨k, hk⟩ := h
  have := mem_reads_walk_packed hv k l 0 s
  rw [hk]
  rwa [Nat.zero_add, hl] at this

end
