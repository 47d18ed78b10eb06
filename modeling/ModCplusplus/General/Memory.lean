import Mathlib.Data.List.Basic
import Mathlib.Algebra.Order.Ring.Int
import Mathlib.Tactic.Common

/-!
# Checked memory blocks

A block of memory is the list of its cells; a cell is `none` until something has
been stored in it.  Offsets and sizes are integers, so that a negative one can
be asked for, and every access outside the block is a fault.

## Main definitions

* `Fault` — what can go wrong with an access.
* `Memory.alloc`, `Memory.fetch`, `Memory.put` — allocate, copy out of a block,
  copy into a block.
* `Memory.BeginsWith` — the block starts with the given values.
* `Memory.store` — a loop that computes the cells of a block one by one.

## Main results

* `Memory.put_eq_ok_iff` — exactly the copies inside the block succeed.
* `Memory.BeginsWith.put` — copying in behind a known beginning extends it.
* `Memory.store_of_ok`, `Memory.ok_of_store` — when such a loop gets through.
-/

/-- A fault of a memory access. -/
inductive Fault where
  -- the object has no cell at this offset
  | outOfBounds (i : ℤ)
  | nullDeref
  -- a negative number of cells was asked for
  | badAlloc (n : ℤ)
  deriving DecidableEq, Repr

universe u v

@[simp] theorem ok_bind {ε : Type u} {α γ : Type v} (a : α) (f : α → Except ε γ) :
    (Except.ok a >>= f) = f a := rfl

@[simp] theorem error_bind {ε : Type u} {α γ : Type v} (e : ε) (f : α → Except ε γ) :
    (Except.error e >>= f) = .error e := rfl

/-- A computation that gets through went through its first part. -/
theorem bind_eq_ok {ε : Type u} {α γ : Type v} {x : Except ε α} {f : α → Except ε γ} {b : γ}
    (h : (x >>= f) = .ok b) : ∃ a, x = .ok a ∧ f a = .ok b := by
  cases x with
  | error e => exact absurd h (by simp [bind, Except.bind])
  | ok a => exact ⟨a, rfl, h⟩

namespace Memory

variable {β : Type*}

/-- Allocate a block of `n` cells, with nothing stored in them. -/
def alloc (n : ℤ) : Except Fault (List (Option β)) :=
  if n < 0 then .error (.badAlloc n) else .ok (List.replicate n.toNat none)

/-- The first `n` cells of a block. -/
def fetch (blk : List (Option β)) (n : ℤ) : Except Fault (List (Option β)) :=
  if n < 0 ∨ blk.length < n then .error (.outOfBounds blk.length) else .ok (blk.take n.toNat)

/-- Copy cells into a block, from offset `off` on. -/
def put (blk : List (Option β)) (off : ℤ) (src : List (Option β)) :
    Except Fault (List (Option β)) :=
  if off < 0 ∨ blk.length < off + src.length then .error (.outOfBounds (off + src.length - 1))
  else .ok (blk.take off.toNat ++ src ++ blk.drop (off.toNat + src.length))

/-- The block starts with the given values. -/
def BeginsWith (blk : List (Option β)) (vs : List β) : Prop := vs.map some <+: blk

theorem alloc_of_nonneg {n : ℤ} (h : 0 ≤ n) :
    alloc n = .ok (List.replicate n.toNat (none : Option β)) := if_neg (by omega)

theorem alloc_natCast (n : ℕ) : alloc (n : ℤ) = .ok (List.replicate n (none : Option β)) := by
  rw [alloc_of_nonneg (by omega), Int.toNat_natCast]

theorem fetch_of_le {blk : List (Option β)} {n : ℤ} (h0 : 0 ≤ n) (h : n ≤ blk.length) :
    fetch blk n = .ok (blk.take n.toNat) := if_neg (by omega)

theorem fetch_eq_ok_iff {blk : List (Option β)} {n : ℤ} :
    (∃ b, fetch blk n = .ok b) ↔ 0 ≤ n ∧ n ≤ blk.length := by
  constructor
  · rintro ⟨b, hb⟩
    unfold fetch at hb
    split at hb
    · exact absurd hb (by simp)
    · omega
  · rintro ⟨h0, h⟩
    exact ⟨_, fetch_of_le h0 h⟩

/-- Copying out the beginning of a block. -/
theorem BeginsWith.fetch {blk : List (Option β)} {vs : List β} (h : BeginsWith blk vs) :
    Memory.fetch blk vs.length = .ok (vs.map some) := by
  obtain ⟨rest, rfl⟩ := h
  rw [fetch_of_le (by omega) (by simp)]
  simp

theorem put_of_le {blk : List (Option β)} {off : ℤ} {src : List (Option β)} (h0 : 0 ≤ off)
    (h : off + src.length ≤ blk.length) :
    put blk off src = .ok (blk.take off.toNat ++ src ++ blk.drop (off.toNat + src.length)) :=
  if_neg (by omega)

/-- **Exactly the copies inside the block succeed.** -/
theorem put_eq_ok_iff {blk : List (Option β)} {off : ℤ} {src : List (Option β)} :
    (∃ b, put blk off src = .ok b) ↔ 0 ≤ off ∧ off + src.length ≤ blk.length := by
  constructor
  · rintro ⟨b, hb⟩
    unfold put at hb
    split at hb
    · exact absurd hb (by simp)
    · omega
  · rintro ⟨h0, h⟩
    exact ⟨_, put_of_le h0 h⟩

theorem length_of_put {blk b : List (Option β)} {off : ℤ} {src : List (Option β)}
    (h : put blk off src = .ok b) : b.length = blk.length := by
  obtain ⟨h0, hle⟩ := put_eq_ok_iff.mp ⟨b, h⟩
  rw [put_of_le h0 hle] at h
  injection h with h
  subst h
  simp only [List.length_append, List.length_take, List.length_drop]
  omega

/-- **Copying in behind a known beginning extends it.** -/
theorem BeginsWith.put {blk : List (Option β)} {vs : List β} (h : BeginsWith blk vs) (ws : List β)
    (hle : vs.length + ws.length ≤ blk.length) :
    ∃ b, Memory.put blk vs.length (ws.map some) = .ok b ∧ BeginsWith b (vs ++ ws)
      ∧ b.length = blk.length := by
  obtain ⟨b, hb⟩ := put_eq_ok_iff.mpr (show (0 : ℤ) ≤ vs.length ∧
    (vs.length : ℤ) + (ws.map some).length ≤ blk.length by simp; omega)
  refine ⟨b, hb, ?_, length_of_put hb⟩
  obtain ⟨rest, rfl⟩ := h
  rw [put_of_le (by omega) (by simp at hle ⊢; omega)] at hb
  injection hb with hb
  subst hb
  refine ⟨rest.drop ws.length, ?_⟩
  simp [List.drop_append]

theorem BeginsWith.of_append {blk : List (Option β)} {vs ws : List β}
    (h : BeginsWith blk (vs ++ ws)) : BeginsWith blk vs := by
  obtain ⟨rest, rfl⟩ := h
  exact ⟨ws.map some ++ rest, by simp⟩

/-! ### Loops over a block -/

/-- Compute and store `k` cells, from offset `n` on. -/
def store (f : ℕ → Except Fault β) : ℕ → ℕ → List (Option β) → Except Fault (List (Option β))
  | 0, _, blk => .ok blk
  | k + 1, n, blk => do
      let c ← f n
      let blk ← put blk n [some c]
      store f k (n + 1) blk

theorem put_singleton {blk : List (Option β)} {n : ℕ} (h : n < blk.length) (c : β) :
    put blk n [some c] = .ok (blk.take n ++ [some c] ++ blk.drop (n + 1)) :=
  put_of_le (by omega) (by simp; omega)

/-- **A loop whose cells can all be computed**, in a block that has room for them. -/
theorem store_of_ok {f : ℕ → Except Fault β} {vs : List β} :
    ∀ {n : ℕ} {blk : List (Option β)}, (∀ i (hi : i < vs.length), f (n + i) = .ok vs[i]) →
      n + vs.length ≤ blk.length →
      store f vs.length n blk = .ok (blk.take n ++ vs.map some ++ blk.drop (n + vs.length)) := by
  induction vs with
  | nil => intro n blk _ _; simp [store]
  | cons v vs ih =>
    intro n blk hok hroom
    rw [List.length_cons] at hroom
    have hv : f n = .ok v := hok 0 (by simp)
    have hrest : ∀ i (hi : i < vs.length), f (n + 1 + i) = .ok vs[i] := by
      intro i hi
      have := hok (i + 1) (by simpa using hi)
      rwa [show n + 1 + i = n + (i + 1) by omega]
    have hlen : (blk.take n ++ [some v]).length = n + 1 := by simp; omega
    rw [List.length_cons, store, hv, ok_bind, put_singleton (by omega), ok_bind,
      ih hrest (by simp; omega), List.take_left' hlen, List.drop_append,
      List.drop_eq_nil_of_le (by omega), hlen, List.nil_append, List.drop_drop,
      show n + 1 + (n + 1 + vs.length - (n + 1)) = n + (vs.length + 1) by omega]
    simp

/-- **A loop that gets through** has computed all of its cells, inside the block. -/
theorem ok_of_store {f : ℕ → Except Fault β} : ∀ {k n : ℕ} {blk b : List (Option β)},
    store f k n blk = .ok b → ∀ i < k, (∃ c, f (n + i) = .ok c) ∧ n + i < blk.length := by
  intro k
  induction k with
  | zero => intro n blk b _ i hi; omega
  | succ k ih =>
    intro n blk b h i hi
    rw [store] at h
    obtain ⟨c, hc, h⟩ := bind_eq_ok h
    obtain ⟨blk', hput, h⟩ := bind_eq_ok h
    cases i with
    | zero =>
      have hinside := (put_eq_ok_iff.mp ⟨blk', hput⟩).2
      rw [List.length_singleton] at hinside
      exact ⟨⟨c, hc⟩, by omega⟩
    | succ i =>
      have := ih h i (by omega)
      rwa [length_of_put hput, show n + 1 + i = n + (i + 1) by omega] at this

end Memory
