import Mathlib.Algebra.Order.Ring.Int
import Mathlib.Data.Int.Notation
import Mathlib.Data.List.Basic
import Mathlib.Data.Nat.Notation
import Mathlib.Tactic.Common

/-!
# Decimal numerals in bytes

A number as a C library prints it: the digits of a natural number, and of an integer with
a minus sign in front of them if it is negative.  A numeral consists of digits and the
sign, tells its number, and is as long as its number needs.

## Main definitions

* `Decimal.ofNat`, `Decimal.ofInt` — the numerals.

## Main results

* `Decimal.digit_of_mem_ofNat`, `Decimal.mem_ofInt` — the bytes of a numeral.
* `Decimal.ofNat_injective`, `Decimal.ofInt_injective` — a numeral tells its number.
* `Decimal.length_ofInt_le` — the length of a numeral.
-/

namespace Decimal

/-- The digits of a natural number. -/
def ofNat (n : ℕ) : List UInt8 := (Nat.toDigits 10 n).map fun c => c.toNat.toUInt8

/-- An integer, with its sign if it is negative. -/
def ofInt : ℤ → List UInt8
  | .ofNat n => ofNat n
  | .negSucc n => 45 :: ofNat (n + 1)

theorem toNat_of_isDigit {c : Char} (h : c.isDigit) : 48 ≤ c.toNat ∧ c.toNat ≤ 57 := by
  simp only [Char.isDigit, Bool.and_eq_true, decide_eq_true_eq, ge_iff_le, UInt32.le_iff_toNat_le]
    at h
  exact h

theorem toNat_toUInt8 {c : Char} (h : c.isDigit) : c.toNat.toUInt8.toNat = c.toNat := by
  have hc := toNat_of_isDigit h
  have hlt : c.toNat < 256 := by omega
  exact UInt8.toNat_ofNat_of_lt' hlt

/-- **The digits are digits.** -/
theorem digit_of_mem_ofNat {n : ℕ} {b : UInt8} (h : b ∈ ofNat n) : 48 ≤ b ∧ b ≤ 57 := by
  obtain ⟨c, hc, rfl⟩ := List.mem_map.mp h
  have hdigit := Nat.isDigit_of_mem_toDigits (by decide) (by decide) hc
  rw [UInt8.le_iff_toNat_le, UInt8.le_iff_toNat_le, toNat_toUInt8 hdigit]
  exact toNat_of_isDigit hdigit

/-- The bytes of a numeral are digits, or its sign. -/
theorem mem_ofInt {z : ℤ} {b : UInt8} (h : b ∈ ofInt z) : b = 45 ∨ 48 ≤ b ∧ b ≤ 57 := by
  cases z with
  | ofNat n => exact Or.inr (digit_of_mem_ofNat h)
  | negSucc n =>
    rcases List.mem_cons.mp h with rfl | h
    · exact Or.inl rfl
    · exact Or.inr (digit_of_mem_ofNat h)

/-- Digits that are the same bytes are the same characters. -/
theorem eq_of_map_toUInt8 : ∀ {l l' : List Char}, (∀ c ∈ l, c.isDigit) → (∀ c ∈ l', c.isDigit) →
    l.map (fun c => c.toNat.toUInt8) = l'.map (fun c => c.toNat.toUInt8) → l = l' := by
  intro l
  induction l with
  | nil =>
    intro l' _ _ h
    exact (List.map_eq_nil_iff.mp h.symm).symm
  | cons c l ih =>
    intro l' hl hl' h
    cases l' with
    | nil => exact absurd h (List.cons_ne_nil _ _)
    | cons c' l' =>
      rw [List.map_cons, List.map_cons, List.cons.injEq] at h
      have hnat := congrArg UInt8.toNat h.1
      rw [toNat_toUInt8 (hl c List.mem_cons_self),
        toNat_toUInt8 (hl' c' List.mem_cons_self)] at hnat
      rw [Char.toNat_inj.mp hnat, ih (fun x hx => hl x (List.mem_cons_of_mem c hx))
        (fun x hx => hl' x (List.mem_cons_of_mem c' hx)) h.2]

/-- **A numeral tells its number.** -/
theorem ofNat_injective : Function.Injective ofNat := by
  intro n n' h
  have hdigits : Nat.toDigits 10 n = Nat.toDigits 10 n' := eq_of_map_toUInt8
    (fun c hc => Nat.isDigit_of_mem_toDigits (by decide) (by decide) hc)
    (fun c hc => Nat.isDigit_of_mem_toDigits (by decide) (by decide) hc) h
  calc n = Nat.ofDigitChars 10 (Nat.toDigits 10 n) 0 := Nat.ofDigitChars_ten_toDigits.symm
    _ = Nat.ofDigitChars 10 (Nat.toDigits 10 n') 0 := by rw [hdigits]
    _ = n' := Nat.ofDigitChars_ten_toDigits

/-- A sign is not a digit. -/
theorem ofNat_ne_cons (n m : ℕ) : ofNat n ≠ 45 :: ofNat m := by
  intro h
  have hsign : (45 : UInt8) ∈ ofNat n := h ▸ List.mem_cons_self
  exact absurd (digit_of_mem_ofNat hsign).1 (by decide)

theorem ofInt_injective : Function.Injective ofInt := by
  intro z z' h
  cases z with
  | ofNat n =>
    cases z' with
    | ofNat n' => exact congrArg Int.ofNat (ofNat_injective h)
    | negSucc n' => exact absurd h (ofNat_ne_cons n (n' + 1))
  | negSucc n =>
    cases z' with
    | ofNat n' => exact absurd h.symm (ofNat_ne_cons n' (n + 1))
    | negSucc n' =>
      have hn := ofNat_injective (List.cons.inj h).2
      exact congrArg Int.negSucc (Nat.succ.inj hn)

theorem length_ofNat_le {n k : ℕ} (hk : 0 < k) (h : n < 10 ^ k) : (ofNat n).length ≤ k := by
  rw [ofNat, List.length_map]
  exact (Nat.length_toDigits_le_iff (by decide) hk).mpr h

/-- **A numeral is as long as its number needs.** -/
theorem length_ofInt_le {z : ℤ} {k : ℕ} (hk : 0 < k) (h : z.natAbs < 10 ^ k) :
    (ofInt z).length ≤ k + 1 := by
  cases z with
  | ofNat n => exact Nat.le_succ_of_le (length_ofNat_le hk h)
  | negSucc n => exact Nat.succ_le_succ (length_ofNat_le hk h)

end Decimal
