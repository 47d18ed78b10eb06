import Mathlib.Data.Nat.Notation
import Mathlib.Data.List.TakeWhile
import Mathlib.Algebra.Order.Ring.Int
import Mathlib.Tactic.Common

/-!
# C strings and numbers

The C types the module computes with: a C string is the bytes before its
terminating NUL, so a NUL byte cannot occur in one; a `std::string` is any list
of bytes; `int` and `size_t` are the 32 and 64 bit integers of an LP64 platform,
a conversion to them being the reduction modulo `2 ^ 32` or `2 ^ 64` into the
range of the type.

## Main definitions

* `Str`, `CStr` — `std::string` and C strings, with `cStrOf`, `cStr` what `c_str()`
  shows of a `std::string`, and `literal` a string literal.
* `toInt`, `toSizeT`, `toChar` — the conversions to `int`, `size_t`, `char`.
* `strtol`, `atoi` — the number readers of the C library.

## Main results

* `toChar_strtol_hex` — two hexadecimal digits read the byte they spell.
-/

namespace ModCplusplus

/-- The contents of a `std::string`. -/
abbrev Str := List UInt8

/-- A C string: the bytes before the terminating NUL. -/
abbrev CStr := { bytes : Str // (0 : UInt8) ∉ bytes }

/-- What a C function sees of a `std::string` through `c_str()`: the bytes
before the first NUL. -/
def cStrOf (s : Str) : Str := s.takeWhile (· ≠ 0)

/-- Only a NUL byte hides anything. -/
theorem cStrOf_eq_self {s : Str} (h : (0 : UInt8) ∉ s) : cStrOf s = s := by
  rw [cStrOf, List.takeWhile_eq_self_iff]
  intro c hc
  simp only [ne_eq, decide_eq_true_eq]
  rintro rfl
  exact h hc

/-- A C string has no NUL byte. -/
theorem not_mem_cStrOf (s : Str) : (0 : UInt8) ∉ cStrOf s := by
  intro h
  simpa using List.mem_takeWhile_imp h

/-- The C string behind `c_str()`. -/
def cStr (s : Str) : CStr := ⟨cStrOf s, not_mem_cStrOf s⟩

/-- The byte of an ASCII character. -/
def byteOf (c : Char) : UInt8 := c.toNat.toUInt8

/-- The bytes of a string literal. -/
def literal (s : String) : Str := s.toList.map byteOf

/-! ### Machine integers -/

/-- The largest `int`. -/
def intMax : ℤ := 2 ^ 31 - 1

/-- The smallest `int`. -/
def intMin : ℤ := -2 ^ 31

/-- Conversion to `int`. -/
def toInt (z : ℤ) : ℤ := Int.bmod z (2 ^ 32)

/-- Conversion to `size_t`. -/
def toSizeT (z : ℤ) : ℤ := z % 2 ^ 64

/-- Conversion to `char`. -/
def toChar (z : ℤ) : UInt8 := UInt8.ofNat (z % 256).toNat

/-- The value fits an `int`. -/
def FitsInt (z : ℤ) : Prop := intMin ≤ z ∧ z ≤ intMax

theorem toInt_eq {z : ℤ} (h : FitsInt z) : toInt z = z := by
  unfold FitsInt intMin intMax at h
  unfold toInt
  rw [Int.bmod_def]
  split <;> omega

theorem fitsInt_toInt (z : ℤ) : FitsInt (toInt z) := by
  unfold FitsInt intMin intMax toInt
  rw [Int.bmod_def]
  split <;> omega

theorem toSizeT_eq {z : ℤ} (h0 : 0 ≤ z) (h : z < 2 ^ 64) : toSizeT z = z := by
  unfold toSizeT
  omega

theorem toChar_natCast {n : ℕ} (h : n < 256) : toChar n = UInt8.ofNat n := by
  unfold toChar
  rw [show ((n : ℤ) % 256).toNat = n by omega]

/-! ### Reading numbers -/

/-- `isspace` in the C locale. -/
def isSpace (c : UInt8) : Bool := c == 32 || (decide (9 ≤ c) && decide (c ≤ 13))

/-- The value of a digit or letter. -/
def digitVal (c : UInt8) : Option ℕ :=
  if 48 ≤ c ∧ c ≤ 57 then some (c.toNat - 48)
  else if 97 ≤ c ∧ c ≤ 122 then some (c.toNat - 87)
  else if 65 ≤ c ∧ c ≤ 90 then some (c.toNat - 55)
  else none

/-- The value of a digit in the given base. -/
def digitIn (base : ℕ) (c : UInt8) : Option ℕ := (digitVal c).filter (· < base)

/-- Read digits as long as there are any. -/
def readDigits (base : ℕ) : Str → ℕ → ℕ
  | [], acc => acc
  | c :: rest, acc =>
      match digitIn base c with
      | some d => readDigits base rest (acc * base + d)
      | none => acc

/-- In base 16, step over `0x` or `0X` when a digit follows. -/
def skipHexMark (base : ℕ) (s : Str) : Str :=
  match s with
  | 48 :: x :: d :: rest =>
      if base = 16 ∧ (x = 120 ∨ x = 88) ∧ (digitIn 16 d).isSome then d :: rest else s
  | _ => s

/-- The nearest `long`. -/
def clampLong (z : ℤ) : ℤ := max (-2 ^ 63) (min (2 ^ 63 - 1) z)

/-- `strtol( s, NULL, base )`: white space, a sign, a base prefix, digits; the
value saturates at the ends of `long`. -/
def strtol (base : ℕ) (s : Str) : ℤ :=
  match s.dropWhile isSpace with
  | 45 :: rest => clampLong (-(readDigits base (skipHexMark base rest) 0))
  | 43 :: rest => clampLong (readDigits base (skipHexMark base rest) 0)
  | rest => clampLong (readDigits base (skipHexMark base rest) 0)

/-- `atoi`, a `strtol` converted to `int`. -/
def atoi (s : Str) : ℤ := toInt (strtol 10 s)

theorem digitIn_lt {base : ℕ} {c : UInt8} {d : ℕ} (h : digitIn base c = some d) : d < base := by
  unfold digitIn at h
  rw [Option.filter_eq_some_iff] at h
  simpa using h.2

/-- A digit or letter is neither white space nor a sign. -/
theorem not_lead_of_digitIn {base : ℕ} {c : UInt8} {d : ℕ} (h : digitIn base c = some d) :
    isSpace c = false ∧ c ≠ 45 ∧ c ≠ 43 := by
  have hv : digitVal c = some d := by
    unfold digitIn at h
    exact (Option.filter_eq_some_iff.mp h).1
  have h48 : 48 ≤ c.toNat := by
    unfold digitVal at hv
    simp only [UInt8.le_iff_toNat_le, UInt8.reduceToNat] at hv
    split at hv
    · omega
    · split at hv
      · omega
      · split at hv
        · omega
        · exact absurd hv (by simp)
  refine ⟨?_, ?_, ?_⟩
  · unfold isSpace
    rw [Bool.or_eq_false_iff, Bool.and_eq_false_iff]
    refine ⟨?_, Or.inr ?_⟩
    · rw [beq_eq_false_iff_ne]
      rintro rfl
      exact absurd h48 (by decide)
    · rw [decide_eq_false_iff_not, UInt8.le_iff_toNat_le]
      intro hle
      have : c.toNat ≤ 13 := by simpa using hle
      omega
  · rintro rfl
    exact absurd h48 (by decide)
  · rintro rfl
    exact absurd h48 (by decide)

/-- Two hexadecimal digits and nothing else. -/
theorem strtol_hex {h l : UInt8} {a b : ℕ} (ha : digitIn 16 h = some a)
    (hb : digitIn 16 l = some b) : strtol 16 [h, l] = (16 * a + b : ℕ) := by
  obtain ⟨hsp, hminus, hplus⟩ := not_lead_of_digitIn ha
  have halt := digitIn_lt ha
  have hblt := digitIn_lt hb
  have hskip : skipHexMark 16 [h, l] = [h, l] := by
    unfold skipHexMark
    split
    · next heq => simp at heq
    · rfl
  have hread : readDigits 16 [h, l] 0 = 16 * a + b := by
    simp only [readDigits, ha, hb]
    omega
  unfold strtol
  rw [List.dropWhile_cons_of_neg (by simp [hsp])]
  split
  · next heq => exact absurd (List.cons.inj heq).1 hminus
  · next heq => exact absurd (List.cons.inj heq).1 hplus
  · rw [hskip, hread, clampLong]
    omega

/-- **Two hexadecimal digits read the byte they spell.** -/
theorem toChar_strtol_hex {h l c : UInt8} (hh : digitIn 16 h = some (c.toNat / 16))
    (hl : digitIn 16 l = some (c.toNat % 16)) : toChar (strtol 16 [h, l]) = c := by
  have hc := c.toNat_lt
  rw [strtol_hex hh hl, toChar_natCast (by omega), show 16 * (c.toNat / 16) + c.toNat % 16 = c.toNat
    by omega, UInt8.ofNat_toNat]

end ModCplusplus
