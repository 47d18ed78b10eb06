import ModCplusplus.FormDecode

/-!
# Escapes at the end of a form

An escape takes in the two bytes behind its `%`, and what should keep it inside the
string, `i < ch_len+2`, holds at every index the loop comes to.  One byte behind the
`%`, the second digit is the NUL; with none, it is the byte behind the NUL.

## Main definitions

* `endsBare` — the string ends in a `%` that begins an escape.

## Main results

* `le_of_mem_reads` — no index beyond the one behind the NUL is read.
* `decode_reads_le_iff` — when no index beyond the NUL is.
-/

namespace ModCplusplus

/-- The string ends in a `%`, and no escape before takes it in. -/
def endsBare : Str → Bool
  | [] => false
  | c :: rest =>
      if c = byteOf '%' then
        match rest with
        | _ :: _ :: rest => endsBare rest
        | [_] => false
        | [] => true
      else endsBare rest

theorem endsBare_cons_of_ne {c : UInt8} (h : c ≠ byteOf '%') (rest : Str) :
    endsBare (c :: rest) = endsBare rest := by
  rw [endsBare.eq_def]
  exact if_neg h

theorem endsBare_escape (h l : UInt8) (rest : Str) :
    endsBare (byteOf '%' :: h :: l :: rest) = endsBare rest := by
  rw [endsBare.eq_def]
  exact if_pos rfl

/-- No index beyond the one behind the NUL is read. -/
theorem le_of_mem_reads (mem : Uninit) (s : Str) (i : ℕ) :
    ∀ j ∈ (pieces mem i s).flatMap Piece.reads, j ≤ i + s.length + 1 := by
  induction s using endsBare.induct generalizing i with
  | case1 => simp
  | case2 h l rest ih =>
    intro j hj
    rw [pieces_escape, List.flatMap_cons, List.mem_append] at hj
    simp only [List.length_cons]
    rcases hj with hj | hj
    · simp only [List.mem_cons, List.not_mem_nil, or_false] at hj
      omega
    · have := ih (i + 3) j hj
      omega
  | case3 h =>
    simp only [pieces_escape_one, List.flatMap_singleton, List.mem_cons, List.not_mem_nil, or_false,
      List.length_cons, List.length_nil]
    omega
  | case4 =>
    simp only [pieces_escape_nil, List.flatMap_singleton, List.mem_cons, List.not_mem_nil, or_false,
      List.length_cons, List.length_nil]
    omega
  | case5 c rest hc ih =>
    intro j hj
    rw [pieces_cons_of_ne mem hc, List.flatMap_cons, List.mem_append, List.mem_singleton] at hj
    simp only [List.length_cons]
    rcases hj with rfl | hj
    · omega
    · have := ih (i + 1) j hj
      omega

/-- **No index beyond the NUL is read exactly if the string does not end in a `%`
that begins an escape.** -/
theorem reads_le_iff (mem : Uninit) (s : Str) (i : ℕ) :
    (∀ j ∈ (pieces mem i s).flatMap Piece.reads, j ≤ i + s.length) ↔ endsBare s = false := by
  induction s using endsBare.induct generalizing i with
  | case1 => simp [endsBare]
  | case2 h l rest ih =>
    have hlength : i + (byteOf '%' :: h :: l :: rest).length = i + 3 + rest.length := by
      simp only [List.length_cons]
      omega
    rw [endsBare_escape, ← ih (i + 3), pieces_escape, List.flatMap_cons, List.forall_mem_append,
      hlength]
    refine and_iff_right ?_
    simp only [List.mem_cons, List.not_mem_nil, or_false]
    omega
  | case3 h => simp [pieces_escape_one, endsBare]
  | case4 => simp [pieces_escape_nil, endsBare]
  | case5 c rest hc ih =>
    have hlength : i + (c :: rest).length = i + 1 + rest.length := by
      simp only [List.length_cons]
      omega
    rw [endsBare_cons_of_ne hc, ← ih (i + 1), pieces_cons_of_ne mem hc, List.flatMap_cons,
      List.forall_mem_append, hlength]
    refine and_iff_right ?_
    simp only [List.mem_singleton]
    omega

/-- **`decode` reads at most up to the NUL** of exactly the strings that do not end
in a `%` that begins an escape, whatever memory holds and whatever was parsed
before. -/
theorem decode_reads_le_iff (mem : Uninit) (ch : CStr) (p : Parse) :
    (∀ j ∈ (decode mem ch p).reads, j ≤ ch.val.length) ↔ endsBare ch.val = false := by
  rw [reads_decode, ← reads_le_iff mem ch.val 0, Nat.zero_add]

/-- A form `a=%`: the second digit is read behind the NUL. -/
theorem not_reads_le_bare :
    (decode ⟨fun _ => 0, fun _ => []⟩ (cStr (literal "a=%")) (Parse.start [])).reads
        = [0, 1, 2, 3, 4] ∧
      ¬ ∀ j ∈ (decode ⟨fun _ => 0, fun _ => []⟩ (cStr (literal "a=%")) (Parse.start [])).reads,
        j ≤ (cStr (literal "a=%")).val.length := by
  decide

end ModCplusplus
