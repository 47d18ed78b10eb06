import ModCplusplus.EscapeBounds
import ModCplusplus.FormText

/-!
# Where `strtol` stops

`strtol` is given the two bytes of `hexstr`, with no NUL byte behind them.  It stops
inside only if the second byte cannot go on with what the first has begun; otherwise
the bytes behind `hexstr` are read as further digits, and can make the escape any byte
whatever.

## Main definitions

* `runsOn` — two bytes that `strtol` reads past.
* `escapesRunOn` — some escape of a string has such bytes for its digits.
* `Uninit.behind` — memory with the same bytes behind `hexstr` at every escape.

## Main results

* `strtol_of_not_runsOn` — `strtol` stops inside the other two bytes.
* `strtol_spell`, `toChar_strtol_fill` — what stands behind the others decides what
  they are converted to.
* `map_token_pieces` — the tokens of a string none of whose escapes run on.
* `exists_char_mem_pieces`, `char_equals_notMem_pieces` — the tokens of the others.
-/

namespace ModCplusplus

/-! ### `strtol` in base 16 -/

/-- The digits of a number in base 16, behind the `0x` it may have. -/
def readHex (s : Str) : ℤ := readDigits 16 (skipHexMark 16 s) 0

theorem strtol_space {c : UInt8} (hc : isSpace c = true) (s : Str) :
    strtol 16 (c :: s) = strtol 16 s := by
  rw [strtol, List.dropWhile_cons_of_pos hc, strtol]

theorem strtol_minus (s : Str) : strtol 16 (byteOf '-' :: s) = clampLong (-readHex s) := by
  rw [strtol, List.dropWhile_cons_of_neg (by decide)]
  rfl

theorem strtol_plus (s : Str) : strtol 16 (byteOf '+' :: s) = clampLong (readHex s) := by
  rw [strtol, List.dropWhile_cons_of_neg (by decide)]
  rfl

theorem strtol_unsigned {c : UInt8} (hspace : isSpace c = false) (hminus : c ≠ byteOf '-')
    (hplus : c ≠ byteOf '+') (s : Str) : strtol 16 (c :: s) = clampLong (readHex (c :: s)) := by
  rw [strtol, List.dropWhile_cons_of_neg (by simp [hspace])]
  split
  · next heq => exact absurd (List.cons.inj heq).1 hminus
  · next heq => exact absurd (List.cons.inj heq).1 hplus
  · rfl

theorem clampLong_eq {z : ℤ} (hlow : -2 ^ 63 ≤ z) (hhigh : z < 2 ^ 63) : clampLong z = z := by
  unfold clampLong
  omega

/-- The byte a number is converted to. -/
theorem toChar_eq {z : ℤ} {b : UInt8} (h : z % 256 = b.toNat) : toChar z = b := by
  rw [toChar, h, Int.toNat_natCast, UInt8.ofNat_toNat]

/-- A digit is neither white space nor a sign. -/
theorem not_lead_of_isHex {c : UInt8} (h : isHex c = true) :
    isSpace c = false ∧ c ≠ byteOf '-' ∧ c ≠ byteOf '+' := by
  obtain ⟨d, hd⟩ := Option.isSome_iff_exists.mp h
  exact not_lead_of_digitIn hd

theorem readHex_of_not_isHex {c : UInt8} (h : isHex c = false) (s : Str) :
    readHex (c :: s) = 0 := by
  have hdigit : digitIn 16 c = none := by simpa [isHex] using h
  have hskip : skipHexMark 16 (c :: s) = c :: s := by
    unfold skipHexMark
    split
    · next heq =>
      obtain ⟨rfl, -⟩ := List.cons.inj heq
      exact absurd h (by decide)
    · rfl
  rw [readHex, hskip, readDigits, hdigit]
  rfl

/-- Without an `x` behind the first digit there is no `0x` to step over. -/
theorem skipHexMark_eq_self {c d : UInt8} (h : c = byteOf '0' → d ≠ byteOf 'x' ∧ d ≠ byteOf 'X')
    (s : Str) : skipHexMark 16 (c :: d :: s) = c :: d :: s := by
  unfold skipHexMark
  split
  · next heq =>
    obtain ⟨rfl, htail⟩ := List.cons.inj heq
    obtain ⟨rfl, -⟩ := List.cons.inj htail
    obtain ⟨hx, hX⟩ := h rfl
    exact if_neg fun hand => hand.2.1.elim hx hX
  · rfl

theorem readDigits_cons {c : UInt8} {d : ℕ} (hc : digitIn 16 c = some d) (s : Str) (acc : ℕ) :
    readDigits 16 (c :: s) acc = readDigits 16 s (acc * 16 + d) := by
  rw [readDigits, hc]

theorem readDigits_of_not_isHex {c : UInt8} (h : isHex c = false) (s : Str) (acc : ℕ) :
    readDigits 16 (c :: s) acc = acc := by
  rw [readDigits, show digitIn 16 c = none by simpa [isHex] using h]

/-- A digit that neither a digit nor an `x` follows. -/
theorem readHex_one {c d : UInt8} {a : ℕ} (hc : digitIn 16 c = some a) (hd : isHex d = false)
    (hmark : c = byteOf '0' → d ≠ byteOf 'x' ∧ d ≠ byteOf 'X') (s : Str) :
    readHex (c :: d :: s) = a := by
  rw [readHex, skipHexMark_eq_self hmark, readDigits_cons hc, readDigits_of_not_isHex hd,
    Nat.zero_mul, Nat.zero_add]

/-! ### Escapes that end where they should -/

/-- Two bytes that `strtol` reads past. -/
def runsOn (h l : UInt8) : Bool :=
  if isHex h then isHex l || (h == byteOf '0' && (l == byteOf 'x' || l == byteOf 'X'))
  else if isSpace h then isHex l || isSpace l || l == byteOf '+' || l == byteOf '-'
  else (h == byteOf '+' || h == byteOf '-') && isHex l

/-- **`strtol` stops inside the two bytes** that do not run on. -/
theorem strtol_of_not_runsOn {h l : UInt8} (hruns : runsOn h l = false) :
    ∃ n : ℕ, n < 16 ∧ ∀ after, strtol 16 (h :: l :: after) = n := by
  unfold runsOn at hruns
  split at hruns
  · next hh =>
    -- a digit, and none behind it
    obtain ⟨a, ha⟩ := Option.isSome_iff_exists.mp hh
    obtain ⟨hspace, hminus, hplus⟩ := not_lead_of_isHex hh
    have halt := digitIn_lt ha
    simp only [Bool.or_eq_false_iff, Bool.and_eq_false_iff, beq_eq_false_iff_ne] at hruns
    obtain ⟨hl, hmark⟩ := hruns
    refine ⟨a, halt, fun after => ?_⟩
    rw [strtol_unsigned hspace hminus hplus, readHex_one ha hl fun h0 => hmark.resolve_left (· h0)]
    exact clampLong_eq (by omega) (by omega)
  · next hh =>
    split at hruns
    · next hspace =>
      -- white space, and neither a sign nor a digit behind it
      simp only [Bool.or_eq_false_iff, beq_eq_false_iff_ne] at hruns
      obtain ⟨⟨⟨hl, hlspace⟩, hlplus⟩, hlminus⟩ := hruns
      refine ⟨0, by decide, fun after => ?_⟩
      rw [strtol_space hspace, strtol_unsigned hlspace hlminus hlplus, readHex_of_not_isHex hl]
      rfl
    · next hspace =>
      refine ⟨0, by decide, fun after => ?_⟩
      have hnot : isHex h = false := by simpa using hh
      simp only [Bool.and_eq_false_iff, Bool.or_eq_false_iff, beq_eq_false_iff_ne] at hruns
      by_cases hplus : h = byteOf '+'
      · obtain hl := hruns.resolve_left fun hand => hand.1 hplus
        rw [hplus, strtol_plus, readHex_of_not_isHex hl]
        rfl
      · by_cases hminus : h = byteOf '-'
        · obtain hl := hruns.resolve_left fun hand => hand.2 hminus
          rw [hminus, strtol_minus, readHex_of_not_isHex hl]
          rfl
        · rw [strtol_unsigned (by simpa using hspace) hminus hplus, readHex_of_not_isHex hnot]
          rfl

/-- Such an escape is the same control character in all memory. -/
theorem Uninit.escaped_of_not_runsOn {h l : UInt8} (hruns : runsOn h l = false) :
    ∃ c : UInt8, c < 16 ∧ ∀ (mem : Uninit) (i : ℕ), mem.escaped i h l = c := by
  obtain ⟨n, hn, hstrtol⟩ := strtol_of_not_runsOn hruns
  refine ⟨UInt8.ofNat n, ?_, fun mem i => ?_⟩
  · have htoNat : (UInt8.ofNat n).toNat = n := UInt8.toNat_ofNat_of_lt' (show n < 256 by omega)
    rw [UInt8.lt_iff_toNat_lt, htoNat]
    exact hn
  · rw [Uninit.escaped, List.cons_append, List.singleton_append, hstrtol,
      toChar_natCast (by omega)]

/-- The NUL behind the string ends any escape. -/
theorem runsOn_nul (h : UInt8) : runsOn h 0 = false := by
  have hhex : isHex 0 = false := by decide
  have hspace : isSpace 0 = false := by decide
  have hmark : (0 : UInt8) ≠ byteOf 'x' ∧ (0 : UInt8) ≠ byteOf 'X' := by decide
  have hsign : (0 : UInt8) ≠ byteOf '+' ∧ (0 : UInt8) ≠ byteOf '-' := by decide
  simp [runsOn, hhex, hspace, hmark, hsign]

/-! ### Escapes that memory decides -/

/-- The digit of a number below 16. -/
def hexDigit (n : ℕ) : UInt8 := UInt8.ofNat (if n < 10 then 48 + n else 87 + n)

/-- Two digits. -/
def spell (n : ℕ) : Str := [hexDigit (n / 16), hexDigit (n % 16)]

theorem digitIn_hexDigit : ∀ n < 16, digitIn 16 (hexDigit n) = some n := by decide

theorem readDigits_spell {n : ℕ} (hn : n < 256) (acc : ℕ) :
    readDigits 16 (spell n) acc = 256 * acc + n := by
  rw [spell, readDigits_cons (digitIn_hexDigit _ (by omega)),
    readDigits_cons (digitIn_hexDigit _ (by omega)), readDigits]
  omega

/-- A digit behind the first one is no `x`. -/
theorem not_mark_of_isHex {c : UInt8} (h : isHex c = true) : c ≠ byteOf 'x' ∧ c ≠ byteOf 'X' := by
  constructor <;> rintro rfl <;> exact absurd h (by decide)

theorem isHex_hexDigit {n : ℕ} (hn : n < 16) : isHex (hexDigit n) = true := by
  rw [isHex, digitIn_hexDigit n hn]
  rfl

theorem readHex_spell {n : ℕ} (hn : n < 256) : readHex (spell n) = n := by
  have hmark := not_mark_of_isHex (isHex_hexDigit (n := n % 16) (by omega))
  rw [readHex, spell, skipHexMark_eq_self fun _ => hmark, ← spell, readDigits_spell hn]
  simp

theorem readHex_cons_spell {c : UInt8} {a n : ℕ} (hc : digitIn 16 c = some a) (hn : n < 256) :
    readHex (c :: spell n) = 256 * a + n := by
  have hmark := not_mark_of_isHex (isHex_hexDigit (n := n / 16) (by omega))
  rw [readHex, spell, skipHexMark_eq_self fun _ => hmark, ← spell, readDigits_cons hc,
    readDigits_spell hn]
  omega

theorem readHex_mark_spell {x : UInt8} {n : ℕ} (hx : x = byteOf 'x' ∨ x = byteOf 'X')
    (hn : n < 256) : readHex (byteOf '0' :: x :: spell n) = n := by
  have hskip : skipHexMark 16 (byteOf '0' :: x :: spell n) = spell n :=
    if_pos ⟨rfl, hx, isHex_hexDigit (by omega)⟩
  rw [readHex, hskip, readDigits_spell hn]
  simp

theorem strtol_of_isHex {c : UInt8} (h : isHex c = true) (s : Str) :
    strtol 16 (c :: s) = clampLong (readHex (c :: s)) :=
  strtol_unsigned (not_lead_of_isHex h).1 (not_lead_of_isHex h).2.1 (not_lead_of_isHex h).2.2 s

theorem ne_minus_of_isSpace {c : UInt8} (h : isSpace c = true) : c ≠ byteOf '-' := by
  rintro rfl
  exact absurd h (by decide)

/-- What is read of one byte and two digits, if it goes on to them. -/
theorem strtol_cons_spell {l : UInt8}
    (hl : isHex l = true ∨ isSpace l = true ∨ l = byteOf '+' ∨ l = byteOf '-') :
    ∃ a : ℕ, a < 256 ∧ ∀ n : ℕ, n < 256 → strtol 16 (l :: spell n)
      = if l = byteOf '-' then -(256 * a + n : ℤ) else 256 * a + n := by
  rcases hl with hl | hl | rfl | rfl
  · obtain ⟨y, hy⟩ := Option.isSome_iff_exists.mp hl
    have hylt := digitIn_lt hy
    refine ⟨y, by omega, fun n hn => ?_⟩
    rw [if_neg (not_lead_of_isHex hl).2.1, strtol_of_isHex hl, readHex_cons_spell hy hn,
      clampLong_eq (by omega) (by omega)]
  · refine ⟨0, Nat.zero_lt_succ _, fun n hn => ?_⟩
    rw [if_neg (ne_minus_of_isSpace hl), strtol_space hl, spell,
      strtol_of_isHex (isHex_hexDigit (by omega)), ← spell, readHex_spell hn,
      clampLong_eq (by omega) (by omega)]
    simp
  · refine ⟨0, Nat.zero_lt_succ _, fun n hn => ?_⟩
    rw [if_neg (by decide), strtol_plus, readHex_spell hn, clampLong_eq (by omega) (by omega)]
    simp
  · refine ⟨0, Nat.zero_lt_succ _, fun n hn => ?_⟩
    rw [if_pos rfl, strtol_minus, readHex_spell hn, clampLong_eq (by omega) (by omega)]
    simp

/-- **Two more digits make the low byte** of what is read from two bytes that run on. -/
theorem strtol_spell {h l : UInt8} (hruns : runsOn h l = true) :
    ∃ a : ℕ, a < 256 ∧ ∀ n : ℕ, n < 256 → strtol 16 (h :: l :: spell n)
      = if h = byteOf '-' ∨ l = byteOf '-' then -(256 * a + n : ℤ) else 256 * a + n := by
  unfold runsOn at hruns
  split at hruns
  · next hh =>
    obtain ⟨x, hx⟩ := Option.isSome_iff_exists.mp hh
    have hxlt := digitIn_lt hx
    have hminus := (not_lead_of_isHex hh).2.1
    simp only [Bool.or_eq_true, Bool.and_eq_true, beq_iff_eq] at hruns
    rcases hruns with hl | ⟨rfl, hmark⟩
    · -- two digits
      obtain ⟨y, hy⟩ := Option.isSome_iff_exists.mp hl
      have hylt := digitIn_lt hy
      refine ⟨16 * x + y, by omega, fun n hn => ?_⟩
      rw [if_neg (not_or.mpr ⟨hminus, (not_lead_of_isHex hl).2.1⟩), strtol_of_isHex hh, readHex,
        skipHexMark_eq_self fun _ => not_mark_of_isHex hl, readDigits_cons hx,
        readDigits_cons hy, readDigits_spell hn, clampLong_eq (by omega) (by omega)]
      omega
    · -- `0x`
      have hl : l ≠ byteOf '-' := by rcases hmark with rfl | rfl <;> decide
      refine ⟨0, Nat.zero_lt_succ _, fun n hn => ?_⟩
      rw [if_neg (not_or.mpr ⟨hminus, hl⟩), strtol_of_isHex hh, readHex_mark_spell hmark hn,
        clampLong_eq (by omega) (by omega)]
      simp
  · split at hruns
    · next hspace =>
      -- white space, and the second byte goes on alone
      simp only [Bool.or_eq_true, beq_iff_eq, or_assoc] at hruns
      obtain ⟨a, ha, hread⟩ := strtol_cons_spell hruns
      refine ⟨a, ha, fun n hn => ?_⟩
      rw [strtol_space hspace, hread n hn]
      simp only [ne_minus_of_isSpace hspace, false_or]
    · -- a sign and a digit
      simp only [Bool.or_eq_true, Bool.and_eq_true, beq_iff_eq] at hruns
      obtain ⟨hsign, hl⟩ := hruns
      obtain ⟨y, hy⟩ := Option.isSome_iff_exists.mp hl
      have hylt := digitIn_lt hy
      refine ⟨y, by omega, fun n hn => ?_⟩
      rcases hsign with rfl | rfl
      · rw [if_neg (not_or.mpr ⟨by decide, (not_lead_of_isHex hl).2.1⟩), strtol_plus,
          readHex_cons_spell hy hn, clampLong_eq (by omega) (by omega)]
      · rw [if_pos (Or.inl rfl), strtol_minus, readHex_cons_spell hy hn,
          clampLong_eq (by omega) (by omega)]

/-- What has to stand behind two bytes that run on for the escape to become a given
byte; only a `-` makes a difference. -/
def fill (h l b : UInt8) : Str :=
  spell (if h = byteOf '-' ∨ l = byteOf '-' then (256 - b.toNat) % 256 else b.toNat)

/-- **Any byte can be made of two bytes that run on.** -/
theorem toChar_strtol_fill {h l : UInt8} (hruns : runsOn h l = true) (b : UInt8) :
    toChar (strtol 16 (h :: l :: fill h l b)) = b := by
  have hb := b.toNat_lt
  obtain ⟨a, ha, hstrtol⟩ := strtol_spell hruns
  unfold fill
  split
  · next hminus =>
    rw [hstrtol _ (by omega), if_pos hminus]
    exact toChar_eq (by omega)
  · next hminus =>
    rw [hstrtol _ (by omega), if_neg hminus]
    exact toChar_eq (by omega)

/-! ### Strings -/

/-- Some escape of the string runs on. -/
def escapesRunOn : Str → Bool
  | [] => false
  | c :: rest =>
      if c = byteOf '%' then
        match rest with
        | h :: l :: rest => runsOn h l || escapesRunOn rest
        | _ => false
      else escapesRunOn rest

theorem escapesRunOn_cons_of_ne {c : UInt8} (h : c ≠ byteOf '%') (rest : Str) :
    escapesRunOn (c :: rest) = escapesRunOn rest := by
  rw [escapesRunOn.eq_def]
  exact if_neg h

theorem escapesRunOn_escape (h l : UInt8) (rest : Str) :
    escapesRunOn (byteOf '%' :: h :: l :: rest) = (runsOn h l || escapesRunOn rest) := by
  rw [escapesRunOn.eq_def]
  exact if_pos rfl

/-- **Where no escape runs on, the tokens are the same in all memory.** -/
theorem map_token_pieces {s : Str} (hs : escapesRunOn s = false) (mem mem' : Uninit) (i : ℕ) :
    (pieces mem i s).map Piece.token = (pieces mem' i s).map Piece.token := by
  induction s using endsBare.induct generalizing i with
  | case1 => rfl
  | case2 h l rest ih =>
    rw [escapesRunOn_escape, Bool.or_eq_false_iff] at hs
    obtain ⟨c, -, hc⟩ := Uninit.escaped_of_not_runsOn hs.1
    rw [pieces_escape, pieces_escape, List.map_cons, List.map_cons, ih hs.2, hc, hc]
  | case3 h =>
    obtain ⟨c, -, hc⟩ := Uninit.escaped_of_not_runsOn (runsOn_nul h)
    rw [pieces_escape_one, pieces_escape_one, hc, hc]
  | case4 => rfl
  | case5 c rest hc ih =>
    rw [escapesRunOn_cons_of_ne hc] at hs
    rw [pieces_cons_of_ne mem hc, pieces_cons_of_ne mem' hc, List.map_cons, List.map_cons, ih hs]

/-- Memory with the same bytes behind `hexstr` at every escape. -/
def Uninit.behind (after : Str) : Uninit where
  beyond _ := 0
  afterHexstr _ := after

theorem Uninit.behind_escaped (after : Str) (i : ℕ) (h l : UInt8) :
    (Uninit.behind after).escaped i h l = toChar (strtol 16 (h :: l :: after)) := rfl

/-- **Where an escape runs on, any byte can be made of it.** -/
theorem exists_char_mem_pieces {s : Str} (hs : escapesRunOn s = true) (b : UInt8) :
    ∃ after, ∀ i, .char b ∈ (pieces (Uninit.behind after) i s).map Piece.token := by
  induction s using endsBare.induct with
  | case1 => exact absurd hs Bool.false_ne_true
  | case2 h l rest ih =>
    rw [escapesRunOn_escape, Bool.or_eq_true] at hs
    rcases hs with hs | hs
    · refine ⟨fill h l b, fun i => ?_⟩
      rw [pieces_escape, Uninit.behind_escaped, toChar_strtol_fill hs]
      exact List.mem_cons_self
    · obtain ⟨after, hafter⟩ := ih hs
      refine ⟨after, fun i => ?_⟩
      rw [pieces_escape]
      exact List.mem_cons_of_mem _ (hafter (i + 3))
  | case3 h => exact absurd hs (by simp [escapesRunOn])
  | case4 => exact absurd hs Bool.false_ne_true
  | case5 c rest hc ih =>
    rw [escapesRunOn_cons_of_ne hc] at hs
    obtain ⟨after, hafter⟩ := ih hs
    refine ⟨after, fun i => ?_⟩
    rw [pieces_cons_of_ne _ hc]
    exact List.mem_cons_of_mem _ (hafter (i + 1))

/-- A `=` in the form delimits a key. -/
theorem Token.ofByte_ne_char_equals (c : UInt8) : Token.ofByte c ≠ .char (byteOf '=') := by
  unfold Token.ofByte
  split
  · exact nofun
  · next hc =>
    split
    · exact nofun
    · split
      · decide
      · rintro h
        exact hc (Token.char.inj h)

theorem fill_zero (h l : UInt8) : fill h l 0 = spell 0 := by
  unfold fill
  split <;> rfl

/-- **A `=` in a text comes of an escape only**, and with two zeros behind `hexstr` of
none: such an escape is a control character. -/
theorem char_equals_notMem_pieces (s : Str) (i : ℕ) :
    .char (byteOf '=') ∉ (pieces (Uninit.behind (spell 0)) i s).map Piece.token := by
  have hcontrol {c : UInt8} (hc : c < 16) : Token.char (byteOf '=') ≠ .char c := by
    rintro h
    rw [← Token.char.inj h] at hc
    exact absurd hc (by decide)
  have hnul : (0 : UInt8) < 16 := by decide
  induction s using endsBare.induct generalizing i with
  | case1 => exact List.not_mem_nil
  | case2 h l rest ih =>
    rw [pieces_escape, List.map_cons, List.mem_cons, not_or]
    refine ⟨?_, ih (i + 3)⟩
    cases hruns : runsOn h l with
    | true =>
      rw [Uninit.behind_escaped, ← fill_zero h l, toChar_strtol_fill hruns]
      exact hcontrol hnul
    | false =>
      obtain ⟨c, hlt, hc⟩ := Uninit.escaped_of_not_runsOn hruns
      rw [hc]
      exact hcontrol hlt
  | case3 h =>
    obtain ⟨c, hlt, hc⟩ := Uninit.escaped_of_not_runsOn (runsOn_nul h)
    rw [pieces_escape_one, List.map_singleton, List.mem_singleton, hc]
    exact hcontrol hlt
  | case4 =>
    rw [pieces_escape_nil, List.map_singleton, List.mem_singleton]
    exact hcontrol hnul
  | case5 c rest hc ih =>
    rw [pieces_cons_of_ne _ hc, List.map_cons, List.mem_cons, not_or]
    exact ⟨(Token.ofByte_ne_char_equals c).symm, ih (i + 1)⟩

end ModCplusplus
