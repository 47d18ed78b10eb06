import ModCplusplus.FormParser
import Mathlib.Data.List.Infix

/-!
# The text of a key and of a value

In a form whose escapes are whole, what stands between two delimiters is a text with
some of its bytes escaped.  `decode` collects the text with its escapes resolved,
and ends it at either delimiter: at a `=` it is a key, also when a key has been read
already; at a `&` or at the end it is a value, unless it is empty.

## Main definitions

* `EscapesWhole` — every `%` is followed by two hexadecimal digits.
* `resolve` — a text with its escapes resolved.
* `isDelim` — the delimiters.

## Main results

* `decodeBytes_resolve` — what stands between delimiters is collected, resolved.
* `decode_keyValue` — the table of a key and a value.
* `keyValue_iff` — when the table holds the value and nothing else.
-/

namespace ModCplusplus

/-! ### Escapes -/

/-- A hexadecimal digit. -/
def isHex (c : UInt8) : Bool := (digitIn 16 c).isSome

/-- A `%` in front is followed by two hexadecimal digits. -/
def escapeAt : Str → Bool
  | [] => true
  | c :: rest =>
      if c = byteOf '%' then
        match rest with
        | h :: l :: _ => isHex h && isHex l
        | _ => false
      else true

/-- Every `%` is followed by two hexadecimal digits. -/
def EscapesWhole (s : Str) : Prop := ∀ r ∈ s.tails, escapeAt r = true

instance (s : Str) : Decidable (EscapesWhole s) :=
  inferInstanceAs (Decidable (∀ r ∈ s.tails, escapeAt r = true))

/-- The byte two hexadecimal digits spell. -/
def hexByte (h l : UInt8) : UInt8 :=
  UInt8.ofNat (16 * (digitIn 16 h).getD 0 + (digitIn 16 l).getD 0)

/-- A text with its escapes resolved. -/
def resolve : Str → Str
  | [] => []
  | c :: rest =>
      if c = byteOf '%' then
        match rest with
        | h :: l :: rest => hexByte h l :: resolve rest
        | _ => []
      else (if c = byteOf '+' then byteOf ' ' else c) :: resolve rest

/-- A string of bytes that begin no escape and of whole escapes. -/
inductive Whole : Str → Prop
  | nil : Whole []
  | escape {h l : UInt8} {rest : Str} : isHex h = true → isHex l = true → Whole rest →
      Whole (byteOf '%' :: h :: l :: rest)
  | plain {c : UInt8} {rest : Str} : c ≠ byteOf '%' → Whole rest → Whole (c :: rest)

theorem resolve_plain {c : UInt8} (h : c ≠ byteOf '%') (rest : Str) :
    resolve (c :: rest) = (if c = byteOf '+' then byteOf ' ' else c) :: resolve rest := by
  rw [resolve.eq_def]
  exact if_neg h

theorem resolve_escape (h l : UInt8) (rest : Str) :
    resolve (byteOf '%' :: h :: l :: rest) = hexByte h l :: resolve rest := by
  rw [resolve.eq_def]
  exact if_pos rfl

/-- What `strtol` makes of two hexadecimal digits. -/
theorem toChar_strtol_eq_hexByte {h l : UInt8} (hh : isHex h = true) (hl : isHex l = true) :
    toChar (strtol 16 [h, l]) = hexByte h l := by
  obtain ⟨a, ha⟩ := Option.isSome_iff_exists.mp hh
  obtain ⟨b, hb⟩ := Option.isSome_iff_exists.mp hl
  have halt := digitIn_lt ha
  have hblt := digitIn_lt hb
  rw [strtol_hex ha hb, toChar_natCast (by omega), hexByte, ha, hb]
  rfl

theorem EscapesWhole.at {s : Str} (h : EscapesWhole s) : escapeAt s = true :=
  h s ((List.mem_tails _ _).mpr List.suffix_rfl)

theorem EscapesWhole.tail {c : UInt8} {s : Str} (h : EscapesWhole (c :: s)) : EscapesWhole s :=
  fun r hr =>
    h r ((List.mem_tails _ _).mpr (((List.mem_tails _ _).mp hr).trans (List.suffix_cons c s)))

theorem EscapesWhole.whole {s : Str} (h : EscapesWhole s) : Whole s := by
  have hat := h.at
  induction s using resolve.induct with
  | case1 => exact .nil
  | case2 h' l rest ih =>
    simp only [escapeAt, if_pos, Bool.and_eq_true] at hat
    exact .escape hat.1 hat.2 (ih h.tail.tail.tail h.tail.tail.tail.at)
  | case3 rest hrest =>
    -- the escape is cut short
    match rest with
    | [] => exact absurd hat (by decide)
    | [_] => simp [escapeAt] at hat
    | h' :: l :: rest => exact absurd rfl (hrest h' l rest)
  | case4 c rest hc ih => exact .plain hc (ih h.tail h.tail.at)

/-! ### Delimiters -/

/-- A delimiter. -/
def isDelim (c : UInt8) : Bool := c == byteOf '=' || c == byteOf '&'

theorem isDelim_equals : isDelim (byteOf '=') = true := rfl

theorem isDelim_ampersand : isDelim (byteOf '&') = true := rfl

theorem not_isHex_of_isDelim {c : UInt8} (h : isDelim c = true) : isHex c = false := by
  simp only [isDelim, Bool.or_eq_true, beq_iff_eq] at h
  rcases h with rfl | rfl <;> decide

theorem ne_percent_of_isDelim {c : UInt8} (h : isDelim c = true) : c ≠ byteOf '%' := by
  rintro rfl
  exact absurd h (by decide)

/-- A string cut at a delimiter is whole on both sides. -/
theorem Whole.split {a b : Str} {c : UInt8} (hc : isDelim c = true) (h : Whole (a ++ c :: b)) :
    Whole a ∧ Whole b := by
  have hpct := ne_percent_of_isDelim hc
  have hhex := not_isHex_of_isDelim hc
  generalize hs : a ++ c :: b = s at h
  induction h generalizing a with
  | nil => simp at hs
  | @escape x y rest hx hy _ ih =>
    -- the delimiter is not inside the escape
    match a, hs with
    | [], hs => exact absurd (List.cons.inj hs).1 hpct
    | [_], hs =>
      obtain rfl : c = x := by simpa using (List.cons.inj (List.cons.inj hs).2).1
      exact absurd hx (by simp [hhex])
    | [_, _], hs =>
      obtain rfl : c = y := by
        simpa using (List.cons.inj (List.cons.inj (List.cons.inj hs).2).2).1
      exact absurd hy (by simp [hhex])
    | _ :: _ :: _ :: a', hs' =>
      simp only [List.cons_append, List.cons.injEq] at hs'
      obtain ⟨rfl, rfl, rfl, hrest⟩ := hs'
      obtain ⟨ha, hb⟩ := ih hrest
      exact ⟨.escape hx hy ha, hb⟩
  | @plain x rest hx hrest ih =>
    cases a with
    | nil =>
      obtain ⟨-, rfl⟩ := List.cons.inj hs
      exact ⟨.nil, hrest⟩
    | cons x' a =>
      simp only [List.cons_append, List.cons.injEq] at hs
      obtain ⟨rfl, hs⟩ := hs
      obtain ⟨ha, hb⟩ := ih hs
      exact ⟨.plain hx ha, hb⟩

theorem Parse.char_of_not_isDelim {c : UInt8} (h : isDelim c = false) (p : Parse) :
    p.char c = p.push (if c = byteOf '+' then byteOf ' ' else c) := by
  simp only [isDelim, Bool.or_eq_false_iff, beq_eq_false_iff_ne] at h
  rw [Parse.char, if_neg h.1, if_neg h.2]
  split
  · rfl
  · rfl

/-- **What stands between delimiters is collected**, with its escapes resolved. -/
theorem decodeBytes_resolve {w : Str} (h : Whole w) (hw : ∀ c ∈ w, isDelim c = false) (rest : Str)
    (p : Parse) :
    decodeBytes (w ++ rest) p = decodeBytes rest { p with pStr := p.pStr ++ resolve w } := by
  induction h generalizing p with
  | nil => rw [List.nil_append, resolve, List.append_nil]
  | escape hh hl _ ih =>
    rw [List.cons_append, List.cons_append, List.cons_append, decodeBytes_escape,
      toChar_strtol_eq_hexByte hh hl, ih (fun c hc => hw c (by simp [hc])), resolve_escape,
      Parse.push, List.append_assoc, List.singleton_append]
  | @plain c rest' hc _ ih =>
    rw [List.cons_append, decodeBytes_cons_of_ne hc,
      Parse.char_of_not_isDelim (hw c List.mem_cons_self), ih (fun c hc => hw c (by simp [hc])),
      resolve_plain hc, Parse.push, List.append_assoc, List.singleton_append]

theorem Whole.resolve_ne_nil {w : Str} (h : Whole w) (hw : w ≠ []) : resolve w ≠ [] := by
  cases h with
  | nil => exact absurd rfl hw
  | escape => rw [resolve_escape]; exact List.cons_ne_nil _ _
  | plain hc => rw [resolve_plain hc]; exact List.cons_ne_nil _ _

/-! ### A key and a value -/

/-- `k=v`. -/
def keyValue (k v : CStr) : CStr :=
  ⟨k.val ++ byteOf '=' :: v.val, by
    rw [List.mem_append, List.mem_cons, not_or, not_or]
    exact ⟨k.property, by decide, v.property⟩⟩

/-- The key has been read, and the value is to come. -/
theorem decodeBytes_key {k : Str} (hk : k ≠ []) (hw : Whole k) (hd : ∀ c ∈ k, isDelim c = false)
    (rest : Str) :
    decodeBytes (k ++ byteOf '=' :: rest) (Parse.start [])
      = decodeBytes rest ⟨[], some 0, [⟨resolve k, []⟩]⟩ := by
  rw [decodeBytes_resolve hw hd, decodeBytes_equals, Parse.start, List.nil_append,
    Parse.endKey_eq (hw.resolve_ne_nil hk)]
  rfl

/-- **A key and a value**: one entry, with the value unless it is empty. -/
theorem decode_keyValue (mem : Uninit) (hmem : mem.ReadsTwo) (k v : CStr) (hk : k.val ≠ [])
    (hkw : EscapesWhole k.val) (hkd : ∀ c ∈ k.val, isDelim c = false) (hvw : EscapesWhole v.val)
    (hvd : ∀ c ∈ v.val, isDelim c = false) :
    (decode mem (keyValue k v) (Parse.start [])).parse.env_
      = [⟨resolve k.val, if v.val = [] then [] else [resolve v.val]⟩] := by
  have hvalue := decodeBytes_resolve hvw.whole hvd [] ⟨[], some 0, [⟨resolve k.val, []⟩]⟩
  rw [List.append_nil] at hvalue
  rw [decode_eq hmem, keyValue, decodeBytes_key hk hkw.whole hkd, hvalue, List.nil_append,
    decodeBytes_nil, Parse.finish]
  dsimp only
  split
  · next hv =>
    rw [if_pos]
    by_contra hne
    exact hvw.whole.resolve_ne_nil hne hv
  · next hv =>
    rw [if_neg]
    · rfl
    · rintro hnil
      rw [hnil] at hv
      exact hv rfl

/-- `a%20b=c`. -/
theorem decode_keyValue_escape :
    (decode ⟨fun _ => 0, fun _ => []⟩ (keyValue (cStr (literal "a%20b")) (cStr (literal "c")))
      (Parse.start [])).parse.env_ = [⟨literal "a b", [literal "c"]⟩] :=
  decode_keyValue ⟨fun _ => 0, fun _ => []⟩ (fun _ => rfl) (cStr (literal "a%20b"))
    (cStr (literal "c")) (by decide) (by decide) (List.forall_mem_iff_getElem.mpr (by decide))
    (by decide) (List.forall_mem_iff_getElem.mpr (by decide))

/-! ### Values that are not kept -/

/-- The table holds the value under the key, and nothing else. -/
def HoldsValue (mem : Uninit) (k v : CStr) : Prop :=
  (decode mem (keyValue k v) (Parse.start [])).parse.env_ = [⟨resolve k.val, [resolve v.val]⟩]

instance (mem : Uninit) (k v : CStr) : Decidable (HoldsValue mem k v) :=
  inferInstanceAs (Decidable (_ = _))

/-- `a=` and `a=b=c`: no value is stored in the one, and the other has two keys. -/
theorem not_holdsValue_empty :
    ¬ HoldsValue ⟨fun _ => 0, fun _ => []⟩ (cStr (literal "a")) (cStr []) ∧
      ¬ HoldsValue ⟨fun _ => 0, fun _ => []⟩ (cStr (literal "a")) (cStr (literal "b=c")) := by
  decide

/-- A `=` takes no bytes along. -/
theorem Parse.Valid.bytes_endKey_le {p : Parse} : p.endKey.bytes ≤ p.bytes := by
  by_cases hp : p.pStr = []
  · rw [Parse.endKey_of_nil hp]
  · rw [Parse.endKey_of_ne hp, Parse.bytes, Parse.bytes, Multimap.weight_intern]
    simp

/-- Nor does a `&`. -/
theorem Parse.Valid.bytes_endValue {p : Parse} (h : p.Valid) : p.endValue.bytes = p.bytes := by
  by_cases hp : p.pStr = []
  · rw [Parse.endValue_of_nil hp]
  · cases hi : p.pEnv with
    | none => rw [Parse.endValue_of_none hi]
    | some i =>
      rw [Parse.endValue_of_some hi hp, Parse.bytes, Parse.bytes,
        Multimap.weight_addAt _ _ (h i hi)]
      rfl

theorem Parse.bytes_push (c : UInt8) (p : Parse) : (p.push c).bytes = p.bytes + 1 := by
  simp [Parse.bytes, Parse.push, Nat.add_assoc]

theorem Parse.Valid.char {p : Parse} (h : p.Valid) (c : UInt8) : (p.char c).Valid := by
  rw [← Token.step_ofByte]
  exact h.step _

/-- **A text adds at most its own bytes** to the values and the text, and none for a
`=`. -/
theorem Whole.bytes_decodeBytes_le {w : Str} (hw : Whole w) {p : Parse} (h : p.Valid) :
    (decodeBytes w p).bytes + w.count (byteOf '=') ≤ p.bytes + (resolve w).length ∧
      (decodeBytes w p).Valid := by
  induction hw generalizing p with
  | nil => exact ⟨Nat.le_refl _, h⟩
  | @escape h' l rest hh hl _ ih =>
    have hne : ∀ c, isHex c = true → c ≠ byteOf '=' := by
      rintro c hc rfl
      exact absurd hc (by decide)
    obtain ⟨hle, hvalid⟩ := ih (h.step (.char (toChar (strtol 16 [h', l]))))
    rw [Token.step, Parse.bytes_push] at hle
    rw [decodeBytes_escape, resolve_escape, List.count_cons_of_ne (by decide),
      List.count_cons_of_ne (hne h' hh), List.count_cons_of_ne (hne l hl), List.length_cons]
    exact ⟨by omega, hvalid⟩
  | @plain c rest hc _ ih =>
    obtain ⟨hle, hvalid⟩ := ih (h.char c)
    rw [decodeBytes_cons_of_ne hc, resolve_plain hc, List.length_cons]
    refine ⟨?_, hvalid⟩
    by_cases heq : c = byteOf '='
    · have hbytes : (p.char c).bytes ≤ p.bytes := by
        rw [Parse.char, if_pos heq]
        exact Parse.Valid.bytes_endKey_le
      rw [heq, List.count_cons_self]
      rw [heq] at hle hbytes
      omega
    · have hbytes : (p.char c).bytes ≤ p.bytes + 1 := by
        rw [Parse.char, if_neg heq]
        split
        · rw [h.bytes_endValue]
          omega
        · split
          · rw [Parse.bytes_push]
          · rw [Parse.bytes_push]
      rw [List.count_cons_of_ne heq]
      omega

/-- **The table holds the value, and nothing else**, exactly if the value is not empty
and has no `=`. -/
theorem keyValue_iff (mem : Uninit) (hmem : mem.ReadsTwo) (k v : CStr) (hk : k.val ≠ [])
    (hkw : EscapesWhole k.val) (hkd : ∀ c ∈ k.val, isDelim c = false) (hvw : EscapesWhole v.val)
    (hv : byteOf '&' ∉ v.val) :
    HoldsValue mem k v ↔ v.val ≠ [] ∧ byteOf '=' ∉ v.val := by
  constructor
  · intro h
    set p : Parse := ⟨[], some 0, [⟨resolve k.val, []⟩]⟩
    have hvalid : p.Valid := by
      rintro i ⟨⟩
      exact Nat.one_pos
    rw [HoldsValue, decode_eq hmem, keyValue, decodeBytes_key hk hkw.whole hkd,
      Parse.env_finish] at h
    refine ⟨fun hnil => ?_, ?_⟩
    · rw [hnil] at h
      exact absurd h (by simp [decodeBytes, resolve, Parse.endValue])
    · -- the value stored has all the bytes there are
      obtain ⟨hle, hvalid'⟩ := hvw.whole.bytes_decodeBytes_le hvalid
      have hweight : Multimap.weight List.length (decodeBytes v.val p).endValue.env_
          = (resolve v.val).length := by
        rw [h]
        simp [Multimap.weight]
      have hbytes : Multimap.weight List.length (decodeBytes v.val p).endValue.env_
          + (decodeBytes v.val p).endValue.pStr.length = (decodeBytes v.val p).bytes :=
        hvalid'.bytes_endValue
      have hstart : p.bytes = 0 := rfl
      exact List.count_eq_zero.mp (by omega)
  · rintro ⟨hne, heq⟩
    rw [HoldsValue, decode_keyValue mem hmem k v hk hkw hkd hvw, if_neg hne]
    intro c hc
    rw [isDelim, Bool.or_eq_false_iff, beq_eq_false_iff_ne, beq_eq_false_iff_ne]
    exact ⟨fun h => heq (h ▸ hc), fun h => hv (h ▸ hc)⟩

end ModCplusplus
