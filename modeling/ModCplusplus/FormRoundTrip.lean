import ModCplusplus.FormParser

/-!
# Decoding what was encoded

A rendering of a list of pairs as a form may choose for every byte anew how to
write it, so it is a relation and not a function.  Whatever was chosen, decoding
brings the pairs back, gathered by key.

## Main definitions

* `RendersByte`, `RendersText`, `RendersPair`, `RendersPairs` — what may be written
  for a byte, for a text, for a pair and for a list of pairs.

## Main results

* `decodeBytes_text` — a rendering of a text leaves the text.
* `finish_decodeBytes_pairs` — a rendering of a list of pairs adds the pairs, to
  any table.
* `decode_rendersPairs` — the round trip, from the empty table.
-/

namespace ModCplusplus

/-! ### Renderings -/

/-- A byte that means itself. -/
def Literal (c : UInt8) : Prop :=
  c ≠ 0 ∧ c ≠ byteOf '=' ∧ c ≠ byteOf '&' ∧ c ≠ byteOf '+' ∧ c ≠ byteOf '%'

/-- What may be written for a byte. -/
inductive RendersByte : UInt8 → Str → Prop
  | literal {c : UInt8} : Literal c → RendersByte c [c]
  | plus : RendersByte (byteOf ' ') [byteOf '+']
  /-- Two digits, of either case. -/
  | hex {c h l : UInt8} : digitIn 16 h = some (c.toNat / 16) → digitIn 16 l = some (c.toNat % 16) →
      RendersByte c [byteOf '%', h, l]

/-- What may be written for a text, choosing anew at every byte. -/
inductive RendersText : Str → Str → Prop
  | nil : RendersText [] []
  | cons {c : UInt8} {s w ws : Str} : RendersByte c w → RendersText s ws →
      RendersText (c :: s) (w ++ ws)

/-- What may be written for a key and a value. -/
inductive RendersPair : Str × Str → Str → Prop
  | mk {k v wk wv : Str} : RendersText k wk → RendersText v wv →
      RendersPair (k, v) (wk ++ byteOf '=' :: wv)

/-- What may be written for a list of pairs. -/
inductive RendersPairs : List (Str × Str) → Str → Prop
  | nil : RendersPairs [] []
  | singleton {p : Str × Str} {w : Str} : RendersPair p w → RendersPairs [p] w
  | cons {p q : Str × Str} {ps : List (Str × Str)} {w ws : Str} : RendersPair p w →
      RendersPairs (q :: ps) ws → RendersPairs (p :: q :: ps) (w ++ byteOf '&' :: ws)

/-! ### A rendering is a C string -/

theorem ne_zero_of_digitIn {c : UInt8} {d : ℕ} (h : digitIn 16 c = some d) : c ≠ 0 := by
  rintro rfl
  exact absurd h (by simp [digitIn, digitVal])

theorem RendersByte.not_mem {c : UInt8} {w : Str} (h : RendersByte c w) : (0 : UInt8) ∉ w := by
  cases h with
  | literal hc => simpa using hc.1.symm
  | plus => decide
  | hex hh hl =>
    have hpct : byteOf '%' ≠ 0 := by decide
    simp [hpct.symm, (ne_zero_of_digitIn hh).symm, (ne_zero_of_digitIn hl).symm]

theorem RendersText.not_mem {s w : Str} (h : RendersText s w) : (0 : UInt8) ∉ w := by
  induction h with
  | nil => exact List.not_mem_nil
  | cons hc _ ih =>
    rw [List.mem_append, not_or]
    exact ⟨hc.not_mem, ih⟩

theorem RendersPair.not_mem {p : Str × Str} {w : Str} (h : RendersPair p w) : (0 : UInt8) ∉ w := by
  cases h with
  | mk hk hv =>
    rw [List.mem_append, List.mem_cons, not_or, not_or]
    exact ⟨hk.not_mem, by decide, hv.not_mem⟩

theorem RendersPairs.not_mem {pairs : List (Str × Str)} {w : Str} (h : RendersPairs pairs w) :
    (0 : UInt8) ∉ w := by
  induction h with
  | nil => exact List.not_mem_nil
  | singleton hp => exact hp.not_mem
  | cons hp _ ih =>
    rw [List.mem_append, List.mem_cons, not_or, not_or]
    exact ⟨hp.not_mem, by decide, ih⟩

/-! ### What decoding a rendering does -/

theorem Parse.char_of_literal {c : UInt8} (h : Literal c) (p : Parse) : p.char c = p.push c := by
  obtain ⟨-, heq, hamp, hplus, -⟩ := h
  rw [Parse.char, if_neg heq, if_neg hamp, if_neg hplus]

/-- A rendering of a byte leaves the byte. -/
theorem decodeBytes_byte {c : UInt8} {w : Str} (h : RendersByte c w) (rest : Str) (p : Parse) :
    decodeBytes (w ++ rest) p = decodeBytes rest (p.push c) := by
  cases h with
  | literal hc =>
    rw [List.singleton_append, decodeBytes_cons_of_ne hc.2.2.2.2, Parse.char_of_literal hc]
  | plus =>
    rw [List.singleton_append, decodeBytes_cons_of_ne (by decide)]
    rfl
  | hex hh hl =>
    rw [List.cons_append, List.cons_append, List.singleton_append, decodeBytes_escape,
      toChar_strtol_hex hh hl]

/-- **A rendering of a text leaves the text.** -/
theorem decodeBytes_text {s w : Str} (h : RendersText s w) (rest : Str) (p : Parse) :
    decodeBytes (w ++ rest) p = decodeBytes rest { p with pStr := p.pStr ++ s } := by
  induction h generalizing p with
  | nil => rw [List.nil_append, List.append_nil]
  | cons hc _ ih =>
    rw [List.append_assoc, decodeBytes_byte hc, ih, Parse.push, List.append_assoc,
      List.singleton_append]

/-- **A rendering of a pair leaves the entry of its key and the text of its
value.** -/
theorem decodeBytes_pair {p : Str × Str} {w : Str} (h : RendersPair p w) (hk : p.1 ≠ [])
    (rest : Str) (o : Option ℕ) (env_ : List EnvValue) :
    decodeBytes (w ++ rest) ⟨[], o, env_⟩ = decodeBytes rest
      ⟨p.2, some (Multimap.intern p.1 env_).2, (Multimap.intern p.1 env_).1⟩ := by
  cases h with
  | @mk k v wk wv hwk hwv =>
    rw [List.append_assoc, List.cons_append, decodeBytes_text hwk, List.nil_append,
      decodeBytes_equals, Parse.endKey_eq hk, decodeBytes_text hwv, List.nil_append]

/-- **A rendering of a list of pairs adds the pairs to the table**, one by one. -/
theorem finish_decodeBytes_pairs {pairs : List (Str × Str)} {w : Str} (h : RendersPairs pairs w)
    (hne : ∀ p ∈ pairs, p.1 ≠ [] ∧ p.2 ≠ []) (o : Option ℕ) (env_ : List EnvValue) :
    (decodeBytes w ⟨[], o, env_⟩).finish.env_ = Multimap.addAll pairs env_ := by
  induction h generalizing o env_ with
  | nil =>
    rw [decodeBytes_nil, Multimap.addAll_nil]
    cases o with
    | none => rfl
    | some i => rfl
  | @singleton p w hp =>
    obtain ⟨hk, hv⟩ := hne p List.mem_cons_self
    rw [← List.append_nil w, decodeBytes_pair hp hk, decodeBytes_nil, Parse.env_finish,
      Parse.endValue_of_some rfl hv]
    rfl
  | @cons p q ps w ws hp _ ih =>
    obtain ⟨hk, hv⟩ := hne p List.mem_cons_self
    have hrest : ∀ p' ∈ q :: ps, p'.1 ≠ [] ∧ p'.2 ≠ [] := fun p' hp' =>
      hne p' (List.mem_cons_of_mem p hp')
    -- the `&` stores the value and keeps the entry, which the next `=` replaces
    rw [decodeBytes_pair hp hk, decodeBytes_ampersand, Parse.endValue_of_some rfl hv, ih hrest]
    rfl

/-- **Decoding brings the pairs back, gathered by key**: for pairs of non-empty
byte strings and any rendering of them. -/
theorem decode_rendersPairs {pairs : List (Str × Str)} {w : Str} (h : RendersPairs pairs w)
    (hne : ∀ p ∈ pairs, p.1 ≠ [] ∧ p.2 ≠ []) :
    ∃ hw : (0 : UInt8) ∉ w, ∀ mem : Uninit, mem.ReadsTwo →
      (decode mem ⟨w, hw⟩ (Parse.start [])).parse.env_ = Multimap.grouped pairs := by
  refine ⟨h.not_mem, fun mem hmem => ?_⟩
  rw [decode_eq hmem, Parse.start, finish_decodeBytes_pairs h hne, ← Multimap.grouped_nil,
    Multimap.addAll_grouped, List.nil_append]

/-- The pairs `a b`, `&` and `a b`, `a`, written `a+b=%26&%61%20b=a`. -/
theorem decode_rendersPairs_repeated :
    let w := literal "a+b=%26&%61%20b=a"
    let pairs := [(literal "a b", literal "&"), (literal "a b", literal "a")]
    let mem : Uninit := ⟨fun _ => 255, fun _ => []⟩
    (RendersPairs pairs w ∧ (∀ p ∈ pairs, p.1 ≠ [] ∧ p.2 ≠ []) ∧ mem.ReadsTwo) ∧
      ∃ hw : (0 : UInt8) ∉ w, (decode mem ⟨w, hw⟩ (Parse.start [])).parse.env_
        = [⟨literal "a b", [literal "&", literal "a"]⟩] := by
  intro w pairs mem
  have ha : Literal (byteOf 'a') := by unfold Literal; decide
  have hb : Literal (byteOf 'b') := by unfold Literal; decide
  have hkey : RendersText (literal "a b") (literal "a+b") :=
    RendersText.cons (.literal ha) (.cons .plus (.cons (.literal hb) .nil))
  have hkey' : RendersText (literal "a b") (literal "%61%20b") :=
    RendersText.cons (.hex (by decide) (by decide))
      (.cons (.hex (by decide) (by decide)) (.cons (.literal hb) .nil))
  have hamp : RendersText (literal "&") (literal "%26") :=
    RendersText.cons (.hex (by decide) (by decide)) .nil
  have hval : RendersText (literal "a") (literal "a") := RendersText.cons (.literal ha) .nil
  have hw : RendersPairs pairs w := .cons (.mk hkey hamp) (.singleton (.mk hkey' hval))
  have hne : ∀ p ∈ pairs, p.1 ≠ [] ∧ p.2 ≠ [] := by decide
  have hmem : mem.ReadsTwo := fun _ => rfl
  obtain ⟨hnul, hdecode⟩ := decode_rendersPairs hw hne
  exact ⟨⟨hw, hne, hmem⟩, hnul, (hdecode mem hmem).trans (by decide)⟩

end ModCplusplus
