import ModCplusplus.FormDecode
import Mathlib.Data.List.Infix

/-!
# Runs of the form parser

What holds of any run through a list of tokens, and of two runs through the same one:
the table only grows, and a run that has stored more values than another, and goes on
with the same text wherever the other stores one, stays ahead.

## Main definitions

* `Parse.Valid` — the entry being read is one of the table.
* `Parse.stored`, `Parse.bytes` — the number of values in the table, and of bytes in the
  values and the text.
* `givesKey` — a `=` stands behind some text.
* `Parse.Has` — a byte occurs in the text or in the table.
* `Parse.Ahead` — one state has more values than another, and keeps its lead.

## Main results

* `env_step_cases` — what a step does to the table.
* `keys_prefix_run` — keys are only ever appended.
* `env_decode_eq_nil_iff` — when the table stays empty.
* `mentions_decode` — the bytes the table mentions otherwise.
* `Parse.Ahead.run`, `Parse.Ahead.finish_ne` — a lead is kept up to the end.
-/

namespace ModCplusplus

/-! ### What a step does to the table -/

/-- The entry whose values are being read is one of the table. -/
def Parse.Valid (p : Parse) : Prop := ∀ i, p.pEnv = some i → i < p.env_.length

/-- The number of values in the table. -/
def Parse.stored (p : Parse) : ℕ := Multimap.weight (fun _ => 1) p.env_

/-- The number of bytes in the values and the text. -/
def Parse.bytes (p : Parse) : ℕ := Multimap.weight List.length p.env_ + p.pStr.length

theorem Parse.endKey_of_nil {p : Parse} (h : p.pStr = []) : p.endKey = p := if_pos h

theorem decodeBytes_equals (rest : Str) (p : Parse) :
    decodeBytes (byteOf '=' :: rest) p = decodeBytes rest p.endKey :=
  decodeBytes_cons_of_ne (by decide) rest p

theorem decodeBytes_ampersand (rest : Str) (p : Parse) :
    decodeBytes (byteOf '&' :: rest) p = decodeBytes rest p.endValue :=
  decodeBytes_cons_of_ne (by decide) rest p

/-- A name is looked up. -/
theorem Parse.endKey_of_ne {p : Parse} (h : p.pStr ≠ []) :
    p.endKey = ⟨[], some (Multimap.intern p.pStr p.env_).2, (Multimap.intern p.pStr p.env_).1⟩ :=
  Parse.endKey_eq h p.pEnv p.env_

theorem Parse.endValue_of_nil {p : Parse} (h : p.pStr = []) : p.endValue = p := by
  rw [Parse.endValue]
  split
  · exact if_pos h
  · rfl

theorem Parse.endValue_of_none {p : Parse} (h : p.pEnv = none) : p.endValue = p := by
  rw [Parse.endValue, h]

/-- A value is stored. -/
theorem Parse.endValue_of_some {p : Parse} {i : ℕ} (hi : p.pEnv = some i) (h : p.pStr ≠ []) :
    p.endValue = ⟨[], some i, Multimap.addAt i p.pStr p.env_⟩ := by
  rw [Parse.endValue, hi]
  exact if_neg h

/-- The table at the end is the one a `&` would leave. -/
theorem Parse.env_finish (p : Parse) : p.finish.env_ = p.endValue.env_ := by
  rw [Parse.finish, Parse.endValue]
  split
  · split
    · rfl
    · rfl
  · rfl

theorem Parse.Valid.step {p : Parse} (h : p.Valid) (t : Token) : (t.step p).Valid := by
  cases t with
  | endKey =>
    by_cases hp : p.pStr = []
    · rwa [Token.step, Parse.endKey_of_nil hp]
    · rw [Token.step, Parse.endKey_of_ne hp]
      rintro i ⟨⟩
      exact Multimap.intern_lt _ _
  | endValue =>
    by_cases hp : p.pStr = []
    · rwa [Token.step, Parse.endValue_of_nil hp]
    · cases hi : p.pEnv with
      | none => rwa [Token.step, Parse.endValue_of_none hi]
      | some i =>
        rw [Token.step, Parse.endValue_of_some hi hp]
        rintro j ⟨⟩
        simpa using h i hi
  | char c => exact h

/-- **What a step does to the table**: nothing, or it looks a key up, or it stores a
value. -/
theorem env_step_cases (t : Token) (p : Parse) :
    (t.step p).env_ = p.env_ ∨
      (p.pStr ≠ [] ∧ (t.step p).env_ = (Multimap.intern p.pStr p.env_).1) ∨
      ∃ i, p.pEnv = some i ∧ p.pStr ≠ [] ∧ (t.step p).env_ = Multimap.addAt i p.pStr p.env_ := by
  by_cases hp : p.pStr = []
  · left
    cases t with
    | endKey => rw [Token.step, Parse.endKey_of_nil hp]
    | endValue => rw [Token.step, Parse.endValue_of_nil hp]
    | char c => rfl
  · cases t with
    | endKey =>
      rw [Token.step, Parse.endKey_of_ne hp]
      exact Or.inr (Or.inl ⟨hp, rfl⟩)
    | endValue =>
      cases hi : p.pEnv with
      | none =>
        rw [Token.step, Parse.endValue_of_none hi]
        exact Or.inl rfl
      | some i =>
        rw [Token.step, Parse.endValue_of_some hi hp]
        exact Or.inr (Or.inr ⟨i, rfl, hp, rfl⟩)
    | char c => exact Or.inl rfl

/-- A step appends at most a key. -/
theorem keys_prefix_step (t : Token) (p : Parse) :
    Multimap.keys p.env_ <+: Multimap.keys (t.step p).env_ := by
  rcases env_step_cases t p with h | ⟨-, h⟩ | ⟨i, -, -, h⟩
  · exact h ▸ List.prefix_rfl
  · exact h ▸ Multimap.keys_prefix_intern _ _
  · rw [h, Multimap.keys_addAt]

/-! ### Runs -/

@[simp] theorem Token.run_nil (p : Parse) : Token.run [] p = p := rfl

@[simp] theorem Token.run_cons (t : Token) (ts : List Token) (p : Parse) :
    Token.run (t :: ts) p = Token.run ts (t.step p) := rfl

/-- The recursion runs through some tokens, the same from every state. -/
theorem exists_run_eq (s : Str) : ∃ ts, ∀ p, decodeBytes s p = Token.run ts p := by
  have hmem : Uninit.ReadsTwo ⟨fun _ => 0, fun _ => []⟩ := fun _ => rfl
  exact ⟨_, fun p => (run_pieces hmem s 0 p).symm⟩

theorem Parse.Valid.run {p : Parse} (h : p.Valid) (ts : List Token) : (Token.run ts p).Valid := by
  induction ts generalizing p with
  | nil => exact h
  | cons t ts ih => exact ih (h.step t)

/-- **Keys are only ever appended.** -/
theorem keys_prefix_run (ts : List Token) (p : Parse) :
    Multimap.keys p.env_ <+: Multimap.keys (Token.run ts p).env_ := by
  induction ts generalizing p with
  | nil => exact List.prefix_rfl
  | cons t ts ih => exact (keys_prefix_step t p).trans (ih _)

/-- And so at the end. -/
theorem keys_prefix_finish (s : Str) (p : Parse) :
    Multimap.keys p.env_ <+: Multimap.keys (decodeBytes s p).finish.env_ := by
  obtain ⟨ts, hts⟩ := exists_run_eq s
  rw [hts, Parse.env_finish]
  exact (keys_prefix_run ts p).trans (keys_prefix_step .endValue _)

/-- Once a key has been read, there is a current entry. -/
theorem pEnv_isSome_step (t : Token) {p : Parse} (h : p.pEnv.isSome) : (t.step p).pEnv.isSome := by
  cases t with
  | endKey =>
    by_cases hp : p.pStr = []
    · rwa [Token.step, Parse.endKey_of_nil hp]
    · rw [Token.step, Parse.endKey_of_ne hp]
      rfl
  | endValue =>
    by_cases hp : p.pStr = []
    · rwa [Token.step, Parse.endValue_of_nil hp]
    · obtain ⟨i, hi⟩ := Option.isSome_iff_exists.mp h
      rw [Token.step, Parse.endValue_of_some hi hp]
      rfl
  | char c => exact h

theorem pEnv_isSome_run (ts : List Token) {p : Parse} (h : p.pEnv.isSome) :
    (Token.run ts p).pEnv.isSome := by
  induction ts generalizing p with
  | nil => exact h
  | cons t ts ih => exact ih (pEnv_isSome_step t h)

/-! ### Whether there is a key -/

/-- A `=` stands behind some text, if the text `seen` before is counted. -/
def givesKey : Bool → Str → Bool
  | _, [] => false
  | seen, c :: rest =>
      if c = byteOf '%' then
        match rest with
        | _ :: _ :: rest => givesKey true rest
        | _ => false
      else if c = byteOf '=' then seen || givesKey seen rest
      else if c = byteOf '&' then givesKey seen rest
      else givesKey true rest

/-- The same, of tokens. -/
def Token.givesKey : Bool → List Token → Bool
  | _, [] => false
  | seen, .endKey :: ts => seen || Token.givesKey seen ts
  | seen, .endValue :: ts => Token.givesKey seen ts
  | _, .char _ :: ts => Token.givesKey true ts

theorem givesKey_pieces (mem : Uninit) (s : Str) (seen : Bool) (i : ℕ) :
    Token.givesKey seen ((pieces mem i s).map Piece.token) = givesKey seen s := by
  induction seen, s using givesKey.induct generalizing i with
  | case1 seen => rfl
  | case2 seen h l rest ih =>
    rw [pieces_escape, givesKey.eq_def]
    exact ih (i + 3)
  | case3 seen rest hrest =>
    -- the escape is cut short
    match rest with
    | [] => rfl
    | [_] => rfl
    | h :: l :: rest => exact absurd rfl (hrest h l rest)
  | case4 seen rest hpct ih =>
    have hkey : givesKey seen (byteOf '=' :: rest) = (seen || givesKey seen rest) := by
      rw [givesKey.eq_def]
      exact (if_neg hpct).trans (if_pos rfl)
    rw [pieces_cons_of_ne mem hpct, hkey, ← ih (i + 1)]
    rfl
  | case5 seen rest hpct hne ih =>
    have hkey : givesKey seen (byteOf '&' :: rest) = givesKey seen rest := by
      rw [givesKey.eq_def]
      exact (if_neg hpct).trans ((if_neg hne).trans (if_pos rfl))
    rw [pieces_cons_of_ne mem hpct, hkey, ← ih (i + 1)]
    rfl
  | case6 seen c rest hpct heq hamp ih =>
    have hkey : givesKey seen (c :: rest) = givesKey true rest := by
      rw [givesKey.eq_def]
      exact (if_neg hpct).trans ((if_neg heq).trans (if_neg hamp))
    rw [pieces_cons_of_ne mem hpct, hkey, ← ih (i + 1), List.map_cons, Token.ofByte, if_neg heq,
      if_neg hamp]
    split
    · rfl
    · rfl

/-- A run from no entry leaves the table empty exactly if no `=` stands behind some
text. -/
theorem env_run_eq_nil_iff (ts : List Token) (z : Str) :
    (Token.run ts ⟨z, none, []⟩).finish.env_ = [] ↔ Token.givesKey (!z.isEmpty) ts = false := by
  induction ts generalizing z with
  | nil => exact iff_of_true rfl rfl
  | cons t ts ih =>
    rw [Token.run_cons]
    cases t with
    | endKey =>
      rw [Token.givesKey]
      by_cases hz : z = []
      · rw [Token.step, Parse.endKey_of_nil hz, ih, hz]
        rfl
      · rw [Token.step, Parse.endKey_eq hz]
        refine iff_of_false ?_ (by simp [hz])
        intro hnil
        obtain ⟨u, hu⟩ := (keys_prefix_run ts ⟨[], some 0, [⟨z, []⟩]⟩).trans
          (keys_prefix_step .endValue _)
        rw [show (Multimap.intern z ([] : List EnvValue)) = ([⟨z, []⟩], 0) from rfl,
          Parse.env_finish] at hnil
        rw [Token.step, hnil] at hu
        exact absurd hu (by simp [Multimap.keys])
    | endValue => exact ih z
    | char c =>
      have hne : (z ++ [c]).isEmpty = false := by cases z <;> rfl
      rw [Token.step, Parse.push, ih, Token.givesKey, hne]
      rfl

/-- **The table stays empty** exactly if no `=` stands behind some text, whatever
memory holds. -/
theorem env_decode_eq_nil_iff (mem : Uninit) (ch : CStr) :
    (decode mem ch (Parse.start [])).parse.env_ = [] ↔ givesKey false ch = false := by
  rw [parse_decode, Parse.start, env_run_eq_nil_iff, tokens, ← givesKey_pieces mem ch.val false 0]
  rfl

/-! ### What the table mentions -/

/-- A byte occurs in the text, or in a key or a value of the table. -/
def Parse.Has (b : UInt8) (p : Parse) : Prop :=
  b ∈ p.pStr ∨ Multimap.Mentions (b ∈ ·) (b ∈ ·) p.env_

theorem Parse.has_endKey (b : UInt8) (p : Parse) : p.endKey.Has b ↔ p.Has b := by
  by_cases hp : p.pStr = []
  · rw [Parse.endKey_of_nil hp]
  · rw [Parse.endKey_of_ne hp, Parse.Has, Multimap.mentions_intern]
    exact (or_iff_right List.not_mem_nil).trans or_comm

theorem Parse.Valid.has_endValue {p : Parse} (h : p.Valid) (b : UInt8) :
    p.endValue.Has b ↔ p.Has b := by
  by_cases hp : p.pStr = []
  · rw [Parse.endValue_of_nil hp]
  · cases hi : p.pEnv with
    | none => rw [Parse.endValue_of_none hi]
    | some i =>
      rw [Parse.endValue_of_some hi hp, Parse.Has, Multimap.mentions_addAt _ _ _ (h i hi)]
      exact (or_iff_right List.not_mem_nil).trans or_comm

/-- A step brings in the byte of a character, and loses none. -/
theorem Parse.Valid.has_step {p : Parse} (h : p.Valid) (b : UInt8) (t : Token) :
    (t.step p).Has b ↔ p.Has b ∨ .char b = t := by
  cases t with
  | endKey => simp [Token.step, Parse.has_endKey]
  | endValue => simp [Token.step, h.has_endValue]
  | char c =>
    rw [Token.step, Parse.push, Parse.Has, Parse.Has, List.mem_append, List.mem_singleton,
      Token.char.injEq]
    exact or_right_comm

/-- **The bytes of a run** are those it begins with and those of its characters. -/
theorem Parse.Valid.has_run {p : Parse} (h : p.Valid) (b : UInt8) (ts : List Token) :
    (Token.run ts p).Has b ↔ p.Has b ∨ .char b ∈ ts := by
  induction ts generalizing p with
  | nil => simp
  | cons t ts ih =>
    rw [Token.run_cons, ih (h.step t), h.has_step, List.mem_cons, or_assoc]

/-- Without a current entry there are no entries. -/
theorem env_eq_nil_step (t : Token) {p : Parse} (h : p.pEnv = none → p.env_ = []) :
    (t.step p).pEnv = none → (t.step p).env_ = [] := by
  cases t with
  | endKey =>
    by_cases hp : p.pStr = []
    · rwa [Token.step, Parse.endKey_of_nil hp]
    · rw [Token.step, Parse.endKey_of_ne hp]
      exact nofun
  | endValue =>
    by_cases hp : p.pStr = []
    · rwa [Token.step, Parse.endValue_of_nil hp]
    · cases hi : p.pEnv with
      | none =>
        rw [Token.step, Parse.endValue_of_none hi]
        exact fun _ => h hi
      | some i =>
        rw [Token.step, Parse.endValue_of_some hi hp]
        exact nofun
  | char c => exact h

theorem env_eq_nil_run (ts : List Token) {p : Parse} (h : p.pEnv = none → p.env_ = []) :
    (Token.run ts p).pEnv = none → (Token.run ts p).env_ = [] := by
  induction ts generalizing p with
  | nil => exact h
  | cons t ts ih => exact ih (env_eq_nil_step t h)

/-- At the end, with a current entry, the text is in the table as well. -/
theorem Parse.Valid.mentions_finish {p : Parse} (h : p.Valid) (hcur : p.pEnv.isSome) (b : UInt8) :
    Multimap.Mentions (b ∈ ·) (b ∈ ·) p.finish.env_ ↔ p.Has b := by
  obtain ⟨i, hi⟩ := Option.isSome_iff_exists.mp hcur
  rw [Parse.env_finish, ← h.has_endValue, Parse.Has]
  by_cases hp : p.pStr = []
  · rw [Parse.endValue_of_nil hp, hp]
    exact (or_iff_right List.not_mem_nil).symm
  · rw [Parse.endValue_of_some hi hp]
    exact (or_iff_right List.not_mem_nil).symm

/-- **A form that gives a key mentions the bytes of its characters**, and no others. -/
theorem mentions_decode (mem : Uninit) {ch : CStr} (h : givesKey false ch.val = true) (b : UInt8) :
    Multimap.Mentions (b ∈ ·) (b ∈ ·) (decode mem ch (Parse.start [])).parse.env_ ↔
      .char b ∈ tokens mem ch := by
  have hvalid : (Parse.start []).Valid := nofun
  have hcur : (Token.run (tokens mem ch) (Parse.start [])).pEnv.isSome := by
    rw [Option.isSome_iff_ne_none]
    intro hnone
    have hnil := env_eq_nil_run (tokens mem ch) (fun _ => rfl) hnone
    have henv : (decode mem ch (Parse.start [])).parse.env_ = [] := by
      rw [parse_decode, Parse.env_finish, Parse.endValue_of_none hnone, hnil]
    rw [env_decode_eq_nil_iff, h] at henv
    exact absurd henv (by decide)
  rw [parse_decode, (hvalid.run _).mentions_finish hcur, hvalid.has_run]
  exact or_iff_right (by simp [Parse.Has, Parse.start, Multimap.Mentions])

/-! ### Two runs -/

/-- One state has stored more values than another, and will whenever the other does:
either the other has no current entry, or the two have the same text. -/
structure Parse.Ahead (p q : Parse) : Prop where
  current : p.pEnv.isSome
  valid : p.Valid
  valid' : q.Valid
  stored : q.stored < p.stored
  same : q.pEnv = none ∨ p.pStr = q.pStr

theorem Parse.Valid.stored_endValue {p : Parse} (h : p.Valid) {i : ℕ} (hi : p.pEnv = some i)
    (hp : p.pStr ≠ []) : p.endValue.stored = p.stored + 1 := by
  rw [Parse.endValue_of_some hi hp]
  exact Multimap.weight_addAt _ _ (h i hi)

theorem Parse.stored_endKey (p : Parse) : p.endKey.stored = p.stored := by
  by_cases hp : p.pStr = []
  · rw [Parse.endKey_of_nil hp]
  · rw [Parse.endKey_of_ne hp]
    exact Multimap.weight_intern _ _ _

/-- At a `=`, the text is gone. -/
theorem Parse.pStr_endKey (p : Parse) : p.endKey.pStr = [] := by
  by_cases hp : p.pStr = []
  · rw [Parse.endKey_of_nil hp, hp]
  · rw [Parse.endKey_of_ne hp]

/-- At a `&` behind a value, the text is gone. -/
theorem Parse.pStr_endValue {p : Parse} (h : p.pEnv.isSome) : p.endValue.pStr = [] := by
  obtain ⟨i, hi⟩ := Option.isSome_iff_exists.mp h
  by_cases hp : p.pStr = []
  · rw [Parse.endValue_of_nil hp, hp]
  · rw [Parse.endValue_of_some hi hp]

/-- At a `&`, the lead is kept. -/
theorem Parse.Ahead.stored_endValue {p q : Parse} (h : p.Ahead q) :
    q.endValue.stored < p.endValue.stored := by
  obtain ⟨i, hi⟩ := Option.isSome_iff_exists.mp h.current
  have hlt := h.stored
  by_cases hp : p.pStr = []
  · rw [Parse.endValue_of_nil hp]
    rcases h.same with hq | hq
    · rwa [Parse.endValue_of_none hq]
    · rwa [Parse.endValue_of_nil (hq ▸ hp)]
  · rw [h.valid.stored_endValue hi hp]
    cases hj : q.pEnv with
    | none =>
      rw [Parse.endValue_of_none hj]
      omega
    | some j =>
      have hq : p.pStr = q.pStr := h.same.resolve_left (by simp [hj])
      rw [h.valid'.stored_endValue hj (hq ▸ hp)]
      omega

/-- **A step keeps the lead.** -/
theorem Parse.Ahead.step {p q : Parse} (h : p.Ahead q) (t : Token) :
    (t.step p).Ahead (t.step q) where
  current := pEnv_isSome_step t h.current
  valid := h.valid.step t
  valid' := h.valid'.step t
  stored := by
    cases t with
    | endKey =>
      rw [Token.step, Token.step, Parse.stored_endKey, Parse.stored_endKey]
      exact h.stored
    | endValue => exact h.stored_endValue
    | char c => exact h.stored
  same := by
    cases t with
    | endKey => exact Or.inr (by rw [Token.step, Token.step, Parse.pStr_endKey, Parse.pStr_endKey])
    | endValue =>
      cases hj : q.pEnv with
      | none =>
        rw [Token.step, Parse.endValue_of_none hj]
        exact Or.inl hj
      | some j =>
        right
        rw [Token.step, Token.step, Parse.pStr_endValue h.current,
          Parse.pStr_endValue (by rw [hj]; rfl)]
    | char c => exact h.same.imp_right fun hq => by rw [Token.step, Token.step, Parse.push, hq]; rfl

/-- **A run keeps the lead.** -/
theorem Parse.Ahead.run {p q : Parse} (h : p.Ahead q) (ts : List Token) :
    (Token.run ts p).Ahead (Token.run ts q) := by
  induction ts generalizing p q with
  | nil => exact h
  | cons t ts ih => exact ih (h.step t)

/-- **The tables of a run that is ahead and of the other differ**, at the end. -/
theorem Parse.Ahead.finish_ne {p q : Parse} (h : p.Ahead q) (s : Str) :
    (decodeBytes s p).finish.env_ ≠ (decodeBytes s q).finish.env_ := by
  obtain ⟨ts, hts⟩ := exists_run_eq s
  have hlt := (h.run ts).stored_endValue
  rw [hts, hts, Parse.env_finish, Parse.env_finish]
  intro heq
  rw [Parse.stored, Parse.stored, heq] at hlt
  exact absurd hlt (Nat.lt_irrefl _)

end ModCplusplus
