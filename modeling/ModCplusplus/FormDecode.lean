import ModCplusplus.CTypes
import ModCplusplus.General.Multimap

/-!
# Decoding a form

`request_env::decode` goes once over a string, with three things in hand: the text
collected so far, the entry whose values are being read, and the table.  It does so
by index, and an escape moves the index on by two without looking at the length;
so it may read behind the string, and `strtol` may read behind the two characters
it is given.  The bytes there are a parameter.

Whatever those bytes are, the string falls into pieces, one for an iteration: a
token, with the indices read for it.  Where `strtol` reads just the two characters,
running through the tokens is the recursion `decodeBytes` over the bytes of the
string.

## Main definitions

* `Parse` — the text, the entry and the table, with what a character does to them.
* `Uninit` — the bytes behind the string and behind `hexstr`.
* `decodeIter`, `decodeLoop`, `decode` — the loop, by index.
* `Token`, `Piece`, `pieces` — what the iterations make of the string.
* `decodeBytes` — the recursion over the bytes.

## Main results

* `decodeIter_of_ne`, `decodeIter_escape` — what an iteration does.
* `length_le_decodeLoop` — the loop has enough fuel.
* `decodeLoop_eq_pieces` — the loop takes in the pieces, one by one.
* `parse_decode`, `reads_decode` — the tokens `decode` runs through and what it reads.
* `decode_eq` — `decode` computes the recursion.
-/

namespace ModCplusplus

/-! ### The state of the parser -/

/-- An `env_value`. -/
abbrev EnvValue := Multimap.Entry Str Str

/-- The text in `pStr`, the entry `pEnv` points to, and the table. -/
structure Parse where
  pStr : Str
  -- NULL, or an index of `env_`
  pEnv : Option ℕ
  env_ : List EnvValue
  deriving DecidableEq

/-- The state `decode` is called with. -/
def Parse.start (env_ : List EnvValue) : Parse where
  pStr := []
  pEnv := none
  env_ := env_

/-- `search`. -/
def search (env_ : List EnvValue) (key : Str) : Option ℕ := Multimap.find key env_

/-- `add_value`, on the entry at an index. -/
def addValue (env_ : List EnvValue) (pEnv : ℕ) (value : Str) : List EnvValue :=
  Multimap.addAt pEnv value env_

/-- `pStr += c`. -/
def Parse.push (c : UInt8) (p : Parse) : Parse := { p with pStr := p.pStr ++ [c] }

/-- At a `=`: the text is a name, and its entry the current one. -/
def Parse.endKey (p : Parse) : Parse :=
  if p.pStr = [] then p
  else
    match search p.env_ p.pStr with
    | some pEnv => { p with pStr := [], pEnv := some pEnv }
    | none => { pStr := [], pEnv := some p.env_.length, env_ := p.env_ ++ [⟨p.pStr, []⟩] }

/-- At a `&`: the text is a value of the current entry. -/
def Parse.endValue (p : Parse) : Parse :=
  match p.pEnv with
  | some pEnv =>
      if p.pStr = [] then p else { p with pStr := [], env_ := addValue p.env_ pEnv p.pStr }
  | none => p

/-- At the end: as at a `&`, but the text stays. -/
def Parse.finish (p : Parse) : Parse :=
  match p.pEnv with
  | some pEnv => if p.pStr = [] then p else { p with env_ := addValue p.env_ pEnv p.pStr }
  | none => p

/-- At the end of a name, its entry is looked up, and made if there is none. -/
theorem Parse.endKey_eq {k : Str} (hk : k ≠ []) (o : Option ℕ) (env_ : List EnvValue) :
    Parse.endKey ⟨k, o, env_⟩
      = ⟨[], some (Multimap.intern k env_).2, (Multimap.intern k env_).1⟩ := by
  rw [Parse.endKey, if_neg hk, Multimap.intern]
  simp only [search]
  cases Multimap.find k env_ with
  | some i => rfl
  | none => rfl

/-! ### The loop -/

/-- The bytes the code reads without having written them: those behind the NUL of
the string, and those behind `hexstr` when the escape at an index is converted. -/
structure Uninit where
  beyond : ℕ → UInt8
  afterHexstr : ℕ → Str

/-- `ch[i]`. -/
def byteAt (mem : Uninit) (ch : Str) (i : ℕ) : UInt8 :=
  match ch[i]? with
  | some c => c
  | none => if i = ch.length then 0 else mem.beyond (i - ch.length - 1)

/-- The variables of the loop, and the indices of `ch` it has read. -/
structure DecodeState where
  i : ℕ
  parse : Parse
  reads : List ℕ

/-- One iteration, the step of `i` included. -/
def decodeIter (mem : Uninit) (ch : Str) (st : DecodeState) : DecodeState :=
  let c := byteAt mem ch st.i
  let reads := st.reads ++ [st.i]
  if c = 0 then ⟨ch.length + 1, st.parse, reads⟩
  else if c = byteOf '=' then ⟨st.i + 1, st.parse.endKey, reads⟩
  else if c = byteOf '&' then ⟨st.i + 1, st.parse.endValue, reads⟩
  else if c = byteOf '+' then ⟨st.i + 1, st.parse.push (byteOf ' '), reads⟩
  else if c = byteOf '%' then
    if st.i < ch.length + 2 then
      let hexstr := [byteAt mem ch (st.i + 1), byteAt mem ch (st.i + 2)]
      ⟨st.i + 3, st.parse.push (toChar (strtol 16 (hexstr ++ mem.afterHexstr st.i))),
        reads ++ [st.i + 1, st.i + 2]⟩
    else ⟨st.i + 1, st.parse, reads⟩
  else ⟨st.i + 1, st.parse.push c, reads⟩

/-- The loop, for at most so many iterations. -/
def decodeLoop (mem : Uninit) (ch : Str) : ℕ → DecodeState → DecodeState
  | 0, st => st
  | fuel + 1, st =>
      if st.i < ch.length then decodeLoop mem ch fuel (decodeIter mem ch st) else st

/-- `decode`; every iteration moves on, so that the length is enough fuel. -/
def decode (mem : Uninit) (ch : CStr) (p : Parse) : DecodeState :=
  let st := decodeLoop mem ch ch.val.length ⟨0, p, []⟩
  { st with parse := st.parse.finish }

/-! ### The pieces of a string -/

/-- What an iteration makes of the string. -/
inductive Token where
  | endKey
  | endValue
  | char (c : UInt8)
  deriving DecidableEq

/-- What a token does. -/
def Token.step : Token → Parse → Parse
  | .endKey, p => p.endKey
  | .endValue, p => p.endValue
  | .char c, p => p.push c

/-- What a list of tokens does. -/
def Token.run (ts : List Token) (p : Parse) : Parse := ts.foldl (fun p t => t.step p) p

/-- The token of a byte other than `%`. -/
def Token.ofByte (c : UInt8) : Token :=
  if c = byteOf '=' then .endKey
  else if c = byteOf '&' then .endValue
  else if c = byteOf '+' then .char (byteOf ' ')
  else .char c

/-- A token and the indices of `ch` read for it. -/
structure Piece where
  token : Token
  reads : List ℕ

/-- The byte the escape at an index is converted to. -/
def Uninit.escaped (mem : Uninit) (i : ℕ) (h l : UInt8) : UInt8 :=
  toChar (strtol 16 ([h, l] ++ mem.afterHexstr i))

/-- The pieces of a string, from an index on; an escape cut short takes the NUL for
the digit it lacks. -/
def pieces (mem : Uninit) : ℕ → Str → List Piece
  | _, [] => []
  | i, c :: rest =>
      if c = byteOf '%' then
        match rest with
        | h :: l :: rest =>
            ⟨.char (mem.escaped i h l), [i, i + 1, i + 2]⟩ :: pieces mem (i + 3) rest
        | [h] => [⟨.char (mem.escaped i h 0), [i, i + 1, i + 2]⟩]
        | [] => [⟨.char 0, [i, i + 1, i + 2]⟩]
      else ⟨.ofByte c, [i]⟩ :: pieces mem (i + 1) rest

/-- The tokens of a string. -/
def tokens (mem : Uninit) (s : Str) : List Token := (pieces mem 0 s).map Piece.token

@[simp] theorem pieces_nil (mem : Uninit) (i : ℕ) : pieces mem i [] = [] := rfl

theorem pieces_cons_of_ne (mem : Uninit) {c : UInt8} (h : c ≠ byteOf '%') (i : ℕ) (rest : Str) :
    pieces mem i (c :: rest) = ⟨.ofByte c, [i]⟩ :: pieces mem (i + 1) rest := by
  rw [pieces.eq_def]
  exact if_neg h

theorem pieces_escape (mem : Uninit) (i : ℕ) (h l : UInt8) (rest : Str) :
    pieces mem i (byteOf '%' :: h :: l :: rest)
      = ⟨.char (mem.escaped i h l), [i, i + 1, i + 2]⟩ :: pieces mem (i + 3) rest := by
  rw [pieces.eq_def]
  exact if_pos rfl

theorem pieces_escape_one (mem : Uninit) (i : ℕ) (h : UInt8) :
    pieces mem i [byteOf '%', h] = [⟨.char (mem.escaped i h 0), [i, i + 1, i + 2]⟩] := by
  rw [pieces.eq_def]
  exact if_pos rfl

theorem pieces_escape_nil (mem : Uninit) (i : ℕ) :
    pieces mem i [byteOf '%'] = [⟨.char 0, [i, i + 1, i + 2]⟩] := by
  rw [pieces.eq_def]
  exact if_pos rfl

/-! ### The recursion -/

/-- What a character other than `%` does. -/
def Parse.char (c : UInt8) (p : Parse) : Parse :=
  if c = byteOf '=' then p.endKey
  else if c = byteOf '&' then p.endValue
  else if c = byteOf '+' then p.push (byteOf ' ')
  else p.push c

/-- The loop over the bytes to come; an escape cut short takes the NUL for its
second digit. -/
def decodeBytes : Str → Parse → Parse
  | [], p => p
  | c :: rest, p =>
      if c = byteOf '%' then
        match rest with
        | h :: l :: rest => decodeBytes rest (p.push (toChar (strtol 16 [h, l])))
        | [h] => p.push (toChar (strtol 16 [h, 0]))
        | [] => p.push 0
      else decodeBytes rest (p.char c)

@[simp] theorem decodeBytes_nil (p : Parse) : decodeBytes [] p = p := rfl

theorem decodeBytes_cons_of_ne {c : UInt8} (h : c ≠ byteOf '%') (rest : Str) (p : Parse) :
    decodeBytes (c :: rest) p = decodeBytes rest (p.char c) := by
  rw [decodeBytes.eq_def]
  exact if_neg h

theorem decodeBytes_escape (h l : UInt8) (rest : Str) (p : Parse) :
    decodeBytes (byteOf '%' :: h :: l :: rest) p
      = decodeBytes rest (p.push (toChar (strtol 16 [h, l]))) := by
  rw [decodeBytes.eq_def]
  exact if_pos rfl

theorem decodeBytes_escape_one (h : UInt8) (p : Parse) :
    decodeBytes [byteOf '%', h] p = p.push (toChar (strtol 16 [h, 0])) := by
  rw [decodeBytes.eq_def]
  exact if_pos rfl

/-- `strtol` reads just the two characters of `hexstr`. -/
def Uninit.ReadsTwo (mem : Uninit) : Prop := ∀ i, mem.afterHexstr i = []

/-- `strtol` stops at a NUL byte. -/
theorem strtol_nul (rest : Str) : strtol 16 (0 :: rest) = 0 := by
  have hspace : List.dropWhile isSpace (0 :: rest) = 0 :: rest := rfl
  unfold strtol
  rw [hspace]
  rfl

/-- An escape whose first digit is the NUL. -/
theorem Uninit.escaped_nul (mem : Uninit) (i : ℕ) (l : UInt8) : mem.escaped i 0 l = 0 := by
  rw [Uninit.escaped, List.cons_append, strtol_nul]
  rfl

section

variable {mem : Uninit} {ch : Str}

theorem byteAt_of_lt {i : ℕ} (h : i < ch.length) : byteAt mem ch i = ch[i] := by
  rw [byteAt, List.getElem?_eq_getElem h]

theorem byteAt_length : byteAt mem ch ch.length = 0 := by
  rw [byteAt, List.getElem?_eq_none (Nat.le_refl _)]
  exact if_pos rfl

/-- Every iteration moves on. -/
theorem lt_decodeIter (mem : Uninit) (st : DecodeState) (h : st.i < ch.length) :
    st.i < (decodeIter mem ch st).i := by
  unfold decodeIter
  dsimp only
  split
  · exact Nat.lt_succ_of_lt h
  · split
    · exact Nat.lt_succ_self _
    · split
      · exact Nat.lt_succ_self _
      · split
        · exact Nat.lt_succ_self _
        · split
          · split
            · exact Nat.lt_add_of_pos_right (by decide)
            · exact Nat.lt_succ_self _
          · exact Nat.lt_succ_self _

/-- **The fuel is enough**: the loop has come to the end of the string. -/
theorem length_le_decodeLoop (mem : Uninit) : ∀ (fuel : ℕ) (st : DecodeState),
    ch.length - st.i ≤ fuel → ch.length ≤ (decodeLoop mem ch fuel st).i := by
  intro fuel
  induction fuel with
  | zero =>
    intro st hfuel
    show ch.length ≤ st.i
    omega
  | succ fuel ih =>
    intro st hfuel
    rw [decodeLoop]
    split
    · next h =>
      have hlt := lt_decodeIter mem st h
      exact ih _ (by omega)
    · next h => exact Nat.not_lt.mp h

/-- An iteration at a character that starts no escape. -/
theorem decodeIter_of_ne (mem : Uninit) {st : DecodeState} (h : st.i < ch.length)
    (h0 : ch[st.i] ≠ 0) (hpct : ch[st.i] ≠ byteOf '%') :
    decodeIter mem ch st = ⟨st.i + 1, st.parse.char ch[st.i], st.reads ++ [st.i]⟩ := by
  unfold decodeIter Parse.char
  rw [byteAt_of_lt h, if_neg h0, if_neg hpct]
  split
  · rfl
  · split
    · rfl
    · split
      · rfl
      · rfl

/-- An iteration at an escape, complete or cut short. -/
theorem decodeIter_escape (mem : Uninit) {st : DecodeState} (h : st.i < ch.length)
    (hpct : ch[st.i] = byteOf '%') :
    decodeIter mem ch st = ⟨st.i + 3, st.parse.push (toChar (strtol 16
      ([byteAt mem ch (st.i + 1), byteAt mem ch (st.i + 2)] ++ mem.afterHexstr st.i))),
      st.reads ++ [st.i] ++ [st.i + 1, st.i + 2]⟩ := by
  unfold decodeIter
  rw [byteAt_of_lt h, hpct, if_neg (by decide), if_neg (by decide), if_neg (by decide),
    if_neg (by decide), if_pos rfl, if_pos (by omega)]

/-- An iteration takes in a piece. -/
def DecodeState.take (q : Piece) (st : DecodeState) : DecodeState where
  i := st.i + q.reads.length
  parse := q.token.step st.parse
  reads := st.reads ++ q.reads

theorem Token.step_ofByte (c : UInt8) (p : Parse) : (Token.ofByte c).step p = p.char c := by
  unfold Token.ofByte Parse.char
  split
  · rfl
  · split
    · rfl
    · split
      · rfl
      · rfl

/-- **One iteration takes in the next piece**, and the pieces behind it are left. -/
theorem decodeIter_eq_take (mem : Uninit) (hch : (0 : UInt8) ∉ ch) (st : DecodeState)
    (h : st.i < ch.length) :
    ∃ q, decodeIter mem ch st = st.take q ∧ pieces mem st.i (ch.drop st.i)
      = q :: pieces mem (decodeIter mem ch st).i (ch.drop (decodeIter mem ch st).i) := by
  have h0 : ch[st.i] ≠ 0 := fun h0 => hch (h0 ▸ List.getElem_mem h)
  rw [List.drop_eq_getElem_cons h]
  by_cases hpct : ch[st.i] = byteOf '%'
  · have hiter := decodeIter_escape mem h hpct
    rw [List.append_assoc] at hiter
    refine ⟨⟨.char (mem.escaped st.i (byteAt mem ch (st.i + 1)) (byteAt mem ch (st.i + 2))),
      [st.i, st.i + 1, st.i + 2]⟩, hiter, ?_⟩
    rw [hiter, hpct]
    -- how much of the escape is there
    rcases Nat.lt_trichotomy (st.i + 2) ch.length with h2 | h2 | h2
    · rw [List.drop_eq_getElem_cons (by omega : st.i + 1 < ch.length),
        List.drop_eq_getElem_cons h2, pieces_escape, byteAt_of_lt (by omega), byteAt_of_lt h2]
    · have hlast : ch.drop (st.i + 2) = [] := List.drop_eq_nil_of_le (by omega)
      have hend : ch.drop (st.i + 3) = [] := List.drop_eq_nil_of_le (by omega)
      rw [List.drop_eq_getElem_cons (by omega : st.i + 1 < ch.length), hlast, pieces_escape_one,
        byteAt_of_lt (by omega), h2, byteAt_length, hend, pieces_nil]
    · have hlast : ch.drop (st.i + 1) = [] := List.drop_eq_nil_of_le (by omega)
      have hend : ch.drop (st.i + 3) = [] := List.drop_eq_nil_of_le (by omega)
      rw [hlast, pieces_escape_nil, hend, pieces_nil, (by omega : st.i + 1 = ch.length),
        byteAt_length, Uninit.escaped_nul]
  · have hiter := decodeIter_of_ne mem h h0 hpct
    refine ⟨⟨.ofByte ch[st.i], [st.i]⟩, ?_, ?_⟩
    · rw [hiter, ← Token.step_ofByte]
      rfl
    · rw [hiter, pieces_cons_of_ne mem hpct]

/-- **The loop takes in the pieces**, with fuel for every byte to come. -/
theorem decodeLoop_eq_pieces (mem : Uninit) (hch : (0 : UInt8) ∉ ch) :
    ∀ (fuel : ℕ) (st : DecodeState), ch.length - st.i ≤ fuel →
      decodeLoop mem ch fuel st
        = (pieces mem st.i (ch.drop st.i)).foldl (fun st q => st.take q) st := by
  intro fuel
  induction fuel with
  | zero =>
    intro st hfuel
    rw [List.drop_eq_nil_of_le (by omega)]
    rfl
  | succ fuel ih =>
    intro st hfuel
    rw [decodeLoop]
    split
    · next h =>
      have hlt := lt_decodeIter mem st h
      obtain ⟨q, hiter, hpieces⟩ := decodeIter_eq_take mem hch st h
      rw [ih _ (by omega), hpieces, List.foldl_cons, ← hiter]
    · rw [List.drop_eq_nil_of_le (by omega)]
      rfl

theorem parse_foldl_take (qs : List Piece) (st : DecodeState) :
    (qs.foldl (fun st q => st.take q) st).parse
      = Token.run (qs.map Piece.token) st.parse := by
  induction qs generalizing st with
  | nil => rfl
  | cons q qs ih => exact ih (st.take q)

theorem reads_foldl_take (qs : List Piece) (st : DecodeState) :
    (qs.foldl (fun st q => st.take q) st).reads = st.reads ++ qs.flatMap Piece.reads := by
  induction qs generalizing st with
  | nil => simp
  | cons q qs ih =>
    rw [List.foldl_cons, ih, List.flatMap_cons, ← List.append_assoc]
    rfl

/-- **`decode` runs through the tokens of the string**, whatever memory holds. -/
theorem parse_decode (mem : Uninit) (ch : CStr) (p : Parse) :
    (decode mem ch p).parse = (Token.run (tokens mem ch) p).finish := by
  show (decodeLoop mem ch ch.val.length ⟨0, p, []⟩).parse.finish = _
  rw [decodeLoop_eq_pieces mem ch.property ch.val.length ⟨0, p, []⟩ (Nat.le_refl _),
    parse_foldl_take]
  rfl

/-- **`decode` reads what its pieces read.** -/
theorem reads_decode (mem : Uninit) (ch : CStr) (p : Parse) :
    (decode mem ch p).reads = (pieces mem 0 ch).flatMap Piece.reads := by
  show (decodeLoop mem ch ch.val.length ⟨0, p, []⟩).reads = _
  rw [decodeLoop_eq_pieces mem ch.property ch.val.length ⟨0, p, []⟩ (Nat.le_refl _),
    reads_foldl_take]
  rfl

/-- Where `strtol` reads just the two characters, the tokens do what the recursion
does. -/
theorem run_pieces (hmem : mem.ReadsTwo) (s : Str) (i : ℕ) (p : Parse) :
    Token.run ((pieces mem i s).map Piece.token) p = decodeBytes s p := by
  have hescaped : ∀ i h l, mem.escaped i h l = toChar (strtol 16 [h, l]) := fun i h l => by
    rw [Uninit.escaped, hmem, List.append_nil]
  induction s, p using decodeBytes.induct generalizing i with
  | case1 p => rfl
  | case2 p h l rest ih =>
    rw [pieces_escape, decodeBytes_escape, ← ih (i + 3), ← hescaped i]
    rfl
  | case3 p h =>
    rw [pieces_escape_one, decodeBytes_escape_one, ← hescaped i]
    rfl
  | case4 p => rfl
  | case5 p c rest hc ih =>
    rw [pieces_cons_of_ne mem hc, decodeBytes_cons_of_ne hc, ← ih (i + 1), ← Token.step_ofByte]
    rfl

end

/-- **What `decode` computes**, when `strtol` reads just the two characters of an
escape. -/
theorem decode_eq {mem : Uninit} (hmem : mem.ReadsTwo) (ch : CStr) (p : Parse) :
    (decode mem ch p).parse = (decodeBytes ch p).finish := by
  rw [parse_decode, tokens, run_pieces hmem]

end ModCplusplus
