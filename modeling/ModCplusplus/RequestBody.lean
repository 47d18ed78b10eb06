import ModCplusplus.CTypes
import ModCplusplus.General.Memory

/-!
# Reading the request body

The constructor of a `request_env` reads the body block by block.  Without a
Content-Length it copies everything into a larger array for each block; with one
it allocates once and lets httpd store every block behind the last.  Both loops
keep the result of `ap_get_client_block`, a signed `long`, in the unsigned
`len_read_` before they compare it with zero.

The results httpd will return are given as a list; a loop says what it leaves of
it.  Accesses outside an object fault.

## Main definitions

* `ClientBlock` — a result of `ap_get_client_block`.
* `Unsized.step`, `readUnsized` — the loop without a Content-Length.
* `Sized.receive`, `readBlocks`, `readSized` — the branch with one.
* `UnsizedStops`, `SizedStops` — the body is read up to its end.
* `WritesInside` — the branch with a length writes inside its array.

## Main results

* `readUnsized_blocks`, `readBlocks_blocks` — what the loops make of blocks.
* `body_ends_iff` — when the two loops stop at the end of the body.
* `writes_inside_iff` — when the array with the length is large enough.
-/

namespace ModCplusplus

/-! ### The blocks of a body -/

/-- A result of `ap_get_client_block`: the bytes it stored, or an error. -/
inductive ClientBlock where
  | data (bytes : Str)
  | error
  deriving DecidableEq

/-- The `long` returned. -/
def ClientBlock.ret : ClientBlock → ℤ
  | .data bytes => bytes.length
  | .error => -1

/-- The bytes stored. -/
def ClientBlock.bytes : ClientBlock → Str
  | .data bytes => bytes
  | .error => []

/-- `sizeof(buf)`. -/
def bufSize : ℕ := 524288

theorem bufSize_lt : bufSize < 2 ^ 31 := by decide

/-! ### Without a Content-Length -/

/-- The variables of the loop. -/
structure Unsized where
  buf : List (Option UInt8)
  -- NULL before the first block
  sbuf : Option (List (Option UInt8))
  allRead : ℤ
  deriving DecidableEq

/-- The variables as the loop begins. -/
def Unsized.start : Unsized where
  buf := List.replicate bufSize none
  sbuf := none
  allRead := 0

/-- `if( sbuf ) { memcpy( tmp, sbuf, all_read ); … }`. -/
def copyOld (sbuf : Option (List (Option UInt8))) (allRead : ℤ) (tmp : List (Option UInt8)) :
    Except Fault (List (Option UInt8)) :=
  match sbuf with
  | some sbuf => do
      let old ← Memory.fetch sbuf (toSizeT allRead)
      Memory.put tmp 0 old
  | none => return tmp

/-- The body of the loop, for a result that `ap_get_client_block` has stored in
`buf`. -/
def Unsized.step (res : ClientBlock) (st : Unsized) : Except Fault Unsized := do
  let lenRead := toSizeT res.ret
  let buf ← Memory.put st.buf 0 (res.bytes.map some)
  let tmp ← Memory.alloc (toSizeT (st.allRead + bufSize))
  let tmp ← copyOld st.sbuf st.allRead tmp
  let new ← Memory.fetch buf lenRead
  let tmp ← Memory.put tmp st.allRead new
  let allRead := toInt (st.allRead + lenRead)
  let tmp ← Memory.put tmp allRead [some 0]
  return { buf, sbuf := some tmp, allRead }

/-- The loop, until `len_read_` is not positive; it leaves the results it has not
asked for, and asks in vain if there are too few. -/
def readUnsized : List ClientBlock → Unsized → Except Fault (Option (Unsized × List ClientBlock))
  | [], _ => return none
  | res :: results, st =>
      if 0 < toSizeT res.ret then do
        let st ← st.step res
        readUnsized results st
      else return some (st, results)

/-! ### With a Content-Length -/

/-- The variables of the loop, and the indices of the array written so far. -/
structure Sized where
  sbuf : List (Option UInt8)
  allRead : ℤ
  stores : List ℤ
  deriving DecidableEq

/-- The indices of `n` cells from an offset on. -/
def indicesFrom (off : ℤ) (n : ℕ) : List ℤ := (List.range n).map fun i : ℕ => off + i

/-- `ap_get_client_block` stores its bytes from `sbuf + all_read` on. -/
def Sized.receive (res : ClientBlock) (st : Sized) : Except Fault Sized :=
  if res.bytes = [] then .ok st
  else do
    let sbuf ← Memory.put st.sbuf st.allRead (res.bytes.map some)
    return { st with sbuf, stores := st.stores ++ indicesFrom st.allRead res.bytes.length }

/-- The loop, until `len_read_` is not positive: the results it leaves are those it
has not asked for. -/
def readBlocks : List ClientBlock → Sized → Except Fault (Option (Sized × List ClientBlock))
  | [], _ => return none
  | res :: results, st => do
      let st ← st.receive res
      if 0 < toSizeT res.ret then
        readBlocks results { st with allRead := toInt (st.allRead + toSizeT res.ret) }
      else return some (st, results)

/-- The number of bytes asked of `new char[clen+1]`. -/
def allocSize (clen : ℤ) : ℤ := toInt (clen + 1)

/-- The branch with a Content-Length: allocate, read, and terminate. -/
def readSized (contentLength : Str) (results : List ClientBlock) :
    Except Fault (Option (Sized × List ClientBlock)) := do
  let clen := atoi contentLength
  let sbuf ← Memory.alloc (allocSize clen)
  match ← readBlocks results { sbuf, allRead := 0, stores := [] } with
  | none => return none
  | some (st, rest) =>
      let sbuf ← Memory.put st.sbuf st.allRead [some 0]
      return some ({ st with sbuf, stores := st.stores ++ [st.allRead] }, rest)

/-! ### The test on `len_read_` -/

theorem bytes_data (bytes : Str) : (ClientBlock.data bytes).bytes = bytes := rfl

theorem ret_data (bytes : Str) : (ClientBlock.data bytes).ret = bytes.length := rfl

/-- An error is positive once it is stored in `len_read_`. -/
theorem toSizeT_ret_error : toSizeT ClientBlock.error.ret = 2 ^ 64 - 1 := by
  decide

/-- A result that is not positive is the end of the body or an error. -/
theorem ret_nonpos_iff {res : ClientBlock} : res.ret ≤ 0 ↔ res = .data [] ∨ res = .error := by
  cases res with
  | data bytes =>
    rw [ret_data]
    cases bytes with
    | nil => simp
    | cons b bytes =>
      simp only [List.length_cons, ClientBlock.data.injEq, reduceCtorEq, or_self, iff_false]
      omega
  | error => simp [ClientBlock.ret]

/-! ### The loop without a length -/

/-- **The loop holds what it has read**: as many bytes as `all_read` says, at the
beginning of `sbuf` and with a NUL byte behind them. -/
structure Unsized.Holds (st : Unsized) (acc : Str) : Prop where
  buf : st.buf.length = bufSize
  allRead : st.allRead = acc.length
  fits : (acc.length : ℤ) ≤ intMax
  sbuf : match st.sbuf with
    | none => acc = []
    | some sbuf => Memory.BeginsWith sbuf (acc ++ [0])

theorem Unsized.holds_start : Unsized.start.Holds [] where
  buf := List.length_replicate
  allRead := rfl
  fits := by decide
  sbuf := rfl

theorem toSizeT_length {s : Str} (h : (s.length : ℤ) ≤ intMax) : toSizeT s.length = s.length := by
  unfold intMax at h
  exact toSizeT_eq (by omega) (by omega)

/-- A larger array receives what has been read. -/
theorem Unsized.Holds.copyOld {st : Unsized} {acc : Str} (h : st.Holds acc) {n : ℕ}
    (hn : acc.length ≤ n) :
    ∃ tmp, copyOld st.sbuf st.allRead (List.replicate n none) = .ok tmp ∧
      Memory.BeginsWith tmp acc ∧ tmp.length = n := by
  have hsbuf := h.sbuf
  cases hs : st.sbuf with
  | none =>
    rw [hs] at hsbuf
    subst hsbuf
    exact ⟨_, rfl, ⟨_, rfl⟩, List.length_replicate⟩
  | some sbuf =>
    rw [hs] at hsbuf
    have hempty : Memory.BeginsWith (List.replicate n none) ([] : Str) := ⟨_, rfl⟩
    obtain ⟨tmp, hput, hbegins, hlength⟩ := hempty.put acc (by simpa using hn)
    refine ⟨tmp, ?_, hbegins, by rw [hlength, List.length_replicate]⟩
    simp only [ModCplusplus.copyOld, h.allRead, toSizeT_length h.fits, hsbuf.of_append.fetch,
      ok_bind]
    exact hput

/-- **An iteration copies the block behind the rest**; only the NUL byte is left to
store. -/
theorem Unsized.Holds.step_eq {st : Unsized} {acc : Str} (h : st.Holds acc) {b : Str}
    (hb : b.length < bufSize) :
    ∃ buf tmp, buf.length = bufSize ∧ tmp.length = acc.length + bufSize ∧
      Memory.BeginsWith tmp (acc ++ b) ∧
      st.step (.data b) = do
        let tmp ← Memory.put tmp (toInt (acc.length + b.length)) [some 0]
        return { buf, sbuf := some tmp, allRead := toInt (acc.length + b.length) } := by
  have hfits := h.fits
  have hmax : intMax = 2 ^ 31 - 1 := rfl
  have hsize := bufSize_lt
  have hlen : toSizeT (ClientBlock.data b).ret = b.length := toSizeT_length (by omega)
  have halloc : Memory.alloc (toSizeT ((acc.length : ℤ) + bufSize))
      = .ok (List.replicate (acc.length + bufSize) (none : Option UInt8)) := by
    rw [toSizeT_eq (by omega) (by omega), ← Nat.cast_add, Memory.alloc_natCast]
  -- `buf` receives the block
  have hempty : Memory.BeginsWith st.buf ([] : Str) := ⟨st.buf, rfl⟩
  obtain ⟨buf, hbuf, hbufBegins, hbufLength⟩ := hempty.put b (by
    rw [h.buf, List.length_nil]
    omega)
  have hbuf0 : Memory.put st.buf 0 ((ClientBlock.data b).bytes.map some) = .ok buf := hbuf
  have hfetch : Memory.fetch buf b.length = .ok (b.map some) := hbufBegins.fetch
  -- `tmp` receives what was read before, and then the block
  obtain ⟨tmp, htmp, htmpBegins, htmpLength⟩ := h.copyOld (n := acc.length + bufSize) (by omega)
  obtain ⟨tmp', htmp', htmpBegins', htmpLength'⟩ := htmpBegins.put b (by
    rw [htmpLength]
    omega)
  refine ⟨buf, tmp', by rw [hbufLength, h.buf], by rw [htmpLength', htmpLength], htmpBegins', ?_⟩
  rw [h.allRead] at htmp
  unfold Unsized.step
  rw [hbuf0, ok_bind, h.allRead, halloc, ok_bind, htmp, ok_bind, hlen, hfetch, ok_bind, htmp',
    ok_bind]

/-- **A block that fits an `int`** is read. -/
theorem Unsized.Holds.step {st : Unsized} {acc : Str} (h : st.Holds acc) {b : Str}
    (hb : b.length < bufSize) (hfits : ((acc ++ b).length : ℤ) ≤ intMax) :
    ∃ st', st.step (.data b) = .ok st' ∧ st'.Holds (acc ++ b) := by
  obtain ⟨buf, tmp, hbuf, htmp, hbegins, heq⟩ := h.step_eq hb
  have hlength : ((acc ++ b).length : ℤ) = acc.length + b.length := by simp
  have hmax : intMax = 2 ^ 31 - 1 := rfl
  have hint : toInt ((acc.length : ℤ) + b.length) = (acc ++ b).length := by
    rw [hlength]
    exact toInt_eq ⟨by unfold intMin; omega, by omega⟩
  obtain ⟨tmp', hput, hbegins', -⟩ := hbegins.put [0] (by
    rw [htmp, List.length_append, List.length_singleton]
    omega)
  rw [heq, hint]
  simp only [List.map_cons, List.map_nil] at hput
  rw [hput, ok_bind]
  exact ⟨_, rfl, hbuf, rfl, hfits, hbegins'⟩

/-- **A block that does not fit an `int`** makes `all_read` negative, and the NUL
byte misses the array. -/
theorem Unsized.Holds.step_of_gt {st : Unsized} {acc : Str} (h : st.Holds acc) {b : Str}
    (hb : b.length < bufSize) (hgt : intMax < ((acc ++ b).length : ℤ)) :
    ∃ fault, st.step (.data b) = .error fault := by
  obtain ⟨buf, tmp, hbuf, htmp, hbegins, heq⟩ := h.step_eq hb
  have hlength : ((acc ++ b).length : ℤ) = acc.length + b.length := by simp
  have hmax : intMax = 2 ^ 31 - 1 := rfl
  have hsize := bufSize_lt
  have hfits := h.fits
  have hneg : toInt ((acc.length : ℤ) + b.length) < 0 := by
    unfold toInt
    rw [Int.bmod_def]
    split <;> omega
  have hfault : Memory.put tmp (toInt ((acc.length : ℤ) + b.length)) [some 0]
      = .error (.outOfBounds (toInt ((acc.length : ℤ) + b.length) + 1 - 1)) := by
    unfold Memory.put
    rw [if_pos (Or.inl hneg)]
    rfl
  rw [heq, hfault, error_bind]
  exact ⟨_, rfl⟩

/-- **An error** makes `len_read_` larger than `buf`. -/
theorem Unsized.Holds.step_error {st : Unsized} {acc : Str} (h : st.Holds acc) :
    ∃ fault, st.step .error = .error fault := by
  cases hstep : st.step .error with
  | error fault => exact ⟨fault, rfl⟩
  | ok st' =>
    exfalso
    unfold Unsized.step at hstep
    obtain ⟨buf, hbuf, hstep⟩ := bind_eq_ok hstep
    obtain ⟨tmp, -, hstep⟩ := bind_eq_ok hstep
    obtain ⟨tmp', -, hstep⟩ := bind_eq_ok hstep
    obtain ⟨new, hnew, -⟩ := bind_eq_ok hstep
    have hle := (Memory.fetch_eq_ok_iff.mp ⟨new, hnew⟩).2
    have hsize := bufSize_lt
    rw [toSizeT_ret_error, Memory.length_of_put hbuf, h.buf] at hle
    omega

theorem toSizeT_ret_pos {b : Str} (hne : b ≠ []) (hb : b.length < bufSize) :
    0 < toSizeT (ClientBlock.data b).ret := by
  have hpos := List.length_pos_of_ne_nil hne
  have hsize := bufSize_lt
  have hlen : toSizeT (ClientBlock.data b).ret = b.length :=
    toSizeT_length (by unfold intMax; omega)
  omega

/-- The blocks are not empty and fit `buf`, as httpd is asked to see to. -/
def FitBuf (blocks : List Str) : Prop := ∀ b ∈ blocks, b ≠ [] ∧ b.length < bufSize

instance (blocks : List Str) : Decidable (FitBuf blocks) :=
  inferInstanceAs (Decidable (∀ b ∈ blocks, b ≠ [] ∧ b.length < bufSize))

/-- **The loop reads blocks** as long as their number of bytes fits an `int`. -/
theorem readUnsized_blocks : ∀ {blocks : List Str} {st : Unsized} {acc : Str}, FitBuf blocks →
    st.Holds acc → ((acc ++ blocks.flatten).length : ℤ) ≤ intMax →
      ∃ st', st'.Holds (acc ++ blocks.flatten) ∧
        ∀ tail, readUnsized (blocks.map .data ++ tail) st = readUnsized tail st' := by
  intro blocks
  induction blocks with
  | nil => intro st acc _ h _; exact ⟨st, by simpa using h, fun _ => rfl⟩
  | cons b blocks ih =>
    intro st acc hblocks h hfits
    obtain ⟨hne, hb⟩ := hblocks b List.mem_cons_self
    have hrest : FitBuf blocks := fun b' hb' => hblocks b' (List.mem_cons_of_mem _ hb')
    have hsum : (acc ++ (b :: blocks).flatten) = acc ++ b ++ blocks.flatten := by simp
    rw [hsum] at hfits ⊢
    obtain ⟨st₁, hstep, h₁⟩ := h.step hb (by
      rw [List.length_append] at hfits
      omega)
    obtain ⟨st₂, h₂, htail⟩ := ih hrest h₁ hfits
    refine ⟨st₂, h₂, fun tail => ?_⟩
    rw [← htail tail, List.map_cons, List.cons_append, readUnsized,
      if_pos (toSizeT_ret_pos hne hb), hstep, ok_bind]

/-- **The loop faults on more bytes** than fit an `int`. -/
theorem readUnsized_blocks_of_gt : ∀ {blocks : List Str} {st : Unsized} {acc : Str},
    FitBuf blocks → st.Holds acc → intMax < ((acc ++ blocks.flatten).length : ℤ) →
      ∃ fault, ∀ tail, readUnsized (blocks.map .data ++ tail) st = .error fault := by
  intro blocks
  induction blocks with
  | nil =>
    intro st acc _ h hgt
    have hfits := h.fits
    rw [List.flatten_nil, List.append_nil] at hgt
    omega
  | cons b blocks ih =>
    intro st acc hblocks h hgt
    obtain ⟨hne, hb⟩ := hblocks b List.mem_cons_self
    have hrest : FitBuf blocks := fun b' hb' => hblocks b' (List.mem_cons_of_mem _ hb')
    have hsum : (acc ++ (b :: blocks).flatten) = acc ++ b ++ blocks.flatten := by simp
    rw [hsum] at hgt
    rcases le_or_gt ((acc ++ b).length : ℤ) intMax with hle | hlt
    · obtain ⟨st₁, hstep, h₁⟩ := h.step hb hle
      obtain ⟨fault, htail⟩ := ih hrest h₁ hgt
      refine ⟨fault, fun tail => ?_⟩
      rw [← htail tail, List.map_cons, List.cons_append, readUnsized,
        if_pos (toSizeT_ret_pos hne hb), hstep, ok_bind]
    · obtain ⟨fault, hstep⟩ := h.step_of_gt hb hlt
      refine ⟨fault, fun tail => ?_⟩
      rw [List.map_cons, List.cons_append, readUnsized, if_pos (toSizeT_ret_pos hne hb), hstep,
        error_bind]

theorem readUnsized_end (rest : List ClientBlock) (st : Unsized) :
    readUnsized (.data [] :: rest) st = .ok (some (st, rest)) := by
  rw [readUnsized, if_neg (by decide)]
  rfl

theorem readUnsized_error {st : Unsized} {acc : Str} (h : st.Holds acc) (rest : List ClientBlock) :
    ∃ fault, readUnsized (.error :: rest) st = .error fault := by
  obtain ⟨fault, hstep⟩ := h.step_error
  refine ⟨fault, ?_⟩
  rw [readUnsized, if_pos (by decide), hstep, error_bind]

/-! ### The branch with a length -/

/-- **The array holds what has been read**, stored from its beginning on without a
gap. -/
structure Sized.Holds (st : Sized) (size : ℕ) (acc : Str) : Prop where
  length_sbuf : st.sbuf.length = size
  allRead : st.allRead = acc.length
  begins : Memory.BeginsWith st.sbuf acc
  stores : st.stores = indicesFrom 0 acc.length

theorem indicesFrom_add (off : ℤ) (m n : ℕ) :
    indicesFrom off (m + n) = indicesFrom off m ++ indicesFrom (off + m) n := by
  rw [indicesFrom, List.range_add, List.map_append, List.map_map]
  simp [indicesFrom, Function.comp_def, Int.add_assoc]

/-- Nothing to store, nothing stored. -/
theorem receive_of_bytes_eq_nil {res : ClientBlock} (h : res.bytes = []) (st : Sized) :
    st.receive res = .ok st := if_pos h

/-- **A block that fits the array** is stored behind the others. -/
theorem Sized.Holds.receive {st : Sized} {size : ℕ} {acc : Str} (h : st.Holds size acc) {b : Str}
    (hle : acc.length + b.length ≤ size) :
    ∃ st', st.receive (.data b) = .ok st' ∧ st'.allRead = acc.length ∧
      Sized.Holds { st' with allRead := (acc ++ b).length } size (acc ++ b) := by
  by_cases hb : b = []
  · subst hb
    refine ⟨st, if_pos rfl, h.allRead, h.length_sbuf, rfl, ?_, ?_⟩
    · rw [List.append_nil]; exact h.begins
    · rw [List.append_nil]; exact h.stores
  · obtain ⟨sbuf, hput, hbegins, hlength⟩ := h.begins.put b (by rw [h.length_sbuf]; exact hle)
    refine ⟨{ st with sbuf, stores := st.stores ++ indicesFrom st.allRead b.length }, ?_, h.allRead,
      hlength.trans h.length_sbuf, rfl, hbegins, ?_⟩
    · rw [Sized.receive, bytes_data, if_neg hb, h.allRead, hput, ok_bind]
      rfl
    · show st.stores ++ indicesFrom st.allRead b.length = _
      rw [h.stores, h.allRead, List.length_append, indicesFrom_add, Int.zero_add]

/-- **A block that does not fit** faults. -/
theorem Sized.Holds.receive_of_gt {st : Sized} {size : ℕ} {acc : Str} (h : st.Holds size acc)
    {b : Str} (hb : b ≠ []) (hgt : size < acc.length + b.length) :
    ∃ fault, st.receive (.data b) = .error fault := by
  have hput : Memory.put st.sbuf (acc.length : ℤ) (b.map some)
      = .error (.outOfBounds ((acc.length : ℤ) + (b.map some).length - 1)) := by
    refine if_pos (Or.inr ?_)
    rw [h.length_sbuf, List.length_map]
    omega
  refine ⟨.outOfBounds ((acc.length : ℤ) + (b.map some).length - 1), ?_⟩
  rw [Sized.receive, bytes_data, if_neg hb, h.allRead, hput, error_bind]

/-- **The loop reads blocks** as long as the array holds their number of bytes. -/
theorem readBlocks_blocks {size : ℕ} (hsize : (size : ℤ) ≤ intMax) :
    ∀ {blocks : List Str} {st : Sized} {acc : Str}, (∀ b ∈ blocks, b ≠ []) →
      st.Holds size acc → (acc ++ blocks.flatten).length ≤ size →
        ∃ st', st'.Holds size (acc ++ blocks.flatten) ∧
          ∀ tail, readBlocks (blocks.map .data ++ tail) st = readBlocks tail st' := by
  intro blocks
  induction blocks with
  | nil => intro st acc _ h _; exact ⟨st, by simpa using h, fun _ => rfl⟩
  | cons b blocks ih =>
    intro st acc hblocks h hle
    have hrest : ∀ b' ∈ blocks, b' ≠ [] := fun b' hb' => hblocks b' (List.mem_cons_of_mem _ hb')
    have hpos := List.length_pos_of_ne_nil (hblocks b List.mem_cons_self)
    have hsum : (acc ++ (b :: blocks).flatten) = acc ++ b ++ blocks.flatten := by simp
    rw [hsum] at hle ⊢
    have hle' := hle
    rw [List.length_append, List.length_append] at hle'
    obtain ⟨st₁, hreceive, hread, h₁⟩ := h.receive (b := b) (by omega)
    have hlen : toSizeT (ClientBlock.data b).ret = b.length := toSizeT_length (by omega)
    have hint : toInt ((acc.length : ℤ) + b.length) = ((acc ++ b).length : ℕ) := by
      rw [List.length_append, Nat.cast_add]
      exact toInt_eq ⟨by unfold intMin; omega, by omega⟩
    obtain ⟨st₂, h₂, htail⟩ := ih hrest h₁ hle
    refine ⟨st₂, h₂, fun tail => ?_⟩
    rw [← htail tail, List.map_cons, List.cons_append, readBlocks, hreceive, ok_bind, hlen,
      if_pos (by omega), hread, hint]

/-- **The loop faults on more bytes** than the array holds. -/
theorem readBlocks_blocks_of_gt {size : ℕ} (hsize : (size : ℤ) ≤ intMax) :
    ∀ {blocks : List Str} {st : Sized} {acc : Str}, (∀ b ∈ blocks, b ≠ []) →
      st.Holds size acc → acc.length ≤ size → size < (acc ++ blocks.flatten).length →
        ∃ fault, ∀ tail, readBlocks (blocks.map .data ++ tail) st = .error fault := by
  intro blocks
  induction blocks with
  | nil =>
    intro st acc _ _ hacc hgt
    rw [List.flatten_nil, List.append_nil] at hgt
    omega
  | cons b blocks ih =>
    intro st acc hblocks h hacc hgt
    have hb := hblocks b List.mem_cons_self
    have hrest : ∀ b' ∈ blocks, b' ≠ [] := fun b' hb' => hblocks b' (List.mem_cons_of_mem _ hb')
    have hsum : (acc ++ (b :: blocks).flatten) = acc ++ b ++ blocks.flatten := by simp
    rw [hsum] at hgt
    rcases Nat.lt_or_ge size (acc.length + b.length) with hlt | hle
    · obtain ⟨fault, hreceive⟩ := h.receive_of_gt hb hlt
      refine ⟨fault, fun tail => ?_⟩
      rw [List.map_cons, List.cons_append, readBlocks, hreceive, error_bind]
    · -- the block fits: its bytes are read as before
      have hb' : ∀ b' ∈ [b], b' ≠ [] := by simpa using hb
      obtain ⟨st₁, h₁, hone⟩ := readBlocks_blocks hsize hb' h (by simpa using hle)
      have h₁' : st₁.Holds size (acc ++ b) := by simpa using h₁
      obtain ⟨fault, htail⟩ := ih hrest h₁' (by simpa using hle) hgt
      refine ⟨fault, fun tail => ?_⟩
      rw [← htail tail, ← hone]
      rfl

theorem readBlocks_end (rest : List ClientBlock) (st : Sized) :
    readBlocks (.data [] :: rest) st = .ok (some (st, rest)) := by
  rw [readBlocks, receive_of_bytes_eq_nil rfl, ok_bind, if_neg (by decide)]
  rfl

/-- The loop uses up what it reads. -/
theorem length_lt_of_readBlocks : ∀ {results rest : List ClientBlock} {st st' : Sized},
    readBlocks results st = .ok (some (st', rest)) → rest.length < results.length := by
  intro results
  induction results with
  | nil => intro rest st st' h; exact absurd h (by simp [readBlocks, pure, Except.pure])
  | cons res results ih =>
    intro rest st st' h
    rw [readBlocks] at h
    obtain ⟨st₁, -, h⟩ := bind_eq_ok h
    split at h
    · exact Nat.lt_succ_of_lt (ih h)
    · simp only [pure, Except.pure, Except.ok.injEq, Option.some.injEq, Prod.mk.injEq] at h
      rw [← h.2]
      exact Nat.lt_succ_self _

/-- **An error does not end the loop**: it ends before the error or goes on. -/
theorem length_ne_of_readBlocks_error (rest : List ClientBlock) :
    ∀ (blocks : List Str) {st st' : Sized} {rest' : List ClientBlock},
      readBlocks (blocks.map .data ++ .error :: rest) st = .ok (some (st', rest')) →
        rest'.length ≠ rest.length := by
  intro blocks
  induction blocks with
  | nil =>
    intro st st' rest' h
    rw [List.map_nil, List.nil_append, readBlocks, receive_of_bytes_eq_nil rfl, ok_bind,
      if_pos (by decide)] at h
    exact (length_lt_of_readBlocks h).ne
  | cons b blocks ih =>
    intro st st' rest' h
    rw [List.map_cons, List.cons_append, readBlocks] at h
    obtain ⟨st₁, -, h⟩ := bind_eq_ok h
    split at h
    · exact ih h
    · simp only [pure, Except.pure, Except.ok.injEq, Option.some.injEq, Prod.mk.injEq] at h
      rw [← h.2]
      simp only [List.length_append, List.length_cons]
      omega

/-! ### Allocating and terminating -/

theorem sized_holds_start (size : ℕ) :
    Sized.Holds ⟨List.replicate size none, 0, []⟩ size [] where
  length_sbuf := List.length_replicate
  allRead := rfl
  begins := ⟨_, rfl⟩
  stores := rfl

/-- Which lengths can be allocated. -/
theorem allocSize_nonneg_iff {clen : ℤ} (h : FitsInt clen) :
    0 ≤ allocSize clen ↔ -1 ≤ clen ∧ clen < intMax := by
  obtain ⟨hmin, hmax⟩ := h
  unfold intMin at hmin
  unfold intMax at hmax ⊢
  unfold allocSize toInt
  rw [Int.bmod_def]
  split <;> omega

theorem allocSize_eq {clen : ℤ} (h : -1 ≤ clen) (hmax : clen < intMax) :
    allocSize clen = clen + 1 := toInt_eq ⟨by unfold intMin; omega, by omega⟩

/-- **A body as long as its header says** is read and terminated. -/
theorem readSized_of_le {header : Str} {blocks : List Str} (hblocks : ∀ b ∈ blocks, b ≠ [])
    (h0 : 0 ≤ atoi header) (hmax : atoi header < intMax)
    (hle : (blocks.flatten.length : ℤ) ≤ atoi header) (rest : List ClientBlock) :
    ∃ st, readSized header (blocks.map .data ++ .data [] :: rest) = .ok (some (st, rest)) ∧
      st.allRead = blocks.flatten.length ∧ Memory.BeginsWith st.sbuf (blocks.flatten ++ [0]) ∧
      st.stores = indicesFrom 0 (blocks.flatten.length + 1) := by
  obtain ⟨n, hn⟩ := Int.eq_ofNat_of_zero_le h0
  have hsize : allocSize (atoi header) = (n + 1 : ℕ) := by
    rw [allocSize_eq (by omega) hmax, hn]
    rfl
  have hint : ((n + 1 : ℕ) : ℤ) ≤ intMax := by omega
  obtain ⟨st, hst, htail⟩ := readBlocks_blocks hint hblocks (sized_holds_start (n + 1)) (by
    rw [List.nil_append]
    omega)
  rw [List.nil_append] at hst
  obtain ⟨sbuf, hput, hbegins, -⟩ := hst.begins.put [0] (by
    rw [hst.length_sbuf, List.length_singleton]
    omega)
  refine ⟨{ st with sbuf, stores := st.stores ++ [st.allRead] }, ?_, hst.allRead, hbegins, ?_⟩
  · have hput' : Memory.put st.sbuf st.allRead [some 0] = .ok sbuf := by
      rw [hst.allRead]
      exact hput
    rw [readSized, hsize, Memory.alloc_natCast, ok_bind, htail, readBlocks_end, ok_bind]
    show (Memory.put st.sbuf st.allRead [some 0] >>= _) = _
    rw [hput', ok_bind]
    rfl
  · rw [hst.stores, hst.allRead, indicesFrom_add, Int.zero_add]
    simp [indicesFrom]

/-- **What is allocated** has one byte more than the header says. -/
theorem alloc_allocSize_eq_ok {clen : ℤ} (hint : FitsInt clen) {sbuf : List (Option UInt8)}
    (h : Memory.alloc (allocSize clen) = .ok sbuf) :
    -1 ≤ clen ∧ clen < intMax ∧ sbuf = List.replicate (clen + 1).toNat none := by
  have hnonneg : 0 ≤ allocSize clen := by
    by_contra hneg
    rw [Memory.alloc, if_pos (by omega)] at h
    exact absurd h (by simp)
  obtain ⟨hlow, hmax⟩ := (allocSize_nonneg_iff hint).mp hnonneg
  rw [Memory.alloc_of_nonneg hnonneg, allocSize_eq hlow hmax, Except.ok.injEq] at h
  exact ⟨hlow, hmax, h.symm⟩

/-- **What the loop gets through** is not longer than its array. -/
theorem le_of_readBlocks {size : ℕ} (hsize : (size : ℤ) ≤ intMax) {blocks : List Str}
    (hblocks : ∀ b ∈ blocks, b ≠ []) {tail : List ClientBlock}
    {out : Option (Sized × List ClientBlock)}
    (h : readBlocks (blocks.map .data ++ tail) ⟨List.replicate size none, 0, []⟩ = .ok out) :
    blocks.flatten.length ≤ size := by
  by_contra hgt
  obtain ⟨fault, htail⟩ := readBlocks_blocks_of_gt hsize hblocks (sized_holds_start size)
    (Nat.zero_le _) (by simpa using hgt)
  rw [htail] at h
  exact absurd h (by simp)

/-- **A body longer than its header says faults**, and so does a length that cannot
be allocated. -/
theorem le_of_readSized {header : Str} {blocks : List Str} (hblocks : ∀ b ∈ blocks, b ≠ [])
    {rest : List ClientBlock} {out : Option (Sized × List ClientBlock)}
    (h : readSized header (blocks.map .data ++ .data [] :: rest) = .ok out) :
    0 ≤ atoi header ∧ atoi header < intMax ∧ (blocks.flatten.length : ℤ) ≤ atoi header := by
  have hclen : FitsInt (atoi header) := fitsInt_toInt _
  rw [readSized] at h
  obtain ⟨sbuf, halloc, h⟩ := bind_eq_ok h
  obtain ⟨hlow, hmax, rfl⟩ := alloc_allocSize_eq_ok hclen halloc
  obtain ⟨out', hread, h⟩ := bind_eq_ok h
  have hint : ((atoi header + 1).toNat : ℤ) ≤ intMax := by omega
  have hle := le_of_readBlocks hint hblocks hread
  obtain ⟨st, hst, htail⟩ := readBlocks_blocks hint hblocks
    (sized_holds_start (atoi header + 1).toNat) hle
  rw [htail, readBlocks_end, Except.ok.injEq] at hread
  subst hread
  -- the NUL byte goes behind the body
  obtain ⟨sbuf, hput, -⟩ := bind_eq_ok h
  have hbound := (Memory.put_eq_ok_iff.mp ⟨sbuf, hput⟩).2
  rw [hst.allRead, hst.length_sbuf, List.nil_append, List.length_singleton] at hbound
  omega

/-! ### The end of the body -/

/-- **The loop without a length stops at the end**: after the blocks it leaves
everything behind the result that ends them, with `all_read` their number of bytes
and `sbuf` beginning with them. -/
def UnsizedStops (blocks : List Str) (last : ClientBlock) (rest : List ClientBlock) : Prop :=
  ∃ st, readUnsized (blocks.map .data ++ last :: rest) Unsized.start = .ok (some (st, rest)) ∧
    st.allRead = blocks.flatten.length ∧ Memory.BeginsWith (st.sbuf.getD []) blocks.flatten

/-- **The loop with a length stops at the end**, in the array allocated for it: the
NUL byte stored behind the loop is not part of it. -/
def SizedStops (header : Str) (blocks : List Str) (last : ClientBlock) (rest : List ClientBlock) :
    Prop :=
  ∃ sbuf st, Memory.alloc (allocSize (atoi header)) = .ok sbuf ∧
    readBlocks (blocks.map .data ++ last :: rest) { sbuf, allRead := 0, stores := [] }
      = .ok (some (st, rest)) ∧
    st.allRead = blocks.flatten.length ∧ Memory.BeginsWith st.sbuf blocks.flatten

theorem unsizedStops_iff {blocks : List Str} (hblocks : FitBuf blocks) {last : ClientBlock}
    (hlast : last.ret ≤ 0) (rest : List ClientBlock) :
    UnsizedStops blocks last rest ↔
      last = .data [] ∧ (blocks.flatten.length : ℤ) ≤ intMax := by
  have hstart := Unsized.holds_start
  constructor
  · rintro ⟨st, hread, -, -⟩
    rcases le_or_gt (blocks.flatten.length : ℤ) intMax with hle | hgt
    · obtain ⟨st', hst', htail⟩ := readUnsized_blocks hblocks hstart hle
      rcases ret_nonpos_iff.mp hlast with rfl | rfl
      · exact ⟨rfl, hle⟩
      · obtain ⟨fault, hfault⟩ := readUnsized_error hst' rest
        rw [htail, hfault] at hread
        exact absurd hread (by simp)
    · obtain ⟨fault, hfault⟩ := readUnsized_blocks_of_gt hblocks hstart hgt
      rw [hfault] at hread
      exact absurd hread (by simp)
  · rintro ⟨rfl, hle⟩
    obtain ⟨st, hst, htail⟩ := readUnsized_blocks hblocks hstart hle
    rw [List.nil_append] at hst
    refine ⟨st, by rw [htail, readUnsized_end], hst.allRead, ?_⟩
    have hsbuf := hst.sbuf
    cases hs : st.sbuf with
    | none =>
      rw [hs] at hsbuf
      rw [show blocks.flatten = [] from hsbuf]
      exact ⟨_, rfl⟩
    | some sbuf =>
      rw [hs] at hsbuf
      exact hsbuf.of_append

theorem sizedStops_iff (header : Str) {blocks : List Str} (hblocks : ∀ b ∈ blocks, b ≠ [])
    {last : ClientBlock} (hlast : last.ret ≤ 0) (rest : List ClientBlock) :
    SizedStops header blocks last rest ↔
      last = .data [] ∧ -1 ≤ atoi header ∧ atoi header < intMax ∧
        (blocks.flatten.length : ℤ) ≤ atoi header + 1 := by
  constructor
  · rintro ⟨sbuf, st, halloc, hread, -, -⟩
    have hclen : FitsInt (atoi header) := fitsInt_toInt _
    obtain ⟨hlow, hmax, rfl⟩ := alloc_allocSize_eq_ok hclen halloc
    rcases ret_nonpos_iff.mp hlast with rfl | rfl
    · have hle := le_of_readBlocks (by omega) hblocks hread
      exact ⟨rfl, hlow, hmax, by omega⟩
    · exact absurd rfl (length_ne_of_readBlocks_error rest blocks hread)
  · rintro ⟨rfl, hlow, hmax, hle⟩
    obtain ⟨n, hn⟩ := Int.eq_ofNat_of_zero_le (show 0 ≤ atoi header + 1 by omega)
    have halloc : Memory.alloc (allocSize (atoi header))
        = .ok (List.replicate n (none : Option UInt8)) := by
      rw [allocSize_eq hlow hmax, hn]
      exact Memory.alloc_natCast n
    obtain ⟨st, hst, htail⟩ := readBlocks_blocks (by omega) hblocks (sized_holds_start n) (by
      rw [List.nil_append]
      omega)
    rw [List.nil_append] at hst
    exact ⟨_, st, halloc, by rw [htail, readBlocks_end], hst.allRead, hst.begins⟩

/-- **Where the two loops end.**  A result that is not positive is the end of the
body or an error.  Without a length, the loop stops there exactly if it is the end
of the body and all bytes before it fit an `int`; with a length, exactly if it is
the end of the body, the length is one that can be allocated, and the bytes are at
most the one more than the length that is allocated. -/
theorem body_ends_iff (blocks : List Str) (last : ClientBlock) (rest : List ClientBlock)
    (hlast : last.ret ≤ 0) :
    (FitBuf blocks → (UnsizedStops blocks last rest ↔
      last = .data [] ∧ (blocks.flatten.length : ℤ) ≤ intMax)) ∧
    ((∀ b ∈ blocks, b ≠ []) → ∀ header, (SizedStops header blocks last rest ↔
      last = .data [] ∧ -1 ≤ atoi header ∧ atoi header < intMax ∧
        (blocks.flatten.length : ℤ) ≤ atoi header + 1)) :=
  ⟨fun h => unsizedStops_iff h hlast rest, fun h header => sizedStops_iff header h hlast rest⟩

/-- Two blocks of one byte and the end of the body, also with a length of one: they
fill the array. -/
theorem body_ends_iff_two :
    UnsizedStops [literal "a", literal "b"] (.data []) [] ∧
      SizedStops (literal "1") [literal "a", literal "b"] (.data []) [] := by
  obtain ⟨hunsized, hsized⟩ := body_ends_iff [literal "a", literal "b"] (.data []) [] (by decide)
  exact ⟨(hunsized (by decide)).mpr ⟨rfl, by decide⟩,
    (hsized (by decide) (literal "1")).mpr ⟨rfl, by decide, by decide, by decide⟩⟩

/-- One byte and an error: without a length, the copy of `len_read_` bytes leaves
`buf`; with one, the loop goes on and the byte is lost. -/
theorem not_stops_error :
    ¬ UnsizedStops [literal "a"] .error [.data []] ∧
      ¬ SizedStops (literal "3") [literal "a"] .error [.data []] ∧
      (readSized (literal "3") [.data (literal "a"), .error, .data []]).map
          (fun out => out.map fun p => p.1.allRead) = .ok (some 0) := by
  refine ⟨fun h => ?_, fun h => ?_, by decide +kernel⟩
  · exact absurd ((unsizedStops_iff (by decide) (by decide) _).mp h).1 (by decide)
  · exact absurd ((sizedStops_iff (literal "3") (by decide) (by decide) _).mp h).1 (by decide)

/-! ### The array with a length -/

/-- **The branch with a length writes inside**: it allocates a non-negative number
of bytes and reads up to the end of the body, and what it stores is every byte of
the body and a NUL byte, all of them at indices from 0 to the length. -/
def WritesInside (header : Str) (blocks : List Str) (rest : List ClientBlock) : Prop :=
  0 ≤ allocSize (atoi header) ∧
    ∃ st, readSized header (blocks.map .data ++ .data [] :: rest) = .ok (some (st, rest)) ∧
      Memory.BeginsWith st.sbuf (blocks.flatten ++ [0]) ∧
      st.stores.length = blocks.flatten.length + 1 ∧ ∀ i ∈ st.stores, 0 ≤ i ∧ i ≤ atoi header

/-- **The array with a length is large enough** exactly if the length can be
allocated and the body is not longer. -/
theorem writes_inside_iff (header : Str) (blocks : List Str) (rest : List ClientBlock)
    (hblocks : ∀ b ∈ blocks, b ≠ []) :
    WritesInside header blocks rest ↔
      0 ≤ atoi header ∧ atoi header < intMax ∧
        (blocks.flatten.length : ℤ) ≤ atoi header := by
  constructor
  · rintro ⟨-, st, hread, -, -, -⟩
    exact le_of_readSized hblocks hread
  · rintro ⟨h0, hmax, hle⟩
    obtain ⟨st, hread, -, hbegins, hstores⟩ := readSized_of_le hblocks h0 hmax hle rest
    have hint : FitsInt (atoi header) := fitsInt_toInt _
    refine ⟨(allocSize_nonneg_iff hint).mpr ⟨by omega, hmax⟩, st, hread, hbegins, ?_, ?_⟩
    · rw [hstores, indicesFrom, List.length_map, List.length_range]
    · intro i hi
      rw [hstores, indicesFrom, List.mem_map] at hi
      obtain ⟨j, hj, rfl⟩ := hi
      rw [List.mem_range] at hj
      omega

/-- A body as long as its header says. -/
theorem writes_inside_iff_two : WritesInside (literal "2") [literal "a", literal "b"] [] :=
  (writes_inside_iff (literal "2") [literal "a", literal "b"] [] (by decide)).mpr
    ⟨by decide, by decide, by decide⟩

/-- Two blocks, each of the length in the header: the NUL byte goes to index 2 of
an array of two bytes. -/
theorem not_writesInside_two_blocks :
    readSized (literal "1") ([literal "a", literal "b"].map .data ++ [.data []])
        = .error (.outOfBounds 2) ∧
      ¬ WritesInside (literal "1") [literal "a", literal "b"] [] := by
  have hfault : readSized (literal "1") ([literal "a", literal "b"].map .data ++ [.data []])
      = .error (.outOfBounds 2) := by
    decide
  refine ⟨hfault, ?_⟩
  rintro ⟨-, st, hread, -⟩
  rw [hfault] at hread
  exact absurd hread (by simp)

end ModCplusplus
