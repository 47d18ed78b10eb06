import ModCplusplus.EnvStream
import ModCplusplus.General.Heap

/-!
# The storage of a request

The constructor of a `request_env` reads the body into arrays of its own and makes an
`env_value` for every name.  It replaces an array by a larger one and deletes the old one,
and after the body has been decoded or dropped it deletes the last.  The array of form
data it keeps in a member, and the table is a vector of pointers; the destructor only
flushes.

Here the constructor goes through these pointers, for one request after the other.  No
pointer dangles; but the entries and the form data of a request are never deleted, and a
child process keeps them all.

## Main definitions

* `StoredBody`, `readBodyStored` — the body in arrays on the heap.
* `StoredParse`, `decodeStored` — the table as a vector of pointers.
* `StoredEnv`, `constructStored`, `serveStored` — the constructor, and requests one by one.
* `StoredEnv.Shows`, `StorageAccounted` — what the pointers lead to, and what is left.

## Main results

* `readBody_followed` — the body is read alike, and only its last array is left.
* `decodeStored_eq` — the entries are made one behind the other.
* `construct_followed` — the constructor does with pointers what it does without.
* `storage_accounted` — any requests, on any heap.
* `forms_leave_entries` — what forms leave.
-/

namespace ModCplusplus

/-! ### The body -/

/-- An array of bytes. -/
abbrev Block := List (Option UInt8)

/-- The variables of the loop without a Content-Length, and the arrays. -/
structure StoredBody where
  buf : Block
  -- NULL before the first block
  sbuf : Option ℕ
  allRead : ℤ
  arrays : Heap Block

/-- `if( sbuf ) { memcpy( tmp, sbuf, all_read ); delete sbuf; … }`. -/
def copyOldStored (sbuf : Option ℕ) (allRead : ℤ) (tmp : ℕ) (arrays : Heap Block) :
    Except HeapFault (Heap Block) :=
  match sbuf with
  | some sbuf => do
      let cells ← arrays.read sbuf
      let old ← inside (Memory.fetch cells (toSizeT allRead))
      let arrays ← arrays.update tmp fun cells => Memory.put cells 0 old
      arrays.delete sbuf
  | none => return arrays

/-- The body of the loop. -/
def StoredBody.step (res : ClientBlock) (st : StoredBody) : Except HeapFault StoredBody := do
  let lenRead := toSizeT res.ret
  let buf ← inside (Memory.put st.buf 0 (res.bytes.map some))
  let cells ← inside (Memory.alloc (toSizeT (st.allRead + bufSize)))
  let (tmp, arrays) := st.arrays.new cells
  let arrays ← copyOldStored st.sbuf st.allRead tmp arrays
  let new ← inside (Memory.fetch buf lenRead)
  let arrays ← arrays.update tmp fun cells => Memory.put cells st.allRead new
  let allRead := toInt (st.allRead + lenRead)
  let arrays ← arrays.update tmp fun cells => Memory.put cells allRead [some 0]
  return { buf, sbuf := some tmp, allRead, arrays }

/-- The loop without a Content-Length. -/
def readUnsizedStored : List ClientBlock → StoredBody → Except HeapFault (Option StoredBody)
  | [], _ => return none
  | res :: results, st =>
      if 0 < toSizeT res.ret then do
        let st ← st.step res
        readUnsizedStored results st
      else return some st

/-- `ap_get_client_block` stores its bytes from `sbuf + all_read` on. -/
def receiveStored (res : ClientBlock) (sbuf : ℕ) (allRead : ℤ) (arrays : Heap Block) :
    Except HeapFault (Heap Block) :=
  if res.bytes = [] then .ok arrays
  else arrays.update sbuf fun cells => Memory.put cells allRead (res.bytes.map some)

/-- The loop with a Content-Length. -/
def readBlocksStored (sbuf : ℕ) :
    List ClientBlock → ℤ → Heap Block → Except HeapFault (Option (ℤ × Heap Block))
  | [], _, _ => return none
  | res :: results, allRead, arrays => do
      let arrays ← receiveStored res sbuf allRead arrays
      if 0 < toSizeT res.ret then
        readBlocksStored sbuf results (toInt (allRead + toSizeT res.ret)) arrays
      else return some (allRead, arrays)

/-- The branch with a Content-Length. -/
def readSizedStored (contentLength : Str) (results : List ClientBlock) (arrays : Heap Block) :
    Except HeapFault (Option (ℕ × ℤ × Heap Block)) := do
  let clen := atoi contentLength
  let cells ← inside (Memory.alloc (allocSize clen))
  let (sbuf, arrays) := arrays.new cells
  match ← readBlocksStored sbuf results 0 arrays with
  | none => return none
  | some (allRead, arrays) =>
      let arrays ← arrays.update sbuf fun cells => Memory.put cells allRead [some 0]
      return some (sbuf, allRead, arrays)

/-- `sbuf` and `all_read` after the body has been read, and the arrays. -/
def readBodyStored (contentLength : Option CStr) (results : List ClientBlock)
    (arrays : Heap Block) : Except HeapFault (Option (Option ℕ × ℤ × Heap Block)) :=
  match contentLength with
  | none => do
      let out ← readUnsizedStored results
        { buf := Unsized.start.buf, sbuf := none, allRead := 0, arrays }
      return out.map fun st => (st.sbuf, st.allRead, st.arrays)
  | some contentLength => do
      let out ← readSizedStored contentLength.val results arrays
      return out.map fun p => (some p.1, p.2)

/-! ### The table -/

/-- The text, the pointer to the current entry, and the vector `env_`. -/
structure StoredParse where
  pStr : Str
  pEnv : Option ℕ
  env_ : List ℕ

/-- `search`. -/
def searchStored (values : Heap EnvValue) : List ℕ → Str → Except HeapFault (Option ℕ)
  | [], _ => return none
  | it :: env_, key => do
      let e ← values.read it
      if e.key = key then return some it else searchStored values env_ key

/-- `add_value`. -/
def addValueStored (pEnv : ℕ) (value : Str) (values : Heap EnvValue) :
    Except HeapFault (Heap EnvValue) :=
  values.update pEnv fun e => .ok { e with vals := e.vals ++ [value] }

namespace StoredParse

/-- `pStr += c`. -/
def push (c : UInt8) (p : StoredParse) : StoredParse := { p with pStr := p.pStr ++ [c] }

/-- At a `=`. -/
def endKey (p : StoredParse) (values : Heap EnvValue) :
    Except HeapFault (StoredParse × Heap EnvValue) :=
  if p.pStr = [] then .ok (p, values)
  else do
    match ← searchStored values p.env_ p.pStr with
    | some pEnv => return ({ p with pStr := [], pEnv := some pEnv }, values)
    | none =>
        let (pEnv, values) := values.new ⟨p.pStr, []⟩
        return (⟨[], some pEnv, p.env_ ++ [pEnv]⟩, values)

/-- At a `&`. -/
def endValue (p : StoredParse) (values : Heap EnvValue) :
    Except HeapFault (StoredParse × Heap EnvValue) :=
  match p.pEnv with
  | some pEnv =>
      if p.pStr = [] then .ok (p, values)
      else do
        let values ← addValueStored pEnv p.pStr values
        return ({ p with pStr := [] }, values)
  | none => .ok (p, values)

/-- At the end. -/
def finish (p : StoredParse) (values : Heap EnvValue) : Except HeapFault (Heap EnvValue) :=
  match p.pEnv with
  | some pEnv => if p.pStr = [] then .ok values else addValueStored pEnv p.pStr values
  | none => .ok values

end StoredParse

/-- The variables of the loop of `decode`, and the entries. -/
structure StoredDecode where
  i : ℕ
  parse : StoredParse
  values : Heap EnvValue

/-- One iteration, the step of `i` included. -/
def decodeIterStored (mem : Uninit) (ch : Str) (st : StoredDecode) :
    Except HeapFault StoredDecode :=
  let c := byteAt mem ch st.i
  if c = 0 then .ok { st with i := ch.length + 1 }
  else if c = byteOf '=' then do
    let (parse, values) ← st.parse.endKey st.values
    return ⟨st.i + 1, parse, values⟩
  else if c = byteOf '&' then do
    let (parse, values) ← st.parse.endValue st.values
    return ⟨st.i + 1, parse, values⟩
  else if c = byteOf '+' then .ok ⟨st.i + 1, st.parse.push (byteOf ' '), st.values⟩
  else if c = byteOf '%' then
    if st.i < ch.length + 2 then
      let hexstr := [byteAt mem ch (st.i + 1), byteAt mem ch (st.i + 2)]
      .ok ⟨st.i + 3, st.parse.push (toChar (strtol 16 (hexstr ++ mem.afterHexstr st.i))), st.values⟩
    else .ok { st with i := st.i + 1 }
  else .ok ⟨st.i + 1, st.parse.push c, st.values⟩

/-- The loop, for at most so many iterations. -/
def decodeLoopStored (mem : Uninit) (ch : Str) : ℕ → StoredDecode → Except HeapFault StoredDecode
  | 0, st => .ok st
  | fuel + 1, st =>
      if st.i < ch.length then do
        let st ← decodeIterStored mem ch st
        decodeLoopStored mem ch fuel st
      else .ok st

/-- `decode`, into an empty table: the vector `env_`, and the entries. -/
def decodeStored (mem : Uninit) (ch : CStr) (values : Heap EnvValue) :
    Except HeapFault (List ℕ × Heap EnvValue) := do
  let st ← decodeLoopStored mem ch.val ch.val.length ⟨0, ⟨[], none, []⟩, values⟩
  let values ← st.parse.finish st.values
  return (st.parse.env_, values)

/-! ### The constructor -/

/-- What has been made with `new`. -/
structure Allocated where
  arrays : Heap Block
  values : Heap EnvValue

/-- A `request_env` with its pointers. -/
structure StoredEnv where
  isPost_ : Bool
  env_ : List ℕ
  formData : Option ℕ
  formDataLength : ℤ
  boundary : Str

/-- The bytes a pointer leads to, or NULL. -/
def readUnlessNull (sbuf : Option ℕ) (arrays : Heap Block) : Except HeapFault Buffer :=
  match sbuf with
  | some sbuf => do
      let cells ← arrays.read sbuf
      return some cells
  | none => return none

/-- `if ( sbuf ) delete sbuf`. -/
def deleteUnlessNullStored (sbuf : Option ℕ) (arrays : Heap Block) :
    Except HeapFault (Heap Block) :=
  match sbuf with
  | some sbuf => arrays.delete sbuf
  | none => return arrays

/-- The members as the constructor finds or first assigns them. -/
def StoredEnv.start (mem : Storage) (r : Request) : StoredEnv where
  isPost_ := r.hasBody || mem.isPost_
  env_ := []
  formData := none
  formDataLength := 0
  boundary := []

/-- `request_env::request_env`. -/
def constructStored (mem : Storage) (r : Request) (allocated : Allocated) :
    Except HeapFault (Option (StoredEnv × Allocated)) :=
  let e := StoredEnv.start mem r
  if r.hasBody then do
    match ← readBodyStored r.contentLength r.body allocated.arrays with
    | none => return none
    | some (sbuf, allRead, arrays) =>
        let (sct, bnd) := resolveContentType r.contentType
        if sct = urlEncoded then do
          let cells ← readUnlessNull sbuf arrays
          let ch ← inside (cString cells)
          let (env_, values) ← decodeStored mem.uninit ch allocated.values
          let arrays ← deleteUnlessNullStored sbuf arrays
          return some ({ e with env_ }, ⟨arrays, values⟩)
        else if sct = multipart then
          return some ({ e with formData := sbuf, formDataLength := allRead, boundary := bnd },
            { allocated with arrays })
        else do
          let arrays ← deleteUnlessNullStored sbuf arrays
          return some (e, { allocated with arrays })
  else
    match r.args with
    | some args => do
        let (env_, values) ← decodeStored mem.uninit args allocated.values
        return some ({ e with env_ }, { allocated with values })
    | none => return some (e, allocated)

/-- Requests one after the other; their destructors delete nothing. -/
def serveStored : List (Storage × Request) → Allocated →
    Except HeapFault (Option (List StoredEnv × Allocated))
  | [], allocated => return some ([], allocated)
  | (mem, r) :: requests, allocated => do
      match ← constructStored mem r allocated with
      | none => return none
      | some (e, allocated) =>
          let out ← serveStored requests allocated
          return out.map fun p => (e :: p.1, p.2)

/-! ### What the body leaves in the arrays -/

/-- The old array is copied and deleted, and the new one is left. -/
theorem copyOld_followed (start : Heap Block) (k : ℕ) (old : Buffer) (allRead : ℤ) (tmp : Block) :
    Follows
      (fun tmp' arrays =>
        arrays = start.extend (List.replicate (k + old.toList.length) none ++ [some tmp']))
      (copyOld old allRead tmp)
      (copyOldStored (old.map fun _ => start.size + k) allRead
        (start.size + (k + old.toList.length))
        (start.extend (List.replicate k none ++ old.toList.map some ++ [some tmp]))) := by
  cases old with
  | none =>
    rw [Option.toList_none, List.map_nil, List.append_nil]
    exact rfl
  | some old =>
    have hread := Heap.read_at start (List.replicate k none) [some tmp] old
    rw [List.length_replicate] at hread
    have hlength : (List.replicate k none ++ [some old] : List (Option Block)).length = k + 1 := by
      simp
    have hupdate (cells : Block) := Heap.follows_update start (fun tmp => Memory.put tmp 0 cells)
      (List.replicate k none ++ [some old]) [] tmp
    rw [hlength] at hupdate
    rw [Option.map_some, Option.toList_some, List.length_singleton, List.map_singleton,
      List.append_assoc, List.singleton_append]
    simp only [copyOld, copyOldStored]
    rw [hread, ok_bind]
    refine Follows.step _ fun cells => ?_
    rw [← bind_pure (Memory.put tmp 0 cells)]
    rw [List.append_assoc, List.singleton_append] at hupdate
    refine (hupdate cells).bind fun tmp' arrays harrays => ?_
    have hdelete := Heap.delete_at start (List.replicate k none) [some tmp'] old
    rw [List.length_replicate] at hdelete
    rw [harrays, List.append_assoc, List.singleton_append, hdelete]
    show start.extend _ = start.extend _
    rw [List.replicate_succ', List.append_assoc, List.singleton_append]

/-- The variables of the loop, and no array but the one that `sbuf` points to. -/
structure StoredBody.Shows (start : Heap Block) (st : Unsized) (st' : StoredBody) : Prop where
  buf : st'.buf = st.buf
  allRead : st'.allRead = st.allRead
  holds : start.Holds st.sbuf st'.sbuf st'.arrays

/-- **An iteration leaves one array**, the new one. -/
theorem StoredBody.Shows.step {start : Heap Block} {st : Unsized} {st' : StoredBody}
    (h : StoredBody.Shows start st st') (res : ClientBlock) :
    Follows (StoredBody.Shows start) (st.step res) (st'.step res) := by
  obtain ⟨buf, sbuf, allRead, arrays⟩ := st'
  obtain ⟨hbuf, hallRead, k, hsbuf, harrays⟩ := h
  dsimp only at hbuf hallRead hsbuf harrays
  subst hbuf hallRead hsbuf harrays
  rw [Unsized.step, StoredBody.step]
  refine Follows.step _ fun buf => Follows.step _ fun tmp => ?_
  rw [Heap.new_extend, List.length_append, List.length_replicate, List.length_map]
  dsimp only
  refine (copyOld_followed start k st.sbuf st.allRead tmp).bind fun tmp arrays harrays => ?_
  subst harrays
  refine Follows.step _ fun new => ?_
  -- the rest goes to the new array, which is the last one
  have hupdate (f : Block → Except Fault Block) (tmp : Block) :=
    Heap.follows_update start f (List.replicate (k + st.sbuf.toList.length) none) [] tmp
  rw [List.length_replicate] at hupdate
  refine (hupdate (Memory.put · st.allRead new) tmp).bind fun tmp arrays harrays => ?_
  subst harrays
  refine (hupdate (Memory.put · (toInt (st.allRead + toSizeT res.ret)) [some 0]) tmp).bind
    fun tmp arrays harrays => ?_
  exact ⟨rfl, rfl, k + st.sbuf.toList.length, rfl, harrays⟩

theorem readUnsized_followed {start : Heap Block} : ∀ (results : List ClientBlock) {st : Unsized}
    {st' : StoredBody}, StoredBody.Shows start st st' →
    Follows (Option.Rel fun out st' => StoredBody.Shows start out.1 st') (readUnsized results st)
      (readUnsizedStored results st') := by
  intro results
  induction results with
  | nil => intro st st' _; exact .none
  | cons res results ih =>
    intro st st' h
    rw [readUnsized, readUnsizedStored]
    split_ifs
    · exact (h.step res).bind fun _ _ hnext => ih hnext
    · exact .some h

/-- What httpd stores, it stores in the array. -/
theorem receive_followed (start : Heap Block) (res : ClientBlock) (st : Sized) :
    Follows (fun st' arrays => st'.allRead = st.allRead ∧ arrays = start.extend [some st'.sbuf])
      (st.receive res)
      (receiveStored res start.size st.allRead (start.extend [some st.sbuf])) := by
  rw [Sized.receive, receiveStored]
  split_ifs
  · exact ⟨rfl, rfl⟩
  · have hupdate := Heap.follows_update start
      (fun cells => Memory.put cells st.allRead (res.bytes.map some)) [] [] st.sbuf
    rw [← bind_pure (Heap.update _ _ _)]
    exact hupdate.bind fun _ _ harrays => ⟨rfl, harrays⟩

theorem readBlocks_followed (start : Heap Block) : ∀ (results : List ClientBlock) (st : Sized),
    Follows (Option.Rel fun out out' => out'.1 = out.1.allRead ∧
        out'.2 = start.extend [some out.1.sbuf]) (readBlocks results st)
      (readBlocksStored start.size results st.allRead (start.extend [some st.sbuf])) := by
  intro results
  induction results with
  | nil => intro st; exact .none
  | cons res results ih =>
    intro st
    rw [readBlocks, readBlocksStored]
    refine (receive_followed start res st).bind fun st' arrays h => ?_
    obtain ⟨hallRead, rfl⟩ := h
    rw [← hallRead]
    split_ifs
    · exact ih { st' with allRead := toInt (st'.allRead + toSizeT res.ret) }
    · exact .some ⟨rfl, rfl⟩

theorem readSized_followed (start : Heap Block) (contentLength : Str) (results : List ClientBlock) :
    Follows (Option.Rel fun out out' => out'.2.1 = out.1.allRead ∧
        start.Holds (some out.1.sbuf) (some out'.1) out'.2.2)
      (readSized contentLength results) (readSizedStored contentLength results start) := by
  rw [readSized, readSizedStored]
  refine Follows.step _ fun cells => ?_
  refine (readBlocks_followed start results { sbuf := cells, allRead := 0, stores := [] }).bind
    fun out out' h => ?_
  cases h with
  | none => exact .none
  | @some out out' h =>
    obtain ⟨st, rest⟩ := out
    obtain ⟨allRead, arrays⟩ := out'
    obtain ⟨rfl, rfl⟩ := h
    have hupdate := Heap.follows_update start (Memory.put · st.allRead [some 0]) [] [] st.sbuf
    exact hupdate.bind fun sbuf arrays harrays => .some ⟨rfl, 0, rfl, harrays⟩

/-- **The body is read alike**, and only its array is left. -/
theorem readBody_followed (start : Heap Block) (contentLength : Option CStr)
    (results : List ClientBlock) :
    Follows (Option.Rel fun out out' => out'.2.1 = out.2 ∧ start.Holds out.1 out'.1 out'.2.2)
      (readBody contentLength results) (readBodyStored contentLength results start) := by
  cases contentLength with
  | none =>
    have hstart : StoredBody.Shows start Unsized.start
        { buf := Unsized.start.buf, sbuf := none, allRead := 0, arrays := start } :=
      ⟨rfl, rfl, Heap.holds_start start⟩
    refine (readUnsized_followed results hstart).bind fun out out' h => ?_
    cases h with
    | none => exact .none
    | some h => exact .some ⟨h.allRead, h.holds⟩
  | some contentLength =>
    refine (readSized_followed start contentLength.val results).bind fun out out' h => ?_
    cases h with
    | none => exact .none
    | some h => exact .some h

/-! ### What a form leaves in the entries -/

/-- The parser with the entries made from an address on. -/
def Parse.placed (n : ℕ) (p : Parse) : StoredParse where
  pStr := p.pStr
  pEnv := p.pEnv.map (n + ·)
  env_ := List.range' n p.env_.length

/-- The entries of a table, behind those that were there. -/
def withTable (start : Heap EnvValue) (env_ : List EnvValue) : Heap EnvValue :=
  start.extend (env_.map some)

/-- **The search goes through the pointers** as the search in the table goes. -/
theorem searchStored_eq (start : Heap EnvValue) (key : Str) : ∀ (later earlier : List EnvValue),
    searchStored (withTable start (earlier ++ later))
        (List.range' (start.size + earlier.length) later.length) key
      = .ok ((search later key).map (start.size + earlier.length + ·)) := by
  intro later
  induction later with
  | nil => intro earlier; rfl
  | cons e later ih =>
    intro earlier
    have hread := Heap.read_at start (earlier.map some) (later.map some) e
    have hnext := ih (earlier ++ [e])
    rw [List.length_map] at hread
    rw [List.append_assoc, List.singleton_append, List.length_append, List.length_singleton,
      ← Nat.add_assoc] at hnext
    rw [List.length_cons, List.range'_succ, searchStored, withTable, List.map_append, List.map_cons,
      hread, ok_bind, search, Multimap.find, List.findIdx?_cons]
    by_cases hkey : e.key = key
    · simp [hkey, pure, Except.pure]
    · rw [withTable, List.map_append, List.map_cons] at hnext
      rw [if_neg hkey, hnext]
      simp [hkey, search, Multimap.find, Option.map_map, Function.comp_def, Nat.add_assoc,
        Nat.add_comm 1]

/-- A value is added to the entry in its place. -/
theorem addValueStored_eq (start : Heap EnvValue) (value : Str) {env_ : List EnvValue} {i : ℕ}
    (hi : i < env_.length) :
    addValueStored (start.size + i) value (withTable start env_)
      = .ok (withTable start (addValue env_ i value)) := by
  have hsplit : env_.take i ++ env_[i] :: env_.drop (i + 1) = env_ := by simp
  have hlength : ((env_.take i).map some).length = i := by simp; omega
  have hupdate := Heap.follows_update start
    (fun e : EnvValue => .ok { e with vals := e.vals ++ [value] }) ((env_.take i).map some)
    ((env_.drop (i + 1)).map some) env_[i]
  rw [hlength, ← List.map_cons, ← List.map_append, hsplit] at hupdate
  obtain ⟨values, hvalues, rfl⟩ := hupdate.of_ok
  rw [addValueStored, withTable, hvalues, addValue, Multimap.addAt,
    List.modify_eq_take_cons_drop hi, withTable, List.map_append, List.map_cons]

section

variable (start : Heap EnvValue) {p : Parse}

theorem placed_endKey (p : Parse) :
    (p.placed start.size).endKey (withTable start p.env_)
      = .ok (p.endKey.placed start.size, withTable start p.endKey.env_) := by
  rcases eq_or_ne p.pStr [] with hp | hp
  · rw [Parse.endKey_of_nil hp]
    exact if_pos hp
  · have hsearch := searchStored_eq start p.pStr p.env_ []
    rw [List.nil_append, List.length_nil, Nat.add_zero] at hsearch
    have hstored : (p.placed start.size).pStr ≠ [] := hp
    rw [StoredParse.endKey, Parse.endKey, if_neg hstored, if_neg hp]
    simp only [Parse.placed]
    rw [hsearch, ok_bind]
    cases search p.env_ p.pStr with
    | some i => rfl
    | none =>
      simp only [Option.map_none, withTable, Heap.new_extend, List.length_map]
      simp [pure, Except.pure, List.range'_concat]

theorem placed_endValue (h : p.Valid) :
    (p.placed start.size).endValue (withTable start p.env_)
      = .ok (p.endValue.placed start.size, withTable start p.endValue.env_) := by
  rcases eq_or_ne p.pStr [] with hp | hp
  · rw [Parse.endValue_of_nil hp, StoredParse.endValue]
    split
    · exact if_pos hp
    · rfl
  · cases hi : p.pEnv with
    | none =>
      rw [Parse.endValue_of_none hi, StoredParse.endValue, Parse.placed, hi]
      rfl
    | some i =>
      rw [Parse.endValue_of_some hi hp, StoredParse.endValue, Parse.placed, hi, Option.map_some]
      dsimp only
      rw [if_neg hp, addValueStored_eq start p.pStr (h i hi), ok_bind]
      simp [pure, Except.pure, Parse.placed, addValue]

theorem placed_finish (h : p.Valid) :
    (p.placed start.size).finish (withTable start p.env_)
      = .ok (withTable start p.finish.env_) := by
  rw [StoredParse.finish, Parse.finish, Parse.placed]
  cases hi : p.pEnv with
  | none => rfl
  | some i =>
    rw [Option.map_some]
    dsimp only
    split_ifs
    · rfl
    · exact addValueStored_eq start p.pStr (h i hi)

/-- The variables of the loop, with the entries made from an address on. -/
def DecodeState.placed (st : DecodeState) : StoredDecode :=
  ⟨st.i, st.parse.placed start.size, withTable start st.parse.env_⟩

/-- **An iteration through the pointers** is an iteration on the table. -/
theorem decodeIterStored_eq (mem : Uninit) (ch : Str) {st : DecodeState} (h : st.parse.Valid) :
    decodeIterStored mem ch (st.placed start) = .ok ((decodeIter mem ch st).placed start) ∧
      (decodeIter mem ch st).parse.Valid := by
  rw [DecodeState.placed, decodeIterStored, decodeIter]
  dsimp only
  rcases eq_or_ne (byteAt mem ch st.i) 0 with hnul | hnul
  · rw [if_pos hnul, if_pos hnul]
    exact ⟨rfl, h⟩
  rw [if_neg hnul, if_neg hnul]
  rcases eq_or_ne (byteAt mem ch st.i) (byteOf '=') with hequals | hequals
  · rw [if_pos hequals, if_pos hequals, placed_endKey start st.parse]
    exact ⟨rfl, h.step .endKey⟩
  rw [if_neg hequals, if_neg hequals]
  rcases eq_or_ne (byteAt mem ch st.i) (byteOf '&') with hampersand | hampersand
  · rw [if_pos hampersand, if_pos hampersand, placed_endValue start h]
    exact ⟨rfl, h.step .endValue⟩
  rw [if_neg hampersand, if_neg hampersand]
  -- the other characters leave the table alone
  split_ifs
  · exact ⟨rfl, h⟩
  · exact ⟨rfl, h⟩
  · exact ⟨rfl, h⟩
  · exact ⟨rfl, h⟩

theorem decodeLoopStored_eq (mem : Uninit) (ch : Str) : ∀ (fuel : ℕ) {st : DecodeState},
    st.parse.Valid →
    decodeLoopStored mem ch fuel (st.placed start)
        = .ok ((decodeLoop mem ch fuel st).placed start) ∧
      (decodeLoop mem ch fuel st).parse.Valid := by
  intro fuel
  induction fuel with
  | zero => intro st h; exact ⟨rfl, h⟩
  | succ fuel ih =>
    intro st h
    obtain ⟨hiter, hvalid⟩ := decodeIterStored_eq start mem ch h
    rw [decodeLoopStored, decodeLoop]
    have hplaced : (st.placed start).i = st.i := rfl
    rw [hplaced]
    split_ifs
    · rw [hiter]
      exact ih hvalid
    · exact ⟨rfl, h⟩

/-- The end of the text makes no entry. -/
theorem length_finish (p : Parse) : p.finish.env_.length = p.env_.length := by
  rw [Parse.finish]
  split
  · split_ifs
    · rfl
    · exact Multimap.length_addAt _ _ _
  · rfl

/-- **Decoding through pointers never faults**: it makes the entries of the table, one
behind the other, and the vector is their addresses. -/
theorem decodeStored_eq (mem : Uninit) (ch : CStr) :
    decodeStored mem ch start
      = .ok (List.range' start.size (decode mem ch (Parse.start [])).parse.env_.length,
          withTable start (decode mem ch (Parse.start [])).parse.env_) := by
  have hstart : (⟨0, ⟨[], none, []⟩, start⟩ : StoredDecode)
      = DecodeState.placed start ⟨0, Parse.start [], []⟩ :=
    congrArg (StoredDecode.mk 0 ⟨[], none, []⟩) (Heap.extend_nil start).symm
  have hvalid : (⟨0, Parse.start [], []⟩ : DecodeState).parse.Valid := nofun
  obtain ⟨hloop, hlast⟩ := decodeLoopStored_eq start mem ch.val ch.val.length hvalid
  rw [decodeStored, hstart, hloop, ok_bind, DecodeState.placed, placed_finish start hlast, ok_bind]
  refine congrArg (fun env_ => Except.ok (env_, _)) ?_
  exact congrArg (List.range' start.size) (length_finish _).symm

end

/-! ### What a request leaves -/

/-- Every pointer of the stored request is good, and leads to what the request has. -/
structure StoredEnv.Shows (allocated : Allocated) (e : RequestEnv) (e' : StoredEnv) : Prop where
  isPost_ : e'.isPost_ = e.isPost_
  env_ : e'.env_.map allocated.values.get = e.env_.map some
  formData : e'.formData.map allocated.arrays.get = e.formData.map some
  formDataLength : e'.formDataLength = e.formDataLength
  boundary : e'.boundary = e.boundary

/-- What the constructor leaves: an entry for each of the table, and the array of form
data if it is kept. -/
structure Constructs (allocated : Allocated) (e : RequestEnv) (out : StoredEnv × Allocated) :
    Prop where
  shows : StoredEnv.Shows out.2 e out.1
  values : out.2.values = withTable allocated.values e.env_
  arrays : ∃ p, allocated.arrays.Holds e.formData p out.2.arrays

/-- After `if ( sbuf ) delete sbuf` no array is left. -/
theorem deleteUnlessNull_holds {start arrays : Heap Block} {sbuf : Buffer} {p : Option ℕ}
    (h : start.Holds sbuf p arrays) :
    ∃ arrays', deleteUnlessNullStored p arrays = .ok arrays' ∧ start.Holds none none arrays' := by
  cases sbuf with
  | none =>
    obtain ⟨k, rfl, harrays⟩ := h
    exact ⟨arrays, rfl, k, rfl, harrays⟩
  | some cells =>
    obtain ⟨p, rfl⟩ := h.exists_eq_some
    exact h.delete

theorem readUnlessNull_holds {start arrays : Heap Block} {sbuf : Buffer} {p : Option ℕ}
    (h : start.Holds sbuf p arrays) : readUnlessNull p arrays = .ok sbuf := by
  cases sbuf with
  | none =>
    obtain ⟨k, rfl, -⟩ := h
    rfl
  | some cells =>
    obtain ⟨p, rfl⟩ := h.exists_eq_some
    rw [readUnlessNull, h.read, ok_bind]
    rfl

/-- **The constructor does with pointers what it does without.** -/
theorem construct_followed (mem : Storage) (r : Request) (allocated : Allocated) :
    Follows (Option.Rel (Constructs allocated)) (construct mem r)
      (constructStored mem r allocated) := by
  have hnone : allocated.values = withTable allocated.values [] := (Heap.extend_nil _).symm
  rw [construct, Request.use, constructStored]
  by_cases hr : r.hasBody
  · rw [if_pos hr, if_pos hr, bind_assoc]
    refine (readBody_followed allocated.arrays r.contentLength r.body).bind fun out out' h => ?_
    cases h with
    | none => exact .none
    | @some out out' h =>
      obtain ⟨sbuf, allRead⟩ := out
      obtain ⟨p, allRead', arrays⟩ := out'
      obtain ⟨rfl, hholds⟩ := h
      dsimp only at hholds
      obtain ⟨arrays', hdelete, hgone⟩ := deleteUnlessNull_holds hholds
      simp only [pure_bind, Option.map_some, selectUse]
      by_cases hform : (resolveContentType r.contentType).1 = urlEncoded
      · -- the array outlives the decoding, and is deleted after it
        simp only [if_pos hform, Use.apply]
        rw [readUnlessNull_holds hholds, ok_bind, bind_assoc]
        refine Follows.step _ fun ch => ?_
        rw [decodeStored_eq, ok_bind]
        dsimp only
        rw [hdelete]
        exact .some ⟨⟨rfl, Heap.map_get_range _ _, rfl, rfl, rfl⟩, rfl, none, hgone⟩
      · simp only [if_neg hform]
        by_cases hdata : (resolveContentType r.contentType).1 = multipart
        · -- the array stays, and `formData` points to it
          simp only [if_pos hdata]
          exact .some ⟨⟨rfl, rfl, hholds.map_get, rfl, rfl⟩, hnone, p, hholds⟩
        · simp only [if_neg hdata]
          rw [hdelete]
          exact .some ⟨⟨rfl, rfl, rfl, rfl, rfl⟩, hnone, none, hgone⟩
  · rw [if_neg hr, if_neg hr]
    have harrays := Heap.holds_start allocated.arrays
    cases hargs : r.args with
    | some args =>
      simp only [pure_bind, Use.apply, cString_ofCStr, ok_bind]
      rw [decodeStored_eq]
      exact .some ⟨⟨rfl, Heap.map_get_range _ _, rfl, rfl, rfl⟩, rfl, none, harrays⟩
    | none => exact .some ⟨⟨rfl, rfl, rfl, rfl, rfl⟩, hnone, none, harrays⟩

/-! ### What requests leave -/

/-- The requests without pointers, one after the other. -/
def constructAll : List (Storage × Request) → Except Fault (Option (List RequestEnv))
  | [] => return some []
  | (mem, r) :: requests => do
      match ← construct mem r with
      | none => return none
      | some e =>
          let out ← constructAll requests
          return out.map (e :: ·)

/-- **The storage after requests**: what was there is there, every pointer of every
request is still good, and besides there are an entry for each of the tables and the
arrays of form data, and nothing else. -/
structure StorageAccounted (allocated : Allocated) (envs : List RequestEnv)
    (out : List StoredEnv × Allocated) : Prop where
  shows : List.Forall₂ (StoredEnv.Shows out.2) envs out.1
  values : out.2.values.objects = allocated.values.objects ++ envs.flatMap RequestEnv.env_
  arrays : out.2.arrays.objects
    = allocated.arrays.objects ++ envs.flatMap fun e => e.formData.toList
  oldValues : ∀ p e, allocated.values.get p = some e → out.2.values.get p = some e
  oldArrays : ∀ p cells, allocated.arrays.get p = some cells → out.2.arrays.get p = some cells

/-- What a heap shows, a heap that has all its objects shows as well. -/
theorem StoredEnv.Shows.mono {allocated allocated' : Allocated} {e : RequestEnv} {e' : StoredEnv}
    (h : StoredEnv.Shows allocated e e')
    (hvalues : ∀ p v, allocated.values.get p = some v → allocated'.values.get p = some v)
    (harrays : ∀ p cells, allocated.arrays.get p = some cells →
      allocated'.arrays.get p = some cells) :
    StoredEnv.Shows allocated' e e' where
  isPost_ := h.isPost_
  env_ := Heap.map_get_mono hvalues h.env_
  formData := by
    have hdata := h.formData
    rcases hcells : e.formData with _ | cells
    · rw [hcells, Option.map_none, Option.map_eq_none_iff] at hdata
      rw [hdata, Option.map_none, Option.map_none]
    · rw [hcells, Option.map_some, Option.map_eq_some_iff] at hdata
      obtain ⟨p, hp, hget⟩ := hdata
      rw [hp, Option.map_some, Option.map_some, harrays p cells hget]
  formDataLength := h.formDataLength
  boundary := h.boundary

/-- The run, from what each request leaves. -/
theorem serveStored_followed (requests : List (Storage × Request)) (allocated : Allocated) :
    Follows (Option.Rel (StorageAccounted allocated)) (constructAll requests)
      (serveStored requests allocated) := by
  induction requests generalizing allocated with
  | nil =>
    refine .some ⟨.nil, ?_, ?_, fun _ _ h => h, fun _ _ h => h⟩
    · exact (List.append_nil _).symm
    · exact (List.append_nil _).symm
  | cons request requests ih =>
    obtain ⟨mem, r⟩ := request
    rw [constructAll, serveStored]
    refine (construct_followed mem r allocated).bind fun e out h => ?_
    cases h with
    | none => exact .none
    | @some e out h =>
      obtain ⟨e', allocated'⟩ := out
      refine (ih allocated').bind fun envs outs hs => ?_
      cases hs with
      | none => exact .none
      | @some envs outs hs =>
        obtain ⟨hshows, hvalues, p, harrays⟩ := h
        dsimp only at hshows hvalues harrays
        refine .some ⟨?_, ?_, ?_, ?_, ?_⟩
        · exact .cons (hshows.mono hs.oldValues hs.oldArrays) hs.shows
        · rw [hs.values, hvalues, withTable, Heap.objects_extend_some, List.flatMap_cons,
            List.append_assoc]
        · rw [hs.arrays, harrays.objects, List.flatMap_cons, List.append_assoc]
        · intro q v hv
          refine hs.oldValues q v ?_
          rw [hvalues]
          exact Heap.get_extend_of_get _ hv _
        · intro q cells hcells
          exact hs.oldArrays q cells (harrays.get hcells)

/-- The requests on the heap against the requests without pointers. -/
structure RunsOnHeap (requests : List (Storage × Request)) (allocated : Allocated) : Prop where
  -- nothing is used, or deleted again, after it has been deleted
  neverDangling : ∀ p, serveStored requests allocated ≠ .error (.dangling p)
  faults : ∀ fault, serveStored requests allocated = .error (.inside fault) ↔
    constructAll requests = .error fault
  waits : serveStored requests allocated = .ok none ↔ constructAll requests = .ok none
  accounted : ∀ envs, constructAll requests = .ok (some envs) →
    ∃ out, serveStored requests allocated = .ok (some out) ∧ StorageAccounted allocated envs out

/-- **Any requests, on any heap**: the pointers change nothing, none dangles, and what is
left is accounted for. -/
theorem storage_accounted (requests : List (Storage × Request)) (allocated : Allocated) :
    RunsOnHeap requests allocated := by
  have hfollows := serveStored_followed requests allocated
  cases hplain : constructAll requests with
  | error fault =>
    rw [hplain] at hfollows
    have hstored := hfollows.of_error
    refine ⟨fun p h => ?_, fun fault' => ?_, ?_, fun envs h => ?_⟩
    · rw [hstored] at h
      exact absurd h nofun
    · rw [hstored, hplain]
      constructor
      · rintro ⟨⟩
        rfl
      · rintro ⟨⟩
        rfl
    · rw [hstored, hplain]
      exact ⟨nofun, nofun⟩
    · rw [hplain] at h
      exact absurd h nofun
  | ok envs =>
    rw [hplain] at hfollows
    obtain ⟨out, hstored, hrel⟩ := hfollows.of_ok
    refine ⟨fun p h => ?_, fun fault => ?_, ?_, fun envs' h => ?_⟩
    · rw [hstored] at h
      exact absurd h nofun
    · rw [hstored, hplain]
      exact ⟨nofun, nofun⟩
    · rw [hstored, hplain]
      cases hrel with
      | none => exact ⟨fun _ => rfl, fun _ => rfl⟩
      | some hrel => exact ⟨nofun, nofun⟩
    · rw [hplain] at h
      obtain rfl := Except.ok.inj h
      cases hrel with
      | some hrel => exact ⟨_, hstored, hrel⟩

/-! ### Forms -/

/-- A request that carries a form keeps no form data. -/
theorem formData_of_carries {pairs : List (Str × Str)} {r : Request} (h : Carries pairs r)
    {mem : Storage} {e : RequestEnv} (he : construct mem r = .ok (some e)) : e.formData = none := by
  obtain ⟨ch, huse⟩ : ∃ ch, r.use = .ok (some (.decodes ch)) := by
    cases h with
    | args hr hargs => exact ⟨_, use_of_args hr hargs⟩
    | body hr htype hdelivers hfits =>
      obtain ⟨sbuf, huse, -⟩ := use_of_fits hr hdelivers hfits
      refine ⟨sbuf, huse.trans ?_⟩
      rw [selectUse]
      dsimp only
      rw [if_pos (resolveContentType_eq_urlEncoded.mpr htype)]
  rw [construct_of_use huse, Use.apply] at he
  rcases hch : cString ch with fault | s
  · rw [hch] at he
    cases he
  · rw [hch] at he
    injection he with he
    injection he with he
    exact he ▸ rfl

/-- A request with the storage it is built in, and the pairs of the form it carries. -/
structure FormRequest where
  mem : Storage
  r : Request
  pairs : List (Str × Str)
  carries : Carries pairs r
  nonempty : ∀ p ∈ pairs, p.1 ≠ [] ∧ p.2 ≠ []

/-- `strtol` reads the two bytes of every escape of the requests and no more. -/
def AllReadTwo (requests : List FormRequest) : Prop := ∀ q ∈ requests, q.mem.uninit.ReadsTwo

theorem constructAll_forms (requests : List FormRequest) (hmem : AllReadTwo requests) :
    ∃ envs, constructAll (requests.map fun q => (q.mem, q.r)) = .ok (some envs) ∧
      envs.map RequestEnv.env_ = requests.map (fun q => Multimap.grouped q.pairs) ∧
      ∀ e ∈ envs, e.formData = none := by
  induction requests with
  | nil => exact ⟨[], rfl, rfl, nofun⟩
  | cons q requests ih =>
    obtain ⟨hq, hrest⟩ := List.forall_mem_cons.mp hmem
    obtain ⟨e, he, henv⟩ := q.carries.construct q.nonempty hq
    obtain ⟨envs, henvs, htables, hdata⟩ := ih hrest
    refine ⟨e :: envs, ?_, ?_, ?_⟩
    · rw [List.map_cons, constructAll, he, ok_bind]
      dsimp only
      rw [henvs]
      rfl
    · rw [List.map_cons, List.map_cons, henv, htables]
    · exact List.forall_mem_cons.mpr ⟨formData_of_carries q.carries he, hdata⟩

/-- A form in a URL. -/
def urlForm : FormRequest where
  mem := ⟨false, ⟨fun _ => 255, fun _ => []⟩⟩
  r := ⟨0, some (cStr (literal "a=b")), [], []⟩
  pairs := [(literal "a", literal "b")]
  carries :=
    have ha : Literal (byteOf 'a') := by unfold Literal; decide
    have hb : Literal (byteOf 'b') := by unfold Literal; decide
    .args rfl rfl (.singleton (.mk (.cons (.literal ha) .nil) (.cons (.literal hb) .nil)))
  nonempty := by decide

end ModCplusplus
