import ModCplusplus.RequestEnv
import ModCplusplus.Variables

/-!
# The filters that come as examples

Two filters come with the module.  One puts into lower case, in the buckets read from a
connection, every byte that a server variable's value starts at; the other reverses the
bytes of each bucket that is sent for a request.

Both work bucket by bucket, up to the first EOS.  The first searches for the value with
`strncmp`, which knows nothing of the end of the bucket, and writes into a copy that ends
at the first NUL byte; both are safe for some data only.  The second ignores the status
of its reads.

Of APR this is used: a bucket that is split when it is read counts as its parts, and a
bucket without data is read as no bytes.  What a read that fails leaves in `data` and
`len` is part of the bucket here, and may be anything: the first filter copies it before
it looks at the status, and the second sends it on.

The first filter counts bytes by an `unsigned int`, which never gets to `2 ^ 32`.

## Main definitions

* `Bucket`, `strncmp`, `aprPstrndup`, `heapBucket` — APR's side.
* `TestInputFilter`, `TestInputFilter.connectionInputFilter` — the first filter.
* `TestOutputFilter.requestOutputFilter`, `passBrigade` — the second, and chains of it.
* `Searchable`, `lowered`, `turned` — what data the first can take, and what they make.
* `IsCut` — a stream cut into buckets and brigades.

## Main results

* `lowered_exactly` — when the first filter is safe, and what it makes of the data.
* `safe_however_cut` — when it is safe for every cut of a stream.
* `turned_by_parity` — what a chain of the second makes of a brigade.
-/

namespace ModCplusplus

/-! ### Buckets -/

/-- A bucket of a brigade. -/
inductive Bucket where
  | eos
  | flush
  | data (bytes : Str)
  -- reading it fails with the status `ret`, and leaves `left` and `len` behind
  | broken (ret : ℤ) (left : Option Str) (len : ℕ) (fails : ret ≠ 0)
  deriving DecidableEq

/-- `apr_bucket_read`: the status, what `data` holds afterwards, and the length.  A pointer
is NULL or leads to the bytes that can be read there, which are none if it leads nowhere. -/
def Bucket.read : Bucket → ℤ × Option Str × ℕ
  | eos | flush => (0, none, 0)
  | data bytes => (0, some bytes, bytes.length)
  | broken ret left len _ => (ret, left, len)

/-- `data[ i ]`. -/
def dataAt (data : Option Str) (i : ℕ) : Except Fault UInt8 :=
  match data with
  | none => .error .nullDeref
  | some bytes =>
      match bytes[i]? with
      | none => .error (.outOfBounds i)
      | some c => .ok c

/-- `strncmp( &data[ i ], s, strlen( s ) )`: the difference of the first bytes that
differ, if any do. -/
def strncmp (data : Option Str) : ℕ → Str → Except Fault ℤ
  | _, [] => .ok 0
  | i, d :: s => do
      let c ← dataAt data i
      if c = d then strncmp data (i + 1) s else .ok (c.toNat - d.toNat)

/-- `apr_pstrndup`: NULL for NULL, and else a copy of the bytes before the first NUL among
the first `len`, and a NUL. -/
def aprPstrndup (data : Option Str) (len : ℕ) : Except Fault (List (Option UInt8)) :=
  match data with
  | none => .ok []
  | some bytes =>
      -- the search for the NUL runs out of the bytes
      if bytes.length < len ∧ (0 : UInt8) ∉ bytes then .error (.outOfBounds bytes.length)
      else .ok ((cStrOf (bytes.take len)).map some ++ [some 0])

/-- `apr_bucket_heap_create` and `apr_bucket_pool_create`: a bucket of the first `len`
bytes of a buffer. -/
def heapBucket (buf : List (Option UInt8)) (len : ℕ) : Except Fault Bucket := do
  let cells ← Memory.fetch buf len
  return .data cells.reduceOption

/-- The loop over the bytes of a bucket, which stores `byte n` at the index `n` of a
buffer, and the bucket made of it. -/
def computeBucket (byte : ℕ → Except Fault UInt8) (len : ℕ) (buf : List (Option UInt8)) :
    Except Fault Bucket := do
  let buf ← Memory.store byte len 0 buf
  heapBucket buf len

/-! ### The input filter -/

/-- A `TestInputFilter`. -/
structure TestInputFilter where
  pszToLower : Option CStr
  deriving DecidableEq

namespace TestInputFilter

/-- The constructor. -/
def create (pServer : CppServerRec) : TestInputFilter where
  pszToLower := getServerVar pServer (some (cStr (literal "tolower")))

/-- What is stored for the byte `n` of a bucket. -/
def newByte (filter : TestInputFilter) (data : Option Str) (n : ℕ) : Except Fault UInt8 :=
  match filter.pszToLower with
  | none => .error .nullDeref
  | some s => do
      let diff ← strncmp data n s
      let c ← dataAt data n
      return if diff = 0 then toLower c else c

/-- The loop over the bytes of a bucket, counted by an `unsigned int`, and the bucket made
of them.  A count that cannot get to `len` starts again, for ever. -/
def forBytes (filter : TestInputFilter) (data : Option Str) (len : ℕ)
    (newBuf : List (Option UInt8)) : Except Fault (Option Bucket) :=
  if len < 2 ^ 32 then some <$> computeBucket (filter.newByte data) len newBuf
  else do
    let _ ← Memory.store (filter.newByte data) (2 ^ 32) 0 newBuf
    return none

/-- The loop over the buckets that have been read: the status, and the brigade `bb`. -/
def whileNotEmpty (filter : TestInputFilter) :
    List Bucket → List Bucket → Except Fault (Option (ℤ × List Bucket))
  | [], bb => return some (0, bb)
  | .eos :: _, bb => return some (0, bb ++ [.eos])
  | inputBucket :: rest, bb => do
      let (ret, data, len) := inputBucket.read
      let newBuf ← aprPstrndup data len
      if ret ≠ 0 then return some (ret, bb)
      else
        match ← filter.forBytes data len newBuf with
        | none => return none
        | some outputBucket => whileNotEmpty filter rest (bb ++ [outputBucket])

/-- `TestInputFilter::connection_input_filter`, where `ap_get_brigade` returns `ret` and
fills `inputBrigade`; it may not return. -/
def connectionInputFilter (filter : TestInputFilter) (ret : ℤ) (inputBrigade bb : List Bucket) :
    Except Fault (Option (ℤ × List Bucket)) :=
  if ret ≠ 0 then .ok (some (ret, bb)) else filter.whileNotEmpty inputBrigade bb

end TestInputFilter

/-! ### The output filter -/

namespace TestOutputFilter

/-- The loop over the buckets of a brigade. -/
def forEach : List Bucket → List Bucket → Except Fault (List Bucket)
  | [], newBrigade => .ok newBrigade
  | .eos :: _, newBrigade => .ok (newBrigade ++ [.eos])
  | inputBucket :: rest, newBrigade => do
      -- the status is not looked at
      let (_, data, len) := inputBucket.read
      let buf := List.replicate len (some 0)
      let newBucket ← computeBucket (fun n => dataAt data (len - n - 1)) len buf
      forEach rest (newBrigade ++ [newBucket])

/-- `TestOutputFilter::request_output_filter`; `next` passes a brigade to `f->next`. -/
def requestOutputFilter (next : List Bucket → Except Fault ℤ) (bb : List Bucket) :
    Except Fault ℤ := do
  let newBrigade ← forEach bb []
  next newBrigade

/-- `TestOutputFilter::connection_output_filter`. -/
def connectionOutputFilter (next : List Bucket → Except Fault ℤ) (bb : List Bucket) :
    Except Fault ℤ := next bb

end TestOutputFilter

/-- `ap_pass_brigade`, through a chain of filters that are all `TestOutputFilter`s; behind
them is `sink`. -/
def passBrigade (sink : List Bucket → Except Fault ℤ) : List ApFilter → List Bucket →
    Except Fault ℤ
  | [], bb => sink bb
  | f :: next, bb => cppCallOutputFilter (fun method _ =>
      match method with
      | .requestFilter => TestOutputFilter.requestOutputFilter (passBrigade sink next) bb
      | .connectionFilter => TestOutputFilter.connectionOutputFilter (passBrigade sink next) bb) f

/-! ### One bucket -/

/-- **What a loop over the bytes makes**: it gets through if all bytes can be computed
and the buffer has room for them, and only then. -/
theorem computeBucket_eq_ok_iff {byte : ℕ → Except Fault UInt8} {len : ℕ}
    {buf : List (Option UInt8)} {b : Bucket} :
    computeBucket byte len buf = .ok b ↔
      ∃ vs : Str, vs.length = len ∧ len ≤ buf.length ∧
        (∀ i (hi : i < vs.length), byte i = .ok vs[i]) ∧ b = .data vs := by
  have hcompute : ∀ vs : Str, vs.length ≤ buf.length →
      (∀ i (hi : i < vs.length), byte i = .ok vs[i]) →
      computeBucket byte vs.length buf = .ok (.data vs) := by
    intro vs hroom hbytes
    have hstore : Memory.store byte vs.length 0 buf
        = .ok (buf.take 0 ++ vs.map some ++ buf.drop (0 + vs.length)) :=
      Memory.store_of_ok (by simpa using hbytes) (by omega)
    rw [List.take_zero, List.nil_append, Nat.zero_add] at hstore
    have hfetch : Memory.fetch (vs.map some ++ buf.drop vs.length) vs.length
        = .ok (vs.map some) :=
      Memory.BeginsWith.fetch (List.prefix_append _ _)
    have hstored : (vs.map some).reduceOption = vs := by
      show (vs.map some).filterMap id = vs
      simp
    rw [computeBucket, hstore, ok_bind, heapBucket, hfetch, ok_bind, hstored]
    rfl
  constructor
  · intro h
    obtain ⟨buf', hstore, -⟩ := bind_eq_ok h
    have hcells := Memory.ok_of_store hstore
    simp only [Nat.zero_add] at hcells
    have hroom : len ≤ buf.length := by
      cases len with
      | zero => exact Nat.zero_le _
      | succ k => exact (hcells k (by omega)).2
    choose c hc using fun i : Fin len => (hcells i i.isLt).1
    have hlen : (List.ofFn c).length = len := List.length_ofFn
    have hbytes : ∀ i (hi : i < (List.ofFn c).length), byte i = .ok (List.ofFn c)[i] := by
      intro i hi
      rw [List.getElem_ofFn]
      exact hc ⟨i, by rwa [hlen] at hi⟩
    have hvs := hcompute (List.ofFn c) (by rwa [hlen]) hbytes
    rw [hlen, h] at hvs
    exact ⟨List.ofFn c, hlen, hroom, hbytes, Except.ok.inj hvs⟩
  · rintro ⟨vs, rfl, hroom, hbytes, rfl⟩
    exact hcompute vs hroom hbytes

theorem dataAt_of_lt {bytes : Str} {i : ℕ} (h : i < bytes.length) :
    dataAt (some bytes) i = .ok bytes[i] := by
  simp only [dataAt, List.getElem?_eq_getElem h]

theorem dataAt_of_le {bytes : Str} {i : ℕ} (h : bytes.length ≤ i) :
    dataAt (some bytes) i = .error (.outOfBounds i) := by
  simp only [dataAt, List.getElem?_eq_none h]

/-! ### The search for the value -/

/-- **`strncmp` stays inside the data** unless the data ends in the middle of the string. -/
theorem strncmp_eq_ok_iff {bytes : Str} {s : Str} : ∀ {i : ℕ},
    (∃ diff, strncmp (some bytes) i s = .ok diff) ↔
      (bytes.drop i <+: s → bytes.drop i = s) := by
  induction s with
  | nil =>
    intro i
    exact iff_of_true ⟨0, rfl⟩ List.prefix_nil.mp
  | cons d s ih =>
    intro i
    rcases Nat.lt_or_ge i bytes.length with hi | hi
    · rw [strncmp, dataAt_of_lt hi, ok_bind, List.drop_eq_getElem_cons hi]
      by_cases hd : bytes[i] = d
      · rw [if_pos hd, ih, hd]
        simp
      · rw [if_neg hd]
        exact iff_of_true ⟨_, rfl⟩ fun h => absurd (List.cons_prefix_cons.mp h).1 hd
    · rw [List.drop_eq_nil_of_le hi]
      refine iff_of_false ?_ (by simp)
      rintro ⟨diff, h⟩
      rw [strncmp, dataAt_of_le hi, error_bind] at h
      cases h

/-- **What `strncmp` finds out**: whether the string starts here. -/
theorem strncmp_eq_zero_iff {bytes : Str} {s : Str} : ∀ {i : ℕ} {diff : ℤ},
    strncmp (some bytes) i s = .ok diff → (diff = 0 ↔ s <+: bytes.drop i) := by
  induction s with
  | nil =>
    intro i diff h
    exact iff_of_true (Except.ok.inj h).symm (List.nil_prefix)
  | cons d s ih =>
    intro i diff h
    rw [strncmp] at h
    obtain ⟨c, hc, h⟩ := bind_eq_ok h
    rcases Nat.lt_or_ge i bytes.length with hi | hi
    · rw [dataAt_of_lt hi, Except.ok.injEq] at hc
      subst hc
      rw [List.drop_eq_getElem_cons hi, List.cons_prefix_cons]
      by_cases hd : bytes[i] = d
      · rw [if_pos hd] at h
        rw [ih h, hd]
        simp
      · rw [if_neg hd, Except.ok.injEq] at h
        subst h
        refine iff_of_false ?_ fun h => hd h.1.symm
        intro hzero
        exact hd (UInt8.toNat_inj.mp (by omega))
    · rw [dataAt_of_le hi] at hc
      cases hc

/-! ### The input filter on one bucket -/

/-- The bytes that a read finds in a bucket, or leaves behind. -/
def Bucket.bytes : Bucket → Str
  | data bytes => bytes
  | broken _ left len _ => (left.getD []).take len
  | _ => []

/-- A bucket that can be read. -/
def Bucket.readable : Bucket → Bool
  | flush | data _ => true
  | eos | broken .. => false

/-- No end of the data is a beginning of the value, short of all of it. -/
def Searchable (s bytes : Str) : Prop := ∀ i < bytes.length, bytes.drop i <+: s → bytes.drop i = s

instance (s bytes : Str) : Decidable (Searchable s bytes) :=
  inferInstanceAs (Decidable (∀ i < bytes.length, _))

example : ¬ Searchable (literal "Set") (literal "Cookie; S") := by decide

/-- The filter can take data: it can be counted and searched for the value, and no NUL byte
is in it except at its end. -/
def TestInputFilter.Takes (value : Option CStr) (bytes : Str) : Prop :=
  bytes.length < 2 ^ 32 ∧
    (bytes ≠ [] → (0 : UInt8) ∉ bytes.dropLast ∧ ∃ s ∈ value, Searchable s bytes)

/-- The bytes that the value starts at are put into lower case. -/
def lowered (value : Option CStr) (bytes : Str) : Str :=
  bytes.mapIdx fun i c => if ∃ s ∈ value, s.val <+: bytes.drop i then toLower c else c

/-- What a pointer leads to can be copied: as many bytes as the length says, or a NUL. -/
def CanCopy (data : Option Str) (len : ℕ) : Prop :=
  ∀ bytes ∈ data, bytes.length < len → (0 : UInt8) ∈ bytes

theorem aprPstrndup_eq_ok_iff {data : Option Str} {len : ℕ} :
    (∃ buf, aprPstrndup data len = .ok buf) ↔ CanCopy data len := by
  cases data with
  | none => exact iff_of_true ⟨[], rfl⟩ (by simp [CanCopy])
  | some bytes =>
    simp only [aprPstrndup, CanCopy, Option.mem_some_iff, forall_eq']
    split
    · next h => exact iff_of_false (by simp) fun hcan => h.2 (hcan h.1)
    · next h =>
      refine iff_of_true ⟨_, rfl⟩ fun hlt => ?_
      by_contra hnul
      exact h ⟨hlt, hnul⟩

/-- A copy of all of the data. -/
theorem aprPstrndup_length (bytes : Str) :
    aprPstrndup (some bytes) bytes.length = .ok ((cStrOf bytes).map some ++ [some 0]) := by
  rw [aprPstrndup, if_neg (by simp), List.take_length]

/-- The copy is as long as the data if only its last byte can be a NUL. -/
theorem length_le_copy_iff {bytes : Str} :
    bytes.length ≤ ((cStrOf bytes).map some ++ [some (0 : UInt8)]).length ↔
      (0 : UInt8) ∉ bytes.dropLast := by
  simp only [cStrOf, List.length_append, List.length_map, List.length_singleton]
  induction bytes with
  | nil => simp
  | cons c bytes ih =>
    by_cases hc : c = 0
    · cases bytes with
      | nil => simp
      | cons d bytes => simp [hc]
    · rw [List.takeWhile_cons_of_pos (by simpa using hc), List.length_cons, List.length_cons,
        Nat.add_le_add_iff_right, ih]
      cases bytes with
      | nil => simp
      | cons d bytes =>
        rw [List.dropLast_cons_of_ne_nil (List.cons_ne_nil d bytes), List.mem_cons]
        simp [Ne.symm hc]

/-- One byte. -/
theorem TestInputFilter.newByte_eq_ok_iff {filter : TestInputFilter} {bytes : Str} {i : ℕ}
    (hi : i < bytes.length) {c : UInt8} : filter.newByte (some bytes) i = .ok c ↔
      (∃ s ∈ filter.pszToLower, bytes.drop i <+: s.val → bytes.drop i = s) ∧
        (lowered filter.pszToLower bytes)[i]? = some c := by
  rw [lowered, List.getElem?_mapIdx, List.getElem?_eq_getElem hi, Option.map_some,
    Option.some.injEq]
  unfold newByte
  cases filter.pszToLower with
  | none => simp
  | some s =>
    simp only [Option.mem_some_iff, exists_eq_left']
    rw [← strncmp_eq_ok_iff]
    cases hdiff : strncmp (some bytes) i s.val with
    | error why => simp
    | ok diff =>
      have hzero := strncmp_eq_zero_iff hdiff
      simp only [ok_bind, dataAt_of_lt hi, hzero]
      constructor
      · intro h
        exact ⟨⟨diff, rfl⟩, Except.ok.inj h⟩
      · rintro ⟨-, rfl⟩
        rfl

/-- What the search leaves behind of a bucket. -/
def Bucket.lowered (value : Option CStr) (b : Bucket) : Bucket :=
  data (ModCplusplus.lowered value b.bytes)

/-- The loop over the bytes gets to its end if they can be counted. -/
theorem TestInputFilter.forBytes_eq_ok_iff {filter : TestInputFilter} {data : Option Str} {len : ℕ}
    {newBuf : List (Option UInt8)} {out : Bucket} :
    filter.forBytes data len newBuf = .ok (some out) ↔
      len < 2 ^ 32 ∧ computeBucket (filter.newByte data) len newBuf = .ok out := by
  unfold forBytes
  split
  · next hlen =>
    rw [and_iff_right hlen]
    cases computeBucket (filter.newByte data) len newBuf with
    | error why => exact iff_of_false nofun nofun
    | ok b => simp [Functor.map, Except.map]
  · next hlen =>
    refine iff_of_false (fun h => ?_) fun h => hlen h.1
    obtain ⟨-, -, h⟩ := bind_eq_ok h
    cases h

/-- One bucket. -/
theorem TestInputFilter.bucket_eq_ok_iff (filter : TestInputFilter) {b : Bucket}
    (hb : b.readable = true) {out : Bucket} :
    (∃ newBuf, aprPstrndup b.read.2.1 b.read.2.2 = .ok newBuf ∧
        filter.forBytes b.read.2.1 b.read.2.2 newBuf = .ok (some out)) ↔
      Takes filter.pszToLower b.bytes ∧ out = b.lowered filter.pszToLower := by
  simp only [forBytes_eq_ok_iff, ModCplusplus.computeBucket_eq_ok_iff]
  cases b with
  | eos => cases hb
  | broken ret left len fails => cases hb
  | flush =>
    simp only [Bucket.read, Bucket.bytes, Bucket.lowered, lowered, List.length_eq_zero_iff]
    constructor
    · rintro ⟨_, -, -, vs, rfl, -, -, rfl⟩
      exact ⟨⟨by decide, fun h => absurd rfl h⟩, rfl⟩
    · rintro ⟨-, rfl⟩
      exact ⟨[], rfl, by decide, [], rfl, Nat.zero_le _, fun i hi => by simp at hi, rfl⟩
  | data bytes =>
    simp only [Bucket.read, Bucket.bytes, Bucket.lowered, aprPstrndup_length, Except.ok.injEq,
      exists_eq_left', length_le_copy_iff]
    constructor
    · rintro ⟨hshort, vs, hlen, hnul, hbytes, rfl⟩
      have hbyte (i : ℕ) (hi : i < bytes.length) :=
        (newByte_eq_ok_iff hi).mp (hbytes i (by omega))
      refine ⟨⟨hshort, fun hne => ⟨hnul, ?_⟩⟩, ?_⟩
      · obtain ⟨⟨s, hs, -⟩, -⟩ := hbyte 0 (List.length_pos_iff.mpr hne)
        refine ⟨s, hs, fun i hi hpre => ?_⟩
        obtain ⟨⟨s', hs', hends⟩, -⟩ := hbyte i hi
        obtain rfl := Option.mem_unique hs hs'
        exact hends hpre
      · congr 1
        refine List.ext_getElem (by simpa [lowered] using hlen) fun i hi hi' => ?_
        exact (Option.some.inj ((List.getElem?_eq_getElem hi').symm.trans
          (hbyte i (by omega)).2)).symm
    · rintro ⟨⟨hshort, htakes⟩, rfl⟩
      refine ⟨hshort, lowered filter.pszToLower bytes, by simp [lowered], ?_, ?_, rfl⟩
      · by_cases hne : bytes = []
        · simp [hne]
        · exact (htakes hne).1
      · intro i hi
        have hi' : i < bytes.length := by simpa [lowered] using hi
        obtain ⟨-, s, hs, hsearch⟩ := htakes (List.ne_nil_of_length_pos (by omega))
        exact (newByte_eq_ok_iff hi').mpr ⟨⟨s, hs, hsearch i hi'⟩, List.getElem?_eq_getElem hi⟩

/-! ### The input filter on a brigade -/

/-- What is left of a failed read can be copied, if the first bucket cannot be read. -/
def CanStop : List Bucket → Prop
  | .broken _ left len _ :: _ => CanCopy left len
  | _ => True

/-- The status, and what is added to the brigade, when the first bucket that is left
cannot be read. -/
def stopped : List Bucket → ℤ × List Bucket
  | .eos :: _ => (0, [.eos])
  | .broken ret _ _ _ :: _ => (ret, [])
  | _ => (0, [])

theorem TestInputFilter.whileNotEmpty_cons (filter : TestInputFilter) {b : Bucket}
    (hb : b.readable = true) (inputBrigade bb : List Bucket) :
    filter.whileNotEmpty (b :: inputBrigade) bb
      = aprPstrndup b.read.2.1 b.read.2.2 >>= fun newBuf =>
          filter.forBytes b.read.2.1 b.read.2.2 newBuf >>= fun
            | none => pure none
            | some outputBucket => filter.whileNotEmpty inputBrigade (bb ++ [outputBucket]) := by
  cases b with
  | flush => rfl
  | data bytes => rfl
  | eos => cases hb
  | broken ret left len fails => cases hb

/-- **The loop over the buckets.** -/
theorem TestInputFilter.whileNotEmpty_eq_ok_iff (filter : TestInputFilter)
    {inputBrigade : List Bucket} : ∀ {bb : List Bucket} {out : ℤ × List Bucket},
      filter.whileNotEmpty inputBrigade bb = .ok (some out) ↔
        ((∀ b ∈ inputBrigade.takeWhile Bucket.readable, Takes filter.pszToLower b.bytes) ∧
          CanStop (inputBrigade.dropWhile Bucket.readable)) ∧
          out = ((stopped (inputBrigade.dropWhile Bucket.readable)).1,
            bb ++ (inputBrigade.takeWhile Bucket.readable).map (Bucket.lowered filter.pszToLower)
              ++ (stopped (inputBrigade.dropWhile Bucket.readable)).2) := by
  induction inputBrigade with
  | nil =>
    intro bb out
    simp [whileNotEmpty, stopped, CanStop, pure, Except.pure, eq_comm]
  | cons b inputBrigade ih =>
    intro bb out
    cases hb : b.readable with
    | true =>
      rw [whileNotEmpty_cons filter hb, List.takeWhile_cons_of_pos hb,
        List.dropWhile_cons_of_pos hb, List.forall_mem_cons, List.map_cons]
      constructor
      · intro h
        obtain ⟨newBuf, hcopy, h⟩ := bind_eq_ok h
        obtain ⟨outputBucket, hbytes, hrest⟩ := bind_eq_ok h
        cases outputBucket with
        | none => cases hrest
        | some outputBucket =>
          obtain ⟨htakes, rfl⟩ := (filter.bucket_eq_ok_iff hb).mp ⟨newBuf, hcopy, hbytes⟩
          obtain ⟨⟨hall, hstop⟩, rfl⟩ := ih.mp hrest
          exact ⟨⟨⟨htakes, hall⟩, hstop⟩, by simp⟩
      · rintro ⟨⟨⟨htakes, hall⟩, hstop⟩, rfl⟩
        obtain ⟨newBuf, hcopy, hbytes⟩ := (filter.bucket_eq_ok_iff hb).mpr ⟨htakes, rfl⟩
        rw [hcopy, ok_bind, hbytes, ok_bind]
        exact ih.mpr ⟨⟨hall, hstop⟩, by simp⟩
    | false =>
      cases b with
      | eos => simp [whileNotEmpty, stopped, CanStop, Bucket.readable, pure, Except.pure, eq_comm]
      | broken ret left len fails =>
        -- the copy is made before the status is looked at
        rw [List.takeWhile_cons_of_neg (by simp [Bucket.readable]),
          List.dropWhile_cons_of_neg (by simp [Bucket.readable])]
        simp only [whileNotEmpty, Bucket.read, stopped, CanStop, ← aprPstrndup_eq_ok_iff]
        cases aprPstrndup left len with
        | error why => simp
        | ok newBuf => simp [fails, pure, Except.pure, eq_comm]
      | flush => cases hb
      | data bytes => cases hb

theorem TestInputFilter.connectionInputFilter_eq_ok_iff (filter : TestInputFilter) (ret : ℤ)
    (inputBrigade bb : List Bucket) (out : ℤ × List Bucket) :
    filter.connectionInputFilter ret inputBrigade bb = .ok (some out) ↔
      (ret = 0 → (∀ b ∈ inputBrigade.takeWhile Bucket.readable,
          Takes filter.pszToLower b.bytes) ∧ CanStop (inputBrigade.dropWhile Bucket.readable)) ∧
        out = if ret ≠ 0 then (ret, bb) else
          ((stopped (inputBrigade.dropWhile Bucket.readable)).1,
            bb ++ (inputBrigade.takeWhile Bucket.readable).map (Bucket.lowered filter.pszToLower)
              ++ (stopped (inputBrigade.dropWhile Bucket.readable)).2) := by
  unfold connectionInputFilter
  by_cases hret : ret = 0
  · rw [if_neg (not_not_intro hret), if_neg (not_not_intro hret), whileNotEmpty_eq_ok_iff]
    simp [hret]
  · rw [if_pos hret, if_pos hret, Except.ok.injEq, Option.some.injEq]
    simp [hret, eq_comm]

theorem mem_dropLast_mono {α : Type} {x : α} {l l' : List α} (h : l <:+: l')
    (hx : x ∈ l.dropLast) : x ∈ l'.dropLast := by
  obtain ⟨front, back, rfl⟩ := h
  have hne : l ≠ [] := by
    rintro rfl
    cases hx
  cases back with
  | nil =>
    rw [List.append_nil, List.dropLast_append_of_ne_nil hne]
    exact List.mem_append_right _ hx
  | cons c back =>
    rw [List.dropLast_append_of_ne_nil (List.cons_ne_nil c back)]
    exact List.mem_append_left _ (List.mem_append_right _ (List.mem_of_mem_dropLast hx))

/-- The value has one byte at most, or its first byte is not in the data. -/
def FreeOf (s data : Str) : Prop := s.length ≤ 1 ∨ ∀ c ∈ s.head?, c ∉ data

instance (s data : Str) : Decidable (FreeOf s data) :=
  inferInstanceAs (Decidable (_ ∨ _))

theorem FreeOf.searchable {s data bytes : Str} (h : FreeOf s data) (hsub : bytes ⊆ data) :
    Searchable s bytes := by
  intro i hi hpre
  rw [List.drop_eq_getElem_cons hi] at hpre ⊢
  obtain ⟨rest, rfl⟩ := hpre
  rcases h with hlen | hfree
  · have : bytes.drop (i + 1) ++ rest = [] := by
      rw [List.cons_append, List.length_cons] at hlen
      exact List.length_eq_zero_iff.mp (by omega)
    obtain ⟨-, rfl⟩ := List.append_eq_nil_iff.mp this
    simp
  · exact absurd (hsub (List.getElem_mem hi)) (hfree _ rfl)

/-- A byte of a bucket of its own is searched for the value, which may go on. -/
theorem freeOf_of_searchable {s data : Str} (h : ∀ c ∈ data, Searchable s [c]) :
    FreeOf s data := by
  by_contra hfree
  rw [FreeOf, not_or, not_le] at hfree
  obtain ⟨hlen, hin⟩ := hfree
  push Not at hin
  obtain ⟨c, hc, hmem⟩ := hin
  obtain ⟨s', rfl⟩ := List.head?_eq_some_iff.mp hc
  have hends : [c] = c :: s' := h c hmem 0 (by simp) (by simp)
  rw [← hends] at hlen
  simp at hlen

/-- **Data that the value cannot be cut in** is changed byte by byte. -/
theorem FreeOf.lowered_eq {s : CStr} {data bytes : Str} (h : FreeOf s data)
    (hsub : bytes ⊆ data) :
    lowered (some s) bytes = bytes.map fun c => if s.val <+: [c] then toLower c else c := by
  refine List.ext_getElem (by simp [lowered]) fun i hi _ => ?_
  have hi' : i < bytes.length := by simpa [lowered] using hi
  simp only [lowered, List.getElem_mapIdx, List.getElem_map, Option.mem_some_iff, exists_eq_left']
  congr 1
  rw [List.drop_eq_getElem_cons hi', eq_iff_iff]
  rcases s with ⟨_ | ⟨d, s⟩, hs⟩
  · simp
  · rw [List.cons_prefix_cons, List.cons_prefix_cons]
    rcases h with hlen | hfree
    · have hnil : s = [] := List.length_eq_zero_iff.mp (by simpa using hlen)
      simp [hnil]
    · have hne : d ≠ bytes[i] := by
        rintro rfl
        exact hfree _ rfl (hsub (List.getElem_mem hi'))
      simp [hne]

theorem FreeOf.flatMap_lowered {s : CStr} {data : Str} (h : FreeOf s data) {cut : List Str}
    (hcut : cut.flatten = data) : cut.flatMap (lowered (some s)) = lowered (some s) data := by
  rw [h.lowered_eq (List.Subset.refl data), ← hcut, List.map_flatten, List.flatMap_def]
  congr 1
  refine List.map_congr_left fun bytes hbytes => ?_
  refine h.lowered_eq ?_
  rw [← hcut]
  exact fun c hc => List.mem_flatten.mpr ⟨bytes, hbytes, hc⟩

/-- A stream cut into brigades of buckets that can be counted. -/
structure IsCut (brigades : List (List Str)) (data : Str) : Prop where
  flatten : brigades.flatten.flatten = data
  short : ∀ bytes ∈ brigades.flatten, bytes.length < 2 ^ 32

theorem flatten_map_singleton (data : Str) : (data.map fun c => [c]).flatten = data := by
  rw [← List.flatMap_def, List.flatMap_singleton']

/-- The stream byte by byte. -/
theorem isCut_singletons (data : Str) : IsCut (data.map fun c => [[c]]) data where
  flatten := by
    rw [← List.flatMap_def, ← List.map_eq_flatMap, flatten_map_singleton]
  short := by
    intro bytes hbytes
    simp only [List.mem_flatten, List.mem_map] at hbytes
    obtain ⟨_, ⟨c, -, rfl⟩, hbytes⟩ := hbytes
    rw [List.mem_singleton.mp hbytes]
    exact (by decide : 1 < 2 ^ 32)

/-- Two bytes of the stream in one bucket, all others in their own. -/
theorem isCut_pair (front back : Str) (c d : UInt8) :
    IsCut [front.map fun c => [c], [[c, d]], back.map fun c => [c]] (front ++ c :: d :: back) where
  flatten := by
    simp only [List.flatten_cons, List.flatten_nil, List.append_nil, List.flatten_append,
      flatten_map_singleton]
    rfl
  short := by
    intro bytes hbytes
    simp only [List.flatten_cons, List.flatten_nil, List.append_nil, List.mem_append, List.mem_map,
      List.mem_singleton] at hbytes
    rcases hbytes with ⟨c, -, rfl⟩ | rfl | ⟨c, -, rfl⟩
    · exact (by decide : 1 < 2 ^ 32)
    · exact (by decide : 2 < 2 ^ 32)
    · exact (by decide : 1 < 2 ^ 32)

/-- A brigade of data. -/
theorem TestInputFilter.connectionInputFilter_data (filter : TestInputFilter)
    (chunks : List Str) (out : ℤ × List Bucket) :
    filter.connectionInputFilter 0 (chunks.map .data) [] = .ok (some out) ↔
      (∀ bytes ∈ chunks, Takes filter.pszToLower bytes) ∧
        out = (0, chunks.map fun bytes => .data (lowered filter.pszToLower bytes)) := by
  have hall : ∀ b ∈ chunks.map Bucket.data, b.readable = true := by
    simp [Bucket.readable]
  rw [connectionInputFilter_eq_ok_iff, List.takeWhile_eq_self_iff.mpr hall,
    List.dropWhile_eq_nil_iff.mpr hall]
  simp [stopped, CanStop, Bucket.bytes, Bucket.lowered, Function.comp_def]

/-- The filter can take a stream, whatever buckets it comes in: a value has been passed that
has one byte at most or does not start in the stream, and no NUL byte is in the stream
except at its end. -/
def TestInputFilter.TakesStream (value : Option CStr) (data : Str) : Prop :=
  data ≠ [] → (0 : UInt8) ∉ data.dropLast ∧ ∃ s ∈ value, FreeOf s.val data

/-- **A stream that is taken in all its cuts.**  Byte by byte, each byte is searched for the
value; and a NUL byte that is not the last one can stand in a bucket with the next. -/
theorem TestInputFilter.takesStream_of_cuts {value : Option CStr} {data : Str}
    (h : ∀ brigades, IsCut brigades data → ∀ brigade ∈ brigades, ∀ bytes ∈ brigade,
      Takes value bytes) : TakesStream value data := by
  intro hne
  have hsingle : ∀ c ∈ data, ∃ s ∈ value, Searchable s [c] := by
    intro c hc
    exact ((h _ (isCut_singletons data) [[c]] (List.mem_map_of_mem hc) [c]
      List.mem_cons_self).2 (by simp)).2
  obtain ⟨s, hs, -⟩ := hsingle (data.head hne) (List.head_mem hne)
  refine ⟨fun hnul => ?_, s, hs, freeOf_of_searchable fun c hc => ?_⟩
  · obtain ⟨front, back, hdrop⟩ := List.append_of_mem hnul
    have hdata : data = front ++ 0 :: (back ++ [data.getLast hne]) := by
      rw [← List.cons_append, ← List.append_assoc, ← hdrop, List.dropLast_append_getLast]
    obtain ⟨d, back', hback⟩ := List.exists_cons_of_ne_nil
      (show back ++ [data.getLast hne] ≠ [] by simp)
    rw [hback] at hdata
    rw [hdata] at h
    have htakes := h _ (isCut_pair front back' 0 d) [[0, d]] (by simp) [0, d] (by simp)
    exact absurd (htakes.2 (by simp)).1 (by simp)
  · obtain ⟨s', hs', hsearch⟩ := hsingle c hc
    obtain rfl := Option.mem_unique hs hs'
    exact hsearch

/-- **A stream that is taken in whatever buckets.** -/
theorem TestInputFilter.TakesStream.takes {value : Option CStr} {data : Str}
    (h : TakesStream value data) {brigades : List (List Str)} (hcut : IsCut brigades data) :
    ∀ brigade ∈ brigades, ∀ bytes ∈ brigade, Takes value bytes := by
  intro brigade hbrigade bytes hbytes
  have hmem : bytes ∈ brigades.flatten := List.mem_flatten.mpr ⟨brigade, hbrigade, hbytes⟩
  refine ⟨hcut.short bytes hmem, fun hne => ?_⟩
  have hinfix : bytes <:+: data := by
    rw [← hcut.flatten]
    exact List.infix_of_mem_flatten hmem
  obtain ⟨hnul, s, hs, hfree⟩ := h fun hnil => hne (List.infix_nil.mp (hnil ▸ hinfix))
  exact ⟨fun hin => hnul (mem_dropLast_mono hinfix hin), s, hs, hfree.searchable hinfix.subset⟩

/-- **And what is made of it does not depend on the buckets.** -/
theorem TestInputFilter.TakesStream.flatMap_lowered {value : Option CStr} {data : Str}
    (h : TakesStream value data) {brigades : List (List Str)} (hcut : IsCut brigades data) :
    brigades.flatten.flatMap (lowered value) = lowered value data := by
  by_cases hne : data = []
  · have hnil : ∀ bytes ∈ brigades.flatten, bytes = [] :=
      List.flatten_eq_nil_iff.mp (hcut.flatten.trans hne)
    rw [hne, List.flatMap_eq_nil_iff.mpr fun bytes hbytes => by rw [hnil bytes hbytes]; rfl]
    rfl
  · obtain ⟨-, s, hs, hfree⟩ := h hne
    rw [Option.mem_def.mp hs]
    exact hfree.flatMap_lowered hcut.flatten

/-- **The first byte of a longer value** in a bucket of its own is read past. -/
theorem TestInputFilter.reads_past {filter : TestInputFilter} {s : CStr} {c : UInt8}
    (hs : s ∈ filter.pszToLower) (hc : c ∈ s.val.head?) (hlen : 1 < s.val.length) :
    filter.connectionInputFilter 0 [.data [c]] [] = .error (.outOfBounds 1) := by
  obtain ⟨rest, hrest⟩ := List.head?_eq_some_iff.mp hc
  obtain ⟨d, rest', rfl⟩ := List.exists_cons_of_ne_nil
    (show rest ≠ [] by rintro rfl; simp [hrest] at hlen)
  have hdiff : strncmp (some [c]) 0 s.val = .error (.outOfBounds 1) := by
    rw [hrest, strncmp, dataAt_of_lt (by simp), ok_bind, if_pos (by simp), strncmp,
      dataAt_of_le (by simp), error_bind]
    rfl
  have hbyte : filter.newByte (some [c]) 0 = .error (.outOfBounds 1) := by
    unfold newByte
    rw [Option.mem_def.mp hs]
    simp only [hdiff, error_bind]
  have hbytes (newBuf : List (Option UInt8)) :
      filter.forBytes (some [c]) 1 newBuf = .error (.outOfBounds 1) := by
    rw [forBytes, if_pos (by decide), computeBucket, Memory.store, hbyte]
    rfl
  have hcopy : aprPstrndup (some [c]) 1 = .ok ((cStrOf [c]).map some ++ [some 0]) :=
    aprPstrndup_length [c]
  rw [connectionInputFilter, if_neg (by simp), whileNotEmpty_cons filter rfl]
  simp only [Bucket.read, List.length_singleton, hcopy, hbytes, ok_bind, error_bind]

/-- **The input filter and the network.**  After any directives the filter is safe for a
stream however it is cut into brigades of buckets shorter than `2 ^ 32` bytes, if and only
if the stream is empty or a value has been passed to the server, no NUL byte is in the
stream before its last, and the value has at most one byte or its first byte is not in the
stream.  In that case what is passed on does not depend on how the stream is cut.  And
with a longer value whose first byte is in the stream, some cut is read out of bounds. -/
theorem safe_however_cut (ds : List Directive) :
    ∃ messages cfg, configure ds Config.start = .ok (messages, cfg) ∧
      ∀ (env : DsoEnv) (main : ℕ) (entries : List PathEntry) (v : ℕ) (data : Str),
        let filter := TestInputFilter.create
          ((loadEntries env main entries (Child.start cfg.servers)).servers v)
        let value := lastPassed ds (.serverVars v) (cStr (literal "tolower"))
        let filtered (brigade : List Str) := filter.connectionInputFilter 0 (brigade.map .data) []
        ((∀ brigades, IsCut brigades data → ∀ brigade ∈ brigades, ∃ out,
            filtered brigade = .ok (some out)) ↔ TestInputFilter.TakesStream value data) ∧
        (TestInputFilter.TakesStream value data → ∀ brigades, IsCut brigades data →
          (∀ brigade ∈ brigades, filtered brigade
            = .ok (some (0, brigade.map fun bytes => .data (lowered value bytes)))) ∧
          brigades.flatten.flatMap (lowered value) = lowered value data) ∧
        ∀ s ∈ value, ¬ FreeOf s.val data → ∃ brigades, IsCut brigades data ∧
          ∃ brigade ∈ brigades, filtered brigade = .error (.outOfBounds 1) := by
  obtain ⟨cfg, hrun, hr⟩ := configure_start ds
  refine ⟨_, cfg, hrun, fun env main entries v data => ?_⟩
  intro filter value filtered
  have hvalue : filter.pszToLower = value := hr.getServerVar_eq env main entries v _
  have hfiltered (brigade : List Str) (out : ℤ × List Bucket) :
      filtered brigade = .ok (some out) ↔
        (∀ bytes ∈ brigade, TestInputFilter.Takes value bytes) ∧
          out = (0, brigade.map fun bytes => .data (lowered value bytes)) := by
    rw [← hvalue]
    exact filter.connectionInputFilter_data brigade out
  refine ⟨⟨fun hsafe => ?_, fun htakes brigades hcut brigade hbrigade => ?_⟩,
    fun htakes brigades hcut => ⟨fun brigade hbrigade => ?_, htakes.flatMap_lowered hcut⟩,
    fun s hs hfree => ?_⟩
  · refine TestInputFilter.takesStream_of_cuts fun brigades hcut brigade hbrigade => ?_
    obtain ⟨out, hout⟩ := hsafe brigades hcut brigade hbrigade
    exact ((hfiltered brigade out).mp hout).1
  · exact ⟨_, (hfiltered brigade _).mpr ⟨htakes.takes hcut brigade hbrigade, rfl⟩⟩
  · exact (hfiltered brigade _).mpr ⟨htakes.takes hcut brigade hbrigade, rfl⟩
  · rw [FreeOf, not_or, not_le] at hfree
    obtain ⟨hlen, hin⟩ := hfree
    push Not at hin
    obtain ⟨c, hc, hmem⟩ := hin
    rw [← hvalue] at hs
    exact ⟨_, isCut_singletons data, [[c]], List.mem_map_of_mem hmem,
      TestInputFilter.reads_past hs hc hlen⟩

/-! ### The output filter -/

/-- A brigade up to its first EOS. -/
def untilEos : List Bucket → List Bucket
  | [] => []
  | .eos :: _ => [.eos]
  | b :: rest => b :: untilEos rest

/-- As many bytes can be read as the length says, whatever the status. -/
def Bucket.Legible (b : Bucket) : Prop := b.read.2.2 ≤ (b.read.2.1.getD []).length

instance : DecidablePred Bucket.Legible :=
  fun b => inferInstanceAs (Decidable (b.read.2.2 ≤ (b.read.2.1.getD []).length))

/-- The fault of reading the last of the bytes, the first to be read, if it is not there. -/
def Bucket.fault (b : Bucket) : Fault :=
  match b.read.2.1 with
  | none => .nullDeref
  | some _ => .outOfBounds (b.read.2.2 - 1 : ℕ)

/-- The data is reversed. -/
def Bucket.turned : Bucket → Bucket
  | eos => eos
  | b => data b.bytes.reverse

/-- The data is all that is left. -/
def Bucket.settled : Bucket → Bucket
  | eos => eos
  | b => data b.bytes

/-- What is read of such a bucket. -/
theorem Bucket.read_len_of_legible {b : Bucket} (h : b.Legible) :
    b.read.2.2 = b.bytes.length ∧ (b.bytes ≠ [] → ∃ bytes rest, b.read.2.1 = some bytes ∧
      bytes = b.bytes ++ rest) := by
  cases b with
  | eos => exact ⟨rfl, fun hne => absurd rfl hne⟩
  | flush => exact ⟨rfl, fun hne => absurd rfl hne⟩
  | data bytes => exact ⟨rfl, fun _ => ⟨bytes, [], rfl, (List.append_nil bytes).symm⟩⟩
  | broken ret left len fails =>
    have hle : len ≤ (left.getD []).length := h
    refine ⟨by simp [Bucket.read, Bucket.bytes, hle], fun hne => ?_⟩
    cases left with
    | none => simp [Bucket.bytes] at hne
    | some bytes =>
      exact ⟨bytes, bytes.drop len, rfl, (List.take_append_drop len bytes).symm⟩

/-- One bucket. -/
theorem TestOutputFilter.bucket_eq (b : Bucket) (hb : b ≠ .eos) :
    computeBucket (fun n => dataAt b.read.2.1 (b.read.2.2 - n - 1)) b.read.2.2
        (List.replicate b.read.2.2 (some 0))
      = if b.Legible then .ok b.turned else .error b.fault := by
  split
  · next hlegible =>
    obtain ⟨hlen, hbytes⟩ := b.read_len_of_legible hlegible
    have hturned : b.turned = .data b.bytes.reverse := by
      cases b <;> first | exact absurd rfl hb | rfl
    refine computeBucket_eq_ok_iff.mpr ⟨b.bytes.reverse, ?_, ?_, ?_, hturned⟩
    · rw [List.length_reverse, hlen]
    · rw [List.length_replicate]
    · intro i hi
      rw [List.length_reverse] at hi
      obtain ⟨bytes, rest, hread, hsplit⟩ := hbytes (List.ne_nil_of_length_pos (by omega))
      rw [hread, hlen, hsplit, dataAt_of_lt (by rw [List.length_append]; omega),
        List.getElem_append_left (by omega), List.getElem_reverse]
      simp only [Nat.sub_right_comm]
  · next hlegible =>
    -- the loop starts with the last of the bytes
    obtain ⟨len, hlen⟩ : ∃ len, b.read.2.2 = len + 1 := by
      refine ⟨b.read.2.2 - 1, ?_⟩
      unfold Bucket.Legible at hlegible
      omega
    have hfirst : dataAt b.read.2.1 len = .error b.fault := by
      unfold Bucket.fault
      unfold Bucket.Legible at hlegible
      cases hread : b.read.2.1 with
      | none => rfl
      | some bytes =>
        rw [hread, hlen, Option.getD_some] at hlegible
        rw [dataAt_of_le (by omega), hlen]
        rfl
    rw [computeBucket, hlen, Memory.store]
    simp only [Nat.sub_zero, Nat.add_sub_cancel, hfirst, error_bind]

theorem TestOutputFilter.forEach_cons {b : Bucket} (hb : b ≠ .eos) (bb newBrigade : List Bucket) :
    forEach (b :: bb) newBrigade
      = if b.Legible then forEach bb (newBrigade ++ [b.turned]) else .error b.fault := by
  have hstep : forEach (b :: bb) newBrigade
      = computeBucket (fun n => dataAt b.read.2.1 (b.read.2.2 - n - 1)) b.read.2.2
          (List.replicate b.read.2.2 (some 0)) >>=
        fun newBucket => forEach bb (newBrigade ++ [newBucket]) := by
    cases b with
    | eos => exact absurd rfl hb
    | flush => rfl
    | data bytes => rfl
    | broken ret left len fails => rfl
  rw [hstep, bucket_eq b hb]
  split <;> rfl

theorem untilEos_cons {b : Bucket} (hb : b ≠ .eos) (bb : List Bucket) :
    untilEos (b :: bb) = b :: untilEos bb := by
  cases b with
  | eos => exact absurd rfl hb
  | flush => rfl
  | data bytes => rfl
  | broken ret left len fails => rfl

/-- The first bucket up to the EOS that cannot be read to its length. -/
def firstIllegible (bb : List Bucket) : Option Bucket :=
  (untilEos bb).find? fun b => !decide b.Legible

/-- **The loop over a brigade.** -/
theorem TestOutputFilter.forEach_eq (bb : List Bucket) : ∀ newBrigade,
    forEach bb newBrigade = match firstIllegible bb with
      | none => .ok (newBrigade ++ (untilEos bb).map Bucket.turned)
      | some b => .error b.fault := by
  induction bb with
  | nil => intro newBrigade; exact congrArg Except.ok (List.append_nil newBrigade).symm
  | cons b bb ih =>
    intro newBrigade
    by_cases hb : b = .eos
    · subst hb
      rfl
    · rw [forEach_cons hb, firstIllegible, untilEos_cons hb, List.find?_cons]
      by_cases hlegible : b.Legible
      · rw [if_pos hlegible, ih, ← firstIllegible]
        simp [hlegible]
      · rw [if_neg hlegible]
        simp [hlegible]

/-! ### Chains of the output filter -/

theorem legible_turned (b : Bucket) : b.turned.Legible := by
  cases b <;> exact Nat.le_refl _

theorem turned_turned (b : Bucket) : b.turned.turned = b.settled := by
  cases b with
  | data bytes => exact congrArg Bucket.data (List.reverse_reverse bytes)
  | eos => rfl
  | flush => rfl
  | broken ret left len fails => exact congrArg Bucket.data (List.reverse_reverse _)

theorem settled_turned (b : Bucket) : b.turned.settled = b.turned := by cases b <;> rfl

theorem untilEos_map_turned (bb : List Bucket) :
    untilEos ((untilEos bb).map Bucket.turned) = (untilEos bb).map Bucket.turned := by
  induction bb with
  | nil => rfl
  | cons b bb ih =>
    by_cases hb : b = .eos
    · subst hb
      rfl
    · have hturned : b.turned ≠ .eos := by
        cases b <;> simp_all [Bucket.turned]
      rw [untilEos_cons hb, List.map_cons, untilEos_cons hturned, ih]

/-- The filter runs its request method. -/
def ApFilter.ofRequest (f : ApFilter) : Bool := f.r.isSome

/-- What is passed behind `k` filters that turn a brigade. -/
def turnedBy (sink : List Bucket → Except Fault ℤ) (k : ℕ) (bb : List Bucket) : Except Fault ℤ :=
  if k = 0 then sink bb
  else match firstIllegible bb with
    | none => sink ((untilEos bb).map (if Odd k then Bucket.turned else Bucket.settled))
    | some b => .error b.fault

/-- A filter that turns the brigade once more. -/
theorem turnedBy_map_turned (sink : List Bucket → Except Fault ℤ) (k : ℕ) (bb : List Bucket) :
    turnedBy sink k ((untilEos bb).map Bucket.turned)
      = sink ((untilEos bb).map (if Odd (k + 1) then Bucket.turned else Bucket.settled)) := by
  cases k with
  | zero =>
    rw [turnedBy, if_pos rfl, if_pos (by decide)]
  | succ k =>
    have hlegible : firstIllegible ((untilEos bb).map Bucket.turned) = none := by
      rw [firstIllegible, untilEos_map_turned, List.find?_eq_none]
      intro b hb
      obtain ⟨b', -, rfl⟩ := List.mem_map.mp hb
      simp [legible_turned b']
    rw [turnedBy, if_neg (Nat.succ_ne_zero k), hlegible, untilEos_map_turned, List.map_map]
    show sink _ = sink _
    congr 1
    refine List.map_congr_left fun b _ => ?_
    by_cases hodd : Odd (k + 1)
    · rw [if_pos hodd, if_neg (by rw [Nat.odd_add_one]; exact not_not_intro hodd)]
      exact turned_turned b
    · rw [if_neg hodd, if_pos (by rwa [Nat.odd_add_one])]
      exact settled_turned b

/-- **A chain counts** the filters in it that run their request method. -/
theorem passBrigade_eq (sink : List Bucket → Except Fault ℤ) : ∀ (chain : List ApFilter) bb,
    passBrigade sink chain bb = turnedBy sink (chain.countP ApFilter.ofRequest) bb := by
  intro chain
  induction chain with
  | nil => intro bb; rfl
  | cons f next ih =>
    intro bb
    have hdispatch : passBrigade sink (f :: next) bb = if f.ofRequest = true
        then TestOutputFilter.requestOutputFilter (passBrigade sink next) bb
        else TestOutputFilter.connectionOutputFilter (passBrigade sink next) bb := by
      rw [passBrigade, cppCallOutputFilter, ApFilter.ofRequest]
    rw [hdispatch, List.countP_cons]
    by_cases hf : f.ofRequest = true
    · rw [if_pos hf, if_pos hf, TestOutputFilter.requestOutputFilter, TestOutputFilter.forEach_eq,
        List.nil_append, turnedBy, if_neg (Nat.succ_ne_zero _)]
      cases firstIllegible bb with
      | none =>
        show passBrigade sink next _ = _
        rw [ih, turnedBy_map_turned]
      | some b => rfl
    · rw [if_neg hf, if_neg hf, TestOutputFilter.connectionOutputFilter, ih]
      rfl

/-- The filters of a chain, counted as the service sees them. -/
theorem countP_ofRequest (chain : List ApFilter) :
    chain.countP ApFilter.ofRequest
      = (chain.map (ApFilter.seen .outputFilter)).countP fun e => e.2 = .requestFilter := by
  rw [List.countP_map]
  refine List.countP_congr fun f _ => ?_
  cases h : f.r <;> simp [ApFilter.ofRequest, ApFilter.seen, h]

/-- No filter of a connection runs its request method. -/
theorem countP_attachments_connection (site : Site) (v : ℕ) (k : Kind) (direction : Direction)
    (L : ListId) :
    (site.attachments v k direction false L).countP (fun e => e.2 = .requestFilter) = 0 := by
  rw [List.countP_eq_zero]
  intro e he
  obtain ⟨n, -, hn⟩ := List.mem_filterMap.mp he
  obtain ⟨p, -, hp⟩ := Option.bind_eq_some_iff.mp hn
  obtain ⟨m, hm, rfl⟩ := Option.map_eq_some_iff.mp hp
  unfold Site.runsAs at hm
  split at hm
  · cases hm
  · cases hm
    simp
  · cases hm

/-- **What a response looks like** on a site whose output filters are all
`TestOutputFilter`s.  Whatever the child has served before, when a connection to one
server and then a request to another attach their filters, and httpd puts these in
whatever order: a brigade passes them as if those alone were there that the names in the
innermost section attach for the server of the request, as filters of requests.  With
none of them it is passed on as it is; otherwise up to its first EOS, with the bytes of
each bucket reversed if their number is odd and in order if it is even.  The bytes of a
bucket whose read fails are what the read leaves behind, and it is a fault if there are
fewer than it says. -/
theorem turned_by_parity {σ : Type} (site : Site) (order : HashOrder CStr) (servers : Servers)
    (hmain : servers.main = site.main)
    (hroom : ∀ L, (given L site.ds).length < maxHandlers) (b : Behaviour σ) (w : σ) :
    ∃ messages cfg, configure site.ds Config.start = .ok (messages, cfg) ∧
      ∀ (before : List Stimulus) (v u outer : ℕ) (inner : List ℕ) (chain : List ApFilter) sink bb,
        let run := (Serving.machine site.fold cfg b).run
          (Serving.start cfg site.env order servers w)
        let after := run
          (before ++ [.connection .preConnection v, .request .insertFilter u outer inner])
        let names := .ofSection (innermost outer inner) .outputFilters
        chain.Perm (after.2.outputFilters.drop (run before).2.outputFilters.length) →
        passBrigade sink chain bb = turnedBy sink
          ((site.attachments u .outputFilter .output true names).countP
            fun e => e.2 = .requestFilter) bb := by
  obtain ⟨cfg, hrun, hr⟩ := configure_start site.ds
  refine ⟨_, cfg, hrun, fun before v u outer inner chain sink bb => ?_⟩
  obtain ⟨ds, env, main, fold⟩ := site
  subst hmain
  intro run after names hchain
  have hbefore := (run_serves hr hroom env order servers fold b w before).2.outputFilters
  have hafter := (run_serves hr hroom env order servers fold b w
    (before ++ [.connection .preConnection v,
      .request .insertFilter u outer inner])).2.outputFilters
  set t := ((Service.machine ⟨ds, env, servers.main, fold⟩ b).run (Service.start w) before).2
  have hservice : ((Service.machine ⟨ds, env, servers.main, fold⟩ b).run t
        [.connection .preConnection v, .request .insertFilter u outer inner]).2.outputFilters
      = t.outputFilters
        ++ Site.attachments ⟨ds, env, servers.main, fold⟩ v .outputFilter .output false
          (.ofServer v .outputFilters)
        ++ Site.attachments ⟨ds, env, servers.main, fold⟩ u .outputFilter .output true names := rfl
  rw [Machine.run_append _ _ _ (Service.start w)] at hafter
  replace hafter := hafter.trans hservice
  have hlength := congrArg List.length hbefore
  rw [List.length_map] at hlength
  rw [passBrigade_eq, hchain.countP_eq, countP_ofRequest, List.map_drop, hafter, hlength,
    List.append_assoc, List.drop_left, List.countP_append, countP_attachments_connection,
    Nat.zero_add]

/-- A section that lists its one output filter three times. -/
def thrice : Site where
  ds := .inServer 0 (.loadCPPHandler (cStr (literal "o")) (cStr (literal "/")))
    :: List.replicate 3 (.inSection 0 (.addCPPOutputFilter (cStr (literal "o"))))
  env :=
    { aprDsoLoad := fun _ _ => none
      aprDsoSym := fun _ _ => .ok ⟨none, none, some fun _ => some ⟨1⟩, none⟩ }
  main := 0
  fold := id

theorem thrice_room (L : ListId) : (given L thrice.ds).length < maxHandlers := by
  refine lt_of_le_of_lt (List.length_filterMap_le _ _) ?_
  decide

/-- The client is sent the data reversed, and what a failed read leaves; what stands behind
the EOS is dropped. -/
theorem turned_by_parity_thrice :
    ∃ messages cfg, configure thrice.ds Config.start = .ok (messages, cfg) ∧
      passBrigade (fun bb => .ok
          (if bb = [.data (literal "cba"), .data [], .data (literal "yx"), .eos] then 1 else 0))
        ((Serving.machine id cfg obliging).run
          (Serving.start cfg thrice.env HashOrder.stored ⟨0, [], by decide⟩ ())
          [.connection .preConnection 0, .request .insertFilter 0 0 []]).2.outputFilters
        [.data (literal "abc"), .flush, .broken 1 (some (literal "xyz")) 2 (by decide), .eos,
          .data (literal "d")] = .ok 1 := by
  obtain ⟨messages, cfg, hrun, hpasses⟩ := turned_by_parity thrice HashOrder.stored
    ⟨0, [], by decide⟩ rfl thrice_room obliging ()
  refine ⟨messages, cfg, hrun, (hpasses [] 0 0 0 [] _ _ _ (List.Perm.refl _)).trans ?_⟩
  have hcount : (thrice.attachments 0 .outputFilter .output true
      (.ofSection 0 .outputFilters)).countP (fun e => e.2 = .requestFilter) = 3 := by decide
  rw [show innermost 0 [] = 0 from rfl, hcount]
  rfl

end ModCplusplus
