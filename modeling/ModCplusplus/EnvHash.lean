import ModCplusplus.CTypes
import ModCplusplus.General.Buckets
import ModCplusplus.General.Memory
import ModCplusplus.General.Multimap

/-!
# The hash table of environment values

`env_hash` keeps its entries in a vector of buckets.  A `put` appends to the bucket that
the hash of the key selects, and a `get` takes the first entry of the key from it: the
value put first, and not the one put last.

The constructor stores the buckets in a vector that has no elements, and the index of a
bucket is the hash `&` the number of buckets, which can be that number itself.

## Main definitions

* `EnvBucketEntry`, `EnvHash` — an entry, and the table.
* `EnvHash.new`, `EnvHash.get`, `EnvHash.put` — its functions; an index outside the
  vector is a fault.
* `ReturnsLast` — a `get` after some `put`s returns the value put last.
* `BucketsInRange` — the constructor leaves the buckets, and a key selects one of them.

## Main results

* `putAll_empty`, `get_putAll` — what the table holds after some `put`s, and what is
  found in it.
* `returns_last_iff` — when that is the value put last.
* `index_lt_iff` — which hashes select a bucket.
* `buckets_never_in_range` — the constructor leaves no table.
-/

namespace ModCplusplus

open Multimap

/-! ### Entries -/

/-- An `env_bucket_entry`. -/
structure EnvBucketEntry where
  key : Str
  value : Str
  deriving DecidableEq

/-- A `char` as an `int`. -/
def charToInt (c : UInt8) : ℤ := Int.bmod c.toNat 256

/-- `hash = ((hash << 5) + hash) + c`. -/
def hashStep (hash : UInt64) (c : UInt8) : UInt64 :=
  ((hash <<< 5) + hash) + UInt64.ofInt (charToInt c)

/-- `hash_code`. -/
def EnvBucketEntry.hashCode (e : EnvBucketEntry) : UInt64 := (cStrOf e.key).foldl hashStep 5381

/-- `NUM_BUCKETS`. -/
def numBuckets : ℕ := 1000

/-- `hash_code() & NUM_BUCKETS`. -/
def EnvBucketEntry.index (e : EnvBucketEntry) : ℕ :=
  (e.hashCode &&& UInt64.ofNat numBuckets).toNat

/-- The hash is the same for all entries of a key. -/
theorem index_eq_of_key {e e' : EnvBucketEntry} (h : e.key = e'.key) : e.index = e'.index := by
  rw [EnvBucketEntry.index, EnvBucketEntry.hashCode, h]
  rfl

theorem index_le (e : EnvBucketEntry) : e.index ≤ numBuckets := by
  rw [EnvBucketEntry.index, UInt64.toNat_and]
  exact Nat.and_le_right

/-! ### The table -/

/-- An `env_hash`. -/
structure EnvHash where
  buckets : List (List EnvBucketEntry)
  deriving DecidableEq

/-- `*_buckets[i]`. -/
def EnvHash.bucket (i : ℕ) (h : EnvHash) : Except Fault (List EnvBucketEntry) :=
  match h.buckets[i]? with
  | some bucket => .ok bucket
  | none => .error (.outOfBounds i)

/-- Store to `_buckets[i]`. -/
def EnvHash.setBucket (i : ℕ) (bucket : List EnvBucketEntry) (h : EnvHash) : Except Fault EnvHash :=
  if i < h.buckets.length then .ok ⟨h.buckets.set i bucket⟩ else .error (.outOfBounds i)

/-- `env_hash::env_hash`. -/
def EnvHash.new : Except Fault EnvHash :=
  (List.range numBuckets).foldlM (fun h i => h.setBucket i []) ⟨[]⟩

/-- The loop of `get`. -/
def scan (key : Str) : List EnvBucketEntry → Str
  | [] => []
  | curEntry :: bucket => if curEntry.key = key then curEntry.value else scan key bucket

/-- `env_hash::get`. -/
def EnvHash.get (key : Str) (h : EnvHash) : Except Fault Str := do
  let entry : EnvBucketEntry := ⟨key, []⟩
  let bucket ← h.bucket entry.index
  return scan key bucket

/-- `env_hash::put`. -/
def EnvHash.put (key value : Str) (h : EnvHash) : Except Fault EnvHash := do
  let entry : EnvBucketEntry := ⟨key, value⟩
  let bucket ← h.bucket entry.index
  h.setBucket entry.index (bucket ++ [entry])

/-- A sequence of `put`s. -/
def putAll (puts : List (Str × Str)) (h : EnvHash) : Except Fault EnvHash :=
  puts.foldlM (fun h p => h.put p.1 p.2) h

/-- A table of so many buckets, all of them empty. -/
def EnvHash.empty (n : ℕ) : EnvHash := ⟨List.replicate n []⟩

/-! ### What the table holds -/

/-- A table of so many buckets with some entries. -/
def EnvHash.holding (n : ℕ) (entries : List EnvBucketEntry) : EnvHash :=
  ⟨Buckets.distribute EnvBucketEntry.index n entries⟩

theorem bucket_holding {n i : ℕ} (h : i < n) (entries : List EnvBucketEntry) :
    (EnvHash.holding n entries).bucket i = .ok (entries.filter (·.index = i)) := by
  rw [EnvHash.bucket, EnvHash.holding, Buckets.getElem?_distribute h]

/-- **A `put` adds an entry.** -/
theorem put_holding {n : ℕ} {key value : Str} (h : EnvBucketEntry.index ⟨key, value⟩ < n)
    (entries : List EnvBucketEntry) :
    (EnvHash.holding n entries).put key value
      = .ok (EnvHash.holding n (entries ++ [⟨key, value⟩])) := by
  rw [EnvHash.put, bucket_holding h, ok_bind, EnvHash.setBucket, EnvHash.holding,
    Buckets.length_distribute, if_pos h, Buckets.distribute_append_singleton]
  rfl

/-- The entries of some `put`s. -/
def entriesOf (puts : List (Str × Str)) : List EnvBucketEntry :=
  puts.map fun p => ⟨p.1, p.2⟩

section

variable {n : ℕ} (hn : ∀ e : EnvBucketEntry, e.index < n)

include hn

theorem putAll_holding (puts : List (Str × Str)) (entries : List EnvBucketEntry) :
    putAll puts (EnvHash.holding n entries)
      = .ok (EnvHash.holding n (entries ++ entriesOf puts)) := by
  induction puts generalizing entries with
  | nil => rw [entriesOf, List.map_nil, List.append_nil]; rfl
  | cons p puts ih =>
    rw [putAll, List.foldlM_cons, put_holding (hn _), ok_bind]
    refine (ih _).trans ?_
    rw [entriesOf, entriesOf, List.map_cons, List.append_assoc, List.singleton_append]

/-- **What the table holds after some `put`s.** -/
theorem putAll_empty (puts : List (Str × Str)) :
    putAll puts (EnvHash.empty n) = .ok (EnvHash.holding n (entriesOf puts)) := by
  have := putAll_holding hn puts []
  rwa [EnvHash.holding, Buckets.distribute_nil, List.nil_append] at this

end

/-- The loop of `get` finds the first entry of the key. -/
theorem scan_eq (key : Str) (bucket : List EnvBucketEntry) :
    scan key bucket = ((bucket.find? (·.key = key)).map EnvBucketEntry.value).getD [] := by
  induction bucket with
  | nil => rfl
  | cons e bucket ih =>
    rw [scan]
    by_cases h : e.key = key
    · simp [h]
    · simp [h, ih]

theorem find_entriesOf (key : Str) (puts : List (Str × Str)) :
    ((entriesOf puts).find? (·.key = key)).map EnvBucketEntry.value
      = (valuesOf key puts).head? := by
  induction puts with
  | nil => rfl
  | cons p puts ih =>
    rw [entriesOf, List.map_cons, valuesOf]
    by_cases h : p.1 = key
    · simp [h]
    · rw [List.find?_cons_of_neg (by simpa using h), List.filter_cons_of_neg (by simpa using h)]
      exact ih

/-- **What a `get` after some `put`s finds**: the value put first. -/
theorem get_putAll {n : ℕ} (hn : ∀ e : EnvBucketEntry, e.index < n) (puts : List (Str × Str))
    (key : Str) :
    (putAll puts (EnvHash.empty n) >>= EnvHash.get key)
      = .ok ((valuesOf key puts).head?.getD []) := by
  have hkey (e : EnvBucketEntry) (h : decide (e.key = key) = true) :
      e.index = EnvBucketEntry.index ⟨key, []⟩ := index_eq_of_key (of_decide_eq_true h)
  rw [putAll_empty hn, ok_bind, EnvHash.get, bucket_holding (hn _), ok_bind, scan_eq,
    Buckets.find_bucket hkey, find_entriesOf]
  rfl

/-- **A `get` returns the value put last** for the key, or the empty string if there is
none. -/
def ReturnsLast (n : ℕ) (puts : List (Str × Str)) (key : Str) : Prop :=
  (putAll puts (EnvHash.empty n) >>= EnvHash.get key)
    = .ok ((valuesOf key puts).getLast?.getD [])

/-- **A `get` returns the value put last if and only if that is the value put first**, in
a table with a bucket for every index. -/
theorem returns_last_iff (n : ℕ) (hn : ∀ e : EnvBucketEntry, e.index < n)
    (puts : List (Str × Str)) (key : Str) :
    ReturnsLast n puts key ↔ (valuesOf key puts).head? = (valuesOf key puts).getLast? := by
  rw [ReturnsLast, get_putAll hn, Except.ok.injEq]
  cases hvals : valuesOf key puts with
  | nil => exact iff_of_true rfl rfl
  | cons v vs =>
    rw [List.head?_cons, List.getLast?_cons, Option.getD_some, Option.getD_some, Option.some.injEq]

/-- A key put twice with one value, and another between. -/
theorem returns_last_iff_again :
    (∀ e : EnvBucketEntry, e.index < 1001) ∧
      (ReturnsLast 1001 [(literal "a", literal "1"), (literal "b", literal "2"),
          (literal "a", literal "1")] (literal "a") ↔
        (valuesOf (literal "a") [(literal "a", literal "1"), (literal "b", literal "2"),
          (literal "a", literal "1")]).head?
          = (valuesOf (literal "a") [(literal "a", literal "1"), (literal "b", literal "2"),
            (literal "a", literal "1")]).getLast?) :=
  ⟨fun e => Nat.lt_succ_of_le (index_le e),
    returns_last_iff 1001 (fun e => Nat.lt_succ_of_le (index_le e))
      [(literal "a", literal "1"), (literal "b", literal "2"), (literal "a", literal "1")]
      (literal "a")⟩

/-- A key put twice with two values: the first is returned. -/
theorem not_returnsLast_twice :
    (putAll [(literal "a", literal "1"), (literal "a", literal "2")] (EnvHash.empty 1001)
        >>= EnvHash.get (literal "a")) = .ok (literal "1") ∧
      ¬ ReturnsLast 1001 [(literal "a", literal "1"), (literal "a", literal "2")]
        (literal "a") := by
  have hget : (putAll [(literal "a", literal "1"), (literal "a", literal "2")]
      (EnvHash.empty 1001) >>= EnvHash.get (literal "a")) = .ok (literal "1") :=
    get_putAll (fun e => Nat.lt_succ_of_le (index_le e)) _ _
  refine ⟨hget, fun h => ?_⟩
  rw [ReturnsLast, hget] at h
  exact absurd (Except.ok.inj h) (by decide)

/-! ### The range of the index -/

/-- The bits of the number of buckets. -/
theorem testBit_numBuckets (i : ℕ) : numBuckets.testBit i = true ↔ i ∈ [3, 5, 6, 7, 8, 9] := by
  have hsmall : ∀ i < 10, (numBuckets.testBit i = true ↔ i ∈ [3, 5, 6, 7, 8, 9]) := by decide
  by_cases h : i < 10
  · exact hsmall i h
  · have hpow : numBuckets < 2 ^ i :=
      lt_of_lt_of_le (by decide) (Nat.pow_le_pow_right (by decide) (Nat.le_of_not_lt h))
    rw [Nat.testBit_lt_two_pow hpow]
    simp
    omega

/-- **A hash selects a bucket if and only if it lacks a bit of the number of buckets.** -/
theorem index_lt_iff (e : EnvBucketEntry) :
    e.index < numBuckets ↔ ∃ i ∈ [3, 5, 6, 7, 8, 9], e.hashCode.toNat.testBit i = false := by
  have hindex : e.index = e.hashCode.toNat &&& numBuckets := UInt64.toNat_and _ _
  rw [hindex, Buckets.and_lt_iff]
  simp only [testBit_numBuckets]

/-! ### The buckets of the constructor -/

/-- The first bucket is stored outside the vector. -/
theorem new_eq : EnvHash.new = .error (.outOfBounds 0) := by
  rw [EnvHash.new, numBuckets, List.range_succ_eq_map, List.foldlM_cons]
  rfl

/-- **Buckets are in range**: the constructor leaves so many, storing nothing outside the
vector, and the key selects one of them. -/
structure BucketsInRange (key : Str) : Prop where
  constructed : ∃ h, EnvHash.new = .ok h ∧ h.buckets.length = numBuckets
  index_lt : ∀ value, EnvBucketEntry.index ⟨key, value⟩ < numBuckets

/-- **Buckets are never in range**, for the constructor; the index of a key is, if its hash
lacks a bit of the number of buckets. -/
theorem buckets_never_in_range (key value : Str) :
    ¬ BucketsInRange key ∧
      (EnvBucketEntry.index ⟨key, value⟩ < numBuckets ↔
        ∃ i ∈ [3, 5, 6, 7, 8, 9],
          (EnvBucketEntry.hashCode ⟨key, value⟩).toNat.testBit i = false) := by
  refine ⟨fun hrange => ?_, index_lt_iff ⟨key, value⟩⟩
  obtain ⟨h, hnew, -⟩ := hrange.constructed
  rw [new_eq] at hnew
  exact absurd hnew (by simp)

/-- The constructor stores outside the vector, and the index of a key of two letters is
the number of buckets. -/
theorem not_bucketsInRange_ga :
    EnvHash.new = .error (.outOfBounds 0) ∧
      EnvBucketEntry.index ⟨literal "ga", []⟩ = numBuckets ∧
      ¬ BucketsInRange (literal "ga") := by
  have hindex : EnvBucketEntry.index ⟨literal "ga", []⟩ = numBuckets := by decide +kernel
  exact ⟨new_eq, hindex, fun h => (h.index_lt []).ne hindex⟩

end ModCplusplus
