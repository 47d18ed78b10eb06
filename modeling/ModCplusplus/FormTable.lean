import ModCplusplus.FormParser

/-!
# The table of a form

Whatever string is decoded and whatever its escapes are converted to, the table is in
order after every iteration: every key is there once, no key and no value is empty, and
what has been stored stays where it is.  So `operator[]` finds a key exactly if it has
been stored, and there is no other entry to be found.

## Main definitions

* `TableSound` — the table is in order, and the entry being read is one of it.
* `operatorIndex` — `operator[]`.
* `decodeAfter` — the state after so many iterations.
* `TableInvariant` — the invariant, over all iterations and at the end.

## Main results

* `TableSound.step`, `grows_step` — what a token preserves.
* `TableSound.decodeLoop`, `grows_decodeLoop` — what the iterations preserve.
* `table_invariant` — the law.
-/

namespace ModCplusplus

open Multimap

/-! ### One token -/

/-- The table is in order: every key is there once, no key and no value is empty, and the
entry being read is one of the table. -/
structure TableSound (p : Parse) : Prop where
  nodup : (keys p.env_).Nodup
  nonempty : ∀ e ∈ p.env_, e.key ≠ [] ∧ ∀ v ∈ e.vals, v ≠ []
  valid : p.Valid

theorem tableSound_start : TableSound (Parse.start []) :=
  ⟨List.nodup_nil, fun _ he => absurd he List.not_mem_nil, nofun⟩

theorem TableSound.nodup_step {p : Parse} (h : TableSound p) (t : Token) :
    (keys (t.step p).env_).Nodup := by
  rcases env_step_cases t p with henv | ⟨-, henv⟩ | ⟨i, -, -, henv⟩
  · exact henv ▸ h.nodup
  · exact henv ▸ nodup_keys_intern _ h.nodup
  · rw [henv, keys_addAt]
    exact h.nodup

theorem TableSound.nonempty_step {p : Parse} (h : TableSound p) (t : Token) :
    ∀ e ∈ (t.step p).env_, e.key ≠ [] ∧ ∀ v ∈ e.vals, v ≠ [] := by
  have hold := (not_mentions_iff (· = []) (· = []) p.env_).mpr h.nonempty
  refine (not_mentions_iff (· = []) (· = []) _).mp ?_
  rcases env_step_cases t p with henv | ⟨hne, henv⟩ | ⟨i, hi, hne, henv⟩
  · rwa [henv]
  · rw [henv, mentions_intern, not_or]
    exact ⟨hold, hne⟩
  · rw [henv, mentions_addAt _ _ _ (h.valid i hi), not_or]
    exact ⟨hold, hne⟩

/-- **A token keeps the table in order.** -/
theorem TableSound.step {p : Parse} (h : TableSound p) (t : Token) : TableSound (t.step p) :=
  ⟨h.nodup_step t, h.nonempty_step t, h.valid.step t⟩

/-- **What has been stored stays where it is.** -/
theorem grows_step (t : Token) (p : Parse) : Grows p.env_ (t.step p).env_ := by
  rcases env_step_cases t p with henv | ⟨-, henv⟩ | ⟨i, -, -, henv⟩
  · exact henv ▸ Grows.refl _
  · exact henv ▸ grows_intern _ _
  · exact henv ▸ grows_addAt _ _ _

/-- At the end of the string no key is added, -/
theorem keys_finish (p : Parse) : keys p.finish.env_ = keys p.env_ := by
  rw [Parse.env_finish]
  by_cases hp : p.pStr = []
  · rw [Parse.endValue_of_nil hp]
  · cases hi : p.pEnv with
    | none => rw [Parse.endValue_of_none hi]
    | some i => rw [Parse.endValue_of_some hi hp, keys_addAt]

/-- and the text is stored as at a `&`. -/
theorem TableSound.finish {p : Parse} (h : TableSound p) : TableSound p.finish := by
  have hsame : p.finish.pEnv = p.pEnv := by
    unfold Parse.finish
    split
    · split <;> rfl
    · rfl
  have hlength : p.finish.env_.length = p.env_.length := by
    simpa [keys] using congrArg List.length (keys_finish p)
  refine ⟨keys_finish p ▸ h.nodup, ?_, fun i hi => ?_⟩
  · rw [Parse.env_finish]
    exact h.nonempty_step .endValue
  · rw [hlength]
    exact h.valid i (hsame ▸ hi)

theorem grows_finish (p : Parse) : Grows p.env_ p.finish.env_ := by
  rw [Parse.env_finish]
  exact grows_step .endValue p

/-! ### The iterations -/

section

variable {mem : Uninit} {ch : Str}

/-- **After any number of iterations the table is in order.** -/
theorem TableSound.decodeLoop (hch : (0 : UInt8) ∉ ch) (fuel : ℕ) {st : DecodeState}
    (h : TableSound st.parse) : TableSound (decodeLoop mem ch fuel st).parse := by
  induction fuel generalizing st with
  | zero => exact h
  | succ fuel ih =>
    rw [ModCplusplus.decodeLoop]
    split
    · next hlt =>
      obtain ⟨q, hiter, -⟩ := decodeIter_eq_take mem hch st hlt
      rw [hiter]
      exact ih (h.step q.token)
    · exact h

/-- **The iterations let the table grow.** -/
theorem grows_decodeLoop (hch : (0 : UInt8) ∉ ch) (fuel : ℕ) (st : DecodeState) :
    Grows st.parse.env_ (decodeLoop mem ch fuel st).parse.env_ := by
  induction fuel generalizing st with
  | zero => exact Grows.refl _
  | succ fuel ih =>
    rw [ModCplusplus.decodeLoop]
    split
    · next hlt =>
      obtain ⟨q, hiter, -⟩ := decodeIter_eq_take mem hch st hlt
      rw [hiter]
      exact (grows_step q.token st.parse).trans (ih (st.take q))
    · exact Grows.refl _

theorem decodeLoop_of_ge {st : DecodeState} (h : ch.length ≤ st.i) (fuel : ℕ) :
    decodeLoop mem ch fuel st = st := by
  cases fuel with
  | zero => rfl
  | succ fuel => rw [decodeLoop, if_neg (Nat.not_lt.mpr h)]

/-- Iterations, and more iterations. -/
theorem decodeLoop_add (n k : ℕ) (st : DecodeState) :
    decodeLoop mem ch (n + k) st = decodeLoop mem ch k (decodeLoop mem ch n st) := by
  induction n generalizing st with
  | zero => rw [Nat.zero_add]; rfl
  | succ n ih =>
    rw [Nat.succ_add, decodeLoop, decodeLoop]
    split
    · exact ih _
    · next hge => rw [decodeLoop_of_ge (Nat.not_lt.mp hge)]

end

/-! ### The law -/

/-- `operator[]`: an index of the table, or NULL. -/
def operatorIndex (env_ : List EnvValue) (name : Str) : Option ℕ := search env_ name

/-- The state after so many iterations, or at the end of the loop. -/
def decodeAfter (mem : Uninit) (ch : CStr) (n : ℕ) : DecodeState :=
  decodeLoop mem ch n ⟨0, Parse.start [], []⟩

/-- **The table is in order**, after every iteration and at the end; it only grows, from
one iteration to any later one and to the end; a key is found if and only if some
iteration has stored it, and what is found is the only entry of the key. -/
structure TableInvariant (mem : Uninit) (ch : CStr) : Prop where
  sound : ∀ n, TableSound (decodeAfter mem ch n).parse
  sound_end : TableSound (decode mem ch (Parse.start [])).parse
  grows : ∀ n k, Grows (decodeAfter mem ch n).parse.env_ (decodeAfter mem ch (n + k)).parse.env_
  grows_end : ∀ n, Grows (decodeAfter mem ch n).parse.env_
    (decode mem ch (Parse.start [])).parse.env_
  found_iff : ∀ k, (operatorIndex (decode mem ch (Parse.start [])).parse.env_ k).isSome ↔
    ∃ n, k ∈ keys (decodeAfter mem ch n).parse.env_
  only : ∀ k i, operatorIndex (decode mem ch (Parse.start [])).parse.env_ k = some i →
    ∀ j, (keys (decode mem ch (Parse.start [])).parse.env_)[j]? = some k ↔ j = i

/-- The loop has come to its end after as many iterations as there are bytes. -/
theorem decodeAfter_of_ge (mem : Uninit) (ch : CStr) {n : ℕ} (h : ch.val.length ≤ n) :
    decodeAfter mem ch n = decodeAfter mem ch ch.val.length := by
  obtain ⟨k, rfl⟩ := Nat.exists_eq_add_of_le h
  rw [decodeAfter, decodeLoop_add]
  exact decodeLoop_of_ge (length_le_decodeLoop mem _ _ (Nat.sub_le _ _)) k

theorem grows_decodeAfter (mem : Uninit) (ch : CStr) (n k : ℕ) :
    Grows (decodeAfter mem ch n).parse.env_ (decodeAfter mem ch (n + k)).parse.env_ := by
  rw [decodeAfter, decodeAfter, decodeLoop_add]
  exact grows_decodeLoop ch.property k _

theorem parse_decode_start (mem : Uninit) (ch : CStr) :
    (decode mem ch (Parse.start [])).parse
      = (decodeAfter mem ch ch.val.length).parse.finish := rfl

/-- **The table invariant** of the decoder, for every string and whatever memory holds. -/
theorem table_invariant (mem : Uninit) (ch : CStr) : TableInvariant mem ch := by
  have hsound (n : ℕ) : TableSound (decodeAfter mem ch n).parse :=
    tableSound_start.decodeLoop ch.property n
  have hend : TableSound (decode mem ch (Parse.start [])).parse :=
    (hsound ch.val.length).finish
  have hgrows (n : ℕ) : Grows (decodeAfter mem ch n).parse.env_
      (decode mem ch (Parse.start [])).parse.env_ := by
    rw [parse_decode_start]
    refine Grows.trans ?_ (grows_finish _)
    rcases Nat.le_total n ch.val.length with hle | hge
    · obtain ⟨k, hk⟩ := Nat.exists_eq_add_of_le hle
      rw [hk]
      exact grows_decodeAfter mem ch n k
    · rw [decodeAfter_of_ge mem ch hge]
      exact Grows.refl _
  refine ⟨hsound, hend, grows_decodeAfter mem ch, hgrows, fun k => ?_, fun k i hi j => ?_⟩
  · rw [operatorIndex, search, isSome_find_iff]
    constructor
    · intro hk
      rw [parse_decode_start, keys_finish] at hk
      exact ⟨ch.val.length, hk⟩
    · rintro ⟨n, hk⟩
      exact (hgrows n).mem_keys hk
  · rw [← find_eq_some_iff hend.nodup]
    rw [operatorIndex, search] at hi
    rw [hi, Option.some.injEq]
    exact eq_comm

end ModCplusplus
