import Mathlib.Algebra.GroupWithZero.Nat
import Mathlib.Data.List.Basic
import Mathlib.Data.List.Induction
import Mathlib.Data.List.Infix
import Mathlib.Data.List.Nodup
import Mathlib.Tactic.Common

/-!
# Multimaps ordered by first occurrence

A table of entries, each a key with the list of its values.  A value is added
under a key by looking the key up, appending a fresh entry when it is not there,
and appending the value to the entry found.

## Main definitions

* `Entry` — a key and its values.
* `find` — the position of the entry of a key.
* `intern` — the position of a key, in the table extended by it if need be.
* `addAt`, `add`, `addAll` — append a value, to an entry or under a key; append the
  values of a list of pairs.
* `keys`, `weight` — the keys of a table; the sum of the weights of its values.
* `Grows` — a table keeps its entries, and values are added to theirs.
* `Mentions` — some key or some value has a given property.
* `grouped` — the table a list of pairs stands for: every key once, in order of
  first occurrence, with its values in the order of the pairs.

## Main results

* `add_grouped` — adding a pair to the table of a list of pairs gives the table
  of the longer list.
* `addAll_grouped` — and so does adding a list of pairs, one by one.
* `keys_addAt`, `keys_prefix_intern` — keys are only ever appended.
* `nodup_keys_intern`, `find_eq_some_iff` — a key is there once, and where its entry is.
* `find_grouped_eq_none`, `getElem?_of_find_grouped` — lookup in the table of a list of pairs.
* `grows_intern`, `grows_addAt` — what is there stays where it is.
* `weight_addAt`, `weight_intern` — a value adds its weight, a key none.
* `mentions_addAt`, `mentions_intern` — what a value and a key add.
-/

namespace Multimap

variable {κ ν : Type*} [DecidableEq κ]

/-- A key and the values given to it. -/
@[ext] structure Entry (κ ν : Type*) where
  key : κ
  vals : List ν
  deriving DecidableEq, Repr

/-- The position of the first entry of a key. -/
def find (k : κ) (env : List (Entry κ ν)) : Option ℕ := env.findIdx? fun e => e.key = k

/-- Look a key up, extending the table by an entry without values if there is
none. -/
def intern (k : κ) (env : List (Entry κ ν)) : List (Entry κ ν) × ℕ :=
  match find k env with
  | some i => (env, i)
  | none => (env ++ [⟨k, []⟩], env.length)

/-- Append a value to the entry at a position. -/
def addAt (i : ℕ) (v : ν) (env : List (Entry κ ν)) : List (Entry κ ν) :=
  env.modify i fun e => { e with vals := e.vals ++ [v] }

/-- Append a value under a key. -/
def add (k : κ) (v : ν) (env : List (Entry κ ν)) : List (Entry κ ν) :=
  addAt (intern k env).2 v (intern k env).1

/-- Append the values of a list of pairs, one by one. -/
def addAll (pairs : List (κ × ν)) (env : List (Entry κ ν)) : List (Entry κ ν) :=
  pairs.foldl (fun env p => add p.1 p.2 env) env

@[simp] theorem addAll_nil (env : List (Entry κ ν)) : addAll [] env = env := rfl

@[simp] theorem addAll_cons (p : κ × ν) (pairs : List (κ × ν)) (env : List (Entry κ ν)) :
    addAll (p :: pairs) env = addAll pairs (add p.1 p.2 env) := rfl

/-- The values a list of pairs gives to a key. -/
def valuesOf (k : κ) (pairs : List (κ × ν)) : List ν :=
  (pairs.filter fun p => p.1 = k).map Prod.snd

/-- The table of a list of pairs. -/
def grouped (pairs : List (κ × ν)) : List (Entry κ ν) :=
  (pairs.map Prod.fst).eraseDups.map fun k => ⟨k, valuesOf k pairs⟩

@[simp] theorem grouped_nil : grouped ([] : List (κ × ν)) = [] := rfl

theorem nodup_eraseDups : ∀ l : List κ, l.eraseDups.Nodup := by
  intro l
  induction l using List.reverseRecOn with
  | nil => simp
  | append_singleton l a ih =>
    rw [List.eraseDups_append, List.nodup_append]
    refine ⟨ih, ?_, ?_⟩
    · by_cases h : a ∈ l <;> simp [List.removeAll, List.eraseDups_cons, h]
    · intro x hx y hy hxy
      subst hxy
      rw [List.mem_eraseDups] at hx hy
      simp [List.removeAll] at hy
      exact hy.2 (hy.1 ▸ hx)

theorem eraseDups_append_singleton (l : List κ) (a : κ) :
    (l ++ [a]).eraseDups = if a ∈ l then l.eraseDups else l.eraseDups ++ [a] := by
  rw [List.eraseDups_append]
  by_cases h : a ∈ l <;> simp [List.removeAll, List.eraseDups_cons, h]

theorem valuesOf_append_singleton (k : κ) (pairs : List (κ × ν)) (p : κ × ν) :
    valuesOf k (pairs ++ [p])
      = if p.1 = k then valuesOf k pairs ++ [p.2] else valuesOf k pairs := by
  by_cases h : p.1 = k <;> simp [valuesOf, List.filter_append, h]

/-- A key nobody gave has no values. -/
theorem valuesOf_eq_nil {k : κ} {pairs : List (κ × ν)} (h : k ∉ pairs.map Prod.fst) :
    valuesOf k pairs = [] := by
  rw [valuesOf, List.map_eq_nil_iff, List.filter_eq_nil_iff]
  intro p hp
  have : p.1 ∈ pairs.map Prod.fst := List.mem_map_of_mem hp
  simp only [decide_eq_true_eq]
  rintro rfl
  exact h this

/-- The position of a key in a table made key by key. -/
theorem find_map (f : κ → List ν) (k : κ) (ks : List κ) :
    find k (ks.map fun k => (⟨k, f k⟩ : Entry κ ν)) = ks.findIdx? fun k' => k' = k := by
  rw [find, List.findIdx?_map]
  rfl

/-- Adding a value at the position of its key changes the entry of that key. -/
theorem addAt_map (f : κ → List ν) (k : κ) (v : ν) {ks : List κ} (hks : ks.Nodup) {i : ℕ}
    (hi : i < ks.length) (hk : ks[i] = k) :
    addAt i v (ks.map fun k' => (⟨k', f k'⟩ : Entry κ ν))
      = ks.map fun k' => ⟨k', if k = k' then f k' ++ [v] else f k'⟩ := by
  apply List.ext_getElem
  · simp [addAt]
  · intro j hj hj'
    rw [List.length_map] at hj'
    simp only [addAt, List.getElem_modify, List.getElem_map]
    split
    · next h => subst h; simp [hk]
    · next h =>
      have : k ≠ ks[j] := by
        rw [← hk]
        exact fun he => h ((List.Nodup.getElem_inj_iff hks).mp he)
      simp [this]

/-- **Adding a pair to the table of a list of pairs.** -/
theorem add_grouped (pairs : List (κ × ν)) (k : κ) (v : ν) :
    add k v (grouped pairs) = grouped (pairs ++ [(k, v)]) := by
  set ks := (pairs.map Prod.fst).eraseDups with hks
  have hnodup : ks.Nodup := nodup_eraseDups _
  have hmem : k ∈ ks ↔ k ∈ pairs.map Prod.fst := List.mem_eraseDups
  have hgrouped : grouped pairs = ks.map fun k' => ⟨k', valuesOf k' pairs⟩ := rfl
  have hlong : grouped (pairs ++ [(k, v)]) = (if k ∈ ks then ks else ks ++ [k]).map fun k' =>
      ⟨k', if k = k' then valuesOf k' pairs ++ [v] else valuesOf k' pairs⟩ := by
    rw [grouped, List.map_append, List.map_singleton, eraseDups_append_singleton, ← hks]
    simp only [valuesOf_append_singleton, hmem]
  rw [add, intern, hgrouped, find_map, hlong]
  cases hfind : ks.findIdx? fun k' => decide (k' = k) with
  | some i =>
    obtain ⟨hi, hk, -⟩ := List.findIdx?_eq_some_iff_getElem.mp hfind
    have hk : ks[i] = k := by simpa using hk
    rw [if_pos (hk ▸ List.getElem_mem hi)]
    exact addAt_map _ k v hnodup hi hk
  | none =>
    have hnot : k ∉ ks := by
      intro hin
      simpa using List.findIdx?_eq_none_iff.mp hfind k hin
    rw [if_neg hnot]
    -- the fresh entry is the one extended, and no other entry has its key
    have hext : (ks.map fun k' => (⟨k', valuesOf k' pairs⟩ : Entry κ ν)) ++ [⟨k, []⟩]
        = (ks ++ [k]).map fun k' => ⟨k', valuesOf k' pairs⟩ := by
      rw [List.map_append, List.map_singleton, valuesOf_eq_nil (fun h => hnot (hmem.mpr h))]
    have hnodup' : (ks ++ [k]).Nodup := by
      rw [List.nodup_append]
      exact ⟨hnodup, List.nodup_singleton k, by
        intro a ha b hb hab
        rw [List.mem_singleton] at hb
        exact hnot (by rw [← hb, ← hab]; exact ha)⟩
    simp only [hext, List.length_map]
    exact addAt_map _ k v hnodup' (by simp) (by simp)

/-- **Adding a list of pairs to the table of a list of pairs.** -/
theorem addAll_grouped (done pairs : List (κ × ν)) :
    addAll pairs (grouped done) = grouped (done ++ pairs) := by
  induction pairs generalizing done with
  | nil => rw [addAll_nil, List.append_nil]
  | cons p pairs ih => rw [addAll_cons, add_grouped, ih, List.append_assoc, List.singleton_append]

/-! ### Keys and weights -/

/-- The keys of a table, in order. -/
def keys (env : List (Entry κ ν)) : List κ := env.map Entry.key

/-- The sum of the weights of all values. -/
def weight (f : ν → ℕ) (env : List (Entry κ ν)) : ℕ :=
  (env.map fun e => (e.vals.map f).sum).sum

omit [DecidableEq κ] in
@[simp] theorem keys_addAt (i : ℕ) (v : ν) (env : List (Entry κ ν)) :
    keys (addAt i v env) = keys env := by
  apply List.ext_getElem
  · simp [keys, addAt]
  · intro j hj hj'
    simp only [keys, addAt, List.getElem_map, List.getElem_modify]
    split <;> rfl

/-- Looking a key up appends at most that key. -/
theorem keys_prefix_intern (k : κ) (env : List (Entry κ ν)) :
    keys env <+: keys (intern k env).1 := by
  unfold intern
  split
  · exact List.prefix_rfl
  · exact ⟨[k], by simp [keys]⟩

theorem find_lt {k : κ} {env : List (Entry κ ν)} {i : ℕ} (h : find k env = some i) :
    i < env.length := by
  obtain ⟨hi, -⟩ := List.findIdx?_eq_some_iff_getElem.mp h
  exact hi

/-- The position given for a key is one of the table. -/
theorem intern_lt (k : κ) (env : List (Entry κ ν)) :
    (intern k env).2 < (intern k env).1.length := by
  unfold intern
  split
  · next i h => exact find_lt h
  · simp

omit [DecidableEq κ] in
@[simp] theorem length_addAt (i : ℕ) (v : ν) (env : List (Entry κ ν)) :
    (addAt i v env).length = env.length := by
  simp [addAt]

@[simp] theorem weight_intern (f : ν → ℕ) (k : κ) (env : List (Entry κ ν)) :
    weight f (intern k env).1 = weight f env := by
  unfold intern
  split
  · rfl
  · simp [weight]

omit [DecidableEq κ] in
/-- **A value adds its weight** to the table. -/
theorem weight_addAt (f : ν → ℕ) {i : ℕ} (v : ν) {env : List (Entry κ ν)} (h : i < env.length) :
    weight f (addAt i v env) = weight f env + f v := by
  induction env generalizing i with
  | nil => exact absurd h (Nat.not_lt_zero i)
  | cons e env ih =>
    cases i with
    | zero =>
      simp only [weight, addAt, List.modify_zero_cons, List.map_cons, List.map_append, List.map_nil,
        List.sum_cons, List.sum_append, List.sum_nil]
      omega
    | succ i =>
      have hrest := ih (i := i) (by simpa using h)
      simp only [weight, addAt, List.modify_succ_cons, List.map_cons, List.sum_cons] at hrest ⊢
      omega

/-! ### Tables with every key once -/

/-- Looking a key up keeps every key once. -/
theorem nodup_keys_intern (k : κ) {env : List (Entry κ ν)} (h : (keys env).Nodup) :
    (keys (intern k env).1).Nodup := by
  unfold intern
  split
  · exact h
  · next hfind =>
    have hnot : k ∉ keys env := by
      intro hmem
      obtain ⟨e, he, hk⟩ := List.mem_map.mp hmem
      simpa [hk] using List.findIdx?_eq_none_iff.mp hfind e he
    rw [keys, List.map_append, List.nodup_append]
    refine ⟨h, List.nodup_singleton _, fun a ha b hb hab => hnot ?_⟩
    rw [List.map_singleton, List.mem_singleton] at hb
    have hak : a = k := hab.trans hb
    exact hak ▸ ha

/-- A key is found if the table has it. -/
theorem isSome_find_iff (k : κ) (env : List (Entry κ ν)) : (find k env).isSome ↔ k ∈ keys env := by
  rw [find, List.findIdx?_isSome, List.any_eq_true, keys, List.mem_map]
  simp

/-- **An entry found is the only one of the key**, in a table with every key once. -/
theorem find_eq_some_iff {k : κ} {env : List (Entry κ ν)} (h : (keys env).Nodup) {i : ℕ} :
    find k env = some i ↔ (keys env)[i]? = some k := by
  constructor
  · intro hfind
    obtain ⟨hi, hk, -⟩ := List.findIdx?_eq_some_iff_getElem.mp hfind
    rw [keys, List.getElem?_map, List.getElem?_eq_getElem hi]
    simpa using hk
  · intro hget
    obtain ⟨j, hj⟩ := Option.isSome_iff_exists.mp
      ((isSome_find_iff k env).mpr (List.mem_of_getElem? hget))
    obtain ⟨hi, hk, -⟩ := List.findIdx?_eq_some_iff_getElem.mp hj
    have hj' : (keys env)[j]? = some k := by
      rw [keys, List.getElem?_map, List.getElem?_eq_getElem hi]
      simpa using hk
    have hlt : j < (keys env).length := (List.getElem?_eq_some_iff.mp hj').1
    rw [hj, (List.getElem?_inj hlt h).mp (hj'.trans hget.symm)]

/-! ### Lookup in the table of a list of pairs -/

theorem mem_keys_grouped {k : κ} {pairs : List (κ × ν)} :
    k ∈ keys (grouped pairs) ↔ k ∈ pairs.map Prod.fst := by
  rw [keys, grouped, List.map_map]
  exact Iff.trans (by simp) List.mem_eraseDups

theorem find_grouped_eq_none {k : κ} {pairs : List (κ × ν)} :
    find k (grouped pairs) = none ↔ k ∉ pairs.map Prod.fst := by
  rw [← mem_keys_grouped, ← isSome_find_iff, Bool.not_eq_true, Option.isSome_eq_false_iff,
    Option.isNone_iff_eq_none]

/-- **What is found under a key** are all its values. -/
theorem getElem?_of_find_grouped {k : κ} {pairs : List (κ × ν)} {i : ℕ}
    (h : find k (grouped pairs) = some i) : (grouped pairs)[i]? = some ⟨k, valuesOf k pairs⟩ := by
  obtain ⟨hi, hk, -⟩ := List.findIdx?_eq_some_iff_getElem.mp h
  have hk : (grouped pairs)[i].key = k := by simpa using hk
  obtain ⟨k', -, he⟩ := List.mem_map.mp (List.getElem_mem hi)
  rw [← he] at hk
  obtain rfl : k' = k := hk
  rw [List.getElem?_eq_getElem hi, ← he]

/-! ### Growth -/

/-- A table grows: the entries keep their places and their keys, and values are added
to theirs. -/
def Grows (env env' : List (Entry κ ν)) : Prop :=
  ∀ (i : ℕ) (e : Entry κ ν), env[i]? = some e →
    ∃ e' : Entry κ ν, env'[i]? = some e' ∧ e'.key = e.key ∧ e.vals <+: e'.vals

omit [DecidableEq κ] in
theorem Grows.refl (env : List (Entry κ ν)) : Grows env env :=
  fun _ e he => ⟨e, he, rfl, List.prefix_rfl⟩

omit [DecidableEq κ] in
theorem Grows.trans {env env' env'' : List (Entry κ ν)} (h : Grows env env')
    (h' : Grows env' env'') : Grows env env'' := by
  intro i e he
  obtain ⟨e', he', hkey, hvals⟩ := h i e he
  obtain ⟨e'', he'', hkey', hvals'⟩ := h' i e' he'
  exact ⟨e'', he'', hkey'.trans hkey, hvals.trans hvals'⟩

omit [DecidableEq κ] in
theorem Grows.mem_keys {env env' : List (Entry κ ν)} (h : Grows env env') {k : κ}
    (hk : k ∈ keys env) : k ∈ keys env' := by
  obtain ⟨e, he, rfl⟩ := List.mem_map.mp hk
  obtain ⟨i, hi⟩ := List.getElem?_of_mem he
  obtain ⟨e', he', hkey, -⟩ := h i e hi
  exact List.mem_map.mpr ⟨e', List.mem_of_getElem? he', hkey⟩

theorem grows_intern (k : κ) (env : List (Entry κ ν)) : Grows env (intern k env).1 := by
  unfold intern
  split
  · exact Grows.refl env
  · intro i e he
    have hi : i < env.length := (List.getElem?_eq_some_iff.mp he).1
    exact ⟨e, (List.getElem?_append_left hi).trans he, rfl, List.prefix_rfl⟩

omit [DecidableEq κ] in
theorem grows_addAt (i : ℕ) (v : ν) (env : List (Entry κ ν)) : Grows env (addAt i v env) := by
  intro j e he
  rw [addAt, List.getElem?_modify, he]
  split
  · exact ⟨_, rfl, rfl, List.prefix_append _ _⟩
  · exact ⟨e, rfl, rfl, List.prefix_rfl⟩

/-! ### What a table mentions -/

/-- Some key or some value has a given property. -/
def Mentions (p : κ → Prop) (q : ν → Prop) (env : List (Entry κ ν)) : Prop :=
  ∃ e ∈ env, p e.key ∨ ∃ v ∈ e.vals, q v

omit [DecidableEq κ] in
theorem not_mentions_iff (p : κ → Prop) (q : ν → Prop) (env : List (Entry κ ν)) :
    ¬ Mentions p q env ↔ ∀ e ∈ env, ¬ p e.key ∧ ∀ v ∈ e.vals, ¬ q v := by
  simp [Mentions, not_or]

omit [DecidableEq κ] in
theorem mentions_cons (p : κ → Prop) (q : ν → Prop) (e : Entry κ ν) (env : List (Entry κ ν)) :
    Mentions p q (e :: env) ↔ (p e.key ∨ ∃ v ∈ e.vals, q v) ∨ Mentions p q env := by
  simp [Mentions]

omit [DecidableEq κ] in
/-- A table mentions what a value added to it mentions. -/
theorem mentions_addAt (p : κ → Prop) (q : ν → Prop) {i : ℕ} (v : ν) {env : List (Entry κ ν)}
    (h : i < env.length) : Mentions p q (addAt i v env) ↔ Mentions p q env ∨ q v := by
  induction env generalizing i with
  | nil => exact absurd h (Nat.not_lt_zero i)
  | cons e env ih =>
    cases i with
    | zero =>
      have hvals : (∃ v' ∈ e.vals ++ [v], q v') ↔ (∃ v' ∈ e.vals, q v') ∨ q v := by
        simp [or_and_right, exists_or]
      rw [addAt, List.modify_zero_cons, mentions_cons, mentions_cons, hvals, ← or_assoc]
      exact or_right_comm
    | succ i =>
      have hrest := ih (i := i) (by simpa using h)
      rw [addAt, List.modify_succ_cons, mentions_cons, mentions_cons]
      exact (or_congr_right hrest).trans or_assoc.symm

/-- And what a key looked up in it mentions. -/
theorem mentions_intern (p : κ → Prop) (q : ν → Prop) (k : κ) (env : List (Entry κ ν)) :
    Mentions p q (intern k env).1 ↔ Mentions p q env ∨ p k := by
  unfold intern
  split
  · next i hfind =>
    refine ⟨Or.inl, fun h => h.elim id fun hp => ?_⟩
    obtain ⟨hi, hk, -⟩ := List.findIdx?_eq_some_iff_getElem.mp hfind
    have hk : env[i].key = k := by simpa using hk
    exact ⟨env[i], List.getElem_mem hi, Or.inl (hk ▸ hp)⟩
  · simp [Mentions, or_and_right, exists_or]

end Multimap
