import ModCplusplus.General.Multimap
import ModCplusplus.Loader

/-!
# Loading, entry by entry

`load_handlers` visits the entries in whatever order the table has.  An entry writes
under its own name only, and one that fails writes nothing, so that the tables come out
the same for every order, as if the entries that fail were not there.

What the loads return is dropped, and `load_handlers` returns NULL whether any of them
has failed or not.

## Main definitions

* `lastPath` — the path a name was given last.
* `loads` — the shared object and the symbol of an entry load.
* `LoadedAlone` — what is loaded of an entry does not depend on the others.
* `loadResults`, `ErrorsReported` — what the loads of a run return, and that
  `load_handlers` tells if one of them fails.

## Main results

* `lookup_tableOf` — the table of paths.
* `servers_loadEntries_filter` — entries that fail are as if not there.
* `loaded_alone` — the law.
* `errors_reported_iff` — when errors are reported.
-/

namespace ModCplusplus

open Multimap

/-! ### Paths -/

/-- The path a name was given last. -/
def lastPath (pairs : List (CStr × CStr)) (name : CStr) : Option CStr :=
  (valuesOf name pairs).getLast?

theorem lookup_tableOf (pairs : List (CStr × CStr)) (name : CStr) :
    (tableOf pairs).lookup name = lastPath pairs name := by
  induction pairs using List.reverseRecOn with
  | nil => rfl
  | append_singleton pairs p ih =>
    rw [tableOf_append_singleton, lastPath, valuesOf_append_singleton]
    by_cases h : p.1 = name
    · rw [if_pos h, ← h, AList.lookup_insert, List.getLast?_append, List.getLast?_singleton]
      rfl
    · rw [if_neg h, AList.lookup_insert_ne (Ne.symm h)]
      exact ih

/-! ### One entry -/

/-- The shared object and the symbol of an entry load. -/
def loads (env : DsoEnv) (server : ℕ) (entry : PathEntry) : Bool :=
  match env.aprDsoLoad server entry, env.aprDsoSym server entry with
  | none, .ok _ => true
  | _, _ => false

section

variable (env : DsoEnv) (v : ℕ) (entry : PathEntry) (c : Child)

theorem isNone_loadCppModule : (loadCppModule env v entry c).1.isNone = loads env v entry := by
  unfold loadCppModule loads
  cases env.aprDsoLoad v entry with
  | some why => rfl
  | none => cases env.aprDsoSym v entry <;> rfl

/-- **An entry that fails leaves all tables as they were.** -/
theorem servers_of_fails (h : loads env v entry = false) :
    (loadCppModule env v entry c).2.servers = c.servers := by
  unfold loads at h
  unfold loadCppModule
  cases hload : env.aprDsoLoad v entry with
  | some why => rfl
  | none =>
    cases hsym : env.aprDsoSym v entry with
    | error why => rfl
    | ok curHandler => simp [hload, hsym] at h

theorem made_eq_some_iff (k : Kind) (p : Ptr k) :
    made env v entry k = some p ↔ ∃ curHandler, env.aprDsoLoad v entry = none ∧
      env.aprDsoSym v entry = .ok curHandler ∧ curHandler.make v k = some p := by
  unfold made
  cases env.aprDsoLoad v entry with
  | some why => simp
  | none =>
    cases env.aprDsoSym v entry with
    | error why => simp
    | ok curHandler => simp

end

/-! ### Runs over the entries -/

section

variable {env : DsoEnv} {v : ℕ} {c c' : Child}

theorem servers_keep_congr (h : c.servers = c'.servers) (name : CStr) (sohandle sohandle' : ℕ)
    (k : Kind) (result : Option (Ptr k)) :
    (c.keep v name sohandle k result).servers = (c'.keep v name sohandle' k result).servers := by
  cases result with
  | none => exact h
  | some p => simp only [Child.keep, h]

/-- What an entry writes to the tables depends on the tables alone. -/
theorem servers_loadCppModule_congr (h : c.servers = c'.servers) (entry : PathEntry) :
    (loadCppModule env v entry c).2.servers = (loadCppModule env v entry c').2.servers := by
  unfold loadCppModule
  cases env.aprDsoLoad v entry with
  | some why => exact h
  | none =>
    cases env.aprDsoSym v entry with
    | error why => exact h
    | ok curHandler =>
      refine servers_keep_congr ?_ _ _ _ _ _
      refine servers_keep_congr ?_ _ _ _ _ _
      refine servers_keep_congr ?_ _ _ _ _ _
      refine servers_keep_congr ?_ _ _ _ _ _
      exact h

/-- **Entries that fail are as if not there.** -/
theorem servers_loadEntries_filter (entries : List PathEntry) (h : c.servers = c'.servers) :
    (loadEntries env v entries c).servers
      = (loadEntries env v (entries.filter (loads env v)) c').servers := by
  induction entries generalizing c c' with
  | nil => exact h
  | cons entry entries ih =>
    cases hloads : loads env v entry with
    | true =>
      rw [List.filter_cons_of_pos hloads]
      exact ih (servers_loadCppModule_congr h entry)
    | false =>
      rw [List.filter_cons_of_neg (by rw [hloads]; exact Bool.false_ne_true)]
      exact ih ((servers_of_fails env v entry c hloads).trans h)

end

/-! ### The law -/

/-- **What is loaded of an entry does not depend on the others**: each table of a server
maps exactly the names whose last path and symbol load and whose factory returns an
instance, to that instance, and so for every order; an entry that fails leaves all tables
as they were, and the others are loaded as if it were not there. -/
structure LoadedAlone (env : DsoEnv) (v : ℕ) (ds : List Directive) (c : Child) : Prop where
  tables : ∀ order k name p,
    ((loadHandlers env order v c).2.servers v).getInstance k name = some p ↔
      ∃ path curHandler, lastPath (bound (.paths v) ds) name = some path ∧
        env.aprDsoLoad v (name, path) = none ∧ env.aprDsoSym v (name, path) = .ok curHandler ∧
        curHandler.make v k = some p
  same : ∀ order order' k name,
    ((loadHandlers env order v c).2.servers v).getInstance k name
      = ((loadHandlers env order' v c).2.servers v).getInstance k name
  fails : ∀ entry c', (loadCppModule env v entry c').1.isSome →
    (loadCppModule env v entry c').2.servers = c'.servers
  others : ∀ order, (loadHandlers env order v c).2.servers
    = (loadEntries env v ((order.entries (c.servers v).handlerPathHash).filter (loads env v))
        c).servers

/-- **Loading does not depend on the order, and failures stay local**, after any run of
directives. -/
theorem loaded_alone (env : DsoEnv) (v : ℕ) (ds : List Directive) :
    ∃ messages cfg, configure ds Config.start = .ok (messages, cfg) ∧
      LoadedAlone env v ds (Child.start cfg.servers) := by
  obtain ⟨cfg, hrun, hr⟩ := configure_start ds
  have hlookup (order : HashOrder CStr) (k : Kind) (name : CStr) :
      ((loadHandlers env order v (Child.start cfg.servers)).2.servers v).getInstance k name
        = (lastPath (bound (.paths v) ds) name).bind fun path => made env v (name, path) k := by
    rw [lookup_loadHandlers env v order (hr.unspawned v) k name, ← lookup_tableOf,
      ← hr.handlerPathHash_eq]
    rfl
  refine ⟨_, cfg, hrun, fun order k name p => ?_, fun order order' k name => ?_,
    fun entry c' h => ?_, fun order => servers_loadEntries_filter _ rfl⟩
  · rw [hlookup, Option.bind_eq_some_iff]
    constructor
    · rintro ⟨path, hpath, hmade⟩
      obtain ⟨curHandler, hload, hsym, hmake⟩ := (made_eq_some_iff env v (name, path) k p).mp hmade
      exact ⟨path, curHandler, hpath, hload, hsym, hmake⟩
    · rintro ⟨path, curHandler, hpath, hload, hsym, hmake⟩
      exact ⟨path, hpath, (made_eq_some_iff env v (name, path) k p).mpr
        ⟨curHandler, hload, hsym, hmake⟩⟩
  · rw [hlookup, hlookup]
  · refine servers_of_fails env v entry c' ?_
    rw [← isNone_loadCppModule env v entry c', ← Option.not_isSome, h]
    rfl

/-! ### Errors -/

/-- What `load_cpp_module` returns for each of the entries, one after the other. -/
def loadResults (env : DsoEnv) (v : ℕ) : List PathEntry → Child → List (Option Str)
  | [], _ => []
  | entry :: entries, c =>
      (loadCppModule env v entry c).1 :: loadResults env v entries (loadCppModule env v entry c).2

theorem exists_isSome_loadResults (env : DsoEnv) (v : ℕ) (entries : List PathEntry) (c : Child) :
    (∃ result ∈ loadResults env v entries c, result.isSome) ↔
      ∃ entry ∈ entries, loads env v entry = false := by
  induction entries generalizing c with
  | nil => simp [loadResults]
  | cons entry entries ih =>
    have hfirst : (loadCppModule env v entry c).1.isSome ↔ loads env v entry = false := by
      rw [← isNone_loadCppModule env v entry c]
      cases (loadCppModule env v entry c).1 <;> simp
    simp only [loadResults, List.mem_cons, exists_eq_or_imp, ih, hfirst]

/-- **Errors are reported**: `load_handlers` returns a message if and only if some
`load_cpp_module` has. -/
def ErrorsReported (env : DsoEnv) (order : HashOrder CStr) (v : ℕ) (c : Child) : Prop :=
  (loadHandlers env order v c).1.isSome ↔
    ∃ result ∈ loadResults env v (order.entries (c.servers v).handlerPathHash) c, result.isSome

/-- **Errors are reported if and only if there are none**: the shared object and the
symbol of every entry load. -/
theorem errors_reported_iff (env : DsoEnv) (order : HashOrder CStr) (v : ℕ) (c : Child) :
    ErrorsReported env order v c ↔
      ∀ name path, (c.servers v).handlerPathHash.lookup name = some path →
        env.aprDsoLoad v (name, path) = none ∧
          ∃ curHandler, env.aprDsoSym v (name, path) = .ok curHandler := by
  have hnull : (loadHandlers env order v c).1.isSome = false := rfl
  have hloads (entry : PathEntry) : loads env v entry = true ↔
      env.aprDsoLoad v entry = none ∧ ∃ curHandler, env.aprDsoSym v entry = .ok curHandler := by
    unfold loads
    cases env.aprDsoLoad v entry with
    | some why => simp
    | none => cases env.aprDsoSym v entry <;> simp
  rw [ErrorsReported, hnull, exists_isSome_loadResults]
  simp only [Bool.false_eq_true, false_iff, not_exists, not_and, Bool.not_eq_false, Prod.forall,
    order.mem_entries_iff, hloads]

/-- An environment in which no shared object loads. -/
def brokenEnv : DsoEnv where
  aprDsoLoad _ _ := some (literal "no such file")
  aprDsoSym _ _ := .error []

/-- One entry that does not load: NULL is returned. -/
theorem not_errorsReported_broken :
    (loadHandlers brokenEnv HashOrder.stored 0 (Child.start fun _ =>
        { createCppServerConfig with
          handlerPathHash := AList.insert (cStr (literal "f")) (cStr (literal "/")) ∅ })).1 = none ∧
      ¬ ErrorsReported brokenEnv HashOrder.stored 0 (Child.start fun _ =>
        { createCppServerConfig with
          handlerPathHash := AList.insert (cStr (literal "f")) (cStr (literal "/")) ∅ }) := by
  refine ⟨rfl, fun h => Bool.false_ne_true (h.mpr ?_)⟩
  refine (exists_isSome_loadResults _ _ _ _).mpr ⟨(cStr (literal "f"), cStr (literal "/")), ?_, rfl⟩
  exact (HashOrder.stored.mem_entries_iff _).mpr (AList.lookup_insert _)

end ModCplusplus
