import ModCplusplus.Loader

/-!
# Lifetime of the instances of a child

The pool of a child is a stack of cleanups.  Loading a shared object pushes the
cleanup that unloads it, and every filter and protocol it makes pushes one that
deletes it; handlers have no cleanup of their own and are deleted by one walk of
their table, which is pushed when everything is loaded.  So each instance is
deleted once, and before the shared object with its code is gone.

## Main definitions

* `Event`, `Cleanup.run`, `Child.destroyPool` — what happens as a child ends.
* `Owned`, `HandlersKept` — the invariants of loading.
* `FreshInstances` — no factory returns an object twice.

## Main results

* `Owned.loadCppModule`, `HandlersKept.loadCppModule` — one entry keeps them.
* `perm_deletes` — what is deleted is what was made.
* `instances_deleted_before_unload` — once each, and in time.
-/

namespace ModCplusplus

/-- What a cleanup does: `delete` an object, or unload a shared object. -/
inductive Event where
  | delete (addr : ℕ)
  | unload (sohandle : ℕ)
  deriving DecidableEq

/-- The event is the deletion of an object. -/
def Event.isDelete : Event → Bool
  | .delete _ => true
  | .unload _ => false

/-- What each cleanup does: `cpp_close_handlers` calls `delete_handler` for every
entry of the handler table of its server. -/
def Cleanup.run (closing : HashOrder ApacheHandler) (servers : ℕ → CppServerRec) :
    Cleanup → List Event
  | .dsoCleanup sohandle => [.unload sohandle]
  | .deleteInputFilter filter => [.delete filter.addr]
  | .deleteOutputFilter filter => [.delete filter.addr]
  | .deleteProtocolHandler protocol => [.delete protocol.addr]
  | .cppCloseHandlers s =>
      (closing.entries (servers s).handlerHash).map fun e => .delete e.2.addr

/-- The destruction of the pool of a child. -/
def Child.destroyPool (closing : HashOrder ApacheHandler) (c : Child) : List Event :=
  CleanupStack.destroy (Cleanup.run closing c.servers) c.pool

/-- The deletion of an instance. -/
def Created.deletion (i : Created) : Event := .delete i.addr

/-! ### Filters, protocols and shared objects -/

/-- **The pool owns the filters and protocols**: it deletes each of them, before
the shared object it came from, and unloads every shared object once. -/
structure Owned (run : Cleanup → List Event) (c : Child) : Prop where
  deletes : ((CleanupStack.destroy run c.pool).filter Event.isDelete).Perm
    ((c.created.filter fun i => i.kind ≠ .handler).map Created.deletion)
  unloads : ∀ sohandle, (CleanupStack.destroy run c.pool).count (.unload sohandle)
    = if sohandle < c.nextHandle then 1 else 0
  handles : ∀ i ∈ c.created, i.sohandle < c.nextHandle
  inTime : ∀ i ∈ c.created, i.kind ≠ .handler →
    CleanupStack.Precedes (CleanupStack.destroy run c.pool) i.deletion (.unload i.sohandle)

theorem owned_start (run : Cleanup → List Event) (servers : ℕ → CppServerRec) :
    Owned run (Child.start servers) where
  deletes := List.Perm.refl _
  unloads _ := rfl
  handles _ hi := absurd hi List.not_mem_nil
  inTime _ hi := absurd hi List.not_mem_nil

section

variable {closing : HashOrder ApacheHandler} {servers : ℕ → CppServerRec}

theorem run_of_deleteCleanup (closing : HashOrder ApacheHandler) (servers : ℕ → CppServerRec)
    {k : Kind} {p : Ptr k} {cleanup : Cleanup} (h : deleteCleanup k p = some cleanup) :
    cleanup.run closing servers = [.delete p.addr] ∧ k ≠ .handler := by
  cases k <;> simp only [deleteCleanup, Option.some.injEq, reduceCtorEq] at h <;> subst h <;>
    exact ⟨rfl, by decide⟩

theorem eq_handler_of_deleteCleanup {k : Kind} {p : Ptr k} (h : deleteCleanup k p = none) :
    k = .handler := by
  cases k with
  | handler => rfl
  | inputFilter => exact absurd h (by simp [deleteCleanup])
  | outputFilter => exact absurd h (by simp [deleteCleanup])
  | protocol => exact absurd h (by simp [deleteCleanup])

/-- An instance comes from a shared object that has been loaded. -/
theorem handles_keep {c : Child} (h : ∀ i ∈ c.created, i.sohandle < c.nextHandle) (v : ℕ)
    (name : CStr) {sohandle : ℕ} (hso : sohandle < c.nextHandle) (k : Kind)
    (result : Option (Ptr k)) :
    ∀ i ∈ (c.keep v name sohandle k result).created, i.sohandle < c.nextHandle := by
  cases result with
  | none => exact h
  | some p =>
    intro i hi
    rcases List.mem_append.mp hi with hi | hi
    · exact h i hi
    · rw [List.mem_singleton.mp hi]
      exact hso

/-- A handler is not taken over by the pool. -/
theorem Owned.keep_handler {c : Child} (h : Owned (Cleanup.run closing servers) c) (v : ℕ)
    (name : CStr) {sohandle : ℕ} (hso : sohandle < c.nextHandle) (p : ApacheHandler) :
    Owned (Cleanup.run closing servers) (c.keep v name sohandle .handler (some p)) where
  deletes := by simpa [Child.keep, deleteCleanup, List.filter_append] using h.deletes
  unloads := h.unloads
  handles := handles_keep h.handles v name hso .handler (some p)
  inTime := by
    intro i hi hne
    rcases List.mem_append.mp hi with hi | hi
    · exact h.inTime i hi hne
    · rw [List.mem_singleton.mp hi] at hne
      exact absurd rfl hne

/-- An instance with a cleanup is taken over by the pool. -/
theorem Owned.keep_of_deleteCleanup {c : Child} (h : Owned (Cleanup.run closing servers) c) (v : ℕ)
    (name : CStr) {sohandle : ℕ} (hso : sohandle < c.nextHandle) {k : Kind} {p : Ptr k}
    {cleanup : Cleanup} (hcleanup : deleteCleanup k p = some cleanup) :
    Owned (Cleanup.run closing servers) (c.keep v name sohandle k (some p)) := by
  obtain ⟨hrun, hk⟩ := run_of_deleteCleanup closing servers hcleanup
  have hpool : (c.keep v name sohandle k (some p)).pool = CleanupStack.register cleanup c.pool := by
    simp only [Child.keep, hcleanup, Option.elim_some]
  refine ⟨?_, ?_, handles_keep h.handles v name hso k (some p), ?_⟩
  · rw [hpool, CleanupStack.destroy_register, hrun, List.filter_append]
    simp only [Child.keep, List.filter_append, List.map_append]
    refine List.perm_append_comm.trans (h.deletes.append ?_)
    simp [hk, Created.deletion, Event.isDelete]
  · intro so
    have hother : [Event.delete p.addr].count (.unload so) = 0 := List.count_eq_zero.mpr (by simp)
    rw [hpool, CleanupStack.count_destroy_register, hrun, hother, Nat.zero_add, h.unloads so]
    rfl
  · intro i hi hne
    rw [hpool]
    rcases List.mem_append.mp hi with hi | hi
    · exact (h.inTime i hi hne).register cleanup
    · have hunload : Event.unload sohandle
          ∈ CleanupStack.destroy (Cleanup.run closing servers) c.pool := by
        rw [← List.count_pos_iff, h.unloads, if_pos hso]
        exact Nat.one_pos
      rw [List.mem_singleton.mp hi, CleanupStack.destroy_register, hrun]
      exact CleanupStack.precedes_append (List.mem_singleton_self _) hunload

/-- **The result of a factory**, kept for a loaded shared object, leaves the pool in
charge. -/
theorem Owned.keep {c : Child} (h : Owned (Cleanup.run closing servers) c) (v : ℕ) (name : CStr)
    {sohandle : ℕ} (hso : sohandle < c.nextHandle) (k : Kind) (result : Option (Ptr k)) :
    Owned (Cleanup.run closing servers) (c.keep v name sohandle k result) := by
  cases result with
  | none => exact h
  | some p =>
    cases hcleanup : deleteCleanup k p with
    | none =>
      obtain rfl := eq_handler_of_deleteCleanup hcleanup
      exact h.keep_handler v name hso p
    | some cleanup => exact h.keep_of_deleteCleanup v name hso hcleanup

/-- A shared object that has been loaded is unloaded once. -/
theorem Owned.load {c : Child} (h : Owned (Cleanup.run closing servers) c) :
    Owned (Cleanup.run closing servers)
      { c with pool := CleanupStack.register (.dsoCleanup c.nextHandle) c.pool
               nextHandle := c.nextHandle + 1 } where
  deletes := by
    simpa [Cleanup.run, Event.isDelete] using h.deletes
  unloads so := by
    show _ = if so < c.nextHandle + 1 then 1 else 0
    rw [CleanupStack.count_destroy_register, h.unloads so]
    rcases Nat.lt_trichotomy so c.nextHandle with hlt | rfl | hgt
    · rw [if_pos hlt, if_pos (by omega), Cleanup.run, List.count_eq_zero.mpr]
      simp [hlt.ne]
    · rw [if_neg (by omega), if_pos (by omega), Cleanup.run]
      exact List.count_singleton_self
    · rw [if_neg (by omega), if_neg (by omega), Cleanup.run, List.count_eq_zero.mpr]
      simp [hgt.ne']
  handles i hi := Nat.lt_succ_of_lt (h.handles i hi)
  inTime i hi hne := (h.inTime i hi hne).register _

/-- **Loading an entry keeps the pool in charge.** -/
theorem Owned.loadCppModule {c : Child} (h : Owned (Cleanup.run closing servers) c) (env : DsoEnv)
    (v : ℕ) (entry : PathEntry) :
    Owned (Cleanup.run closing servers) (loadCppModule env v entry c).2 := by
  unfold ModCplusplus.loadCppModule
  cases env.aprDsoLoad v entry with
  | some why => exact h
  | none =>
    cases env.aprDsoSym v entry with
    | error why => exact h.load
    | ok curHandler =>
      have hso : ∀ (c' : Child) (name : CStr) (so : ℕ) (k : Kind) (result : Option (Ptr k)),
          (c'.keep v name so k result).nextHandle = c'.nextHandle := by
        intro c' name so k result
        cases result <;> rfl
      apply Owned.keep _ _ _ (by simp only [hso]; exact Nat.lt_succ_self _)
      apply Owned.keep _ _ _ (by simp only [hso]; exact Nat.lt_succ_self _)
      apply Owned.keep _ _ _ (by simp only [hso]; exact Nat.lt_succ_self _)
      exact h.load.keep _ _ (Nat.lt_succ_self _) _ _

theorem Owned.loadEntries (env : DsoEnv) (v : ℕ) : ∀ (entries : List PathEntry) {c : Child},
    Owned (Cleanup.run closing servers) c →
      Owned (Cleanup.run closing servers) (loadEntries env v entries c) := by
  intro entries
  induction entries with
  | nil => intro c h; exact h
  | cons entry entries ih => intro c h; exact ih (h.loadCppModule env v entry)

end

/-! ### Handlers -/

/-- **The handler table holds the handlers**, each under a name of its own. -/
def HandlersKept (v : ℕ) (c : Child) : Prop :=
  ((c.servers v).handlerHash.entries.map fun e => Event.delete e.2.addr).Perm
    ((c.created.filter fun i => i.kind = .handler).map Created.deletion)

/-- An instance that is not a handler does not count. -/
theorem HandlersKept.keep_of_ne {v : ℕ} {c : Child} (h : HandlersKept v c) (name : CStr)
    (sohandle : ℕ) {k : Kind} (hk : k ≠ .handler) (result : Option (Ptr k)) :
    HandlersKept v (c.keep v name sohandle k result) := by
  cases result with
  | none => exact h
  | some p =>
    have htable : ((c.servers v).setInstance name k p).handlerHash = (c.servers v).handlerHash := by
      cases k with
      | handler => exact absurd rfl hk
      | inputFilter => rfl
      | outputFilter => rfl
      | protocol => rfl
    simpa [HandlersKept, Child.keep, htable, List.filter_append, hk] using h

/-- A handler under a new name joins the others. -/
theorem HandlersKept.keep_handler {v : ℕ} {c : Child} (h : HandlersKept v c) {name : CStr}
    (hname : (c.servers v).getInstance .handler name = none) (sohandle : ℕ)
    (result : Option ApacheHandler) :
    HandlersKept v (c.keep v name sohandle .handler result) := by
  cases result with
  | none => exact h
  | some p =>
    have hentries : ((c.servers v).handlerHash.insert name p).entries
        = ⟨name, p⟩ :: (c.servers v).handlerHash.entries :=
      AList.entries_insert_of_notMem (AList.lookup_eq_none.mp hname)
    simp only [HandlersKept, Child.keep, Function.update_self, CppServerRec.setInstance, hentries,
      List.map_cons, List.filter_append, List.map_append]
    exact (h.cons _).trans (List.perm_append_singleton _ _).symm

/-- **Loading an entry under a new name keeps the handlers together.** -/
theorem HandlersKept.loadCppModule {v : ℕ} {c : Child} (h : HandlersKept v c) (env : DsoEnv)
    {entry : PathEntry} (hname : (c.servers v).getInstance .handler entry.1 = none) :
    HandlersKept v (loadCppModule env v entry c).2 := by
  unfold ModCplusplus.loadCppModule
  cases env.aprDsoLoad v entry with
  | some why => exact h
  | none =>
    cases env.aprDsoSym v entry with
    | error why => exact h
    | ok curHandler =>
      apply HandlersKept.keep_of_ne _ _ _ (by decide)
      apply HandlersKept.keep_of_ne _ _ _ (by decide)
      apply HandlersKept.keep_of_ne _ _ _ (by decide)
      have hloaded : HandlersKept v
          { c with pool := CleanupStack.register (.dsoCleanup c.nextHandle) c.pool
                   nextHandle := c.nextHandle + 1 } := h
      exact hloaded.keep_handler hname _ _

theorem HandlersKept.loadEntries (env : DsoEnv) (v : ℕ) :
    ∀ (entries : List PathEntry) {c : Child}, (entries.map Prod.fst).Nodup → HandlersKept v c →
      (∀ n ∈ entries.map Prod.fst, (c.servers v).getInstance .handler n = none) →
      HandlersKept v (loadEntries env v entries c) := by
  intro entries
  induction entries with
  | nil => intro c _ h _; exact h
  | cons entry entries ih =>
    intro c hnodup h hnames
    rw [List.map_cons, List.nodup_cons] at hnodup
    have hstep : HandlersKept v (ModCplusplus.loadCppModule env v entry c).2 :=
      h.loadCppModule env (hnames _ List.mem_cons_self)
    refine ih hnodup.2 hstep ?_
    intro n hn
    have hne : n ≠ entry.1 := by
      rintro rfl
      exact hnodup.1 hn
    rw [getInstance_loadCppModule_of_ne env v entry c _ hne]
    exact hnames n (List.mem_cons_of_mem _ hn)

/-! ### What was made -/

/-- The kinds in the order in which an entry makes them. -/
def Kind.all : List Kind := [.handler, .inputFilter, .outputFilter, .protocol]

/-- The instances of an entry. -/
def instancesOf (env : DsoEnv) (v : ℕ) (entry : PathEntry) : List (Kind × ℕ) :=
  Kind.all.filterMap fun k => (made env v entry k).map fun p => (k, p.addr)

/-- What an instance is, wherever it came from. -/
def Created.what (i : Created) : Kind × ℕ := (i.kind, i.addr)

theorem created_keep (c : Child) (v : ℕ) (name : CStr) (sohandle : ℕ) (k : Kind)
    (result : Option (Ptr k)) : (c.keep v name sohandle k result).created.map Created.what
      = c.created.map Created.what ++ (result.map fun p => (k, p.addr)).toList := by
  cases result with
  | none => simp [Child.keep]
  | some p => simp [Child.keep, Created.what]

theorem created_loadCppModule (env : DsoEnv) (v : ℕ) (entry : PathEntry) (c : Child) :
    (loadCppModule env v entry c).2.created.map Created.what
      = c.created.map Created.what ++ instancesOf env v entry := by
  unfold loadCppModule instancesOf made
  cases env.aprDsoLoad v entry with
  | some why => simp
  | none =>
    cases env.aprDsoSym v entry with
    | error why => simp
    | ok curHandler =>
      simp only [created_keep, List.append_assoc, Kind.all]
      congr 1
      simp only [List.filterMap_cons, List.filterMap_nil]
      cases curHandler.make v .handler <;> cases curHandler.make v .inputFilter <;>
        cases curHandler.make v .outputFilter <;> cases curHandler.make v .protocol <;> rfl

theorem created_loadEntries (env : DsoEnv) (v : ℕ) : ∀ (entries : List PathEntry) (c : Child),
    (loadEntries env v entries c).created.map Created.what
      = c.created.map Created.what ++ entries.flatMap (instancesOf env v) := by
  intro entries
  induction entries with
  | nil => intro c; simp [loadEntries]
  | cons entry entries ih =>
    intro c
    have hrest := ih (loadCppModule env v entry c).2
    rw [created_loadCppModule, List.append_assoc] at hrest
    exact hrest

theorem mem_instancesOf {env : DsoEnv} {v : ℕ} {entry : PathEntry} {i : Kind × ℕ} :
    i ∈ instancesOf env v entry ↔ ∃ k p, made env v entry k = some p ∧ i = (k, p.addr) := by
  rw [instancesOf, List.mem_filterMap]
  constructor
  · rintro ⟨k, -, hk⟩
    obtain ⟨p, hp, rfl⟩ := Option.map_eq_some_iff.mp hk
    exact ⟨k, p, hp, rfl⟩
  · rintro ⟨k, p, hp, rfl⟩
    exact ⟨k, by cases k <;> decide, by rw [hp]; rfl⟩

/-- **Factories return fresh objects**: no two results for the entries of a server
are the same object. -/
def FreshInstances (env : DsoEnv) (v : ℕ) (paths : AprHash CStr) : Prop :=
  ∀ name path name' path', paths.lookup name = some path → paths.lookup name' = some path' →
    ∀ k p k' p', made env v (name, path) k = some p → made env v (name', path') k' = some p' →
      p.addr = p'.addr → name = name' ∧ k = k'

theorem nodup_instances {env : DsoEnv} {v : ℕ} {paths : AprHash CStr}
    (hfresh : FreshInstances env v paths) (order : HashOrder CStr) :
    (((order.entries paths).flatMap (instancesOf env v)).map Prod.snd).Nodup := by
  have hnodup := order.nodup_names paths
  rw [List.map_flatMap, List.nodup_flatMap]
  constructor
  · rintro ⟨name, path⟩ hmem
    have hpath := (order.mem_entries_iff paths).mp hmem
    rw [instancesOf, List.map_filterMap]
    -- the kinds are distinct, and so are the objects made for them
    refine List.Nodup.filterMap ?_ (by decide)
    intro k k' a hk hk'
    simp only [Option.mem_def, Option.map_eq_some_iff, exists_exists_and_eq_and] at hk hk'
    obtain ⟨p, hp, rfl⟩ := hk
    obtain ⟨p', hp', haddr⟩ := hk'
    exact (hfresh name path name path hpath hpath k p k' p' hp hp' haddr.symm).2
  · have hpairs := List.Pairwise.of_map Prod.fst (fun _ _ h => h) hnodup
    refine hpairs.imp_of_mem ?_
    rintro ⟨name, path⟩ ⟨name', path'⟩ hmem hmem' hne a ha ha'
    obtain ⟨i, hi, rfl⟩ := List.mem_map.mp ha
    obtain ⟨i', hi', haddr⟩ := List.mem_map.mp ha'
    obtain ⟨k, p, hp, rfl⟩ := mem_instancesOf.mp hi
    obtain ⟨k', p', hp', rfl⟩ := mem_instancesOf.mp hi'
    exact hne (hfresh name path name' path' ((order.mem_entries_iff paths).mp hmem)
      ((order.mem_entries_iff paths).mp hmem') k p k' p' hp hp' haddr.symm).1

/-! ### The end of the child -/

section

variable (env : DsoEnv) (order : HashOrder CStr) (closing : HashOrder ApacheHandler) (s : Servers)
  (servers : ℕ → CppServerRec)

/-- The handlers go first, then what the pool owns. -/
theorem destroyPool_cppSpawnHandlers (c : Child) :
    (cppSpawnHandlers env order s c).destroyPool closing
      = (closing.entries ((loadHandlers env order s.main c).2.servers s.main).handlerHash).map
          (fun e => Event.delete e.2.addr)
        ++ CleanupStack.destroy (Cleanup.run closing (loadHandlers env order s.main c).2.servers)
            (loadHandlers env order s.main c).2.pool := rfl

theorem owned_loadHandlers (servers' : ℕ → CppServerRec) :
    Owned (Cleanup.run closing servers')
      (loadHandlers env order s.main (Child.start servers)).2 :=
  (owned_start _ servers).loadEntries env s.main _

variable {servers}

theorem handlersKept_loadHandlers (hempty : Unspawned (servers s.main)) :
    HandlersKept s.main (loadHandlers env order s.main (Child.start servers)).2 := by
  refine HandlersKept.loadEntries env s.main _ (order.nodup_names _) ?_ ?_
  · show ((servers s.main).handlerHash.entries.map _).Perm _
    rw [hempty.handlerHash]
    exact List.Perm.refl _
  · exact fun n _ => hempty.getInstance_eq .handler n

/-- The handlers deleted by `cpp_close_handlers`, in whatever order. -/
theorem perm_closing (hempty : Unspawned (servers s.main)) :
    ((closing.entries ((loadHandlers env order s.main (Child.start servers)).2.servers
        s.main).handlerHash).map fun e => Event.delete e.2.addr).Perm
      (((loadHandlers env order s.main (Child.start servers)).2.created.filter
        fun i => i.kind = .handler).map Created.deletion) := by
  refine ((closing.perm _).map _).trans ?_
  rw [List.map_map]
  exact handlersKept_loadHandlers env order s hempty

/-- **What is deleted is what was made.** -/
theorem perm_deletes (hempty : Unspawned (servers s.main)) :
    (((cppSpawnHandlers env order s (Child.start servers)).destroyPool closing).filter
        Event.isDelete).Perm
      ((cppSpawnHandlers env order s (Child.start servers)).created.map Created.deletion) := by
  set c := (loadHandlers env order s.main (Child.start servers)).2 with hc
  have hclosing := perm_closing env order closing s hempty
  have hpool := (owned_loadHandlers env order closing s servers c.servers).deletes
  have hall : ∀ l : List (CStr × ApacheHandler),
      (l.map fun e => Event.delete e.2.addr).filter Event.isDelete
        = l.map fun e => Event.delete e.2.addr := by
    intro l
    rw [List.filter_eq_self]
    intro e he
    obtain ⟨x, -, rfl⟩ := List.mem_map.mp he
    rfl
  rw [destroyPool_cppSpawnHandlers, List.filter_append, hall]
  refine (hclosing.append hpool).trans ?_
  rw [← List.map_append]
  have hsplit := List.filter_append_perm (fun i : Created => decide (i.kind = .handler)) c.created
  refine List.Perm.map _ (List.Perm.trans ?_ hsplit)
  simp [hc]

/-- What the entries of the server made, in the order of their loading. -/
theorem created_cppSpawnHandlers :
    (cppSpawnHandlers env order s (Child.start servers)).created.map Created.what
      = (order.entries (servers s.main).handlerPathHash).flatMap (instancesOf env s.main) :=
  created_loadEntries env s.main _ (Child.start servers)

/-- Every instance made is accounted for. -/
theorem mem_created_of_made {name path : CStr}
    (hpath : (servers s.main).handlerPathHash.lookup name = some path) {k : Kind} {p : Ptr k}
    (hmade : made env s.main (name, path) k = some p) :
    ∃ h, ⟨k, p.addr, h⟩ ∈ (cppSpawnHandlers env order s (Child.start servers)).created := by
  have hmem : (k, p.addr)
      ∈ (cppSpawnHandlers env order s (Child.start servers)).created.map Created.what := by
    rw [created_cppSpawnHandlers, List.mem_flatMap]
    exact ⟨(name, path), (order.mem_entries_iff _).mpr hpath,
      mem_instancesOf.mpr ⟨k, p, hmade, rfl⟩⟩
  obtain ⟨i, hi, hwhat⟩ := List.mem_map.mp hmem
  obtain ⟨hkind, haddr⟩ := Prod.mk.inj hwhat
  refine ⟨i.sohandle, ?_⟩
  rw [← haddr, ← hkind]
  exact hi

/-- Fresh instances are deleted once. -/
theorem count_delete (hempty : Unspawned (servers s.main))
    (hfresh : FreshInstances env s.main (servers s.main).handlerPathHash) {i : Created}
    (hi : i ∈ (cppSpawnHandlers env order s (Child.start servers)).created) :
    ((cppSpawnHandlers env order s (Child.start servers)).destroyPool closing).count i.deletion
      = 1 := by
  set c := cppSpawnHandlers env order s (Child.start servers) with hc
  have haddrs : (c.created.map Created.addr).Nodup := by
    have hnodup := nodup_instances hfresh order
    rw [← created_cppSpawnHandlers env order s, List.map_map] at hnodup
    exact hnodup
  have hdeletions : (c.created.map Created.deletion).Nodup := by
    rw [show Created.deletion = Event.delete ∘ Created.addr from rfl, ← List.map_map]
    exact haddrs.map fun a b hab => Event.delete.inj hab
  have hdeletes := perm_deletes env order closing s hempty
  rw [← List.count_filter (p := Event.isDelete) rfl, hdeletes.count_eq]
  exact List.count_eq_one_of_mem hdeletions (List.mem_map_of_mem hi)

/-- The shared object of an instance is unloaded once. -/
theorem count_unload {i : Created}
    (hi : i ∈ (cppSpawnHandlers env order s (Child.start servers)).created) :
    ((cppSpawnHandlers env order s (Child.start servers)).destroyPool closing).count
      (.unload i.sohandle) = 1 := by
  set loaded := (loadHandlers env order s.main (Child.start servers)).2 with hloaded
  have howned := owned_loadHandlers env order closing s servers loaded.servers
  rw [destroyPool_cppSpawnHandlers, List.count_append, howned.unloads,
    if_pos (howned.handles i hi), List.count_eq_zero.mpr]
  simp

/-- An instance is deleted before its shared object is unloaded. -/
theorem delete_precedes_unload (hempty : Unspawned (servers s.main)) {i : Created}
    (hi : i ∈ (cppSpawnHandlers env order s (Child.start servers)).created) :
    CleanupStack.Precedes ((cppSpawnHandlers env order s (Child.start servers)).destroyPool closing)
      i.deletion (.unload i.sohandle) := by
  set loaded := (loadHandlers env order s.main (Child.start servers)).2 with hloaded
  have howned := owned_loadHandlers env order closing s servers loaded.servers
  rw [destroyPool_cppSpawnHandlers]
  by_cases hk : i.kind = .handler
  · -- handlers go before everything the pool owns
    have hunload : Event.unload i.sohandle
        ∈ CleanupStack.destroy (Cleanup.run closing loaded.servers) loaded.pool := by
      rw [← List.count_pos_iff, howned.unloads, if_pos (howned.handles i hi)]
      exact Nat.one_pos
    refine CleanupStack.precedes_append ?_ hunload
    rw [(perm_closing env order closing s hempty).mem_iff]
    exact List.mem_map.mpr ⟨i, List.mem_filter.mpr ⟨hi, by simpa using hk⟩, rfl⟩
  · exact (howned.inTime i hi hk).append_left _

variable (servers)

/-- **Instances are deleted in time.**  Whatever loads, whatever the factories make
as long as it is fresh, and in whatever orders the tables are iterated: every
instance the factories of the server's entries make is deleted exactly once while
the pool is destroyed, and before the one time the shared object it came from is
unloaded. -/
theorem instances_deleted_before_unload (hempty : Unspawned (servers s.main))
    (hfresh : FreshInstances env s.main (servers s.main).handlerPathHash) :
    let c := cppSpawnHandlers env order s (Child.start servers)
    let events := c.destroyPool closing
    (∀ name path, (servers s.main).handlerPathHash.lookup name = some path →
      ∀ k p, made env s.main (name, path) k = some p → ∃ h, ⟨k, p.addr, h⟩ ∈ c.created) ∧
    ∀ i ∈ c.created, events.count (.delete i.addr) = 1 ∧ events.count (.unload i.sohandle) = 1 ∧
      CleanupStack.Precedes events (.delete i.addr) (.unload i.sohandle) := by
  intro c events
  refine ⟨?_, ?_⟩
  · intro name path hpath k p hmade
    exact mem_created_of_made env order s hpath hmade
  · intro i hi
    exact ⟨count_delete env order closing s hempty hfresh hi, count_unload env order closing s hi,
      delete_precedes_unload env order closing s hempty hi⟩

end

/-- Two shared objects, one with a handler and an input filter, one with an output filter and
a protocol: the handler goes first, and then, the last loaded first, each shared object
behind the instances it made. -/
theorem instances_deleted_before_unload_two :
    let env : DsoEnv := ⟨fun _ _ => none, fun _ entry =>
      if entry.1 = cStr (literal "f") then
        .ok ⟨some fun _ => some ⟨1⟩, some fun _ => some ⟨2⟩, none, none⟩
      else .ok ⟨none, none, some fun _ => some ⟨3⟩, some fun _ => some ⟨4⟩⟩⟩
    let serverRec : CppServerRec := { createCppServerConfig with
      handlerPathHash := ((∅ : AprHash CStr).insert (cStr (literal "f"))
        (cStr (literal "/f"))).insert (cStr (literal "g")) (cStr (literal "/g")) }
    let events := (cppSpawnHandlers env HashOrder.stored ⟨0, [], by decide⟩
      (Child.start fun _ => serverRec)).destroyPool HashOrder.stored
    events = [.delete 1, .delete 2, .unload 1, .delete 4, .delete 3, .unload 0] ∧
      CleanupStack.Precedes events (.delete 1) (.unload 1) ∧
      CleanupStack.Precedes events (.delete 3) (.unload 0) := by
  intro env serverRec events
  have hpath : ∀ name path, serverRec.handlerPathHash.lookup name = some path →
      name = cStr (literal "f") ∨ name = cStr (literal "g") := by
    intro name path h
    by_contra hne
    obtain ⟨hf, hg⟩ := not_or.mp hne
    rw [AList.lookup_insert_ne hg, AList.lookup_insert_ne hf, AList.lookup_empty] at h
    exact absurd h (by simp)
  have hne : cStr (literal "g") ≠ cStr (literal "f") := by decide
  obtain ⟨-, hlife⟩ := instances_deleted_before_unload env HashOrder.stored HashOrder.stored
    ⟨0, [], by decide⟩ (fun _ => serverRec) ⟨rfl, rfl, rfl, rfl⟩ (by
      intro name path name' path' h h' k p k' p' hp hp' haddr
      rcases hpath name path h with rfl | rfl <;> rcases hpath name' path' h' with rfl | rfl <;>
        cases k <;> cases k' <;>
        simp only [made, env, if_true, if_neg hne, CppFactory.make, Option.bind_some,
          Option.bind_none, Option.some.injEq, reduceCtorEq] at hp hp' <;>
        first
          | exact ⟨rfl, rfl⟩
          | (subst hp hp'; exact absurd haddr (by decide)))
  exact ⟨by decide, (hlife ⟨.handler, 1, 1⟩ (by decide)).2.2,
    (hlife ⟨.outputFilter, 3, 0⟩ (by decide)).2.2⟩

end ModCplusplus
