import ModCplusplus.General.Cleanup
import ModCplusplus.Runs

/-!
# Loading in a child

When a child starts, every path its server was given is loaded: the shared
object, the symbol named by the entry, and the instances the factories behind the
symbol return, which go into the four instance tables of the server.  Cleanups on
the pool of the child undo all of this.

What the outside world answers is a parameter.  An entry is loaded once in a
child, so the answers it gets are a function of the entry and its server.

## Main definitions

* `DsoEnv`, `CppFactory`, `HashOrder` — the shared objects, and the order in which
  a table is iterated.
* `Child` — the server records and the pool of a child.
* `loadCppModule`, `loadHandlers`, `cppSpawnHandlers`.
* `made` — the instance an entry ought to leave in a table.

## Main results

* `lookup_loadHandlers` — the tables of a server after loading.
* `servers_started_iff` — which servers of a list have their instances.
-/

namespace ModCplusplus

/-! ### The outside world -/

/-- An entry of `handler_path_hash`: a name and the path of a shared object. -/
abbrev PathEntry := CStr × CStr

/-- `cpp_factory_t`; a factory is given the server. -/
structure CppFactory where
  handlerFunc : Option (ℕ → Option ApacheHandler)
  inputFilterFunc : Option (ℕ → Option ApacheInputFilter)
  outputFilterFunc : Option (ℕ → Option ApacheOutputFilter)
  protocolFunc : Option (ℕ → Option ApacheProtocol)

/-- What `apr_dso_load` and `apr_dso_sym` answer for an entry of a server. -/
structure DsoEnv where
  -- the text of `apr_dso_error`, if loading the path fails
  aprDsoLoad : ℕ → PathEntry → Option Str
  -- the symbol, or the text of `apr_dso_error`
  aprDsoSym : ℕ → PathEntry → Except Str CppFactory

/-- An order in which `apr_hash_first` and `apr_hash_next` visit tables. -/
structure HashOrder (α : Type) where
  entries : AprHash α → List (CStr × α)
  perm : ∀ t, (entries t).Perm (t.entries.map fun e => (e.1, e.2))

/-- The order in which the table of the model lists its entries. -/
def HashOrder.stored {α : Type} : HashOrder α where
  entries t := t.entries.map fun e => (e.1, e.2)
  perm _ := List.Perm.refl _

section

variable {α : Type} (order : HashOrder α) (t : AprHash α)

theorem HashOrder.mem_entries_iff {name : CStr} {a : α} :
    (name, a) ∈ order.entries t ↔ t.lookup name = some a := by
  rw [(order.perm t).mem_iff, List.mem_map, ← Option.mem_def, AList.mem_lookup_iff]
  constructor
  · rintro ⟨⟨n, b⟩, hmem, heq⟩
    cases heq
    exact hmem
  · intro hmem
    exact ⟨⟨name, a⟩, hmem, rfl⟩

theorem HashOrder.nodup_names : ((order.entries t).map Prod.fst).Nodup := by
  rw [((order.perm t).map Prod.fst).nodup_iff, List.map_map]
  exact t.keys_nodup

end

/-- The instance a factory returns for a server. -/
def CppFactory.make (curHandler : CppFactory) (pServer : ℕ) : (k : Kind) → Option (Ptr k)
  | .handler => curHandler.handlerFunc.bind fun f => f pServer
  | .inputFilter => curHandler.inputFilterFunc.bind fun f => f pServer
  | .outputFilter => curHandler.outputFilterFunc.bind fun f => f pServer
  | .protocol => curHandler.protocolFunc.bind fun f => f pServer

/-! ### Instance tables -/

/-- `apr_hash_get` on the instance table of a kind. -/
def CppServerRec.getInstance (serverRec : CppServerRec) : (k : Kind) → CStr → Option (Ptr k)
  | .handler, name => serverRec.handlerHash.lookup name
  | .inputFilter, name => serverRec.inputFilterHash.lookup name
  | .outputFilter, name => serverRec.outputFilterHash.lookup name
  | .protocol, name => serverRec.protocolHash.lookup name

/-- `apr_hash_set` on the instance table of a kind. -/
def CppServerRec.setInstance (serverRec : CppServerRec) (name : CStr) :
    (k : Kind) → Ptr k → CppServerRec
  | .handler, p => { serverRec with handlerHash := serverRec.handlerHash.insert name p }
  | .inputFilter, p =>
      { serverRec with inputFilterHash := serverRec.inputFilterHash.insert name p }
  | .outputFilter, p =>
      { serverRec with outputFilterHash := serverRec.outputFilterHash.insert name p }
  | .protocol, p => { serverRec with protocolHash := serverRec.protocolHash.insert name p }

theorem getInstance_setInstance_self (serverRec : CppServerRec) (name : CStr) (k : Kind)
    (p : Ptr k) : (serverRec.setInstance name k p).getInstance k name = some p := by
  cases k <;> exact AList.lookup_insert _

theorem getInstance_setInstance_of_ne (serverRec : CppServerRec) {name n : CStr} {k k' : Kind}
    (p : Ptr k) (h : k' ≠ k ∨ n ≠ name) :
    (serverRec.setInstance name k p).getInstance k' n = serverRec.getInstance k' n := by
  cases k <;> cases k' <;>
    first
      | rfl
      | exact AList.lookup_insert_ne (h.resolve_left fun hk => hk rfl)

theorem Unspawned.getInstance_eq {serverRec : CppServerRec} (h : Unspawned serverRec) (k : Kind)
    (name : CStr) : serverRec.getInstance k name = none := by
  cases k
  · rw [CppServerRec.getInstance, h.handlerHash, AList.lookup_empty]
  · rw [CppServerRec.getInstance, h.inputFilterHash, AList.lookup_empty]
  · rw [CppServerRec.getInstance, h.outputFilterHash, AList.lookup_empty]
  · rw [CppServerRec.getInstance, h.protocolHash, AList.lookup_empty]

/-! ### The child -/

/-- The cleanups on the pool of a child: that of `apr_dso_load`, the three `delete_…`
functions, and `cpp_close_handlers` with its server. -/
inductive Cleanup where
  | dsoCleanup (sohandle : ℕ)
  | deleteInputFilter (filter : ApacheInputFilter)
  | deleteOutputFilter (filter : ApacheOutputFilter)
  | deleteProtocolHandler (protocol : ApacheProtocol)
  | cppCloseHandlers (s : ℕ)
  deriving DecidableEq

/-- The cleanup registered for an instance; handlers have none of their own. -/
def deleteCleanup : (k : Kind) → Ptr k → Option Cleanup
  | .handler, _ => none
  | .inputFilter, filter => some (.deleteInputFilter filter)
  | .outputFilter, filter => some (.deleteOutputFilter filter)
  | .protocol, protocol => some (.deleteProtocolHandler protocol)

/-- An instance a factory returned, with the handle of the shared object it came
from. -/
structure Created where
  kind : Kind
  addr : ℕ
  sohandle : ℕ
  deriving DecidableEq

/-- The state of a child. -/
structure Child where
  servers : ℕ → CppServerRec
  -- newest first
  pool : List Cleanup
  -- the handles `apr_dso_load` has given out are the smaller numbers
  nextHandle : ℕ
  -- nothing reads this: the instances there are, oldest first
  created : List Created

/-- A child before it loads anything. -/
def Child.start (servers : ℕ → CppServerRec) : Child where
  servers := servers
  pool := []
  nextHandle := 0
  created := []

/-- What `load_cpp_module` does with the result of a factory: a non-null instance
goes into its table, and its cleanup onto the pool. -/
def Child.keep (c : Child) (v : ℕ) (name : CStr) (sohandle : ℕ) (k : Kind)
    (result : Option (Ptr k)) : Child :=
  match result with
  | none => c
  | some p =>
      { c with
        servers := Function.update c.servers v ((c.servers v).setInstance name k p)
        pool := (deleteCleanup k p).elim c.pool fun cleanup => CleanupStack.register cleanup c.pool
        created := c.created ++ [⟨k, p.addr, sohandle⟩] }

/-- `load_cpp_module`: the message returned, NULL on success, and the child
afterwards.  `load_handler` only calls it. -/
def loadCppModule (env : DsoEnv) (server : ℕ) (entry : PathEntry) (c : Child) :
    Option Str × Child :=
  let name := entry.1
  let path := entry.2
  match env.aprDsoLoad server entry with
  | some why =>
      (some (literal "Error Loading CPP SO " ++ path ++ literal " into server: " ++ why), c)
  | none =>
      let sohandle := c.nextHandle
      let c := { c with
        pool := CleanupStack.register (.dsoCleanup sohandle) c.pool
        nextHandle := sohandle + 1 }
      match env.aprDsoSym server entry with
      | .error why =>
          (some (literal "Can't locate cpp_factory_t `" ++ name ++ literal "' in file " ++ path ++
            literal ": " ++ why), c)
      | .ok curHandler =>
          let c := c.keep server name sohandle .handler (curHandler.make server .handler)
          let c := c.keep server name sohandle .inputFilter (curHandler.make server .inputFilter)
          let c := c.keep server name sohandle .outputFilter (curHandler.make server .outputFilter)
          let c := c.keep server name sohandle .protocol (curHandler.make server .protocol)
          (none, c)

/-- The loop of `load_handlers` over the entries still to visit. -/
def loadEntries (env : DsoEnv) (server : ℕ) (entries : List PathEntry) (c : Child) : Child :=
  entries.foldl (fun c next => (loadCppModule env server next c).2) c

/-- `load_handlers`; it returns NULL whatever the loads return. -/
def loadHandlers (env : DsoEnv) (order : HashOrder CStr) (server : ℕ) (c : Child) :
    Option Str × Child :=
  (none, loadEntries env server (order.entries (c.servers server).handlerPathHash) c)

/-- The list of servers: the main server, and those linked from it by `next`. -/
structure Servers where
  main : ℕ
  virtualHosts : List ℕ
  main_notMem : main ∉ virtualHosts

/-- The servers of a list. -/
def Servers.all (s : Servers) : List ℕ := s.main :: s.virtualHosts

/-- `cpp_spawn_handlers`, called with the main server. -/
def cppSpawnHandlers (env : DsoEnv) (order : HashOrder CStr) (s : Servers) (c : Child) : Child :=
  let c := (loadHandlers env order s.main c).2
  { c with pool := CleanupStack.register (.cppCloseHandlers s.main) c.pool }

/-! ### What loading leaves in the tables -/

/-- The instance of a kind that the factories of an entry return, if its shared
object and its symbol load. -/
def made (env : DsoEnv) (server : ℕ) (entry : PathEntry) (k : Kind) : Option (Ptr k) :=
  match env.aprDsoLoad server entry, env.aprDsoSym server entry with
  | none, .ok curHandler => curHandler.make server k
  | _, _ => none

section

variable (c : Child) (v : ℕ) (name : CStr) (sohandle : ℕ)

theorem getInstance_keep_self (k : Kind) (result : Option (Ptr k)) :
    ((c.keep v name sohandle k result).servers v).getInstance k name
      = result.or ((c.servers v).getInstance k name) := by
  cases result with
  | none => rfl
  | some p =>
    simp only [Child.keep, Function.update_self]
    exact getInstance_setInstance_self _ _ _ _

theorem getInstance_keep_of_ne {k k' : Kind} (result : Option (Ptr k)) {n : CStr}
    (h : k' ≠ k ∨ n ≠ name) :
    ((c.keep v name sohandle k result).servers v).getInstance k' n
      = (c.servers v).getInstance k' n := by
  cases result with
  | none => rfl
  | some p =>
    simp only [Child.keep, Function.update_self]
    exact getInstance_setInstance_of_ne _ _ h

theorem servers_keep_of_ne (k : Kind) (result : Option (Ptr k)) {w : ℕ} (h : w ≠ v) :
    (c.keep v name sohandle k result).servers w = c.servers w := by
  cases result with
  | none => rfl
  | some p => exact Function.update_of_ne h _ _

end

section

variable (env : DsoEnv) (v : ℕ)

/-- An entry leaves its instances under its own name. -/
theorem getInstance_loadCppModule_self (entry : PathEntry) (c : Child) (k : Kind) :
    ((loadCppModule env v entry c).2.servers v).getInstance k entry.1
      = (made env v entry k).or ((c.servers v).getInstance k entry.1) := by
  unfold loadCppModule made
  cases hload : env.aprDsoLoad v entry with
  | some why => rfl
  | none =>
    cases hsym : env.aprDsoSym v entry with
    | error why => rfl
    | ok curHandler =>
      cases k <;>
        simp only [getInstance_keep_self, getInstance_keep_of_ne, ne_eq, reduceCtorEq,
          not_false_eq_true, true_or]

/-- An entry leaves the other names alone. -/
theorem getInstance_loadCppModule_of_ne (entry : PathEntry) (c : Child) (k : Kind) {n : CStr}
    (h : n ≠ entry.1) :
    ((loadCppModule env v entry c).2.servers v).getInstance k n
      = (c.servers v).getInstance k n := by
  unfold loadCppModule
  cases env.aprDsoLoad v entry with
  | some why => rfl
  | none =>
    cases env.aprDsoSym v entry with
    | error why => rfl
    | ok curHandler => simp only [getInstance_keep_of_ne _ _ _ _ _ (Or.inr h)]

/-- An entry leaves the other servers alone. -/
theorem servers_loadCppModule_of_ne (entry : PathEntry) (c : Child) {w : ℕ} (h : w ≠ v) :
    (loadCppModule env v entry c).2.servers w = c.servers w := by
  unfold loadCppModule
  cases env.aprDsoLoad v entry with
  | some why => rfl
  | none =>
    cases env.aprDsoSym v entry with
    | error why => rfl
    | ok curHandler => simp only [servers_keep_of_ne _ _ _ _ _ _ h]

theorem getInstance_loadEntries_of_notMem (k : Kind) {n : CStr} :
    ∀ (entries : List PathEntry) (c : Child), n ∉ entries.map Prod.fst →
      ((loadEntries env v entries c).servers v).getInstance k n
        = (c.servers v).getInstance k n := by
  intro entries
  induction entries with
  | nil => intro c _; rfl
  | cons entry entries ih =>
    intro c hn
    rw [List.map_cons, List.mem_cons, not_or] at hn
    rw [← getInstance_loadCppModule_of_ne env v entry c k hn.1]
    exact ih _ hn.2

theorem getInstance_loadEntries_of_mem (k : Kind) {entry : PathEntry} :
    ∀ (entries : List PathEntry) (c : Child), (entries.map Prod.fst).Nodup → entry ∈ entries →
      ((loadEntries env v entries c).servers v).getInstance k entry.1
        = (made env v entry k).or ((c.servers v).getInstance k entry.1) := by
  intro entries
  induction entries with
  | nil => intro c _ hmem; exact absurd hmem List.not_mem_nil
  | cons e entries ih =>
    intro c hnodup hmem
    rw [List.map_cons, List.nodup_cons] at hnodup
    rcases List.mem_cons.mp hmem with rfl | hmem
    · -- the later entries have other names
      rw [← getInstance_loadCppModule_self]
      exact getInstance_loadEntries_of_notMem env v k entries _ hnodup.1
    · have hne : entry.1 ≠ e.1 := by
        intro heq
        exact hnodup.1 (heq ▸ List.mem_map_of_mem hmem)
      rw [← getInstance_loadCppModule_of_ne env v e c k hne]
      exact ih _ hnodup.2 hmem

theorem servers_loadEntries_of_ne {w : ℕ} (h : w ≠ v) : ∀ (entries : List PathEntry) (c : Child),
    (loadEntries env v entries c).servers w = c.servers w := by
  intro entries
  induction entries with
  | nil => intro c; rfl
  | cons entry entries ih =>
    intro c
    rw [← servers_loadCppModule_of_ne env v entry c h]
    exact ih _

/-- **The tables after loading**: under every name with a path, what the factories
of that entry return, and nothing under any other name. -/
theorem lookup_loadHandlers (order : HashOrder CStr) {c : Child} (h : Unspawned (c.servers v))
    (k : Kind) (name : CStr) :
    ((loadHandlers env order v c).2.servers v).getInstance k name
      = ((c.servers v).handlerPathHash.lookup name).bind fun path => made env v (name, path) k := by
  have hnodup := order.nodup_names (c.servers v).handlerPathHash
  cases hpath : (c.servers v).handlerPathHash.lookup name with
  | none =>
    have hnot : name ∉ (order.entries (c.servers v).handlerPathHash).map Prod.fst := by
      intro hmem
      obtain ⟨⟨n, path⟩, hin, rfl⟩ := List.mem_map.mp hmem
      rw [order.mem_entries_iff, hpath] at hin
      exact absurd hin (by simp)
    rw [loadHandlers, getInstance_loadEntries_of_notMem env v k _ c hnot, h.getInstance_eq]
    rfl
  | some path =>
    have hmem := (order.mem_entries_iff _).mpr hpath
    rw [loadHandlers, getInstance_loadEntries_of_mem env v k _ c hnodup hmem, h.getInstance_eq,
      Option.or_none]
    rfl

end

/-! ### Which servers are started -/

/-- **A server is started**: under every name with a path, its tables hold the
instances the factories of that entry return. -/
def Started (env : DsoEnv) (server : ℕ) (paths : AprHash CStr) (serverRec : CppServerRec) : Prop :=
  ∀ name path, paths.lookup name = some path → ∀ k p, made env server (name, path) k = some p →
    serverRec.getInstance k name = some p

/-- None of the entries yields an instance. -/
def NothingToLoad (env : DsoEnv) (server : ℕ) (paths : AprHash CStr) : Prop :=
  ∀ name path, paths.lookup name = some path → ∀ k, made env server (name, path) k = none

theorem started_cppSpawnHandlers_main (env : DsoEnv) (order : HashOrder CStr) (s : Servers)
    {c : Child} (h : Unspawned (c.servers s.main)) :
    Started env s.main (c.servers s.main).handlerPathHash
      ((cppSpawnHandlers env order s c).servers s.main) := by
  intro name path hpath k p hmade
  have hlookup := lookup_loadHandlers env s.main order h k name
  rw [hpath, Option.bind_some, hmade] at hlookup
  exact hlookup

/-- A server after the first one keeps the record it had. -/
theorem servers_cppSpawnHandlers_virtualHost (env : DsoEnv) (order : HashOrder CStr) (s : Servers)
    (c : Child) {v : ℕ} (hv : v ∈ s.virtualHosts) :
    (cppSpawnHandlers env order s c).servers v = c.servers v := by
  have hne : v ≠ s.main := by
    rintro rfl
    exact s.main_notMem hv
  exact servers_loadEntries_of_ne env s.main hne _ c

theorem started_cppSpawnHandlers_virtualHost_iff (env : DsoEnv) (order : HashOrder CStr)
    (s : Servers) {c : Child} {v : ℕ} (hv : v ∈ s.virtualHosts) (h : Unspawned (c.servers v)) :
    Started env v (c.servers v).handlerPathHash ((cppSpawnHandlers env order s c).servers v)
      ↔ NothingToLoad env v (c.servers v).handlerPathHash := by
  rw [servers_cppSpawnHandlers_virtualHost env order s c hv]
  constructor
  · intro hstarted name path hpath k
    cases hmade : made env v (name, path) k with
    | none => rfl
    | some p =>
      have hfound := hstarted name path hpath k p hmade
      rw [h.getInstance_eq] at hfound
      exact absurd hfound (by simp)
  · intro hnothing name path hpath k p hmade
    rw [hnothing name path hpath k] at hmade
    exact absurd hmade (by simp)

/-- The entries that are loaded for a server are the last of each name. -/
theorem Reached.handlerPathHash_eq {ds : List Directive} {cfg : Config} (hr : Reached ds cfg)
    (v : ℕ) : (cfg.servers v).handlerPathHash = tableOf (bound (.paths v) ds) := by
  have htable := hr.tables (.paths v)
  rwa [Config.table, Option.some.injEq] at htable

/-- **After any run of directives, all servers of a list are started exactly when
the servers after the first have nothing to load.** -/
theorem servers_started_iff (env : DsoEnv) (order : HashOrder CStr) (ds : List Directive)
    (s : Servers) :
    ∃ messages cfg, configure ds Config.start = .ok (messages, cfg) ∧
      ((∀ v ∈ s.all, Started env v (tableOf (bound (.paths v) ds))
          ((cppSpawnHandlers env order s (Child.start cfg.servers)).servers v))
        ↔ ∀ v ∈ s.virtualHosts, NothingToLoad env v (tableOf (bound (.paths v) ds))) := by
  obtain ⟨cfg, hrun, hr⟩ := configure_start ds
  refine ⟨_, cfg, hrun, ?_⟩
  simp only [← hr.handlerPathHash_eq]
  constructor
  · intro h v hv
    have hstarted := h v (List.mem_cons_of_mem _ hv)
    exact (started_cppSpawnHandlers_virtualHost_iff env order s (c := Child.start cfg.servers) hv
      (hr.unspawned v)).mp hstarted
  · intro h v hv
    rcases List.mem_cons.mp hv with rfl | hv
    · exact started_cppSpawnHandlers_main env order s (c := Child.start cfg.servers)
        (hr.unspawned s.main)
    · exact (started_cppSpawnHandlers_virtualHost_iff env order s (c := Child.start cfg.servers) hv
        (hr.unspawned v)).mpr (h v hv)

/-- An environment in which everything loads and offers one protocol. -/
def protocolEnv : DsoEnv where
  aprDsoLoad _ _ := none
  aprDsoSym _ _ := .ok ⟨none, none, none, some fun _ => some ⟨7⟩⟩

/-- A virtual host that loads a protocol is not started. -/
theorem not_started_virtualHost :
    ∃ messages cfg, configure
        [.inServer 1 (.loadCPPHandler (cStr (literal "f")) (cStr (literal "/"))),
          .inServer 1 (.addCPPProtocol (cStr (literal "f")))] Config.start = .ok (messages, cfg) ∧
      ¬ ∀ v ∈ [0, 1], Started protocolEnv v (cfg.servers v).handlerPathHash
        ((cppSpawnHandlers protocolEnv HashOrder.stored ⟨0, [1], by decide⟩
          (Child.start cfg.servers)).servers v) := by
  obtain ⟨cfg, hrun, hr⟩ := configure_start
    [.inServer 1 (.loadCPPHandler (cStr (literal "f")) (cStr (literal "/"))),
      .inServer 1 (.addCPPProtocol (cStr (literal "f")))]
  refine ⟨_, cfg, hrun, fun h => ?_⟩
  have hnothing := (started_cppSpawnHandlers_virtualHost_iff protocolEnv HashOrder.stored
    ⟨0, [1], by decide⟩ (c := Child.start cfg.servers) (v := 1) (by decide)
    (hr.unspawned 1)).mp (h 1 (by decide))
  have hmade := hnothing (cStr (literal "f")) (cStr (literal "/")) (by
    show (cfg.servers 1).handlerPathHash.lookup _ = _
    rw [hr.handlerPathHash_eq]
    exact AList.lookup_insert _) .protocol
  exact absurd hmade (by simp [made, protocolEnv, CppFactory.make])

end ModCplusplus
