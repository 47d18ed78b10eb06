import Mathlib.Data.List.InsertIdx
import ModCplusplus.LoadOrder
import ModCplusplus.Serving

/-!
# What a child serves

What a child does in answer to httpd can be told from the directives and from what the
shared objects offer, without arrays, tables and pools.  A name stands for an instance
on the main server only, and there for the one made from the path it was given last; a
phase asks the instances that the names of the innermost section stand for, a
connection those of its server, and an attached filter is an instance and the one
method of it that will be run.

## Main definitions

* `Site` — the directives, the shared objects, the main server.
* `Site.instanceOf`, `Site.instances`, `Site.attachments` — what names stand for.
* `Service`, `Service.machine` — the child as its users see it.

## Main results

* `getInstance_spawned`, `holdsNames_spawned` — the records of a child that has
  started.
* `simulates_service` — the child answers as its service does, step by step.
* `child_serves` — and so in every run.
-/

namespace ModCplusplus

/-! ### The service -/

/-- What a child is made from. -/
structure Site where
  ds : List Directive
  env : DsoEnv
  main : ℕ
  -- how httpd normalises the names of filters
  fold : CStr → CStr

/-- The innermost section of a chain. -/
def innermost (outer : ℕ) (inner : List ℕ) : ℕ :=
  (outer :: inner).getLast (List.cons_ne_nil _ _)

namespace Site

variable (site : Site)

/-- The instance a name stands for on a server. -/
def instanceOf (v : ℕ) (k : Kind) (n : CStr) : Option (Ptr k) :=
  if v = site.main then
    (lastPath (bound (.paths v) site.ds) n).bind fun path => made site.env v (n, path) k
  else none

/-- The instances that the names of a list stand for on a server. -/
def instances (v : ℕ) (k : Kind) (L : ListId) : List (Ptr k) :=
  (accepted L site.ds).filterMap (site.instanceOf v k)

/-- The method that a filter of this name runs, if httpd attaches it. -/
def runsAs (direction : Direction) (ofRequest : Bool) (n : CStr) : Option FilterMethod :=
  match ftypeOf site.fold (along Directive.registered [] site.ds).flatten direction n with
  | none => none
  | some .connection => some .connectionFilter
  | some .resource => if ofRequest then some .requestFilter else none

/-- The filters that the names of a list attach. -/
def attachments (v : ℕ) (k : Kind) (direction : Direction) (ofRequest : Bool) (L : ListId) :
    List (Ptr k × FilterMethod) :=
  (accepted L site.ds).filterMap fun n =>
    (site.instanceOf v k n).bind fun p => (site.runsAs direction ofRequest n).map fun m => (p, m)

end Site

/-- What a child has to remember: the filters attached, each with its method. -/
structure Service (σ : Type) where
  inputFilters : List (ApacheInputFilter × FilterMethod)
  outputFilters : List (ApacheOutputFilter × FilterMethod)
  world : σ

section

variable {σ : Type} (site : Site) (b : Behaviour σ)

/-- The filters of two lists are attached. -/
def Service.attach (t : Service σ) (v : ℕ) (ofRequest : Bool) (outs ins : ListId) : Service σ :=
  { t with
    inputFilters := t.inputFilters ++ site.attachments v .inputFilter .input ofRequest ins
    outputFilters := t.outputFilters ++ site.attachments v .outputFilter .output ofRequest outs }

/-- A hook of a request. -/
def Service.request (t : Service σ) (hook : Hook) (v s : ℕ) : Reply × Service σ :=
  match hooked hook with
  | some (.cppCall phase) =>
      let out := firstAnswer (b.handler phase) declined
        (site.instances v .handler (.ofSection s .handlers)) t.world
      (⟨some out.result, out.asked.map fun e => ⟨.handler, e.1.addr, .request phase⟩, false⟩,
        { t with world := out.world })
  | some .cppInsertRequestFilters =>
      (⟨none, [], false⟩,
        t.attach site v true (.ofSection s .outputFilters) (.ofSection s .inputFilters))
  | _ => (.nothing, t)

/-- A hook of a connection. -/
def Service.connection (t : Service σ) (hook : Hook) (v : ℕ) : Reply × Service σ :=
  match hooked hook with
  | some .cppInsertConnectionFilters =>
      (⟨some ok, [], false⟩,
        t.attach site v false (.ofServer v .outputFilters) (.ofServer v .inputFilters))
  | some .cppCallProcessConnection =>
      let out := firstAnswer b.protocol declined
        (site.instances v .protocol (.ofServer v .protocolHandlers)) t.world
      (⟨some out.result, out.asked.map fun e => ⟨.protocol, e.1.addr, .processConnection⟩, false⟩,
        { t with world := out.world })
  | _ => (.nothing, t)

/-- An attached filter is run: its method is called. -/
def Service.runFilter (t : Service σ) (direction : Direction) (i : ℕ) : Reply × Service σ :=
  match direction with
  | .input =>
      match t.inputFilters[i]? with
      | some (filter, m) =>
          let out := b.inputFilter m filter t.world
          (⟨some out.1, [⟨.inputFilter, filter.addr, .filter m⟩], false⟩,
            { t with world := out.2 })
      | none => (.nothing, t)
  | .output =>
      match t.outputFilters[i]? with
      | some (filter, m) =>
          let out := b.outputFilter m filter t.world
          (⟨some out.1, [⟨.outputFilter, filter.addr, .filter m⟩], false⟩,
            { t with world := out.2 })
      | none => (.nothing, t)

/-- An attached filter is removed. -/
def Service.removeFilter (t : Service σ) (direction : Direction) (i : ℕ) : Service σ :=
  match direction with
  | .input => { t with inputFilters := t.inputFilters.eraseIdx i }
  | .output => { t with outputFilters := t.outputFilters.eraseIdx i }

/-- One step of the service. -/
def Service.step (t : Service σ) : Stimulus → Reply × Service σ
  | .request hook v outer inner => t.request site b hook v (innermost outer inner)
  | .connection hook v => t.connection site b hook v
  | .runFilter direction i => t.runFilter b direction i
  | .removeFilter direction i => (.nothing, t.removeFilter direction i)

/-- The service as a machine. -/
def Service.machine : Machine (Service σ) Stimulus Reply where
  step := Service.step site b

/-- Nothing is attached yet. -/
def Service.start (w : σ) : Service σ where
  inputFilters := []
  outputFilters := []
  world := w

end

/-- The service has no arrays to leave. -/
theorem overrun_step {σ : Type} (site : Site) (b : Behaviour σ) (t : Service σ) (i : Stimulus) :
    (t.step site b i).1.overrun = false := by
  cases i with
  | request hook v outer inner =>
    simp only [Service.step, Service.request]
    split <;> rfl
  | connection hook v =>
    simp only [Service.step, Service.connection]
    split <;> rfl
  | runFilter direction i =>
    cases direction with
    | input => simp only [Service.step, Service.runFilter]; split <;> rfl
    | output => simp only [Service.step, Service.runFilter]; split <;> rfl
  | removeFilter direction i => rfl

theorem target_of_nameFor {d : Directive} {L : ListId} {name : CStr}
    (h : d.nameFor L = some name) : d.target = some (L, name) := by
  obtain ⟨⟨L', name'⟩, htarget, hif⟩ := Option.bind_eq_some_iff.mp h
  obtain ⟨rfl, hsame⟩ := Option.ite_none_right_eq_some.mp hif
  obtain rfl : name' = name := Option.some.inj hsame
  exact htarget

/-! ### The records of a child that has started -/

section

variable (env : DsoEnv) (v : ℕ)

theorem list_setInstance (serverRec : CppServerRec) (name : CStr) (k : Kind) (p : Ptr k)
    (l : SrvList) : (serverRec.setInstance name k p).list l = serverRec.list l := by
  cases k <;> cases l <;> rfl

/-- What no instance table shows, loading leaves alone. -/
theorem observed_keep {γ : Type} {f : CppServerRec → γ}
    (hf : ∀ serverRec name k (p : Ptr k), f (serverRec.setInstance name k p) = f serverRec)
    (c : Child) (name : CStr) (sohandle : ℕ) (k : Kind) (result : Option (Ptr k)) (w : ℕ) :
    f ((c.keep v name sohandle k result).servers w) = f (c.servers w) := by
  cases result with
  | none => rfl
  | some p =>
    by_cases hw : w = v
    · subst hw
      simp only [Child.keep, Function.update_self, hf]
    · rw [servers_keep_of_ne c v name sohandle k (some p) hw]

theorem observed_loadCppModule {γ : Type} {f : CppServerRec → γ}
    (hf : ∀ serverRec name k (p : Ptr k), f (serverRec.setInstance name k p) = f serverRec)
    (entry : PathEntry) (c : Child) (w : ℕ) :
    f ((loadCppModule env v entry c).2.servers w) = f (c.servers w) := by
  unfold loadCppModule
  cases env.aprDsoLoad v entry with
  | some why => rfl
  | none =>
    cases env.aprDsoSym v entry with
    | error why => rfl
    | ok curHandler => simp only [observed_keep v hf]

theorem observed_loadEntries {γ : Type} {f : CppServerRec → γ}
    (hf : ∀ serverRec name k (p : Ptr k), f (serverRec.setInstance name k p) = f serverRec)
    (w : ℕ) : ∀ (entries : List PathEntry) (c : Child),
      f ((loadEntries env v entries c).servers w) = f (c.servers w) := by
  intro entries
  induction entries with
  | nil => intro c; rfl
  | cons entry entries ih =>
    intro c
    rw [← observed_loadCppModule env v hf entry c w]
    exact ih _

end

section

variable {ds : List Directive} {cfg : Config} (hr : Reached ds cfg) (env : DsoEnv)
  (order : HashOrder CStr) (servers : Servers) (fold : CStr → CStr)
include hr

/-- **The name lists of a child** are those of its configuration. -/
theorem Reached.holdsNames_spawned (v : ℕ) (l : SrvList) :
    HoldsNames (((cppSpawnHandlers env order servers (Child.start cfg.servers)).servers v).list l)
      (accepted (.ofServer v l) ds) := by
  have hlist : ((cppSpawnHandlers env order servers (Child.start cfg.servers)).servers v).list l
      = (cfg.servers v).list l :=
    observed_loadEntries env servers.main (f := fun serverRec => serverRec.list l)
      (fun serverRec name k p => list_setInstance serverRec name k p l) v _
      (Child.start cfg.servers)
  rw [hlist]
  exact hr.lists (.ofServer v l)

/-- **The instance tables of a child** hold what the names stand for. -/
theorem Reached.getInstance_spawned (v : ℕ) (k : Kind) (n : CStr) :
    ((cppSpawnHandlers env order servers (Child.start cfg.servers)).servers v).getInstance k n
      = Site.instanceOf ⟨ds, env, servers.main, fold⟩ v k n := by
  by_cases hv : v = servers.main
  · subst hv
    have hlookup := lookup_loadHandlers env servers.main order
      (c := Child.start cfg.servers) (hr.unspawned servers.main) k n
    rw [Site.instanceOf, if_pos rfl, ← lookup_tableOf, ← hr.handlerPathHash_eq]
    exact hlookup
  · -- nothing is loaded into another server's record
    have hrecord : (cppSpawnHandlers env order servers (Child.start cfg.servers)).servers v
        = cfg.servers v := servers_loadEntries_of_ne env servers.main hv _ _
    rw [hrecord, (hr.unspawned v).getInstance_eq, Site.instanceOf, if_neg hv]

end

/-! ### What insertion attaches -/

/-- A filter as the service sees it. -/
def ApFilter.seen (k : Kind) (f : ApFilter) : Ptr k × FilterMethod :=
  (⟨f.ctx⟩, if f.r.isSome then .requestFilter else .connectionFilter)

section

variable (fold : CStr → CStr) (regs : List Registration)

theorem attachedFor_append (direction : Direction) (calls calls' : List AddCall) :
    attachedFor fold regs direction (calls ++ calls')
      = attachedFor fold regs direction calls ++ attachedFor fold regs direction calls' := by
  rw [attachedFor, List.filter_append, List.filterMap_append]
  rfl

/-- Calls in one direction attach nothing in the other. -/
theorem attachedFor_of_ne {k : Kind} (table : AprHash (Ptr k)) {direction direction' : Direction}
    (h : direction ≠ direction') (r : Option RequestRec) (names : List CStr) :
    attachedFor fold regs direction' (callsFor table direction r names) = [] := by
  rw [attachedFor, List.filter_eq_nil_iff.mpr, List.filterMap_nil]
  intro call hcall
  obtain ⟨n, -, f, -, rfl⟩ := mem_callsFor.mp hcall
  simpa using h

/-- **What the names of a list attach.** -/
theorem attachedFor_callsFor {k : Kind} (table : AprHash (Ptr k)) (direction : Direction)
    (r : Option RequestRec) (names : List CStr) :
    (attachedFor fold regs direction (callsFor table direction r names)).map (ApFilter.seen k)
      = names.filterMap fun n => (table.lookup n).bind fun p =>
          ((apAddFilter (ftypeOf fold regs direction n) ⟨direction, n, p.addr, r⟩).map fun f =>
            (ApFilter.seen k f).2).map fun m => (p, m) := by
  have hall : (callsFor table direction r names).filter (fun call => call.direction = direction)
      = callsFor table direction r names := by
    rw [List.filter_eq_self]
    intro call hcall
    obtain ⟨n, -, f, -, rfl⟩ := mem_callsFor.mp hcall
    simp
  rw [attachedFor, hall, callsFor, List.filterMap_filterMap, List.map_filterMap]
  refine List.filterMap_congr fun n _ => ?_
  cases table.lookup n with
  | none => rfl
  | some p =>
    simp only [Option.map_some, Option.bind_some]
    cases ftypeOf fold regs direction n with
    | none => rfl
    | some ftype =>
      cases ftype with
      | connection => rfl
      | resource => cases r <;> rfl

/-- What httpd attaches runs the method of the service. -/
theorem map_seen_apAddFilter (site : Site) (k : Kind) (direction : Direction) (n : CStr)
    (addr : ℕ) (r : Option RequestRec) :
    (apAddFilter (ftypeOf site.fold (along Directive.registered [] site.ds).flatten direction n)
        ⟨direction, n, addr, r⟩).map (fun f => (ApFilter.seen k f).2)
      = site.runsAs direction r.isSome n := by
  unfold Site.runsAs apAddFilter
  cases ftypeOf site.fold (along Directive.registered [] site.ds).flatten direction n with
  | none => rfl
  | some ftype =>
    cases ftype with
    | connection => rfl
    | resource => cases r <;> rfl

/-- What a list of the site attaches, seen as the service sees it. -/
theorem map_seen_attachedFor (site : Site) (v : ℕ) {k : Kind} {table : AprHash (Ptr k)}
    (htable : ∀ n, table.lookup n = site.instanceOf v k n) (direction : Direction)
    (r : Option RequestRec) (L : ListId) :
    (attachedFor site.fold (along Directive.registered [] site.ds).flatten direction
        (callsFor table direction r (accepted L site.ds))).map (ApFilter.seen k)
      = site.attachments v k direction r.isSome L := by
  rw [attachedFor_callsFor]
  refine List.filterMap_congr fun n _ => ?_
  rw [htable n]
  refine Option.bind_congr fun p _ => ?_
  rw [map_seen_apAddFilter site]

end

/-! ### The simulation -/

/-- A child and its service agree. -/
structure Serves {σ : Type} (site : Site) (spawned : Child) (s : Serving σ) (t : Service σ) :
    Prop where
  child : s.child = spawned
  inputFilters : s.inputFilters.map (ApFilter.seen .inputFilter) = t.inputFilters
  outputFilters : s.outputFilters.map (ApFilter.seen .outputFilter) = t.outputFilters
  world : s.world = t.world

section

variable {σ : Type} (fold : CStr → CStr) (cfg : Config) (b : Behaviour σ)

theorem runFilter_input (s : Serving σ) (f : ApFilter) :
    s.runFilter b .input f
      = (⟨some (b.inputFilter (f.seen .inputFilter).2 (f.seen .inputFilter).1 s.world).1,
          [⟨.inputFilter, f.ctx, .filter (f.seen .inputFilter).2⟩], false⟩,
        { s with world :=
            (b.inputFilter (f.seen .inputFilter).2 (f.seen .inputFilter).1 s.world).2 }) := by
  obtain ⟨ctx, r⟩ := f
  cases r <;> rfl

theorem runFilter_output (s : Serving σ) (f : ApFilter) :
    s.runFilter b .output f
      = (⟨some (b.outputFilter (f.seen .outputFilter).2 (f.seen .outputFilter).1 s.world).1,
          [⟨.outputFilter, f.ctx, .filter (f.seen .outputFilter).2⟩], false⟩,
        { s with world :=
            (b.outputFilter (f.seen .outputFilter).2 (f.seen .outputFilter).1 s.world).2 }) := by
  obtain ⟨ctx, r⟩ := f
  cases r <;> rfl

/-- **A filter that is run** is run as the method the service has for it. -/
theorem Serves.runFilter {site : Site} {spawned : Child} {s : Serving σ} {t : Service σ}
    (h : Serves site spawned s t) (direction : Direction) (i : ℕ) :
    (s.step fold cfg b (.runFilter direction i)).1 = (t.runFilter b direction i).1 ∧
      Serves site spawned (s.step fold cfg b (.runFilter direction i)).2
        (t.runFilter b direction i).2 := by
  cases direction with
  | input =>
    have hget : t.inputFilters[i]? = s.inputFilters[i]?.map (ApFilter.seen .inputFilter) := by
      rw [← h.inputFilters, List.getElem?_map]
    simp only [Serving.step, Serving.filters, Service.runFilter, hget]
    cases s.inputFilters[i]? with
    | none => exact ⟨rfl, h⟩
    | some f =>
      simp only [Option.map_some, runFilter_input, ← h.world]
      exact ⟨rfl, h.child, h.inputFilters, h.outputFilters, rfl⟩
  | output =>
    have hget : t.outputFilters[i]? = s.outputFilters[i]?.map (ApFilter.seen .outputFilter) := by
      rw [← h.outputFilters, List.getElem?_map]
    simp only [Serving.step, Serving.filters, Service.runFilter, hget]
    cases s.outputFilters[i]? with
    | none => exact ⟨rfl, h⟩
    | some f =>
      simp only [Option.map_some, runFilter_output, ← h.world]
      exact ⟨rfl, h.child, h.inputFilters, h.outputFilters, rfl⟩

/-- **A filter that is removed** is gone from both. -/
theorem Serves.removeFilter {site : Site} {spawned : Child} {s : Serving σ} {t : Service σ}
    (h : Serves site spawned s t) (direction : Direction) (i : ℕ) :
    Serves site spawned (s.removeFilter direction i) (t.removeFilter direction i) := by
  cases direction with
  | input =>
    refine ⟨h.child, ?_, h.outputFilters, h.world⟩
    show (s.inputFilters.eraseIdx i).map _ = t.inputFilters.eraseIdx i
    rw [← h.inputFilters, List.eraseIdx_map]
  | output =>
    refine ⟨h.child, h.inputFilters, ?_, h.world⟩
    show (s.outputFilters.eraseIdx i).map _ = t.outputFilters.eraseIdx i
    rw [← h.outputFilters, List.eraseIdx_map]

end

section

variable {σ : Type} {ds : List Directive} {cfg : Config} (hr : Reached ds cfg)
  (hroom : ∀ L, (given L ds).length < maxHandlers) (env : DsoEnv)
  (order : HashOrder CStr) (servers : Servers) (fold : CStr → CStr) (b : Behaviour σ)
include hr

/-- Lists attach what the site says. -/
theorem Serves.attach {s : Serving σ} {t : Service σ}
    (h : Serves ⟨ds, env, servers.main, fold⟩
      (cppSpawnHandlers env order servers (Child.start cfg.servers)) s t)
    (v : ℕ) (r : Option RequestRec) (outs ins : ListId) :
    Serves ⟨ds, env, servers.main, fold⟩
      (cppSpawnHandlers env order servers (Child.start cfg.servers))
      (s.attach fold cfg
        (callsFor (s.child.servers v).outputFilterHash .output r (accepted outs ds)
          ++ callsFor (s.child.servers v).inputFilterHash .input r (accepted ins ds)))
      (t.attach ⟨ds, env, servers.main, fold⟩ v r.isSome outs ins) := by
  have hinstance (k : Kind) (n : CStr) : (s.child.servers v).getInstance k n
      = Site.instanceOf ⟨ds, env, servers.main, fold⟩ v k n := by
    rw [h.child]
    exact hr.getInstance_spawned env order servers fold v k n
  refine ⟨h.child, ?_, ?_, h.world⟩
  · show (s.inputFilters ++ _).map _ = t.inputFilters ++ _
    rw [attachedFor_append, attachedFor_of_ne _ _ _ (show Direction.output ≠ .input by decide),
      List.nil_append, List.map_append, h.inputFilters, hr.registrations]
    exact congrArg _ (map_seen_attachedFor ⟨ds, env, servers.main, fold⟩ v
      (hinstance .inputFilter) .input r ins)
  · show (s.outputFilters ++ _).map _ = t.outputFilters ++ _
    rw [attachedFor_append, attachedFor_of_ne _ _ _ (show Direction.input ≠ .output by decide),
      List.append_nil, List.map_append, h.outputFilters, hr.registrations]
    exact congrArg _ (map_seen_attachedFor ⟨ds, env, servers.main, fold⟩ v
      (hinstance .outputFilter) .output r outs)

/-- The lists of a request are those of its innermost section. -/
theorem Reached.holdsNames_requestRec (s : Serving σ) (v outer : ℕ) (inner : List ℕ) (l : DirList) :
    HoldsNames ((s.requestRec cfg v outer inner).perDirConfig.list l)
      (accepted (.ofSection (innermost outer inner) l) ds) := by
  show HoldsNames ((mergeSections (cfg.sections outer) (inner.map cfg.sections)).list l) _
  rw [hr.list_mergeSections]
  exact hr.lists (.ofSection (innermost outer inner) l)

include hroom

/-- **A hook of a request** is answered alike, and leaves the same behind. -/
theorem Serves.request {s : Serving σ} {t : Service σ}
    (h : Serves ⟨ds, env, servers.main, fold⟩
      (cppSpawnHandlers env order servers (Child.start cfg.servers)) s t)
    (hook : Hook) (v outer : ℕ) (inner : List ℕ) :
    (s.request fold cfg b hook (s.requestRec cfg v outer inner)).1
        = (t.request ⟨ds, env, servers.main, fold⟩ b hook v (innermost outer inner)).1 ∧
      Serves ⟨ds, env, servers.main, fold⟩
        (cppSpawnHandlers env order servers (Child.start cfg.servers))
        (s.request fold cfg b hook (s.requestRec cfg v outer inner)).2
        (t.request ⟨ds, env, servers.main, fold⟩ b hook v (innermost outer inner)).2 := by
  set r := s.requestRec cfg v outer inner with hrec
  have hlists := hr.holdsNames_requestRec s v outer inner
  have hinside : ∀ l, (accepted (.ofSection (innermost outer inner) l) ds).length < maxHandlers :=
    fun l => length_accepted_lt.mpr (hroom _)
  unfold Serving.request Service.request
  cases hooked hook with
  | none => exact ⟨rfl, h⟩
  | some f =>
    cases f with
    | cppCall phase =>
      have hasks := cppCall_asksFound (r := r) (hlists .handlers) (hinside .handlers) phase
        b.handler s.world
      have hfound : (accepted (.ofSection (innermost outer inner) .handlers) ds).filterMap
            (fun n => r.serverConfig.handlerHash.lookup n)
          = Site.instances ⟨ds, env, servers.main, fold⟩ v .handler
            (.ofSection (innermost outer inner) .handlers) := by
        refine List.filterMap_congr fun n _ => ?_
        rw [← hr.getInstance_spawned env order servers fold v .handler n, ← h.child]
        rfl
      rw [hfound] at hasks
      simp only [← h.world, hasks.state, hasks.inside]
      exact ⟨trivial, h.child, h.inputFilters, h.outputFilters, rfl⟩
    | cppInsertRequestFilters =>
      have hcalls := cppInsertRequestFilters_state (hlists .outputFilters) (hlists .inputFilters)
      have hwalk : (cppInsertRequestFilters r).overrun = false := by
        rw [cppInsertRequestFilters, Walk.andThen, Bool.or_eq_false_iff]
        exact ⟨(hlists .outputFilters).whileSlots_overrun (hinside .outputFilters) _ _,
          (hlists .inputFilters).whileSlots_overrun (hinside .inputFilters) _ _⟩
      refine ⟨by simp only [hwalk], ?_⟩
      show Serves _ _ (s.attach fold cfg (cppInsertRequestFilters r).state) _
      rw [hcalls]
      exact h.attach hr env order servers fold v (some r) _ _
    | cppInsertConnectionFilters => exact ⟨rfl, h⟩
    | cppCallProcessConnection => exact ⟨rfl, h⟩
    | cppSpawnHandlers => exact ⟨rfl, h⟩

/-- **A hook of a connection** is answered alike, and leaves the same behind. -/
theorem Serves.connection {s : Serving σ} {t : Service σ}
    (h : Serves ⟨ds, env, servers.main, fold⟩
      (cppSpawnHandlers env order servers (Child.start cfg.servers)) s t)
    (hook : Hook) (v : ℕ) :
    (s.connection fold cfg b hook (s.child.servers v)).1
        = (t.connection ⟨ds, env, servers.main, fold⟩ b hook v).1 ∧
      Serves ⟨ds, env, servers.main, fold⟩
        (cppSpawnHandlers env order servers (Child.start cfg.servers))
        (s.connection fold cfg b hook (s.child.servers v)).2
        (t.connection ⟨ds, env, servers.main, fold⟩ b hook v).2 := by
  have hlists (l : SrvList) : HoldsNames ((s.child.servers v).list l)
      (accepted (.ofServer v l) ds) := by
    rw [h.child]
    exact hr.holdsNames_spawned env order servers v l
  have hinside : ∀ l, (accepted (.ofServer v l) ds).length < maxHandlers :=
    fun l => length_accepted_lt.mpr (hroom _)
  unfold Serving.connection Service.connection
  cases hooked hook with
  | none => exact ⟨rfl, h⟩
  | some f =>
    cases f with
    | cppCall phase => exact ⟨rfl, h⟩
    | cppInsertRequestFilters => exact ⟨rfl, h⟩
    | cppSpawnHandlers => exact ⟨rfl, h⟩
    | cppInsertConnectionFilters =>
      have hcalls := cppInsertConnectionFilters_state (hlists .outputFilters) (hlists .inputFilters)
      have hwalk : (cppInsertConnectionFilters (s.child.servers v)).overrun = false := by
        rw [cppInsertConnectionFilters, Walk.andThen, Bool.or_eq_false_iff]
        exact ⟨(hlists .outputFilters).whileSlots_overrun (hinside .outputFilters) _ _,
          (hlists .inputFilters).whileSlots_overrun (hinside .inputFilters) _ _⟩
      refine ⟨by simp only [hwalk], ?_⟩
      show Serves _ _ (s.attach fold cfg (cppInsertConnectionFilters (s.child.servers v)).state) _
      rw [hcalls]
      exact h.attach hr env order servers fold v none _ _
    | cppCallProcessConnection =>
      have hnames : HoldsNames (s.child.servers v).protocolHandlers
          (accepted (.ofServer v .protocolHandlers) ds) := hlists .protocolHandlers
      have hasks := cppCallProcessConnection_asksFound hnames (hinside .protocolHandlers)
        b.protocol s.world
      have hfound : (accepted (.ofServer v .protocolHandlers) ds).filterMap
            (fun n => (s.child.servers v).protocolHash.lookup n)
          = Site.instances ⟨ds, env, servers.main, fold⟩ v .protocol
            (.ofServer v .protocolHandlers) := by
        refine List.filterMap_congr fun n _ => ?_
        rw [← hr.getInstance_spawned env order servers fold v .protocol n, ← h.child]
        rfl
      rw [hfound] at hasks
      simp only [← h.world, hasks.state, hasks.inside]
      exact ⟨trivial, h.child, h.inputFilters, h.outputFilters, rfl⟩

/-- **The child answers as its service does**, step by step. -/
theorem simulates_service :
    (Serving.machine fold cfg b).Simulates (Service.machine ⟨ds, env, servers.main, fold⟩ b)
      (Serves ⟨ds, env, servers.main, fold⟩
        (cppSpawnHandlers env order servers (Child.start cfg.servers))) id := by
  intro s t stimulus h
  cases stimulus with
  | request hook v outer inner =>
    exact h.request hr hroom env order servers fold b hook v outer inner
  | connection hook v => exact h.connection hr hroom env order servers fold b hook v
  | runFilter direction i => exact h.runFilter fold cfg b direction i
  | removeFilter direction i => exact ⟨rfl, h.removeFilter direction i⟩

/-- **Runs are answered alike.** -/
theorem run_serves (w : σ) (stimuli : List Stimulus) :
    let child := (Serving.machine fold cfg b).run (Serving.start cfg env order servers w) stimuli
    let service :=
      (Service.machine ⟨ds, env, servers.main, fold⟩ b).run (Service.start w) stimuli
    child.1 = service.1 ∧
      Serves ⟨ds, env, servers.main, fold⟩
        (cppSpawnHandlers env order servers (Child.start cfg.servers)) child.2 service.2 := by
  have hstart : Serves ⟨ds, env, servers.main, fold⟩
      (cppSpawnHandlers env order servers (Child.start cfg.servers))
      (Serving.start cfg env order servers w) (Service.start w) := ⟨rfl, rfl, rfl, rfl⟩
  have hrun := (simulates_service hr hroom env order servers fold b).run stimuli hstart
  rw [List.map_id] at hrun
  exact hrun

end

/-! ### Every run -/

/-- **A child serves what its directives say.**  With room in every name list, and
whatever the shared objects offer, the instances do and httpd asks for, in whatever
order: the child gives the replies of the service, no walk leaves its array, and the
filters attached in the end are those of the service. -/
theorem child_serves {σ : Type} (site : Site) (order : HashOrder CStr) (servers : Servers)
    (hmain : servers.main = site.main)
    (hroom : ∀ L, (given L site.ds).length < maxHandlers) (b : Behaviour σ) (w : σ) :
    ∃ messages cfg, configure site.ds Config.start = .ok (messages, cfg) ∧
      ∀ stimuli,
        let child := (Serving.machine site.fold cfg b).run
          (Serving.start cfg site.env order servers w) stimuli
        let service := (Service.machine site b).run (Service.start w) stimuli
        child.1 = service.1 ∧ (∀ reply ∈ child.1, reply.overrun = false) ∧
          Serves site (cppSpawnHandlers site.env order servers (Child.start cfg.servers))
            child.2 service.2 := by
  obtain ⟨cfg, hrun, hr⟩ := configure_start site.ds
  refine ⟨_, cfg, hrun, fun stimuli => ?_⟩
  obtain ⟨ds, env, main, fold⟩ := site
  subst hmain
  obtain ⟨hreplies, hserves⟩ := run_serves hr hroom env order servers fold b w stimuli
  refine ⟨hreplies, ?_, hserves⟩
  intro reply hreply
  rw [hreplies] at hreply
  have hkeeps : (Service.machine ⟨ds, env, servers.main, fold⟩ b).Keeps fun _ => True :=
    fun _ _ _ => trivial
  exact hkeeps.forall_mem_answers (Q := fun reply => reply.overrun = false)
    (fun t i _ => overrun_step _ b t i) stimuli trivial reply hreply

/-- An environment in which everything loads and offers one handler. -/
def handlerEnv : DsoEnv where
  aprDsoLoad _ _ := none
  aprDsoSym _ _ := .ok ⟨some fun _ => some ⟨1⟩, none, none, none⟩

/-- A section with one handler, on the main server. -/
def oneHandler : Site where
  ds := [.inServer 0 (.loadCPPHandler (cStr (literal "f")) (cStr (literal "/"))),
    .inSection 0 (.addCPPHandler (cStr (literal "f")))]
  env := handlerEnv
  main := 0
  fold := id

/-- Methods that answer `OK`, or `DECLINED` when they are filters. -/
def obliging : Behaviour Unit where
  handler _ _ w := (ok, w)
  protocol _ w := (ok, w)
  inputFilter _ _ w := (declined, w)
  outputFilter _ _ w := (declined, w)

theorem oneHandler_room (L : ListId) : (given L oneHandler.ds).length < maxHandlers := by
  refine lt_of_le_of_lt (List.length_filterMap_le _ _) ?_
  decide

/-- The handler is asked in its phase, on its server. -/
theorem child_serves_oneHandler :
    ∃ messages cfg, configure oneHandler.ds Config.start = .ok (messages, cfg) ∧
      ((Serving.machine id cfg obliging).run
          (Serving.start cfg handlerEnv HashOrder.stored ⟨0, [1], by decide⟩ ())
          [.request .handler 0 0 [], .request .handler 1 0 [], .request .translateName 0 0 []]).1
        = [⟨some ok, [⟨.handler, 1, .request .handler⟩], false⟩, ⟨some declined, [], false⟩,
            .nothing] := by
  obtain ⟨messages, cfg, hrun, hserves⟩ := child_serves oneHandler HashOrder.stored
    ⟨0, [1], by decide⟩ rfl oneHandler_room obliging ()
  exact ⟨messages, cfg, hrun, (hserves _).1⟩

end ModCplusplus
