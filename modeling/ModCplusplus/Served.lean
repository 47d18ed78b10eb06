import ModCplusplus.Service

/-!
# What is called, and when

Three things hold of every run of a child whose name lists have room, whatever httpd
asks for and in whatever order.  A method is called on an instance of its own class, and
that instance is there, with its code, exactly as long as the pool of the child is,
although attached filters are bare pointers that outlive the requests they were attached
for.  The seven phases that `register_hooks` names reach the handlers, and the three
other methods of a handler are never called.  And a server that is not the first one
does nothing: what httpd asks of it can be left out of the run.

The pool of a child is destroyed by httpd, so its destruction is one more thing that can
happen in a life, at any time; what httpd asks after it is answered all the same.

## Main definitions

* `Site.Offers` — an instance that a shared object of the site makes.
* `LifeStimulus`, `LifeEvent`, `Serving.lifeMachine` — the child with its pool.
* `EndsWithPool` — an instance is deleted and unloaded with the pool.
* `FindsInstance` — a call finds its instance, alive as long as the pool is.
* `unhooked` — the phases nothing is registered for.

## Main results

* `keeps_offered`, `provides_step` — only offered instances are attached and called.
* `lived` — a life is a run with the end of the pool in between.
* `called_while_alive`, `hooked_phases_called`, `virtual_hosts_inert` — the three laws.
-/

namespace ModCplusplus

/-! ### Instances a site offers -/

/-- The factories behind the last path of some name make the instance. -/
def Site.Offers (site : Site) (k : Kind) (p : Ptr k) : Prop :=
  ∃ n path, lastPath (bound (.paths site.main) site.ds) n = some path ∧
    made site.env site.main (n, path) k = some p

/-- The methods of each kind of instance. -/
def Kind.Has : Kind → Method → Prop
  | .handler, .request _ => True
  | .inputFilter, .filter _ => True
  | .outputFilter, .filter _ => True
  | .protocol, .processConnection => True
  | _, _ => False

/-- The site offers the instance that is called, and it has the method. -/
def Site.Provides (site : Site) (call : MethodCall) : Prop :=
  call.kind.Has call.method ∧ site.Offers call.kind ⟨call.addr⟩

section

variable {site : Site} {v : ℕ} {k : Kind}

theorem Site.instanceOf_of_ne (h : v ≠ site.main) (n : CStr) : site.instanceOf v k n = none :=
  if_neg h

theorem Site.offers_of_instanceOf {n : CStr} {p : Ptr k} (h : site.instanceOf v k n = some p) :
    site.Offers k p := by
  by_cases hv : v = site.main
  · subst hv
    rw [instanceOf, if_pos rfl, Option.bind_eq_some_iff] at h
    obtain ⟨path, hpath, hmade⟩ := h
    exact ⟨n, path, hpath, hmade⟩
  · rw [instanceOf_of_ne hv] at h
    exact absurd h (by simp)

theorem Site.offers_of_mem_instances {L : ListId} {p : Ptr k} (h : p ∈ site.instances v k L) :
    site.Offers k p := by
  obtain ⟨n, -, hn⟩ := List.mem_filterMap.mp h
  exact offers_of_instanceOf hn

theorem Site.offers_of_mem_attachments {direction : Direction} {ofRequest : Bool} {L : ListId}
    {e : Ptr k × FilterMethod} (h : e ∈ site.attachments v k direction ofRequest L) :
    site.Offers k e.1 := by
  obtain ⟨n, -, hn⟩ := List.mem_filterMap.mp h
  obtain ⟨p, hp, hm⟩ := Option.bind_eq_some_iff.mp hn
  obtain ⟨m, -, rfl⟩ := Option.map_eq_some_iff.mp hm
  exact offers_of_instanceOf hp

theorem Site.instances_of_ne (h : v ≠ site.main) (L : ListId) : site.instances v k L = [] :=
  List.filterMap_eq_nil_iff.mpr fun n _ => instanceOf_of_ne h n

theorem Site.attachments_of_ne (h : v ≠ site.main) (direction : Direction) (ofRequest : Bool)
    (L : ListId) : site.attachments v k direction ofRequest L = [] :=
  List.filterMap_eq_nil_iff.mpr fun n _ => by rw [instanceOf_of_ne h n, Option.bind_none]

end

/-- Who is asked is one of those there are to ask. -/
theorem mem_of_mem_asked {H σ : Type} {ask : H → σ → ℤ × σ} {hs : List H} {w : σ} {e : H × ℤ}
    (h : e ∈ (firstAnswer ask declined hs w).asked) : e.1 ∈ hs :=
  (firstWins_firstAnswer ask declined hs w).initial.subset (List.mem_map_of_mem h)

/-! ### Only offered instances are attached and called -/

/-- The filters attached are instances that the site offers. -/
structure Service.Offered {σ : Type} (site : Site) (t : Service σ) : Prop where
  inputFilters : ∀ e ∈ t.inputFilters, site.Offers .inputFilter e.1
  outputFilters : ∀ e ∈ t.outputFilters, site.Offers .outputFilter e.1

section

variable {σ : Type} {site : Site} {b : Behaviour σ} {t : Service σ}

theorem Service.Offered.attach (h : t.Offered site) (v : ℕ) (ofRequest : Bool) (outs ins : ListId) :
    (t.attach site v ofRequest outs ins).Offered site where
  inputFilters e he := by
    rcases List.mem_append.mp he with he | he
    · exact h.inputFilters e he
    · exact Site.offers_of_mem_attachments he
  outputFilters e he := by
    rcases List.mem_append.mp he with he | he
    · exact h.outputFilters e he
    · exact Site.offers_of_mem_attachments he

theorem Service.Offered.runFilter (h : t.Offered site) (direction : Direction) (i : ℕ) :
    (t.runFilter b direction i).2.Offered site := by
  cases direction with
  | input =>
    unfold Service.runFilter
    cases t.inputFilters[i]? with
    | none => exact h
    | some e => exact ⟨h.inputFilters, h.outputFilters⟩
  | output =>
    unfold Service.runFilter
    cases t.outputFilters[i]? with
    | none => exact h
    | some e => exact ⟨h.inputFilters, h.outputFilters⟩

theorem Service.Offered.removeFilter (h : t.Offered site) (direction : Direction) (i : ℕ) :
    (t.removeFilter direction i).Offered site := by
  cases direction with
  | input => exact ⟨fun e he => h.inputFilters e (List.mem_of_mem_eraseIdx he), h.outputFilters⟩
  | output => exact ⟨h.inputFilters, fun e he => h.outputFilters e (List.mem_of_mem_eraseIdx he)⟩

/-- **Only offered instances are attached.** -/
theorem keeps_offered : (Service.machine site b).Keeps (Service.Offered site) := by
  intro t stimulus h
  cases stimulus with
  | request hook v outer inner =>
    show (t.request site b hook v (innermost outer inner)).2.Offered site
    unfold Service.request
    split
    · exact ⟨h.inputFilters, h.outputFilters⟩
    · exact h.attach _ _ _ _
    · exact h
  | connection hook v =>
    show (t.connection site b hook v).2.Offered site
    unfold Service.connection
    split
    · exact h.attach _ _ _ _
    · exact ⟨h.inputFilters, h.outputFilters⟩
    · exact h
  | runFilter direction i => exact h.runFilter direction i
  | removeFilter direction i => exact h.removeFilter direction i

/-- **Only offered instances are called.** -/
theorem provides_step (h : t.Offered site) (stimulus : Stimulus) :
    ∀ call ∈ (t.step site b stimulus).1.calls, site.Provides call := by
  intro call hcall
  cases stimulus with
  | request hook v outer inner =>
    simp only [Service.step, Service.request] at hcall
    split at hcall
    · obtain ⟨e, he, rfl⟩ := List.mem_map.mp hcall
      exact ⟨trivial, Site.offers_of_mem_instances (mem_of_mem_asked he)⟩
    · exact absurd hcall List.not_mem_nil
    · exact absurd hcall List.not_mem_nil
  | connection hook v =>
    simp only [Service.step, Service.connection] at hcall
    split at hcall
    · exact absurd hcall List.not_mem_nil
    · obtain ⟨e, he, rfl⟩ := List.mem_map.mp hcall
      exact ⟨trivial, Site.offers_of_mem_instances (mem_of_mem_asked he)⟩
    · exact absurd hcall List.not_mem_nil
  | runFilter direction i =>
    cases direction with
    | input =>
      simp only [Service.step, Service.runFilter] at hcall
      split at hcall
      · next filter m hget =>
        rw [List.mem_singleton.mp hcall]
        exact ⟨trivial, h.inputFilters _ (List.mem_of_getElem? hget)⟩
      · exact absurd hcall List.not_mem_nil
    | output =>
      simp only [Service.step, Service.runFilter] at hcall
      split at hcall
      · next filter m hget =>
        rw [List.mem_singleton.mp hcall]
        exact ⟨trivial, h.outputFilters _ (List.mem_of_getElem? hget)⟩
      · exact absurd hcall List.not_mem_nil
  | removeFilter direction i => exact absurd hcall List.not_mem_nil

end

/-! ### Calls and the end of the child -/

/-- What happens to a child: httpd asks something of it, or destroys its pool. -/
inductive LifeStimulus where
  | asks (stimulus : Stimulus)
  | destroyPool
  deriving DecidableEq

/-- What httpd asks. -/
def LifeStimulus.asked : LifeStimulus → Option Stimulus
  | .asks stimulus => some stimulus
  | .destroyPool => none

/-- What happens to instances: a method is called, or the pool of the child ends
something. -/
inductive LifeEvent where
  | called (call : MethodCall)
  | ended (event : Event)
  deriving DecidableEq

/-- What the pool ends. -/
def LifeEvent.ending : LifeEvent → Option Event
  | .called _ => none
  | .ended event => some event

/-- The child with other cleanups on its pool. -/
def Serving.withPool {σ : Type} (s : Serving σ) (pool : List Cleanup) : Serving σ :=
  { s with child := { s.child with pool } }

theorem withPool_created {σ : Type} (s : Serving σ) (pool : List Cleanup) :
    (s.withPool pool).child.created = s.child.created := rfl

section

variable {σ : Type} (fold : CStr → CStr) (cfg : Config) (b : Behaviour σ)
  (closing : HashOrder ApacheHandler)

/-- One step in the life of a child.  Destroying the pool runs its cleanups; nothing
takes the instances out of the tables, or the filters off their chains. -/
def Serving.live (s : Serving σ) : LifeStimulus → List LifeEvent × Serving σ
  | .asks stimulus =>
      let out := s.step fold cfg b stimulus
      (out.1.calls.map .called, out.2)
  | .destroyPool => ((s.child.destroyPool closing).map .ended, s.withPool [])

/-- The child with its pool as a machine. -/
def Serving.lifeMachine : Machine (Serving σ) LifeStimulus (List LifeEvent) where
  step := Serving.live fold cfg b closing

/-- **What the child does, it does whatever is on its pool.** -/
theorem step_withPool (s : Serving σ) (pool : List Cleanup) (stimulus : Stimulus) :
    (s.withPool pool).step fold cfg b stimulus
      = ((s.step fold cfg b stimulus).1, (s.step fold cfg b stimulus).2.withPool pool) := by
  cases stimulus with
  | request hook v outer inner =>
    simp only [Serving.step, Serving.request]
    rcases hooked hook with _ | (phase | _ | _ | _ | _) <;> rfl
  | connection hook v =>
    simp only [Serving.step, Serving.connection]
    rcases hooked hook with _ | (phase | _ | _ | _ | _) <;> rfl
  | runFilter direction i =>
    have hfilters : (s.withPool pool).filters direction = s.filters direction := by
      cases direction <;> rfl
    simp only [Serving.step, hfilters]
    cases (s.filters direction)[i]? with
    | none => rfl
    | some f => cases direction <;> rfl
  | removeFilter direction i => cases direction <;> rfl

/-- The child itself stays as it was spawned. -/
theorem child_run (s : Serving σ) (stimuli : List Stimulus) :
    ((Serving.machine fold cfg b).run s stimuli).2.child = s.child := by
  have hkeeps : (Serving.machine fold cfg b).Keeps fun s' => s'.child = s.child := by
    intro s' stimulus h
    exact (child_serving_step s' stimulus).trans h
  exact hkeeps.run stimuli rfl

/-- **A life is a run** of what the child is asked, with the pool destroyed in between:
what the pool ends it ends once. -/
structure Lived (start : Serving σ) (life : List LifeStimulus) (past : List LifeEvent)
    (s : Serving σ) : Prop where
  state : s = Serving.withPool
    ((Serving.machine fold cfg b).run start (life.filterMap LifeStimulus.asked)).2
    (if .destroyPool ∈ life then [] else start.child.pool)
  endings : past.filterMap LifeEvent.ending
    = if .destroyPool ∈ life then start.child.destroyPool closing else []

theorem filterMap_ending_called (calls : List MethodCall) :
    (calls.map LifeEvent.called).filterMap LifeEvent.ending = [] := by
  rw [List.filterMap_map]
  exact List.filterMap_eq_nil_iff.mpr fun _ _ => rfl

theorem filterMap_ending_ended (events : List Event) :
    (events.map LifeEvent.ended).filterMap LifeEvent.ending = events := by
  rw [List.filterMap_map]
  exact List.filterMap_some

/-- **One more step of a life.** -/
theorem Lived.live {start s : Serving σ} {life : List LifeStimulus} {past : List LifeEvent}
    (h : Lived fold cfg b closing start life past s) (x : LifeStimulus) :
    Lived fold cfg b closing start (life ++ [x]) (past ++ (s.live fold cfg b closing x).1)
      (s.live fold cfg b closing x).2 := by
  obtain ⟨hstate, hendings⟩ := h
  cases x with
  | asks stimulus =>
    have hmem : LifeStimulus.destroyPool ∈ life ++ [.asks stimulus] ↔ .destroyPool ∈ life := by
      simp
    refine ⟨?_, ?_⟩
    · simp only [hmem, List.filterMap_append, Machine.run_append]
      show (s.step fold cfg b stimulus).2 = _
      rw [hstate, step_withPool]
      rfl
    · simp only [hmem, List.filterMap_append, Serving.live, filterMap_ending_called,
        List.append_nil, hendings]
  | destroyPool =>
    have hmem : LifeStimulus.destroyPool ∈ life ++ [.destroyPool] := by simp
    have hchild := child_run fold cfg b start (life.filterMap LifeStimulus.asked)
    refine ⟨?_, ?_⟩
    · rw [if_pos hmem, List.filterMap_append]
      show s.withPool [] = _
      rw [hstate, show [LifeStimulus.destroyPool].filterMap LifeStimulus.asked = [] from rfl,
        List.append_nil]
      rfl
    · rw [if_pos hmem, List.filterMap_append, hendings]
      show _ ++ ((s.child.destroyPool closing).map LifeEvent.ended).filterMap _ = _
      rw [filterMap_ending_ended, hstate]
      -- only the first destruction finds cleanups on the pool
      split
      · simp [Serving.withPool, Child.destroyPool]
      · simp [Serving.withPool, Child.destroyPool, hchild]

/-- **Every life.** -/
theorem lived (start : Serving σ) (life : List LifeStimulus) :
    Lived fold cfg b closing start life
      ((Serving.lifeMachine fold cfg b closing).run start life).1.flatten
      ((Serving.lifeMachine fold cfg b closing).run start life).2 := by
  induction life using List.reverseRecOn with
  | nil => exact ⟨rfl, rfl⟩
  | append_singleton life x ih =>
    rw [Machine.run_append, List.flatten_append, Machine.run_cons, Machine.run_nil,
      List.flatten_cons, List.flatten_nil, List.append_nil]
    exact ih.live fold cfg b closing x

end

/-- **An instance ends with the pool**: up to now it has been deleted and its shared object
unloaded once each, in this order, if the pool has been destroyed, and not at all if not. -/
structure EndsWithPool (life : List LifeStimulus) (past : List LifeEvent) (i : Created) :
    Prop where
  deletions : past.count (.ended (.delete i.addr)) = if .destroyPool ∈ life then 1 else 0
  unloads : past.count (.ended (.unload i.sohandle)) = if .destroyPool ∈ life then 1 else 0
  inTime : .destroyPool ∈ life →
    CleanupStack.Precedes past (.ended (.delete i.addr)) (.ended (.unload i.sohandle))

/-- **A call finds its instance**: exactly one instance was made at the address, it is of the
kind it is called as and has the method, and it is still there, with its code, exactly as
long as the pool is. -/
structure FindsInstance (created : List Created) (life : List LifeStimulus)
    (past : List LifeEvent) (call : MethodCall) (i : Created) : Prop where
  mem : i ∈ created
  addr : i.addr = call.addr
  unique : ∀ j ∈ created, j.addr = call.addr → j = i
  kind : i.kind = call.kind
  has : call.kind.Has call.method
  notDeleted_iff : .ended (.delete call.addr) ∉ past ↔ .destroyPool ∉ life
  notUnloaded_iff : .ended (.unload i.sohandle) ∉ past ↔ .destroyPool ∉ life

theorem count_ended (past : List LifeEvent) (event : Event) :
    past.count (.ended event) = (past.filterMap LifeEvent.ending).count event := by
  rw [List.count_filterMap, List.count]
  refine List.countP_congr fun e _ => ?_
  cases e with
  | called call => simp [LifeEvent.ending]
  | ended event' => simp [LifeEvent.ending]

theorem eq_ended_of_ending {e : LifeEvent} {event : Event} (h : e.ending = some event) :
    e = .ended event := by
  cases e with
  | called call => exact absurd h (by simp [LifeEvent.ending])
  | ended event' => exact congrArg LifeEvent.ended (Option.some.inj h)

section

variable {ds : List Directive} {cfg : Config} (hr : Reached ds cfg) (env : DsoEnv)
  (order : HashOrder CStr) (closing : HashOrder ApacheHandler) (servers : Servers)
  (hfresh : FreshInstances env servers.main (tableOf (bound (.paths servers.main) ds)))
include hr hfresh

/-- **Whatever was made ends with the pool.** -/
theorem Reached.endsWithPool {life : List LifeStimulus} {past : List LifeEvent}
    (hpast : past.filterMap LifeEvent.ending = if .destroyPool ∈ life then
      (cppSpawnHandlers env order servers (Child.start cfg.servers)).destroyPool closing else [])
    {i : Created}
    (hi : i ∈ (cppSpawnHandlers env order servers (Child.start cfg.servers)).created) :
    EndsWithPool life past i := by
  rw [← hr.handlerPathHash_eq] at hfresh
  refine ⟨?_, ?_, ?_⟩
  · rw [count_ended, hpast]
    split
    · exact count_delete env order closing servers (hr.unspawned _) hfresh hi
    · rfl
  · rw [count_ended, hpast]
    split
    · exact count_unload env order closing servers hi
    · rfl
  · intro hdestroyed
    have horder := delete_precedes_unload env order closing servers (hr.unspawned _) hi
    rw [if_pos hdestroyed] at hpast
    rw [← hpast] at horder
    obtain ⟨x, y, hx, hy, hbefore⟩ := horder.of_filterMap
    rwa [eq_ended_of_ending hx, eq_ended_of_ending hy] at hbefore

/-- **An instance that is offered is found.** -/
theorem Reached.findsInstance {life : List LifeStimulus} {past : List LifeEvent}
    (hpast : past.filterMap LifeEvent.ending = if .destroyPool ∈ life then
      (cppSpawnHandlers env order servers (Child.start cfg.servers)).destroyPool closing else [])
    (fold : CStr → CStr) {call : MethodCall}
    (h : Site.Provides ⟨ds, env, servers.main, fold⟩ call) :
    ∃ i, FindsInstance (cppSpawnHandlers env order servers (Child.start cfg.servers)).created
      life past call i := by
  obtain ⟨hhas, n, path, hpath, hmade⟩ := h
  have hentry : (cfg.servers servers.main).handlerPathHash.lookup n = some path := by
    rw [hr.handlerPathHash_eq, lookup_tableOf]
    exact hpath
  obtain ⟨so, hmem⟩ := mem_created_of_made env order servers hentry hmade
  obtain ⟨hdeletions, hunloads, -⟩ := hr.endsWithPool env order closing servers hfresh hpast hmem
  have haddrs : ((cppSpawnHandlers env order servers (Child.start cfg.servers)).created.map
      Created.addr).Nodup := by
    rw [← hr.handlerPathHash_eq] at hfresh
    have hnodup := nodup_instances hfresh order
    rw [← created_cppSpawnHandlers env order servers, List.map_map] at hnodup
    exact hnodup
  refine ⟨_, hmem, rfl, ?_, rfl, hhas, ?_, ?_⟩
  · intro j hj haddr
    exact List.inj_on_of_nodup_map haddrs hj hmem haddr
  · rw [← List.count_eq_zero, hdeletions]
    simp
  · rw [← List.count_eq_zero, hunloads]
    simp

end

/-- **Instances are called while they are alive.**  With room in every name list, and
whatever the shared objects make as long as it is fresh: whatever httpd asks for and
whenever it destroys the pool, every method that is called next is called on an instance
of its class, and this is still there exactly as long as the pool is. -/
theorem called_while_alive {σ : Type} (site : Site) (order : HashOrder CStr)
    (closing : HashOrder ApacheHandler) (servers : Servers) (hmain : servers.main = site.main)
    (hroom : ∀ L, (given L site.ds).length < maxHandlers)
    (hfresh : FreshInstances site.env site.main (tableOf (bound (.paths site.main) site.ds)))
    (b : Behaviour σ) (w : σ) :
    ∃ messages cfg, configure site.ds Config.start = .ok (messages, cfg) ∧
      ∀ life,
        let out := (Serving.lifeMachine site.fold cfg b closing).run
          (Serving.start cfg site.env order servers w) life
        let past := out.1.flatten
        (∀ i ∈ out.2.child.created, EndsWithPool life past i) ∧
        ∀ stimulus, ∀ call ∈ (out.2.step site.fold cfg b stimulus).1.calls,
          ∃ i, FindsInstance out.2.child.created life past call i := by
  obtain ⟨cfg, hrun, hr⟩ := configure_start site.ds
  refine ⟨_, cfg, hrun, ?_⟩
  intro life out past
  obtain ⟨ds, env, main, fold⟩ := site
  subst hmain
  obtain ⟨hstate, hpast⟩ := lived fold cfg b closing (Serving.start cfg env order servers w) life
  set asked := life.filterMap LifeStimulus.asked
  have hcreated : out.2.child.created
      = (cppSpawnHandlers env order servers (Child.start cfg.servers)).created := by
    have hchild := child_run fold cfg b (Serving.start cfg env order servers w) asked
    rw [show out.2 = _ from hstate, withPool_created, hchild]
    rfl
  refine ⟨?_, ?_⟩
  · intro i hi
    rw [hcreated] at hi
    exact hr.endsWithPool env order closing servers hfresh hpast hi
  · intro stimulus call hcall
    rw [hcreated]
    refine hr.findsInstance env order closing servers hfresh hpast fold ?_
    -- what is on the pool does not matter to the call
    rw [show out.2 = _ from hstate, step_withPool] at hcall
    obtain ⟨-, hserves⟩ := run_serves hr hroom env order servers fold b w asked
    have hanswer := (simulates_service hr hroom env order servers fold b _ _ stimulus hserves).1
    have hnone : (Service.start w).Offered ⟨ds, env, servers.main, fold⟩ :=
      ⟨fun e he => absurd he List.not_mem_nil, fun e he => absurd he List.not_mem_nil⟩
    refine provides_step (b := b) ((keeps_offered (b := b)).run asked hnone) stimulus call ?_
    exact (congrArg (fun reply : Reply => call ∈ reply.calls) hanswer).mp hcall

theorem oneHandler_fresh : FreshInstances oneHandler.env oneHandler.main
    (tableOf (bound (.paths oneHandler.main) oneHandler.ds)) := by
  have hname : ∀ name path,
      (tableOf (bound (.paths oneHandler.main) oneHandler.ds)).lookup name = some path →
        name = cStr (literal "f") := by
    intro name path h
    by_contra hne
    have hnone : ((∅ : AprHash CStr).insert (cStr (literal "f")) (cStr (literal "/"))).lookup name
        = none := by rw [AList.lookup_insert_ne hne, AList.lookup_empty]
    exact absurd (hnone.symm.trans h) (by simp)
  intro name path name' path' h h' k p k' p' hp hp' _
  refine ⟨(hname name path h).trans (hname name' path' h').symm, ?_⟩
  cases k <;> cases k' <;>
    simp only [made, oneHandler, handlerEnv, CppFactory.make, Option.bind_none, reduceCtorEq]
      at hp hp' ⊢

/-- The one handler: a second request finds it, and a third one, after the end of the pool,
finds it deleted. -/
theorem called_while_alive_oneHandler :
    ∃ messages cfg, configure oneHandler.ds Config.start = .ok (messages, cfg) ∧
      let request := Stimulus.request .handler 0 0 []
      let call : MethodCall := ⟨.handler, 1, .request .handler⟩
      let before := (Serving.lifeMachine id cfg obliging HashOrder.stored).run
        (Serving.start cfg handlerEnv HashOrder.stored ⟨0, [], by decide⟩ ()) [.asks request]
      let after := (Serving.lifeMachine id cfg obliging HashOrder.stored).run
        (Serving.start cfg handlerEnv HashOrder.stored ⟨0, [], by decide⟩ ())
        [.asks request, .asks request, .destroyPool]
      (∃ i, FindsInstance before.2.child.created [.asks request] before.1.flatten call i) ∧
        (.ended (.delete 1)) ∉ before.1.flatten ∧
        (∃ i, FindsInstance after.2.child.created [.asks request, .asks request, .destroyPool]
          after.1.flatten call i) ∧
        (.ended (.delete 1)) ∈ after.1.flatten := by
  obtain ⟨cfg, hrun, hr⟩ := configure_start oneHandler.ds
  obtain ⟨messages, cfg', hrun', halive⟩ := called_while_alive oneHandler HashOrder.stored
    HashOrder.stored ⟨0, [], by decide⟩ rfl oneHandler_room oneHandler_fresh obliging ()
  obtain ⟨rfl, rfl⟩ := Prod.mk.inj (Except.ok.inj (hrun.symm.trans hrun'))
  refine ⟨_, cfg, hrun, ?_⟩
  intro request call before after
  have hreplies := (run_serves hr oneHandler_room handlerEnv HashOrder.stored ⟨0, [], by decide⟩ id
    obliging () [request, request, request]).1
  have hsecond := congrArg (fun replies => (replies.getD 1 .nothing).calls) hreplies
  have hthird := congrArg (fun replies => (replies.getD 2 .nothing).calls) hreplies
  have hbefore := (halive [.asks request]).2 request call
    ((congrArg (fun calls => call ∈ calls) hsecond).mpr (List.mem_singleton_self call))
  have hafter := (halive [.asks request, .asks request, .destroyPool]).2 request call
    ((congrArg (fun calls => call ∈ calls) hthird).mpr (List.mem_singleton_self call))
  refine ⟨hbefore, ?_, hafter, ?_⟩
  · obtain ⟨i, hi⟩ := hbefore
    exact hi.notDeleted_iff.mpr (by decide)
  · obtain ⟨i, hi⟩ := hafter
    exact not_not.mp fun hnot => absurd (hi.notDeleted_iff.mp hnot) (by decide)

/-! ### The phases that are reached -/

/-- The phases that `register_hooks` registers nothing for. -/
def unhooked : List Phase := [.postReadRequest, .translateName, .headerParser]

theorem notMem_unhooked_of_hooked {hook : Hook} {phase : Phase}
    (h : hooked hook = some (.cppCall phase)) : phase ∉ unhooked := by
  cases hook <;> simp only [hooked, registerHooks] at h <;> revert h <;> cases phase <;> decide

theorem exists_hooked_of_notMem {phase : Phase} (h : phase ∉ unhooked) :
    ∃ hook, hooked hook = some (.cppCall phase) := by
  cases phase with
  | handler => exact ⟨.handler, rfl⟩
  | fixups => exact ⟨.fixups, rfl⟩
  | postReadRequest => exact absurd (by decide) h
  | translateName => exact absurd (by decide) h
  | headerParser => exact absurd (by decide) h
  | accessChecker => exact ⟨.accessChecker, rfl⟩
  | authChecker => exact ⟨.authChecker, rfl⟩
  | checkUserId => exact ⟨.checkUserId, rfl⟩
  | typeChecker => exact ⟨.typeChecker, rfl⟩
  | logger => exact ⟨.logTransaction, rfl⟩

section

variable {σ : Type} {site : Site} {b : Behaviour σ}

/-- Only phases with a hook are called. -/
theorem notMem_unhooked_of_call (t : Service σ) (stimulus : Stimulus) :
    ∀ call ∈ (t.step site b stimulus).1.calls, ∀ phase, call.method = .request phase →
      phase ∉ unhooked := by
  intro call hcall phase hphase
  cases stimulus with
  | request hook v outer inner =>
    simp only [Service.step, Service.request] at hcall
    split at hcall
    · next p hhook =>
      obtain ⟨e, -, rfl⟩ := List.mem_map.mp hcall
      rw [← Method.request.inj hphase]
      exact notMem_unhooked_of_hooked hhook
    · exact absurd hcall List.not_mem_nil
    · exact absurd hcall List.not_mem_nil
  | connection hook v =>
    simp only [Service.step, Service.connection] at hcall
    split at hcall
    · exact absurd hcall List.not_mem_nil
    · obtain ⟨e, -, rfl⟩ := List.mem_map.mp hcall
      exact absurd hphase (by simp)
    · exact absurd hcall List.not_mem_nil
  | runFilter direction i =>
    cases direction with
    | input =>
      simp only [Service.step, Service.runFilter] at hcall
      split at hcall
      · rw [List.mem_singleton.mp hcall] at hphase
        exact absurd hphase (by simp)
      · exact absurd hcall List.not_mem_nil
    | output =>
      simp only [Service.step, Service.runFilter] at hcall
      split at hcall
      · rw [List.mem_singleton.mp hcall] at hphase
        exact absurd hphase (by simp)
      · exact absurd hcall List.not_mem_nil
  | removeFilter direction i => exact absurd hcall List.not_mem_nil

/-- The first of the instances is asked first. -/
theorem head_asked {H : Type} (ask : H → σ → ℤ × σ) (h : H) (hs : List H) (w : σ) :
    ((firstAnswer ask declined (h :: hs) w).asked.map Prod.fst).head? = some h := by
  rw [firstAnswer]
  split <;> rfl

/-- **A phase with a hook reaches the first handler of the section.** -/
theorem head_calls_request (t : Service σ) {hook : Hook} {phase : Phase}
    (hhook : hooked hook = some (.cppCall phase)) {v s : ℕ} {p : ApacheHandler}
    {ps : List ApacheHandler}
    (hinstances : site.instances v .handler (.ofSection s .handlers) = p :: ps) :
    (t.request site b hook v s).1.calls.head? = some ⟨.handler, p.addr, .request phase⟩ := by
  have hhead := head_asked (b.handler phase) p ps t.world
  simp only [Service.request, hhook, hinstances]
  rw [List.head?_map, Option.map_eq_some_iff] at hhead
  obtain ⟨e, he, rfl⟩ := hhead
  rw [List.head?_map, he]
  rfl

end

/-- **Seven phases are called, three are not**, with room in every name list.  In no run is
`post_read_request`, `translate_name` or `header_parser` called; every other phase has a
hook that, after any run, calls it first on the first instance of the innermost section. -/
theorem hooked_phases_called {σ : Type} (site : Site) (order : HashOrder CStr) (servers : Servers)
    (hmain : servers.main = site.main) (hroom : ∀ L, (given L site.ds).length < maxHandlers)
    (b : Behaviour σ) (w : σ) :
    ∃ messages cfg, configure site.ds Config.start = .ok (messages, cfg) ∧
      ∀ stimuli,
        let out := (Serving.machine site.fold cfg b).run
          (Serving.start cfg site.env order servers w) stimuli
        (∀ reply ∈ out.1, ∀ call ∈ reply.calls, ∀ phase, call.method = .request phase →
          phase ∉ unhooked) ∧
        ∀ phase, phase ∉ unhooked → ∃ hook, ∀ outer inner p ps,
          site.instances site.main .handler (.ofSection (innermost outer inner) .handlers)
              = p :: ps →
            (out.2.step site.fold cfg b (.request hook site.main outer inner)).1.calls.head?
              = some ⟨.handler, p.addr, .request phase⟩ := by
  obtain ⟨cfg, hrun, hr⟩ := configure_start site.ds
  refine ⟨_, cfg, hrun, ?_⟩
  intro stimuli out
  obtain ⟨ds, env, main, fold⟩ := site
  subst hmain
  obtain ⟨hreplies, hserves⟩ := run_serves hr hroom env order servers fold b w stimuli
  refine ⟨?_, ?_⟩
  · intro reply hreply
    have hkeeps : (Service.machine ⟨ds, env, servers.main, fold⟩ b).Keeps fun _ => True :=
      fun _ _ _ => trivial
    exact hkeeps.forall_mem_answers
      (Q := fun reply => ∀ call ∈ reply.calls, ∀ phase, call.method = .request phase →
        phase ∉ unhooked)
      (fun t stimulus _ => notMem_unhooked_of_call t stimulus) stimuli trivial reply
      (by rw [← hreplies]; exact hreply)
  · intro phase hphase
    obtain ⟨hook, hhook⟩ := exists_hooked_of_notMem hphase
    refine ⟨hook, ?_⟩
    intro outer inner p ps hinstances
    have hstep := hserves.request hr hroom env order servers fold b hook servers.main outer inner
    exact (congrArg (fun reply => reply.calls.head?) hstep.1).trans
      (head_calls_request _ hhook hinstances)

/-- The one handler is called in the last phase, after a run that passed it by. -/
theorem hooked_phases_called_oneHandler :
    ∃ messages cfg, configure oneHandler.ds Config.start = .ok (messages, cfg) ∧
      ∃ hook,
        let out := (Serving.machine id cfg obliging).run
          (Serving.start cfg handlerEnv HashOrder.stored ⟨0, [], by decide⟩ ())
          [.request .translateName 0 0 []]
        (out.2.step id cfg obliging (.request hook 0 0 [])).1.calls.head?
          = some ⟨.handler, 1, .request .logger⟩ := by
  obtain ⟨messages, cfg, hrun, hcalled⟩ := hooked_phases_called oneHandler HashOrder.stored
    ⟨0, [], by decide⟩ rfl oneHandler_room obliging ()
  obtain ⟨hook, hfirst⟩ := (hcalled [.request .translateName 0 0 []]).2 .logger (by decide)
  exact ⟨messages, cfg, hrun, hook, hfirst 0 [] ⟨1⟩ [] rfl⟩

/-! ### The other servers -/

/-- The stimulus is for a server other than the first one. -/
def Stimulus.elsewhere (main : ℕ) : Stimulus → Bool
  | .request _ v _ _ => v ≠ main
  | .connection _ v => v ≠ main
  | .runFilter _ _ => false
  | .removeFilter _ _ => false

theorem Service.attach_of_ne {σ : Type} {site : Site} (t : Service σ) {v : ℕ} (h : v ≠ site.main)
    (ofRequest : Bool) (outs ins : ListId) : t.attach site v ofRequest outs ins = t := by
  rw [Service.attach, Site.attachments_of_ne h, Site.attachments_of_ne h, List.append_nil,
    List.append_nil]

/-- **Another server does nothing**: no method is called, and nothing is left behind. -/
theorem step_elsewhere {σ : Type} {site : Site} (b : Behaviour σ) (t : Service σ)
    {stimulus : Stimulus} (h : stimulus.elsewhere site.main = true) :
    (t.step site b stimulus).2 = t ∧ (t.step site b stimulus).1.calls = [] := by
  cases stimulus with
  | request hook v outer inner =>
    have hv : v ≠ site.main := by simpa [Stimulus.elsewhere] using h
    simp only [Service.step, Service.request]
    split
    · rw [Site.instances_of_ne hv]
      exact ⟨rfl, rfl⟩
    · exact ⟨t.attach_of_ne hv _ _ _, rfl⟩
    · exact ⟨rfl, rfl⟩
  | connection hook v =>
    have hv : v ≠ site.main := by simpa [Stimulus.elsewhere] using h
    simp only [Service.step, Service.connection]
    split
    · exact ⟨t.attach_of_ne hv _ _ _, rfl⟩
    · rw [Site.instances_of_ne hv]
      exact ⟨rfl, rfl⟩
    · exact ⟨rfl, rfl⟩
  | runFilter direction i => exact Bool.noConfusion h
  | removeFilter direction i => exact Bool.noConfusion h

/-- **Servers other than the first are inert**, with room in every name list.  What httpd
asks of them calls nothing, and a run without it gives the same replies to everything
else, ends with the same filters attached and leaves the same world. -/
theorem virtual_hosts_inert {σ : Type} (site : Site) (order : HashOrder CStr) (servers : Servers)
    (hmain : servers.main = site.main) (hroom : ∀ L, (given L site.ds).length < maxHandlers)
    (b : Behaviour σ) (w : σ) :
    ∃ messages cfg, configure site.ds Config.start = .ok (messages, cfg) ∧
      ∀ stimuli,
        let start := Serving.start cfg site.env order servers w
        let out := (Serving.machine site.fold cfg b).run start stimuli
        let without := (Serving.machine site.fold cfg b).run start
          (stimuli.filter fun stimulus => !stimulus.elsewhere site.main)
        (∀ e ∈ stimuli.zip out.1, e.1.elsewhere site.main = true → e.2.calls = []) ∧
        without.1 = ((stimuli.zip out.1).filter fun e => !e.1.elsewhere site.main).map Prod.snd ∧
        without.2.inputFilters.map (ApFilter.seen .inputFilter)
          = out.2.inputFilters.map (ApFilter.seen .inputFilter) ∧
        without.2.outputFilters.map (ApFilter.seen .outputFilter)
          = out.2.outputFilters.map (ApFilter.seen .outputFilter) ∧
        without.2.world = out.2.world := by
  obtain ⟨cfg, hrun, hr⟩ := configure_start site.ds
  refine ⟨_, cfg, hrun, ?_⟩
  intro stimuli start out without
  obtain ⟨ds, env, main, fold⟩ := site
  subst hmain
  set p : Stimulus → Bool := fun stimulus => !stimulus.elsewhere servers.main with hp
  set M := Service.machine ⟨ds, env, servers.main, fold⟩ b with hM
  have hsame : ∀ (t : Service σ) stimulus, p stimulus = false → (M.step t stimulus).2 = t :=
    fun t stimulus h => (step_elsewhere b t (by simpa [hp] using h)).1
  obtain ⟨hreplies, hserves⟩ := run_serves hr hroom env order servers fold b w stimuli
  obtain ⟨hreplies', hserves'⟩ := run_serves hr hroom env order servers fold b w (stimuli.filter p)
  have hfilter := M.run_filter hsame stimuli (Service.start w)
  rw [hfilter] at hreplies' hserves'
  refine ⟨?_, ?_, ?_, ?_, ?_⟩
  · intro e he helse
    have hkeeps : M.Keeps fun _ => True := fun _ _ _ => trivial
    rw [hreplies] at he
    exact hkeeps.forall_mem_zip
      (Q := fun stimulus reply => stimulus.elsewhere servers.main = true → reply.calls = [])
      (fun t stimulus _ h => (step_elsewhere b t h).2) stimuli trivial e he helse
  · rw [← hreplies] at hreplies'
    exact hreplies'
  · exact hserves'.inputFilters.trans hserves.inputFilters.symm
  · exact hserves'.outputFilters.trans hserves.outputFilters.symm
  · exact hserves'.world.trans hserves.world.symm

/-- A request to a second server calls nothing. -/
theorem virtual_hosts_inert_oneHandler :
    ∃ messages cfg, configure oneHandler.ds Config.start = .ok (messages, cfg) ∧
      ∃ reply : Reply, reply.calls = [] ∧
        ((Serving.machine id cfg obliging).run
          (Serving.start cfg handlerEnv HashOrder.stored ⟨0, [1], by decide⟩ ())
          [.request .handler 1 0 []]).1 = [reply] := by
  obtain ⟨messages, cfg, hrun, hinert⟩ := virtual_hosts_inert oneHandler HashOrder.stored
    ⟨0, [1], by decide⟩ rfl oneHandler_room obliging ()
  exact ⟨messages, cfg, hrun, _, (hinert [.request .handler 1 0 []]).1 (_, _)
    List.mem_cons_self rfl, rfl⟩

end ModCplusplus
