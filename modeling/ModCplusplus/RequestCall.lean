import ModCplusplus.Dispatch
import ModCplusplus.General.Machine
import ModCplusplus.Release

/-!
# A request phase with its wrapper

`CALL_REQ_FUNCTION` and `cpp_call_process_connection` do not look at the records of httpd
themselves: they build a wrapper, ask it for the records, and delete it in the end.  With
enough depth the answer is the one that the records give, whatever wrappers there are
already; and what is left of the wrappers after any number of calls is accounted for.

Addresses are not given out again here, so that an object that is destroyed twice would be
listed twice.

## Main definitions

* `Httpd` — the records with their configurations.
* `WrapperHeap` — the wrappers built, and the objects destroyed.
* `callReqFunctionWrapped`, `cppCallProcessConnectionWrapped` — the functions.
* `HookCall`, `runWrapped`, `runPlain` — runs of calls, with the wrappers and without.
* `Accounted` — nothing is destroyed twice, and when nothing is left.

## Main results

* `newRequestRec_mono`, `newServerRec_mono` — more depth builds the same.
* `callReqFunctionWrapped_eq` — one call.
* `wrapped_runs_alike`, `wrappers_accounted` — any run of calls.
* `wrappers_double` — how many wrappers redirected main requests come to.
-/

namespace ModCplusplus

open Links

/-! ### The calls -/

/-- The records of httpd, with the configurations behind them. -/
structure Httpd extends RequestGraph where
  -- of a request, and of a server
  perDirConfig : ℕ → CppConfigRec
  moduleConfig : ℕ → CppServerRec

/-- What the functions of the module look at, without a wrapper. -/
def Httpd.requestRec (h : Httpd) (r : ℕ) : RequestRec where
  perDirConfig := h.perDirConfig r
  serverConfig := h.moduleConfig (h.server r)

/-- The wrappers that have been built, and the objects that have been destroyed. -/
structure WrapperHeap where
  objs : Objects
  gone : Destroyed

/-- `get_dir_config`. -/
def Objects.getDirConfig (h : Httpd) (objs : Objects) (w : ℕ) : Option CppConfigRec :=
  (objs.request w).map h.perDirConfig

/-- `server`. -/
def Objects.server (objs : Objects) (w : ℕ) : Option ℕ :=
  objs.requests[w]?.bind ApacheRequestRec.mServer

/-- `get_module_config`. -/
def Objects.getModuleConfig (h : Httpd) (objs : Objects) (s : ℕ) : Option CppServerRec :=
  objs.servers[s]?.map fun o => h.moduleConfig o.mServer

/-- `get_handler`, on a wrapper; it fails where the wrapper has no server. -/
def Objects.getHandler (h : Httpd) (objs : Objects) (pRequest : ℕ) (name : CStr) :
    Option (Option ApacheHandler) := do
  let pServer ← objs.server pRequest
  let serverRec ← objs.getModuleConfig h pServer
  return serverRec.handlerHash.lookup name

section

variable {σ : Type}

/-- The body of the loop of `CALL_REQ_FUNCTION`, on the wrapper. -/
def visitWrapped (h : Httpd) (method : ApacheHandler → σ → ℤ × σ) (objs : Objects) (pRequest : ℕ)
    (s : Option (Answer ApacheHandler ℤ σ)) (name : CStr) :
    Option (Answer ApacheHandler ℤ σ) × Bool :=
  match s, objs.getHandler h pRequest name with
  | some s, some found =>
      let s' : Answer ApacheHandler ℤ σ :=
        match found with
        | none => { s with result := declined }
        | some handler =>
            ⟨(method handler s.world).1, s.asked ++ [(handler, (method handler s.world).1)],
              (method handler s.world).2⟩
      (some s', decide (s'.result ≠ declined))
  | _, _ => (none, true)

/-- `CALL_REQ_FUNCTION` with its wrapper, to a depth of so many. -/
def callReqFunctionWrapped (h : Httpd) (fuel : ℕ) (method : ApacheHandler → σ → ℤ × σ) (r : ℕ)
    (heap : WrapperHeap) (w : σ) :
    Option (Walk (Option (Answer ApacheHandler ℤ σ)) × WrapperHeap) := do
  let (pRequest, objs) ← newRequestRec h.toRecords fuel r none none heap.objs
  let dirRec ← objs.getDirConfig h pRequest
  let out := whileSlots dirRec.handlers (visitWrapped h method objs pRequest)
    (some ⟨declined, [], w⟩)
  -- the end of the `auto_ptr`
  let gone ← deleteRequestRec objs fuel pRequest heap.gone
  return (out, ⟨objs, gone⟩)

/-- `cpp_call_process_connection` with its wrapper, to a depth of so many. -/
def cppCallProcessConnectionWrapped (h : Httpd) (fuel : ℕ)
    (processConnection : ApacheProtocol → σ → ℤ × σ) (baseServer : ℕ) (heap : WrapperHeap)
    (w : σ) : Option (Walk (Answer ApacheProtocol ℤ σ) × WrapperHeap) := do
  let (pServer, objs) ← newServerRec h.toRecords fuel baseServer heap.objs
  let serverRec ← objs.getModuleConfig h pServer
  let out := cppCallProcessConnection processConnection serverRec w
  let gone ← deleteServerRec objs fuel pServer heap.gone
  return (out, ⟨objs, gone⟩)

end

/-! ### More depth builds the same -/

theorem newUnlessNull_mono {new new' : ℕ → Objects → Option (ℕ × Objects)} {p x : Option ℕ}
    {objs objs' : Objects}
    (hnew : ∀ s w objs', new s objs = some (w, objs') → new' s objs = some (w, objs'))
    (h : newUnlessNull new p objs = some (x, objs')) :
    newUnlessNull new' p objs = some (x, objs') := by
  rcases newUnlessNull_cases h with ⟨rfl, rfl, rfl⟩ | ⟨s, w, rfl, rfl, hcall⟩
  · rfl
  · simp only [newUnlessNull, hnew s w objs' hcall, Option.map_some]

theorem newServerRec_mono {q : Records} {fuel fuel' s t : ℕ} {objs objs' : Objects}
    (hle : fuel ≤ fuel') (h : newServerRec q fuel s objs = some (t, objs')) :
    newServerRec q fuel' s objs = some (t, objs') := by
  induction fuel generalizing fuel' s t objs objs' with
  | zero => exact nomatch h
  | succ fuel ih =>
    obtain ⟨fuel', rfl⟩ : ∃ n, fuel' = n + 1 := ⟨fuel' - 1, by omega⟩
    obtain ⟨rfl, mNext, objs₁, hnext, rfl⟩ := newServerRec_cases h
    have hle : fuel ≤ fuel' := by omega
    have hnext := newUnlessNull_mono (fun s w objs' h => ih hle h) hnext
    simp only [newServerRec, hnext, Option.bind_eq_bind, Option.bind_some, Option.pure_def]

/-- **More depth builds the same wrappers.** -/
theorem newRequestRec_mono {q : Records} {fuel fuel' r w : ℕ} {pPrev pNext : Option ℕ}
    {objs objs' : Objects} (hle : fuel ≤ fuel')
    (h : newRequestRec q fuel r pPrev pNext objs = some (w, objs')) :
    newRequestRec q fuel' r pPrev pNext objs = some (w, objs') := by
  induction fuel generalizing fuel' r w pPrev pNext objs objs' with
  | zero => exact nomatch h
  | succ fuel ih =>
    obtain ⟨fuel', rfl⟩ : ∃ n, fuel' = n + 1 := ⟨fuel' - 1, by omega⟩
    obtain ⟨rfl, x, objs₁, y, objs₂, mMain, objs₃, mServer, objs₄, hprev, hnext, hmain, hserver,
      rfl⟩ := newRequestRec_cases h
    have hle : fuel ≤ fuel' := by omega
    have hprev := newUnlessNull_mono (fun s w objs' h => ih hle h) hprev
    have hnext := newUnlessNull_mono (fun s w objs' h => ih hle h) hnext
    have hmain := newUnlessNull_mono (fun s w objs' h => ih hle h) hmain
    have hserver := newServerRec_mono hle hserver
    simp only [newRequestRec, hprev, hnext, hmain, hserver, Option.bind_eq_bind, Option.bind_some,
      Option.pure_def]

/-- Enough depth builds the wrappers of a request, always the same ones. -/
theorem RequestGraph.eventually_newRequestRec (g : RequestGraph) (r : ℕ) (objs : Objects) :
    ∃ w objs', ∀ᶠ fuel in Filter.atTop,
      newRequestRec g.toRecords fuel r none none objs = some (w, objs') := by
  obtain ⟨fuel, hsome⟩ := g.exists_isSome r objs
  obtain ⟨⟨w, objs'⟩, hbuilt⟩ := Option.isSome_iff_exists.mp hsome
  refine ⟨w, objs', Filter.eventually_atTop.mpr ⟨fuel, fun fuel' hle => ?_⟩⟩
  exact newRequestRec_mono hle hbuilt

/-- Enough depth builds the wrappers of a server, always the same ones. -/
theorem RequestGraph.eventually_newServerRec (g : RequestGraph) (s : ℕ) (objs : Objects) :
    ∃ t objs', ∀ᶠ fuel in Filter.atTop,
      newServerRec g.toRecords fuel s objs = some (t, objs') := by
  obtain ⟨fuel, hfuel⟩ := (g.serverReturns s).exists
  obtain ⟨⟨t, objs'⟩, hbuilt⟩ := Option.isSome_iff_exists.mp (hfuel objs)
  refine ⟨t, objs', Filter.eventually_atTop.mpr ⟨fuel, fun fuel' hle => ?_⟩⟩
  exact newServerRec_mono hle hbuilt

/-! ### What the wrapper leads to -/

theorem get_newServerRec {q : Records} {fuel s t : ℕ} {objs objs' : Objects}
    (h : newServerRec q fuel s objs = some (t, objs')) :
    ∃ mNext, objs'.servers[t]? = some ⟨s, mNext⟩ := by
  cases fuel with
  | zero => exact nomatch h
  | succ fuel =>
    obtain ⟨rfl, mNext, objs₁, hnext, rfl⟩ := newServerRec_cases h
    obtain ⟨more, hmore⟩ := finishServer_of_grows
      (prefix_newUnlessNull (fun _ _ _ h => prefix_newServerRec h) hnext) mNext
    refine ⟨mNext, ?_⟩
    rw [hmore]
    simp

/-- **The wrapper of a request leads to the request and to its server.** -/
theorem get_newRequestRec {q : Records} {fuel r w : ℕ} {objs objs' : Objects}
    (h : newRequestRec q fuel r none none objs = some (w, objs')) :
    ∃ mMain mServer mNext, objs'.requests[w]? = some ⟨r, none, none, mMain, some mServer⟩ ∧
      objs'.servers[mServer]? = some ⟨q.server r, mNext⟩ := by
  cases fuel with
  | zero => exact nomatch h
  | succ fuel =>
    obtain ⟨rfl, _, objs₁, _, objs₂, mMain, objs₃, mServer, objs₄, hprev, hnext, hmain, hserver,
      rfl⟩ := newRequestRec_cases h
    have hstays :=
      ((grows_newUnlessNull hprev).trans (grows_newUnlessNull hnext)).trans
        (grows_newUnlessNull hmain)
    rw [← requests_newServerRec hserver] at hstays
    obtain ⟨more, hmore⟩ := finishRequest_of_grows hstays mMain (some mServer)
    obtain ⟨mNext, hget⟩ := get_newServerRec hserver
    refine ⟨mMain, mServer, mNext, ?_, hget⟩
    rw [hmore]
    simp

/-- A visitor on renamed states walks a name list alike. -/
theorem whileSlots_map {σ τ : Type} {f : σ → τ} {visit : σ → CStr → σ × Bool}
    {visit' : τ → CStr → τ × Bool}
    (h : ∀ s a, visit' (f s) a = (f (visit s a).1, (visit s a).2)) (arr : Option NameSlots)
    (s : σ) : whileSlots arr visit' (f s) = (whileSlots arr visit s).map f := by
  cases arr with
  | none => rfl
  | some xs => exact walk_map h xs.cells 0 s

section

variable {σ : Type} (h : Httpd) {fuel r pRequest : ℕ} {objs objs' : Objects}
  (hbuilt : newRequestRec h.toRecords fuel r none none objs = some (pRequest, objs'))
include hbuilt

theorem getDirConfig_newRequestRec :
    objs'.getDirConfig h pRequest = some (h.perDirConfig r) := by
  obtain ⟨mMain, mServer, mNext, hrequest, -⟩ := get_newRequestRec hbuilt
  rw [Objects.getDirConfig, Objects.request, hrequest]
  rfl

theorem getHandler_newRequestRec (name : CStr) :
    objs'.getHandler h pRequest name = some (ModCplusplus.getHandler (h.requestRec r) name) := by
  obtain ⟨mMain, mServer, mNext, hrequest, hserver⟩ := get_newRequestRec hbuilt
  simp only [Objects.getHandler, Objects.server, Objects.getModuleConfig, hrequest, hserver,
    Option.bind_eq_bind, Option.bind_some, Option.map_some, Option.pure_def]
  rfl

/-- **The loop on the wrapper is the loop on the records.** -/
theorem whileSlots_visitWrapped (method : ApacheHandler → σ → ℤ × σ) (w : σ) :
    whileSlots (h.perDirConfig r).handlers (visitWrapped h method objs' pRequest)
        (some ⟨declined, [], w⟩)
      = (callReqFunction method (h.requestRec r) w).map some := by
  apply whileSlots_map
  intro s name
  have hfound := getHandler_newRequestRec h hbuilt name
  unfold visitWrapped
  generalize objs'.getHandler h pRequest name = found at hfound ⊢
  subst hfound
  rfl

end

/-! ### Nothing is destroyed twice -/

/-- Addresses between two bounds, each listed once. -/
def Fresh (n m : ℕ) (l : List ℕ) : Prop := l.Nodup ∧ ∀ i ∈ l, n ≤ i ∧ i < m

theorem fresh_nil (n m : ℕ) : Fresh n m [] := ⟨List.nodup_nil, fun _ h => absurd h List.not_mem_nil⟩

theorem fresh_of_perm {n m : ℕ} {l : List ℕ} (h : l.Perm (List.Ico n m)) : Fresh n m l :=
  ⟨h.nodup_iff.mpr (List.Ico.nodup n m), fun _ hi => List.Ico.mem.mp (h.mem_iff.mp hi)⟩

theorem Fresh.mono {n n' m m' : ℕ} {l : List ℕ} (h : Fresh n m l) (hn : n' ≤ n) (hm : m ≤ m') :
    Fresh n' m' l :=
  ⟨h.1, fun i hi => ⟨hn.trans (h.2 i hi).1, (h.2 i hi).2.trans_le hm⟩⟩

/-- Addresses from one interval, and then from the next. -/
theorem Fresh.append {n m k : ℕ} {l l' : List ℕ} (h : Fresh n m l) (h' : Fresh m k l')
    (hn : n ≤ m) (hm : m ≤ k) : Fresh n k (l ++ l') := by
  refine ⟨h.1.append h'.1 fun i hi hi' => ?_, fun i hi => ?_⟩
  · have := (h.2 i hi).2
    have := (h'.2 i hi').1
    omega
  · rcases List.mem_append.mp hi with hi | hi
    · exact ⟨(h.2 i hi).1, (h.2 i hi).2.trans_le hm⟩
    · exact ⟨hn.trans (h'.2 i hi).1, (h'.2 i hi).2⟩

/-- The same in the opposite order. -/
theorem Fresh.append_comm {n m : ℕ} {l l' : List ℕ} (h : Fresh n m (l ++ l')) :
    Fresh n m (l' ++ l) :=
  ⟨List.perm_append_comm.nodup_iff.mp h.1, fun i hi => h.2 i (List.perm_append_comm.mem_iff.mp hi)⟩

/-- What is destroyed has been built in between, and is destroyed once. -/
structure DestroyedOnce (objs objs' : Objects) (x : Destroyed) : Prop where
  requests : Fresh objs.requests.length objs'.requests.length x.requests
  servers : Fresh objs.servers.length objs'.servers.length x.servers

/-- **Of the wrappers of a request, none is destroyed twice.** -/
theorem destroyedOnce_newRequestRec {q : Records} {fuel r w : ℕ} {objs objs' objs'' : Objects}
    (h : newRequestRec q fuel r none none objs = some (w, objs'))
    (hrequests : Keeps objs.requests.length objs'.requests objs''.requests)
    (hservers : Keeps objs.servers.length objs'.servers objs''.servers) :
    ∃ x, Destroys (fun fuel => deleteRequestRec objs'' fuel w) x ∧ DestroyedOnce objs objs' x := by
  induction fuel generalizing r w objs objs' with
  | zero => exact nomatch h
  | succ fuel ih =>
    obtain ⟨rfl, _, objs₁, _, objs₂, mMain, objs₃, mServer, objs₄, hprev, hnext, hmain, hserver,
      rfl⟩ := newRequestRec_cases h
    have hgrows := (grows_newUnlessNull hprev).trans (grows_newUnlessNull hnext)
    have hgrows₃ := grows_newUnlessNull hmain
    have hsame : objs₄.requests = objs₃.requests := requests_newServerRec hserver
    have hlength : (objs₄.finishRequest objs.requests.length mMain (some mServer)).requests.length
        = objs₃.requests.length := (List.length_modify _ _ _).trans (congrArg _ hsame)
    have hlt : objs.requests.length < objs₂.requests.length := by
      have := hgrows.length_le
      rw [length_allocRequest] at this
      omega
    -- the wrapper itself
    have ho : objs''.requests[objs.requests.length]?
        = some ⟨r, none, none, mMain, some mServer⟩ := by
      refine hrequests _ le_rfl _ ?_
      have hstays := hgrows.trans hgrows₃
      rw [← hsame] at hstays
      obtain ⟨more, hmore⟩ := finishRequest_of_grows hstays mMain (some mServer)
      rw [hmore]
      simp
    have hkeeps : Keeps objs₂.requests.length objs₃.requests objs''.requests := by
      rw [← hsame]
      exact (keeps_modify _ hlt).trans (hrequests.mono hlt.le)
    -- the servers, its own last
    have hle : objs.servers.length ≤ objs₂.servers.length :=
      ((prefix_newUnlessNull (fun _ _ _ h => servers_newRequestRec h) hprev).trans
        (prefix_newUnlessNull (fun _ _ _ h => servers_newRequestRec h) hnext)).length_le
    have hservers₃ := prefix_newUnlessNull (fun _ _ _ h => servers_newRequestRec h) hmain
    have hservers₄ : objs₃.servers <+: objs₄.servers := prefix_newServerRec hserver
    obtain ⟨ss, hss, hdestroys'⟩ := released_newServerRec hserver
      (hservers.mono (hle.trans hservers₃.length_le))
    obtain ⟨x, hdestroys, hrequests', hservers'⟩ :
        ∃ x, Destroys (fun fuel => deleteUnlessNull (deleteRequestRec objs'' fuel) mMain) x ∧
          DestroyedOnce objs₂ objs₃ x := by
      rcases newUnlessNull_cases hmain with ⟨-, rfl, rfl⟩ | ⟨m, w, -, rfl, hcall⟩
      · exact ⟨.nothing, destroys_none _, fresh_nil _ _, fresh_nil _ _⟩
      · exact ih hcall hkeeps ((keeps_append hservers₄).trans (hservers.mono hle))
    refine ⟨_, destroys_request ho hdestroys hdestroys', ?_, ?_⟩
    · show Fresh _ _ (x.requests ++ [] ++ [objs.requests.length])
      rw [hlength, List.append_nil]
      have hthis : Fresh objs.requests.length objs₂.requests.length [objs.requests.length] := by
        refine ⟨List.nodup_singleton _, fun i hi => ?_⟩
        rw [List.mem_singleton.mp hi]
        exact ⟨le_rfl, hlt⟩
      exact (hthis.append hrequests' hlt.le hgrows₃.length_le).append_comm
    · show Fresh _ _ (x.servers ++ ss ++ [])
      rw [List.append_nil]
      exact (hservers'.append (fresh_of_perm hss) hservers₃.length_le hservers₄.length_le).mono hle
        le_rfl

theorem nothing_and (x : Destroyed) : Destroyed.nothing.and x = x := rfl

/-- What enough depth destroys is determined. -/
theorem Destroys.unique {delete : ℕ → Destroyed → Option Destroyed} {x y : Destroyed}
    (hx : Destroys delete x) (hy : Destroys delete y) : x = y := by
  obtain ⟨fuel, hx, hy⟩ := (hx.and hy).exists
  have hsame := Option.some.inj ((hx .nothing).symm.trans (hy .nothing))
  rwa [nothing_and, nothing_and] at hsame

/-! ### One call -/

/-- What a call leaves: the wrappers built, and what is destroyed of them. -/
structure Leaves (P : Prop) (heap heap' : WrapperHeap) (x : Destroyed) : Prop where
  gone : heap'.gone = heap.gone.and x
  servers_le : heap.objs.servers.length ≤ heap'.objs.servers.length
  released : Released P heap.objs heap'.objs x
  once : DestroyedOnce heap.objs heap'.objs x

section

variable {σ : Type} (h : Httpd)

/-- **A phase with its wrapper** does what it does on the records. -/
theorem callReqFunctionWrapped_eq (method : ApacheHandler → σ → ℤ × σ) (r : ℕ)
    (heap : WrapperHeap) (w : σ) :
    ∃ heap' x, Leaves (Unredirected h.toRecords r) heap heap' x ∧ ∀ᶠ fuel in Filter.atTop,
      callReqFunctionWrapped h fuel method r heap w
        = some ((callReqFunction method (h.requestRec r) w).map some, heap') := by
  obtain ⟨pRequest, objs, hbuilt⟩ := h.eventually_newRequestRec r heap.objs
  obtain ⟨depth, hdepth⟩ := hbuilt.exists
  obtain ⟨x, hx, hreleased⟩ :=
    released_newRequestRec hdepth (keeps_refl _ _) (keeps_refl _ objs.servers)
  obtain ⟨y, hy, honce⟩ :=
    destroyedOnce_newRequestRec hdepth (keeps_refl _ _) (keeps_refl _ objs.servers)
  obtain rfl := hx.unique hy
  have hservers := (servers_newRequestRec hdepth).length_le
  refine ⟨⟨objs, heap.gone.and x⟩, x, ⟨rfl, hservers, hreleased, honce⟩, ?_⟩
  filter_upwards [hbuilt, hx] with fuel hnew hdelete
  simp only [callReqFunctionWrapped, hnew, getDirConfig_newRequestRec h hdepth,
    whileSlots_visitWrapped h hdepth, hdelete, Option.bind_eq_bind, Option.bind_some,
    Option.pure_def]

/-- **A connection with its wrapper** does what it does on the record of its server, and
leaves nothing. -/
theorem cppCallProcessConnectionWrapped_eq (processConnection : ApacheProtocol → σ → ℤ × σ)
    (s : ℕ) (heap : WrapperHeap) (w : σ) :
    ∃ heap' x, Leaves True heap heap' x ∧ ∀ᶠ fuel in Filter.atTop,
      cppCallProcessConnectionWrapped h fuel processConnection s heap w
        = some (cppCallProcessConnection processConnection (h.moduleConfig s) w, heap') := by
  obtain ⟨pServer, objs, hbuilt⟩ := h.eventually_newServerRec s heap.objs
  obtain ⟨depth, hdepth⟩ := hbuilt.exists
  obtain ⟨ss, hss, hdestroys⟩ := released_newServerRec hdepth (keeps_refl _ objs.servers)
  obtain ⟨mNext, hget⟩ := get_newServerRec hdepth
  have hrequests : objs.requests = heap.objs.requests := requests_newServerRec hdepth
  have hreleased : Released True heap.objs objs ⟨[], ss⟩ := by
    refine ⟨?_, fun _ => trivial, fun _ => ?_, fun _ => hss⟩
    · rw [hrequests]
      exact le_rfl
    · rw [hrequests, List.Ico.self_empty]
  have hservers := (prefix_newServerRec hdepth).length_le
  refine ⟨⟨objs, heap.gone.and ⟨[], ss⟩⟩, ⟨[], ss⟩,
    ⟨rfl, hservers, hreleased, fresh_nil _ _, fresh_of_perm hss⟩, ?_⟩
  filter_upwards [hbuilt, hdestroys] with fuel hnew hdelete
  simp only [cppCallProcessConnectionWrapped, hnew, Objects.getModuleConfig, hget, hdelete,
    Option.bind_eq_bind, Option.map_some, Option.bind_some, Option.pure_def]

end

/-! ### Runs of calls -/

/-- A call of the module: a phase of a request, or a connection to a server. -/
inductive HookCall where
  | request (phase : Phase) (r : ℕ)
  | connection (s : ℕ)
  deriving DecidableEq

section

variable {σ : Type} (h : Httpd) (methods : Methods σ)
  (processConnection : ApacheProtocol → σ → ℤ × σ)

/-- The calls on the records. -/
def Httpd.machine : Machine σ HookCall ℤ where
  step w call :=
    match call with
    | .request phase r =>
        let out := callReqFunction (methods phase) (h.requestRec r) w
        (out.state.result, out.state.world)
    | .connection s =>
        let out := cppCallProcessConnection processConnection (h.moduleConfig s) w
        (out.state.result, out.state.world)

/-- The calls with their wrappers, to a depth of so many. -/
def runWrapped (fuel : ℕ) : List HookCall → WrapperHeap → σ → Option (List ℤ × WrapperHeap × σ)
  | [], heap, w => some ([], heap, w)
  | .request phase r :: calls, heap, w => do
      let (out, heap) ← callReqFunctionWrapped h fuel (methods phase) r heap w
      let answer ← out.state
      let (results, heap, w) ← runWrapped fuel calls heap answer.world
      return (answer.result :: results, heap, w)
  | .connection s :: calls, heap, w => do
      let (out, heap) ← cppCallProcessConnectionWrapped h fuel processConnection s heap w
      let (results, heap, w) ← runWrapped fuel calls heap out.state.world
      return (out.state.result :: results, heap, w)

/-- The request of a call is not redirected, nor its main request, and so on. -/
def HookCall.Unredirected (q : Records) : HookCall → Prop
  | .request _ r => ModCplusplus.Unredirected q r
  | .connection _ => True

/-- **Nothing is destroyed twice**, and nothing is left if and only if `P`. -/
structure Accounted (P : Prop) (heap : WrapperHeap) : Prop where
  requests : Fresh 0 heap.objs.requests.length heap.gone.requests
  servers : Fresh 0 heap.objs.servers.length heap.gone.servers
  all : P → heap.gone.requests.Perm (List.Ico 0 heap.objs.requests.length) ∧
    heap.gone.servers.Perm (List.Ico 0 heap.objs.servers.length)
  only : heap.gone.requests.length = heap.objs.requests.length → P

theorem Fresh.length_le {n m : ℕ} {l : List ℕ} (hfresh : Fresh n m l) : l.length ≤ m - n := by
  have hsub : l ⊆ List.Ico n m := fun i hi => List.Ico.mem.mpr (hfresh.2 i hi)
  have hle := (List.subperm_of_subset hfresh.1 hsub).length_le
  rwa [List.Ico.length] at hle

/-- **A call keeps the account.** -/
theorem Accounted.step {P Q : Prop} {heap heap' : WrapperHeap} {x : Destroyed}
    (hacc : Accounted P heap) (hleaves : Leaves Q heap heap' x) : Accounted (P ∧ Q) heap' := by
  have hle := hleaves.released.length_le
  have hrequestsLe : heap.objs.requests.length ≤ heap'.objs.requests.length := by omega
  have hserversLe := hleaves.servers_le
  have hlengths := hacc.requests.length_le
  refine ⟨?_, ?_, ?_, ?_⟩
  · rw [hleaves.gone]
    exact hacc.requests.append hleaves.once.requests (Nat.zero_le _) hrequestsLe
  · rw [hleaves.gone]
    exact hacc.servers.append hleaves.once.servers (Nat.zero_le _) hserversLe
  · rintro ⟨hP, hQ⟩
    obtain ⟨hrequests, hservers⟩ := hacc.all hP
    rw [hleaves.gone, ← List.Ico.append_consecutive (Nat.zero_le _) hrequestsLe,
      ← List.Ico.append_consecutive (Nat.zero_le _) hserversLe]
    exact ⟨hrequests.append (hleaves.released.requests hQ),
      hservers.append (hleaves.released.servers hQ)⟩
  · intro hlength
    have hsum : heap'.gone.requests.length
        = heap.gone.requests.length + x.requests.length := by
      rw [hleaves.gone]
      exact List.length_append
    exact ⟨hacc.only (by omega), hleaves.released.unredirected (by omega)⟩

/-- **A run with the wrappers** gives the results of the run on the records, and keeps
the account. -/
theorem runWrapped_eq (calls : List HookCall) : ∀ (heap : WrapperHeap) (w : σ),
    ∃ heap', (∀ P, Accounted P heap →
        Accounted (P ∧ ∀ call ∈ calls, call.Unredirected h.toRecords) heap') ∧
      ∀ᶠ fuel in Filter.atTop, runWrapped h methods processConnection fuel calls heap w
        = some (((h.machine methods processConnection).run w calls).1, heap',
            ((h.machine methods processConnection).run w calls).2) := by
  induction calls with
  | nil =>
    intro heap w
    refine ⟨heap, fun P hP => ?_, Filter.Eventually.of_forall fun _ => rfl⟩
    simpa using hP
  | cons call calls ih =>
    intro heap w
    cases call with
    | request phase r =>
      obtain ⟨heap₁, x, hleaves, hcall⟩ := callReqFunctionWrapped_eq h (methods phase) r heap w
      obtain ⟨heap', hacc, hrest⟩ := ih heap₁
        (callReqFunction (methods phase) (h.requestRec r) w).state.world
      refine ⟨heap', fun P hP => ?_, ?_⟩
      · have hlast := hacc _ (hP.step hleaves)
        rw [and_assoc] at hlast
        rw [List.forall_mem_cons]
        exact hlast
      · filter_upwards [hcall, hrest] with fuel hcall hrest
        simp only [runWrapped, hcall, Walk.map, hrest, Option.bind_eq_bind, Option.bind_some,
          Option.pure_def]
        rfl
    | connection s =>
      obtain ⟨heap₁, x, hleaves, hcall⟩ :=
        cppCallProcessConnectionWrapped_eq h processConnection s heap w
      obtain ⟨heap', hacc, hrest⟩ := ih heap₁
        (cppCallProcessConnection processConnection (h.moduleConfig s) w).state.world
      refine ⟨heap', fun P hP => ?_, ?_⟩
      · have hlast := hacc _ (hP.step hleaves)
        rw [and_assoc] at hlast
        rw [List.forall_mem_cons]
        exact hlast
      · filter_upwards [hcall, hrest] with fuel hcall hrest
        simp only [runWrapped, hcall, hrest, Option.bind_eq_bind, Option.bind_some,
          Option.pure_def]
        rfl

/-- Nothing is built, and nothing destroyed. -/
def WrapperHeap.empty : WrapperHeap where
  objs := ⟨[], []⟩
  gone := .nothing

theorem accounted_empty : Accounted True WrapperHeap.empty where
  requests := fresh_nil _ _
  servers := fresh_nil _ _
  all _ := ⟨List.Perm.refl _, List.Perm.refl _⟩
  only _ := trivial

/-- **The wrappers do not show in the results**: in any run of calls, whatever wrappers
there are before, enough depth gives the results and the world that the records give. -/
theorem wrapped_runs_alike (calls : List HookCall) (heap : WrapperHeap) (w : σ) :
    ∃ heap', ∀ᶠ fuel in Filter.atTop,
      runWrapped h methods processConnection fuel calls heap w
        = some (((h.machine methods processConnection).run w calls).1, heap',
            ((h.machine methods processConnection).run w calls).2) := by
  obtain ⟨heap', -, hrun⟩ := runWrapped_eq h methods processConnection calls heap w
  exact ⟨heap', hrun⟩

/-- **The wrappers of a run are accounted for.**  No object is destroyed twice, none that
has not been built, and all are destroyed in the end if and only if no call was made for
a redirected request, or for one whose main request is, and so on. -/
theorem wrappers_accounted (calls : List HookCall) (w : σ) :
    ∃ results heap w', (∀ᶠ fuel in Filter.atTop,
        runWrapped h methods processConnection fuel calls .empty w = some (results, heap, w')) ∧
      (heap.gone.requests.Nodup ∧ ∀ i ∈ heap.gone.requests, i < heap.objs.requests.length) ∧
      (heap.gone.servers.Nodup ∧ ∀ i ∈ heap.gone.servers, i < heap.objs.servers.length) ∧
      ((∀ i < heap.objs.requests.length, i ∈ heap.gone.requests) ↔
        ∀ call ∈ calls, call.Unredirected h.toRecords) ∧
      ((∀ call ∈ calls, call.Unredirected h.toRecords) →
        ∀ i < heap.objs.servers.length, i ∈ heap.gone.servers) := by
  obtain ⟨heap, hacc, hrun⟩ := runWrapped_eq h methods processConnection calls .empty w
  have hlast := hacc True accounted_empty
  rw [true_and] at hlast
  refine ⟨_, heap, _, hrun, ⟨hlast.requests.1, fun i hi => (hlast.requests.2 i hi).2⟩,
    ⟨hlast.servers.1, fun i hi => (hlast.servers.2 i hi).2⟩, ⟨?_, ?_⟩, ?_⟩
  · intro hall
    refine hlast.only (le_antisymm ?_ ?_)
    · exact hlast.requests.length_le
    · have hsub : List.Ico 0 heap.objs.requests.length ⊆ heap.gone.requests :=
        fun i hi => hall i (List.Ico.mem.mp hi).2
      have hle := (List.subperm_of_subset (List.Ico.nodup _ _) hsub).length_le
      rwa [List.Ico.length, Nat.sub_zero] at hle
  · intro hlone i hi
    exact (hlast.all hlone).1.mem_iff.mpr (List.Ico.mem.mpr ⟨Nat.zero_le i, hi⟩)
  · intro hlone i hi
    exact (hlast.all hlone).2.mem_iff.mpr (List.Ico.mem.mpr ⟨Nat.zero_le i, hi⟩)

end

/-! ### How many wrappers -/

/-- A request that is so deep in main requests, each of them redirected to or from one
with the same main request. -/
def RedirectedDeep (q : Records) : ℕ → ℕ → Prop
  | 0, _ => True
  | d + 1, r => ∃ s m, q.Redirected r s ∧ q.main r = some m ∧ q.main s = some m ∧
      RedirectedDeep q d m

/-- The wrapper of a request comes with those of its main request. -/
theorem length_newRequestRec_of_main {q : Records} {fuel s w m k : ℕ} {pPrev pNext : Option ℕ}
    {objs objs' : Objects} (h : newRequestRec q fuel s pPrev pNext objs = some (w, objs'))
    (hm : q.main s = some m)
    (hmain : ∀ {fuel w : ℕ} {objs objs' : Objects},
      newRequestRec q fuel m none none objs = some (w, objs') →
        objs.requests.length + k ≤ objs'.requests.length) :
    objs.requests.length + 1 + k ≤ objs'.requests.length := by
  cases fuel with
  | zero => exact nomatch h
  | succ fuel =>
    obtain ⟨rfl, _, objs₁, _, objs₂, mMain, objs₃, mServer, objs₄, hprev, hnext, hcall, hserver,
      rfl⟩ := newRequestRec_cases h
    rw [hm] at hcall
    obtain ⟨⟨u, objs₃⟩, hnew, hout⟩ := Option.map_eq_some_iff.mp hcall
    obtain ⟨-, rfl⟩ := Prod.mk.inj hout
    have hgrows := ((grows_newUnlessNull hprev).trans (grows_newUnlessNull hnext)).length_le
    rw [length_allocRequest] at hgrows
    have hadds := hmain hnew
    have hlength : (objs₄.finishRequest objs.requests.length mMain (some mServer)).requests.length
        = objs₃.requests.length :=
      (List.length_modify _ _ _).trans (congrArg _ (requests_newServerRec hserver))
    omega

/-- **Every redirected main request doubles the wrappers.** -/
theorem length_newRequestRec {q : Records} {d : ℕ} : ∀ {fuel r w : ℕ} {objs objs' : Objects},
    RedirectedDeep q d r → newRequestRec q fuel r none none objs = some (w, objs') →
      objs.requests.length + (3 * 2 ^ d - 2) ≤ objs'.requests.length := by
  induction d with
  | zero =>
    intro fuel r w objs objs' _ h
    obtain ⟨-, _, _, hprefix⟩ := newRequestRec_members h
    have hle := hprefix.length_le
    rw [List.length_append, List.length_singleton] at hle
    omega
  | succ d ih =>
    intro fuel r w objs objs' hdeep h
    obtain ⟨s, m, hredirected, hr, hs, hdeep⟩ := hdeep
    have hmain {fuel w : ℕ} {objs objs' : Objects}
        (h : newRequestRec q fuel m none none objs = some (w, objs')) :
        objs.requests.length + (3 * 2 ^ d - 2) ≤ objs'.requests.length := ih hdeep h
    have hpow : 1 ≤ 2 ^ d := Nat.one_le_two_pow
    cases fuel with
    | zero => exact nomatch h
    | succ fuel =>
      obtain ⟨rfl, _, objs₁, _, objs₂, mMain, objs₃, mServer, objs₄, hprev, hnext, hcall, hserver,
        rfl⟩ := newRequestRec_cases h
      rw [if_pos rfl] at hprev hnext
      -- once along the chain
      have hneighbour : (objs.allocRequest r none none).requests.length + 1 + (3 * 2 ^ d - 2)
          ≤ objs₂.requests.length := by
        have hgrows := (grows_newUnlessNull hprev).length_le
        have hgrows' := (grows_newUnlessNull hnext).length_le
        rcases hredirected with hlink | hlink
        · rw [hlink] at hprev
          obtain ⟨⟨u, objs₁⟩, hnew, hout⟩ := Option.map_eq_some_iff.mp hprev
          obtain ⟨-, rfl⟩ := Prod.mk.inj hout
          exact (length_newRequestRec_of_main hnew hs hmain).trans hgrows'
        · rw [hlink] at hnext
          obtain ⟨⟨u, objs₂⟩, hnew, hout⟩ := Option.map_eq_some_iff.mp hnext
          obtain ⟨-, rfl⟩ := Prod.mk.inj hout
          have hadds : objs₁.requests.length + 1 + (3 * 2 ^ d - 2) ≤ objs₂.requests.length :=
            length_newRequestRec_of_main hnew hs hmain
          show _ ≤ objs₂.requests.length
          omega
      -- and once from the request itself
      rw [hr] at hcall
      obtain ⟨⟨u, objs₃⟩, hnew, hout⟩ := Option.map_eq_some_iff.mp hcall
      obtain ⟨-, rfl⟩ := Prod.mk.inj hout
      have hadds := hmain hnew
      have hlength :
          (objs₄.finishRequest objs.requests.length mMain (some mServer)).requests.length
            = objs₃.requests.length :=
        (List.length_modify _ _ _).trans (congrArg _ (requests_newServerRec hserver))
      rw [length_allocRequest] at hneighbour
      rw [pow_succ]
      omega

/-- **The number of wrappers is exponential** in the depth of redirected main requests. -/
theorem wrappers_double (g : RequestGraph) (d r : ℕ) (h : RedirectedDeep g.toRecords d r)
    (objs : Objects) :
    ∃ w objs', (∀ᶠ fuel in Filter.atTop,
        newRequestRec g.toRecords fuel r none none objs = some (w, objs')) ∧
      objs.requests.length + (3 * 2 ^ d - 2) ≤ objs'.requests.length := by
  obtain ⟨w, objs', hbuilt⟩ := g.eventually_newRequestRec r objs
  obtain ⟨fuel, hfuel⟩ := hbuilt.exists
  exact ⟨w, objs', hbuilt, length_newRequestRec h hfuel⟩

/-- The records of a request with a subrequest that was redirected to another one. -/
def subrequestRecords : Records where
  links r := ⟨if r = 2 then some 1 else none, if r = 1 then some 2 else none,
    if r = 0 then none else some 0, 0⟩
  nextServer _ := none

theorem prev_subrequestRecords {r s : ℕ} :
    subrequestRecords.prev s = some r ↔ r = 1 ∧ s = 2 := by
  show (if s = 2 then some 1 else none) = some r ↔ _
  split <;> simp_all [eq_comm]

theorem next_subrequestRecords {r s : ℕ} :
    subrequestRecords.next r = some s ↔ r = 1 ∧ s = 2 := by
  show (if r = 1 then some 2 else none) = some s ↔ _
  split <;> simp_all [eq_comm]

theorem main_subrequestRecords {r m : ℕ} :
    subrequestRecords.main r = some m ↔ r ≠ 0 ∧ m = 0 := by
  show (if r = 0 then none else some 0) = some m ↔ _
  split <;> simp_all [eq_comm]

/-- The first request is on a chain of its own. -/
theorem sameChain_subrequestRecords {s : ℕ} (h : subrequestRecords.SameChain 0 s) : s = 0 := by
  induction h with
  | refl => rfl
  | tail _ hstep ih =>
    subst ih
    rcases hstep with hprev | hnext
    · exact absurd (prev_subrequestRecords.mp hprev).2 (by decide)
    · exact absurd (next_subrequestRecords.mp hnext).1 (by decide)

/-- httpd can build them. -/
def subrequest : RequestGraph where
  toRecords := subrequestRecords
  inverse _ _ := next_subrequestRecords.trans prev_subrequestRecords.symm
  prev_finite := Subrelation.wf (fun {s r} h => show s < r by
    obtain ⟨rfl, rfl⟩ := prev_subrequestRecords.mp h
    decide) Nat.lt_wfRel.wf
  next_finite := Subrelation.wf (fun {s r} h => show 2 - s < 2 - r by
    obtain ⟨rfl, rfl⟩ := next_subrequestRecords.mp h
    decide) (measure fun r => 2 - r).wf
  main_finite := by
    have hzero : ∀ m r, subrequestRecords.MainOf m r → m = 0 := by
      rintro m r ⟨s, -, hm⟩
      exact (main_subrequestRecords.mp hm).2
    have hlast : Acc (fun m r => subrequestRecords.MainOf m r) 0 := by
      refine ⟨0, ?_⟩
      rintro m ⟨s, hchain, hm⟩
      exact absurd (sameChain_subrequestRecords hchain) (main_subrequestRecords.mp hm).1
    exact ⟨fun r => ⟨r, fun m hm => hzero m r hm ▸ hlast⟩⟩
  server_finite := ⟨fun s => ⟨s, nofun⟩⟩

/-- Four wrappers for the redirected subrequest, two of them of its main request. -/
theorem wrappers_double_subrequest :
    ∃ w objs', (∀ᶠ fuel in Filter.atTop,
        newRequestRec subrequest.toRecords fuel 2 none none ⟨[], []⟩ = some (w, objs')) ∧
      4 ≤ objs'.requests.length := by
  obtain ⟨w, objs', hbuilt, hle⟩ := wrappers_double subrequest 1 2
    ⟨1, 0, Or.inl rfl, rfl, rfl, trivial⟩ ⟨[], []⟩
  exact ⟨w, objs', hbuilt, by simpa using hle⟩

end ModCplusplus
