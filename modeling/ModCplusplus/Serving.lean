import ModCplusplus.General.Machine
import ModCplusplus.Lifetime
import ModCplusplus.Filters
import ModCplusplus.Inheritance

/-!
# A child serving requests

After `child_init` a child does what httpd's hooks make it do: it runs the phases of
requests, inserts filters for requests and connections, hands connections to
protocols, and runs the filters that are attached.  Requests, connections and filters
come in any order, each with its own server and its own sections.

httpd reaches the module through the functions that `register_hooks` has registered
and through the two functions that filters are registered with.  A hook with nothing
registered goes by without the module.  What the virtual methods do is arbitrary; the
hooks that a method makes httpd run come after it here, not inside it.

## Main definitions

* `Hook`, `registerHooks` — the hooks and what is registered for them.
* `Stimulus`, `Reply` — what httpd asks of the child, and what comes of it.
* `Serving`, `Serving.machine` — the child with its attached filters, and its steps.
* `Serving.start` — the child after `child_init`.
-/

namespace ModCplusplus

/-! ### Hooks -/

/-- The hooks of httpd that the methods of the module's classes are named for. -/
inductive Hook where
  | childInit
  | preConnection
  | processConnection
  | postReadRequest
  | translateName
  | headerParser
  | accessChecker
  | checkUserId
  | authChecker
  | typeChecker
  | fixups
  | insertFilter
  | handler
  | logTransaction
  deriving DecidableEq, Repr

/-- The functions of the module that can stand behind a hook. -/
inductive HookFunction where
  | cppCall (phase : Phase)
  | cppInsertConnectionFilters
  | cppInsertRequestFilters
  | cppCallProcessConnection
  | cppSpawnHandlers
  deriving DecidableEq, Repr

/-- `APR_HOOK_FIRST` and `APR_HOOK_MIDDLE`. -/
inductive HookOrder where
  | first
  | middle
  deriving DecidableEq, Repr

/-- `register_hooks`. -/
def registerHooks : List (Hook × HookFunction × HookOrder) :=
  [(.handler, .cppCall .handler, .middle),
    (.accessChecker, .cppCall .accessChecker, .middle),
    (.checkUserId, .cppCall .checkUserId, .first),
    (.authChecker, .cppCall .authChecker, .middle),
    (.typeChecker, .cppCall .typeChecker, .middle),
    (.fixups, .cppCall .fixups, .middle),
    (.logTransaction, .cppCall .logger, .middle),
    (.preConnection, .cppInsertConnectionFilters, .first),
    (.insertFilter, .cppInsertRequestFilters, .middle),
    (.processConnection, .cppCallProcessConnection, .middle),
    (.childInit, .cppSpawnHandlers, .first)]

/-- The function registered for a hook. -/
def hooked (hook : Hook) : Option HookFunction :=
  (registerHooks.find? fun e => e.1 = hook).map fun e => e.2.1

/-! ### Methods -/

/-- The virtual methods, apart from the destructors. -/
inductive Method where
  | request (phase : Phase)
  | processConnection
  | filter (method : FilterMethod)
  deriving DecidableEq, Repr

/-- A virtual method called on an instance. -/
structure MethodCall where
  kind : Kind
  addr : ℕ
  method : Method
  deriving DecidableEq, Repr

/-- What the instances do. -/
structure Behaviour (σ : Type) where
  handler : Methods σ
  protocol : ApacheProtocol → σ → ℤ × σ
  inputFilter : FilterMethod → ApacheInputFilter → σ → ℤ × σ
  outputFilter : FilterMethod → ApacheOutputFilter → σ → ℤ × σ

/-! ### The machine -/

/-- `OK`. -/
def ok : ℤ := 0

/-- What httpd does to the child.  A request has a server and a chain of sections. -/
inductive Stimulus where
  | request (hook : Hook) (v : ℕ) (outer : ℕ) (inner : List ℕ)
  | connection (hook : Hook) (v : ℕ)
  -- the filter attached at this place is run, or removed
  | runFilter (direction : Direction) (i : ℕ)
  | removeFilter (direction : Direction) (i : ℕ)
  deriving DecidableEq, Repr

/-- What comes of it. -/
structure Reply where
  -- what the function returned, if one ran that returns something
  result : Option ℤ
  calls : List MethodCall
  -- a walk of a name list went past its array
  overrun : Bool
  deriving DecidableEq, Repr

/-- The reply when the module is not reached. -/
def Reply.nothing : Reply where
  result := none
  calls := []
  overrun := false

/-- A child, the filters attached, and the world around it. -/
structure Serving (σ : Type) where
  child : Child
  inputFilters : List ApFilter
  outputFilters : List ApFilter
  world : σ

/-- What `ap_add_input_filter` and `ap_add_output_filter` attach for the calls in one
direction. -/
def attachedFor (fold : CStr → CStr) (regs : List Registration) (direction : Direction)
    (calls : List AddCall) : List ApFilter :=
  (calls.filter fun call => call.direction = direction).filterMap fun call =>
    apAddFilter (ftypeOf fold regs call.direction call.name) call

section

variable {σ : Type} (fold : CStr → CStr) (cfg : Config) (b : Behaviour σ)

/-- httpd attaches the filters that the calls add. -/
def Serving.attach (s : Serving σ) (calls : List AddCall) : Serving σ :=
  { s with
    inputFilters := s.inputFilters ++ attachedFor fold cfg.registrations .input calls
    outputFilters := s.outputFilters ++ attachedFor fold cfg.registrations .output calls }

/-- The filters attached in a direction. -/
def Serving.filters (s : Serving σ) : Direction → List ApFilter
  | .input => s.inputFilters
  | .output => s.outputFilters

/-- The request as httpd hands it to the hooks: the sections of its chain merged, and
the record of its server. -/
def Serving.requestRec (s : Serving σ) (v outer : ℕ) (inner : List ℕ) : RequestRec where
  perDirConfig := mergeSections (cfg.sections outer) (inner.map cfg.sections)
  serverConfig := s.child.servers v

/-- A hook of a request. -/
def Serving.request (s : Serving σ) (hook : Hook) (r : RequestRec) : Reply × Serving σ :=
  match hooked hook with
  | some (.cppCall phase) =>
      let out := cppCall phase b.handler r s.world
      (⟨some out.state.result,
        out.state.asked.map fun e => ⟨.handler, e.1.addr, .request phase⟩, out.overrun⟩,
        { s with world := out.state.world })
  | some .cppInsertRequestFilters =>
      let out := cppInsertRequestFilters r
      (⟨none, [], out.overrun⟩, s.attach fold cfg out.state)
  | _ => (.nothing, s)

/-- A hook of a connection to a server. -/
def Serving.connection (s : Serving σ) (hook : Hook) (serverRec : CppServerRec) :
    Reply × Serving σ :=
  match hooked hook with
  | some .cppInsertConnectionFilters =>
      let out := cppInsertConnectionFilters serverRec
      (⟨some ok, [], out.overrun⟩, s.attach fold cfg out.state)
  | some .cppCallProcessConnection =>
      let out := cppCallProcessConnection b.protocol serverRec s.world
      (⟨some out.state.result,
        out.state.asked.map fun e => ⟨.protocol, e.1.addr, .processConnection⟩, out.overrun⟩,
        { s with world := out.state.world })
  | _ => (.nothing, s)

/-- A brigade passes the filter `f`: the function the filter is registered with runs,
and what it returns and calls is recorded. -/
def Serving.runFilter (s : Serving σ) (direction : Direction) (f : ApFilter) :
    Reply × Serving σ :=
  let out : (ℤ × σ) × MethodCall :=
    match direction with
    | .input => cppCallInputFilter
        (fun m filter => (b.inputFilter m filter s.world, ⟨.inputFilter, filter.addr, .filter m⟩)) f
    | .output => cppCallOutputFilter
        (fun m filter => (b.outputFilter m filter s.world, ⟨.outputFilter, filter.addr, .filter m⟩))
        f
  (⟨some out.1.1, [out.2], false⟩, { s with world := out.1.2 })

/-- The filter at a place is removed from its chain. -/
def Serving.removeFilter (s : Serving σ) (direction : Direction) (i : ℕ) : Serving σ :=
  match direction with
  | .input => { s with inputFilters := s.inputFilters.eraseIdx i }
  | .output => { s with outputFilters := s.outputFilters.eraseIdx i }

/-- One step of the child. -/
def Serving.step (s : Serving σ) : Stimulus → Reply × Serving σ
  | .request hook v outer inner => s.request fold cfg b hook (s.requestRec cfg v outer inner)
  | .connection hook v => s.connection fold cfg b hook (s.child.servers v)
  | .runFilter direction i =>
      match (s.filters direction)[i]? with
      | some f => s.runFilter b direction f
      | none => (.nothing, s)
  | .removeFilter direction i => (.nothing, s.removeFilter direction i)

/-- The child as a machine. -/
def Serving.machine : Machine (Serving σ) Stimulus Reply where
  step := Serving.step fold cfg b

/-- The child when `child_init` has run: nothing is attached. -/
def Serving.start (env : DsoEnv) (order : HashOrder CStr) (servers : Servers) (w : σ) :
    Serving σ where
  child := cppSpawnHandlers env order servers (Child.start cfg.servers)
  inputFilters := []
  outputFilters := []
  world := w

variable {fold cfg b}

theorem child_serving_request (s : Serving σ) (hook : Hook) (r : RequestRec) :
    (s.request fold cfg b hook r).2.child = s.child := by
  unfold Serving.request
  split <;> rfl

/-- No step changes the child itself. -/
theorem child_serving_step (s : Serving σ) (stimulus : Stimulus) :
    (s.step fold cfg b stimulus).2.child = s.child := by
  cases stimulus with
  | request hook v outer inner => exact child_serving_request s hook _
  | connection hook v =>
    simp only [Serving.step, Serving.connection]
    split <;> rfl
  | runFilter direction i =>
    simp only [Serving.step]
    split <;> rfl
  | removeFilter direction i =>
    cases direction <;> rfl

end

end ModCplusplus
