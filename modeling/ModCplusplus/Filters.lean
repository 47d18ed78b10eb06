import ModCplusplus.Dispatch

/-!
# Insertion and dispatch of filters

A connection inserts the filters its server lists, a request those its section
lists; both look the names up among the filter instances of the server and hand
what they find to httpd.  httpd attaches a filter according to the type recorded
for its name, and the module dispatches on whether the attached filter has a
request.

Of httpd only this is used: registering a name in a direction again replaces the
type recorded for it; a connection filter is attached without a request; a
resource filter keeps its request and is refused without one.  Names are compared
after the normalisation `fold`, which httpd uses to ignore their case.

## Main definitions

* `AddCall`, `cppInsertConnectionFilters`, `cppInsertRequestFilters`.
* `ftypeOf`, `apAddFilter` — httpd's side.
* `cppCallInputFilter`, `cppCallOutputFilter` — the dispatch.
* `FiltersAsDeclared` — every filter inserted runs the method of its list.

## Main results

* `ftypeOf_of_mem` — the recorded type is that of some registration of the name.
* `filters_run_as_declared_iff` — when filters run as declared.
-/

namespace ModCplusplus

/-! ### Insertion -/

/-- A call of `ap_add_input_filter` or `ap_add_output_filter`; the context is the
address of the instance. -/
structure AddCall where
  direction : Direction
  name : CStr
  ctx : ℕ
  -- NULL for the filters of a connection
  r : Option RequestRec

/-- The body of the insertion loops: add the filter if the name has an instance. -/
def addFound {k : Kind} (table : AprHash (Ptr k)) (direction : Direction) (r : Option RequestRec)
    (calls : List AddCall) (name : CStr) : List AddCall × Bool :=
  match table.lookup name with
  | some filter => (calls ++ [⟨direction, name, filter.addr, r⟩], false)
  | none => (calls, false)

/-- `cpp_insert_connection_filters`. -/
def cppInsertConnectionFilters (serverRec : CppServerRec) : Walk (List AddCall) :=
  (whileSlots serverRec.outputFilters (addFound serverRec.outputFilterHash .output none) []).andThen
    (whileSlots serverRec.inputFilters (addFound serverRec.inputFilterHash .input none))

/-- `cpp_insert_request_filters`. -/
def cppInsertRequestFilters (r : RequestRec) : Walk (List AddCall) :=
  (whileSlots r.perDirConfig.outputFilters
    (addFound r.serverConfig.outputFilterHash .output (some r)) []).andThen
    (whileSlots r.perDirConfig.inputFilters
      (addFound r.serverConfig.inputFilterHash .input (some r)))

/-- The calls made for a list of names. -/
def callsFor {k : Kind} (table : AprHash (Ptr k)) (direction : Direction) (r : Option RequestRec)
    (names : List CStr) : List AddCall :=
  names.filterMap fun n => (table.lookup n).map fun f => ⟨direction, n, f.addr, r⟩

theorem addFound_snd {k : Kind} (table : AprHash (Ptr k)) (direction : Direction)
    (r : Option RequestRec) (calls : List AddCall) (name : CStr) :
    (addFound table direction r calls name).2 = false := by
  unfold addFound
  split <;> rfl

theorem foldUntil_addFound {k : Kind} (table : AprHash (Ptr k)) (direction : Direction)
    (r : Option RequestRec) : ∀ (names : List CStr) (calls : List AddCall),
      foldUntil (addFound table direction r) names calls
        = calls ++ callsFor table direction r names := by
  intro names
  induction names with
  | nil => intro calls; simp [foldUntil, callsFor]
  | cons n names ih =>
    intro calls
    rw [foldUntil, addFound_snd, if_neg (by simp), ih]
    cases hn : table.lookup n with
    | none => simp [addFound, callsFor, hn]
    | some f => simp [addFound, callsFor, hn]

theorem mem_callsFor {k : Kind} {table : AprHash (Ptr k)} {direction : Direction}
    {r : Option RequestRec} {names : List CStr} {call : AddCall} :
    call ∈ callsFor table direction r names ↔
      ∃ n ∈ names, ∃ f, table.lookup n = some f ∧ call = ⟨direction, n, f.addr, r⟩ := by
  simp only [callsFor, List.mem_filterMap, Option.map_eq_some_iff]
  constructor
  · rintro ⟨n, hn, f, hf, rfl⟩
    exact ⟨n, hn, f, hf, rfl⟩
  · rintro ⟨n, hn, f, hf, rfl⟩
    exact ⟨n, hn, f, hf, rfl⟩

/-- The calls of a connection: its output filters, then its input filters. -/
theorem cppInsertConnectionFilters_state {serverRec : CppServerRec} {outs ins : List CStr}
    (hout : HoldsNames serverRec.outputFilters outs) (hin : HoldsNames serverRec.inputFilters ins) :
    (cppInsertConnectionFilters serverRec).state
      = callsFor serverRec.outputFilterHash .output none outs
          ++ callsFor serverRec.inputFilterHash .input none ins := by
  rw [cppInsertConnectionFilters, Walk.andThen, hin.whileSlots_state, hout.whileSlots_state,
    foldUntil_addFound, foldUntil_addFound, List.nil_append]

/-- The calls of a request: its output filters, then its input filters. -/
theorem cppInsertRequestFilters_state {r : RequestRec} {outs ins : List CStr}
    (hout : HoldsNames r.perDirConfig.outputFilters outs)
    (hin : HoldsNames r.perDirConfig.inputFilters ins) :
    (cppInsertRequestFilters r).state
      = callsFor r.serverConfig.outputFilterHash .output (some r) outs
          ++ callsFor r.serverConfig.inputFilterHash .input (some r) ins := by
  rw [cppInsertRequestFilters, Walk.andThen, hin.whileSlots_state, hout.whileSlots_state,
    foldUntil_addFound, foldUntil_addFound, List.nil_append]

/-! ### What httpd does with a call -/

/-- An `ap_filter_t`, as far as the module looks at it. -/
structure ApFilter where
  ctx : ℕ
  r : Option RequestRec

/-- The registration is of this name in this direction. -/
def Registration.IsFor (fold : CStr → CStr) (direction : Direction) (name : CStr)
    (reg : Registration) : Prop := reg.direction = direction ∧ fold reg.name = fold name

instance (fold : CStr → CStr) (direction : Direction) (name : CStr) (reg : Registration) :
    Decidable (reg.IsFor fold direction name) :=
  inferInstanceAs (Decidable (_ ∧ _))

/-- The type recorded for a name: that of its last registration. -/
def ftypeOf (fold : CStr → CStr) (regs : List Registration) (direction : Direction) (name : CStr) :
    Option FType :=
  ((regs.filter fun reg => reg.IsFor fold direction name).getLast?).map Registration.ftype

/-- `ap_add_input_filter` and `ap_add_output_filter`, for a name of the given
type: what is attached, if anything. -/
def apAddFilter (ftype : Option FType) (call : AddCall) : Option ApFilter :=
  match ftype with
  | none => none
  | some .connection => some ⟨call.ctx, none⟩
  | some .resource => call.r.map fun r => ⟨call.ctx, some r⟩

/-- **The recorded type** of a name that has been registered is the type of one
of its registrations. -/
theorem ftypeOf_of_mem {fold : CStr → CStr} {regs : List Registration} {direction : Direction}
    {name : CStr} {reg : Registration} (hreg : reg ∈ regs) (hfor : reg.IsFor fold direction name) :
    ∃ last ∈ regs, last.IsFor fold direction name ∧
      ftypeOf fold regs direction name = some last.ftype := by
  have hmem : reg ∈ regs.filter fun reg => reg.IsFor fold direction name := by
    rw [List.mem_filter]
    exact ⟨hreg, by simpa using hfor⟩
  have hlast := List.getLast?_eq_some_getLast (List.ne_nil_of_mem hmem)
  have hin := List.getLast_mem (List.ne_nil_of_mem hmem)
  rw [List.mem_filter, decide_eq_true_eq] at hin
  exact ⟨_, hin.1, hin.2, by rw [ftypeOf, hlast]; rfl⟩

/-- Names httpd does not tell apart have one type. -/
theorem ftypeOf_congr {fold : CStr → CStr} (regs : List Registration) (direction : Direction)
    {n m : CStr} (h : fold n = fold m) :
    ftypeOf fold regs direction n = ftypeOf fold regs direction m := by
  have hpred : (fun reg : Registration => decide (reg.IsFor fold direction n))
      = fun reg => decide (reg.IsFor fold direction m) := by
    funext reg
    exact decide_eq_decide.mpr (by rw [Registration.IsFor, Registration.IsFor, h])
  rw [ftypeOf, ftypeOf, hpred]

/-! ### Dispatch -/

/-- The methods of a filter instance. -/
inductive FilterMethod where
  | requestFilter
  | connectionFilter
  deriving DecidableEq, Repr

/-- `cpp_call_input_filter`. -/
def cppCallInputFilter {τ : Type} (methods : FilterMethod → ApacheInputFilter → τ) (f : ApFilter) :
    τ :=
  let target : ApacheInputFilter := ⟨f.ctx⟩
  if f.r.isSome then methods .requestFilter target else methods .connectionFilter target

/-- `cpp_call_output_filter`. -/
def cppCallOutputFilter {τ : Type} (methods : FilterMethod → ApacheOutputFilter → τ)
    (f : ApFilter) : τ :=
  let target : ApacheOutputFilter := ⟨f.ctx⟩
  if f.r.isSome then methods .requestFilter target else methods .connectionFilter target

/-- Dispatching an attached filter calls this method of the instance that was
added, whatever the methods do. -/
def Dispatches (method : FilterMethod) (call : AddCall) (f : ApFilter) : Prop :=
  match call.direction with
  | .input => ∀ methods : FilterMethod → ApacheInputFilter → ℤ,
      cppCallInputFilter methods f = methods method ⟨call.ctx⟩
  | .output => ∀ methods : FilterMethod → ApacheOutputFilter → ℤ,
      cppCallOutputFilter methods f = methods method ⟨call.ctx⟩

/-- A filter added by `call` is attached, and dispatched to `method`. -/
def RunsAs (fold : CStr → CStr) (regs : List Registration) (method : FilterMethod)
    (call : AddCall) : Prop :=
  ∃ f, apAddFilter (ftypeOf fold regs call.direction call.name) call = some f ∧
    Dispatches method call f

theorem dispatches_connection {call : AddCall} {f : ApFilter} (hctx : f.ctx = call.ctx)
    (hr : f.r = none) : Dispatches .connectionFilter call f := by
  unfold Dispatches
  split <;> intro methods <;> simp [cppCallInputFilter, cppCallOutputFilter, hctx, hr]

theorem dispatches_request {call : AddCall} {f : ApFilter} {r : RequestRec}
    (hctx : f.ctx = call.ctx) (hr : f.r = some r) : Dispatches .requestFilter call f := by
  unfold Dispatches
  split <;> intro methods <;> simp [cppCallInputFilter, cppCallOutputFilter, hctx, hr]

/-- A filter without a request is not dispatched to its request method. -/
theorem not_dispatches_request {call : AddCall} {f : ApFilter} (hr : f.r = none) :
    ¬ Dispatches .requestFilter call f := by
  unfold Dispatches
  split
  · intro h
    have := h fun method _ => if method = .requestFilter then 1 else 0
    simp [cppCallInputFilter, hr] at this
  · intro h
    have := h fun method _ => if method = .requestFilter then 1 else 0
    simp [cppCallOutputFilter, hr] at this

/-- A connection's filter runs as one exactly when its name has that type. -/
theorem runsAs_connection_iff {fold : CStr → CStr} {regs : List Registration} {call : AddCall}
    (hr : call.r = none) : RunsAs fold regs .connectionFilter call ↔
      ftypeOf fold regs call.direction call.name = some .connection := by
  constructor
  · rintro ⟨f, hf, -⟩
    cases h : ftypeOf fold regs call.direction call.name with
    | none => rw [h] at hf; simp [apAddFilter] at hf
    | some t =>
      cases t with
      | connection => rfl
      | resource => rw [h] at hf; simp [apAddFilter, hr] at hf
  · intro h
    exact ⟨⟨call.ctx, none⟩, by rw [h]; rfl, dispatches_connection rfl rfl⟩

/-- A request's filter runs as one exactly when its name has that type. -/
theorem runsAs_request_iff {fold : CStr → CStr} {regs : List Registration} {call : AddCall}
    {r : RequestRec} (hr : call.r = some r) : RunsAs fold regs .requestFilter call ↔
      ftypeOf fold regs call.direction call.name = some .resource := by
  constructor
  · rintro ⟨f, hf, hd⟩
    cases h : ftypeOf fold regs call.direction call.name with
    | none => rw [h] at hf; simp [apAddFilter] at hf
    | some t =>
      cases t with
      | resource => rfl
      | connection =>
        rw [h, apAddFilter, Option.some.injEq] at hf
        exact absurd hd (not_dispatches_request (by rw [← hf]))
  · intro h
    exact ⟨⟨call.ctx, some r⟩, by rw [h]; simp [apAddFilter, hr], dispatches_request rfl rfl⟩

/-! ### Filters as declared -/

/-- The records agree on what directives wrote into the filter lists; the
instance tables may differ, since a child fills its own. -/
structure SameFilterLists (a b : CppServerRec) : Prop where
  inputFilters : a.inputFilters = b.inputFilters
  outputFilters : a.outputFilters = b.outputFilters

/-- **Filters run as declared**: whatever instances the servers have, every
filter a connection inserts is attached and runs its connection method, and
every filter a request inserts its request method.  A request may see any record
whose filter lists are those of sections, as a merged one's are. -/
def FiltersAsDeclared (fold : CStr → CStr) (cfg : Config) : Prop :=
  (∀ v child, SameFilterLists child (cfg.servers v) →
    ∀ call ∈ (cppInsertConnectionFilters child).state,
      RunsAs fold cfg.registrations .connectionFilter call) ∧
  ∀ s t (r : RequestRec), r.perDirConfig.outputFilters = (cfg.sections s).outputFilters →
    r.perDirConfig.inputFilters = (cfg.sections t).inputFilters →
    ∀ call ∈ (cppInsertRequestFilters r).state, RunsAs fold cfg.registrations .requestFilter call

/-- No name is taken, in one direction, both by a connection filter list and by
a request filter list. -/
def KindsApart (fold : CStr → CStr) (ds : List Directive) : Prop :=
  ∀ L L' direction, L.filterType = some (direction, .connection) →
    L'.filterType = some (direction, .resource) →
    ∀ n ∈ accepted L ds, ∀ n' ∈ accepted L' ds, fold n ≠ fold n'

theorem mem_registers_iff {L : ListId} {name : CStr} {reg : Registration} :
    reg ∈ L.registers name ↔
      reg.name = name ∧ L.filterType = some (reg.direction, reg.ftype) := by
  unfold ListId.registers
  cases h : L.filterType with
  | none => simp
  | some t =>
    obtain ⟨direction, ftype⟩ := t
    obtain ⟨d, n, t⟩ := reg
    simp only [List.mem_singleton, Registration.mk.injEq, Option.some.injEq, Prod.mk.injEq]
    constructor
    · rintro ⟨rfl, rfl, rfl⟩
      exact ⟨rfl, rfl, rfl⟩
    · rintro ⟨rfl, rfl, rfl⟩
      exact ⟨rfl, rfl, rfl⟩

/-- A name in a filter list has a type, and it is the type of a list that has
the name as well. -/
theorem Reached.ftypeOf_eq {ds : List Directive} {cfg : Config} (hr : Reached ds cfg)
    (fold : CStr → CStr) {L : ListId} {direction : Direction} {ftype : FType}
    (hL : L.filterType = some (direction, ftype)) {n : CStr} (hn : n ∈ accepted L ds) :
    ∃ L' t, ∃ n' ∈ accepted L' ds, L'.filterType = some (direction, t) ∧ fold n' = fold n ∧
      ftypeOf fold cfg.registrations direction n = some t := by
  have hreg : (⟨direction, n, ftype⟩ : Registration) ∈ cfg.registrations := by
    rw [hr.registrations, mem_registrations_iff]
    exact ⟨L, n, hn, mem_registers_iff.mpr ⟨rfl, hL⟩⟩
  obtain ⟨last, hlast, ⟨hdir, hfold⟩, htype⟩ :=
    ftypeOf_of_mem hreg (show Registration.IsFor fold direction n _ from ⟨rfl, rfl⟩)
  rw [hr.registrations, mem_registrations_iff] at hlast
  obtain ⟨L', n', hn', hmem⟩ := hlast
  obtain ⟨rfl, hL'⟩ := mem_registers_iff.mp hmem
  exact ⟨L', last.ftype, last.name, hn', by rw [hL', hdir], hfold, htype⟩

theorem Reached.connectionLists {ds : List Directive} {cfg : Config} (hr : Reached ds cfg) {v : ℕ}
    {child : CppServerRec} (hchild : SameFilterLists child (cfg.servers v)) :
    HoldsNames child.outputFilters (accepted (.ofServer v .outputFilters) ds) ∧
      HoldsNames child.inputFilters (accepted (.ofServer v .inputFilters) ds) := by
  rw [hchild.1, hchild.2]
  exact ⟨hr.lists (.ofServer v .outputFilters), hr.lists (.ofServer v .inputFilters)⟩

theorem Reached.connectionCalls {ds : List Directive} {cfg : Config} (hr : Reached ds cfg) {v : ℕ}
    {child : CppServerRec} (hchild : SameFilterLists child (cfg.servers v)) :
    (cppInsertConnectionFilters child).state
      = callsFor child.outputFilterHash .output none (accepted (.ofServer v .outputFilters) ds)
        ++ callsFor child.inputFilterHash .input none (accepted (.ofServer v .inputFilters) ds) :=
  cppInsertConnectionFilters_state (hr.connectionLists hchild).1 (hr.connectionLists hchild).2

theorem Reached.requestCalls {ds : List Directive} {cfg : Config} (hr : Reached ds cfg) {s t : ℕ}
    {r : RequestRec} (hout : r.perDirConfig.outputFilters = (cfg.sections s).outputFilters)
    (hin : r.perDirConfig.inputFilters = (cfg.sections t).inputFilters) :
    (cppInsertRequestFilters r).state
      = callsFor r.serverConfig.outputFilterHash .output (some r)
          (accepted (.ofSection s .outputFilters) ds)
        ++ callsFor r.serverConfig.inputFilterHash .input (some r)
          (accepted (.ofSection t .inputFilters) ds) := by
  refine cppInsertRequestFilters_state ?_ ?_
  · rw [hout]
    exact hr.lists (.ofSection s .outputFilters)
  · rw [hin]
    exact hr.lists (.ofSection t .inputFilters)

/-- Lists of distinct kinds apart: a name of a list has the type of the list. -/
theorem KindsApart.ftypeOf_eq {fold : CStr → CStr} {ds : List Directive} {cfg : Config}
    (h : KindsApart fold ds) (hr : Reached ds cfg) {L : ListId} {direction : Direction}
    {ftype : FType} (hL : L.filterType = some (direction, ftype)) {n : CStr}
    (hn : n ∈ accepted L ds) : ftypeOf fold cfg.registrations direction n = some ftype := by
  obtain ⟨L', t, n', hn', hL', hfold, htype⟩ := hr.ftypeOf_eq fold hL hn
  rw [htype]
  cases ftype with
  | connection =>
    cases t with
    | connection => rfl
    | resource => exact absurd hfold.symm (h L L' direction hL hL' n hn n' hn')
  | resource =>
    cases t with
    | connection => exact absurd hfold (h L' L direction hL' hL n' hn' n hn)
    | resource => rfl

theorem KindsApart.filtersAsDeclared {fold : CStr → CStr} {ds : List Directive} {cfg : Config}
    (h : KindsApart fold ds) (hr : Reached ds cfg) : FiltersAsDeclared fold cfg := by
  refine ⟨?_, ?_⟩
  · intro v child hchild call hcall
    rw [hr.connectionCalls hchild, List.mem_append, mem_callsFor, mem_callsFor] at hcall
    rcases hcall with ⟨n, hn, f, -, rfl⟩ | ⟨n, hn, f, -, rfl⟩
    · exact (runsAs_connection_iff rfl).mpr (h.ftypeOf_eq hr rfl hn)
    · exact (runsAs_connection_iff rfl).mpr (h.ftypeOf_eq hr rfl hn)
  · intro s t r hout hin call hcall
    rw [hr.requestCalls hout hin, List.mem_append, mem_callsFor, mem_callsFor] at hcall
    rcases hcall with ⟨n, hn, f, -, rfl⟩ | ⟨n, hn, f, -, rfl⟩
    · exact (runsAs_request_iff rfl).mpr (h.ftypeOf_eq hr rfl hn)
    · exact (runsAs_request_iff rfl).mpr (h.ftypeOf_eq hr rfl hn)

/-- A server record with one instance under a name, in both filter tables. -/
def withFilter (serverRec : CppServerRec) (n : CStr) : CppServerRec :=
  { serverRec with
    inputFilterHash := (∅ : AprHash ApacheInputFilter).insert n ⟨0⟩
    outputFilterHash := (∅ : AprHash ApacheOutputFilter).insert n ⟨0⟩ }

/-- Filters as declared: a connection filter list's names have the connection
type. -/
theorem FiltersAsDeclared.connection {fold : CStr → CStr} {ds : List Directive} {cfg : Config}
    (h : FiltersAsDeclared fold cfg) (hr : Reached ds cfg) {L : ListId} {direction : Direction}
    (hL : L.filterType = some (direction, .connection)) {n : CStr} (hn : n ∈ accepted L ds) :
    ftypeOf fold cfg.registrations direction n = some .connection := by
  -- the server gets an instance under `n`, so that the name is not passed over
  have hsame : ∀ v, SameFilterLists (withFilter (cfg.servers v) n) (cfg.servers v) :=
    fun _ => ⟨rfl, rfl⟩
  have hadded : ∀ v, ∀ call ∈ (cppInsertConnectionFilters (withFilter (cfg.servers v) n)).state,
      RunsAs fold cfg.registrations .connectionFilter call := fun v => h.1 v _ (hsame v)
  rcases L with ⟨s, _ | _ | _⟩ | ⟨v, _ | _ | _⟩ <;>
    simp only [ListId.filterType, Option.some.injEq, Prod.mk.injEq, reduceCtorEq, and_false,
      and_true] at hL <;>
    subst hL
  · have hcall := hadded v ⟨.input, n, 0, none⟩ (by
      rw [hr.connectionCalls (hsame v)]
      exact List.mem_append_right _ (mem_callsFor.mpr ⟨n, hn, ⟨0⟩, AList.lookup_insert _, rfl⟩))
    exact (runsAs_connection_iff rfl).mp hcall
  · have hcall := hadded v ⟨.output, n, 0, none⟩ (by
      rw [hr.connectionCalls (hsame v)]
      exact List.mem_append_left _ (mem_callsFor.mpr ⟨n, hn, ⟨0⟩, AList.lookup_insert _, rfl⟩))
    exact (runsAs_connection_iff rfl).mp hcall

/-- Filters as declared: a request filter list's names have the resource type. -/
theorem FiltersAsDeclared.request {fold : CStr → CStr} {ds : List Directive} {cfg : Config}
    (h : FiltersAsDeclared fold cfg) (hr : Reached ds cfg) {L : ListId} {direction : Direction}
    (hL : L.filterType = some (direction, .resource)) {n : CStr} (hn : n ∈ accepted L ds) :
    ftypeOf fold cfg.registrations direction n = some .resource := by
  set host := withFilter createCppServerConfig n with hhost
  have hadded : ∀ s, ∀ call ∈ (cppInsertRequestFilters ⟨cfg.sections s, host⟩).state,
      RunsAs fold cfg.registrations .requestFilter call := fun s => h.2 s s _ rfl rfl
  rcases L with ⟨s, _ | _ | _⟩ | ⟨v, _ | _ | _⟩ <;>
    simp only [ListId.filterType, Option.some.injEq, Prod.mk.injEq, reduceCtorEq, and_false,
      and_true] at hL <;>
    subst hL
  · have hcall := hadded s ⟨.input, n, 0, some ⟨cfg.sections s, host⟩⟩ (by
      rw [hr.requestCalls rfl rfl]
      exact List.mem_append_right _ (mem_callsFor.mpr ⟨n, hn, ⟨0⟩, AList.lookup_insert _, rfl⟩))
    exact (runsAs_request_iff rfl).mp hcall
  · have hcall := hadded s ⟨.output, n, 0, some ⟨cfg.sections s, host⟩⟩ (by
      rw [hr.requestCalls rfl rfl]
      exact List.mem_append_left _ (mem_callsFor.mpr ⟨n, hn, ⟨0⟩, AList.lookup_insert _, rfl⟩))
    exact (runsAs_request_iff rfl).mp hcall

/-- When filters run as declared, in terms of the directives. -/
theorem Reached.filtersAsDeclared_iff {ds : List Directive} {cfg : Config} (hr : Reached ds cfg)
    (fold : CStr → CStr) : FiltersAsDeclared fold cfg ↔ KindsApart fold ds := by
  constructor
  · intro h L L' direction hL hL' n hn n' hn' hfold
    have hconn := h.connection hr hL hn
    have hres := h.request hr hL' hn'
    rw [ftypeOf_congr _ _ hfold, hres] at hconn
    exact absurd hconn (by decide)
  · exact fun h => h.filtersAsDeclared hr

/-- **After any run of directives, filters run as declared exactly when no name
was taken by filter lists of both kinds in one direction.** -/
theorem filters_run_as_declared_iff (fold : CStr → CStr) (ds : List Directive) :
    ∃ messages cfg, configure ds Config.start = .ok (messages, cfg) ∧
      (FiltersAsDeclared fold cfg ↔ KindsApart fold ds) := by
  obtain ⟨cfg, hrun, hr⟩ := configure_start ds
  exact ⟨_, cfg, hrun, hr.filtersAsDeclared_iff fold⟩

/-- One input filter named for a server's connections and for a section's
requests: it does not run as both. -/
theorem not_filtersAsDeclared_shared :
    ∃ messages cfg, configure
        [.inServer 0 (.addCPPConnectionInputFilter (cStr (literal "f"))),
          .inSection 0 (.addCPPInputFilter (cStr (literal "f")))] Config.start
      = .ok (messages, cfg) ∧ ¬ FiltersAsDeclared id cfg := by
  obtain ⟨cfg, hrun, hr⟩ := configure_start
    [.inServer 0 (.addCPPConnectionInputFilter (cStr (literal "f"))),
      .inSection 0 (.addCPPInputFilter (cStr (literal "f")))]
  refine ⟨_, cfg, hrun, ?_⟩
  rw [hr.filtersAsDeclared_iff id]
  intro h
  exact h (.ofServer 0 .inputFilters) (.ofSection 0 .inputFilters) .input rfl rfl
    (cStr (literal "f")) (by decide) (cStr (literal "f")) (by decide) rfl

end ModCplusplus
