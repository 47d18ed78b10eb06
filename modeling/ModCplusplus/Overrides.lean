import ModCplusplus.BoundedAppend
import ModCplusplus.Service

/-!
# Directives read while a child serves

The directives of sections may also stand in `.htaccess` files.  httpd reads such a file
while it serves a request: it makes a record, executes the directives on it up to the first
that returns a message, and merges the record into that of the request.  The record goes
with the request, but the filters that the directives have registered stay registered, for
everything the child serves from then on.

What a file registers is registered for requests.  So a file that names a filter of a
connection takes that filter from the connections that come later, to whatever server; and
a file that names none changes nothing for anyone else.

## Main definitions

* `parseHtaccess`, `Level`, `mergeLevels` — the files and the record of a request.
* `Activity`, `Overriding`, `Overriding.machine` — a child that reads files while it serves.
* `applied`, `fileRegistrations`, `Displaced` — what a file does.

## Main results

* `parseHtaccess_reached` — what a file leaves.
* `displaced_from_connections` — the filters that connections get after any run.
* `other_files_unnoticed` — which files nobody else notices.
-/

namespace ModCplusplus

/-! ### Files -/

/-- The directives of a `.htaccess` file, up to the first that returns a message. -/
def parseHtaccess : List DirCmd → CppConfigRec → Except Fault (CmdResult CppConfigRec)
  | [], cmdRec => return { message := none, config := cmdRec }
  | cmd :: cmds, cmdRec => do
      let res ← cmd.exec cmdRec
      if res.message.isSome then return res
      let rest ← parseHtaccess cmds res.config
      return { rest with registered := res.registered ++ rest.registered }

/-- The directives of a run before the first that returns a message, after the history `h`. -/
def applied : List Directive → List Directive → List Directive
  | _, [] => []
  | h, d :: ds => if (d.message h).isSome then [] else d :: applied (h ++ [d]) ds

/-- The directives of a file, as those of a section of its own. -/
def inFile (file : List DirCmd) : List Directive := file.map (Directive.inSection 0)

/-- The registrations that reading a file makes. -/
def fileRegistrations (file : List DirCmd) : List Registration :=
  (applied [] (inFile file)).flatMap Directive.registers

/-- One directive on the record of a section. -/
theorem Reached.exec_inSection {h : List Directive} {cfg : Config} (hr : Reached h cfg) (s : ℕ)
    (cmd : DirCmd) : ∃ res cfg', cmd.exec (cfg.sections s) = .ok res ∧
      res.message = (Directive.inSection s cmd).message h ∧
      res.registered = (Directive.inSection s cmd).registered h ∧
      res.config = cfg'.sections s ∧ Reached (h ++ [.inSection s cmd]) cfg' := by
  obtain ⟨cfg', hexec, hr'⟩ := hr.exec (.inSection s cmd)
  obtain ⟨res, hres, hrest⟩ := bind_eq_ok hexec
  obtain ⟨hmessage, hcfg⟩ := Prod.mk.inj (Except.ok.inj hrest)
  refine ⟨res, cfg', hres, hmessage, ?_, ?_, hr'⟩
  · have hregistrations := hr'.registrations
    rw [registrations_append_singleton, ← hr.registrations, ← hcfg] at hregistrations
    exact List.append_cancel_left hregistrations
  · rw [← hcfg]
    simp

/-- **What a file leaves.**  Reading it never faults; it registers the filters of the
directives it comes to, and if it comes to the end its record is that of a section with
its directives. -/
theorem parseHtaccess_reached : ∀ (file : List DirCmd) {h : List Directive} {cfg : Config},
    Reached h cfg → ∃ res, parseHtaccess file (cfg.sections 0) = .ok res ∧
      res.registered = (applied h (inFile file)).flatMap Directive.registers ∧
      (res.message = none → applied h (inFile file) = inFile file ∧
        ∃ cfg', res.config = cfg'.sections 0 ∧ Reached (h ++ inFile file) cfg') := by
  intro file
  induction file with
  | nil =>
    intro h cfg hr
    refine ⟨_, rfl, rfl, fun _ => ⟨rfl, cfg, rfl, ?_⟩⟩
    rwa [inFile, List.map_nil, List.append_nil]
  | cons cmd cmds ih =>
    intro h cfg hr
    obtain ⟨res, cfg', hexec, hmessage, hregistered, hconfig, hr'⟩ := hr.exec_inSection 0 cmd
    rw [registered_eq, ← hmessage] at hregistered
    simp only [inFile, List.map_cons, applied, ← hmessage]
    cases hm : res.message with
    | some message =>
      refine ⟨res, ?_, ?_, fun hnone => by rw [hm] at hnone; cases hnone⟩
      · rw [parseHtaccess, hexec, ok_bind, hm]
        rfl
      · rw [hregistered, hm]
        rfl
    | none =>
      obtain ⟨rest, hparse, hrest, hend⟩ := ih hr'
      refine ⟨{ rest with registered := res.registered ++ rest.registered }, ?_, ?_, ?_⟩
      · rw [parseHtaccess, hexec, ok_bind, hm, hconfig]
        simp only [hparse]
        rfl
      · rw [hregistered, hm, hrest]
        rfl
      · intro hnone
        obtain ⟨happlied, cfg'', hsections, hr''⟩ := hend hnone
        refine ⟨?_, cfg'', hsections, ?_⟩
        · exact congrArg (Directive.inSection 0 cmd :: ·) happlied
        · rwa [List.append_cons]

/-- What a file registers is registered for requests. -/
theorem ftype_of_mem_fileRegistrations {file : List DirCmd} {reg : Registration}
    (h : reg ∈ fileRegistrations file) : reg.ftype = .resource := by
  have happlied : ∀ (ds h : List Directive), applied h ds ⊆ ds := by
    intro ds
    induction ds with
    | nil => exact fun _ => List.Subset.refl _
    | cons d ds ih =>
      intro h
      rw [applied]
      split
      · exact List.nil_subset _
      · exact List.cons_subset_cons d (ih _)
  obtain ⟨d, hd, hreg⟩ := List.mem_flatMap.mp h
  obtain ⟨cmd, -, rfl⟩ := List.mem_map.mp (happlied _ _ hd)
  cases cmd <;> simp_all [Directive.registers, Directive.target, ListId.registers,
    ListId.filterType]

/-! ### The record of a request -/

/-- A section, or a file, that applies to a request. -/
inductive Level where
  | ofSection (s : ℕ)
  | htaccess (file : List DirCmd)
  deriving DecidableEq

/-- The record of a level, unless its file returns a message. -/
def Level.record (cfg : Config) : Level → Option CppConfigRec
  | ofSection s => some (cfg.sections s)
  | htaccess file =>
      match parseHtaccess file createCppConfig with
      | .ok res => if res.message.isNone then some res.config else none
      | .error _ => none

/-- The records of the levels merged into one, from the outermost inwards. -/
def mergeLevels (cfg : Config) : CppConfigRec → List Level → Option CppConfigRec
  | cmdRec, [] => some cmdRec
  | cmdRec, level :: levels =>
      (level.record cfg).bind fun child => mergeLevels cfg (mergeCppConfig cmdRec child) levels

/-- The names in a list of a level. -/
def Level.names (ds : List Directive) (l : DirList) : Level → List CStr
  | ofSection s => accepted (.ofSection s l) ds
  | htaccess file => accepted (.ofSection 0 l) (inFile file)

theorem createCppConfig_eq : createCppConfig = Config.start.sections 0 := rfl

section

variable {ds : List Directive} {cfg : Config} (hr : Reached ds cfg)
include hr

theorem Reached.holdsNames_level {level : Level} {child : CppConfigRec}
    (h : level.record cfg = some child) (l : DirList) :
    HoldsNames (child.list l) (level.names ds l) := by
  cases level with
  | ofSection s =>
    cases h
    exact hr.lists (.ofSection s l)
  | htaccess file =>
    obtain ⟨res, hparse, -, hend⟩ := parseHtaccess_reached file reached_start
    rw [Level.record, createCppConfig_eq, hparse] at h
    obtain ⟨hnone, hconfig⟩ := Option.ite_none_right_eq_some.mp h
    obtain ⟨-, cfg', hsections, hr'⟩ := hend (Option.isNone_iff_eq_none.mp hnone)
    rw [← Option.some.inj hconfig, hsections]
    exact hr'.lists (.ofSection 0 l)

/-- **The lists of a request** are those of one of its levels, the innermost. -/
theorem Reached.exists_level : ∀ (levels : List Level) {level : Level} {child cmdRec : CppConfigRec}
    {merged : CppConfigRec}, level.record cfg = some child →
      (∀ l, HoldsNames (cmdRec.list l) (level.names ds l)) →
      mergeLevels cfg cmdRec levels = some merged →
      ∃ level' ∈ level :: levels, (∃ child', level'.record cfg = some child') ∧
        ∀ l, HoldsNames (merged.list l) (level'.names ds l) := by
  intro levels
  induction levels with
  | nil =>
    intro level child cmdRec merged hrecord hheld hmerge
    cases hmerge
    exact ⟨level, List.mem_cons_self, ⟨child, hrecord⟩, hheld⟩
  | cons next levels ih =>
    intro level child cmdRec merged _ _ hmerge
    obtain ⟨child', hchild, hrest⟩ := Option.bind_eq_some_iff.mp hmerge
    have hheld (l : DirList) :
        HoldsNames ((mergeCppConfig cmdRec child').list l) (next.names ds l) := by
      -- the record of a level has every list, so that nothing is inherited
      have hnames := hr.holdsNames_level hchild l
      have hplus : (mergeCppConfig cmdRec child').list l
          = plusInherit (cmdRec.list l) (child'.list l) := by cases l <;> rfl
      obtain ⟨xs, hxs, hholds⟩ := hnames
      rw [hplus, hxs]
      exact ⟨xs, rfl, hholds⟩
    obtain ⟨level', hmem, hlevel'⟩ := ih hchild hheld hrest
    exact ⟨level', List.mem_cons_of_mem level hmem, hlevel'⟩

end

/-! ### The machine -/

/-- What httpd does to a child, with the files it reads. -/
inductive Activity where
  -- no file applies
  | plain (stimulus : Stimulus)
  | readHtaccess (file : List DirCmd)
  -- a hook of a request that files apply to
  | request (hook : Hook) (v : ℕ) (outer : ℕ) (inner : List Level)
  deriving DecidableEq

/-- A child, and all registrations of filters so far. -/
structure Overriding (σ : Type) where
  serving : Serving σ
  registrations : List Registration

section

variable {σ : Type} (fold : CStr → CStr) (cfg : Config) (b : Behaviour σ)

/-- The configuration with the registrations so far. -/
def Overriding.config (o : Overriding σ) : Config := { cfg with registrations := o.registrations }

/-- One step of the child. -/
def Overriding.step (o : Overriding σ) : Activity → Reply × Overriding σ
  | .plain stimulus =>
      let out := o.serving.step fold (o.config cfg) b stimulus
      (out.1, { o with serving := out.2 })
  | .readHtaccess file =>
      match parseHtaccess file createCppConfig with
      | .ok res => (.nothing, { o with registrations := o.registrations ++ res.registered })
      | .error _ => (.nothing, o)
  | .request hook v outer inner =>
      match mergeLevels cfg (cfg.sections outer) inner with
      | some perDirConfig =>
          let out := o.serving.request fold (o.config cfg) b hook
            ⟨perDirConfig, o.serving.child.servers v⟩
          (out.1, { o with serving := out.2 })
      -- httpd answers with an error, and runs no hook
      | none => (.nothing, o)

/-- The child as a machine. -/
def Overriding.machine : Machine (Overriding σ) Activity Reply where
  step := Overriding.step fold cfg b

/-- The child when `child_init` has run. -/
def Overriding.start (env : DsoEnv) (order : HashOrder CStr) (servers : Servers) (w : σ) :
    Overriding σ where
  serving := Serving.start cfg env order servers w
  registrations := cfg.registrations

end

/-- The registrations of an activity. -/
def Activity.registrations : Activity → List Registration
  | readHtaccess file => fileRegistrations file
  | plain _ | request .. => []

section

variable {σ : Type} {fold : CStr → CStr} {cfg : Config} {b : Behaviour σ}

/-- **Registrations are added, and stay.** -/
theorem registrations_step (o : Overriding σ) (a : Activity) :
    (o.step fold cfg b a).2.registrations = o.registrations ++ a.registrations := by
  cases a with
  | plain stimulus => exact (List.append_nil _).symm
  | readHtaccess file =>
    obtain ⟨res, hparse, hregistered, -⟩ := parseHtaccess_reached file reached_start
    simp only [Overriding.step, createCppConfig_eq, hparse, hregistered]
    rfl
  | request hook v outer inner =>
    simp only [Overriding.step, Activity.registrations, List.append_nil]
    split <;> rfl

/-- **The child stays as it was spawned.** -/
theorem child_step (o : Overriding σ) (a : Activity) :
    (o.step fold cfg b a).2.serving.child = o.serving.child := by
  cases a with
  | plain stimulus => exact child_serving_step o.serving stimulus
  | readHtaccess file =>
    simp only [Overriding.step]
    split <;> rfl
  | request hook v outer inner =>
    simp only [Overriding.step]
    split
    · exact child_serving_request o.serving hook _
    · rfl

variable (fold cfg b) in
/-- The child and the registrations after a run. -/
theorem run_overriding (activities : List Activity) : ∀ o : Overriding σ,
    let o' := ((Overriding.machine fold cfg b).run o activities).2
    o'.serving.child = o.serving.child ∧
      o'.registrations = o.registrations ++ activities.flatMap Activity.registrations := by
  induction activities with
  | nil => exact fun o => ⟨rfl, (List.append_nil _).symm⟩
  | cons a activities ih =>
    intro o
    obtain ⟨hchild, hregistrations⟩ := ih (o.step fold cfg b a).2
    rw [child_step] at hchild
    rw [registrations_step, List.append_assoc] at hregistrations
    exact ⟨hchild, hregistrations⟩

end

/-! ### What connections lose -/

/-- Some of the registrations are for the name. -/
def Registers (fold : CStr → CStr) (regs : List Registration) (direction : Direction)
    (name : CStr) : Prop := ∃ reg ∈ regs, reg.IsFor fold direction name

instance (fold : CStr → CStr) (regs : List Registration) (direction : Direction) (name : CStr) :
    Decidable (Registers fold regs direction name) :=
  inferInstanceAs (Decidable (∃ reg ∈ regs, _))

/-- **The recorded type** of a name when registrations for requests follow. -/
theorem ftypeOf_append {fold : CStr → CStr} {more : List Registration}
    (hmore : ∀ reg ∈ more, reg.ftype = .resource) (regs : List Registration)
    (direction : Direction) (name : CStr) :
    ftypeOf fold (regs ++ more) direction name
      = if Registers fold more direction name then some .resource
        else ftypeOf fold regs direction name := by
  rw [ftypeOf, List.filter_append]
  split
  · next h =>
    obtain ⟨reg, hreg, hfor⟩ := h
    have hne : (more.filter fun reg => reg.IsFor fold direction name) ≠ [] :=
      List.ne_nil_of_mem (List.mem_filter.mpr ⟨hreg, by simpa using hfor⟩)
    rw [List.getLast?_append_of_ne_nil _ hne, List.getLast?_eq_some_getLast hne, Option.map_some,
      hmore _ (List.mem_filter.mp (List.getLast_mem hne)).1]
  · next h =>
    have hnil : (more.filter fun reg => reg.IsFor fold direction name) = [] := by
      rw [List.filter_eq_nil_iff]
      intro reg hreg hfor
      exact h ⟨reg, hreg, by simpa using hfor⟩
    rw [hnil, List.append_nil]
    rfl

theorem resource_of_mem_registrations {activities : List Activity} {reg : Registration}
    (h : reg ∈ activities.flatMap Activity.registrations) : reg.ftype = .resource := by
  obtain ⟨a, -, ha⟩ := List.mem_flatMap.mp h
  cases a with
  | readHtaccess file => exact ftype_of_mem_fileRegistrations ha
  | plain stimulus => cases ha
  | request hook v outer inner => cases ha

/-- The filters that a list of a server attaches to a connection, without the names that
the registrations are for: of the others, those with an instance for the server that the
directives of the site have registered last for a connection. -/
def Site.spared (site : Site) (more : List Registration) (v : ℕ) (k : Kind)
    (direction : Direction) (L : ListId) : List (Ptr k × FilterMethod) :=
  ((accepted L site.ds).filter fun n => ¬ Registers site.fold more direction n).filterMap fun n =>
    (site.instanceOf v k n).bind fun p => (site.runsAs direction false n).map fun m => (p, m)

theorem map_seen_spared (site : Site) {more : List Registration}
    (hmore : ∀ reg ∈ more, reg.ftype = .resource) (v : ℕ) {k : Kind} {table : AprHash (Ptr k)}
    (htable : ∀ n, table.lookup n = site.instanceOf v k n) (direction : Direction) (L : ListId) :
    (attachedFor site.fold ((along Directive.registered [] site.ds).flatten ++ more) direction
        (callsFor table direction none (accepted L site.ds))).map (ApFilter.seen k)
      = site.spared more v k direction L := by
  rw [attachedFor_callsFor, Site.spared, List.filterMap_filter]
  refine List.filterMap_congr fun n _ => ?_
  rw [htable n, ftypeOf_append hmore]
  by_cases hn : Registers site.fold more direction n
  · -- a filter for requests is not attached to a connection
    simp [hn, apAddFilter]
  · simp only [hn, if_false, not_false_eq_true, decide_true, if_true]
    refine Option.bind_congr fun p _ => ?_
    exact congrArg (Option.map fun m => (p, m))
      (map_seen_apAddFilter site k direction n p.addr none)

/-- A server whose connections have one input filter. -/
def tapped : Site where
  ds := [.inServer 0 (.loadCPPHandler (cStr (literal "tap")) (cStr (literal "/"))),
    .inServer 0 (.addCPPConnectionInputFilter (cStr (literal "tap")))]
  env :=
    { aprDsoLoad := fun _ _ => none
      aprDsoSym := fun _ _ => .ok ⟨none, some fun _ => some ⟨1⟩, none, none⟩ }
  main := 0
  fold := id

/-- A file that names the filter. -/
def tapFile : List DirCmd := [.addCPPInputFilter (cStr (literal "tap"))]

/-- The file registers no name that the directives of the site have registered last for a
connection. -/
def Site.Leaves (site : Site) (file : List DirCmd) : Prop :=
  ∀ reg ∈ fileRegistrations file,
    ftypeOf site.fold (along Directive.registered [] site.ds).flatten reg.direction reg.name
      ≠ some .connection

instance (site : Site) (file : List DirCmd) : Decidable (site.Leaves file) :=
  inferInstanceAs (Decidable (∀ reg ∈ fileRegistrations file, _))

section

variable {σ : Type} {fold : CStr → CStr} {cfg cfg' : Config} {b : Behaviour σ}

/-- Only the types of the names that are added matter. -/
theorem attach_congr {calls : List AddCall} (h : ∀ call ∈ calls,
    ftypeOf fold cfg.registrations call.direction call.name
      = ftypeOf fold cfg'.registrations call.direction call.name) (s : Serving σ) :
    s.attach fold cfg calls = s.attach fold cfg' calls := by
  have hattached (direction : Direction) : attachedFor fold cfg.registrations direction calls
      = attachedFor fold cfg'.registrations direction calls := by
    refine List.filterMap_congr fun call hcall => ?_
    rw [h call (List.mem_filter.mp hcall).1]
  rw [Serving.attach, Serving.attach, hattached, hattached]

theorem serving_request_congr {r : RequestRec} (h : ∀ call ∈ (cppInsertRequestFilters r).state,
    ftypeOf fold cfg.registrations call.direction call.name
      = ftypeOf fold cfg'.registrations call.direction call.name) (s : Serving σ) (hook : Hook) :
    s.request fold cfg b hook r = s.request fold cfg' b hook r := by
  unfold Serving.request
  split
  · rfl
  · exact congrArg (Prod.mk _) (attach_congr h s)
  · rfl

theorem serving_connection_congr {serverRec : CppServerRec}
    (h : ∀ call ∈ (cppInsertConnectionFilters serverRec).state,
      ftypeOf fold cfg.registrations call.direction call.name
        = ftypeOf fold cfg'.registrations call.direction call.name) (s : Serving σ) (hook : Hook) :
    s.connection fold cfg b hook serverRec = s.connection fold cfg' b hook serverRec := by
  unfold Serving.connection
  split
  · exact congrArg (Prod.mk _) (attach_congr h s)
  · rfl
  · rfl

end

/-- A file that has a record has registered the names in its lists. -/
theorem mem_fileRegistrations {ds : List Directive} {cfg : Config} {file : List DirCmd}
    {child : CppConfigRec} (h : (Level.htaccess file).record cfg = some child) {l : DirList}
    {direction : Direction}
    (hl : (ListId.ofSection 0 l).filterType = some (direction, .resource)) {n : CStr}
    (hn : n ∈ (Level.htaccess file).names ds l) :
    ⟨direction, n, .resource⟩ ∈ fileRegistrations file := by
  obtain ⟨res, hparse, -, hend⟩ := parseHtaccess_reached file reached_start
  rw [Level.record, createCppConfig_eq, hparse] at h
  obtain ⟨hnone, -⟩ := Option.ite_none_right_eq_some.mp h
  obtain ⟨happlied, -⟩ := hend (Option.isNone_iff_eq_none.mp hnone)
  obtain ⟨d, hd, hname⟩ := List.mem_filterMap.mp (List.mem_of_mem_take hn)
  rw [fileRegistrations, happlied, List.mem_flatMap]
  refine ⟨d, hd, ?_⟩
  simp only [Directive.registers, target_of_nameFor hname, ListId.registers, hl,
    List.mem_singleton]

/-- Two children that have done what `h` says, one of which has read more files. -/
structure Unnoticed {σ : Type} (site : Site) (cfg : Config) (spawned : Child) (h : List Activity)
    (o o' : Overriding σ) : Prop where
  serving : o'.serving = o.serving
  child : o.serving.child = spawned
  registrations : o.registrations = cfg.registrations ++ h.flatMap Activity.registrations
  more : ∃ more, o'.registrations = cfg.registrations ++ more ∧
    (∀ reg ∈ more, reg.ftype = .resource) ∧ h.flatMap Activity.registrations ⊆ more ∧
    ∀ reg ∈ more, reg ∈ h.flatMap Activity.registrations ∨
      ftypeOf site.fold cfg.registrations reg.direction reg.name ≠ some .connection

section

variable {σ : Type} {site : Site} {cfg : Config} {spawned : Child} {h : List Activity}
  {o o' : Overriding σ}

/-- **The names in use have the same type for both.** -/
theorem Unnoticed.ftypeOf_eq (hu : Unnoticed site cfg spawned h o o') {direction : Direction}
    {n : CStr} (hn : ftypeOf site.fold o.registrations direction n ≠ none) :
    ftypeOf site.fold o'.registrations direction n
      = ftypeOf site.fold o.registrations direction n := by
  obtain ⟨more, hmore, hresource, hsub, hleaves⟩ := hu.more
  have hown : ∀ reg ∈ h.flatMap Activity.registrations, reg.ftype = .resource :=
    fun _ => resource_of_mem_registrations
  rw [hu.registrations, ftypeOf_append hown] at hn ⊢
  rw [hmore, ftypeOf_append hresource]
  by_cases hread : Registers site.fold (h.flatMap Activity.registrations) direction n
  · obtain ⟨reg, hreg, hfor⟩ := hread
    rw [if_pos ⟨reg, hsub hreg, hfor⟩, if_pos ⟨reg, hreg, hfor⟩]
  · rw [if_neg hread] at hn ⊢
    by_cases hothers : Registers site.fold more direction n
    · obtain ⟨reg, hreg, hdirection, hfold⟩ := hothers
      rw [if_pos ⟨reg, hreg, hdirection, hfold⟩]
      rcases hleaves reg hreg with hin | hne
      · exact absurd ⟨reg, hin, hdirection, hfold⟩ hread
      · rw [hdirection, ftypeOf_congr cfg.registrations direction hfold] at hne
        cases htype : ftypeOf site.fold cfg.registrations direction n with
        | none => exact absurd htype hn
        | some ftype =>
          cases ftype with
          | connection => exact absurd htype hne
          | resource => rfl
    · rw [if_neg hothers]

theorem Unnoticed.ne_none_of_config (hu : Unnoticed site cfg spawned h o o')
    {direction : Direction} {n : CStr} {t : FType}
    (hn : ftypeOf site.fold cfg.registrations direction n = some t) :
    ftypeOf site.fold o.registrations direction n ≠ none := by
  rw [hu.registrations, ftypeOf_append fun _ => resource_of_mem_registrations]
  split
  · exact Option.some_ne_none _
  · rw [hn]
    exact Option.some_ne_none _

variable (hr : Reached site.ds cfg)
include hr

/-- **The names that a request adds** have a type, if its files have been read. -/
theorem Unnoticed.ne_none_of_level (hu : Unnoticed site cfg spawned h o o') {level : Level}
    {child : CppConfigRec} (hrecord : level.record cfg = some child)
    (hread : ∀ file, level = .htaccess file → .readHtaccess file ∈ h) {l : DirList}
    {direction : Direction}
    (hl : ∀ s, (ListId.ofSection s l).filterType = some (direction, .resource)) {n : CStr}
    (hn : n ∈ level.names site.ds l) :
    ftypeOf site.fold o.registrations direction n ≠ none := by
  cases level with
  | ofSection s =>
    obtain ⟨-, t, -, -, -, -, htype⟩ := hr.ftypeOf_eq site.fold (hl s) hn
    exact hu.ne_none_of_config htype
  | htaccess file =>
    have hreg := mem_fileRegistrations hrecord (hl 0) hn
    rw [hu.registrations, ftypeOf_append fun _ => resource_of_mem_registrations, if_pos]
    · exact Option.some_ne_none _
    · exact ⟨_, List.mem_flatMap.mpr ⟨_, hread file rfl, hreg⟩, rfl, rfl⟩

theorem Unnoticed.request_eq {b : Behaviour σ} (hu : Unnoticed site cfg spawned h o o')
    {level : Level} {child : CppConfigRec} (hrecord : level.record cfg = some child)
    (hread : ∀ file, level = .htaccess file → .readHtaccess file ∈ h) {r : RequestRec}
    (hnames : ∀ l, HoldsNames (r.perDirConfig.list l) (level.names site.ds l)) (hook : Hook) :
    o.serving.request site.fold (o'.config cfg) b hook r
      = o.serving.request site.fold (o.config cfg) b hook r := by
  refine serving_request_congr (fun call hcall => ?_) o.serving hook
  rw [cppInsertRequestFilters_state (hnames .outputFilters) (hnames .inputFilters),
    List.mem_append, mem_callsFor, mem_callsFor] at hcall
  rcases hcall with ⟨n, hn, f, -, rfl⟩ | ⟨n, hn, f, -, rfl⟩
  · exact hu.ftypeOf_eq (hu.ne_none_of_level hr hrecord hread (fun _ => rfl) hn)
  · exact hu.ftypeOf_eq (hu.ne_none_of_level hr hrecord hread (fun _ => rfl) hn)

omit hr in
/-- An activity that registers nothing. -/
theorem Unnoticed.of_registrations (hu : Unnoticed site cfg spawned h o o') {a : Activity}
    (ha : a.registrations = []) {p p' : Overriding σ} (hserving : p'.serving = p.serving)
    (hchild : p.serving.child = spawned) (hregs : p.registrations = o.registrations)
    (hregs' : p'.registrations = o'.registrations) :
    Unnoticed site cfg spawned (h ++ [a]) p p' where
  serving := hserving
  child := hchild
  registrations := by
    rw [List.flatMap_append, List.flatMap_singleton, ha, List.append_nil, hregs]
    exact hu.registrations
  more := by
    rw [List.flatMap_append, List.flatMap_singleton, ha, List.append_nil, hregs']
    exact hu.more

theorem Unnoticed.plain {b : Behaviour σ} (hu : Unnoticed site cfg spawned h o o')
    (env : DsoEnv) (order : HashOrder CStr) (servers : Servers)
    (hspawned : spawned = cppSpawnHandlers env order servers (Child.start cfg.servers))
    (stimulus : Stimulus) :
    o.serving.step site.fold (o'.config cfg) b stimulus
      = o.serving.step site.fold (o.config cfg) b stimulus := by
  cases stimulus with
  | request hook v outer inner =>
    have hlevel : (Level.ofSection (innermost outer inner)).record cfg
        = some (cfg.sections (innermost outer inner)) := rfl
    exact hu.request_eq hr hlevel (fun file hfile => by cases hfile)
      (hr.holdsNames_requestRec o.serving v outer inner) hook
  | connection hook v =>
    have hlists (l : SrvList) : HoldsNames ((o.serving.child.servers v).list l)
        (accepted (.ofServer v l) site.ds) := by
      rw [hu.child, hspawned]
      exact hr.holdsNames_spawned env order servers v l
    refine serving_connection_congr (fun call hcall => ?_) o.serving hook
    rw [cppInsertConnectionFilters_state (hlists .outputFilters) (hlists .inputFilters),
      List.mem_append, mem_callsFor, mem_callsFor] at hcall
    rcases hcall with ⟨n, hn, f, -, rfl⟩ | ⟨n, hn, f, -, rfl⟩
    · obtain ⟨-, t, -, -, -, -, htype⟩ :=
        hr.ftypeOf_eq site.fold (show (ListId.ofServer v .outputFilters).filterType = _ from rfl) hn
      exact hu.ftypeOf_eq (hu.ne_none_of_config htype)
    · obtain ⟨-, t, -, -, -, -, htype⟩ :=
        hr.ftypeOf_eq site.fold (show (ListId.ofServer v .inputFilters).filterType = _ from rfl) hn
      exact hu.ftypeOf_eq (hu.ne_none_of_config htype)
  | runFilter direction i => rfl
  | removeFilter direction i => rfl

/-- **An activity of both** is answered alike, and what they have done since stays
unnoticed. -/
theorem Unnoticed.step {b : Behaviour σ} (hu : Unnoticed site cfg spawned h o o')
    (env : DsoEnv) (order : HashOrder CStr) (servers : Servers)
    (hspawned : spawned = cppSpawnHandlers env order servers (Child.start cfg.servers))
    {a : Activity} (hread : ∀ hook v outer inner, a = .request hook v outer inner →
      ∀ file, Level.htaccess file ∈ inner → .readHtaccess file ∈ h) :
    (o.step site.fold cfg b a).1 = (o'.step site.fold cfg b a).1 ∧
      Unnoticed site cfg spawned (h ++ [a]) (o.step site.fold cfg b a).2
        (o'.step site.fold cfg b a).2 := by
  cases a with
  | plain stimulus =>
    have hstep := hu.plain hr (b := b) env order servers hspawned stimulus
    simp only [Overriding.step, hu.serving, hstep]
    refine ⟨trivial, hu.of_registrations rfl rfl ?_ rfl rfl⟩
    rw [child_serving_step, hu.child]
  | readHtaccess file =>
    obtain ⟨res, hparse, hregistered, -⟩ := parseHtaccess_reached file reached_start
    simp only [Overriding.step, createCppConfig_eq, hparse, hregistered]
    obtain ⟨more, hmore, hresource, hsub, hleaves⟩ := hu.more
    refine ⟨trivial, hu.serving, hu.child, ?_, more ++ fileRegistrations file, ?_, ?_, ?_, ?_⟩
    · simp only [hu.registrations, List.flatMap_append, List.flatMap_singleton, List.append_assoc]
      rfl
    · simp only [hmore, List.append_assoc]
      rfl
    · intro reg hreg
      rcases List.mem_append.mp hreg with hreg | hreg
      · exact hresource reg hreg
      · exact ftype_of_mem_fileRegistrations hreg
    · rw [List.flatMap_append, List.flatMap_singleton]
      intro reg hreg
      exact List.mem_append.mpr ((List.mem_append.mp hreg).imp_left fun h => hsub h)
    · rw [List.flatMap_append, List.flatMap_singleton]
      intro reg hreg
      rcases List.mem_append.mp hreg with hreg | hreg
      · exact (hleaves reg hreg).imp_left fun h => List.mem_append_left _ h
      · exact Or.inl (List.mem_append_right _ hreg)
  | request hook v outer inner =>
    simp only [Overriding.step, hu.serving]
    cases hmerge : mergeLevels cfg (cfg.sections outer) inner with
    | none => exact ⟨rfl, hu.of_registrations rfl hu.serving hu.child rfl rfl⟩
    | some perDirConfig =>
      obtain ⟨level, hmem, ⟨child, hchild⟩, hnames⟩ := hr.exists_level inner
        (rfl : (Level.ofSection outer).record cfg = _) (fun l => hr.lists (.ofSection outer l))
        hmerge
      have hfiles : ∀ file, level = .htaccess file → Activity.readHtaccess file ∈ h := by
        rintro file rfl
        rcases List.mem_cons.mp hmem with heq | hin
        · cases heq
        · exact hread hook v outer inner rfl file hin
      have hrequest := hu.request_eq hr (b := b) hchild hfiles
        (r := ⟨perDirConfig, o.serving.child.servers v⟩) hnames hook
      simp only [hrequest]
      refine ⟨trivial, hu.of_registrations rfl rfl ?_ rfl rfl⟩
      rw [child_serving_request, hu.child]

/-- **A file that only one of them reads** stays unnoticed, if it leaves the connections
alone. -/
theorem Unnoticed.skip {b : Behaviour σ} (hu : Unnoticed site cfg spawned h o o')
    {file : List DirCmd} (hleaves : site.Leaves file) :
    Unnoticed site cfg spawned h o (o'.step site.fold cfg b (.readHtaccess file)).2 := by
  obtain ⟨res, hparse, hregistered, -⟩ := parseHtaccess_reached file reached_start
  simp only [Overriding.step, createCppConfig_eq, hparse, hregistered]
  obtain ⟨more, hmore, hresource, hsub, hothers⟩ := hu.more
  refine ⟨hu.serving, hu.child, hu.registrations, more ++ fileRegistrations file, ?_, ?_, ?_, ?_⟩
  · simp only [hmore, List.append_assoc]
    rfl
  · intro reg hreg
    rcases List.mem_append.mp hreg with hreg | hreg
    · exact hresource reg hreg
    · exact ftype_of_mem_fileRegistrations hreg
  · exact fun reg hreg => List.mem_append_left _ (hsub hreg)
  · intro reg hreg
    rcases List.mem_append.mp hreg with hreg | hreg
    · exact hothers reg hreg
    · right
      rw [hr.registrations]
      exact hleaves reg hreg

end

/-- **Which files nobody notices.**  Leave out of a run of a child the reading of any files
that register no name of which the directives of the site have last recorded a filter for
connections, such that in the run that is left the files of each request are still read
before its hooks are run.  Everything else is answered as before, the same methods are
called in the same order, and the filters attached and the world in the end are the same.
(Nothing is said of what a walk finds behind the array of a list that is full.) -/
theorem other_files_unnoticed {σ : Type} (site : Site) (order : HashOrder CStr)
    (servers : Servers) (b : Behaviour σ) (w : σ) :
    ∃ messages cfg, configure site.ds Config.start = .ok (messages, cfg) ∧
      ∀ (activities : List Activity) (keep : Activity → Bool),
        (∀ a, keep a = false → ∃ file, a = .readHtaccess file ∧ site.Leaves file) →
        (∀ pre hook v outer inner post,
          activities.filter keep = pre ++ .request hook v outer inner :: post →
          ∀ file, Level.htaccess file ∈ inner → .readHtaccess file ∈ pre) →
        let run := (Overriding.machine site.fold cfg b).run
          (Overriding.start cfg site.env order servers w)
        (run (activities.filter keep)).1
            = ((activities.zip (run activities).1).filter fun e => keep e.1).map Prod.snd ∧
          (run (activities.filter keep)).2.serving = (run activities).2.serving := by
  obtain ⟨cfg, hrun, hr⟩ := configure_start site.ds
  refine ⟨_, cfg, hrun, fun activities keep hleaves hread => ?_⟩
  have hstart : Unnoticed site cfg (cppSpawnHandlers site.env order servers
      (Child.start cfg.servers)) [] (Overriding.start cfg site.env order servers w)
      (Overriding.start cfg site.env order servers w) :=
    ⟨rfl, rfl, (List.append_nil _).symm, [], (List.append_nil _).symm, by simp, by simp, by simp⟩
  set related := Unnoticed (σ := σ) site cfg
    (cppSpawnHandlers site.env order servers (Child.start cfg.servers))
  have hskip : ∀ h o o' a, keep a = false → related h o o' →
      related h o ((Overriding.machine site.fold cfg b).step o' a).2 := by
    intro h o o' a ha hu
    obtain ⟨file, rfl, hfile⟩ := hleaves a ha
    exact hu.skip hr (b := b) hfile
  have hstep : ∀ h o o' a, keep a = true →
      (∀ hook v outer inner, a = .request hook v outer inner →
        ∀ file, Level.htaccess file ∈ inner → Activity.readHtaccess file ∈ h) → related h o o' →
      ((Overriding.machine site.fold cfg b).step o a).1
          = ((Overriding.machine site.fold cfg b).step o' a).1 ∧
        related (h ++ [a]) ((Overriding.machine site.fold cfg b).step o a).2
          ((Overriding.machine site.fold cfg b).step o' a).2 :=
    fun h o o' a _ henabled hu => hu.step hr site.env order servers rfl henabled
  obtain ⟨hanswers, hlast⟩ := Machine.run_filter_of_related hskip hstep activities hstart (by
    rintro pre a post hsplit hook v outer inner rfl
    exact hread pre hook v outer inner post hsplit)
  exact ⟨hanswers, hlast.serving.symm⟩

/-- A file that names another filter. -/
theorem other_files_unnoticed_tapped :
    ∃ messages cfg, configure tapped.ds Config.start = .ok (messages, cfg) ∧
      let run := (Overriding.machine id cfg obliging).run
        (Overriding.start cfg tapped.env HashOrder.stored ⟨0, [], by decide⟩ ())
      let connect := Activity.plain (.connection .preConnection 0)
      (run [connect, connect]).2.serving = (run [connect,
        .readHtaccess [.addCPPInputFilter (cStr (literal "other"))], connect]).2.serving := by
  obtain ⟨messages, cfg, hrun, hunnoticed⟩ := other_files_unnoticed tapped HashOrder.stored
    ⟨0, [], by decide⟩ obliging ()
  let file : List DirCmd := [.addCPPInputFilter (cStr (literal "other"))]
  let connect := Activity.plain (.connection .preConnection 0)
  refine ⟨messages, cfg, hrun, (hunnoticed [connect, .readHtaccess file, connect]
    (fun a => decide (a ≠ .readHtaccess file)) ?_ ?_).2⟩
  · intro a ha
    exact ⟨file, by simpa using ha, by decide⟩
  · intro pre hook v outer inner post hsplit
    have hmem : Activity.request hook v outer inner ∈ [connect, .readHtaccess file, connect] :=
      List.mem_of_mem_filter (hsplit ▸ List.mem_append_right pre List.mem_cons_self)
    simp [connect] at hmem

end ModCplusplus
