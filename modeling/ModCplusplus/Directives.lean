import ModCplusplus.Config

/-!
# Runs of directives

The directives of a configuration arrive in any order, each for one section or
one server.  A run executes them one after the other; a directive that returns a
message is recorded and the run goes on, so that a run says what every directive
does in every state.

What a run leaves behind is described by its history alone: the names a list was
given, cut off at `MAX_HANDLERS`.

## Main definitions

* `DirCmd`, `SrvCmd`, `Directive` — the nine directives and where they apply.
* `Config`, `Directive.exec`, `configure` — the records, one step, a run.
* `ListId`, `given` — the name lists, and the names given to one of them.
* `Reached` — the invariant: the records are those of the history.

## Main results

* `Reached.exec` — one directive keeps the invariant.
* `configure_reached` — so does a run, and it never faults.
-/

namespace ModCplusplus

/-! ### Directives -/

/-- The directives of a section (`OR_FILEINFO`). -/
inductive DirCmd where
  | addCPPHandler (name : CStr)
  | addCPPInputFilter (name : CStr)
  | addCPPOutputFilter (name : CStr)
  | passCPPVar (name value : CStr)
  deriving DecidableEq

/-- The directives of a server (`RSRC_CONF`). -/
inductive SrvCmd where
  | loadCPPHandler (name pathToSo : CStr)
  | addCPPConnectionInputFilter (name : CStr)
  | addCPPConnectionOutputFilter (name : CStr)
  | addCPPProtocol (name : CStr)
  | passCPPServerVar (name value : CStr)
  deriving DecidableEq

/-- A directive and the section or server it stands in. -/
inductive Directive where
  | inSection (s : ℕ) (cmd : DirCmd)
  | inServer (v : ℕ) (cmd : SrvCmd)
  deriving DecidableEq

/-- The dispatch of `cpp_cmds` on a section's record. -/
def DirCmd.exec : DirCmd → CppConfigRec → Except Fault (CmdResult CppConfigRec)
  | .addCPPHandler name, cmdRec => addDirHandler cmdRec name
  | .addCPPInputFilter name, cmdRec => addDirInputFilter cmdRec name
  | .addCPPOutputFilter name, cmdRec => addDirOutputFilter cmdRec name
  | .passCPPVar name value, cmdRec => passVar cmdRec name value

/-- The dispatch of `cpp_cmds` on a server's record. -/
def SrvCmd.exec : SrvCmd → CppServerRec → Except Fault (CmdResult CppServerRec)
  | .loadCPPHandler name path, serverRec => .ok (addHandler serverRec name path)
  | .addCPPConnectionInputFilter name, serverRec => addConnInputFilter serverRec name
  | .addCPPConnectionOutputFilter name, serverRec => addConnOutputFilter serverRec name
  | .addCPPProtocol name, serverRec => addProtocolHandler serverRec name
  | .passCPPServerVar name value, serverRec => .ok (passServerVar serverRec name value)

/-- The records of all sections and servers, and the filter registrations made so
far, oldest first. -/
structure Config where
  sections : ℕ → CppConfigRec
  servers : ℕ → CppServerRec
  registrations : List Registration

/-- The records as they are created. -/
def Config.start : Config where
  sections := fun _ => createCppConfig
  servers := fun _ => createCppServerConfig
  registrations := []

/-- One directive: the message it returns and the records after it. -/
def Directive.exec : Directive → Config → Except Fault (Option String × Config)
  | .inSection s cmd, cfg => do
      let res ← cmd.exec (cfg.sections s)
      return (res.message,
        { cfg with sections := Function.update cfg.sections s res.config,
                   registrations := cfg.registrations ++ res.registered })
  | .inServer v cmd, cfg => do
      let res ← cmd.exec (cfg.servers v)
      return (res.message,
        { cfg with servers := Function.update cfg.servers v res.config,
                   registrations := cfg.registrations ++ res.registered })

/-- A run of directives, with the message of each. -/
def configure : List Directive → Config → Except Fault (List (Option String) × Config)
  | [], cfg => return ([], cfg)
  | d :: ds, cfg => do
      let (message, cfg') ← d.exec cfg
      let (messages, cfg'') ← configure ds cfg'
      return (message :: messages, cfg'')

/-! ### The name lists -/

/-- The name lists of a section. -/
inductive DirList where
  | handlers
  | inputFilters
  | outputFilters
  deriving DecidableEq

/-- The name lists of a server. -/
inductive SrvList where
  | protocolHandlers
  | inputFilters
  | outputFilters
  deriving DecidableEq

/-- A name list of the configuration. -/
inductive ListId where
  | ofSection (s : ℕ) (l : DirList)
  | ofServer (v : ℕ) (l : SrvList)
  deriving DecidableEq

/-- The field of a name list. -/
def CppConfigRec.list (cmdRec : CppConfigRec) : DirList → Option NameSlots
  | .handlers => cmdRec.handlers
  | .inputFilters => cmdRec.inputFilters
  | .outputFilters => cmdRec.outputFilters

/-- The field of a name list. -/
def CppServerRec.list (serverRec : CppServerRec) : SrvList → Option NameSlots
  | .protocolHandlers => serverRec.protocolHandlers
  | .inputFilters => serverRec.inputFilters
  | .outputFilters => serverRec.outputFilters

/-- The array of a name list. -/
def Config.list (cfg : Config) : ListId → Option NameSlots
  | .ofSection s l => (cfg.sections s).list l
  | .ofServer v l => (cfg.servers v).list l

/-- The list a directive appends to, and the name it appends. -/
def Directive.target : Directive → Option (ListId × CStr)
  | .inSection s (.addCPPHandler name) => some (.ofSection s .handlers, name)
  | .inSection s (.addCPPInputFilter name) => some (.ofSection s .inputFilters, name)
  | .inSection s (.addCPPOutputFilter name) => some (.ofSection s .outputFilters, name)
  | .inSection _ (.passCPPVar _ _) => none
  | .inServer _ (.loadCPPHandler _ _) => none
  | .inServer v (.addCPPConnectionInputFilter name) => some (.ofServer v .inputFilters, name)
  | .inServer v (.addCPPConnectionOutputFilter name) => some (.ofServer v .outputFilters, name)
  | .inServer v (.addCPPProtocol name) => some (.ofServer v .protocolHandlers, name)
  | .inServer _ (.passCPPServerVar _ _) => none

/-- The name a directive gives to a list. -/
def Directive.nameFor (L : ListId) (d : Directive) : Option CStr :=
  d.target.bind fun t => if t.1 = L then some t.2 else none

/-- The names the directives give to a list, in order. -/
def given (L : ListId) (ds : List Directive) : List CStr := ds.filterMap (Directive.nameFor L)

/-- How filters of a list are registered. -/
def ListId.filterType : ListId → Option (Direction × FType)
  | .ofSection _ .handlers => none
  | .ofSection _ .inputFilters => some (.input, .resource)
  | .ofSection _ .outputFilters => some (.output, .resource)
  | .ofServer _ .protocolHandlers => none
  | .ofServer _ .inputFilters => some (.input, .connection)
  | .ofServer _ .outputFilters => some (.output, .connection)

/-- The message of a list that is full. -/
def ListId.tooMany : ListId → String
  | .ofSection _ .handlers => "Too Many Handlers!! Couldn't add handler"
  | .ofSection _ .inputFilters => "Too Many Handlers!! Couldn't add input filter"
  | .ofSection _ .outputFilters => "Too Many Handlers!! Couldn't add output filter"
  | .ofServer _ .protocolHandlers => "Too Many Handlers!! Couldn't add protocol handler"
  | .ofServer _ .inputFilters => "Too Many Handlers!! Couldn't add input filter"
  | .ofServer _ .outputFilters => "Too Many Handlers!! Couldn't add output filter"

/-- The registration that goes with a name accepted into a list. -/
def ListId.registers (L : ListId) (name : CStr) : List Registration :=
  match L.filterType with
  | some (direction, ftype) => [⟨direction, name, ftype⟩]
  | none => []

/-- The names a list takes of those it is given. -/
def accepted (L : ListId) (ds : List Directive) : List CStr := (given L ds).take maxHandlers

@[simp] theorem given_nil (L : ListId) : given L [] = [] := rfl

theorem given_append (L : ListId) (ds es : List Directive) :
    given L (ds ++ es) = given L ds ++ given L es := List.filterMap_append

theorem given_singleton_of_target {d : Directive} {L : ListId} {name : CStr}
    (h : d.target = some (L, name)) (L' : ListId) :
    given L' [d] = if L = L' then [name] else [] := by
  have hname : d.nameFor L' = if L = L' then some name else none := by
    rw [Directive.nameFor, h, Option.bind_some]
  by_cases hL : L = L'
  · rw [if_pos hL] at hname ⊢
    rw [given, List.filterMap_cons_some hname, List.filterMap_nil]
  · rw [if_neg hL] at hname ⊢
    rw [given, List.filterMap_cons_none hname, List.filterMap_nil]

theorem given_singleton_of_target_none {d : Directive} (h : d.target = none) (L : ListId) :
    given L [d] = [] := by
  have hname : d.nameFor L = none := by rw [Directive.nameFor, h, Option.bind_none]
  rw [given, List.filterMap_cons_none hname, List.filterMap_nil]

@[simp] theorem accepted_nil (L : ListId) : accepted L [] = [] := by simp [accepted]

theorem length_accepted_lt {L : ListId} {ds : List Directive} :
    (accepted L ds).length < maxHandlers ↔ (given L ds).length < maxHandlers := by
  rw [accepted, List.length_take]
  omega

/-- A list with room takes the next name it is given. -/
theorem accepted_append_of_lt {d : Directive} {L : ListId} {name : CStr} {ds : List Directive}
    (h : d.target = some (L, name)) (hlt : (given L ds).length < maxHandlers) :
    accepted L (ds ++ [d]) = accepted L ds ++ [name] := by
  rw [accepted, accepted, given_append, given_singleton_of_target h, if_pos rfl,
    List.take_of_length_le (by simp; omega), List.take_of_length_le (by omega)]

/-- A list without room stays as it is. -/
theorem accepted_append_of_ge {d : Directive} {L : ListId} {ds : List Directive}
    (hge : maxHandlers ≤ (given L ds).length) : accepted L (ds ++ [d]) = accepted L ds := by
  rw [accepted, accepted, given_append, List.take_append_of_le_length hge]

/-- Other lists do not notice. -/
theorem accepted_append_of_ne {d : Directive} {L L' : ListId} {name : CStr} {ds : List Directive}
    (h : d.target = some (L, name)) (hne : L' ≠ L) : accepted L' (ds ++ [d]) = accepted L' ds := by
  rw [accepted, accepted, given_append, given_singleton_of_target h, if_neg (Ne.symm hne),
    List.append_nil]

/-- What a list takes with one directive more. -/
theorem mem_accepted_append {d : Directive} {L : ListId} {name : CStr}
    (h : d.target = some (L, name)) (ds : List Directive) {L' : ListId} {n : CStr} :
    n ∈ accepted L' (ds ++ [d]) ↔
      n ∈ accepted L' ds ∨ L' = L ∧ n = name ∧ (given L ds).length < maxHandlers := by
  by_cases hL : L' = L
  · subst hL
    rcases Nat.lt_or_ge (given L' ds).length maxHandlers with hlt | hge
    · rw [accepted_append_of_lt h hlt, List.mem_append, List.mem_singleton]
      simp only [hlt, true_and, and_true]
    · rw [accepted_append_of_ge hge]
      simp only [Nat.not_lt.mpr hge, and_false, or_false]
  · rw [accepted_append_of_ne h hL]
    simp only [hL, false_and, or_false]

theorem accepted_append_of_none {d : Directive} (h : d.target = none) (L : ListId)
    (ds : List Directive) : accepted L (ds ++ [d]) = accepted L ds := by
  rw [accepted, accepted, given_append, given_singleton_of_target_none h, List.append_nil]

/-! ### The tables -/

/-- A table of the configuration. -/
inductive TableId where
  | sectionVars (s : ℕ)
  | serverVars (v : ℕ)
  | paths (v : ℕ)
  deriving DecidableEq

/-- The table behind a `TableId`. -/
def Config.table (cfg : Config) : TableId → Option (AprHash CStr)
  | .sectionVars s => (cfg.sections s).varHash
  | .serverVars v => some (cfg.servers v).varHash
  | .paths v => some (cfg.servers v).handlerPathHash

/-- The table a directive writes to, with the key and the value it sets. -/
def Directive.binding : Directive → Option (TableId × CStr × CStr)
  | .inSection s (.passCPPVar name value) => some (.sectionVars s, name, value)
  | .inServer v (.loadCPPHandler name path) => some (.paths v, name, path)
  | .inServer v (.passCPPServerVar name value) => some (.serverVars v, name, value)
  | _ => none

/-- The pair a directive sets in a table. -/
def Directive.pairFor (T : TableId) (d : Directive) : Option (CStr × CStr) :=
  d.binding.bind fun t => if t.1 = T then some t.2 else none

/-- The pairs the directives set in a table, in order. -/
def bound (T : TableId) (ds : List Directive) : List (CStr × CStr) :=
  ds.filterMap (Directive.pairFor T)

/-- The table left by setting the pairs in order. -/
def tableOf (pairs : List (CStr × CStr)) : AprHash CStr :=
  pairs.foldl (fun t p => t.insert p.1 p.2) ∅

theorem tableOf_append_singleton (pairs : List (CStr × CStr)) (p : CStr × CStr) :
    tableOf (pairs ++ [p]) = (tableOf pairs).insert p.1 p.2 := by
  rw [tableOf, List.foldl_append]
  rfl

theorem bound_append (T : TableId) (ds es : List Directive) :
    bound T (ds ++ es) = bound T ds ++ bound T es := List.filterMap_append

theorem bound_singleton_of_binding {d : Directive} {T : TableId} {p : CStr × CStr}
    (h : d.binding = some (T, p)) (T' : TableId) : bound T' [d] = if T = T' then [p] else [] := by
  have hpair : d.pairFor T' = if T = T' then some p else none := by
    rw [Directive.pairFor, h, Option.bind_some]
  by_cases hT : T = T'
  · rw [if_pos hT] at hpair ⊢
    rw [bound, List.filterMap_cons_some hpair, List.filterMap_nil]
  · rw [if_neg hT] at hpair ⊢
    rw [bound, List.filterMap_cons_none hpair, List.filterMap_nil]

theorem bound_singleton_of_binding_none {d : Directive} (h : d.binding = none) (T : TableId) :
    bound T [d] = [] := by
  have hpair : d.pairFor T = none := by rw [Directive.pairFor, h, Option.bind_none]
  rw [bound, List.filterMap_cons_none hpair, List.filterMap_nil]

/-- Every directive either appends to a list or writes to a table. -/
theorem Directive.target_or_binding (d : Directive) :
    (∃ L name, d.target = some (L, name) ∧ d.binding = none) ∨
      ∃ T p, d.target = none ∧ d.binding = some (T, p) := by
  cases d with
  | inSection s cmd =>
    cases cmd with
    | addCPPHandler name => exact Or.inl ⟨_, _, rfl, rfl⟩
    | addCPPInputFilter name => exact Or.inl ⟨_, _, rfl, rfl⟩
    | addCPPOutputFilter name => exact Or.inl ⟨_, _, rfl, rfl⟩
    | passCPPVar name value => exact Or.inr ⟨_, _, rfl, rfl⟩
  | inServer v cmd =>
    cases cmd with
    | loadCPPHandler name path => exact Or.inr ⟨_, _, rfl, rfl⟩
    | addCPPConnectionInputFilter name => exact Or.inl ⟨_, _, rfl, rfl⟩
    | addCPPConnectionOutputFilter name => exact Or.inl ⟨_, _, rfl, rfl⟩
    | addCPPProtocol name => exact Or.inl ⟨_, _, rfl, rfl⟩
    | passCPPServerVar name value => exact Or.inr ⟨_, _, rfl, rfl⟩

/-! ### One directive, described by its target or its binding -/

/-- Replace the array of a list. -/
def Config.setList (cfg : Config) (L : ListId) (arr : Option NameSlots) : Config :=
  match L with
  | .ofSection s .handlers =>
      { cfg with sections := Function.update cfg.sections s
                  { cfg.sections s with handlers := arr } }
  | .ofSection s .inputFilters =>
      { cfg with sections := Function.update cfg.sections s
                  { cfg.sections s with inputFilters := arr } }
  | .ofSection s .outputFilters =>
      { cfg with sections := Function.update cfg.sections s
                  { cfg.sections s with outputFilters := arr } }
  | .ofServer v .protocolHandlers =>
      { cfg with servers := Function.update cfg.servers v
                  { cfg.servers v with protocolHandlers := arr } }
  | .ofServer v .inputFilters =>
      { cfg with servers := Function.update cfg.servers v
                  { cfg.servers v with inputFilters := arr } }
  | .ofServer v .outputFilters =>
      { cfg with servers := Function.update cfg.servers v
                  { cfg.servers v with outputFilters := arr } }

/-- Replace a table. -/
def Config.setTable (cfg : Config) (T : TableId) (t : AprHash CStr) : Config :=
  match T with
  | .sectionVars s =>
      { cfg with sections := Function.update cfg.sections s
                  { cfg.sections s with varHash := some t } }
  | .serverVars v =>
      { cfg with servers := Function.update cfg.servers v
                  { cfg.servers v with varHash := t } }
  | .paths v =>
      { cfg with servers := Function.update cfg.servers v
                  { cfg.servers v with handlerPathHash := t } }

/-- A server record as the configuration leaves it: no instances yet. -/
structure Unspawned (serverRec : CppServerRec) : Prop where
  handlerHash : serverRec.handlerHash = ∅
  inputFilterHash : serverRec.inputFilterHash = ∅
  outputFilterHash : serverRec.outputFilterHash = ∅
  protocolHash : serverRec.protocolHash = ∅

theorem list_setList (cfg : Config) (L : ListId) (arr : Option NameSlots) (L' : ListId) :
    (cfg.setList L arr).list L' = if L' = L then arr else cfg.list L' := by
  rcases L with ⟨s, _ | _ | _⟩ | ⟨v, _ | _ | _⟩ <;>
    rcases L' with ⟨s', _ | _ | _⟩ | ⟨v', _ | _ | _⟩ <;>
    simp only [Config.setList, Config.list, Function.update_apply, CppConfigRec.list,
      CppServerRec.list, ListId.ofSection.injEq, ListId.ofServer.injEq, and_true, and_false,
      reduceCtorEq, if_false] <;>
    split <;> simp_all

theorem table_setList (cfg : Config) (L : ListId) (arr : Option NameSlots) (T : TableId) :
    (cfg.setList L arr).table T = cfg.table T := by
  rcases L with ⟨s, _ | _ | _⟩ | ⟨v, _ | _ | _⟩ <;> cases T <;>
    simp only [Config.setList, Config.table, Function.update_apply] <;>
    split <;> simp_all

theorem table_setTable (cfg : Config) (T : TableId) (t : AprHash CStr) (T' : TableId) :
    (cfg.setTable T t).table T' = if T' = T then some t else cfg.table T' := by
  cases T <;> cases T' <;>
    simp only [Config.setTable, Config.table, Function.update_apply, TableId.sectionVars.injEq,
      TableId.serverVars.injEq, TableId.paths.injEq, reduceCtorEq, if_false] <;>
    split <;> simp_all

theorem list_setTable (cfg : Config) (T : TableId) (t : AprHash CStr) (L : ListId) :
    (cfg.setTable T t).list L = cfg.list L := by
  cases T <;> rcases L with ⟨s, _ | _ | _⟩ | ⟨v, _ | _ | _⟩ <;>
    simp only [Config.setTable, Config.list, Function.update_apply, CppConfigRec.list,
      CppServerRec.list] <;>
    split <;> simp_all

theorem unspawned_setList {cfg : Config} {v : ℕ} (h : Unspawned (cfg.servers v)) (L : ListId)
    (arr : Option NameSlots) : Unspawned ((cfg.setList L arr).servers v) := by
  rcases L with ⟨s, _ | _ | _⟩ | ⟨w, _ | _ | _⟩ <;>
    simp only [Config.setList, Function.update_apply] <;>
    first
      | exact h
      | (split
         · next hv => subst hv; exact ⟨h.1, h.2, h.3, h.4⟩
         · exact h)

theorem unspawned_setTable {cfg : Config} {v : ℕ} (h : Unspawned (cfg.servers v)) (T : TableId)
    (t : AprHash CStr) : Unspawned ((cfg.setTable T t).servers v) := by
  cases T <;> simp only [Config.setTable, Function.update_apply] <;>
    first
      | exact h
      | (split
         · next hv => subst hv; exact ⟨h.1, h.2, h.3, h.4⟩
         · exact h)

/-- A directive with a target is `addName` on its list, and a registration if the
name was taken. -/
theorem Directive.exec_of_target {d : Directive} {L : ListId} {name : CStr}
    (h : d.target = some (L, name)) {cfg : Config} {message : Option String}
    {arr : Option NameSlots} (ha : addName L.tooMany (cfg.list L) name = .ok (message, arr)) :
    d.exec cfg = .ok (message, { cfg.setList L arr with
      registrations := cfg.registrations ++ if message.isNone then L.registers name else [] }) := by
  cases d with
  | inSection s cmd =>
    cases cmd <;> simp only [target, Option.some.injEq, Prod.mk.injEq, reduceCtorEq] at h <;>
      (obtain ⟨rfl, rfl⟩ := h) <;>
      simp only [ListId.tooMany, Config.list, CppConfigRec.list] at ha <;>
      simp only [exec, DirCmd.exec, addDirHandler, addDirInputFilter, addDirOutputFilter, ha] <;>
      cases message <;> rfl
  | inServer v cmd =>
    cases cmd <;> simp only [target, Option.some.injEq, Prod.mk.injEq, reduceCtorEq] at h <;>
      (obtain ⟨rfl, rfl⟩ := h) <;>
      simp only [ListId.tooMany, Config.list, CppServerRec.list] at ha <;>
      simp only [exec, SrvCmd.exec, addProtocolHandler, addConnInputFilter, addConnOutputFilter,
        ha] <;>
      cases message <;> rfl

/-- A directive with a binding sets it. -/
theorem Directive.exec_of_binding {d : Directive} {T : TableId} {p : CStr × CStr}
    (h : d.binding = some (T, p)) {cfg : Config} {t : AprHash CStr} (ht : cfg.table T = some t) :
    d.exec cfg = .ok (none, cfg.setTable T (t.insert p.1 p.2)) := by
  cases d with
  | inSection s cmd =>
    cases cmd <;> simp only [binding, Option.some.injEq, Prod.mk.injEq, reduceCtorEq] at h
    obtain ⟨rfl, rfl⟩ := h
    simp only [Config.table] at ht
    simp only [exec, DirCmd.exec, passVar, ht]
    simp [Config.setTable, bind, Except.bind, pure, Except.pure]
  | inServer v cmd =>
    cases cmd <;> simp only [binding, Option.some.injEq, Prod.mk.injEq, reduceCtorEq] at h <;>
      (obtain ⟨rfl, rfl⟩ := h) <;>
      (simp only [Config.table, Option.some.injEq] at ht; subst ht) <;>
      simp [exec, SrvCmd.exec, addHandler, passServerVar, Config.setTable, bind, Except.bind, pure,
        Except.pure]

end ModCplusplus
