import Mathlib.Data.List.AList
import ModCplusplus.CTypes
import ModCplusplus.General.Memory
import ModCplusplus.General.Slots

/-!
# Configuration records and directives

The two records of the module — one per section, one per server — as they are
created, merged and filled by the configuration directives.

A `char **` field is NULL or points to an array of `MAX_HANDLERS` slots, and a
hash table is a finite map from names whose iteration order nobody relies on.
The six directives that add a name share one loop; each names its own array, its
own message and, for filters, the type it registers the name with.

## Main definitions

* `CppServerRec`, `CppConfigRec` — `cpp_server_rec` and `cpp_config_rec`.
* `createCppConfig`, `createCppServerConfig`, `mergeCppConfig`.
* `addName` — the loop the six `Add…` directives share.
* `whileSlots` — the loop of everything that walks a name list.
* `addDirHandler`, …, `addHandler`, `passVar`, `passServerVar` — the command
  functions of `cpp_cmds`.
-/

namespace ModCplusplus

/-- `MAX_HANDLERS`. -/
def maxHandlers : ℕ := 20

theorem maxHandlers_pos : 0 < maxHandlers := by decide

/-- The classes a shared object can provide instances of. -/
inductive Kind where
  | handler
  | inputFilter
  | outputFilter
  | protocol
  deriving DecidableEq, Repr

/-- A non-null pointer to an instance. -/
structure Ptr (k : Kind) where
  addr : ℕ
  deriving DecidableEq, Repr

/-- `ApacheHandler *`. -/
abbrev ApacheHandler := Ptr .handler

/-- `ApacheInputFilter *`. -/
abbrev ApacheInputFilter := Ptr .inputFilter

/-- `ApacheOutputFilter *`. -/
abbrev ApacheOutputFilter := Ptr .outputFilter

/-- `ApacheProtocol *`. -/
abbrev ApacheProtocol := Ptr .protocol

/-- `apr_hash_t *` with C strings as keys: `apr_hash_get` is `AList.lookup`,
`apr_hash_set` with a non-null value is `AList.insert`. -/
abbrev AprHash (α : Type) := AList (fun _ : CStr => α)

/-- The array behind a `char **` field. -/
abbrev NameSlots := SlotArray maxHandlers CStr

/-- `cpp_server_rec`. -/
structure CppServerRec where
  -- the instances a child spawned
  handlerHash : AprHash ApacheHandler
  inputFilterHash : AprHash ApacheInputFilter
  outputFilterHash : AprHash ApacheOutputFilter
  protocolHash : AprHash ApacheProtocol
  -- what the directives left behind: paths to load, and the three name lists
  handlerPathHash : AprHash CStr
  protocolHandlers : Option NameSlots
  inputFilters : Option NameSlots
  outputFilters : Option NameSlots
  varHash : AprHash CStr

/-- `cpp_config_rec`. -/
structure CppConfigRec where
  handlers : Option NameSlots
  inputFilters : Option NameSlots
  outputFilters : Option NameSlots
  varHash : Option (AprHash CStr)

/-! ### Creation and merging -/

/-- The array `apr_pcalloc( p, sizeof(char *) * MAX_HANDLERS )`. -/
def pcallocSlots : Option NameSlots := some (SlotArray.blank maxHandlers CStr)

/-- `create_cpp_config`. -/
def createCppConfig : CppConfigRec where
  varHash := some ∅
  handlers := pcallocSlots
  inputFilters := pcallocSlots
  outputFilters := pcallocSlots

/-- `create_cpp_server_config`. -/
def createCppServerConfig : CppServerRec where
  handlerHash := ∅
  handlerPathHash := ∅
  varHash := ∅
  inputFilterHash := ∅
  outputFilterHash := ∅
  protocolHash := ∅
  inputFilters := pcallocSlots
  outputFilters := pcallocSlots
  protocolHandlers := pcallocSlots

/-- `PLUS_INHERIT`: the field of the child unless it is NULL. -/
def plusInherit {α : Type} (parent child : Option α) : Option α :=
  if child.isSome then child else parent

/-- `merge_cpp_config`. -/
def mergeCppConfig (parent child : CppConfigRec) : CppConfigRec where
  varHash := plusInherit parent.varHash child.varHash
  handlers := plusInherit parent.handlers child.handlers
  inputFilters := plusInherit parent.inputFilters child.inputFilters
  outputFilters := plusInherit parent.outputFilters child.outputFilters

/-! ### Filter registration -/

/-- The direction a filter works in. -/
inductive Direction where
  | input
  | output
  deriving DecidableEq, Repr

/-- The filter types the module registers with. -/
inductive FType where
  | resource
  | connection
  deriving DecidableEq, Repr

/-- A call of `ap_register_input_filter` with `cpp_call_input_filter`, or of
`ap_register_output_filter` with `cpp_call_output_filter`. -/
structure Registration where
  direction : Direction
  name : CStr
  ftype : FType
  deriving DecidableEq, Repr

/-! ### The command functions -/

/-- What a command function does: the message it returns, the record it leaves,
and the filters it registers. -/
structure CmdResult (γ : Type) where
  -- the `const char *` returned, NULL on success
  message : Option String
  config : γ
  registered : List Registration := []

/-- The loop of the `Add…` directives: step to the first NULL slot and store the
name there, or give up with the message once the counter reaches
`MAX_HANDLERS`. -/
def addName (message : String) (arr : Option NameSlots) (name : CStr) :
    Except Fault (Option String × Option NameSlots) :=
  match arr with
  | none => .error .nullDeref
  | some xs =>
      match seekNull maxHandlers xs.cells 0 with
      | .overrun i => .error (.outOfBounds i)
      | .full => .ok (some message, some xs)
      | .found i => .ok (none, some (xs.store i name))

/-- `add_dir_handler`. -/
def addDirHandler (cmdRec : CppConfigRec) (name : CStr) :
    Except Fault (CmdResult CppConfigRec) := do
  let (message, handlers) ←
    addName "Too Many Handlers!! Couldn't add handler" cmdRec.handlers name
  return { message, config := { cmdRec with handlers } }

/-- `add_dir_input_filter`. -/
def addDirInputFilter (cmdRec : CppConfigRec) (name : CStr) :
    Except Fault (CmdResult CppConfigRec) := do
  let (message, inputFilters) ←
    addName "Too Many Handlers!! Couldn't add input filter" cmdRec.inputFilters name
  return { message, config := { cmdRec with inputFilters },
           registered := if message.isNone then [⟨.input, name, .resource⟩] else [] }

/-- `add_dir_output_filter`. -/
def addDirOutputFilter (cmdRec : CppConfigRec) (name : CStr) :
    Except Fault (CmdResult CppConfigRec) := do
  let (message, outputFilters) ←
    addName "Too Many Handlers!! Couldn't add output filter" cmdRec.outputFilters name
  return { message, config := { cmdRec with outputFilters },
           registered := if message.isNone then [⟨.output, name, .resource⟩] else [] }

/-- `add_conn_input_filter`. -/
def addConnInputFilter (serverRec : CppServerRec) (name : CStr) :
    Except Fault (CmdResult CppServerRec) := do
  let (message, inputFilters) ←
    addName "Too Many Handlers!! Couldn't add input filter" serverRec.inputFilters name
  return { message, config := { serverRec with inputFilters },
           registered := if message.isNone then [⟨.input, name, .connection⟩] else [] }

/-- `add_conn_output_filter`. -/
def addConnOutputFilter (serverRec : CppServerRec) (name : CStr) :
    Except Fault (CmdResult CppServerRec) := do
  let (message, outputFilters) ←
    addName "Too Many Handlers!! Couldn't add output filter" serverRec.outputFilters name
  return { message, config := { serverRec with outputFilters },
           registered := if message.isNone then [⟨.output, name, .connection⟩] else [] }

/-- `add_protocol_handler`. -/
def addProtocolHandler (serverRec : CppServerRec) (name : CStr) :
    Except Fault (CmdResult CppServerRec) := do
  let (message, protocolHandlers) ←
    addName "Too Many Handlers!! Couldn't add protocol handler" serverRec.protocolHandlers name
  return { message, config := { serverRec with protocolHandlers } }

/-- `add_handler`. -/
def addHandler (serverRec : CppServerRec) (name pathToSo : CStr) : CmdResult CppServerRec where
  message := none
  config := { serverRec with handlerPathHash := serverRec.handlerPathHash.insert name pathToSo }

/-- `pass_server_var`. -/
def passServerVar (serverRec : CppServerRec) (name value : CStr) : CmdResult CppServerRec where
  message := none
  config := { serverRec with varHash := serverRec.varHash.insert name value }

/-- `pass_var`. -/
def passVar (cmdRec : CppConfigRec) (name value : CStr) :
    Except Fault (CmdResult CppConfigRec) :=
  match cmdRec.varHash with
  | none => .error .nullDeref
  | some vars =>
      .ok { message := none, config := { cmdRec with varHash := some (vars.insert name value) } }

/-! ### The loop on an array that holds a list of names -/

/-- A `char **` field points to an array holding exactly the names `l`. -/
def HoldsNames (arr : Option NameSlots) (l : List CStr) : Prop := ∃ xs, arr = some xs ∧ xs.Holds l

theorem holdsNames_pcalloc : HoldsNames pcallocSlots [] := ⟨_, rfl, SlotArray.holds_blank⟩

theorem HoldsNames.length_le {arr : Option NameSlots} {l : List CStr} (h : HoldsNames arr l) :
    l.length ≤ maxHandlers := by
  obtain ⟨xs, -, hxs⟩ := h
  exact hxs.length_le

/-- **There is room**: the name is appended. -/
theorem addName_of_lt {arr : Option NameSlots} {l : List CStr} (h : HoldsNames arr l)
    (hl : l.length < maxHandlers) (message : String) (name : CStr) :
    ∃ arr', addName message arr name = .ok (none, arr') ∧ HoldsNames arr' (l ++ [name]) := by
  obtain ⟨xs, rfl, hxs⟩ := h
  have hseek := hxs.seekNull_eq maxHandlers_pos
  rw [if_neg (by omega)] at hseek
  exact ⟨some (xs.store l.length name), by simp only [addName, hseek],
    xs.store l.length name, rfl, hxs.store hl name⟩

/-- **There is no room**: the message is returned and the array left alone. -/
theorem addName_of_full {arr : Option NameSlots} {l : List CStr} (h : HoldsNames arr l)
    (hl : l.length = maxHandlers) (message : String) (name : CStr) :
    addName message arr name = .ok (some message, arr) := by
  obtain ⟨xs, rfl, hxs⟩ := h
  have hseek := hxs.seekNull_eq maxHandlers_pos
  rw [if_pos hl] at hseek
  simp only [addName, hseek]

/-! ### The loops that walk a name list -/

/-- `while( cur != NULL && *cur != NULL ) { … cur++; }` from the start of the
array a `char **` field points to. -/
def whileSlots {σ : Type} (arr : Option NameSlots) (visit : σ → CStr → σ × Bool) (s : σ) : Walk σ :=
  match arr with
  | none => ⟨s, [], false⟩
  | some xs => walk visit xs.cells 0 s

section

variable {σ : Type} {arr : Option NameSlots} {l : List CStr}

theorem HoldsNames.whileSlots_state (h : HoldsNames arr l) (visit : σ → CStr → σ × Bool) (s : σ) :
    (whileSlots arr visit s).state = foldUntil visit l s := by
  obtain ⟨xs, rfl, hxs⟩ := h
  exact walk_state hxs visit s

theorem HoldsNames.whileSlots_overrun (h : HoldsNames arr l) (hl : l.length < maxHandlers)
    (visit : σ → CStr → σ × Bool) (s : σ) : (whileSlots arr visit s).overrun = false := by
  obtain ⟨xs, rfl, hxs⟩ := h
  exact walk_overrun hxs hl visit s

theorem HoldsNames.lt_of_mem_reads (h : HoldsNames arr l) (hl : l.length < maxHandlers)
    (visit : σ → CStr → σ × Bool) (s : σ) {j : ℕ} (hj : j ∈ (whileSlots arr visit s).reads) :
    j < maxHandlers := by
  obtain ⟨xs, rfl, hxs⟩ := h
  exact lt_of_mem_reads_walk hxs hl visit s hj

theorem HoldsNames.mem_reads_of_full (h : HoldsNames arr l) (hl : l.length = maxHandlers)
    {visit : σ → CStr → σ × Bool} (hv : ∀ s a, (visit s a).2 = false) (s : σ) :
    maxHandlers ∈ (whileSlots arr visit s).reads := by
  obtain ⟨xs, rfl, hxs⟩ := h
  exact mem_reads_walk_of_full hxs hl hv s

end

end ModCplusplus
