import ModCplusplus.General.FirstAnswer
import ModCplusplus.Runs

/-!
# Dispatch of request phases and connections

Every request phase walks the handler names of its section, looks each one up
among the handlers of the server and calls the method of the phase, until one
does not decline; `process_connection` does the same with the protocol names of
the server.  The loops differ at a name that has no instance: the request phases
set the result to `DECLINED` there, `process_connection` leaves it as it is.

What the methods do is arbitrary: a call maps the state of the world to a result
and a new state.

## Main definitions

* `Phase`, `callReqFunction`, `cppCallHandler`, … — `CALL_REQ_FUNCTION` and the
  functions made from it; `cppCall` picks one by its phase.
* `getHandler`, `cppCallProcessConnection`.

## Main results

* `callReqFunction_state`, `cppCallProcessConnection_state` — each loop computes
  the first answer among the instances found.
* `AsksFound.result_eq` — the two loops agree on the same input.
* `dispatch_first_answer` — dispatch after any run of directives.
-/

namespace ModCplusplus

/-- `DECLINED`. -/
def declined : ℤ := -1

/-- The phases of a request `CALL_REQ_FUNCTION` is used for, by method. -/
inductive Phase where
  | handler
  | fixups
  | postReadRequest
  | translateName
  | headerParser
  | accessChecker
  | authChecker
  | checkUserId
  | typeChecker
  | logger
  deriving DecidableEq, Repr

/-- What a `request_rec` leads to: the record of its section and the record of
its server. -/
structure RequestRec where
  perDirConfig : CppConfigRec
  serverConfig : CppServerRec

variable {σ : Type}

/-- The behaviour of the virtual methods of `ApacheHandler` on the request in
hand. -/
abbrev Methods (σ : Type) := Phase → ApacheHandler → σ → ℤ × σ

/-- `get_handler`. -/
def getHandler (r : RequestRec) (name : Option CStr) : Option ApacheHandler :=
  match name with
  | none => none
  | some name => r.serverConfig.handlerHash.lookup name

/-- `CALL_REQ_FUNCTION`. -/
def callReqFunction (method : ApacheHandler → σ → ℤ × σ) (r : RequestRec) (w : σ) :
    Walk (Answer ApacheHandler ℤ σ) :=
  whileSlots r.perDirConfig.handlers
    (fun s name =>
      let s' : Answer ApacheHandler ℤ σ :=
        match getHandler r (some name) with
        | none => { s with result := declined }
        | some handler =>
            ⟨(method handler s.world).1, s.asked ++ [(handler, (method handler s.world).1)],
              (method handler s.world).2⟩
      (s', decide (s'.result ≠ declined)))
    ⟨declined, [], w⟩

/-- `cpp_call_handler`. -/
def cppCallHandler (methods : Methods σ) (r : RequestRec) (w : σ) :
    Walk (Answer ApacheHandler ℤ σ) := callReqFunction (methods .handler) r w

/-- `cpp_call_fixups`. -/
def cppCallFixups (methods : Methods σ) (r : RequestRec) (w : σ) :
    Walk (Answer ApacheHandler ℤ σ) := callReqFunction (methods .fixups) r w

/-- `cpp_call_post_read_request`. -/
def cppCallPostReadRequest (methods : Methods σ) (r : RequestRec) (w : σ) :
    Walk (Answer ApacheHandler ℤ σ) := callReqFunction (methods .postReadRequest) r w

/-- `cpp_call_translate_name`. -/
def cppCallTranslateName (methods : Methods σ) (r : RequestRec) (w : σ) :
    Walk (Answer ApacheHandler ℤ σ) := callReqFunction (methods .translateName) r w

/-- `cpp_call_header_parser`. -/
def cppCallHeaderParser (methods : Methods σ) (r : RequestRec) (w : σ) :
    Walk (Answer ApacheHandler ℤ σ) := callReqFunction (methods .headerParser) r w

/-- `cpp_call_access_checker`. -/
def cppCallAccessChecker (methods : Methods σ) (r : RequestRec) (w : σ) :
    Walk (Answer ApacheHandler ℤ σ) := callReqFunction (methods .accessChecker) r w

/-- `cpp_call_auth_checker`. -/
def cppCallAuthChecker (methods : Methods σ) (r : RequestRec) (w : σ) :
    Walk (Answer ApacheHandler ℤ σ) := callReqFunction (methods .authChecker) r w

/-- `cpp_call_check_user_id`. -/
def cppCallCheckUserId (methods : Methods σ) (r : RequestRec) (w : σ) :
    Walk (Answer ApacheHandler ℤ σ) := callReqFunction (methods .checkUserId) r w

/-- `cpp_call_type_checker`. -/
def cppCallTypeChecker (methods : Methods σ) (r : RequestRec) (w : σ) :
    Walk (Answer ApacheHandler ℤ σ) := callReqFunction (methods .typeChecker) r w

/-- `cpp_call_logger`. -/
def cppCallLogger (methods : Methods σ) (r : RequestRec) (w : σ) :
    Walk (Answer ApacheHandler ℤ σ) := callReqFunction (methods .logger) r w

/-- The function of a phase. -/
def cppCall : Phase → Methods σ → RequestRec → σ → Walk (Answer ApacheHandler ℤ σ)
  | .handler => cppCallHandler
  | .fixups => cppCallFixups
  | .postReadRequest => cppCallPostReadRequest
  | .translateName => cppCallTranslateName
  | .headerParser => cppCallHeaderParser
  | .accessChecker => cppCallAccessChecker
  | .authChecker => cppCallAuthChecker
  | .checkUserId => cppCallCheckUserId
  | .typeChecker => cppCallTypeChecker
  | .logger => cppCallLogger

/-- Every phase calls its own method. -/
theorem cppCall_eq (phase : Phase) (methods : Methods σ) (r : RequestRec) (w : σ) :
    cppCall phase methods r w = callReqFunction (methods phase) r w := by cases phase <;> rfl

/-- `cpp_call_process_connection`, on the record of the connection's server. -/
def cppCallProcessConnection (processConnection : ApacheProtocol → σ → ℤ × σ)
    (serverRec : CppServerRec) (w : σ) : Walk (Answer ApacheProtocol ℤ σ) :=
  whileSlots serverRec.protocolHandlers
    (fun s name =>
      let s' : Answer ApacheProtocol ℤ σ :=
        match serverRec.protocolHash.lookup name with
        | none => s
        | some protocol =>
            ⟨(processConnection protocol s.world).1,
              s.asked ++ [(protocol, (processConnection protocol s.world).1)],
              (processConnection protocol s.world).2⟩
      (s', decide (s'.result ≠ declined)))
    ⟨declined, [], w⟩

/-! ### Both loops compute the first answer -/

/-- **A request phase asks the handlers found**, in the order of their names. -/
theorem callReqFunction_state {r : RequestRec} {names : List CStr}
    (h : HoldsNames r.perDirConfig.handlers names) (method : ApacheHandler → σ → ℤ × σ) (w : σ) :
    (callReqFunction method r w).state
      = firstAnswer method declined (names.filterMap fun n => r.serverConfig.handlerHash.lookup n)
          w := by
  rw [callReqFunction, h.whileSlots_state]
  rw [foldUntil_lookup method declined fun n => r.serverConfig.handlerHash.lookup n]
  · rfl
  · -- an unknown name sets a result that was `DECLINED` already
    intro s a hfind hs
    simp only [getHandler, hfind]
    rw [← hs]
    simp
  · intro s a handler hfind
    simp only [getHandler, hfind]
  · rfl

/-- **`process_connection` asks the protocols found**, in the order of their
names: the result it carries across an unknown name is `DECLINED`, since the loop
has gone on. -/
theorem cppCallProcessConnection_state {serverRec : CppServerRec} {names : List CStr}
    (h : HoldsNames serverRec.protocolHandlers names)
    (processConnection : ApacheProtocol → σ → ℤ × σ) (w : σ) :
    (cppCallProcessConnection processConnection serverRec w).state
      = firstAnswer processConnection declined
          (names.filterMap fun n => serverRec.protocolHash.lookup n) w := by
  rw [cppCallProcessConnection, h.whileSlots_state]
  rw [foldUntil_lookup processConnection declined fun n => serverRec.protocolHash.lookup n]
  · rfl
  · intro s a hfind hs
    simp [hfind, hs]
  · intro s a protocol hfind
    simp only [hfind]
  · rfl

/-- **A walk asks the instances found**: it stays inside its array, and asks them in
order until one answers. -/
structure AsksFound {H : Type} (ask : H → σ → ℤ × σ) (found : List H) (w : σ)
    (out : Walk (Answer H ℤ σ)) : Prop where
  inside : out.overrun = false
  state : out.state = firstAnswer ask declined found w
  firstWins : FirstWins declined found out.state

theorem AsksFound.of_state {H : Type} {ask : H → σ → ℤ × σ} {found : List H} {w : σ}
    {out : Walk (Answer H ℤ σ)} (hinside : out.overrun = false)
    (hstate : out.state = firstAnswer ask declined found w) : AsksFound ask found w out where
  inside := hinside
  state := hstate
  firstWins := by
    rw [hstate]
    exact firstWins_firstAnswer ask declined found w

/-- A request phase, on a list with a terminator. -/
theorem cppCall_asksFound {r : RequestRec} {names : List CStr}
    (h : HoldsNames r.perDirConfig.handlers names) (hlt : names.length < maxHandlers)
    (phase : Phase) (methods : Methods σ) (w : σ) :
    AsksFound (methods phase) (names.filterMap fun n => r.serverConfig.handlerHash.lookup n) w
      (cppCall phase methods r w) := by
  rw [cppCall_eq]
  exact .of_state (h.whileSlots_overrun hlt _ _) (callReqFunction_state h (methods phase) w)

/-- A connection, on a list with a terminator. -/
theorem cppCallProcessConnection_asksFound {serverRec : CppServerRec} {names : List CStr}
    (h : HoldsNames serverRec.protocolHandlers names) (hlt : names.length < maxHandlers)
    (processConnection : ApacheProtocol → σ → ℤ × σ) (w : σ) :
    AsksFound processConnection (names.filterMap fun n => serverRec.protocolHash.lookup n) w
      (cppCallProcessConnection processConnection serverRec w) :=
  .of_state (h.whileSlots_overrun hlt _ _) (cppCallProcessConnection_state h processConnection w)

/-- **The two loops agree** on names, tables and answers that correspond. -/
theorem AsksFound.result_eq {H P : Type} {ask : H → σ → ℤ × σ} {ask' : P → σ → ℤ × σ}
    {found : List H} {w : σ} {out : Walk (Answer H ℤ σ)} {out' : Walk (Answer P ℤ σ)} (f : H → P)
    (h : AsksFound ask found w out) (h' : AsksFound ask' (found.map f) w out')
    (hask : ∀ a w, ask' (f a) w = ask a w) : out'.state.result = out.state.result := by
  rw [h.state, h'.state]
  exact (firstAnswer_map f ask ask' declined hask found w).1

/-- **Dispatch after any run of directives.**  A phase of a request whose record has
the handlers of section `s`, and a connection of server `v`, ask the instances found
under the names of their list, in order, until one answers, if that list was given
fewer than `MAX_HANDLERS` names; and the two loops return the same result when
names, tables and answers correspond. -/
theorem dispatch_first_answer (ds : List Directive) :
    ∃ messages cfg, configure ds Config.start = .ok (messages, cfg) ∧
      ∀ (s v : ℕ) (dir : CppConfigRec) (host child : CppServerRec) (phase : Phase)
        (methods : Methods σ) (processConnection : ApacheProtocol → σ → ℤ × σ) (w : σ),
        dir.handlers = (cfg.sections s).handlers →
        child.protocolHandlers = (cfg.servers v).protocolHandlers →
        let names := given (.ofSection s .handlers) ds
        let protocolNames := given (.ofServer v .protocolHandlers) ds
        let request := cppCall phase methods ⟨dir, host⟩ w
        let connection := cppCallProcessConnection processConnection child w
        (names.length < maxHandlers → AsksFound (methods phase)
          (names.filterMap fun n => host.handlerHash.lookup n) w request) ∧
        (protocolNames.length < maxHandlers → AsksFound processConnection
          (protocolNames.filterMap fun n => child.protocolHash.lookup n) w connection) ∧
        (names.length < maxHandlers → protocolNames = names →
          ∀ toProtocol : ApacheHandler → ApacheProtocol,
            (∀ n, child.protocolHash.lookup n = (host.handlerHash.lookup n).map toProtocol) →
            (∀ h w, processConnection (toProtocol h) w = methods phase h w) →
            connection.state.result = request.state.result) := by
  obtain ⟨cfg, hrun, hr⟩ := configure_start ds
  refine ⟨_, cfg, hrun, ?_⟩
  intro s v dir host child phase methods processConnection w hdir hchild names protocolNames
    request connection
  have hrequest : names.length < maxHandlers → AsksFound (methods phase)
      (names.filterMap fun n => host.handlerHash.lookup n) w request := by
    intro hlt
    have hnames : HoldsNames dir.handlers names := by
      rw [hdir]
      exact hr.holdsNames_given hlt
    exact cppCall_asksFound (r := ⟨dir, host⟩) hnames hlt phase methods w
  have hconnection : protocolNames.length < maxHandlers → AsksFound processConnection
      (protocolNames.filterMap fun n => child.protocolHash.lookup n) w connection := by
    intro hlt
    have hnames : HoldsNames child.protocolHandlers protocolNames := by
      rw [hchild]
      exact hr.holdsNames_given hlt
    exact cppCallProcessConnection_asksFound hnames hlt processConnection w
  refine ⟨hrequest, hconnection, ?_⟩
  intro hlt hnames toProtocol htables hanswers
  have hfound : (protocolNames.filterMap fun n => child.protocolHash.lookup n)
      = (names.filterMap fun n => host.handlerHash.lookup n).map toProtocol := by
    rw [hnames, List.map_filterMap]
    exact List.filterMap_congr fun n _ => htables n
  have hprotocols := hconnection (hnames ▸ hlt)
  rw [hfound] at hprotocols
  exact (hrequest hlt).result_eq toProtocol hprotocols hanswers

/-- Tables that correspond still do with one instance more in each. -/
theorem lookup_insert_map {H P : Type} {handlers : AprHash H} {protocols : AprHash P} {f : H → P}
    (h : ∀ n, protocols.lookup n = (handlers.lookup n).map f) (name : CStr) (a : H) (n : CStr) :
    (protocols.insert name (f a)).lookup n = ((handlers.insert name a).lookup n).map f := by
  rcases eq_or_ne n name with rfl | hne
  · rw [AList.lookup_insert, AList.lookup_insert, Option.map_some]
  · rw [AList.lookup_insert_ne hne, AList.lookup_insert_ne hne, h]

/-- Four names in a section and in a server: the first has no instance, the second
instance declines, the third answers, and the fourth is not asked. -/
theorem dispatch_first_answer_four :
    let names := [literal "a", literal "b", literal "c", literal "d"].map cStr
    let ds := names.map (fun n => Directive.inSection 0 (.addCPPHandler n)) ++
      names.map fun n => .inServer 0 (.addCPPProtocol n)
    let handlers := (((∅ : AprHash ApacheHandler).insert (cStr (literal "b")) ⟨2⟩).insert
      (cStr (literal "c")) ⟨3⟩).insert (cStr (literal "d")) ⟨4⟩
    let protocols := (((∅ : AprHash ApacheProtocol).insert (cStr (literal "b")) ⟨2⟩).insert
      (cStr (literal "c")) ⟨3⟩).insert (cStr (literal "d")) ⟨4⟩
    ∃ messages cfg, configure ds Config.start = .ok (messages, cfg) ∧
      ∀ phase,
        let request := cppCall phase
          (fun _ h calls => (if h = ⟨2⟩ then declined else 0, calls + 1))
          ⟨cfg.sections 0, { cfg.servers 0 with handlerHash := handlers }⟩ 0
        let connection := cppCallProcessConnection
          (fun p calls => (if p = ⟨2⟩ then declined else 0, calls + 1))
          { cfg.servers 0 with protocolHash := protocols } 0
        request.state = ⟨0, [(⟨2⟩, declined), (⟨3⟩, 0)], 2⟩ ∧
          connection.state = ⟨0, [(⟨2⟩, declined), (⟨3⟩, 0)], 2⟩ ∧
          connection.state.result = request.state.result := by
  intro names ds handlers protocols
  obtain ⟨messages, cfg, hrun, h⟩ := dispatch_first_answer (σ := ℕ) ds
  refine ⟨messages, cfg, hrun, fun phase => ?_⟩
  intro request connection
  obtain ⟨hrequest, hconnection, hagree⟩ := h 0 0 (cfg.sections 0)
    { cfg.servers 0 with handlerHash := handlers } { cfg.servers 0 with protocolHash := protocols }
    phase (fun _ h calls => (if h = ⟨2⟩ then declined else 0, calls + 1))
    (fun p calls => (if p = ⟨2⟩ then declined else 0, calls + 1)) 0 rfl rfl
  refine ⟨?_, ?_, ?_⟩
  · rw [(hrequest (by decide)).state]
    rfl
  · rw [(hconnection (by decide)).state]
    rfl
  · let toProtocol : ApacheHandler → ApacheProtocol := fun h => ⟨h.addr⟩
    have hempty : ∀ n, (∅ : AprHash ApacheProtocol).lookup n
        = ((∅ : AprHash ApacheHandler).lookup n).map toProtocol := fun _ => rfl
    refine hagree (by decide) rfl toProtocol ?_ fun ⟨a⟩ calls => by simp [toProtocol]
    exact lookup_insert_map (lookup_insert_map (lookup_insert_map hempty _ _) _ _) _ _

end ModCplusplus
