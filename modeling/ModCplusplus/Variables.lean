import ModCplusplus.Service

/-!
# Variables passed to handlers

`PassCPPVar` and `PassCPPServerVar` leave values that handlers look up by name, through
the merged record of the request's sections or through the record of its server.  httpd
merges the records of a request in several walks and then merges the results, so that
the order of the merges is a tree; only the innermost section counts, whatever the tree.

The handler that comes with the module uses a variable to name the one user it admits.

## Main definitions

* `getServerVar`, `getCppVar` — the lookups of `ApacheBase`.
* `SectionTree` — the merges behind the record of a request.
* `lastPassed` — the value a variable was given last.
* `AuthHandler.checkUserId`, `AuthHandler.methods` — the handler.

## Main results

* `SectionTree.record_eq` — a tree of merges is a chain.
* `variables_read` — what the lookups find.
* `auth_admits` — whom the handler admits.
-/

namespace ModCplusplus

open Multimap

/-! ### The lookups -/

/-- `ApacheBase::get_server_var`. -/
def getServerVar (serverRec : CppServerRec) (name : Option CStr) : Option CStr :=
  match name with
  | none => none
  | some name => serverRec.varHash.lookup name

/-- `ApacheBase::get_cpp_var`: neither the name nor the table may be NULL. -/
def getCppVar (dirRec : CppConfigRec) (name : Option CStr) : Except Fault (Option CStr) :=
  match name, dirRec.varHash with
  | some name, some vars => .ok (vars.lookup name)
  | _, _ => .error .nullDeref

/-- The value that a variable of the table was given last. -/
def lastPassed (ds : List Directive) (T : TableId) (name : CStr) : Option CStr :=
  (valuesOf name (bound T ds)).getLast?

/-! ### Trees of merges -/

/-- How the record of a request is merged from those of its sections, outer ones first. -/
inductive SectionTree where
  | leaf (s : ℕ)
  | merge (outer inner : SectionTree)
  deriving DecidableEq, Repr

namespace SectionTree

/-- The merged record. -/
def record (cfg : Config) : SectionTree → CppConfigRec
  | leaf s => cfg.sections s
  | merge outer inner => mergeCppConfig (outer.record cfg) (inner.record cfg)

/-- The outermost section. -/
def outermost : SectionTree → ℕ
  | leaf s => s
  | merge outer _ => outer.outermost

/-- The sections inside the outermost one. -/
def others : SectionTree → List ℕ
  | leaf _ => []
  | merge outer inner => outer.others ++ inner.outermost :: inner.others

/-- The innermost section. -/
def innermost : SectionTree → ℕ
  | leaf s => s
  | merge _ inner => inner.innermost

end SectionTree

theorem plusInherit_assoc {α : Type} (a b c : Option α) :
    plusInherit a (plusInherit b c) = plusInherit (plusInherit a b) c := by
  cases c <;> rfl

theorem mergeCppConfig_assoc (a b c : CppConfigRec) :
    mergeCppConfig (mergeCppConfig a b) c = mergeCppConfig a (mergeCppConfig b c) := by
  simp only [mergeCppConfig, plusInherit_assoc]

instance : Std.Associative mergeCppConfig := ⟨mergeCppConfig_assoc⟩

/-- **A tree of merges is a chain**, merged from the outermost section inwards. -/
theorem SectionTree.record_eq (cfg : Config) (t : SectionTree) :
    t.record cfg = mergeSections (cfg.sections t.outermost) (t.others.map cfg.sections) := by
  induction t with
  | leaf s => rfl
  | merge outer inner ihouter ihinner =>
    calc mergeCppConfig (outer.record cfg) (inner.record cfg)
        = mergeCppConfig (mergeSections (cfg.sections outer.outermost)
            (outer.others.map cfg.sections))
          (mergeSections (cfg.sections inner.outermost) (inner.others.map cfg.sections)) := by
          rw [ihouter, ihinner]
      _ = mergeSections (mergeCppConfig (mergeSections (cfg.sections outer.outermost)
            (outer.others.map cfg.sections)) (cfg.sections inner.outermost))
          (inner.others.map cfg.sections) := List.foldl_assoc.symm
      _ = mergeSections (cfg.sections outer.outermost)
          ((outer.others ++ inner.outermost :: inner.others).map cfg.sections) := by
          rw [List.map_append, List.map_cons, mergeSections, mergeSections, mergeSections,
            List.foldl_append, List.foldl_cons]

theorem SectionTree.getLast_eq (t : SectionTree) :
    (t.outermost :: t.others).getLast (List.cons_ne_nil _ _) = t.innermost := by
  induction t with
  | leaf s => rfl
  | merge outer inner _ ihinner =>
    simp only [others, outermost, innermost]
    rw [← ihinner]
    simp only [← List.cons_append]
    exact List.getLast_append_of_ne_nil _ (List.cons_ne_nil _ _)

/-! ### What the lookups find -/

theorem varHash_setInstance (serverRec : CppServerRec) (name : CStr) (k : Kind) (p : Ptr k) :
    (serverRec.setInstance name k p).varHash = serverRec.varHash := by cases k <;> rfl

section

variable {ds : List Directive} {cfg : Config} (hr : Reached ds cfg)
include hr

theorem Reached.varHash_record (t : SectionTree) :
    (t.record cfg).varHash = some (tableOf (bound (.sectionVars t.innermost) ds)) := by
  rw [t.record_eq, hr.varHash_mergeSections, t.getLast_eq]
  exact hr.tables (.sectionVars t.innermost)

theorem Reached.handlers_record (t : SectionTree) :
    HoldsNames (t.record cfg).handlers (accepted (.ofSection t.innermost .handlers) ds) := by
  have hlist := hr.list_mergeSections t.outermost t.others .handlers
  rw [← t.record_eq, t.getLast_eq] at hlist
  have hheld := hr.lists (.ofSection t.innermost .handlers)
  rwa [Config.list, ← hlist] at hheld

/-- **A section variable** is the one passed last in the innermost section. -/
theorem Reached.getCppVar_eq (t : SectionTree) (name : CStr) :
    getCppVar (t.record cfg) (some name) = .ok (lastPassed ds (.sectionVars t.innermost) name) := by
  simp only [getCppVar, hr.varHash_record t, lookup_tableOf]
  rfl

/-- **A server variable** is the one passed last to the server, also while the child loads
its handlers. -/
theorem Reached.getServerVar_eq (env : DsoEnv) (main : ℕ) (entries : List PathEntry) (v : ℕ)
    (name : CStr) :
    getServerVar ((loadEntries env main entries (Child.start cfg.servers)).servers v) (some name)
      = lastPassed ds (.serverVars v) name := by
  have htable : (cfg.servers v).varHash = tableOf (bound (.serverVars v) ds) :=
    Option.some.inj (hr.tables (.serverVars v))
  have hvars := observed_loadEntries env main varHash_setInstance v entries
    (Child.start cfg.servers)
  rw [getServerVar, hvars]
  exact (congrArg (AList.lookup name) htable).trans (lookup_tableOf _ name)

end

/-- **What variables read.**  After any run of directives, whatever sections httpd merges
for a request and in whatever order it does so, and however far a child has come with
loading its handlers: a section variable has the value passed last in the innermost
section, or none if it was passed none there, whatever the sections around it were passed;
a server variable has the value passed last to the server. -/
theorem variables_read (ds : List Directive) :
    ∃ messages cfg, configure ds Config.start = .ok (messages, cfg) ∧
      (∀ (t : SectionTree) name, getCppVar (t.record cfg) (some name)
        = .ok (lastPassed ds (.sectionVars t.innermost) name)) ∧
      ∀ (env : DsoEnv) main entries v name,
        getServerVar ((loadEntries env main entries (Child.start cfg.servers)).servers v)
            (some name)
          = lastPassed ds (.serverVars v) name := by
  obtain ⟨cfg, hrun, hr⟩ := configure_start ds
  exact ⟨_, cfg, hrun, hr.getCppVar_eq, hr.getServerVar_eq⟩

/-! ### The handler that admits one user -/

/-- `HTTP_UNAUTHORIZED`. -/
def httpUnauthorized : ℤ := 401

/-- What httpd finds out about the user of a request. -/
structure Credentials where
  -- what `ap_get_basic_auth_pw` returns
  getBasicAuthPw : ℤ
  -- the user it leaves in the request
  user : Option CStr
  deriving DecidableEq

/-- `AuthHandler::check_user_id`. -/
def AuthHandler.checkUserId (sent : Credentials) (r : RequestRec) : Except Fault ℤ := do
  let result := sent.getBasicAuthPw
  if result = ok then
    let requireUser ← getCppVar r.perDirConfig (some (cStr (literal "user")))
    match requireUser with
    | none => return result
    | some requireUser =>
        match sent.user with
        | none => return httpUnauthorized
        | some sentUser => return if sentUser ≠ requireUser then httpUnauthorized else result
  else return result

/-- The virtual methods of an `AuthHandler`, on the request in hand; the state is a fault
if one has occurred. -/
def AuthHandler.methods (sent : Credentials) (r : RequestRec) : Methods (Option Fault)
  | .checkUserId, _, fault =>
      match AuthHandler.checkUserId sent r with
      | .ok result => (result, fault)
      | .error why => (declined, some why)
  -- `auth_checker` has the answer ready, and the other methods are those of `ApacheHandler`
  | .authChecker, _, fault => (ok, fault)
  | _, _, fault => (declined, fault)

/-- The answer to a user where `required` is the one required, if any is. -/
def verdict (sent : Credentials) (required : Option CStr) : ℤ :=
  if sent.getBasicAuthPw ≠ ok then sent.getBasicAuthPw
  else if ∀ user ∈ required, sent.user = some user then ok
  else httpUnauthorized

theorem verdict_eq_ok_iff (sent : Credentials) (required : Option CStr) :
    verdict sent required = ok ↔
      sent.getBasicAuthPw = ok ∧ ∀ user ∈ required, sent.user = some user := by
  unfold verdict
  by_cases hpw : sent.getBasicAuthPw = ok
  · rw [if_neg (not_not_intro hpw), and_iff_right hpw]
    split
    · next h => exact iff_of_true rfl h
    · next h => exact iff_of_false (by decide) h
  · rw [if_pos hpw]
    exact iff_of_false hpw fun h => hpw h.1

theorem AuthHandler.checkUserId_eq {sent : Credentials} {r : RequestRec} {required : Option CStr}
    (h : getCppVar r.perDirConfig (some (cStr (literal "user"))) = .ok required) :
    checkUserId sent r = .ok (verdict sent required) := by
  unfold checkUserId verdict
  by_cases hpw : sent.getBasicAuthPw = ok
  · rw [if_pos hpw, if_neg (not_not_intro hpw), h, hpw]
    cases required with
    | none => rfl
    | some user =>
      by_cases hsame : sent.user = some user
      · have hall : ∀ user' ∈ some user, sent.user = some user' := by
          rintro _ ⟨⟩
          exact hsame
        rw [if_pos hall, hsame]
        exact congrArg Except.ok (if_neg (not_not_intro rfl))
      · rw [if_neg fun hall => hsame (hall user rfl)]
        cases huser : sent.user with
        | none => rfl
        | some sentUser =>
          apply congrArg Except.ok
          apply if_pos
          rintro rfl
          exact hsame huser
  · rw [if_neg hpw, if_pos hpw]
    rfl

/-- **Whom the handler admits.**  On a site whose handlers are all `AuthHandler`s, whatever
the directives, the sections merged for a request and the user, with room in the handler
list of the innermost section: the phase that checks the user returns the verdict on the
user that this section requires, or `DECLINED` if it names no handler of the server; so it
admits a user that httpd has found nothing wrong with if the section requires nobody,
whatever the sections around it require, and the phase does not fail. -/
theorem auth_admits (site : Site) (order : HashOrder CStr) (servers : Servers)
    (hmain : servers.main = site.main) :
    ∃ messages cfg, configure site.ds Config.start = .ok (messages, cfg) ∧
      ∀ (t : SectionTree) (v : ℕ) (sent : Credentials),
        (given (.ofSection t.innermost .handlers) site.ds).length < maxHandlers →
        let r : RequestRec := ⟨t.record cfg,
          (cppSpawnHandlers site.env order servers (Child.start cfg.servers)).servers v⟩
        let asked := cppCallCheckUserId (AuthHandler.methods sent r) r none
        let handlers := site.instances v .handler (.ofSection t.innermost .handlers)
        let required := lastPassed site.ds (.sectionVars t.innermost) (cStr (literal "user"))
        asked.overrun = false ∧ asked.state.world = none ∧
          asked.state.result = (if handlers = [] then declined else verdict sent required) ∧
          (asked.state.result = ok ↔ handlers ≠ [] ∧ sent.getBasicAuthPw = ok ∧
            ∀ user ∈ required, sent.user = some user) := by
  obtain ⟨cfg, hrun, hr⟩ := configure_start site.ds
  refine ⟨_, cfg, hrun, ?_⟩
  intro t v sent hroom r asked handlers required
  have hnames : HoldsNames r.perDirConfig.handlers
      (accepted (.ofSection t.innermost .handlers) site.ds) := hr.handlers_record t
  have hlt : (accepted (.ofSection t.innermost .handlers) site.ds).length < maxHandlers :=
    lt_of_le_of_lt (List.length_take_le' _ _) hroom
  have hfound : ((accepted (.ofSection t.innermost .handlers) site.ds).filterMap
      fun n => r.serverConfig.handlerHash.lookup n) = handlers := by
    apply List.filterMap_congr
    intro n _
    have hinstance := hr.getInstance_spawned site.env order servers site.fold v .handler n
    rw [hmain] at hinstance
    exact hinstance
  have hasks := cppCall_asksFound hnames hlt .checkUserId (AuthHandler.methods sent r) none
  rw [hfound] at hasks
  have hsays : ∀ h, AuthHandler.methods sent r .checkUserId h none
      = (verdict sent required, none) := by
    intro h
    rw [AuthHandler.methods, AuthHandler.checkUserId_eq (hr.getCppVar_eq t _)]
  have hanswer : asked.state.result = if handlers = [] then declined else verdict sent required :=
    (congrArg Answer.result hasks.state).trans (firstAnswer_of_forall hsays handlers).1
  have hworld : asked.state.world = none :=
    (congrArg Answer.world hasks.state).trans (firstAnswer_of_forall hsays handlers).2
  refine ⟨hasks.inside, hworld, hanswer, ?_⟩
  rw [hanswer]
  by_cases hnone : handlers = []
  · simp [hnone, declined, ok]
  · rw [if_neg hnone, verdict_eq_ok_iff]
    exact (and_iff_right hnone).symm

/-- A section that requires a user, and one inside it that names the handler again. -/
def guarded : Site where
  ds := [.inServer 0 (.loadCPPHandler (cStr (literal "auth")) (cStr (literal "/"))),
    .inSection 0 (.addCPPHandler (cStr (literal "auth"))),
    .inSection 0 (.passCPPVar (cStr (literal "user")) (cStr (literal "john"))),
    .inSection 1 (.addCPPHandler (cStr (literal "auth")))]
  env := handlerEnv
  main := 0
  fold := id

/-- Another user is refused in the outer section, and admitted in the inner one. -/
theorem auth_admits_guarded :
    ∃ messages cfg, configure guarded.ds Config.start = .ok (messages, cfg) ∧
      ∀ t result, (t, result) ∈ [(SectionTree.leaf 0, httpUnauthorized),
          (.merge (.leaf 0) (.leaf 1), ok)] →
        let r : RequestRec := ⟨t.record cfg, (cppSpawnHandlers handlerEnv HashOrder.stored
          ⟨0, [], List.not_mem_nil⟩ (Child.start cfg.servers)).servers 0⟩
        (cppCallCheckUserId (AuthHandler.methods ⟨ok, some (cStr (literal "jack"))⟩ r) r
          none).state.result = result := by
  obtain ⟨messages, cfg, hrun, h⟩ := auth_admits guarded HashOrder.stored
    ⟨0, [], List.not_mem_nil⟩ rfl
  refine ⟨messages, cfg, hrun, ?_⟩
  intro t result ht
  simp only [List.mem_cons, Prod.mk.injEq, List.not_mem_nil, or_false] at ht
  rcases ht with ⟨rfl, rfl⟩ | ⟨rfl, rfl⟩
  · exact (h (.leaf 0) 0 _ (by decide)).2.2.1.trans (by decide)
  · exact (h (.merge (.leaf 0) (.leaf 1)) 0 _ (by decide)).2.2.1.trans (by decide)

end ModCplusplus
