import ModCplusplus.Filters

/-!
# Terminators of the name lists

Nothing but a NULL slot ends a walk of a name list: not the loops of the request
phases, nor those that insert filters, nor `process_connection`.  The directives
append to the arrays under a counter that stops them at `MAX_HANDLERS` entries,
which is the size of the arrays, so that the last name accepted takes the place of
the terminator.

## Main definitions

* `Terminated` — every name list ends in a NULL slot.
* `WalksInside` — and everything that walks one stays inside its array.

## Main results

* `Reached.terminated_iff` — which lists are terminated after a run.
* `Reached.walksInside` — terminated lists are walked inside.
* `walks_inside_iff` — both, in terms of the directives.
-/

namespace ModCplusplus

/-- The array of every list holds a NULL slot. -/
def Terminated (cfg : Config) : Prop := ∀ L, ∃ xs, cfg.list L = some xs ∧ xs.HasNull

/-- **Walks stay inside**: every list is terminated, and a walk of a list by any
part of the module reads only slots below `MAX_HANDLERS`.  A request or a
connection may see any record whose fields are arrays of the configuration, with
whatever instances in the tables, and the methods may do anything. -/
structure WalksInside (cfg : Config) : Prop where
  terminated : Terminated cfg
  phases : ∀ (σ : Type) (phase : Phase) (methods : Methods σ) (w : σ) (s : ℕ) (r : RequestRec),
    r.perDirConfig.handlers = (cfg.sections s).handlers →
      ∀ j ∈ (cppCall phase methods r w).reads, j < maxHandlers
  requestFilters : ∀ (s t : ℕ) (r : RequestRec),
    r.perDirConfig.outputFilters = (cfg.sections s).outputFilters →
    r.perDirConfig.inputFilters = (cfg.sections t).inputFilters →
      ∀ j ∈ (cppInsertRequestFilters r).reads, j < maxHandlers
  connectionFilters : ∀ (v : ℕ) (serverRec : CppServerRec),
    SameFilterLists serverRec (cfg.servers v) →
      ∀ j ∈ (cppInsertConnectionFilters serverRec).reads, j < maxHandlers
  connections : ∀ (σ : Type) (processConnection : ApacheProtocol → σ → ℤ × σ) (w : σ) (v : ℕ)
    (serverRec : CppServerRec),
    serverRec.protocolHandlers = (cfg.servers v).protocolHandlers →
      ∀ j ∈ (cppCallProcessConnection processConnection serverRec w).reads, j < maxHandlers

section

variable {ds : List Directive} {cfg : Config}

theorem HoldsNames.hasNull_iff {arr : Option NameSlots} {l : List CStr} (h : HoldsNames arr l) :
    (∃ xs, arr = some xs ∧ xs.HasNull) ↔ l.length < maxHandlers := by
  obtain ⟨xs, rfl, hxs⟩ := h
  constructor
  · rintro ⟨ys, hys, hnull⟩
    cases hys
    exact hxs.hasNull_iff.mp hnull
  · intro hl
    exact ⟨xs, rfl, hxs.hasNull_iff.mpr hl⟩

/-- **Which lists are terminated**: those given fewer than `MAX_HANDLERS` names. -/
theorem Reached.terminated_iff (hr : Reached ds cfg) :
    Terminated cfg ↔ ∀ L, (given L ds).length < maxHandlers := by
  constructor
  · intro h L
    exact length_accepted_lt.mp ((hr.lists L).hasNull_iff.mp (h L))
  · intro h L
    exact (hr.lists L).hasNull_iff.mpr (length_accepted_lt.mpr (h L))

/-- **Terminated lists are walked inside.** -/
theorem Reached.walksInside (hr : Reached ds cfg)
    (h : ∀ L, (given L ds).length < maxHandlers) : WalksInside cfg := by
  -- one walk, of any list, by any visitor
  have hwalk : ∀ {σ : Type} (L : ListId) (visit : σ → CStr → σ × Bool) (s : σ),
      ∀ j ∈ (whileSlots (cfg.list L) visit s).reads, j < maxHandlers := fun L visit s j hj =>
    (hr.lists L).lt_of_mem_reads (length_accepted_lt.mpr (h L)) visit s hj
  refine ⟨hr.terminated_iff.mpr h, ?_, ?_, ?_, ?_⟩
  · intro σ phase methods w s r hlist j hj
    rw [cppCall_eq, callReqFunction, hlist] at hj
    exact hwalk (.ofSection s .handlers) _ _ j hj
  · intro s t r hout hin j hj
    rw [cppInsertRequestFilters, Walk.mem_reads_andThen, hout, hin] at hj
    rcases hj with hj | hj
    · exact hwalk (.ofSection s .outputFilters) _ _ j hj
    · exact hwalk (.ofSection t .inputFilters) _ _ j hj
  · intro v serverRec hsame j hj
    rw [cppInsertConnectionFilters, Walk.mem_reads_andThen, hsame.outputFilters,
      hsame.inputFilters] at hj
    rcases hj with hj | hj
    · exact hwalk (.ofServer v .outputFilters) _ _ j hj
    · exact hwalk (.ofServer v .inputFilters) _ _ j hj
  · intro σ processConnection w v serverRec hlist j hj
    rw [cppCallProcessConnection, hlist] at hj
    exact hwalk (.ofServer v .protocolHandlers) _ _ j hj

/-- A phase whose handlers all decline leaves a full array. -/
theorem Reached.phase_leaves_array {σ : Type} (hr : Reached ds cfg) {s : ℕ}
    (hfull : maxHandlers ≤ (given (.ofSection s .handlers) ds).length) (phase : Phase)
    {methods : Methods σ} (hdecline : ∀ h w, (methods phase h w).1 = declined) (host : CppServerRec)
    (w : σ) : maxHandlers ∈ (cppCall phase methods ⟨cfg.sections s, host⟩ w).reads := by
  rw [cppCall_eq]
  refine (hr.lists (.ofSection s .handlers)).mem_reads_of_full ?_ ?_ _
  · rw [accepted, List.length_take]
    omega
  · intro s' name
    cases hfind : host.handlerHash.lookup name with
    | none => simp [getHandler, hfind]
    | some handler => simp [getHandler, hfind, hdecline]

end

/-- **After any run of directives, every list is terminated and walked inside
exactly when every list was given fewer than `MAX_HANDLERS` names.** -/
theorem walks_inside_iff (ds : List Directive) :
    ∃ messages cfg, configure ds Config.start = .ok (messages, cfg) ∧
      (WalksInside cfg ↔ ∀ L, (given L ds).length < maxHandlers) := by
  obtain ⟨cfg, hrun, hr⟩ := configure_start ds
  exact ⟨_, cfg, hrun, fun h => hr.terminated_iff.mp h.terminated, hr.walksInside⟩

/-- Twenty handlers of one section: every directive succeeds, and a phase whose
handlers decline reads the slot after the array. -/
theorem not_walksInside_twenty :
    ∃ cfg, configure (List.replicate 20 (.inSection 0 (.addCPPHandler (cStr (literal "f")))))
        Config.start = .ok (List.replicate 20 none, cfg) ∧
      ¬ WalksInside cfg ∧
      ∀ host, 20
        ∈ (cppCall .handler (fun _ _ w => (declined, w)) ⟨cfg.sections 0, host⟩ ()).reads := by
  obtain ⟨cfg, hrun, hr⟩ := configure_start
    (List.replicate 20 (.inSection 0 (.addCPPHandler (cStr (literal "f")))))
  have hfull : ¬ (given (.ofSection 0 .handlers) (List.replicate 20
      (.inSection 0 (.addCPPHandler (cStr (literal "f")))))).length < maxHandlers := by
    decide
  refine ⟨cfg, hrun, ?_, fun host => ?_⟩
  · intro h
    exact hfull (hr.terminated_iff.mp h.terminated _)
  · exact hr.phase_leaves_array (Nat.not_lt.mp hfull) .handler (fun _ _ => rfl) host ()

end ModCplusplus
