import ModCplusplus.Runs

/-!
# The `Add…` directives as bounded appends

Six directives append a name to a list of `MAX_HANDLERS` slots.  Each looks for a NULL
slot before it does anything else, and gives up at the end of the array: a directive that
comes too late leaves the records as they were, and what the run registers is what its
other directives do.

## Main definitions

* `addSlots` — the slots such a directive reads and writes.
* `Appends` — one directive is a bounded append.
* `BoundedAppends` — so are those of a run.

## Main results

* `lt_of_mem_addSlots` — the slots are inside the array, whatever it holds.
* `addName_slots` — the loop uses these slots and no others.
* `Reached.appends` — one directive.
* `bounded_appends` — a run.
-/

namespace ModCplusplus

/-! ### One directive -/

/-- The slots of an array that the loop of an `Add…` directive reads, and the one it
writes. -/
def addSlots (arr : Option NameSlots) : List ℕ :=
  match arr with
  | none => []
  | some xs =>
      seekReads maxHandlers xs.cells 0 ++
        match seekNull maxHandlers xs.cells 0 with
        | .found i => [i]
        | _ => []

/-- The slot written is one of those read. -/
theorem mem_addSlots_iff {xs : NameSlots} {i : ℕ} :
    i ∈ addSlots (some xs) ↔ i ∈ seekReads maxHandlers xs.cells 0 := by
  rw [addSlots, List.mem_append]
  constructor
  · rintro (h | h)
    · exact h
    · split at h
      · next j hfound =>
        rw [List.mem_singleton.mp h]
        exact mem_seekReads_of_found hfound
      · exact absurd h List.not_mem_nil
  · exact Or.inl

/-- **The slots are inside the array**, whatever it holds. -/
theorem lt_of_mem_addSlots {arr : Option NameSlots} {i : ℕ} (h : i ∈ addSlots arr) :
    i < maxHandlers := by
  cases arr with
  | none => exact absurd h List.not_mem_nil
  | some xs => exact xs.lt_of_mem_seekReads maxHandlers_pos (mem_addSlots_iff.mp h)

/-- **The loop reads and writes exactly these slots**: they are the slots that decide, each
of them alone, where the loop ends, and the slot in which the name is stored, if it is, is
one of them. -/
theorem addName_slots (message : String) (xs : NameSlots) (name : CStr) :
    (∀ i, i ∈ addSlots (some xs) ↔ ∃ ys : NameSlots,
      (∀ k, k ≠ i → ys.cells[k]? = xs.cells[k]?) ∧
        seekNull maxHandlers ys.cells 0 ≠ seekNull maxHandlers xs.cells 0) ∧
    ((∃ i ∈ addSlots (some xs), seekNull maxHandlers xs.cells 0 = .found i ∧
        addName message (some xs) name = .ok (none, some (xs.store i name))) ∨
      (seekNull maxHandlers xs.cells 0 = .full ∧
        addName message (some xs) name = .ok (some message, some xs))) := by
  have : Inhabited CStr := ⟨name⟩
  refine ⟨fun i => mem_addSlots_iff.trans (xs.mem_seekReads_iff maxHandlers_pos), ?_⟩
  cases hseek : seekNull maxHandlers xs.cells 0 with
  | found i =>
    have hmem := mem_addSlots_iff.mpr (mem_seekReads_of_found hseek)
    exact .inl ⟨i, hmem, rfl, by simp only [addName, hseek]⟩
  | full => exact .inr ⟨rfl, by simp only [addName, hseek]⟩
  | overrun i => exact absurd hseek (xs.seekNull_ne_overrun maxHandlers_pos i)

/-- The registrations that go with the name of a directive. -/
def Directive.registers (d : Directive) : List Registration :=
  match d.target with
  | some (L, name) => L.registers name
  | none => []

theorem setList_self (cfg : Config) (L : ListId) : cfg.setList L (cfg.list L) = cfg := by
  rcases L with ⟨s, _ | _ | _⟩ | ⟨v, _ | _ | _⟩ <;>
    simp only [Config.setList, Config.list, CppConfigRec.list, CppServerRec.list,
      Function.update_eq_self]

/-- **One directive is a bounded append**, after the history `h`: it returns an error if
and only if more names than there are slots have been given to its list, and then it
changes nothing; it changes no other list, and it stays inside the array. -/
structure Appends (h : List Directive) (L : ListId) (d : Directive) (cfg : Config)
    (message : Option String) (cfg' : Config) : Prop where
  error_iff : message.isSome ↔ maxHandlers < (given L (h ++ [d])).length
  unchanged : message.isSome → cfg' = cfg
  others : ∀ L', L' ≠ L → cfg'.list L' = cfg.list L'
  slots : ∀ i ∈ addSlots (cfg.list L), i < maxHandlers

theorem Reached.appends {h : List Directive} {cfg : Config} (hr : Reached h cfg) {d : Directive}
    {L : ListId} {name : CStr} (hd : d.target = some (L, name)) :
    ∃ cfg', d.exec cfg = .ok (d.message h, cfg') ∧ Appends h L d cfg (d.message h) cfg' := by
  have hcount : (given L (h ++ [d])).length = (given L h).length + 1 := by
    rw [given_append, given_singleton_of_target hd, if_pos rfl, List.length_append]
    rfl
  rcases Nat.lt_or_ge (given L h).length maxHandlers with hlt | hge
  · obtain ⟨arr, ha, -⟩ := addName_of_lt (hr.lists L) (length_accepted_lt.mpr hlt) L.tooMany name
    have hmessage : d.message h = none := by simp only [Directive.message, hd, if_pos hlt]
    refine ⟨_, by rw [Directive.exec_of_target hd ha, hmessage], ?_, ?_, ?_, ?_⟩
    · rw [hmessage, hcount]
      exact iff_of_false Bool.false_ne_true (by omega)
    · rw [hmessage]
      exact fun hsome => absurd hsome Bool.false_ne_true
    · intro L' hne
      show (cfg.setList L arr).list L' = _
      rw [list_setList, if_neg hne]
    · exact fun i hi => lt_of_mem_addSlots hi
  · have hfull : (accepted L h).length = maxHandlers := by
      rw [accepted, List.length_take]
      omega
    have ha := addName_of_full (hr.lists L) hfull L.tooMany name
    have hmessage : d.message h = some L.tooMany := by
      simp only [Directive.message, hd, if_neg (Nat.not_lt.mpr hge)]
    have hsame : d.exec cfg = .ok (some L.tooMany, cfg) := by
      rw [Directive.exec_of_target hd ha, setList_self]
      simp
    refine ⟨cfg, by rw [hsame, hmessage], ?_, fun _ => rfl, fun _ _ => rfl,
      fun i hi => lt_of_mem_addSlots hi⟩
    rw [hmessage, hcount]
    exact iff_of_true rfl (by omega)

/-! ### A run -/

/-- **The `Add…` directives of a run are bounded appends.** -/
structure BoundedAppends (ds : List Directive) (messages : List (Option String))
    (cfg : Config) : Prop where
  lists : ∀ L, HoldsNames (cfg.list L) ((given L ds).take maxHandlers)
  -- the registrations of the directives that returned no error
  registrations : cfg.registrations
    = (ds.zip messages).flatMap fun p => if p.2.isNone then p.1.registers else []
  each : ∀ h d post L name, ds = h ++ d :: post → d.target = some (L, name) →
    ∃ messages' cfg₁ message cfg₂, configure h Config.start = .ok (messages', cfg₁) ∧
      d.exec cfg₁ = .ok (message, cfg₂) ∧ messages[h.length]? = some message ∧
      Appends h L d cfg₁ message cfg₂

theorem registered_eq (h : List Directive) (d : Directive) :
    d.registered h = if (d.message h).isNone then d.registers else [] := by
  cases ht : d.target with
  | none => simp only [Directive.registered, Directive.message, Directive.registers, ht]; rfl
  | some t =>
    simp only [Directive.registered, Directive.message, Directive.registers, ht]
    split <;> rfl

theorem flatten_along_registered (ds h : List Directive) :
    (along Directive.registered h ds).flatten
      = (ds.zip (along Directive.message h ds)).flatMap
          fun p => if p.2.isNone then p.1.registers else [] := by
  induction ds generalizing h with
  | nil => rfl
  | cons d ds ih =>
    rw [along, along, List.flatten_cons, List.zip_cons_cons, List.flatMap_cons, ih, registered_eq]

theorem getElem?_along {β : Type} (f : List Directive → Directive → β) (ds : List Directive)
    (d : Directive) (post h : List Directive) :
    (along f h (ds ++ d :: post))[ds.length]? = some (f (h ++ ds) d) := by
  induction ds generalizing h with
  | nil => rw [List.append_nil]; rfl
  | cons e ds ih =>
    rw [List.cons_append, along, List.length_cons, List.getElem?_cons_succ, ih, List.append_assoc,
      List.singleton_append]

/-- **In every run, each directive is a bounded append that changes nothing when it
fails.** -/
theorem bounded_appends (ds : List Directive) :
    ∃ messages cfg, configure ds Config.start = .ok (messages, cfg) ∧
      BoundedAppends ds messages cfg := by
  obtain ⟨cfg, hrun, hr⟩ := configure_start ds
  refine ⟨_, cfg, hrun, hr.lists, ?_, ?_⟩
  · rw [hr.registrations, flatten_along_registered]
  · rintro h d post L name rfl hd
    obtain ⟨cfg₁, hrun₁, hr₁⟩ := configure_start h
    obtain ⟨cfg₂, hexec, happends⟩ := hr₁.appends hd
    exact ⟨_, cfg₁, _, cfg₂, hrun₁, hexec, getElem?_along Directive.message h d post [],
      happends⟩

end ModCplusplus
