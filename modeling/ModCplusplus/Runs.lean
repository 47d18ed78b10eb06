import Mathlib.Data.List.Induction
import ModCplusplus.Directives

/-!
# The records after a run of directives

The invariant of a run: every list holds the names it was given, as far as there
was room, every table the pairs set in it, no instance has been made, and the
registrations are those of the filters accepted.  All of it is a function of the
history, so a run from the initial records is described without executing it.

## Main definitions

* `Directive.message`, `Directive.registered` — what a directive returns and
  registers after a given history.
* `along` — a function of the history, collected along a run.
* `Reached` — the invariant.

## Main results

* `Reached.exec`, `configure_reached`, `configure_start` — a step, a run, and a
  run from the initial records.
* `mem_registrations_iff` — which registrations a run makes.
-/

namespace ModCplusplus

/-- The message a directive returns after the history `h`. -/
def Directive.message (h : List Directive) (d : Directive) : Option String :=
  match d.target with
  | some (L, _) => if (given L h).length < maxHandlers then none else some L.tooMany
  | none => none

/-- The registrations a directive makes after the history `h`. -/
def Directive.registered (h : List Directive) (d : Directive) : List Registration :=
  match d.target with
  | some (L, name) => if (given L h).length < maxHandlers then L.registers name else []
  | none => []

/-- Collect a function of the history along a run that starts after `h`. -/
def along {β : Type} (f : List Directive → Directive → β) :
    List Directive → List Directive → List β
  | _, [] => []
  | h, d :: ds => f h d :: along f (h ++ [d]) ds

theorem along_append_singleton {β : Type} (f : List Directive → Directive → β) (d : Directive) :
    ∀ ds h, along f h (ds ++ [d]) = along f h ds ++ [f (h ++ ds) d] := by
  intro ds
  induction ds with
  | nil => intro h; simp [along]
  | cons e ds ih => intro h; simp [along, ih]

/-- **The invariant of a run**: the records are those of the history. -/
structure Reached (h : List Directive) (cfg : Config) : Prop where
  lists : ∀ L, HoldsNames (cfg.list L) (accepted L h)
  tables : ∀ T, cfg.table T = some (tableOf (bound T h))
  unspawned : ∀ v, Unspawned (cfg.servers v)
  registrations : cfg.registrations = (along Directive.registered [] h).flatten

theorem reached_start : Reached [] Config.start where
  lists := by
    intro L
    rw [accepted_nil]
    rcases L with ⟨s, _ | _ | _⟩ | ⟨v, _ | _ | _⟩ <;> exact holdsNames_pcalloc
  tables := by
    intro T
    cases T <;> rfl
  unspawned := fun _ => ⟨rfl, rfl, rfl, rfl⟩
  registrations := rfl

theorem registrations_append_singleton (h : List Directive) (d : Directive) :
    (along Directive.registered [] (h ++ [d])).flatten
      = (along Directive.registered [] h).flatten ++ d.registered h := by
  rw [along_append_singleton, List.flatten_append, List.nil_append]
  simp

/-- Replacing the array of a list by one that holds what the list now accepts keeps
the invariant. -/
theorem Reached.setList {h : List Directive} {cfg : Config} (hr : Reached h cfg) {d : Directive}
    {L : ListId} {name : CStr} (hd : d.target = some (L, name)) (hb : d.binding = none)
    {arr : Option NameSlots} (harr : HoldsNames arr (accepted L (h ++ [d]))) :
    Reached (h ++ [d])
      { cfg.setList L arr with registrations := cfg.registrations ++ d.registered h } where
  lists L' := by
    show HoldsNames ((cfg.setList L arr).list L') _
    rw [list_setList]
    split
    · next hL => subst hL; exact harr
    · next hL => rw [accepted_append_of_ne hd hL]; exact hr.lists L'
  tables T := by
    show (cfg.setList L arr).table T = _
    rw [table_setList, bound_append, bound_singleton_of_binding_none hb, List.append_nil, hr.tables]
  unspawned v := unspawned_setList (hr.unspawned v) L arr
  registrations := by rw [registrations_append_singleton, hr.registrations]

/-- A directive that appends a name keeps the invariant. -/
theorem Reached.exec_of_target {h : List Directive} {cfg : Config} (hr : Reached h cfg)
    {d : Directive} {L : ListId} {name : CStr} (hd : d.target = some (L, name))
    (hb : d.binding = none) :
    ∃ cfg', d.exec cfg = .ok (d.message h, cfg') ∧ Reached (h ++ [d]) cfg' := by
  rcases Nat.lt_or_ge (given L h).length maxHandlers with hlt | hge
  · -- there is room: the name is stored and registered
    obtain ⟨arr, ha, harr⟩ :=
      addName_of_lt (hr.lists L) (length_accepted_lt.mpr hlt) L.tooMany name
    have hmessage : d.message h = none := by simp only [Directive.message, hd, if_pos hlt]
    have hregistered : L.registers name = d.registered h := by
      simp only [Directive.registered, hd, if_pos hlt]
    rw [← accepted_append_of_lt hd hlt] at harr
    refine ⟨_, ?_, hr.setList hd hb harr⟩
    rw [Directive.exec_of_target hd ha, hmessage, ← hregistered]
    rfl
  · -- the list is full: only the message is new
    have hfull : (accepted L h).length = maxHandlers := by
      rw [accepted, List.length_take]
      omega
    have ha := addName_of_full (hr.lists L) hfull L.tooMany name
    have hmessage : d.message h = some L.tooMany := by
      simp only [Directive.message, hd, if_neg (Nat.not_lt.mpr hge)]
    have hregistered : d.registered h = [] := by
      simp only [Directive.registered, hd, if_neg (Nat.not_lt.mpr hge)]
    have harr := hr.lists L
    rw [← accepted_append_of_ge hge] at harr
    refine ⟨_, ?_, hr.setList hd hb harr⟩
    rw [Directive.exec_of_target hd ha, hmessage, hregistered]
    rfl

/-- A directive that sets a pair keeps the invariant. -/
theorem Reached.exec_of_binding {h : List Directive} {cfg : Config} (hr : Reached h cfg)
    {d : Directive} {T : TableId} {p : CStr × CStr} (hd : d.target = none)
    (hb : d.binding = some (T, p)) :
    ∃ cfg', d.exec cfg = .ok (d.message h, cfg') ∧ Reached (h ++ [d]) cfg' := by
  have hmessage : d.message h = none := by simp only [Directive.message, hd]
  have hregistered : d.registered h = [] := by simp only [Directive.registered, hd]
  refine ⟨_, by rw [Directive.exec_of_binding hb (hr.tables T), hmessage], ?_, ?_, ?_, ?_⟩
  · intro L
    rw [list_setTable, accepted_append_of_none hd]
    exact hr.lists L
  · intro T'
    rw [table_setTable, bound_append, bound_singleton_of_binding hb]
    by_cases hT : T' = T
    · subst hT
      rw [if_pos rfl, if_pos rfl, tableOf_append_singleton]
    · rw [if_neg hT, if_neg (Ne.symm hT), List.append_nil, hr.tables]
  · exact fun v => unspawned_setTable (hr.unspawned v) T _
  · rw [registrations_append_singleton, ← hr.registrations, hregistered, List.append_nil]
    cases T <;> rfl

/-- **One directive keeps the invariant.** -/
theorem Reached.exec {h : List Directive} {cfg : Config} (hr : Reached h cfg) (d : Directive) :
    ∃ cfg', d.exec cfg = .ok (d.message h, cfg') ∧ Reached (h ++ [d]) cfg' := by
  rcases d.target_or_binding with ⟨L, name, hd, hb⟩ | ⟨T, p, hd, hb⟩
  · exact hr.exec_of_target hd hb
  · exact hr.exec_of_binding hd hb

/-- **A run keeps the invariant**, and it never faults. -/
theorem configure_reached : ∀ (ds : List Directive) {h : List Directive} {cfg : Config},
    Reached h cfg → ∃ cfg', configure ds cfg = .ok (along Directive.message h ds, cfg') ∧
      Reached (h ++ ds) cfg' := by
  intro ds
  induction ds with
  | nil => intro h cfg hr; exact ⟨cfg, rfl, by rwa [List.append_nil]⟩
  | cons d ds ih =>
    intro h cfg hr
    obtain ⟨cfg₁, hexec, hr₁⟩ := hr.exec d
    obtain ⟨cfg₂, hrun, hr₂⟩ := ih hr₁
    refine ⟨cfg₂, ?_, by simpa using hr₂⟩
    simp only [configure, hexec, hrun, along, bind, Except.bind, pure, Except.pure]

/-- A run from the initial records. -/
theorem configure_start (ds : List Directive) :
    ∃ cfg, configure ds Config.start = .ok (along Directive.message [] ds, cfg) ∧ Reached ds cfg :=
  configure_reached ds reached_start

/-- A list with room to spare holds every name it was given. -/
theorem Reached.holdsNames_given {ds : List Directive} {cfg : Config} (hr : Reached ds cfg)
    {L : ListId} (hlt : (given L ds).length < maxHandlers) :
    HoldsNames (cfg.list L) (given L ds) := by
  have hlist := hr.lists L
  rwa [accepted, List.take_of_length_le (by omega)] at hlist

/-- **The registrations of a run** are those of the names accepted into filter
lists. -/
theorem mem_registrations_iff (h : List Directive) (reg : Registration) :
    reg ∈ (along Directive.registered [] h).flatten ↔
      ∃ L, ∃ name ∈ accepted L h, reg ∈ L.registers name := by
  induction h using List.reverseRecOn with
  | nil => simp [along]
  | append_singleton h d ih =>
    rw [registrations_append_singleton, List.mem_append, ih]
    rcases d.target_or_binding with ⟨L, name, hd, -⟩ | ⟨T, p, hd, -⟩
    · have hregistered : reg ∈ d.registered h ↔
          (given L h).length < maxHandlers ∧ reg ∈ L.registers name := by
        simp only [Directive.registered, hd]
        split <;> simp_all
      rw [hregistered]
      constructor
      · rintro (⟨L', n, hn, hreg⟩ | ⟨hlt, hreg⟩)
        · exact ⟨L', n, (mem_accepted_append hd h).mpr (Or.inl hn), hreg⟩
        · exact ⟨L, name, (mem_accepted_append hd h).mpr (Or.inr ⟨rfl, rfl, hlt⟩), hreg⟩
      · rintro ⟨L', n, hn, hreg⟩
        rcases (mem_accepted_append hd h).mp hn with hn | ⟨rfl, rfl, hlt⟩
        · exact Or.inl ⟨L', n, hn, hreg⟩
        · exact Or.inr ⟨hlt, hreg⟩
    · simp only [Directive.registered, hd, List.not_mem_nil, or_false, accepted_append_of_none hd]

end ModCplusplus
