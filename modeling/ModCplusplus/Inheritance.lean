import ModCplusplus.Runs

/-!
# Inheritance between nested sections

The records of nested sections are merged from the outermost inwards; each merge
keeps a field of the inner record unless it is NULL.  So a field of the merged
record is that of the innermost section where it is not NULL, and inheritance
hinges on a section leaving the fields it gives no directive for at NULL, which
the creation of the records does not.

## Main definitions

* `mergeSections` — the merge of a chain of sections.
* `DirField`, `CppConfigRec.contents` — the fields of a section's record and what
  they hold.
* `gives` — the section gives a directive for the field.
* `Inherits` — every field holds what it holds in the innermost section that
  gives a directive for it.

## Main results

* `list_mergeSections`, `varHash_mergeSections` — a field of a merge.
* `Reached.contents_mergeSections` — after a run, a merge has the contents of its
  innermost section.
* `sections_inherit_iff` — when fields are inherited.
-/

namespace ModCplusplus

/-! ### Merging a chain -/

/-- The merge of a chain of sections, from the outermost inwards. -/
def mergeSections (outer : CppConfigRec) (inner : List CppConfigRec) : CppConfigRec :=
  inner.foldl mergeCppConfig outer

/-- The last field that is not NULL. -/
def innermostSet {α : Type} (fields : List (Option α)) : Option α := fields.reverse.findSome? id

@[simp] theorem innermostSet_singleton {α : Type} (field : Option α) :
    innermostSet [field] = field := by cases field <;> rfl

theorem innermostSet_append_singleton {α : Type} (fields : List (Option α)) (field : Option α) :
    innermostSet (fields ++ [field]) = plusInherit (innermostSet fields) field := by
  rw [innermostSet, List.reverse_append]
  cases field <;> rfl

/-- **A list of a merge** is that of the innermost section where it is set. -/
theorem list_mergeSections (outer : CppConfigRec) (inner : List CppConfigRec) (l : DirList) :
    (mergeSections outer inner).list l
      = innermostSet ((outer :: inner).map fun cmdRec => cmdRec.list l) := by
  induction inner using List.reverseRecOn with
  | nil => simp [mergeSections]
  | append_singleton inner child ih =>
    rw [← List.cons_append, List.map_append, List.map_singleton, innermostSet_append_singleton,
      ← ih, mergeSections, List.foldl_append]
    cases l <;> rfl

/-- **The variables of a merge** are those of the innermost section where they are
set. -/
theorem varHash_mergeSections (outer : CppConfigRec) (inner : List CppConfigRec) :
    (mergeSections outer inner).varHash
      = innermostSet ((outer :: inner).map CppConfigRec.varHash) := by
  induction inner using List.reverseRecOn with
  | nil => simp [mergeSections]
  | append_singleton inner child ih =>
    rw [← List.cons_append, List.map_append, List.map_singleton, innermostSet_append_singleton,
      ← ih, mergeSections, List.foldl_append]
    rfl

/-- With the field of the innermost section set, the others do not matter. -/
theorem innermostSet_of_getLast {α : Type} {fields : List (Option α)} {a : α}
    (h : fields.getLast? = some (some a)) : innermostSet fields = some a := by
  obtain ⟨outer, rfl⟩ := List.getLast?_eq_some_iff.mp h
  rw [innermostSet_append_singleton]
  rfl

/-! ### Fields and their contents -/

/-- The fields of a section's record. -/
inductive DirField where
  | names (l : DirList)
  | vars
  deriving DecidableEq

/-- What a field holds: names in order, or values by name. -/
inductive Contents where
  | names (l : List CStr)
  | vars (value : CStr → Option CStr)

/-- The names before the first NULL slot. -/
def namesIn (arr : Option NameSlots) : List CStr := (arr.map SlotArray.entries).getD []

/-- The contents of a field. -/
def CppConfigRec.contents (cmdRec : CppConfigRec) : DirField → Contents
  | .names l => .names (namesIn (cmdRec.list l))
  | .vars => .vars fun name => cmdRec.varHash.bind fun vars => vars.lookup name

/-- The contents of a field nobody set. -/
def DirField.blank : DirField → Contents
  | .names _ => .names []
  | .vars => .vars fun _ => none

/-- The section gives at least one directive for the field. -/
def gives (ds : List Directive) (s : ℕ) : DirField → Prop
  | .names l => given (.ofSection s l) ds ≠ []
  | .vars => bound (.sectionVars s) ds ≠ []

instance (ds : List Directive) (s : ℕ) (f : DirField) : Decidable (gives ds s f) := by
  cases f <;> exact inferInstanceAs (Decidable (_ ≠ _))

/-- The innermost section of a chain that gives a directive for the field. -/
def innermostGiving (ds : List Directive) (f : DirField) (chain : List ℕ) : Option ℕ :=
  chain.reverse.find? fun s => gives ds s f

/-- The contents the field ought to have in the merge of a chain. -/
def inherited (ds : List Directive) (cfg : Config) (f : DirField) (chain : List ℕ) : Contents :=
  match innermostGiving ds f chain with
  | some s => (cfg.sections s).contents f
  | none => f.blank

/-- **Fields are inherited** along a chain of sections. -/
def Inherits (ds : List Directive) (cfg : Config) (outer : ℕ) (inner : List ℕ) : Prop :=
  ∀ f, (mergeSections (cfg.sections outer) (inner.map cfg.sections)).contents f
    = inherited ds cfg f (outer :: inner)

theorem namesIn_of_holds {arr : Option NameSlots} {l : List CStr} (h : HoldsNames arr l) :
    namesIn arr = l := by
  obtain ⟨xs, rfl, hxs⟩ := h
  exact hxs.entries_eq

/-- A table with something set in it has a value. -/
theorem exists_lookup_tableOf {pairs : List (CStr × CStr)} (h : pairs ≠ []) :
    ∃ name value, (tableOf pairs).lookup name = some value := by
  obtain ⟨front, p, rfl⟩ := (List.eq_nil_or_concat' pairs).resolve_left h
  exact ⟨p.1, p.2, by rw [tableOf_append_singleton, AList.lookup_insert]⟩

section

variable {ds : List Directive} {cfg : Config}

theorem Reached.contents_names (hr : Reached ds cfg) (s : ℕ) (l : DirList) :
    (cfg.sections s).contents (.names l) = .names (accepted (.ofSection s l) ds) :=
  congrArg Contents.names (namesIn_of_holds (hr.lists (.ofSection s l)))

theorem Reached.contents_vars (hr : Reached ds cfg) (s : ℕ) :
    (cfg.sections s).contents .vars
      = .vars fun name => (tableOf (bound (.sectionVars s) ds)).lookup name := by
  have htable : (cfg.sections s).varHash = some (tableOf (bound (.sectionVars s) ds)) :=
    hr.tables (.sectionVars s)
  rw [CppConfigRec.contents, htable]
  rfl

/-- **A field is blank exactly where no directive was given for it.** -/
theorem Reached.contents_eq_blank_iff (hr : Reached ds cfg) (s : ℕ) (f : DirField) :
    (cfg.sections s).contents f = f.blank ↔ ¬ gives ds s f := by
  cases f with
  | names l =>
    rw [hr.contents_names, DirField.blank, Contents.names.injEq, accepted, List.take_eq_nil_iff,
      gives, not_not]
    exact or_iff_right maxHandlers_pos.ne'
  | vars =>
    rw [hr.contents_vars, DirField.blank, Contents.vars.injEq, gives, not_not]
    constructor
    · intro h
      by_contra hne
      obtain ⟨name, value, hvalue⟩ := exists_lookup_tableOf hne
      rw [congrFun h name] at hvalue
      exact absurd hvalue (by simp)
    · intro h
      rw [h]
      rfl

/-- **A merge has the lists of its innermost section**: no list of a record is ever
NULL. -/
theorem Reached.list_mergeSections (hr : Reached ds cfg) (outer : ℕ) (inner : List ℕ)
    (l : DirList) :
    (mergeSections (cfg.sections outer) (inner.map cfg.sections)).list l
      = (cfg.sections ((outer :: inner).getLast (List.cons_ne_nil _ _))).list l := by
  have hlast := List.getLast?_eq_some_getLast (List.cons_ne_nil outer inner)
  obtain ⟨xs, hxs, -⟩ := hr.lists (.ofSection ((outer :: inner).getLast (List.cons_ne_nil _ _)) l)
  have hset : (cfg.sections ((outer :: inner).getLast (List.cons_ne_nil _ _))).list l = some xs :=
    hxs
  rw [ModCplusplus.list_mergeSections, ← List.map_cons, List.map_map, hset]
  apply innermostSet_of_getLast
  rw [List.getLast?_map, hlast, ← hset]
  rfl

/-- **A merge has the variables of its innermost section.** -/
theorem Reached.varHash_mergeSections (hr : Reached ds cfg) (outer : ℕ) (inner : List ℕ) :
    (mergeSections (cfg.sections outer) (inner.map cfg.sections)).varHash
      = (cfg.sections ((outer :: inner).getLast (List.cons_ne_nil _ _))).varHash := by
  have hlast := List.getLast?_eq_some_getLast (List.cons_ne_nil outer inner)
  have hset : (cfg.sections ((outer :: inner).getLast (List.cons_ne_nil _ _))).varHash = some _ :=
    hr.tables (.sectionVars ((outer :: inner).getLast (List.cons_ne_nil _ _)))
  rw [ModCplusplus.varHash_mergeSections, ← List.map_cons, List.map_map, hset]
  apply innermostSet_of_getLast
  rw [List.getLast?_map, hlast, ← hset]
  rfl

/-- **A merge has the contents of its innermost section.** -/
theorem Reached.contents_mergeSections (hr : Reached ds cfg) (outer : ℕ) (inner : List ℕ)
    (f : DirField) :
    (mergeSections (cfg.sections outer) (inner.map cfg.sections)).contents f
      = (cfg.sections ((outer :: inner).getLast (List.cons_ne_nil _ _))).contents f := by
  cases f with
  | names l => rw [CppConfigRec.contents, CppConfigRec.contents, hr.list_mergeSections]
  | vars => rw [CppConfigRec.contents, CppConfigRec.contents, hr.varHash_mergeSections]

/-- The innermost section gives a directive for every field that any gives one
for. -/
def InnermostGives (ds : List Directive) (outer : ℕ) (inner : List ℕ) : Prop :=
  ∀ f, (∃ s ∈ outer :: inner, gives ds s f) →
    gives ds ((outer :: inner).getLast (List.cons_ne_nil _ _)) f

theorem Reached.inherits_iff (hr : Reached ds cfg) (outer : ℕ) (inner : List ℕ) :
    Inherits ds cfg outer inner ↔ InnermostGives ds outer inner := by
  refine forall_congr' fun f => ?_
  set last := (outer :: inner).getLast (List.cons_ne_nil _ _) with hlast
  rw [hr.contents_mergeSections, ← hlast]
  by_cases hgives : gives ds last f
  · -- the innermost section is the one that counts
    have hfind : innermostGiving ds f (outer :: inner) = some last := by
      rw [innermostGiving, ← List.dropLast_append_getLast (List.cons_ne_nil outer inner),
        List.reverse_append, List.reverse_singleton, List.singleton_append, ← hlast]
      exact List.find?_cons_of_pos (by simpa using hgives)
    simp only [inherited, hfind, hgives, implies_true]
  · rw [(hr.contents_eq_blank_iff last f).mpr hgives]
    cases hfind : innermostGiving ds f (outer :: inner) with
    | none =>
      have hnone : ¬ ∃ s ∈ outer :: inner, gives ds s f := by
        rintro ⟨s, hs, hsgives⟩
        have := List.find?_eq_none.mp hfind s (List.mem_reverse.mpr hs)
        exact this (by simpa using hsgives)
      simp only [inherited, hfind, true_iff]
      exact fun h => absurd h hnone
    | some s =>
      have hs : s ∈ outer :: inner := List.mem_reverse.mp (List.mem_of_find?_eq_some hfind)
      have hsgives : gives ds s f := by simpa using List.find?_some hfind
      simp only [inherited, hfind]
      constructor
      · intro h
        exact absurd hsgives ((hr.contents_eq_blank_iff s f).mp h.symm)
      · intro h
        exact absurd (h ⟨s, hs, hsgives⟩) hgives

end

/-- **After any run of directives, a chain of sections inherits its fields exactly
when its innermost section gives a directive for every field any of them gives
one for.** -/
theorem sections_inherit_iff (ds : List Directive) (outer : ℕ) (inner : List ℕ) :
    ∃ messages cfg, configure ds Config.start = .ok (messages, cfg) ∧
      (Inherits ds cfg outer inner ↔ InnermostGives ds outer inner) := by
  obtain ⟨cfg, hrun, hr⟩ := configure_start ds
  exact ⟨_, cfg, hrun, hr.inherits_iff outer inner⟩

/-- A section that only passes a variable loses the handler of its parent. -/
theorem not_inherits_handler :
    ∃ messages cfg, configure
        [.inSection 0 (.addCPPHandler (cStr (literal "f"))),
          .inSection 1 (.passCPPVar (cStr (literal "a")) (cStr (literal "b")))] Config.start
      = .ok (messages, cfg) ∧
      (mergeSections (cfg.sections 0) [cfg.sections 1]).contents (.names .handlers) = .names [] ∧
      ¬ Inherits [.inSection 0 (.addCPPHandler (cStr (literal "f"))),
          .inSection 1 (.passCPPVar (cStr (literal "a")) (cStr (literal "b")))] cfg 0 [1] := by
  obtain ⟨cfg, hrun, hr⟩ := configure_start
    [.inSection 0 (.addCPPHandler (cStr (literal "f"))),
      .inSection 1 (.passCPPVar (cStr (literal "a")) (cStr (literal "b")))]
  refine ⟨_, cfg, hrun, ?_, ?_⟩
  · have hmerge := hr.contents_mergeSections 0 [1] (.names .handlers)
    rw [hr.contents_names] at hmerge
    exact hmerge
  · rw [hr.inherits_iff]
    intro h
    have := h (.names .handlers) ⟨0, by simp, by decide⟩
    exact absurd this (by decide)

end ModCplusplus
