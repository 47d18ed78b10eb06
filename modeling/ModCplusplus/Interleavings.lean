import ModCplusplus.Filters
import ModCplusplus.General.Interleave

/-!
# The order of directives

httpd reads a configuration file from top to bottom, with sections and virtual hosts in
whatever order, and may return to one that it has read before.  Only the order inside a
section or a server matters to the records; the order between them shows in the order of
the registrations, and through that in the type recorded for a name only if the name is
taken by lists of both kinds.

## Main definitions

* `Place`, `Directive.place` — the section or the server a directive stands in.

## Main results

* `filter_along` — a run, seen from one place.
* `eq_of_holdsNames` — an array that holds names is determined by them.
* `interleavings_agree` — the law.
-/

namespace ModCplusplus

/-- Where a directive stands. -/
inductive Place where
  | inSection (s : ℕ)
  | inServer (v : ℕ)
  deriving DecidableEq

/-- The place of a directive. -/
def Directive.place : Directive → Place
  | .inSection s _ => .inSection s
  | .inServer v _ => .inServer v

/-- The place of a name list. -/
def ListId.place : ListId → Place
  | .ofSection s _ => .inSection s
  | .ofServer v _ => .inServer v

/-- The place of a table. -/
def TableId.place : TableId → Place
  | .sectionVars s => .inSection s
  | .serverVars v => .inServer v
  | .paths v => .inServer v

theorem place_of_target {d : Directive} {L : ListId} {name : CStr}
    (h : d.target = some (L, name)) : L.place = d.place := by
  cases d with
  | inSection s cmd =>
    cases cmd <;> simp only [Directive.target, Option.some.injEq, Prod.mk.injEq, reduceCtorEq] at h
    all_goals rw [← h.1]; rfl
  | inServer v cmd =>
    cases cmd <;> simp only [Directive.target, Option.some.injEq, Prod.mk.injEq, reduceCtorEq] at h
    all_goals rw [← h.1]; rfl

theorem place_of_binding {d : Directive} {T : TableId} {p : CStr × CStr}
    (h : d.binding = some (T, p)) : T.place = d.place := by
  cases d with
  | inSection s cmd =>
    cases cmd <;>
      simp only [Directive.binding, Option.some.injEq, Prod.mk.injEq, reduceCtorEq] at h
    all_goals rw [← h.1]; rfl
  | inServer v cmd =>
    cases cmd <;>
      simp only [Directive.binding, Option.some.injEq, Prod.mk.injEq, reduceCtorEq] at h
    all_goals rw [← h.1]; rfl

/-- A directive gives names to lists of its own place. -/
theorem nameFor_of_ne {d : Directive} {L : ListId} (h : d.place ≠ L.place) :
    d.nameFor L = none := by
  rw [Directive.nameFor, Option.bind_eq_none_iff]
  intro t ht
  apply if_neg
  intro hL
  exact h ((place_of_target ht).symm.trans (congrArg ListId.place hL))

/-- A directive sets pairs in tables of its own place. -/
theorem pairFor_of_ne {d : Directive} {T : TableId} (h : d.place ≠ T.place) :
    d.pairFor T = none := by
  rw [Directive.pairFor, Option.bind_eq_none_iff]
  intro t ht
  apply if_neg
  intro hT
  exact h ((place_of_binding ht).symm.trans (congrArg TableId.place hT))

/-! ### A run, seen from one place -/

/-- The directives of a place. -/
def atPlace (p : Place) (ds : List Directive) : List Directive := ds.filter fun d => d.place = p

theorem atPlace_cons (p : Place) (d : Directive) (ds : List Directive) :
    atPlace p (d :: ds) = if d.place = p then d :: atPlace p ds else atPlace p ds := by
  rw [atPlace, List.filter_cons]
  simp only [decide_eq_true_eq]
  rfl

theorem atPlace_append_singleton (p : Place) (d : Directive) (ds : List Directive) :
    atPlace p (ds ++ [d]) = if d.place = p then atPlace p ds ++ [d] else atPlace p ds := by
  rw [atPlace, List.filter_append]
  by_cases hd : d.place = p
  · simp [hd, atPlace]
  · simp [hd, atPlace]

theorem given_atPlace (L : ListId) (h : List Directive) :
    given L (atPlace L.place h) = given L h := by
  rw [given, given, atPlace, List.filterMap_filter]
  apply List.filterMap_congr
  intro d _
  by_cases hd : d.place = L.place
  · simp [hd]
  · simp [hd, nameFor_of_ne hd]

section

variable {β : Type} {f : List Directive → Directive → β}

/-- **A run, seen from one place**, is the run of the directives of that place, if what is
collected of a directive depends on those of its own place only. -/
theorem filter_along (hf : ∀ h d, f (atPlace d.place h) d = f h d) (p : Place) :
    ∀ ds h, (along (fun h d => (d.place, f h d)) h ds).filter (fun e => e.1 = p)
      = along (fun h d => (d.place, f h d)) (atPlace p h) (atPlace p ds) := by
  intro ds
  induction ds with
  | nil => intro h; rfl
  | cons d ds ih =>
    intro h
    rw [along, atPlace_cons]
    by_cases hd : d.place = p
    · have hfirst : f (atPlace p h) d = f h d := hd ▸ hf h d
      rw [List.filter_cons_of_pos (by simpa using hd), ih, atPlace_append_singleton, if_pos hd,
        if_pos hd, along, hfirst]
    · rw [List.filter_cons_of_neg (by simpa using hd), ih, atPlace_append_singleton, if_neg hd,
        if_neg hd]

theorem sameSequences_along (hf : ∀ h d, f (atPlace d.place h) d = f h d) {ds es : List Directive}
    (h : SameSequences Directive.place ds es) :
    SameSequences Prod.fst (along (fun h d => (d.place, f h d)) [] ds)
      (along (fun h d => (d.place, f h d)) [] es) := by
  intro p
  rw [filter_along hf, filter_along hf]
  exact congrArg (along _ _) (h p)

theorem map_snd_along (ds : List Directive) : ∀ h,
    (along (fun h d => (d.place, f h d)) h ds).map Prod.snd = along f h ds := by
  induction ds with
  | nil => intro h; rfl
  | cons d ds ih => intro h; rw [along, along, List.map_cons, ih]

theorem zip_place_along (ds : List Directive) : ∀ h,
    (ds.map Directive.place).zip (along f h ds) = along (fun h d => (d.place, f h d)) h ds := by
  induction ds with
  | nil => intro h; rfl
  | cons d ds ih => intro h; rw [along, along, List.map_cons, List.zip_cons_cons, ih]

end

theorem message_atPlace (h : List Directive) (d : Directive) :
    d.message (atPlace d.place h) = d.message h := by
  unfold Directive.message
  cases htarget : d.target with
  | none => rfl
  | some t =>
    obtain ⟨L, name⟩ := t
    rw [← place_of_target htarget]
    simp only [given_atPlace]

theorem registered_atPlace (h : List Directive) (d : Directive) :
    d.registered (atPlace d.place h) = d.registered h := by
  unfold Directive.registered
  cases htarget : d.target with
  | none => rfl
  | some t =>
    obtain ⟨L, name⟩ := t
    rw [← place_of_target htarget]
    simp only [given_atPlace]

/-! ### The records are determined -/

/-- **An array that holds names** is determined by them. -/
theorem eq_of_holdsNames {arr arr' : Option NameSlots} {l : List CStr} (h : HoldsNames arr l)
    (h' : HoldsNames arr' l) : arr = arr' := by
  obtain ⟨xs, rfl, k, hk⟩ := h
  obtain ⟨ys, rfl, k', hk'⟩ := h'
  have hlength := SlotArray.Holds.length_add hk
  have hlength' := SlotArray.Holds.length_add hk'
  obtain rfl : k = k' := by omega
  exact congrArg some (SlotArray.ext (hk.trans hk'.symm))

theorem CppConfigRec.eq_of_fields {a b : CppConfigRec} (hlists : ∀ l, a.list l = b.list l)
    (hvars : a.varHash = b.varHash) : a = b := by
  have hhandlers := hlists .handlers
  have hinputs := hlists .inputFilters
  have houtputs := hlists .outputFilters
  cases a
  cases b
  rw [CppConfigRec.mk.injEq]
  exact ⟨hhandlers, hinputs, houtputs, hvars⟩

theorem CppServerRec.eq_of_fields {a b : CppServerRec} (hlists : ∀ l, a.list l = b.list l)
    (hvars : a.varHash = b.varHash) (hpaths : a.handlerPathHash = b.handlerPathHash)
    (ha : Unspawned a) (hb : Unspawned b) : a = b := by
  have hprotocols := hlists .protocolHandlers
  have hinputs := hlists .inputFilters
  have houtputs := hlists .outputFilters
  have h₁ := ha.handlerHash.trans hb.handlerHash.symm
  have h₂ := ha.inputFilterHash.trans hb.inputFilterHash.symm
  have h₃ := ha.outputFilterHash.trans hb.outputFilterHash.symm
  have h₄ := ha.protocolHash.trans hb.protocolHash.symm
  cases a
  cases b
  rw [CppServerRec.mk.injEq]
  exact ⟨h₁, h₂, h₃, h₄, hpaths, hprotocols, hinputs, houtputs, hvars⟩

section

variable {ds es : List Directive} {cfg cfg' : Config}

theorem sameSequences_given_eq (h : SameSequences Directive.place ds es) (L : ListId) :
    given L ds = given L es := h.filterMap_eq fun _ hd => nameFor_of_ne hd

theorem sameSequences_accepted_eq (h : SameSequences Directive.place ds es) (L : ListId) :
    accepted L ds = accepted L es := congrArg (List.take maxHandlers) (sameSequences_given_eq h L)

theorem sameSequences_bound_eq (h : SameSequences Directive.place ds es) (T : TableId) :
    bound T ds = bound T es := h.filterMap_eq fun _ hd => pairFor_of_ne hd

/-- **The records of a run** depend on the order inside each place only. -/
theorem sameSequences_records_eq (h : SameSequences Directive.place ds es) (hr : Reached ds cfg)
    (hr' : Reached es cfg') : cfg.sections = cfg'.sections ∧ cfg.servers = cfg'.servers := by
  have hlists (L : ListId) : cfg.list L = cfg'.list L := by
    have hheld := hr.lists L
    rw [sameSequences_accepted_eq h L] at hheld
    exact eq_of_holdsNames hheld (hr'.lists L)
  have htables (T : TableId) : cfg.table T = cfg'.table T := by
    rw [hr.tables, hr'.tables, sameSequences_bound_eq h]
  constructor
  · funext s
    apply CppConfigRec.eq_of_fields
    · exact fun l => hlists (.ofSection s l)
    · exact htables (.sectionVars s)
  · funext v
    apply CppServerRec.eq_of_fields
    · exact fun l => hlists (.ofServer v l)
    · exact Option.some.inj (htables (.serverVars v))
    · exact Option.some.inj (htables (.paths v))
    · exact hr.unspawned v
    · exact hr'.unspawned v

/-- The registrations are the same, in some order. -/
theorem sameSequences_registrations_perm (h : SameSequences Directive.place ds es)
    (hr : Reached ds cfg) (hr' : Reached es cfg') :
    cfg.registrations.Perm cfg'.registrations := by
  rw [hr.registrations, hr'.registrations]
  apply List.Perm.flatten
  rw [← map_snd_along ds, ← map_snd_along es]
  exact (sameSequences_along registered_atPlace h).perm.map Prod.snd

theorem sameSequences_kindsApart (h : SameSequences Directive.place ds es) {fold : CStr → CStr}
    (hapart : KindsApart fold ds) : KindsApart fold es := by
  intro L L' direction hL hL' n hn n' hn'
  rw [← sameSequences_accepted_eq h] at hn hn'
  exact hapart L L' direction hL hL' n hn n' hn'

end

/-- **The order between sections and servers does not matter.**  Two runs with the same
directives in the same order in every section and every server leave the same records,
answer each directive with the same message, and make the same registrations, if in
another order; and unless some name is taken by filter lists of both kinds, httpd records
the same type for every name. -/
theorem interleavings_agree (ds es : List Directive) (h : SameSequences Directive.place ds es) :
    ∃ messages cfg messages' cfg', configure ds Config.start = .ok (messages, cfg) ∧
      configure es Config.start = .ok (messages', cfg') ∧
      cfg.sections = cfg'.sections ∧ cfg.servers = cfg'.servers ∧
      SameSequences Prod.fst ((ds.map Directive.place).zip messages)
        ((es.map Directive.place).zip messages') ∧
      cfg.registrations.Perm cfg'.registrations ∧
      ∀ fold, KindsApart fold ds → ∀ (L : ListId) direction ftype,
        L.filterType = some (direction, ftype) → ∀ n ∈ accepted L ds,
          ftypeOf fold cfg.registrations direction n
            = ftypeOf fold cfg'.registrations direction n := by
  obtain ⟨cfg, hrun, hr⟩ := configure_start ds
  obtain ⟨cfg', hrun', hr'⟩ := configure_start es
  obtain ⟨hsections, hservers⟩ := sameSequences_records_eq h hr hr'
  refine ⟨_, cfg, _, cfg', hrun, hrun', hsections, hservers, ?_,
    sameSequences_registrations_perm h hr hr', ?_⟩
  · rw [zip_place_along, zip_place_along]
    exact sameSequences_along message_atPlace h
  · intro fold hapart L direction ftype hL n hn
    have hn' := hn
    rw [sameSequences_accepted_eq h] at hn'
    rw [hapart.ftypeOf_eq hr hL hn, (sameSequences_kindsApart h hapart).ftypeOf_eq hr' hL hn']

/-- Two directives of one section around one of another, and after it. -/
theorem interleavings_agree_three :
    ∃ messages cfg messages' cfg',
      configure [.inSection 0 (.addCPPHandler (cStr (literal "f"))),
          .inSection 1 (.addCPPHandler (cStr (literal "g"))),
          .inSection 0 (.addCPPHandler (cStr (literal "h")))] Config.start
        = .ok (messages, cfg) ∧
      configure [.inSection 1 (.addCPPHandler (cStr (literal "g"))),
          .inSection 0 (.addCPPHandler (cStr (literal "f"))),
          .inSection 0 (.addCPPHandler (cStr (literal "h")))] Config.start
        = .ok (messages', cfg') ∧
      cfg.sections = cfg'.sections := by
  obtain ⟨messages, cfg, messages', cfg', hrun, hrun', hsections, -⟩ := interleavings_agree
    [.inSection 0 (.addCPPHandler (cStr (literal "f"))),
      .inSection 1 (.addCPPHandler (cStr (literal "g"))),
      .inSection 0 (.addCPPHandler (cStr (literal "h")))]
    [.inSection 1 (.addCPPHandler (cStr (literal "g"))),
      .inSection 0 (.addCPPHandler (cStr (literal "f"))),
      .inSection 0 (.addCPPHandler (cStr (literal "h")))]
    (by
      intro p
      by_cases h0 : Place.inSection 0 = p
      · subst h0
        rfl
      · by_cases h1 : Place.inSection 1 = p
        · subst h1
          rfl
        · simp [Directive.place, h0, h1])
  exact ⟨messages, cfg, messages', cfg', hrun, hrun', hsections⟩

end ModCplusplus
