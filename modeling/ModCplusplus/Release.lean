import ModCplusplus.Wrappers
import Mathlib.Data.List.Intervals
import Mathlib.Data.List.Perm.Basic

/-!
# The release of the wrappers

`CALL_REQ_FUNCTION` holds the wrapper of the request in an `auto_ptr`, whose end deletes
it.  The destructors go on to what the members of a wrapper point to, and of the wrappers
built along `prev` and `next` no member knows: they are never deleted, and nor are those
built from them.

## Main definitions

* `Destroyed` — the objects destroyed, in order.
* `deleteServerRec`, `deleteRequestRec` — `delete`, with the destructors.
* `Unredirected` — none of a request, its main request, and so on is redirected.
* `AllReleased` — every object built is destroyed, and once.

## Main results

* `released_newServerRec` — the list of servers is released.
* `released_newRequestRec` — what is released of the wrappers of a request.
* `all_released_iff` — when all of them are.
-/

namespace ModCplusplus

open Links

/-! ### The destructors -/

/-- The objects destroyed, in order; one that is deleted twice would be listed twice. -/
structure Destroyed where
  requests : List ℕ
  servers : List ℕ
  deriving DecidableEq

namespace Destroyed

/-- Nothing destroyed. -/
def nothing : Destroyed := ⟨[], []⟩

/-- Some objects destroyed, and others after them. -/
def and (x y : Destroyed) : Destroyed := ⟨x.requests ++ y.requests, x.servers ++ y.servers⟩

@[simp] theorem and_nothing (x : Destroyed) : x.and nothing = x := by simp [Destroyed.and, nothing]

theorem and_assoc (x y z : Destroyed) : (x.and y).and z = x.and (y.and z) := by
  simp [Destroyed.and]

end Destroyed

/-- `delete p`, which does nothing if `p` is NULL. -/
def deleteUnlessNull (delete : ℕ → Destroyed → Option Destroyed) (p : Option ℕ)
    (gone : Destroyed) : Option Destroyed :=
  match p with
  | none => some gone
  | some p => delete p gone

/-- `delete` of an `ApacheServerRec`, to a depth of so many. -/
def deleteServerRec (objs : Objects) : ℕ → ℕ → Destroyed → Option Destroyed
  | 0, _, _ => none
  | fuel + 1, this, gone => do
      let o ← objs.servers[this]?
      let gone ← deleteUnlessNull (deleteServerRec objs fuel) o.mNext gone
      return gone.and ⟨[], [this]⟩

/-- `delete` of an `ApacheRequestRec`, to a depth of so many. -/
def deleteRequestRec (objs : Objects) : ℕ → ℕ → Destroyed → Option Destroyed
  | 0, _, _ => none
  | fuel + 1, this, gone => do
      let o ← objs.requests[this]?
      let gone ← deleteUnlessNull (deleteRequestRec objs fuel) o.mPrev gone
      let gone ← deleteUnlessNull (deleteRequestRec objs fuel) o.mNext gone
      let gone ← deleteUnlessNull (deleteRequestRec objs fuel) o.mMain gone
      let gone ← deleteUnlessNull (deleteServerRec objs fuel) o.mServer gone
      return gone.and ⟨[this], []⟩

/-! ### What is destroyed -/

/-- Enough depth destroys these objects. -/
def Destroys (delete : ℕ → Destroyed → Option Destroyed) (x : Destroyed) : Prop :=
  ∀ᶠ fuel in Filter.atTop, ∀ gone, delete fuel gone = some (gone.and x)

theorem destroys_none (delete : ℕ → ℕ → Destroyed → Option Destroyed) :
    Destroys (fun fuel => deleteUnlessNull (delete fuel) none) .nothing :=
  Filter.Eventually.of_forall fun _ gone => congrArg some (Destroyed.and_nothing gone).symm

theorem destroys_server {objs : Objects} {t : ℕ} {o : ApacheServerRec} {x : Destroyed}
    (ho : objs.servers[t]? = some o)
    (hnext : Destroys (fun fuel => deleteUnlessNull (deleteServerRec objs fuel) o.mNext) x) :
    Destroys (fun fuel => deleteServerRec objs fuel t) (x.and ⟨[], [t]⟩) := by
  refine eventually_succ hnext fun fuel hnext gone => ?_
  dsimp only at hnext
  show deleteServerRec objs (fuel + 1) t gone = _
  rw [deleteServerRec, ho, Option.bind_eq_bind, Option.bind_some, hnext gone]
  exact congrArg some (Destroyed.and_assoc _ _ _)

theorem destroys_request {objs : Objects} {w : ℕ} {mMain mServer : Option ℕ} {r : ℕ}
    {x y : Destroyed} (ho : objs.requests[w]? = some ⟨r, none, none, mMain, mServer⟩)
    (hmain : Destroys (fun fuel => deleteUnlessNull (deleteRequestRec objs fuel) mMain) x)
    (hserver : Destroys (fun fuel => deleteUnlessNull (deleteServerRec objs fuel) mServer) y) :
    Destroys (fun fuel => deleteRequestRec objs fuel w) ((x.and y).and ⟨[w], []⟩) := by
  refine eventually_succ (hmain.and hserver) fun fuel hboth gone => ?_
  obtain ⟨hmain, hserver⟩ := hboth
  dsimp only at hmain hserver
  show deleteRequestRec objs (fuel + 1) w gone = _
  rw [deleteRequestRec, ho]
  show ((deleteUnlessNull (deleteRequestRec objs fuel) mMain gone).bind fun gone =>
    (deleteUnlessNull (deleteServerRec objs fuel) mServer gone).bind fun gone =>
      some (gone.and ⟨[w], []⟩)) = _
  rw [hmain gone, Option.bind_some, hserver, Option.bind_some, Destroyed.and_assoc,
    Destroyed.and_assoc, Destroyed.and_assoc]

/-! ### Objects that stay -/

/-- What is in memory from an address on is there later. -/
def Keeps {α : Type} (n : ℕ) (l l' : List α) : Prop :=
  ∀ i, n ≤ i → ∀ a, l[i]? = some a → l'[i]? = some a

section

variable {α : Type} {n m : ℕ} {l l' l'' : List α}

theorem Keeps.trans (h : Keeps n l l') (h' : Keeps n l' l'') : Keeps n l l'' :=
  fun i hi a ha => h' i hi a (h i hi a ha)

theorem Keeps.mono (hnm : n ≤ m) (h : Keeps n l l') : Keeps m l l' :=
  fun i hi => h i (hnm.trans hi)

theorem keeps_append (h : l <+: l') : Keeps n l l' := by
  rintro i - a ha
  obtain ⟨more, rfl⟩ := h
  rw [List.getElem?_append_left (List.getElem?_eq_some_iff.mp ha).1]
  exact ha

theorem keeps_modify (f : α → α) (h : m < n) : Keeps n l (l.modify m f) := by
  intro i hi a ha
  rw [List.getElem?_modify_ne f l (by omega)]
  exact ha

end

/-! ### The list of servers -/

theorem length_allocServer (objs : Objects) (s : ℕ) :
    (objs.allocServer s).servers.length = objs.servers.length + 1 := List.length_append

/-- Wrappers of servers are added, if every call adds some. -/
theorem prefix_newUnlessNull {new : ℕ → Objects → Option (ℕ × Objects)} {p x : Option ℕ}
    {objs objs' : Objects}
    (hnew : ∀ s w objs', new s objs = some (w, objs') → objs.servers <+: objs'.servers)
    (h : newUnlessNull new p objs = some (x, objs')) : objs.servers <+: objs'.servers :=
  rel_newUnlessNull (R := fun a b => a.servers <+: b.servers) List.prefix_rfl hnew h

/-- The wrapper that is allocated first stays in its place. -/
theorem finishServer_of_grows {objs objs₁ : Objects} {s : ℕ}
    (h : (objs.allocServer s).servers <+: objs₁.servers) (mNext : Option ℕ) :
    ∃ more, (objs₁.finishServer objs.servers.length mNext).servers
      = objs.servers ++ ⟨s, mNext⟩ :: more := by
  obtain ⟨more, hmore⟩ := h
  refine ⟨more, ?_⟩
  show objs₁.servers.modify _ _ = _
  rw [← hmore, Objects.allocServer, List.append_assoc, List.singleton_append, modify_length_append]

theorem prefix_newServerRec {q : Records} {fuel s t : ℕ} {objs objs' : Objects}
    (h : newServerRec q fuel s objs = some (t, objs')) : objs.servers <+: objs'.servers := by
  induction fuel generalizing s t objs objs' with
  | zero => exact nomatch h
  | succ fuel ih =>
    obtain ⟨-, mNext, objs₁, hnext, rfl⟩ := newServerRec_cases h
    obtain ⟨more, hmore⟩ :=
      finishServer_of_grows (prefix_newUnlessNull (fun _ _ _ h => ih h) hnext) mNext
    exact hmore ▸ List.prefix_append _ _

/-- **A list of servers is released** from its first wrapper. -/
theorem released_newServerRec {q : Records} {fuel s t : ℕ} {objs objs' objs'' : Objects}
    (h : newServerRec q fuel s objs = some (t, objs'))
    (hkeeps : Keeps objs.servers.length objs'.servers objs''.servers) :
    ∃ ss, ss.Perm (List.Ico objs.servers.length objs'.servers.length) ∧
      Destroys (fun fuel => deleteServerRec objs'' fuel t) ⟨[], ss⟩ := by
  induction fuel generalizing s t objs objs' with
  | zero => exact nomatch h
  | succ fuel ih =>
    obtain ⟨rfl, mNext, objs₁, hnext, rfl⟩ := newServerRec_cases h
    have hgrows := prefix_newUnlessNull (fun _ _ _ h => prefix_newServerRec h) hnext
    obtain ⟨more, hmore⟩ := finishServer_of_grows hgrows mNext
    have hlength : (objs₁.finishServer objs.servers.length mNext).servers.length
        = objs₁.servers.length := List.length_modify _ _ _
    have hstart := length_allocServer objs s
    have hlt : objs.servers.length < objs₁.servers.length := by
      have := hgrows.length_le
      omega
    have ho : objs''.servers[objs.servers.length]? = some ⟨s, mNext⟩ := by
      refine hkeeps _ le_rfl _ ?_
      rw [hmore]
      simp
    have hkeeps' : Keeps (objs.servers.length + 1) objs₁.servers objs''.servers :=
      (keeps_modify _ (Nat.lt_succ_self _)).trans (hkeeps.mono (Nat.le_succ _))
    obtain ⟨ss, hperm, hdestroys⟩ :
        ∃ ss, ss.Perm (List.Ico (objs.servers.length + 1) objs₁.servers.length) ∧
          Destroys (fun fuel => deleteUnlessNull (deleteServerRec objs'' fuel) mNext) ⟨[], ss⟩ := by
      rcases newUnlessNull_cases hnext with ⟨-, rfl, rfl⟩ | ⟨_, u, -, rfl, hcall⟩
      · rw [hstart, List.Ico.self_empty]
        exact ⟨[], List.Perm.refl _, destroys_none _⟩
      · rw [← hstart] at hkeeps' ⊢
        exact ih hcall hkeeps'
    refine ⟨ss ++ [objs.servers.length], ?_, destroys_server ho hdestroys⟩
    rw [hlength, List.Ico.eq_cons hlt]
    exact (List.perm_append_singleton _ _).trans (hperm.cons _)

/-! ### The wrappers of a request -/

theorem length_allocRequest (objs : Objects) (r : ℕ) (pPrev pNext : Option ℕ) :
    (objs.allocRequest r pPrev pNext).requests.length = objs.requests.length + 1 :=
  List.length_append

/-- None of a request, its main request, and so on is redirected to or from another. -/
def Unredirected (q : Records) (r : ℕ) : Prop :=
  ∀ m, Relation.ReflTransGen (fun a b => q.main a = some b) r m → q.prev m = none ∧ q.next m = none

theorem unredirected_iff {q : Records} {r : ℕ} :
    Unredirected q r ↔ (q.prev r = none ∧ q.next r = none) ∧
      ∀ m, q.main r = some m → Unredirected q m := by
  constructor
  · intro h
    refine ⟨h r Relation.ReflTransGen.refl, fun m hm m' hm' => ?_⟩
    exact h m' (Relation.ReflTransGen.head hm hm')
  · rintro ⟨hr, hmain⟩ m hm
    rcases Relation.ReflTransGen.cases_head hm with rfl | ⟨m', hm', hrest⟩
    · exact hr
    · exact hmain m' hm' m hrest

/-- Wrappers of servers are added. -/
theorem servers_newRequestRec {q : Records} {fuel r w : ℕ} {pPrev pNext : Option ℕ}
    {objs objs' : Objects} (h : newRequestRec q fuel r pPrev pNext objs = some (w, objs')) :
    objs.servers <+: objs'.servers := by
  induction fuel generalizing r w pPrev pNext objs objs' with
  | zero => exact nomatch h
  | succ fuel ih =>
    obtain ⟨-, _, objs₁, _, objs₂, mMain, objs₃, mServer, objs₄, hprev, hnext, hmain, hserver,
      rfl⟩ := newRequestRec_cases h
    have hprev := prefix_newUnlessNull (fun _ _ _ h => ih h) hprev
    have hnext := prefix_newUnlessNull (fun _ _ _ h => ih h) hnext
    have hmain := prefix_newUnlessNull (fun _ _ _ h => ih h) hmain
    have hserver : objs₃.servers <+: objs₄.servers := prefix_newServerRec hserver
    exact ((hprev.trans hnext).trans hmain).trans hserver

/-- Nothing is built for a NULL pointer, and a wrapper for any other. -/
def BuiltUnlessNull (p : Option ℕ) (objs objs' : Objects) : Prop :=
  (p = none ∧ objs' = objs) ∨ (p ≠ none ∧ objs.requests.length < objs'.requests.length)

theorem built_newUnlessNull {q : Records} {fuel : ℕ} {pPrev pNext p x : Option ℕ}
    {objs objs' : Objects}
    (h : newUnlessNull (fun s => newRequestRec q fuel s pPrev pNext) p objs = some (x, objs')) :
    BuiltUnlessNull p objs objs' := by
  rcases newUnlessNull_cases h with ⟨hp, -, hobjs⟩ | ⟨s, w, rfl, -, hcall⟩
  · exact Or.inl ⟨hp, hobjs⟩
  · obtain ⟨-, mMain, mServer, hprefix⟩ := newRequestRec_members hcall
    refine Or.inr ⟨Option.some_ne_none s, ?_⟩
    have := hprefix.length_le
    rw [List.length_append, List.length_singleton] at this
    omega

section

variable {p : Option ℕ} {objs objs' : Objects}

theorem BuiltUnlessNull.length_le (h : BuiltUnlessNull p objs objs') :
    objs.requests.length ≤ objs'.requests.length := by
  rcases h with ⟨-, rfl⟩ | ⟨-, hlt⟩
  · exact le_rfl
  · exact hlt.le

theorem BuiltUnlessNull.eq_of_null (h : BuiltUnlessNull p objs objs') (hp : p = none) :
    objs' = objs := by
  rcases h with ⟨-, heq⟩ | ⟨hne, -⟩
  · exact heq
  · exact absurd hp hne

theorem BuiltUnlessNull.null_of_length_le (h : BuiltUnlessNull p objs objs')
    (hle : objs'.requests.length ≤ objs.requests.length) : p = none := by
  rcases h with ⟨hp, -⟩ | ⟨-, hlt⟩
  · exact hp
  · omega

end

/-- What is destroyed of the objects built from a request, compared to what has been
built: all of it, if the requests are not redirected, and else not all of it. -/
structure Released (P : Prop) (objs objs' : Objects) (x : Destroyed) : Prop where
  length_le : objs.requests.length + x.requests.length ≤ objs'.requests.length
  unredirected : objs.requests.length + x.requests.length = objs'.requests.length → P
  requests : P → x.requests.Perm (List.Ico objs.requests.length objs'.requests.length)
  servers : P → x.servers.Perm (List.Ico objs.servers.length objs'.servers.length)

/-- Nothing is built, and nothing destroyed. -/
theorem released_nothing {P : Prop} (hP : P) (objs : Objects) : Released P objs objs .nothing where
  length_le := le_rfl
  unredirected _ := hP
  requests _ := by
    rw [List.Ico.self_empty]
    exact List.Perm.refl _
  servers _ := by
    rw [List.Ico.self_empty]
    exact List.Perm.refl _

theorem Released.of_iff {P P' : Prop} {objs objs' : Objects} {x : Destroyed}
    (h : Released P objs objs' x) (hP : P ↔ P') : Released P' objs objs' x :=
  propext hP ▸ h

/-- From the wrappers of the main request to those of the request. -/
theorem Released.step {q : Records} {r : ℕ} {objs objs₁ objs₂ objs₃ objs' : Objects}
    {x : Destroyed} {ss : List ℕ}
    (hmain : Released (∀ m, q.main r = some m → Unredirected q m) objs₂ objs₃ x)
    (hprev : BuiltUnlessNull (q.prev r) (objs.allocRequest r none none) objs₁)
    (hnext : BuiltUnlessNull (q.next r) objs₁ objs₂)
    (hss : ss.Perm (List.Ico objs₃.servers.length objs'.servers.length))
    (hlength : objs'.requests.length = objs₃.requests.length)
    (hgrows : objs₂.servers.length ≤ objs₃.servers.length)
    (hgrows' : objs₃.servers.length ≤ objs'.servers.length) :
    Released (Unredirected q r) objs objs' ((x.and ⟨[], ss⟩).and ⟨[objs.requests.length], []⟩) := by
  have hstart := length_allocRequest objs r none none
  have hcount : ((x.and ⟨[], ss⟩).and ⟨[objs.requests.length], []⟩).requests.length
      = x.requests.length + 1 := by
    simp [Destroyed.and]
  have hle := hmain.length_le
  have hfirst := hprev.length_le
  have hsecond := hnext.length_le
  have hstays (h : Unredirected q r) : objs₂ = objs.allocRequest r none none := by
    obtain ⟨⟨hp, hn⟩, -⟩ := unredirected_iff.mp h
    exact (hnext.eq_of_null hn).trans (hprev.eq_of_null hp)
  refine ⟨by omega, fun heq => unredirected_iff.mpr ⟨⟨?_, ?_⟩, ?_⟩, fun h => ?_, fun h => ?_⟩
  · exact hprev.null_of_length_le (by omega)
  · exact hnext.null_of_length_le (by omega)
  · exact hmain.unredirected (by omega)
  · have hrequests := hmain.requests (unredirected_iff.mp h).2
    rw [hstays h, hstart] at hrequests
    rw [hlength, List.Ico.eq_cons (by omega)]
    show (x.requests ++ [] ++ [objs.requests.length]).Perm _
    rw [List.append_nil]
    exact (List.perm_append_singleton _ _).trans (hrequests.cons _)
  · have hsame : objs₂.servers = objs.servers := by
      rw [hstays h]
      rfl
    have hservers := hmain.servers (unredirected_iff.mp h).2
    rw [hsame] at hservers hgrows
    rw [← List.Ico.append_consecutive hgrows hgrows']
    show (x.servers ++ ss ++ []).Perm _
    rw [List.append_nil]
    exact hservers.append hss

/-- **What is released of the wrappers of a request**: those of its main request, of the
main request of that and so on, each with its list of servers, and no others. -/
theorem released_newRequestRec {q : Records} {fuel r w : ℕ} {objs objs' objs'' : Objects}
    (h : newRequestRec q fuel r none none objs = some (w, objs'))
    (hrequests : Keeps objs.requests.length objs'.requests objs''.requests)
    (hservers : Keeps objs.servers.length objs'.servers objs''.servers) :
    ∃ x, Destroys (fun fuel => deleteRequestRec objs'' fuel w) x ∧
      Released (Unredirected q r) objs objs' x := by
  induction fuel generalizing r w objs objs' with
  | zero => exact nomatch h
  | succ fuel ih =>
    obtain ⟨rfl, _, objs₁, _, objs₂, mMain, objs₃, mServer, objs₄, hprev, hnext, hmain, hserver,
      rfl⟩ := newRequestRec_cases h
    rw [if_pos rfl] at hprev hnext
    have hstart := length_allocRequest objs r none none
    have hsame : objs₄.requests = objs₃.requests := requests_newServerRec hserver
    have hlength : (objs₄.finishRequest objs.requests.length mMain (some mServer)).requests.length
        = objs₃.requests.length := (List.length_modify _ _ _).trans (congrArg _ hsame)
    -- the wrapper itself
    have hgrows₁ := grows_newUnlessNull hprev
    have hgrows₂ := grows_newUnlessNull hnext
    have hgrows₃ := grows_newUnlessNull hmain
    have ho : objs''.requests[objs.requests.length]?
        = some ⟨r, none, none, mMain, some mServer⟩ := by
      refine hrequests _ le_rfl _ ?_
      have hstays := (hgrows₁.trans hgrows₂).trans hgrows₃
      rw [← hsame] at hstays
      obtain ⟨more, hmore⟩ := finishRequest_of_grows hstays mMain (some mServer)
      rw [hmore]
      simp
    have hkeeps : Keeps objs₂.requests.length objs₃.requests objs''.requests := by
      have hlt : objs.requests.length < objs₂.requests.length := by
        have := (hgrows₁.trans hgrows₂).length_le
        omega
      rw [← hsame]
      exact (keeps_modify _ hlt).trans (hrequests.mono hlt.le)
    -- the wrappers of the servers
    have hservers₁ := prefix_newUnlessNull (fun _ _ _ h => servers_newRequestRec h) hprev
    have hservers₂ := prefix_newUnlessNull (fun _ _ _ h => servers_newRequestRec h) hnext
    have hservers₃ := prefix_newUnlessNull (fun _ _ _ h => servers_newRequestRec h) hmain
    have hservers₄ : objs₃.servers <+: objs₄.servers := prefix_newServerRec hserver
    have hle : objs.servers.length ≤ objs₂.servers.length := (hservers₁.trans hservers₂).length_le
    have hkeeps' : Keeps objs₃.servers.length objs₄.servers objs''.servers :=
      hservers.mono (hle.trans hservers₃.length_le)
    obtain ⟨ss, hss, hdestroys'⟩ := released_newServerRec hserver hkeeps'
    -- the wrapper of the main request
    obtain ⟨x, hdestroys, hreleased⟩ :
        ∃ x, Destroys (fun fuel => deleteUnlessNull (deleteRequestRec objs'' fuel) mMain) x ∧
          Released (∀ m, q.main r = some m → Unredirected q m) objs₂ objs₃ x := by
      rcases newUnlessNull_cases hmain with ⟨hnone, rfl, rfl⟩ | ⟨m, w, hm, rfl, hcall⟩
      · refine ⟨.nothing, destroys_none _, released_nothing (fun m hm => ?_) _⟩
        exact absurd (hnone.symm.trans hm).symm (Option.some_ne_none m)
      · obtain ⟨x, hdestroys, hreleased⟩ := ih hcall hkeeps
          ((keeps_append hservers₄).trans (hservers.mono hle))
        refine ⟨x, hdestroys, hreleased.of_iff ⟨fun hlone m' hm' => ?_, fun h => h m hm⟩⟩
        rwa [← Option.some.inj (hm.symm.trans hm')]
    exact ⟨_, destroys_request ho hdestroys hdestroys',
      hreleased.step (built_newUnlessNull hprev) (built_newUnlessNull hnext) hss hlength
        hservers₃.length_le hservers₄.length_le⟩

/-! ### The law -/

/-- **Every object built is destroyed, and once**, when the wrapper that
`ApacheRequestRec( r )` builds is deleted, whatever objects there are before. -/
def AllReleased (q : Records) (r : ℕ) : Prop :=
  ∀ objs, (∃ fuel, (newRequestRec q fuel r none none objs).isSome) ∧
    ∀ fuel w objs', newRequestRec q fuel r none none objs = some (w, objs') →
      ∃ x, (∀ᶠ depth in Filter.atTop, deleteRequestRec objs' depth w .nothing = some x) ∧
        x.requests.Perm (List.Ico objs.requests.length objs'.requests.length) ∧
        x.servers.Perm (List.Ico objs.servers.length objs'.servers.length)

theorem keeps_refl {α : Type} (n : ℕ) (l : List α) : Keeps n l l := fun _ _ _ ha => ha

/-- **All wrappers are released if and only if no request of the chain of main requests
is redirected.** -/
theorem all_released_iff (g : RequestGraph) (r : ℕ) :
    AllReleased g.toRecords r ↔ Unredirected g.toRecords r := by
  constructor
  · intro h
    obtain ⟨fuel, hsome⟩ := g.exists_isSome r ⟨[], []⟩
    obtain ⟨⟨w, objs'⟩, hbuilt⟩ := Option.isSome_iff_exists.mp hsome
    obtain ⟨x, hx, hreleased⟩ :=
      released_newRequestRec hbuilt (keeps_refl _ _) (keeps_refl _ objs'.servers)
    obtain ⟨y, hy, hrequests, -⟩ := (h _).2 fuel w objs' hbuilt
    -- deleting comes to the same end to any depth that is large enough
    obtain ⟨depth, hx, hy⟩ := (hx.and hy).exists
    obtain rfl : y = x := Option.some.inj (hy.symm.trans (hx .nothing))
    have hlength := hrequests.length_eq
    rw [List.Ico.length] at hlength
    exact hreleased.unredirected (by have := hreleased.length_le; omega)
  · intro hlone objs
    refine ⟨g.exists_isSome r objs, fun fuel w objs' hbuilt => ?_⟩
    obtain ⟨x, hx, hreleased⟩ :=
      released_newRequestRec hbuilt (keeps_refl _ _) (keeps_refl _ objs'.servers)
    refine ⟨x, hx.mono fun depth hdepth => hdepth .nothing, hreleased.requests hlone,
      hreleased.servers hlone⟩

/-- A request that was redirected: the wrapper of the one before it is left over, with
that of its server. -/
theorem not_allReleased_redirect :
    newRequestRec redirect.toRecords 3 1 none none ⟨[], []⟩
        = some (0, ⟨[⟨1, none, none, none, some 1⟩, ⟨0, none, some 0, none, some 0⟩],
            [⟨0, none⟩, ⟨0, none⟩]⟩) ∧
      deleteRequestRec ⟨[⟨1, none, none, none, some 1⟩, ⟨0, none, some 0, none, some 0⟩],
        [⟨0, none⟩, ⟨0, none⟩]⟩ 2 0 .nothing = some ⟨[0], [1]⟩ ∧
      ¬ AllReleased redirect.toRecords 1 := by
  have hbuilt : newRequestRec redirect.toRecords 3 1 none none ⟨[], []⟩
      = some (0, ⟨[⟨1, none, none, none, some 1⟩, ⟨0, none, some 0, none, some 0⟩],
          [⟨0, none⟩, ⟨0, none⟩]⟩) := rfl
  refine ⟨hbuilt, rfl, fun h => ?_⟩
  obtain ⟨y, hy, hrequests, -⟩ := (h _).2 3 0 _ hbuilt
  have hdelete : ∀ depth, deleteRequestRec ⟨[⟨1, none, none, none, some 1⟩,
      ⟨0, none, some 0, none, some 0⟩], [⟨0, none⟩, ⟨0, none⟩]⟩ (depth + 2) 0 .nothing
        = some ⟨[0], [1]⟩ := fun _ => rfl
  obtain ⟨depth, hdepth⟩ := ((Filter.tendsto_add_atTop_nat 2).eventually hy).exists
  obtain rfl := Option.some.inj (hdepth.symm.trans (hdelete depth))
  exact absurd hrequests.length_eq (by decide)

end ModCplusplus
