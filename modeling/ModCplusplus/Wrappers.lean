import ModCplusplus.General.Links
import Mathlib.Logic.Relation

/-!
# The wrappers of a request

An `ApacheRequestRec` wraps a `request_rec`, and its constructor goes on to wrap the
requests the record is linked with: along `prev` and `next`, handing itself on so that
the new wrapper does not turn back, and from `main` with neither.  Each wrapper has a
list of `ApacheServerRec` of its own.

The two wrappers built along `prev` and `next` are assigned to the arguments `pPrev`
and `pNext`, when `mPrev` and `mNext` have been assigned from them already.

## Main definitions

* `Records`, `RequestGraph` — the records in memory, and those that httpd builds.
* `ApacheRequestRec`, `ApacheServerRec`, `Objects` — the wrappers.
* `newServerRec`, `newRequestRec` — the constructors.
* `NavigationMirrors` — going from wrapper to wrapper as from record to record.

## Main results

* `RequestGraph.returns` — the constructor returns.
* `newRequestRec_cases` — what it does, call by call.
* `newRequestRec_members` — what it assigns, and that it leaves other wrappers alone.
* `navigation_mirrors_iff` — when its wrappers are linked as the records are.
-/

namespace ModCplusplus

open Links

/-! ### The records -/

/-- The links of a `request_rec`. -/
structure RequestLinks where
  prev : Option ℕ
  next : Option ℕ
  main : Option ℕ
  server : ℕ
  deriving DecidableEq

/-- The records in memory, by their addresses. -/
structure Records where
  links : ℕ → RequestLinks
  -- the `next` of a `server_rec`
  nextServer : ℕ → Option ℕ

namespace Records

variable (q : Records)

/-- `r->prev`. -/
def prev (r : ℕ) : Option ℕ := (q.links r).prev

/-- `r->next`. -/
def next (r : ℕ) : Option ℕ := (q.links r).next

/-- `r->main`. -/
def main (r : ℕ) : Option ℕ := (q.links r).main

/-- `r->server`. -/
def server (r : ℕ) : ℕ := (q.links r).server

/-- A request one redirect away. -/
def Redirected (r s : ℕ) : Prop := q.prev r = some s ∨ q.next r = some s

/-- A request of the same chain of redirects. -/
def SameChain : ℕ → ℕ → Prop := Relation.ReflTransGen q.Redirected

/-- The main request of a request of the chain. -/
def MainOf (m r : ℕ) : Prop := ∃ s, q.SameChain r s ∧ q.main s = some m

end Records

/-- The records as httpd builds them: `prev` and `next` are the inverse of each other,
and chains, subrequests and the list of servers come to an end. -/
structure RequestGraph extends Records where
  inverse : ∀ r s, toRecords.next r = some s ↔ toRecords.prev s = some r
  prev_finite : WellFounded fun s r => toRecords.prev r = some s
  next_finite : WellFounded fun s r => toRecords.next r = some s
  main_finite : WellFounded toRecords.MainOf
  server_finite : WellFounded fun t s => nextServer s = some t

/-! ### The wrappers -/

/-- An `ApacheServerRec`. -/
structure ApacheServerRec where
  mServer : ℕ
  mNext : Option ℕ
  deriving DecidableEq

/-- An `ApacheRequestRec`; `none` is NULL, and in `mMain` and `mServer` also what is
there before they are assigned. -/
structure ApacheRequestRec where
  mRequest : ℕ
  mPrev : Option ℕ
  mNext : Option ℕ
  mMain : Option ℕ
  mServer : Option ℕ
  deriving DecidableEq

/-- The wrappers in memory, by their addresses. -/
structure Objects where
  requests : List ApacheRequestRec
  servers : List ApacheServerRec
  deriving DecidableEq

namespace Objects

/-- A new `ApacheRequestRec`, with the members assigned first. -/
def allocRequest (objs : Objects) (r : ℕ) (pPrev pNext : Option ℕ) : Objects :=
  { objs with requests := objs.requests ++ [⟨r, pPrev, pNext, none, none⟩] }

/-- The members of an `ApacheRequestRec` assigned last. -/
def finishRequest (objs : Objects) (this : ℕ) (mMain mServer : Option ℕ) : Objects :=
  { objs with requests := objs.requests.modify this fun o => { o with mMain, mServer } }

/-- A new `ApacheServerRec`. -/
def allocServer (objs : Objects) (s : ℕ) : Objects :=
  { objs with servers := objs.servers ++ [⟨s, none⟩] }

/-- The member of an `ApacheServerRec` assigned last. -/
def finishServer (objs : Objects) (this : ℕ) (mNext : Option ℕ) : Objects :=
  { objs with servers := objs.servers.modify this fun o => { o with mNext } }

/-- `get_request_rec`. -/
def request (objs : Objects) (w : ℕ) : Option ℕ := objs.requests[w]?.map ApacheRequestRec.mRequest

/-- `prev`. -/
def prev (objs : Objects) (w : ℕ) : Option ℕ := objs.requests[w]?.bind ApacheRequestRec.mPrev

/-- `next`. -/
def next (objs : Objects) (w : ℕ) : Option ℕ := objs.requests[w]?.bind ApacheRequestRec.mNext

end Objects

/-- `p ? new …( p ) : NULL`. -/
def newUnlessNull (new : ℕ → Objects → Option (ℕ × Objects)) (p : Option ℕ) (objs : Objects) :
    Option (Option ℕ × Objects) :=
  match p with
  | none => some (none, objs)
  | some p => (new p objs).map fun out => (some out.1, out.2)

/-- `ApacheServerRec::ApacheServerRec`, to a depth of so many. -/
def newServerRec (q : Records) : ℕ → ℕ → Objects → Option (ℕ × Objects)
  | 0, _, _ => none
  | fuel + 1, s, objs => do
      let this := objs.servers.length
      let (mNext, objs) ← newUnlessNull (newServerRec q fuel) (q.nextServer s) (objs.allocServer s)
      return (this, objs.finishServer this mNext)

/-- `ApacheRequestRec::ApacheRequestRec`, to a depth of so many. -/
def newRequestRec (q : Records) : ℕ → ℕ → Option ℕ → Option ℕ → Objects → Option (ℕ × Objects)
  | 0, _, _, _, _ => none
  | fuel + 1, r, pPrev, pNext, objs => do
      let this := objs.requests.length
      let objs := objs.allocRequest r pPrev pNext
      -- what is assigned to the two arguments is not used any more
      let (_pPrev, objs) ← newUnlessNull (fun s => newRequestRec q fuel s none (some this))
        (if pPrev = none then q.prev r else none) objs
      let (_pNext, objs) ← newUnlessNull (fun s => newRequestRec q fuel s (some this) none)
        (if pNext = none then q.next r else none) objs
      let (mMain, objs) ← newUnlessNull (fun m => newRequestRec q fuel m none none) (q.main r) objs
      let (mServer, objs) ← newServerRec q fuel (q.server r) objs
      return (this, objs.finishRequest this mMain (some mServer))

/-! ### The constructors return -/

section

variable {new : ℕ → Objects → Option (ℕ × Objects)} {p : Option ℕ} {objs objs' : Objects}

theorem isSome_newUnlessNull (h : ∀ s, p = some s → (new s objs).isSome) :
    (newUnlessNull new p objs).isSome := by
  cases p with
  | none => rfl
  | some s => simpa [newUnlessNull] using h s rfl

theorem newUnlessNull_cases {x : Option ℕ} (h : newUnlessNull new p objs = some (x, objs')) :
    (p = none ∧ x = none ∧ objs' = objs) ∨
      ∃ s w, p = some s ∧ x = some w ∧ new s objs = some (w, objs') := by
  cases p with
  | none =>
    obtain ⟨rfl, rfl⟩ := Prod.mk.inj (Option.some.inj h)
    exact Or.inl ⟨rfl, rfl, rfl⟩
  | some s =>
    obtain ⟨⟨w, objs₁⟩, hcall, hout⟩ := Option.map_eq_some_iff.mp h
    obtain ⟨rfl, rfl⟩ := Prod.mk.inj hout
    exact Or.inr ⟨s, w, rfl, rfl, hcall⟩

/-- What holds of every call holds of one that is made unless a pointer is NULL. -/
theorem rel_newUnlessNull {R : Objects → Objects → Prop} (hrefl : R objs objs)
    (hnew : ∀ s w objs', new s objs = some (w, objs') → R objs objs') {x : Option ℕ}
    (h : newUnlessNull new p objs = some (x, objs')) : R objs objs' := by
  rcases newUnlessNull_cases h with ⟨-, -, rfl⟩ | ⟨s, w, -, -, hcall⟩
  · exact hrefl
  · exact hnew s w _ hcall

end

section

variable {q : Records} {fuel : ℕ} {objs objs' : Objects}

/-- What the constructor of an `ApacheServerRec` does, when it returns. -/
theorem newServerRec_cases {s t : ℕ} (h : newServerRec q (fuel + 1) s objs = some (t, objs')) :
    t = objs.servers.length ∧ ∃ mNext objs₁,
      newUnlessNull (newServerRec q fuel) (q.nextServer s) (objs.allocServer s)
        = some (mNext, objs₁) ∧
      objs' = objs₁.finishServer objs.servers.length mNext := by
  rw [newServerRec] at h
  obtain ⟨⟨mNext, objs₁⟩, hnext, h⟩ := Option.bind_eq_some_iff.mp h
  obtain ⟨rfl, rfl⟩ := Prod.mk.inj (Option.some.inj h)
  exact ⟨rfl, mNext, objs₁, hnext, rfl⟩

/-- What the constructor of an `ApacheRequestRec` does, when it returns: the calls it
makes one after the other, and the members it assigns. -/
theorem newRequestRec_cases {r w : ℕ} {pPrev pNext : Option ℕ}
    (h : newRequestRec q (fuel + 1) r pPrev pNext objs = some (w, objs')) :
    w = objs.requests.length ∧ ∃ _pPrev objs₁ _pNext objs₂ mMain objs₃ mServer objs₄,
      newUnlessNull (fun s => newRequestRec q fuel s none (some objs.requests.length))
        (if pPrev = none then q.prev r else none) (objs.allocRequest r pPrev pNext)
          = some (_pPrev, objs₁) ∧
      newUnlessNull (fun s => newRequestRec q fuel s (some objs.requests.length) none)
        (if pNext = none then q.next r else none) objs₁ = some (_pNext, objs₂) ∧
      newUnlessNull (fun m => newRequestRec q fuel m none none) (q.main r) objs₂
        = some (mMain, objs₃) ∧
      newServerRec q fuel (q.server r) objs₃ = some (mServer, objs₄) ∧
      objs' = objs₄.finishRequest objs.requests.length mMain (some mServer) := by
  rw [newRequestRec] at h
  obtain ⟨⟨x, objs₁⟩, hprev, h⟩ := Option.bind_eq_some_iff.mp h
  obtain ⟨⟨y, objs₂⟩, hnext, h⟩ := Option.bind_eq_some_iff.mp h
  obtain ⟨⟨mMain, objs₃⟩, hmain, h⟩ := Option.bind_eq_some_iff.mp h
  obtain ⟨⟨mServer, objs₄⟩, hserver, h⟩ := Option.bind_eq_some_iff.mp h
  obtain ⟨rfl, rfl⟩ := Prod.mk.inj (Option.some.inj h)
  exact ⟨rfl, x, objs₁, y, objs₂, mMain, objs₃, mServer, objs₄, hprev, hnext, hmain, hserver, rfl⟩

end

/-- Enough depth builds the wrappers of a server. -/
def ServerReturns (q : Records) (s : ℕ) : Prop :=
  ∀ᶠ fuel in Filter.atTop, ∀ objs, (newServerRec q fuel s objs).isSome

/-- A depth builds the wrappers of a request, handed such wrappers to go back to. -/
def ReturnsIn (q : Records) (hasPrev hasNext : Bool) (r fuel : ℕ) : Prop :=
  ∀ pPrev pNext objs, pPrev.isSome = hasPrev → pNext.isSome = hasNext →
    (newRequestRec q fuel r pPrev pNext objs).isSome

/-- Enough depth does. -/
def Returns (q : Records) (hasPrev hasNext : Bool) (r : ℕ) : Prop :=
  ∀ᶠ fuel in Filter.atTop, ReturnsIn q hasPrev hasNext r fuel

theorem serverReturns_step {q : Records} {s : ℕ}
    (h : ∀ t, q.nextServer s = some t → ServerReturns q t) : ServerReturns q s := by
  refine eventually_succ (eventually_link h) fun fuel hnext objs => ?_
  rw [newServerRec]
  exact isSome_bind (isSome_newUnlessNull fun t ht => hnext t ht _) fun _ => rfl

/-- **The wrappers of a request are built if those of its links are.** -/
theorem returns_step {q : Records} {r : ℕ} {hasPrev hasNext : Bool}
    (hprev : hasPrev = false → ∀ s, q.prev r = some s → Returns q false true s)
    (hnext : hasNext = false → ∀ s, q.next r = some s → Returns q true false s)
    (hmain : ∀ m, q.main r = some m → Returns q false false m)
    (hserver : ServerReturns q (q.server r)) : Returns q hasPrev hasNext r := by
  have hprev' : ∀ s, cond hasPrev none (q.prev r) = some s → Returns q false true s := by
    cases hasPrev with
    | true => exact fun _ => nofun
    | false => exact hprev rfl
  have hnext' : ∀ s, cond hasNext none (q.next r) = some s → Returns q true false s := by
    cases hasNext with
    | true => exact fun _ => nofun
    | false => exact hnext rfl
  have hlinks := ((eventually_link hprev').and (eventually_link hnext')).and (eventually_link hmain)
  refine eventually_succ (hlinks.and hserver) ?_
  rintro fuel ⟨⟨⟨hprev, hnext⟩, hmain⟩, hserver⟩ pPrev pNext objs hpPrev hpNext
  rw [newRequestRec]
  refine isSome_bind (isSome_newUnlessNull fun s hs => ?_) fun _ =>
    isSome_bind (isSome_newUnlessNull fun s hs => ?_) fun _ =>
    isSome_bind (isSome_newUnlessNull fun m hm => hmain m hm _ _ _ rfl rfl) fun _ =>
    isSome_bind (hserver _) fun _ => rfl
  · refine hprev s ?_ _ _ _ rfl rfl
    rw [← hs, ← hpPrev]
    cases pPrev <;> rfl
  · refine hnext s ?_ _ _ _ rfl rfl
    rw [← hs, ← hpNext]
    cases pNext <;> rfl

namespace RequestGraph

variable (g : RequestGraph)

theorem serverReturns (s : ℕ) : ServerReturns g.toRecords s := by
  induction s using g.server_finite.induction with
  | h s ih => exact serverReturns_step ih

/-- **The constructor returns**: the recursion turns back nowhere but at a main request,
and no main request comes again. -/
theorem returns (r : ℕ) : Returns g.toRecords false false r := by
  induction r using g.main_finite.induction with
  | h r ih =>
    have hmain {s : ℕ} (hs : g.SameChain r s) : ∀ m, g.main s = some m →
        Returns g.toRecords false false m := fun m hm => ih m ⟨s, hs, hm⟩
    -- along `prev`, up to the first request of the chain
    have hprev (s : ℕ) (hs : g.SameChain r s) : Returns g.toRecords false true s := by
      induction s using g.prev_finite.induction with
      | h s ih' =>
        exact returns_step (fun _ t ht => ih' t ht (hs.tail (Or.inl ht))) nofun (hmain hs)
          (g.serverReturns _)
    -- along `next`, up to the last
    have hnext (s : ℕ) (hs : g.SameChain r s) : Returns g.toRecords true false s := by
      induction s using g.next_finite.induction with
      | h s ih' =>
        exact returns_step nofun (fun _ t ht => ih' t ht (hs.tail (Or.inr ht))) (hmain hs)
          (g.serverReturns _)
    have hrefl : g.SameChain r r := Relation.ReflTransGen.refl
    exact returns_step (fun _ s hs => hprev s (hrefl.tail (Or.inl hs)))
      (fun _ s hs => hnext s (hrefl.tail (Or.inr hs))) (hmain hrefl) (g.serverReturns _)

theorem exists_isSome (r : ℕ) (objs : Objects) :
    ∃ fuel, (newRequestRec g.toRecords fuel r none none objs).isSome := by
  obtain ⟨fuel, hfuel⟩ := (g.returns r).exists
  exact ⟨fuel, hfuel none none objs rfl rfl⟩

end RequestGraph

/-! ### What the constructor assigns -/

/-- What is in the middle of a list can be changed there. -/
theorem modify_length_append {α : Type} (f : α → α) (l : List α) (a : α) (more : List α) :
    (l ++ a :: more).modify l.length f = l ++ f a :: more := by
  induction l with
  | nil => rfl
  | cons b l ih => exact congrArg (b :: ·) ih

/-- The wrappers of requests are those there before, and more. -/
def Objects.Grows (objs objs' : Objects) : Prop := objs.requests <+: objs'.requests

/-- A server's wrappers leave those of requests alone. -/
theorem requests_newServerRec {q : Records} {fuel s t : ℕ} {objs objs' : Objects}
    (h : newServerRec q fuel s objs = some (t, objs')) : objs'.requests = objs.requests := by
  induction fuel generalizing s t objs objs' with
  | zero => exact nomatch h
  | succ fuel ih =>
    obtain ⟨-, mNext, objs₁, hnext, rfl⟩ := newServerRec_cases h
    have hsame := rel_newUnlessNull (R := fun a b => b.requests = a.requests) rfl
      (fun _ _ _ h => ih h) hnext
    exact hsame

/-- The wrapper that is allocated first stays in its place. -/
theorem finishRequest_of_grows {objs objs₁ : Objects} {r : ℕ} {pPrev pNext : Option ℕ}
    (h : (objs.allocRequest r pPrev pNext).requests <+: objs₁.requests)
    (mMain mServer : Option ℕ) :
    ∃ more, (objs₁.finishRequest objs.requests.length mMain mServer).requests
      = objs.requests ++ ⟨r, pPrev, pNext, mMain, mServer⟩ :: more := by
  obtain ⟨more, hmore⟩ := h
  refine ⟨more, ?_⟩
  show objs₁.requests.modify _ _ = _
  rw [← hmore, Objects.allocRequest, List.append_assoc, List.singleton_append,
    modify_length_append]

/-- **The members of the wrapper are the arguments**, and wrappers there before are
left alone. -/
theorem newRequestRec_members {q : Records} {fuel r w : ℕ} {pPrev pNext : Option ℕ}
    {objs objs' : Objects} (h : newRequestRec q fuel r pPrev pNext objs = some (w, objs')) :
    w = objs.requests.length ∧ ∃ mMain mServer,
      objs.requests ++ [⟨r, pPrev, pNext, mMain, mServer⟩] <+: objs'.requests := by
  induction fuel generalizing r w pPrev pNext objs objs' with
  | zero => exact nomatch h
  | succ fuel ih =>
    have hcall (pPrev pNext : Option ℕ) (s w : ℕ) (objs objs' : Objects)
        (h : newRequestRec q fuel s pPrev pNext objs = some (w, objs')) : objs.Grows objs' := by
      obtain ⟨-, _, _, hprefix⟩ := ih h
      exact (List.prefix_append _ _).trans hprefix
    obtain ⟨rfl, _, objs₁, _, objs₂, mMain, objs₃, mServer, objs₄, hprev, hnext, hmain, hserver,
      rfl⟩ := newRequestRec_cases h
    have hprev := rel_newUnlessNull (R := Objects.Grows) List.prefix_rfl
      (fun s w objs' => hcall none (some objs.requests.length) s w _ objs') hprev
    have hnext := rel_newUnlessNull (R := Objects.Grows) List.prefix_rfl
      (fun s w objs' => hcall (some objs.requests.length) none s w _ objs') hnext
    have hmain := rel_newUnlessNull (R := Objects.Grows) List.prefix_rfl
      (fun m w objs' => hcall none none m w _ objs') hmain
    have hstays := (hprev.trans hnext).trans hmain
    rw [← requests_newServerRec hserver] at hstays
    obtain ⟨more, hmore⟩ := finishRequest_of_grows hstays mMain (some mServer)
    refine ⟨rfl, mMain, some mServer, more, ?_⟩
    rw [hmore, List.append_assoc, List.singleton_append]

theorem grows_newRequestRec {q : Records} {fuel r w : ℕ} {pPrev pNext : Option ℕ}
    {objs objs' : Objects} (h : newRequestRec q fuel r pPrev pNext objs = some (w, objs')) :
    objs.Grows objs' := by
  obtain ⟨-, _, _, hprefix⟩ := newRequestRec_members h
  exact (List.prefix_append _ _).trans hprefix

theorem grows_newUnlessNull {q : Records} {fuel : ℕ} {pPrev pNext p x : Option ℕ}
    {objs objs' : Objects}
    (h : newUnlessNull (fun s => newRequestRec q fuel s pPrev pNext) p objs = some (x, objs')) :
    objs.Grows objs' :=
  rel_newUnlessNull (R := Objects.Grows) List.prefix_rfl (fun _ _ _ h => grows_newRequestRec h) h

/-! ### Navigation -/

/-- **From wrapper to wrapper as from record to record**: following a link leads to a
wrapper of the request that it leads to from the request, and to NULL where that does. -/
structure Mirrors (q : Records) (objs : Objects) (w r : ℕ) : Prop where
  prev : ∀ k, (follow objs.prev k w).map objs.request = (follow q.prev k r).map some
  next : ∀ k, (follow objs.next k w).map objs.request = (follow q.next k r).map some

/-- `ApacheRequestRec( r )` returns, and navigation from it mirrors the chain of the
request, whatever wrappers there are before. -/
def NavigationMirrors (q : Records) (r : ℕ) : Prop :=
  ∀ objs, (∃ fuel, (newRequestRec q fuel r none none objs).isSome) ∧
    ∀ fuel w objs', newRequestRec q fuel r none none objs = some (w, objs') → Mirrors q objs' w r

/-- From the wrapper of a request `prev` and `next` lead to NULL, so that it mirrors only
a request without either. -/
theorem mirrors_iff {q : Records} {fuel r w : ℕ} {objs objs' : Objects}
    (h : newRequestRec q fuel r none none objs = some (w, objs')) :
    Mirrors q objs' w r ↔ q.prev r = none ∧ q.next r = none := by
  obtain ⟨rfl, mMain, mServer, more, hmore⟩ := newRequestRec_members h
  have hget : objs'.requests[objs.requests.length]? = some ⟨r, none, none, mMain, mServer⟩ := by
    rw [← hmore]
    simp
  have hprev : objs'.prev objs.requests.length = none := by
    rw [Objects.prev, hget, Option.bind_some]
  have hnext : objs'.next objs.requests.length = none := by
    rw [Objects.next, hget, Option.bind_some]
  have hrequest : objs'.request objs.requests.length = some r := by
    rw [Objects.request, hget, Option.map_some]
  constructor
  · intro hm
    have hone := hm.prev 1
    have hone' := hm.next 1
    rw [follow_one, follow_one, hprev, Option.map_none, eq_comm, Option.map_eq_none_iff] at hone
    rw [follow_one, follow_one, hnext, Option.map_none, eq_comm, Option.map_eq_none_iff] at hone'
    exact ⟨hone, hone'⟩
  · rintro ⟨hrprev, hrnext⟩
    constructor
    · rintro (_ | k)
      · exact congrArg some hrequest
      · rw [follow_succ_of_none hprev, follow_succ_of_none hrprev, Option.map_none, Option.map_none]
    · rintro (_ | k)
      · exact congrArg some hrequest
      · rw [follow_succ_of_none hnext, follow_succ_of_none hrnext, Option.map_none, Option.map_none]

/-- **Navigation mirrors exactly the chains of one request.** -/
theorem navigation_mirrors_iff (g : RequestGraph) (r : ℕ) :
    NavigationMirrors g.toRecords r ↔ g.prev r = none ∧ g.next r = none := by
  constructor
  · intro h
    obtain ⟨fuel, hsome⟩ := g.exists_isSome r ⟨[], []⟩
    obtain ⟨⟨w, objs'⟩, hbuilt⟩ := Option.isSome_iff_exists.mp hsome
    exact (mirrors_iff hbuilt).mp ((h _).2 fuel w objs' hbuilt)
  · intro hlone objs
    exact ⟨g.exists_isSome r objs, fun fuel w objs' hbuilt => (mirrors_iff hbuilt).mpr hlone⟩

/-- The records of a request that was redirected to another. -/
def redirectRecords : Records where
  links r := ⟨if r = 1 then some 0 else none, if r = 0 then some 1 else none, none, 0⟩
  nextServer _ := none

theorem prev_redirectRecords {r s : ℕ} :
    redirectRecords.prev s = some r ↔ r = 0 ∧ s = 1 := by
  show (if s = 1 then some 0 else none) = some r ↔ _
  split <;> simp_all [eq_comm]

theorem next_redirectRecords {r s : ℕ} :
    redirectRecords.next r = some s ↔ r = 0 ∧ s = 1 := by
  show (if r = 0 then some 1 else none) = some s ↔ _
  split <;> simp_all [eq_comm]

/-- httpd can build them. -/
def redirect : RequestGraph where
  toRecords := redirectRecords
  inverse _ _ := next_redirectRecords.trans prev_redirectRecords.symm
  prev_finite := Subrelation.wf (fun {s r} h => show s < r by
    obtain ⟨rfl, rfl⟩ := prev_redirectRecords.mp h
    exact Nat.zero_lt_one) Nat.lt_wfRel.wf
  next_finite := Subrelation.wf (fun {s r} h => show 1 - s < 1 - r by
    obtain ⟨rfl, rfl⟩ := next_redirectRecords.mp h
    exact Nat.zero_lt_one) (measure fun r => 1 - r).wf
  main_finite := ⟨fun r => ⟨r, fun _ hmain => nomatch hmain.choose_spec.2⟩⟩
  server_finite := ⟨fun s => ⟨s, nofun⟩⟩

/-- From the wrapper of the second request, `prev` leads to NULL; the wrapper of the
first has been built. -/
theorem not_navigationMirrors_redirect :
    newRequestRec redirect.toRecords 3 1 none none ⟨[], []⟩
        = some (0, ⟨[⟨1, none, none, none, some 1⟩, ⟨0, none, some 0, none, some 0⟩],
            [⟨0, none⟩, ⟨0, none⟩]⟩) ∧
      ¬ NavigationMirrors redirect.toRecords 1 := by
  have hbuilt : newRequestRec redirect.toRecords 3 1 none none ⟨[], []⟩
      = some (0, ⟨[⟨1, none, none, none, some 1⟩, ⟨0, none, some 0, none, some 0⟩],
          [⟨0, none⟩, ⟨0, none⟩]⟩) := rfl
  refine ⟨hbuilt, fun h => ?_⟩
  exact absurd ((mirrors_iff hbuilt).mp ((h _).2 3 0 _ hbuilt)).1 (by decide)

end ModCplusplus
