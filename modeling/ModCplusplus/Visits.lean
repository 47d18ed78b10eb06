import ModCplusplus.Wrappers
import Mathlib.Data.List.Chain

/-!
# The requests a constructor visits

`prev` and `next` lead back to where they come from, and still the constructor of a
wrapper does not go in circles: the wrapper it is handed keeps it from turning back, and
where it starts again in both directions, at a main request, it has left the chain for
good.

## Main definitions

* `Visit`, `Visit.calls`, `Visit.callsAlong` — a call of the constructor, those it makes
  itself, and those of them that stay on the chain.
* `visits` — the calls made to a depth, in order.
* `RequestGraph.ofSharedMain` — the records of httpd, whose chains share a main request.
* `ConstructorTerminates` — the constructor returns, and turns back nowhere.

## Main results

* `visits_newRequestRec` — there is a wrapper for each call, and for nothing else.
* `Moved.step` — where a call is with respect to the calls it is nested in.
* `constructor_terminates` — the law.
-/

namespace ModCplusplus

open Links Relation

/-! ### The calls -/

/-- A call of the constructor: the request, and which wrappers it is handed. -/
structure Visit where
  request : ℕ
  fromPrev : Bool
  fromNext : Bool
  deriving DecidableEq

/-- The call that built a wrapper. -/
def Visit.of (o : ApacheRequestRec) : Visit := ⟨o.mRequest, o.mPrev.isSome, o.mNext.isSome⟩

/-- The calls that a call makes along `prev` and `next`. -/
def Visit.callsAlong (q : Records) (v : Visit) : List Visit :=
  ((if v.fromPrev then none else q.prev v.request).map (Visit.mk · false true)).toList ++
    ((if v.fromNext then none else q.next v.request).map (Visit.mk · true false)).toList

/-- The calls that a call makes. -/
def Visit.calls (q : Records) (v : Visit) : List Visit :=
  v.callsAlong q ++ ((q.main v.request).map (Visit.mk · false false)).toList

/-- The calls made in a call, to a depth of so many, in order. -/
def visits (q : Records) : ℕ → Visit → List Visit
  | 0, _ => []
  | fuel + 1, v => v :: (v.calls q).flatMap (visits q fuel)

/-- One call makes the other. -/
def Calls (q : Records) (u v : Visit) : Prop := v ∈ u.calls q

/-- One call makes the other along `prev` or `next`. -/
def CallsAlong (q : Records) (u v : Visit) : Prop := v ∈ u.callsAlong q

section

variable {q : Records} {u v : Visit}

theorem callsAlong_iff :
    CallsAlong q u v ↔
      (u.fromPrev = false ∧ q.prev u.request = some v.request ∧
        v.fromPrev = false ∧ v.fromNext = true) ∨
      (u.fromNext = false ∧ q.next u.request = some v.request ∧
        v.fromPrev = true ∧ v.fromNext = false) := by
  obtain ⟨r, a, b⟩ := u
  obtain ⟨s, c, d⟩ := v
  rw [CallsAlong, Visit.callsAlong, List.mem_append]
  cases a <;> cases b <;> simp [eq_comm]

theorem calls_iff :
    Calls q u v ↔ CallsAlong q u v ∨
      (q.main u.request = some v.request ∧ v.fromPrev = false ∧ v.fromNext = false) := by
  obtain ⟨r, a, b⟩ := u
  obtain ⟨s, c, d⟩ := v
  rw [Calls, Visit.calls, List.mem_append]
  refine or_congr Iff.rfl ?_
  simp [eq_comm]

end

/-! ### A wrapper for each call -/

/-- The calls that have built the wrappers there are. -/
def Objects.visited (objs : Objects) : List Visit := objs.requests.map Visit.of

theorem visited_allocRequest (objs : Objects) (r : ℕ) (pPrev pNext : Option ℕ) :
    (objs.allocRequest r pPrev pNext).visited
      = objs.visited ++ [⟨r, pPrev.isSome, pNext.isSome⟩] := by
  simp [Objects.visited, Objects.allocRequest, Visit.of]

/-- The members assigned last do not matter. -/
theorem visited_finishRequest (objs : Objects) (this : ℕ) (mMain mServer : Option ℕ) :
    (objs.finishRequest this mMain mServer).visited = objs.visited := by
  refine List.ext_getElem? fun i => ?_
  simp only [Objects.visited, Objects.finishRequest, List.getElem?_map, List.getElem?_modify]
  cases objs.requests[i]? with
  | none => rfl
  | some o =>
    simp only [Option.map_some]
    split <;> rfl

theorem visited_newUnlessNull {new : ℕ → Objects → Option (ℕ × Objects)} {p x : Option ℕ}
    {objs objs' : Objects} {more : ℕ → List Visit}
    (hnew : ∀ s w objs', new s objs = some (w, objs') → objs'.visited = objs.visited ++ more s)
    (h : newUnlessNull new p objs = some (x, objs')) :
    objs'.visited = objs.visited ++ p.toList.flatMap more := by
  rcases newUnlessNull_cases h with ⟨rfl, -, rfl⟩ | ⟨s, w, rfl, -, hcall⟩
  · simp
  · simpa using hnew s w _ hcall

/-- **There is a wrapper for each call**, in order, behind those there were. -/
theorem visits_newRequestRec {q : Records} {fuel r w : ℕ} {pPrev pNext : Option ℕ}
    {objs objs' : Objects} (h : newRequestRec q fuel r pPrev pNext objs = some (w, objs')) :
    objs'.visited = objs.visited ++ visits q fuel ⟨r, pPrev.isSome, pNext.isSome⟩ := by
  induction fuel generalizing r w pPrev pNext objs objs' with
  | zero => exact nomatch h
  | succ fuel ih =>
    obtain ⟨-, _, objs₁, _, objs₂, mMain, objs₃, mServer, objs₄, hprev, hnext, hmain, hserver,
      rfl⟩ := newRequestRec_cases h
    have hprev := visited_newUnlessNull (fun s w objs' h => ih h) hprev
    have hnext := visited_newUnlessNull (fun s w objs' h => ih h) hnext
    have hmain := visited_newUnlessNull (fun s w objs' h => ih h) hmain
    have hserver : objs₄.visited = objs₃.visited :=
      congrArg (List.map Visit.of) (requests_newServerRec hserver)
    rw [visited_finishRequest, hserver, hmain, hnext, hprev, visited_allocRequest, visits]
    cases pPrev <;> cases pNext <;>
      simp [Visit.calls, Visit.callsAlong, List.flatMap_map, Option.toList_map]

theorem reflTransGen_of_mem_visits {q : Records} {fuel : ℕ} {u v : Visit}
    (h : v ∈ visits q fuel u) : ReflTransGen (Calls q) u v := by
  induction fuel generalizing u with
  | zero => exact absurd h List.not_mem_nil
  | succ fuel ih =>
    rw [visits, List.mem_cons, List.mem_flatMap] at h
    rcases h with rfl | ⟨u', hcall, hmem⟩
    · exact ReflTransGen.refl
    · exact ReflTransGen.head hcall (ih hmem)

/-! ### Where the calls lead -/

namespace Records

variable (q : Records)

/-- A request before another one of the chain. -/
def Before (s r : ℕ) : Prop := TransGen (fun a b => q.prev a = some b) r s

/-- A request after another one of the chain. -/
def After (s r : ℕ) : Prop := TransGen (fun a b => q.next a = some b) r s

/-- A request on a chain that is left for main requests to get there. -/
def Above (s r : ℕ) : Prop := ∃ m, TransGen (fun a b => q.MainOf b a) r m ∧ q.SameChain m s

end Records

/-- **Where a call is with respect to one that it is nested in**: before it or after it
on the chain, with no way back, or on another chain. -/
inductive Moved (q : Records) (u v : Visit) : Prop
  | before (request : q.Before v.request u.request) (fromPrev : v.fromPrev = false)
      (fromNext : v.fromNext = true)
  | after (request : q.After v.request u.request) (fromPrev : v.fromPrev = true)
      (fromNext : v.fromNext = false)
  | above (request : q.Above v.request u.request)

namespace RequestGraph

variable (g : RequestGraph)

theorem sameChain_of_before {r s : ℕ} (h : g.Before s r) : g.SameChain r s :=
  (TransGen.mono (fun _ _ h => Or.inl h) _ _ h).to_reflTransGen

theorem sameChain_of_after {r s : ℕ} (h : g.After s r) : g.SameChain r s :=
  (TransGen.mono (fun _ _ h => Or.inr h) _ _ h).to_reflTransGen

theorem not_before_self (r : ℕ) : ¬ g.Before r r := not_transGen_self g.prev_finite r

theorem not_after_self (r : ℕ) : ¬ g.After r r := not_transGen_self g.next_finite r

/-- Before and after are opposite. -/
theorem before_of_after {r s : ℕ} (h : g.After s r) : g.Before r s := by
  rw [Records.Before, ← transGen_swap]
  exact TransGen.mono (fun a b hnext => (g.inverse a b).mp hnext) _ _ h

theorem mainOf_sameChain {m r s : ℕ} (hchain : g.SameChain r s) (h : g.MainOf m s) :
    g.MainOf m r := by
  obtain ⟨t, ht, hm⟩ := h
  exact ⟨t, hchain.trans ht, hm⟩

/-- A chain that has been left does not come again. -/
theorem not_above_self (r : ℕ) : ¬ g.Above r r := by
  rintro ⟨m, hleft, hback⟩
  obtain ⟨m', hm', hrest⟩ := TransGen.head'_iff.mp hleft
  exact not_transGen_self g.main_finite m (TransGen.head' (g.mainOf_sameChain hback hm') hrest)

/-- Leaving a chain leads above all of it. -/
theorem above_of_main {r s m : ℕ} (hchain : g.SameChain r s) (hm : g.main s = some m) :
    g.Above m r :=
  ⟨m, TransGen.single ⟨s, hchain, hm⟩, ReflTransGen.refl⟩

theorem above_redirected {r s t : ℕ} (h : g.Above s r) (hst : g.Redirected s t) : g.Above t r := by
  obtain ⟨m, hleft, hchain⟩ := h
  exact ⟨m, hleft, hchain.tail hst⟩

theorem above_main {r s m : ℕ} (h : g.Above s r) (hm : g.main s = some m) : g.Above m r := by
  obtain ⟨m', hleft, hchain⟩ := h
  exact ⟨m, hleft.tail ⟨s, hchain, hm⟩, ReflTransGen.refl⟩

end RequestGraph

section

variable {g : RequestGraph} {u v w : Visit}

theorem moved_of_calls (h : Calls g.toRecords u v) : Moved g.toRecords u v := by
  rcases calls_iff.mp h with halong | ⟨hmain, -, -⟩
  · rcases callsAlong_iff.mp halong with ⟨-, hprev, hv, hv'⟩ | ⟨-, hnext, hv, hv'⟩
    · exact Moved.before (TransGen.single hprev) hv hv'
    · exact Moved.after (TransGen.single hnext) hv hv'
  · exact Moved.above (g.above_of_main ReflTransGen.refl hmain)

/-- **A call nested one deeper.** -/
theorem Moved.step (h : Moved g.toRecords u v) (hcall : Calls g.toRecords v w) :
    Moved g.toRecords u w := by
  rcases calls_iff.mp hcall with halong | ⟨hmain, -, -⟩
  · rcases callsAlong_iff.mp halong with ⟨hv, hprev, hw, hw'⟩ | ⟨hv, hnext, hw, hw'⟩
    · cases h with
      | before hbefore => exact Moved.before (hbefore.tail hprev) hw hw'
      | after _ hfrom => exact Bool.noConfusion (hv.symm.trans hfrom)
      | above habove => exact Moved.above (g.above_redirected habove (Or.inl hprev))
    · cases h with
      | before _ _ hfrom => exact Bool.noConfusion (hv.symm.trans hfrom)
      | after hafter => exact Moved.after (hafter.tail hnext) hw hw'
      | above habove => exact Moved.above (g.above_redirected habove (Or.inr hnext))
  · cases h with
    | before hbefore => exact Moved.above (g.above_of_main (g.sameChain_of_before hbefore) hmain)
    | after hafter => exact Moved.above (g.above_of_main (g.sameChain_of_after hafter) hmain)
    | above habove => exact Moved.above (g.above_main habove hmain)

theorem moved_of_transGen (h : TransGen (Calls g.toRecords) u v) : Moved g.toRecords u v := by
  induction h with
  | single hcall => exact moved_of_calls hcall
  | tail _ hcall ih => exact ih.step hcall

/-- No call is nested in another one for the same request. -/
theorem Moved.request_ne (h : Moved g.toRecords u v) : u.request ≠ v.request := by
  intro heq
  cases h with
  | before hbefore => exact g.not_before_self _ (heq ▸ hbefore)
  | after hafter => exact g.not_after_self _ (heq ▸ hafter)
  | above habove => exact g.not_above_self _ (heq ▸ habove)

end

/-! ### The calls along one chain -/

/-- From where both directions are taken, a call along the chain goes on in one of
them. -/
theorem callsAlong_cases {q : Records} {r : ℕ} {v : Visit}
    (h : ReflTransGen (CallsAlong q) ⟨r, false, false⟩ v) :
    v = ⟨r, false, false⟩ ∨ (∃ s, q.Before s r ∧ v = ⟨s, false, true⟩) ∨
      ∃ s, q.After s r ∧ v = ⟨s, true, false⟩ := by
  induction h with
  | refl => exact Or.inl rfl
  | @tail v w _ hcall ih =>
    obtain ⟨s, hasPrev, hasNext⟩ := w
    rcases callsAlong_iff.mp hcall with ⟨hv, hprev, rfl, rfl⟩ | ⟨hv, hnext, rfl, rfl⟩
    · rcases ih with rfl | ⟨t, hbefore, rfl⟩ | ⟨t, -, rfl⟩
      · exact Or.inr (Or.inl ⟨s, TransGen.single hprev, rfl⟩)
      · exact Or.inr (Or.inl ⟨s, hbefore.tail hprev, rfl⟩)
      · exact Bool.noConfusion hv
    · rcases ih with rfl | ⟨t, -, rfl⟩ | ⟨t, hafter, rfl⟩
      · exact Or.inr (Or.inr ⟨s, TransGen.single hnext, rfl⟩)
      · exact Bool.noConfusion hv
      · exact Or.inr (Or.inr ⟨s, hafter.tail hnext, rfl⟩)

/-- **A request of a chain is visited in one direction.** -/
theorem callsAlong_unique (g : RequestGraph) {r : ℕ} {u v : Visit}
    (hu : ReflTransGen (CallsAlong g.toRecords) ⟨r, false, false⟩ u)
    (hv : ReflTransGen (CallsAlong g.toRecords) ⟨r, false, false⟩ v)
    (heq : u.request = v.request) : u = v := by
  have hopposite {s : ℕ} (hbefore : g.Before s r) (hafter : g.After s r) : False :=
    g.not_before_self r (hbefore.trans (g.before_of_after hafter))
  rcases callsAlong_cases hu with rfl | ⟨s, hs, rfl⟩ | ⟨s, hs, rfl⟩ <;>
    rcases callsAlong_cases hv with rfl | ⟨t, ht, rfl⟩ | ⟨t, ht, rfl⟩
  · rfl
  · obtain rfl : r = t := heq
    exact absurd ht (g.not_before_self r)
  · obtain rfl : r = t := heq
    exact absurd ht (g.not_after_self r)
  · obtain rfl : s = r := heq
    exact absurd hs (g.not_before_self s)
  · exact congrArg (Visit.mk · false true) heq
  · obtain rfl : s = t := heq
    exact (hopposite hs ht).elim
  · obtain rfl : s = r := heq
    exact absurd hs (g.not_after_self s)
  · obtain rfl : s = t := heq
    exact (hopposite ht hs).elim
  · exact congrArg (Visit.mk · true false) heq

/-! ### The law -/

/-- **The constructor terminates**: to any depth that is large enough, whatever wrappers
there are before.  It builds a wrapper for each of the calls nested in the first; no call
is nested in another one for the same request; and from where both directions of a chain
are taken, no request of it is visited in both. -/
structure ConstructorTerminates (q : Records) (r : ℕ) : Prop where
  returns : ∀ᶠ fuel in Filter.atTop, ∀ objs, (newRequestRec q fuel r none none objs).isSome
  visited : ∀ fuel objs w objs', newRequestRec q fuel r none none objs = some (w, objs') →
    objs'.visited = objs.visited ++ visits q fuel ⟨r, false, false⟩
  calls : ∀ fuel v, v ∈ visits q fuel ⟨r, false, false⟩ →
    ReflTransGen (Calls q) ⟨r, false, false⟩ v
  nested : ∀ path, List.IsChain (Calls q) path → (path.map Visit.request).Nodup
  along : ∀ m u v, ReflTransGen (CallsAlong q) ⟨m, false, false⟩ u →
    ReflTransGen (CallsAlong q) ⟨m, false, false⟩ v → u.request = v.request → u = v

/-- The records as httpd builds them, where the requests of a chain share their main
request. -/
def RequestGraph.ofSharedMain (q : Records)
    (inverse : ∀ r s, q.next r = some s ↔ q.prev s = some r)
    (prev_finite : WellFounded fun s r => q.prev r = some s)
    (next_finite : WellFounded fun s r => q.next r = some s)
    (shared : ∀ r s, q.next r = some s → q.main r = q.main s)
    (main_finite : WellFounded fun m r => q.main r = some m)
    (server_finite : WellFounded fun t s => q.nextServer s = some t) : RequestGraph where
  toRecords := q
  inverse := inverse
  prev_finite := prev_finite
  next_finite := next_finite
  main_finite := by
    have hshared {r s : ℕ} (h : q.SameChain r s) : q.main r = q.main s := by
      induction h with
      | refl => rfl
      | tail _ hstep ih =>
        rcases hstep with hprev | hnext
        · exact ih.trans (shared _ _ ((inverse _ _).mpr hprev)).symm
        · exact ih.trans (shared _ _ hnext)
    refine Subrelation.wf ?_ main_finite
    rintro m r ⟨s, hchain, hm⟩
    exact (hshared hchain).trans hm
  server_finite := server_finite

/-- **The constructor terminates** on every request that httpd can build. -/
theorem constructor_terminates (g : RequestGraph) (r : ℕ) :
    ConstructorTerminates g.toRecords r where
  returns := (g.returns r).mono fun _ h objs => h none none objs rfl rfl
  visited _ _ _ _ h := visits_newRequestRec h
  calls _ _ h := reflTransGen_of_mem_visits h
  nested _ hpath := nodup_map_of_isChain (fun _ _ h => (moved_of_transGen h).request_ne) hpath
  along _ _ _ hu hv heq := callsAlong_unique g hu hv heq

end ModCplusplus
