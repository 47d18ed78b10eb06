import Mathlib.Data.List.Chain
import Mathlib.Data.Nat.Notation
import Mathlib.Logic.Relation
import Mathlib.Order.Filter.AtTopBot.Basic
import Mathlib.Order.WellFounded
import Mathlib.Tactic.Common

/-!
# Linked records

A link leads from a record to another one, or nowhere.  What is done along links is
done to a depth, and there is enough of it if what is done holds eventually of the
depth; the rules here take such a statement from what the links lead to, to the record
itself.

## Main definitions

* `Links.follow` — follow a link a number of times.

## Main results

* `Links.follow_succ_of_none` — a link that leads nowhere is followed no further.
* `Links.not_transGen_self`, `Links.nodup_map_of_isChain` — links that come to an end lead
  back nowhere, and no way along such steps meets anything twice.
* `Links.eventually_link`, `Links.eventually_succ` — what holds eventually of all that a
  link leads to, and of one level more.
-/

namespace Links

universe u

variable {α : Type u}

/-! ### Following a link -/

/-- Follow a link a number of times, unless it leads nowhere before. -/
def follow (link : α → Option α) : ℕ → α → Option α
  | 0, p => some p
  | k + 1, p => (link p).bind (follow link k)

@[simp] theorem follow_zero (link : α → Option α) (p : α) : follow link 0 p = some p := rfl

theorem follow_succ_of_none {link : α → Option α} {p : α} (h : link p = none) (k : ℕ) :
    follow link (k + 1) p = none := by
  rw [follow, h]
  rfl

@[simp] theorem follow_one (link : α → Option α) (p : α) : follow link 1 p = link p := by
  rw [follow]
  cases link p <;> rfl

/-! ### Following links comes to an end -/

/-- Where links come to an end, they do not lead back. -/
theorem not_transGen_self {R : α → α → Prop} (h : WellFounded fun s r => R r s) (a : α) :
    ¬ Relation.TransGen R a a := fun hback =>
  h.transGen.irrefl.irrefl a (Relation.transGen_swap.mpr hback)

/-- Where one record leads to another never to have the same value, neither does any
list of records that lead from one to the next. -/
theorem nodup_map_of_isChain {β : Type u} {R : α → α → Prop} {f : α → β}
    (hne : ∀ a b, Relation.TransGen R a b → f a ≠ f b) {path : List α} (h : path.IsChain R) :
    (path.map f).Nodup := by
  have hpath : path.Pairwise (Relation.TransGen R) :=
    (h.imp fun _ _ hstep => Relation.TransGen.single hstep).pairwise
  exact List.pairwise_map.mpr (hpath.imp fun {a b} hab => hne a b hab)

/-! ### Enough depth -/

/-- A computation gets through if its parts do. -/
theorem isSome_bind {β γ : Type u} {x : Option β} {f : β → Option γ} (hx : x.isSome)
    (hf : ∀ b, (f b).isSome) : (x >>= f).isSome := by
  obtain ⟨b, rfl⟩ := Option.isSome_iff_exists.mp hx
  exact hf b

/-- What holds eventually of what a link leads to holds eventually of all that it leads
to. -/
theorem eventually_link {P : α → ℕ → Prop} {p : Option α}
    (h : ∀ s, p = some s → ∀ᶠ fuel in Filter.atTop, P s fuel) :
    ∀ᶠ fuel in Filter.atTop, ∀ s, p = some s → P s fuel := by
  cases p with
  | none => exact Filter.Eventually.of_forall fun _ => nofun
  | some s =>
    refine (h s rfl).mono fun fuel hP t ht => ?_
    rwa [← Option.some.inj ht]

/-- What holds eventually of a depth is needed of the depth below only. -/
theorem eventually_succ {P P' : ℕ → Prop} (h : ∀ᶠ fuel in Filter.atTop, P fuel)
    (hstep : ∀ fuel, P fuel → P' (fuel + 1)) : ∀ᶠ fuel in Filter.atTop, P' fuel := by
  filter_upwards [Filter.eventually_ge_atTop 1, (Filter.tendsto_sub_atTop_nat 1).eventually h] with
    fuel hge hP
  rw [← Nat.sub_add_cancel hge]
  exact hstep _ hP

end Links
