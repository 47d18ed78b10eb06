import Mathlib.Data.List.Basic
import Mathlib.Tactic.Common

/-!
# Machines with outputs

A machine answers one input after the other and keeps a state between them.  A run
over a list of inputs collects the answers.  What holds of a run follows from what
holds of a step: an invariant that steps keep holds after a run, an answer of a run
is the answer of a step from a state in which the invariant holds, and two machines
whose steps correspond give corresponding answers.

## Main definitions

* `Machine`, `Machine.run` — a step function, and a run.
* `Machine.Keeps` — an invariant of the steps.
* `Machine.Simulates` — one machine answers as another does, up to a view.
* `Machine.mapAnswers` — a machine whose answers are seen in part.

## Main results

* `Machine.run_append` — a run in two parts.
* `Machine.Keeps.run`, `Machine.Keeps.forall_mem_zip` — the rule of invariants.
* `Machine.Simulates.run` — the rule of simulation.
* `Machine.run_filter`, `Machine.run_filter_of_related` — inputs that change nothing, or
  nothing that shows, can be left out.
-/

/-- A deterministic machine with states `S`, inputs `I` and answers `O`. -/
structure Machine (S I O : Type*) where
  step : S → I → O × S

namespace Machine

variable {S I O T O' : Type*}

/-- The answers to the inputs, and the state left. -/
def run (M : Machine S I O) : S → List I → List O × S
  | s, [] => ([], s)
  | s, i :: is =>
      let rest := M.run (M.step s i).2 is
      ((M.step s i).1 :: rest.1, rest.2)

@[simp] theorem run_nil (M : Machine S I O) (s : S) : M.run s [] = ([], s) := rfl

@[simp] theorem run_cons (M : Machine S I O) (s : S) (i : I) (is : List I) :
    M.run s (i :: is)
      = ((M.step s i).1 :: (M.run (M.step s i).2 is).1, (M.run (M.step s i).2 is).2) := rfl

theorem run_append (M : Machine S I O) (is js : List I) : ∀ s : S,
    M.run s (is ++ js)
      = ((M.run s is).1 ++ (M.run (M.run s is).2 js).1, (M.run (M.run s is).2 js).2) := by
  induction is with
  | nil => intro s; rfl
  | cons i is ih =>
    intro s
    rw [List.cons_append, run_cons, ih, run_cons]
    rfl

/-- Every input is answered once. -/
theorem length_answers (M : Machine S I O) (is : List I) : ∀ s : S,
    (M.run s is).1.length = is.length := by
  induction is with
  | nil => intro s; rfl
  | cons i is ih => intro s; rw [run_cons, List.length_cons, List.length_cons, ih]

/-! ### Invariants -/

/-- Steps keep `P`. -/
def Keeps (M : Machine S I O) (P : S → Prop) : Prop := ∀ s i, P s → P (M.step s i).2

/-- **Runs keep what steps keep.** -/
theorem Keeps.run {M : Machine S I O} {P : S → Prop} (h : M.Keeps P) (is : List I) :
    ∀ {s : S}, P s → P (M.run s is).2 := by
  induction is with
  | nil => intro s hs; exact hs
  | cons i is ih => intro s hs; exact ih (h s i hs)

/-- **Every input of a run is answered in a state with the invariant.** -/
theorem Keeps.forall_mem_zip {M : Machine S I O} {P : S → Prop} (h : M.Keeps P)
    {Q : I → O → Prop} (hQ : ∀ s i, P s → Q i (M.step s i).1) (is : List I) :
    ∀ {s : S}, P s → ∀ e ∈ is.zip (M.run s is).1, Q e.1 e.2 := by
  induction is with
  | nil => intro s _ e he; exact absurd he List.not_mem_nil
  | cons i is ih =>
    intro s hs e he
    rw [run_cons, List.zip_cons_cons, List.mem_cons] at he
    rcases he with rfl | he
    · exact hQ s i hs
    · exact ih (h s i hs) e he

/-- The same for the answers alone. -/
theorem Keeps.forall_mem_answers {M : Machine S I O} {P : S → Prop} (h : M.Keeps P) {Q : O → Prop}
    (hQ : ∀ s i, P s → Q (M.step s i).1) (is : List I) {s : S} (hs : P s) :
    ∀ o ∈ (M.run s is).1, Q o := by
  intro o ho
  have hanswers : ((is.zip (M.run s is).1).map Prod.snd) = (M.run s is).1 :=
    List.map_snd_zip (Nat.le_of_eq (M.length_answers is s))
  rw [← hanswers, List.mem_map] at ho
  obtain ⟨e, he, rfl⟩ := ho
  exact h.forall_mem_zip (Q := fun _ o => Q o) hQ is hs e he

/-! ### Simulation -/

/-- States related by `R` stay related, and the answers are the same under `view`. -/
def Simulates (M : Machine S I O) (N : Machine T I O') (R : S → T → Prop) (view : O → O') : Prop :=
  ∀ s t i, R s t → view (M.step s i).1 = (N.step t i).1 ∧ R (M.step s i).2 (N.step t i).2

/-- **Machines that correspond in every step correspond in every run.** -/
theorem Simulates.run {M : Machine S I O} {N : Machine T I O'} {R : S → T → Prop} {view : O → O'}
    (h : M.Simulates N R view) (is : List I) : ∀ {s : S} {t : T}, R s t →
      (M.run s is).1.map view = (N.run t is).1 ∧ R (M.run s is).2 (N.run t is).2 := by
  induction is with
  | nil => intro s t hR; exact ⟨rfl, hR⟩
  | cons i is ih =>
    intro s t hR
    obtain ⟨hanswer, hnext⟩ := h s t i hR
    obtain ⟨hanswers, hlast⟩ := ih hnext
    refine ⟨?_, hlast⟩
    rw [run_cons, run_cons, List.map_cons, hanswer, hanswers]

/-! ### Part of the answers -/

/-- The machine with its answers seen through `view`. -/
def mapAnswers (M : Machine S I O) (view : O → O') : Machine S I O' where
  step s i := (view (M.step s i).1, (M.step s i).2)

theorem run_mapAnswers (M : Machine S I O) (view : O → O') (is : List I) : ∀ s : S,
    (M.mapAnswers view).run s is = ((M.run s is).1.map view, (M.run s is).2) := by
  induction is with
  | nil => intro s; rfl
  | cons i is ih =>
    intro s
    rw [run_cons, run_cons, ih]
    rfl

/-! ### Inputs that change nothing -/

/-- **Inputs that leave two states related can be left out** of the run of one of them, if
the others are answered alike in related states.  The relation may depend on the inputs
that are not left out, and an input may only be `enabled` after some of them. -/
theorem run_filter_of_related {M : Machine S I O} {p : I → Bool} {enabled : List I → I → Prop}
    {R : List I → S → S → Prop}
    (hskip : ∀ h s s' i, p i = false → R h s s' → R h s (M.step s' i).2)
    (hstep : ∀ h s s' i, p i = true → enabled h i → R h s s' →
      (M.step s i).1 = (M.step s' i).1 ∧ R (h ++ [i]) (M.step s i).2 (M.step s' i).2)
    (is : List I) : ∀ {h : List I} {s s' : S}, R h s s' →
      (∀ pre i post, is.filter p = pre ++ i :: post → enabled (h ++ pre) i) →
      (M.run s (is.filter p)).1 = ((is.zip (M.run s' is).1).filter fun e => p e.1).map Prod.snd ∧
        R (h ++ is.filter p) (M.run s (is.filter p)).2 (M.run s' is).2 := by
  induction is with
  | nil =>
    intro h s s' hR _
    refine ⟨rfl, ?_⟩
    rwa [List.filter_nil, List.append_nil]
  | cons i is ih =>
    intro h s s' hR henabled
    cases hp : p i with
    | true =>
      rw [List.filter_cons_of_pos hp] at henabled ⊢
      have hfirst : enabled h i := by simpa using henabled [] i (is.filter p) rfl
      obtain ⟨hanswer, hnext⟩ := hstep h s s' i hp hfirst hR
      have hlater : ∀ pre j post, is.filter p = pre ++ j :: post → enabled (h ++ [i] ++ pre) j := by
        intro pre j post hsplit
        have := henabled (i :: pre) j post (by rw [hsplit, List.cons_append])
        rwa [List.append_assoc, List.singleton_append]
      obtain ⟨hanswers, hlast⟩ := ih hnext hlater
      refine ⟨?_, ?_⟩
      · rw [run_cons, run_cons, List.zip_cons_cons, List.filter_cons_of_pos (by exact hp),
          List.map_cons, hanswers, hanswer]
      · rw [List.append_cons]
        exact hlast
    | false =>
      rw [List.filter_cons_of_neg (by rw [hp]; exact Bool.false_ne_true)] at henabled ⊢
      obtain ⟨hanswers, hlast⟩ := ih (hskip h s s' i hp hR) henabled
      refine ⟨?_, hlast⟩
      rw [run_cons, List.zip_cons_cons, List.filter_cons_of_neg (by simp [hp])]
      exact hanswers

/-- **Inputs that leave the state alone can be left out** of a run: the others are
answered as before, and the state left is the same. -/
theorem run_filter {M : Machine S I O} {p : I → Bool}
    (h : ∀ s i, p i = false → (M.step s i).2 = s) (is : List I) (s : S) :
    M.run s (is.filter p)
      = (((is.zip (M.run s is).1).filter fun e => p e.1).map Prod.snd, (M.run s is).2) := by
  have hskip : ∀ (_ : List I) (s s' : S) i, p i = false → s = s' → s = (M.step s' i).2 :=
    fun _ s s' i hp heq => heq.trans (h s' i hp).symm
  have hstep : ∀ (_ : List I) (s s' : S) i, p i = true → True → s = s' →
      (M.step s i).1 = (M.step s' i).1 ∧ (M.step s i).2 = (M.step s' i).2 := by
    rintro _ s _ i _ _ rfl
    exact ⟨rfl, rfl⟩
  obtain ⟨hanswers, hlast⟩ := run_filter_of_related (R := fun _ s s' => s = s') hskip hstep is
    (h := []) (rfl : s = s) fun _ _ _ _ => trivial
  exact Prod.ext hanswers hlast

end Machine
