import ModCplusplus.General.Slots

/-!
# First answer wins

A list of responders is asked in order, each of them changing the world as it
answers, until one answers something other than "declined"; its answer is the
answer of the whole list, and a list without such a responder declines.

## Main definitions

* `Answer` — the answer, who was asked with what result, and the world left.
* `firstAnswer` — the recursion over the responders.
* `FirstWins` — what "first answer wins" means, as a property of an `Answer`.

## Main results

* `firstWins_firstAnswer` — the recursion has that property.
* `firstAnswer_map` — renaming the responders does not change the answer.
* `firstAnswer_of_forall` — responders that all say the same, like one.
* `firstAnswer_filter` — responders that always decline do not matter.
* `foldUntil_lookup` — the same policy run over names, each looked up when its
  turn comes and skipped when nothing is found.
-/

variable {H H' N R σ : Type*}

/-- The outcome of asking a list of responders. -/
@[ext] structure Answer (H R σ : Type*) where
  result : R
  asked : List (H × R)
  world : σ

section

variable [DecidableEq R]

/-- Ask the responders in order until one does not decline. -/
def firstAnswer (ask : H → σ → R × σ) (declined : R) : List H → σ → Answer H R σ
  | [], w => ⟨declined, [], w⟩
  | h :: hs, w =>
      if (ask h w).1 = declined then
        let rest := firstAnswer ask declined hs (ask h w).2
        { rest with asked := (h, (ask h w).1) :: rest.asked }
      else ⟨(ask h w).1, [(h, (ask h w).1)], (ask h w).2⟩

/-- First answer wins: an initial part of the responders was asked, once each
and in order; all of them but the last declined; the result is what the last one
said; and somebody was left out only if the result is not "declined". -/
structure FirstWins (declined : R) (hs : List H) (out : Answer H R σ) : Prop where
  initial : out.asked.map Prod.fst <+: hs
  declined_before : ∀ p ∈ out.asked.dropLast, p.2 = declined
  result_eq : out.result = (out.asked.getLast?.map Prod.snd).getD declined
  all_asked : out.result = declined → out.asked.map Prod.fst = hs

theorem firstWins_firstAnswer (ask : H → σ → R × σ) (declined : R) :
    ∀ (hs : List H) (w : σ), FirstWins declined hs (firstAnswer ask declined hs w) := by
  intro hs
  induction hs with
  | nil => intro w; exact ⟨List.nil_prefix, by simp [firstAnswer], rfl, fun _ => rfl⟩
  | cons h hs ih =>
    intro w
    by_cases hd : (ask h w).1 = declined
    · obtain ⟨hinit, hbefore, hres, hall⟩ := ih (ask h w).2
      rw [firstAnswer, if_pos hd]
      refine ⟨?_, ?_, ?_, ?_⟩
      · simpa using hinit
      · intro p hp
        -- the head is in `dropLast` only when somebody was asked after it
        rcases hrest : (firstAnswer ask declined hs (ask h w).2).asked with _ | ⟨q, qs⟩
        · simp [hrest] at hp
        · simp only [hrest, List.dropLast_cons_cons, List.mem_cons] at hp
          rcases hp with rfl | hp
          · exact hd
          · exact hbefore p (by rw [hrest]; exact hp)
      · simp only [hres]
        rcases hrest : (firstAnswer ask declined hs (ask h w).2).asked with _ | ⟨q, qs⟩
        · simp [hd]
        · simp [List.getLast?_cons]
      · intro hr
        simp [hall hr]
    · rw [firstAnswer, if_neg hd]
      exact ⟨by simp, by simp, by simp, fun hr => absurd hr hd⟩

/-- The answer, and what it leaves behind, only depend on what the responders
do, not on what they are. -/
theorem firstAnswer_map (f : H → H') (ask : H → σ → R × σ) (ask' : H' → σ → R × σ) (declined : R)
    (hask : ∀ h w, ask' (f h) w = ask h w) : ∀ (hs : List H) (w : σ),
      (firstAnswer ask' declined (hs.map f) w).result = (firstAnswer ask declined hs w).result ∧
      (firstAnswer ask' declined (hs.map f) w).world = (firstAnswer ask declined hs w).world := by
  intro hs
  induction hs with
  | nil => intro w; exact ⟨rfl, rfl⟩
  | cons h hs ih =>
    intro w
    simp only [List.map_cons, firstAnswer, hask]
    split
    · exact ih _
    · exact ⟨rfl, rfl⟩

/-- **Responders that all say the same**, and leave the world alone, are as good as one. -/
theorem firstAnswer_of_forall {ask : H → σ → R × σ} {declined answer : R} {w : σ}
    (hask : ∀ h, ask h w = (answer, w)) (hs : List H) :
    (firstAnswer ask declined hs w).result = (if hs = [] then declined else answer) ∧
      (firstAnswer ask declined hs w).world = w := by
  induction hs with
  | nil => exact ⟨rfl, rfl⟩
  | cons h hs ih =>
    rw [firstAnswer, hask h, if_neg (List.cons_ne_nil h hs)]
    by_cases hd : answer = declined
    · rw [if_pos hd]
      obtain ⟨hresult, hworld⟩ := ih
      refine ⟨?_, hworld⟩
      rw [hresult, hd, ite_self]
    · rw [if_neg hd]
      exact ⟨rfl, rfl⟩

/-- **Responders that always decline**, and leave the world alone, do not matter: of what
the responders come from, those entries may be left out. -/
theorem firstAnswer_filter {D : Type*} {ask : H → σ → R × σ} {declined : R} (f : D → Option H)
    (keep : D → Bool) : ∀ (ds : List D),
    (∀ d ∈ ds, keep d = false → ∀ h, f d = some h → ∀ w, ask h w = (declined, w)) → ∀ w : σ,
      (firstAnswer ask declined ((ds.filter keep).filterMap f) w).result
          = (firstAnswer ask declined (ds.filterMap f) w).result ∧
        (firstAnswer ask declined ((ds.filter keep).filterMap f) w).world
          = (firstAnswer ask declined (ds.filterMap f) w).world := by
  intro ds
  induction ds with
  | nil => exact fun _ w => ⟨rfl, rfl⟩
  | cons d ds ih =>
    intro hidle w
    have hrest := ih fun d' hd' => hidle d' (List.mem_cons_of_mem d hd')
    cases hf : f d with
    | none =>
      rw [List.filterMap_cons_none hf, List.filter_cons]
      split
      · rw [List.filterMap_cons_none hf]
        exact hrest w
      · exact hrest w
    | some h =>
      rw [List.filterMap_cons_some hf]
      cases hkeep : keep d with
      | true =>
        rw [List.filter_cons_of_pos hkeep, List.filterMap_cons_some hf, firstAnswer, firstAnswer]
        by_cases hd : (ask h w).1 = declined
        · rw [if_pos hd, if_pos hd]
          exact hrest (ask h w).2
        · rw [if_neg hd, if_neg hd]
          exact ⟨rfl, rfl⟩
      | false =>
        have hask := hidle d List.mem_cons_self hkeep h hf w
        rw [List.filter_cons_of_neg (by rw [hkeep]; exact Bool.false_ne_true), firstAnswer, hask,
          if_pos rfl]
        exact hrest w

/-- **The policy run over names.**  A visitor that looks a name up, passes over
it when nothing is found, and otherwise asks and breaks on an answer, computes
the first answer among what was found.  What such a visitor leaves in `result`
at an unknown name does not matter as long as it is "declined", which is why
`result` is only tied down by the invariant `(s.result = declined)`. -/
theorem foldUntil_lookup (ask : H → σ → R × σ) (declined : R) (find : N → Option H)
    (visit : Answer H R σ → N → Answer H R σ × Bool)
    (hnone : ∀ s a, find a = none → s.result = declined → visit s a = (s, false))
    (hsome : ∀ s a h, find a = some h → visit s a
      = (⟨(ask h s.world).1, s.asked ++ [(h, (ask h s.world).1)], (ask h s.world).2⟩,
          decide ((ask h s.world).1 ≠ declined))) :
    ∀ (names : List N) (s : Answer H R σ), s.result = declined →
      foldUntil visit names s
        = { firstAnswer ask declined (names.filterMap find) s.world with
            asked := s.asked
              ++ (firstAnswer ask declined (names.filterMap find) s.world).asked } := by
  intro names
  induction names with
  | nil => intro s hs; exact Answer.ext hs (by simp [firstAnswer, foldUntil]) rfl
  | cons a names ih =>
    intro s hs
    rw [foldUntil]
    cases hfind : find a with
    | none =>
      rw [hnone s a hfind hs, List.filterMap_cons_none hfind]
      exact ih s hs
    | some h =>
      rw [hsome s a h hfind, List.filterMap_cons_some hfind]
      by_cases hd : (ask h s.world).1 = declined
      · rw [if_neg (by simpa using hd), ih _ hd, firstAnswer, if_pos hd]
        simp
      · rw [if_pos (by simpa using hd), firstAnswer, if_neg hd]

end
