import Mathlib.Data.List.Basic
import Mathlib.Tactic.Common

/-!
# Texts that can be read back

A text of labelled lines, each ended by a mark, and of labelled blocks, each ended by
whatever cannot continue it: two such texts with the same labels are equal only if their
lines and blocks are, so that a reader who knows the labels can tell what was written.

## Main definitions

* `labelledLines`, `labelledBlocks` — the texts.
* `ReadsBack` — a block tells what it shows, before anything that does not continue it.

## Main results

* `append_mark_inj` — a text up to a mark.
* `labelledLines_inj`, `labelledBlocks_inj` — lines and blocks are read back.
-/

variable {α β : Type*}

/-- **A text up to a mark** that does not occur in it. -/
theorem append_mark_inj {mark : α} {s s' rest rest' : List α} (h : mark ∉ s) (h' : mark ∉ s') :
    s ++ mark :: rest = s' ++ mark :: rest' ↔ s = s' ∧ rest = rest' := by
  constructor
  · intro heq
    induction s generalizing s' with
    | nil =>
      cases s' with
      | nil => exact ⟨rfl, (List.cons.inj heq).2⟩
      | cons b s' => exact absurd ((List.cons.inj heq).1 ▸ List.mem_cons_self) h'
    | cons a s ih =>
      rw [List.mem_cons, not_or] at h
      cases s' with
      | nil => exact absurd (List.cons.inj heq).1.symm h.1
      | cons b s' =>
        rw [List.mem_cons, not_or] at h'
        obtain ⟨rfl, htail⟩ := List.cons.inj heq
        obtain ⟨hs, hrest⟩ := ih h.2 h'.2 htail
        exact ⟨congrArg (a :: ·) hs, hrest⟩
  · rintro ⟨rfl, rfl⟩
    rfl

/-- Lines: to each its label, and a mark behind it. -/
def labelledLines (mark : α) (lines : List (List α × List α)) : List α :=
  lines.flatMap fun line => line.1 ++ line.2 ++ [mark]

/-- **Lines are read back** by their labels. -/
theorem labelledLines_inj {mark : α} : ∀ {lines lines' : List (List α × List α)}
    {rest rest' : List α}, lines.map Prod.fst = lines'.map Prod.fst →
    (∀ line ∈ lines, mark ∉ line.2) → (∀ line ∈ lines', mark ∉ line.2) →
    labelledLines mark lines ++ rest = labelledLines mark lines' ++ rest' →
      lines = lines' ∧ rest = rest' := by
  intro lines
  induction lines with
  | nil =>
    intro lines' rest rest' hlabels _ _ h
    obtain rfl := List.map_eq_nil_iff.mp hlabels.symm
    exact ⟨rfl, h⟩
  | cons line lines ih =>
    intro lines' rest rest' hlabels hplain hplain' h
    cases lines' with
    | nil => exact absurd hlabels (List.cons_ne_nil _ _)
    | cons line' lines' =>
      rw [List.map_cons, List.map_cons, List.cons.injEq] at hlabels
      have hsplit (l : List α × List α) (ls : List (List α × List α)) (r : List α) :
          labelledLines mark (l :: ls) ++ r
            = l.1 ++ (l.2 ++ mark :: (labelledLines mark ls ++ r)) := by
        simp [labelledLines]
      rw [hsplit, hsplit, hlabels.1, List.append_cancel_left_eq] at h
      obtain ⟨htext, hrest⟩ := (append_mark_inj (hplain line List.mem_cons_self)
        (hplain' line' List.mem_cons_self)).mp h
      obtain ⟨hlines, hlast⟩ := ih hlabels.2 (fun l hl => hplain l (List.mem_cons_of_mem _ hl))
        (fun l hl => hplain' l (List.mem_cons_of_mem _ hl)) hrest
      exact ⟨List.cons_eq_cons.mpr ⟨Prod.ext hlabels.1 htext, hlines⟩, hlast⟩

/-- Blocks: each below its label. -/
def labelledBlocks (render : β → List α) (blocks : List (List α × β)) : List α :=
  blocks.flatMap fun block => block.1 ++ render block.2

/-- A block tells what it shows, before anything that does not start as its lines do. -/
def ReadsBack (P : β → Prop) (start : α) (render : β → List α) : Prop :=
  ∀ ⦃b b' : β⦄ ⦃rest rest' : List α⦄, P b → P b' → rest.head? ≠ some start →
    rest'.head? ≠ some start → render b ++ rest = render b' ++ rest' → b = b' ∧ rest = rest'

/-- **Blocks are read back** by their labels, if no label starts as a line of a block. -/
theorem labelledBlocks_inj {P : β → Prop} {start : α} {render : β → List α}
    (hrender : ReadsBack P start render) : ∀ {blocks blocks' : List (List α × β)}
    {rest rest' : List α}, blocks.map Prod.fst = blocks'.map Prod.fst →
    (∀ block ∈ blocks, P block.2 ∧ block.1 ≠ [] ∧ block.1.head? ≠ some start) →
    (∀ block ∈ blocks', P block.2) → rest.head? ≠ some start → rest'.head? ≠ some start →
    labelledBlocks render blocks ++ rest = labelledBlocks render blocks' ++ rest' →
      blocks = blocks' ∧ rest = rest' := by
  intro blocks
  induction blocks with
  | nil =>
    intro blocks' rest rest' hlabels _ _ _ _ h
    obtain rfl := List.map_eq_nil_iff.mp hlabels.symm
    exact ⟨rfl, h⟩
  | cons block blocks ih =>
    intro blocks' rest rest' hlabels hblocks hblocks' hrest hrest' h
    cases blocks' with
    | nil => exact absurd hlabels (List.cons_ne_nil _ _)
    | cons block' blocks' =>
      rw [List.map_cons, List.map_cons, List.cons.injEq] at hlabels
      have hsplit (b : List α × β) (bs : List (List α × β)) (r : List α) :
          labelledBlocks render (b :: bs) ++ r
            = b.1 ++ (render b.2 ++ (labelledBlocks render bs ++ r)) := by
        simp [labelledBlocks]
      -- what is below a block starts with a label, or is the rest
      have hbelow (bs : List (List α × β)) (r : List α) (hr : r.head? ≠ some start)
          (hbs : ∀ l ∈ bs.map Prod.fst, l ≠ [] ∧ l.head? ≠ some start) :
          (labelledBlocks render bs ++ r).head? ≠ some start := by
        cases bs with
        | nil => exact hr
        | cons b bs =>
          obtain ⟨hne, hhead⟩ := hbs b.1 List.mem_cons_self
          rw [hsplit, List.head?_append_of_ne_nil _ hne]
          exact hhead
      have hall : ∀ l ∈ blocks.map Prod.fst, l ≠ [] ∧ l.head? ≠ some start := by
        intro l hl
        obtain ⟨b, hb, rfl⟩ := List.mem_map.mp hl
        exact (hblocks b (List.mem_cons_of_mem _ hb)).2
      rw [hsplit, hsplit, hlabels.1, List.append_cancel_left_eq] at h
      obtain ⟨hblock, hbelow_eq⟩ := hrender (hblocks block List.mem_cons_self).1
        (hblocks' block' List.mem_cons_self) (hbelow blocks rest hrest hall)
        (hbelow blocks' rest' hrest' (hlabels.2 ▸ hall)) h
      obtain ⟨hequal, hlast⟩ := ih hlabels.2 (fun b hb => hblocks b (List.mem_cons_of_mem _ hb))
        (fun b hb => hblocks' b (List.mem_cons_of_mem _ hb)) hrest hrest' hbelow_eq
      exact ⟨List.cons_eq_cons.mpr ⟨Prod.ext hlabels.1 hblock, hequal⟩, hlast⟩
