import ModCplusplus.ContentType
import ModCplusplus.OutputOrder

/-!
# The answers of `set_content_type`

`set_content_type` answers whether content has been sent already.  What it reads is
`output_anything_`, and that is set by everything that hands something to httpd: a
flush of an empty memory sets it as well, and delivers nothing.

## Main definitions

* `TellsTruth` — every answer of a run is `false` if and only if a byte has been
  delivered.
* `asksBetween` — a type is set after a flush of nothing, and before the first byte is
  delivered.

## Main results

* `tellsTruth_of_sent` — once a byte has been delivered, the answers are true.
* `tellsTruth_iff_of_unsent` — before that, they are unless a flush of nothing has come.
* `content_answers_iff` — when the answers of a run are true.
-/

namespace ModCplusplus

/-- A `set_content_type` call answers `false` if and only if a byte has been
delivered. -/
def Truthful (type : Str) (o : Output) : Prop :=
  (o.setContentType type).1 = false ↔ delivered o.calls ≠ []

/-- **`set_content_type` tells the truth**, whenever it is called in a run in which
every write succeeds. -/
def TellsTruth (ops : List Op) (o : Output) : Prop :=
  ∀ pre type post, ops = pre ++ .setContentType type :: post →
    Truthful type (execAll succeeding pre o)

theorem tellsTruth_nil (o : Output) : TellsTruth [] o := by
  intro pre type post h
  exact absurd h.symm (List.append_ne_nil_of_right_ne_nil pre (List.cons_ne_nil _ _))

theorem tellsTruth_cons {op : Op} {ops : List Op} {o : Output} :
    TellsTruth (op :: ops) o ↔
      (∀ type, op = .setContentType type → Truthful type o) ∧
        TellsTruth ops (op.exec succeeding o) := by
  constructor
  · intro h
    refine ⟨fun type hop => h [] type ops (by rw [hop]; rfl), fun pre type post hops => ?_⟩
    exact h (op :: pre) type post (by rw [hops]; rfl)
  · rintro ⟨hop, hops⟩ pre type post h
    cases pre with
    | nil => exact hop type (List.cons.inj h).1
    | cons op' pre =>
      obtain ⟨rfl, hrest⟩ := List.cons.inj h
      exact hops pre type post hrest

/-! ### After the first byte -/

/-- A byte has been delivered, and `output_anything_` says so. -/
structure HasSent (o : Output) : Prop where
  delivered : delivered o.calls ≠ []
  sent : o.obj.outputAnything_ = true

theorem HasSent.truthful {o : Output} (h : HasSent o) (type : Str) : Truthful type o := by
  refine iff_of_true ?_ h.delivered
  rw [Output.setContentType, h.sent]
  rfl

theorem HasSent.exec {o : Output} (h : HasSent o) (client : Client) (op : Op) :
    HasSent (op.exec client o) := by
  rcases exec_cases client op o with ⟨-, hsent, ws, hcalls, -⟩ | ⟨hcalls, hkeep, -, -⟩
  · refine ⟨?_, hsent⟩
    rw [hcalls, delivered_append, delivered_signalSending]
    exact List.append_ne_nil_of_left_ne_nil h.delivered _
  · exact ⟨hcalls ▸ h.delivered, hkeep.trans h.sent⟩

theorem tellsTruth_of_sent (ops : List Op) {o : Output} (h : HasSent o) : TellsTruth ops o := by
  induction ops generalizing o with
  | nil => exact tellsTruth_nil o
  | cons op ops ih =>
    exact tellsTruth_cons.mpr ⟨fun type _ => h.truthful type, ih (h.exec succeeding op)⟩

/-! ### Before the first byte -/

/-- A type is set after a flush of nothing and before the first byte is delivered, from
a given mode on: what is in memory, and whether there has been such a flush. -/
def asksBetween (mode held flushed : Bool) : List Op → Bool
  | [] => false
  | .overflow _ :: ops => mode && asksBetween mode true flushed ops
  | .flush :: ops => !held && asksBetween mode false true ops
  | .clear :: ops => asksBetween mode false flushed ops
  | .buffer val :: ops =>
      if mode && !val then !held && asksBetween val false true ops
      else asksBetween val held flushed ops
  | .setContentType _ :: ops => flushed || asksBetween mode held flushed ops

/-- No byte has been delivered; whether memory holds any, and what `output_anything_`
says. -/
structure NotSent (mode held flushed : Bool) (o : Output) : Prop where
  delivered : delivered o.calls = []
  mode : o.obj.buffer_ = mode
  memory : o.obj.memory_ = [] ↔ held = false
  nul : (0 : UInt8) ∉ o.obj.memory_
  flushed : o.obj.outputAnything_ = flushed

section

variable {mode held flushed : Bool} {o : Output}

theorem NotSent.truthful_iff (h : NotSent mode held flushed o) (type : Str) :
    Truthful type o ↔ flushed = false := by
  rw [Truthful, Output.setContentType, h.flushed, h.delivered]
  cases flushed <;> simp

/-- A flush of nothing is only marked, and one of anything delivers it. -/
theorem NotSent.flush (h : NotSent mode held flushed o) :
    if held then HasSent (o.flush succeeding).2
    else NotSent mode false true (o.flush succeeding).2 := by
  obtain ⟨hmemory, hbuffer, hdelivered⟩ := flush_succeeding o
  rw [h.delivered, cStrOf_eq_self h.nul, List.nil_append] at hdelivered
  have hsent := outputAnything_flush succeeding o
  cases held with
  | true =>
    refine ⟨?_, hsent⟩
    rw [hdelivered]
    exact fun hnil => Bool.noConfusion (h.memory.mp hnil)
  | false =>
    refine ⟨?_, hbuffer.trans h.mode, iff_of_true hmemory rfl, ?_, hsent⟩
    · rw [hdelivered, h.memory.mpr rfl]
    · rw [hmemory]
      exact List.not_mem_nil

/-- A byte goes to memory, or it is delivered. -/
theorem NotSent.overflow (h : NotSent mode held flushed o) {c : ℤ} (hc : toChar c ≠ 0) :
    if mode then NotSent true true flushed (o.overflow succeeding c).2
    else HasSent (o.overflow succeeding c).2 := by
  cases hmode : mode with
  | true =>
    have hbuffer : o.obj.buffer_ = true := h.mode.trans hmode
    rw [if_pos rfl, Output.overflow, if_pos hbuffer]
    refine ⟨h.delivered, hbuffer, ?_, ?_, h.flushed⟩
    · exact iff_of_false (List.append_ne_nil_of_right_ne_nil _ (List.cons_ne_nil _ _))
        fun hheld => Bool.noConfusion hheld
    · rw [List.mem_append, List.mem_singleton, not_or]
      exact ⟨h.nul, hc.symm⟩
  | false =>
    have hbuffer : ¬ o.obj.buffer_ = true := by rw [h.mode, hmode]; exact Bool.false_ne_true
    rw [if_neg Bool.false_ne_true, Output.overflow, if_neg hbuffer]
    refine ⟨?_, outputAnything_signalSending o⟩
    rw [delivered_append, delivered_singleton]
    exact List.append_ne_nil_of_right_ne_nil _ (List.cons_ne_nil _ _)

theorem NotSent.buffer (h : NotSent mode held flushed o) (val : Bool) :
    NotSent val held flushed { o with obj := { o.obj with buffer_ := val } } :=
  ⟨h.delivered, rfl, h.memory, h.nul, h.flushed⟩

end

/-- **Before the first byte, the answers of a run are true unless a type is set after a
flush of nothing.** -/
theorem tellsTruth_iff_of_unsent (ops : List Op) {mode held flushed : Bool} {o : Output}
    (h : NotSent mode held flushed o) (hnul : ∀ c, .overflow c ∈ ops → toChar c ≠ 0) :
    TellsTruth ops o ↔ asksBetween mode held flushed ops = false := by
  induction ops generalizing mode held flushed o with
  | nil => exact iff_of_true (tellsTruth_nil o) rfl
  | cons op ops ih =>
    have hnul' : ∀ c, .overflow c ∈ ops → toChar c ≠ 0 :=
      fun c hc => hnul c (List.mem_cons_of_mem op hc)
    -- what a flush does, be it called for or caused by leaving buffered mode
    have hflush (val : Bool) (o' : Output)
        (ho' : if held then HasSent o' else NotSent val false true o') :
        TellsTruth ops o' ↔ (!held && asksBetween val false true ops) = false := by
      cases held with
      | true => exact iff_of_true (tellsTruth_of_sent ops ho') rfl
      | false => exact ih ho' hnul'
    rw [tellsTruth_cons]
    cases op with
    | overflow c =>
      have hstep := h.overflow (hnul c List.mem_cons_self)
      rw [and_iff_right (fun _ => nofun), asksBetween]
      cases mode with
      | true => exact ih hstep hnul'
      | false => exact iff_of_true (tellsTruth_of_sent ops hstep) rfl
    | flush =>
      rw [and_iff_right (fun _ => nofun), asksBetween]
      exact hflush mode _ h.flush
    | clear =>
      rw [and_iff_right (fun _ => nofun), asksBetween]
      exact ih ⟨h.delivered, h.mode, iff_of_true rfl rfl, List.not_mem_nil, h.flushed⟩ hnul'
    | buffer val =>
      rw [and_iff_right (fun _ => nofun), asksBetween, Op.exec, Output.buffer, h.mode]
      cases hleave : mode && !val with
      | true =>
        refine hflush val _ ?_
        have hstep := h.flush
        cases held with
        | true => exact ⟨hstep.delivered, hstep.sent⟩
        | false => exact hstep.buffer val
      | false => exact ih (h.buffer val) hnul'
    | setContentType type =>
      have hrest := ih (o := (o.setContentType type).2)
        ⟨h.delivered, h.mode, h.memory, h.nul, h.flushed⟩ hnul'
      rw [asksBetween, Bool.or_eq_false_iff, ← h.truthful_iff type]
      refine and_congr ⟨fun htrue => htrue type rfl, fun htrue type' heq => ?_⟩ hrest
      rw [← Op.setContentType.inj heq]
      exact htrue

/-! ### A run from the beginning -/

/-- **The answers of a run are true if and only if no type is set after a flush of
nothing and before the first byte is delivered.** -/
theorem content_answers_iff (mode : Bool) (ops : List Op)
    (hnul : ∀ c, .overflow c ∈ ops → toChar c ≠ 0) :
    TellsTruth ops (Output.new mode) ↔ asksBetween mode false false ops = false :=
  tellsTruth_iff_of_unsent ops ⟨rfl, rfl, iff_of_true rfl rfl, List.not_mem_nil, rfl⟩ hnul

/-- Bytes that are buffered and flushed, with a type set before and after. -/
theorem content_answers_iff_flushed :
    TellsTruth [.setContentType (literal "text/plain"), .overflow 97, .flush,
        .setContentType (literal "image/png")] (Output.new true) ↔
      asksBetween true false false [.setContentType (literal "text/plain"), .overflow 97, .flush,
        .setContentType (literal "image/png")] = false :=
  content_answers_iff true [.setContentType (literal "text/plain"), .overflow 97, .flush,
    .setContentType (literal "image/png")] (by simp [toChar])

/-- A flush of nothing, and then a type: it is answered that it comes too late. -/
theorem not_tellsTruth_flush :
    ((execAll succeeding [.flush] (Output.new false)).setContentType
        (literal "text/plain")).1 = false ∧
      delivered (execAll succeeding [.flush] (Output.new false)).calls = [] ∧
      ¬ TellsTruth [.flush, .setContentType (literal "text/plain")] (Output.new false) := by
  refine ⟨rfl, rfl, fun h => ?_⟩
  exact (h [.flush] (literal "text/plain") [] rfl).mp rfl rfl

end ModCplusplus
