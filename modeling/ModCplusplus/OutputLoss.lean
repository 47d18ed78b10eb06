import ModCplusplus.OutputOrder

/-!
# What becomes of the bytes written

Writes may fail, and be tried again or not.  A byte written is delivered, or still in
memory, or lost, and it is one of these once: it is lost if a direct write of it fails, if
it is in memory when that is cleared, or if a NUL byte is before it in memory when that is
flushed.  A flush that fails loses nothing, so that an output that stays buffered delivers
everything in the end, whatever fails before.

## Main definitions

* `lostBy`, `lost` — the bytes lost, by an operation and in a run.
* `StaysBuffered` — nothing is cleared, and buffering stays on.

## Main results

* `count_exec` — what an operation does with a byte.
* `each_byte_once` — a byte written is delivered, in memory or lost, and once.
* `eq_of_lost_eq_nil` — when output is exact in spite of failures.
* `buffered_survives_failures` — buffered output is.
-/

namespace ModCplusplus

/-! ### Bytes lost -/

/-- The bytes a flush loses: the first NUL byte in memory and those after it. -/
def lostByFlush (client : Client) (o : Output) : Str :=
  if client o.signalSending.calls then o.obj.memory_.dropWhile (· ≠ 0) else []

/-- The bytes an operation loses. -/
def lostBy (client : Client) (o : Output) : Op → Str
  | .overflow c =>
      if o.obj.buffer_ = false ∧ client o.signalSending.calls = false then [toChar c] else []
  | .flush => lostByFlush client o
  | .clear => o.obj.memory_
  | .buffer val => if o.obj.buffer_ && !val then lostByFlush client o else []
  | .setContentType _ => []

/-- The bytes a run loses. -/
def lost (client : Client) : List Op → Output → Str
  | [], _ => []
  | op :: ops, o => lostBy client o op ++ lost client ops (op.exec client o)

section

variable (client : Client) (o : Output) (b : UInt8)

theorem count_flush :
    (delivered (o.flush client).2.calls).count b + (o.flush client).2.obj.memory_.count b
        + (lostByFlush client o).count b
      = (delivered o.calls).count b + o.obj.memory_.count b := by
  unfold lostByFlush
  cases hok : client o.signalSending.calls with
  | true =>
    obtain ⟨hmemory, -, hdelivered⟩ := flush_of_ok hok
    have hsplit := congrArg (List.count b)
      (List.takeWhile_append_dropWhile (p := fun c : UInt8 => decide (c ≠ 0)) (l := o.obj.memory_))
    rw [List.count_append] at hsplit
    rw [if_pos rfl, hmemory, hdelivered, List.count_append, List.count_nil, cStrOf]
    omega
  | false =>
    obtain ⟨hmemory, -, hdelivered⟩ := flush_of_fail hok
    rw [if_neg Bool.false_ne_true, hmemory, hdelivered, List.count_nil, Nat.add_zero]

/-- **What an operation does with a byte**: those there before and those it writes are
delivered, in memory or lost. -/
theorem count_exec (op : Op) :
    (delivered (op.exec client o).calls).count b + (op.exec client o).obj.memory_.count b
        + (lostBy client o op).count b
      = (delivered o.calls).count b + o.obj.memory_.count b + (written [op]).count b := by
  cases op with
  | overflow c =>
    have hwritten : written [.overflow c] = [toChar c] := rfl
    rw [hwritten]
    cases hmode : o.obj.buffer_ with
    | true =>
      simp only [Op.exec, Output.overflow, lostBy, hmode, if_true, Bool.true_eq_false, false_and,
        if_false, List.count_append, List.count_nil]
      omega
    | false =>
      cases hok : client o.signalSending.calls with
      | true =>
        simp [Op.exec, Output.overflow, lostBy, hmode, hok, Call.bytes, List.count_append]
        omega
      | false =>
        simp [Op.exec, Output.overflow, lostBy, hmode, hok, Call.bytes]
  | flush => exact count_flush client o b
  | clear =>
    rw [show written [.clear] = [] from rfl, Op.exec, Output.clear, lostBy, List.count_nil]
    rfl
  | buffer val =>
    rw [show written [.buffer val] = [] from rfl, Op.exec, Output.buffer, lostBy, List.count_nil]
    cases hleaves : o.obj.buffer_ && !val with
    | true => exact count_flush client o b
    | false => rfl
  | setContentType type => rfl

theorem count_execAll (ops : List Op) :
    (delivered (execAll client ops o).calls).count b + (execAll client ops o).obj.memory_.count b
        + (lost client ops o).count b
      = (delivered o.calls).count b + o.obj.memory_.count b + (written ops).count b := by
  induction ops generalizing o with
  | nil => rfl
  | cons op ops ih =>
    have hfirst := count_exec client o b op
    have hrest := ih (op.exec client o)
    rw [written_cons, lost, List.count_append, List.count_append]
    rw [show execAll client (op :: ops) o = execAll client ops (op.exec client o) from rfl]
    omega

end

/-- **A byte written is delivered, in memory or lost, and once**, at every point of every
run, whatever writes fail. -/
theorem each_byte_once (client : Client) (mode : Bool) (ops : List Op) :
    (delivered (execAll client ops (Output.new mode)).calls
        ++ (execAll client ops (Output.new mode)).obj.memory_
        ++ lost client ops (Output.new mode)).Perm (written ops) := by
  rw [List.perm_iff_count]
  intro b
  have hcount := count_execAll client (Output.new mode) b ops
  rw [List.count_append, List.count_append, hcount]
  exact Nat.zero_add _

/-! ### Output that survives failures -/

/-- **Nothing lost and nothing overtaken**: what has been delivered and what is in memory
are what was written. -/
theorem eq_of_lost_eq_nil {client : Client} {mode : Bool} {ops : List Op}
    (hlost : lost client ops (Output.new mode) = [])
    (h : NeverOvertakes client ops (Output.new mode)) :
    delivered (execAll client ops (Output.new mode)).calls
      ++ (execAll client ops (Output.new mode)).obj.memory_ = written ops := by
  have hperm := each_byte_once client mode ops
  rw [hlost, List.append_nil] at hperm
  exact (sublist_execAll_new h).eq_of_length hperm.length_eq

/-- Nothing is cleared, and buffering stays on. -/
def StaysBuffered (ops : List Op) : Prop := ∀ op ∈ ops, op ≠ .clear ∧ op ≠ .buffer false

instance (ops : List Op) : Decidable (StaysBuffered ops) :=
  inferInstanceAs (Decidable (∀ op ∈ ops, _))

/-- Output is buffered, and has no NUL byte in memory. -/
structure Buffering (o : Output) : Prop where
  mode : o.obj.buffer_ = true
  nul : (0 : UInt8) ∉ o.obj.memory_

namespace Buffering

variable {client : Client} {o : Output}

theorem flush (h : Buffering o) : Buffering (o.flush client).2 := by
  cases hok : client o.signalSending.calls with
  | true =>
    obtain ⟨hmemory, hbuffer, -⟩ := flush_of_ok hok
    exact ⟨hbuffer.trans h.mode, hmemory ▸ List.not_mem_nil⟩
  | false =>
    obtain ⟨hmemory, hbuffer, -⟩ := flush_of_fail hok
    exact ⟨hbuffer.trans h.mode, hmemory ▸ h.nul⟩

theorem exec (h : Buffering o) {op : Op} (hop : op ≠ .clear ∧ op ≠ .buffer false)
    (hnul : (0 : UInt8) ∉ written [op]) : Buffering (op.exec client o) := by
  cases op with
  | overflow c =>
    rw [Op.exec, Output.overflow, if_pos h.mode]
    refine ⟨h.mode, ?_⟩
    rw [List.mem_append, not_or]
    exact ⟨h.nul, hnul⟩
  | flush => exact h.flush
  | clear => exact absurd rfl hop.1
  | buffer val =>
    cases val with
    | true =>
      refine ⟨rfl, ?_⟩
      rw [Op.exec, Output.buffer, Bool.not_true, Bool.and_false]
      exact h.nul
    | false => exact absurd rfl hop.2
  | setContentType type => exact ⟨h.mode, h.nul⟩

theorem lostByFlush_eq (h : Buffering o) : lostByFlush client o = [] := by
  unfold lostByFlush
  split
  · rw [List.dropWhile_eq_nil_iff]
    intro c hc
    rw [decide_eq_true_eq]
    rintro rfl
    exact h.nul hc
  · rfl

theorem lostBy_eq (h : Buffering o) {op : Op} (hop : op ≠ .clear ∧ op ≠ .buffer false) :
    lostBy client o op = [] := by
  cases op with
  | overflow c => simp [lostBy, h.mode]
  | flush => exact h.lostByFlush_eq
  | clear => exact absurd rfl hop.1
  | buffer val =>
    cases val with
    | true => simp [lostBy]
    | false => exact absurd rfl hop.2
  | setContentType type => rfl

theorem not_overtakes (h : Buffering o) (op : Op) : ¬ Overtakes client o op := by
  cases op with
  | overflow c =>
    rintro ⟨hmode, -, -⟩
    rw [h.mode] at hmode
    exact Bool.noConfusion hmode
  | _ => exact not_false

/-- **While output stays buffered** nothing is lost and nothing overtakes. -/
theorem run (h : Buffering o) (client : Client) {ops : List Op} (hops : StaysBuffered ops)
    (hnul : (0 : UInt8) ∉ written ops) :
    Buffering (execAll client ops o) ∧ lost client ops o = [] ∧ NeverOvertakes client ops o := by
  induction ops generalizing o with
  | nil => exact ⟨h, rfl, trivial⟩
  | cons op ops ih =>
    rw [written_cons, List.mem_append, not_or] at hnul
    have hop := hops op List.mem_cons_self
    obtain ⟨hlast, hlost, hnever⟩ := ih (h.exec hop hnul.1)
      (fun op' hop' => hops op' (List.mem_cons_of_mem op hop')) hnul.2
    refine ⟨hlast, ?_, h.not_overtakes op, hnever⟩
    rw [lost, h.lostBy_eq hop, hlost]
    rfl

end Buffering

/-- **Buffered output survives failures.**  In a run that stays buffered and writes no NUL
byte, whatever writes fail: at every point, what has been delivered and what is in memory
are what has been written, and whenever a flush returns anything but -1, everything has
been delivered. -/
theorem buffered_survives_failures (client : Client) (ops : List Op) (h : StaysBuffered ops)
    (hnul : (0 : UInt8) ∉ written ops) :
    ∀ pre, pre <+: ops →
      delivered (execAll client pre (Output.new true)).calls
          ++ (execAll client pre (Output.new true)).obj.memory_ = written pre ∧
        (((execAll client pre (Output.new true)).flush client).1 ≠ -1 →
          delivered ((execAll client pre (Output.new true)).flush client).2.calls
            = written pre) := by
  rintro pre ⟨post, rfl⟩
  have hpre : StaysBuffered pre := fun op hop => h op (List.mem_append_left post hop)
  rw [written_append, List.mem_append, not_or] at hnul
  have hnew : Buffering (Output.new true) := ⟨rfl, List.not_mem_nil⟩
  obtain ⟨hlast, hlost, hnever⟩ := hnew.run client hpre hnul.1
  have heq := eq_of_lost_eq_nil hlost hnever
  refine ⟨heq, fun hret => ?_⟩
  generalize execAll client pre (Output.new true) = o at hlast heq hret ⊢
  cases hok : client o.signalSending.calls with
  | true =>
    rw [(flush_of_ok hok).2.2, cStrOf_eq_self hlast.nul, heq]
  | false =>
    refine absurd ?_ hret
    unfold Output.flush
    dsimp only
    rw [hok]
    rfl

/-- A byte, a flush that fails, another byte, and a flush that succeeds. -/
theorem buffered_survives_failures_retry :
    let client : Client := fun calls => !calls.isEmpty
    let o := execAll client [.overflow 97, .flush, .overflow 98] (Output.new true)
    delivered o.calls = [] ∧ delivered (o.flush client).2.calls = [97, 98] := by
  intro client o
  have h := buffered_survives_failures client [.overflow 97, .flush, .overflow 98] (by decide)
    (by decide) _ (List.prefix_refl _)
  exact ⟨by decide, (h.2 (by decide)).trans (by decide)⟩

end ModCplusplus
