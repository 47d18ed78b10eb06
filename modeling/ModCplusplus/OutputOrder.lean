import ModCplusplus.OutputBuffer

/-!
# The order of the output

A flush that fails keeps `memory_`, so that it can be tried again; but when it is
leaving buffered mode that caused it, the mode changes all the same, and from then on
bytes are handed out directly while older ones wait.  A byte that is delivered so
overtakes them.

## Main definitions

* `execAll` — a run of operations, without the flush of the destructor.
* `Overtakes`, `NeverOvertakes` — a byte is delivered directly while memory is not
  empty, by an operation and in a run.

## Main results

* `sublist_exec` — what an operation that does not overtake preserves.
* `sublist_execAll` — bytes are delivered in the order written if none overtakes.
* `not_sublist_of_overtakes` — and only then, if a flush succeeds afterwards.
-/

namespace ModCplusplus

/-- A run of operations. -/
def execAll (client : Client) (ops : List Op) (o : Output) : Output :=
  ops.foldl (fun o op => op.exec client o) o

/-- A byte is delivered directly while older ones are in memory. -/
def Overtakes (client : Client) (o : Output) : Op → Prop
  | .overflow _ =>
      o.obj.buffer_ = false ∧ o.obj.memory_ ≠ [] ∧ client o.signalSending.calls = true
  | _ => False

instance (client : Client) (o : Output) : DecidablePred (Overtakes client o)
  | .overflow _ => inferInstanceAs (Decidable (_ ∧ _ ∧ _))
  | .flush | .clear | .buffer _ | .setContentType _ => inferInstanceAs (Decidable False)

/-- No operation of the run delivers a byte directly while older ones are in memory. -/
def NeverOvertakes (client : Client) : List Op → Output → Prop
  | [], _ => True
  | op :: ops, o => ¬ Overtakes client o op ∧ NeverOvertakes client ops (op.exec client o)

instance decidableNeverOvertakes (client : Client) : ∀ (ops : List Op) (o : Output),
    Decidable (NeverOvertakes client ops o)
  | [], _ => inferInstanceAs (Decidable True)
  | op :: ops, o =>
      have := decidableNeverOvertakes client ops (op.exec client o)
      inferInstanceAs (Decidable (¬ Overtakes client o op ∧ _))

theorem written_cons (op : Op) (ops : List Op) :
    written (op :: ops) = written [op] ++ written ops := by
  rw [written, written, written, List.flatMap_cons, List.flatMap_singleton]

theorem written_append (ops ops' : List Op) : written (ops ++ ops') = written ops ++ written ops' :=
  List.flatMap_append

theorem execAll_append (client : Client) (ops ops' : List Op) (o : Output) :
    execAll client (ops ++ ops') o = execAll client ops' (execAll client ops o) :=
  List.foldl_append

theorem NeverOvertakes.of_append {client : Client} {ops ops' : List Op} {o : Output}
    (h : NeverOvertakes client (ops ++ ops') o) : NeverOvertakes client ops o := by
  induction ops generalizing o with
  | nil => trivial
  | cons op ops ih => exact ⟨h.1, ih h.2⟩

/-- A flush takes bytes from the beginning of memory, or leaves all of it. -/
theorem sublist_flush {client : Client} {o : Output} {w : Str}
    (h : List.Sublist (delivered o.calls ++ o.obj.memory_) w) :
    List.Sublist (delivered (o.flush client).2.calls ++ (o.flush client).2.obj.memory_) w := by
  cases hok : client o.signalSending.calls with
  | true =>
    obtain ⟨hmemory, -, hdelivered⟩ := flush_of_ok hok
    rw [hdelivered, hmemory, List.append_nil]
    have hstart : List.Sublist (cStrOf o.obj.memory_) o.obj.memory_ :=
      (List.takeWhile_prefix _).sublist
    exact (hstart.append_left (delivered o.calls)).trans h
  | false =>
    obtain ⟨hmemory, -, hdelivered⟩ := flush_of_fail hok
    rwa [hdelivered, hmemory]

/-- **Bytes delivered and bytes in memory stay in the order written**, by an operation
that does not overtake. -/
theorem sublist_exec {client : Client} {op : Op} {o : Output} {w : Str}
    (h : List.Sublist (delivered o.calls ++ o.obj.memory_) w) (hop : ¬ Overtakes client o op) :
    List.Sublist (delivered (op.exec client o).calls ++ (op.exec client o).obj.memory_)
      (w ++ written [op]) := by
  cases op with
  | overflow c =>
    have hwritten : written [.overflow c] = [toChar c] := rfl
    rw [hwritten]
    cases hmode : o.obj.buffer_ with
    | true =>
      simp only [Op.exec, Output.overflow, hmode, if_true]
      rw [← List.append_assoc]
      exact h.append_right [toChar c]
    | false =>
      simp only [Op.exec, Output.overflow, hmode, Bool.false_eq_true, if_false, delivered_append,
        delivered_signalSending, delivered_singleton, memory_signalSending]
      cases hok : client o.signalSending.calls with
      | true =>
        have hmemory : o.obj.memory_ = [] := by
          by_contra hne
          exact hop ⟨hmode, hne, hok⟩
        rw [hmemory, List.append_nil] at h ⊢
        exact h.append_right [toChar c]
      | false =>
        rw [show (Call.apRputc (toChar c) false).bytes = [] from rfl, List.append_nil]
        exact h.trans (List.sublist_append_left _ _)
  | flush =>
    rw [show written [.flush] = [] from rfl, List.append_nil]
    exact sublist_flush h
  | clear =>
    rw [show written [.clear] = [] from rfl, List.append_nil]
    exact ((List.nil_sublist o.obj.memory_).append_left (delivered o.calls)).trans h
  | buffer val =>
    rw [show written [.buffer val] = [] from rfl, List.append_nil, Op.exec, Output.buffer]
    dsimp only
    split
    · exact sublist_flush h
    · exact h
  | setContentType type =>
    rw [show written [.setContentType type] = [] from rfl, List.append_nil]
    exact h

/-- **In a run in which no byte overtakes, bytes are delivered in the order written**,
each at most once, whatever writes fail; and those in memory come behind them. -/
theorem sublist_execAll {client : Client} {ops : List Op} {o : Output} {w : Str}
    (hw : List.Sublist (delivered o.calls ++ o.obj.memory_) w) (h : NeverOvertakes client ops o) :
    List.Sublist (delivered (execAll client ops o).calls ++ (execAll client ops o).obj.memory_)
      (w ++ written ops) := by
  induction ops generalizing o w with
  | nil => exact hw.trans (List.sublist_append_left _ _)
  | cons op ops ih =>
    rw [written_cons, ← List.append_assoc]
    exact ih (sublist_exec hw h.1) h.2

/-- From the beginning. -/
theorem sublist_execAll_new {client : Client} {mode : Bool} {ops : List Op}
    (h : NeverOvertakes client ops (Output.new mode)) :
    List.Sublist (delivered (execAll client ops (Output.new mode)).calls
      ++ (execAll client ops (Output.new mode)).obj.memory_) (written ops) :=
  sublist_execAll (o := Output.new mode) (w := []) (List.Sublist.refl []) h

/-- **Order survives failed writes** in a run in which no byte overtakes: at every
point of it, what has been delivered is a subsequence of what has been written. -/
theorem delivered_in_order (client : Client) (mode : Bool) (ops : List Op)
    (h : NeverOvertakes client ops (Output.new mode)) :
    ∀ pre, pre <+: ops →
      List.Sublist (delivered (execAll client pre (Output.new mode)).calls) (written pre) := by
  rintro pre ⟨post, rfl⟩
  exact (List.sublist_append_left _ _).trans (sublist_execAll_new h.of_append)

/-- A byte written directly, and one buffered and flushed. -/
theorem delivered_in_order_two :
    NeverOvertakes succeeding [.overflow 97, .buffer true, .overflow 98, .flush]
        (Output.new false) ∧
      ∀ pre, pre <+: [Op.overflow 97, .buffer true, .overflow 98, .flush] →
        List.Sublist (delivered (execAll succeeding pre (Output.new false)).calls) (written pre) :=
  ⟨by decide,
    delivered_in_order succeeding false [.overflow 97, .buffer true, .overflow 98, .flush]
      (by decide)⟩

/-- The first write fails, and the others succeed: a byte written while buffering, one
written after, and a flush. -/
theorem not_delivered_in_order_retry :
    delivered (execAll (fun calls => !calls.isEmpty)
        [.overflow 97, .buffer false, .overflow 98, .flush] (Output.new true)).calls = [98, 97] ∧
      ¬ List.Sublist (delivered (execAll (fun calls => !calls.isEmpty)
          [.overflow 97, .buffer false, .overflow 98, .flush] (Output.new true)).calls)
        (written [.overflow 97, .buffer false, .overflow 98, .flush]) := by
  decide

/-- **A byte that overtakes is out of order** once a flush succeeds, if it is none of
those written before and none of them is NUL. -/
theorem not_sublist_of_overtakes {client : Client} {mode : Bool} {ops : List Op} {c : ℤ}
    (h : NeverOvertakes client ops (Output.new mode))
    (hover : Overtakes client (execAll client ops (Output.new mode)) (.overflow c))
    (hflush : client
      (execAll client (ops ++ [.overflow c]) (Output.new mode)).signalSending.calls = true)
    (hnul : (0 : UInt8) ∉ written ops) (hnew : toChar c ∉ written ops) :
    ¬ List.Sublist
      (delivered (execAll client (ops ++ [.overflow c] ++ [.flush]) (Output.new mode)).calls)
      (written (ops ++ [.overflow c] ++ [.flush])) := by
  have hsub := sublist_execAll_new h
  rw [execAll_append] at hflush
  rw [execAll_append, execAll_append, written_append, written_append,
    show written [.flush] = [] from rfl, show written [.overflow c] = [toChar c] from rfl,
    List.append_nil]
  set o := execAll client ops (Output.new mode)
  obtain ⟨hmode, hmemory, hok⟩ := hover
  -- the byte is delivered, and then what was in memory before it
  have hstep : execAll client [.overflow c] o
      = { o.signalSending with calls := o.signalSending.calls ++ [.apRputc (toChar c) true] } := by
    simp [execAll, Op.exec, Output.overflow, hmode, hok]
  have hdelivered : delivered (execAll client [.flush] (execAll client [.overflow c] o)).calls
      = delivered o.calls ++ [toChar c] ++ o.obj.memory_ := by
    have hkeep : cStrOf o.obj.memory_ = o.obj.memory_ := cStrOf_eq_self fun h0 =>
      hnul (hsub.subset (List.mem_append_right _ h0))
    refine (flush_of_ok hflush).2.2.trans ?_
    rw [hstep]
    simp [hkeep, Call.bytes]
  obtain ⟨b, rest, hb⟩ := List.exists_cons_of_ne_nil hmemory
  rw [hdelivered, hb]
  intro hbad
  -- behind the last byte written there is none
  have hpair : List.Sublist [toChar c, b] (written ops ++ [toChar c]) := by
    refine List.Sublist.trans ?_ hbad
    rw [List.append_assoc, List.singleton_append]
    exact ((List.nil_sublist rest).cons_cons b |>.cons_cons (toChar c)).trans
      (List.sublist_append_right _ _)
  obtain ⟨l₁, l₂, heq, h₁, h₂⟩ := List.sublist_append_iff.mp hpair
  cases l₁ with
  | nil =>
    rw [List.nil_append] at heq
    have := h₂.length_le
    rw [← heq] at this
    exact absurd this (by simp)
  | cons a l₁ =>
    rw [(List.cons.inj heq).1] at hnew
    exact hnew (h₁.subset List.mem_cons_self)

end ModCplusplus
