import ModCplusplus.CTypes

/-!
# The output buffer

Content is written one character at a time, and either handed to `ap_rputc` at
once or collected in a string that a flush hands to `ap_rputs`.  `ap_rputs` takes
a C string, so a flush delivers the string up to its first NUL byte and then
forgets all of it.

The calls made of httpd are logged; whether a write succeeds may depend on
everything that came before it.

## Main definitions

* `ApacheOutputBuffer`, `Call`, `Output` — the object, and the calls it has made.
* `Output.flush`, `Output.clear`, `Output.buffer`, `Output.overflow`,
  `Output.setContentType` — its methods.
* `Op`, `runOutput`, `delivered` — a run of them, and what the client gets.
* `handedOut` — what a run hands out when every write succeeds.
* `kept` — the bytes that ought to reach the client.

## Main results

* `delivered_runOutput` — the bytes delivered, by recursion on the run.
* `handedOut_eq`, `count_handedOut` — they are the bytes kept, or lack NUL bytes.
* `output_exact_iff` — when output is neither lost nor changed.
-/

namespace ModCplusplus

/-! ### The object -/

/-- `apache_output_buffer`. -/
structure ApacheOutputBuffer where
  memory_ : Str
  buffer_ : Bool
  outputAnything_ : Bool
  updateContentType_ : Bool
  contentType_ : Str
  deriving DecidableEq

/-- A call of httpd, for the writes with their success. -/
inductive Call where
  | apSetContentType (type : Str)
  | apRputs (str : Str) (ok : Bool)
  | apRputc (c : UInt8) (ok : Bool)
  deriving DecidableEq

/-- The object and the calls it has made, oldest first. -/
structure Output where
  obj : ApacheOutputBuffer
  calls : List Call
  deriving DecidableEq

/-- Whether a write succeeds after the calls made so far. -/
abbrev Client := List Call → Bool

/-- `apache_output_buffer::apache_output_buffer`. -/
def Output.new (buffer : Bool) : Output where
  obj :=
    { memory_ := []
      buffer_ := buffer
      outputAnything_ := false
      updateContentType_ := false
      contentType_ := literal "text/html" }
  calls := []

/-- `send_http_header`. -/
def Output.sendHttpHeader (o : Output) : Output :=
  if o.obj.updateContentType_ then
    { o with calls := o.calls ++ [.apSetContentType (cStrOf o.obj.contentType_)] }
  else o

/-- `signal_sending`. -/
def Output.signalSending (o : Output) : Output :=
  if o.obj.outputAnything_ then o
  else
    let o := o.sendHttpHeader
    { o with obj := { o.obj with outputAnything_ := true } }

/-- `flush`: the result of `ap_rputs`, and the output after it. -/
def Output.flush (client : Client) (o : Output) : ℤ × Output :=
  let o := o.signalSending
  let str := cStrOf o.obj.memory_
  let ok := client o.calls
  let retVal : ℤ := if ok then str.length else -1
  let o := { o with calls := o.calls ++ [.apRputs str ok] }
  (retVal, if -1 ≠ retVal then { o with obj := { o.obj with memory_ := [] } } else o)

/-- `clear`. -/
def Output.clear (o : Output) : Output := { o with obj := { o.obj with memory_ := [] } }

/-- `buffer( bool val )`. -/
def Output.buffer (client : Client) (val : Bool) (o : Output) : Output :=
  let o := if o.obj.buffer_ && !val then (o.flush client).2 else o
  { o with obj := { o.obj with buffer_ := val } }

/-- `overflow`: the argument, and the output after it. -/
def Output.overflow (client : Client) (c : ℤ) (o : Output) : ℤ × Output :=
  if o.obj.buffer_ then (c, { o with obj := { o.obj with memory_ := o.obj.memory_ ++ [toChar c] } })
  else
    let o := o.signalSending
    (c, { o with calls := o.calls ++ [.apRputc (toChar c) (client o.calls)] })

/-- `set_content_type`. -/
def Output.setContentType (type : Str) (o : Output) : Bool × Output :=
  (!o.obj.outputAnything_,
    { o with obj := { o.obj with contentType_ := type, updateContentType_ := true } })

/-! ### Runs -/

/-- An operation on the output. -/
inductive Op where
  | overflow (c : ℤ)
  | flush
  | clear
  | buffer (val : Bool)
  | setContentType (type : Str)
  deriving DecidableEq

/-- One operation. -/
def Op.exec (client : Client) : Op → Output → Output
  | .overflow c, o => (o.overflow client c).2
  | .flush, o => (o.flush client).2
  | .clear, o => o.clear
  | .buffer val, o => o.buffer client val
  | .setContentType type, o => (o.setContentType type).2

/-- A run of operations, ended by the flush of `~request_env`. -/
def runOutput (client : Client) (ops : List Op) (o : Output) : Output :=
  ((ops.foldl (fun o op => op.exec client o) o).flush client).2

theorem runOutput_cons (client : Client) (op : Op) (ops : List Op) (o : Output) :
    runOutput client (op :: ops) o = runOutput client ops (op.exec client o) := rfl

/-- What a call delivers to the client. -/
def Call.bytes : Call → Str
  | .apSetContentType _ => []
  | .apRputs str ok => if ok then str else []
  | .apRputc c ok => if ok then [c] else []

/-- The bytes the client has been given. -/
def delivered (calls : List Call) : Str := calls.flatMap Call.bytes

/-- Every write succeeds. -/
def succeeding : Client := fun _ => true

@[simp] theorem delivered_append (calls calls' : List Call) :
    delivered (calls ++ calls') = delivered calls ++ delivered calls' := List.flatMap_append

@[simp] theorem delivered_singleton (call : Call) : delivered [call] = call.bytes := by
  simp [delivered]

@[simp] theorem delivered_sendHttpHeader (o : Output) :
    delivered o.sendHttpHeader.calls = delivered o.calls := by
  unfold Output.sendHttpHeader
  split
  · simp [Call.bytes]
  · rfl

@[simp] theorem delivered_signalSending (o : Output) :
    delivered o.signalSending.calls = delivered o.calls := by
  unfold Output.signalSending
  split
  · rfl
  · exact delivered_sendHttpHeader o

@[simp] theorem memory_signalSending (o : Output) :
    o.signalSending.obj.memory_ = o.obj.memory_ := by
  unfold Output.signalSending Output.sendHttpHeader
  split
  · rfl
  · split <;> rfl

@[simp] theorem buffer_signalSending (o : Output) :
    o.signalSending.obj.buffer_ = o.obj.buffer_ := by
  unfold Output.signalSending Output.sendHttpHeader
  split
  · rfl
  · split <;> rfl

/-- A flush that succeeds delivers memory up to its first NUL byte, and forgets all of
it. -/
theorem flush_of_ok {client : Client} {o : Output} (h : client o.signalSending.calls = true) :
    (o.flush client).2.obj.memory_ = [] ∧ (o.flush client).2.obj.buffer_ = o.obj.buffer_ ∧
      delivered (o.flush client).2.calls = delivered o.calls ++ cStrOf o.obj.memory_ := by
  have hret : (-1 : ℤ) ≠ (cStrOf o.signalSending.obj.memory_).length := by omega
  unfold Output.flush
  dsimp only
  rw [h, if_pos rfl, if_pos hret]
  exact ⟨rfl, buffer_signalSending o, by simp [Call.bytes]⟩

/-- A flush that fails delivers nothing, and keeps memory. -/
theorem flush_of_fail {client : Client} {o : Output} (h : client o.signalSending.calls = false) :
    (o.flush client).2.obj.memory_ = o.obj.memory_ ∧
      (o.flush client).2.obj.buffer_ = o.obj.buffer_ ∧
      delivered (o.flush client).2.calls = delivered o.calls := by
  unfold Output.flush
  dsimp only
  rw [h, if_neg (by simp)]
  exact ⟨memory_signalSending o, buffer_signalSending o, by simp [Call.bytes]⟩

/-! ### What is handed out when every write succeeds -/

/-- What a run hands out from a given mode and memory on. -/
def handedOut : Bool → Str → List Op → Str
  | _, memory, [] => cStrOf memory
  | true, memory, .overflow c :: ops => handedOut true (memory ++ [toChar c]) ops
  | false, memory, .overflow c :: ops => toChar c :: handedOut false memory ops
  | mode, memory, .flush :: ops => cStrOf memory ++ handedOut mode [] ops
  | mode, _, .clear :: ops => handedOut mode [] ops
  | true, memory, .buffer false :: ops => cStrOf memory ++ handedOut false [] ops
  | true, memory, .buffer true :: ops => handedOut true memory ops
  | false, memory, .buffer val :: ops => handedOut val memory ops
  | mode, memory, .setContentType _ :: ops => handedOut mode memory ops

theorem flush_succeeding (o : Output) :
    (o.flush succeeding).2.obj.memory_ = [] ∧
      (o.flush succeeding).2.obj.buffer_ = o.obj.buffer_ ∧
      delivered (o.flush succeeding).2.calls = delivered o.calls ++ cStrOf o.obj.memory_ :=
  flush_of_ok rfl

/-- **The bytes delivered** by a run in which every write succeeds. -/
theorem delivered_runOutput : ∀ (ops : List Op) (o : Output),
    delivered (runOutput succeeding ops o).calls
      = delivered o.calls ++ handedOut o.obj.buffer_ o.obj.memory_ ops := by
  intro ops
  induction ops with
  | nil =>
    intro o
    rw [handedOut]
    exact (flush_succeeding o).2.2
  | cons op ops ih =>
    intro o
    obtain ⟨hmemory, hbuffer, hdelivered⟩ := flush_succeeding o
    rw [runOutput_cons, ih]
    cases op with
    | overflow c =>
      cases hmode : o.obj.buffer_ with
      | true => simp [Op.exec, Output.overflow, hmode, handedOut]
      | false =>
        simp [Op.exec, Output.overflow, hmode, handedOut, succeeding, Call.bytes]
    | flush =>
      rw [Op.exec, hmemory, hbuffer, hdelivered, List.append_assoc, handedOut]
    | clear => simp [Op.exec, Output.clear, handedOut]
    | buffer val =>
      cases hmode : o.obj.buffer_ with
      | true =>
        cases val with
        | true => simp [Op.exec, Output.buffer, hmode, handedOut]
        | false =>
          simp [Op.exec, Output.buffer, hmode, handedOut, hmemory, hdelivered]
      | false => simp [Op.exec, Output.buffer, hmode, handedOut]
    | setContentType type => simp [Op.exec, Output.setContentType, handedOut]

/-! ### What ought to reach the client -/

/-- In buffered mode, a clear comes before anything is flushed. -/
def clearedFirst : List Op → Bool
  | [] => false
  | .overflow _ :: ops => clearedFirst ops
  | .flush :: _ => false
  | .clear :: _ => true
  | .buffer val :: ops => val && clearedFirst ops
  | .setContentType _ :: ops => clearedFirst ops

/-- The bytes written, except those written in buffered mode that a clear meets
before any flush. -/
def kept : Bool → List Op → Str
  | _, [] => []
  | mode, .overflow c :: ops =>
      if mode && clearedFirst ops then kept mode ops else toChar c :: kept mode ops
  | mode, .flush :: ops => kept mode ops
  | mode, .clear :: ops => kept mode ops
  | _, .buffer val :: ops => kept val ops
  | mode, .setContentType _ :: ops => kept mode ops

/-- How many NUL bytes are written in buffered mode and not cleared before a
flush. -/
def heldNuls : Bool → List Op → ℕ
  | _, [] => 0
  | mode, .overflow c :: ops =>
      (if mode = true ∧ clearedFirst ops = false ∧ toChar c = 0 then 1 else 0) + heldNuls mode ops
  | mode, .flush :: ops => heldNuls mode ops
  | mode, .clear :: ops => heldNuls mode ops
  | _, .buffer val :: ops => heldNuls val ops
  | mode, .setContentType _ :: ops => heldNuls mode ops

/-- The bytes in memory that ought to be delivered. -/
def pending (memory : Str) (ops : List Op) : Str := if clearedFirst ops then [] else memory

/-- **Without a NUL byte in memory, the bytes kept are handed out.** -/
theorem handedOut_eq : ∀ (ops : List Op) (mode : Bool) (memory : Str),
    (mode = false → memory = []) → (0 : UInt8) ∉ pending memory ops → heldNuls mode ops = 0 →
      handedOut mode memory ops = pending memory ops ++ kept mode ops := by
  intro ops
  induction ops with
  | nil =>
    intro mode memory _ hnul _
    rw [handedOut, cStrOf_eq_self (by simpa [pending, clearedFirst] using hnul)]
    simp [pending, clearedFirst, kept]
  | cons op ops ih =>
    intro mode memory hmode hnul hheld
    cases op with
    | overflow c =>
      rw [heldNuls, Nat.add_eq_zero_iff] at hheld
      cases mode with
      | true =>
        rw [handedOut, ih true _ (by simp) ?_ hheld.2]
        · by_cases hclear : clearedFirst ops = true <;> simp [pending, clearedFirst, kept, hclear]
        · by_cases hclear : clearedFirst ops = true
          · simp [pending, hclear]
          · have hc : toChar c ≠ 0 := by simpa [hclear] using hheld.1
            simp only [pending, clearedFirst, hclear] at hnul ⊢
            simpa [hc.symm] using hnul
      | false =>
        obtain rfl := hmode rfl
        rw [handedOut, ih false [] (fun _ => rfl) (by simp [pending]) hheld.2]
        simp [pending, kept]
    | flush =>
      rw [handedOut, ih mode [] (fun _ => rfl) (by simp [pending]) hheld,
        cStrOf_eq_self (by simpa [pending, clearedFirst] using hnul)]
      simp [pending, clearedFirst, kept]
    | clear =>
      rw [handedOut, ih mode [] (fun _ => rfl) (by simp [pending]) hheld]
      simp [pending, clearedFirst, kept]
    | buffer val =>
      cases mode with
      | true =>
        cases val with
        | true =>
          rw [handedOut, ih true memory (by simp) hnul hheld]
          simp [pending, clearedFirst, kept]
        | false =>
          rw [handedOut, ih false [] (fun _ => rfl) (by simp [pending]) hheld,
            cStrOf_eq_self (by simpa [pending, clearedFirst] using hnul)]
          simp [pending, clearedFirst, kept]
      | false =>
        obtain rfl := hmode rfl
        rw [handedOut, ih val [] (fun _ => rfl) (by simp [pending]) hheld]
        simp [pending, kept]
    | setContentType type =>
      rw [handedOut, ih mode memory hmode hnul hheld]
      rfl

/-- The NUL bytes that are written in unbuffered mode. -/
def passedNuls : Bool → List Op → ℕ
  | _, [] => 0
  | mode, .overflow c :: ops =>
      (if mode = false ∧ toChar c = 0 then 1 else 0) + passedNuls mode ops
  | mode, .flush :: ops => passedNuls mode ops
  | mode, .clear :: ops => passedNuls mode ops
  | _, .buffer val :: ops => passedNuls val ops
  | mode, .setContentType _ :: ops => passedNuls mode ops

@[simp] theorem count_zero_cStrOf (s : Str) : (cStrOf s).count 0 = 0 :=
  List.count_eq_zero.mpr (not_mem_cStrOf s)

/-- **No flush hands out a NUL byte.** -/
theorem count_handedOut : ∀ (ops : List Op) (mode : Bool) (memory : Str),
    (mode = false → memory = []) → (handedOut mode memory ops).count 0 = passedNuls mode ops := by
  intro ops
  induction ops with
  | nil => intro mode memory _; exact count_zero_cStrOf memory
  | cons op ops ih =>
    intro mode memory hmode
    cases op with
    | overflow c =>
      cases mode with
      | true =>
        rw [handedOut, ih true _ (by simp), passedNuls]
        simp
      | false =>
        obtain rfl := hmode rfl
        rw [handedOut, List.count_cons, ih false [] (fun _ => rfl), passedNuls, Nat.add_comm]
        simp
    | flush =>
      rw [handedOut, List.count_append, ih mode [] (fun _ => rfl), count_zero_cStrOf, Nat.zero_add,
        passedNuls]
    | clear => rw [handedOut, ih mode [] (fun _ => rfl), passedNuls]
    | buffer val =>
      cases mode with
      | true =>
        cases val with
        | true => rw [handedOut, ih true memory (by simp), passedNuls]
        | false =>
          rw [handedOut, List.count_append, ih false [] (fun _ => rfl), count_zero_cStrOf,
            Nat.zero_add, passedNuls]
      | false =>
        obtain rfl := hmode rfl
        rw [handedOut, ih val [] (fun _ => rfl), passedNuls]
    | setContentType type => rw [handedOut, ih mode memory hmode, passedNuls]

/-- All NUL bytes but those cleared ought to reach the client. -/
theorem count_kept (ops : List Op) : ∀ mode : Bool,
    (kept mode ops).count 0 = passedNuls mode ops + heldNuls mode ops := by
  induction ops with
  | nil => intro mode; rfl
  | cons op ops ih =>
    intro mode
    cases op with
    | overflow c =>
      have hrest := ih mode
      cases mode <;> cases hclear : clearedFirst ops <;> by_cases hc : toChar c = 0 <;>
        simp [kept, passedNuls, heldNuls, hclear, hc] <;> omega
    | flush => exact ih mode
    | clear => exact ih mode
    | buffer val => exact ih val
    | setContentType type => exact ih mode

/-! ### Exact output -/

/-- The bytes a run writes. -/
def written (ops : List Op) : Str := ops.flatMap fun op =>
  match op with
  | .overflow c => [toChar c]
  | _ => []

/-- The writes of a run, and nothing else. -/
def writes (ops : List Op) : List Op := ops.filter fun op =>
  match op with
  | .overflow _ => true
  | _ => false

/-- **Output is exact**: the client gets the bytes written, in order, except those
written in buffered mode that a clear meets before any flush; and without a clear
it gets the same as from the same writes in unbuffered mode. -/
structure OutputExact (mode : Bool) (ops : List Op) : Prop where
  kept_eq : delivered (runOutput succeeding ops (Output.new mode)).calls = kept mode ops
  unbuffered_eq : Op.clear ∉ ops →
    delivered (runOutput succeeding ops (Output.new mode)).calls
      = delivered (runOutput succeeding (writes ops) (Output.new false)).calls

theorem delivered_new (mode : Bool) (ops : List Op) :
    delivered (runOutput succeeding ops (Output.new mode)).calls = handedOut mode [] ops :=
  delivered_runOutput ops (Output.new mode)

/-- Without a clear, everything written is kept. -/
theorem kept_of_clear_notMem : ∀ (ops : List Op) (mode : Bool), Op.clear ∉ ops →
    kept mode ops = written ops ∧ clearedFirst ops = false := by
  intro ops
  induction ops with
  | nil => intro mode _; exact ⟨rfl, rfl⟩
  | cons op ops ih =>
    intro mode hclear
    rw [List.mem_cons, not_or] at hclear
    cases op with
    | overflow c =>
      obtain ⟨hkept, hfirst⟩ := ih mode hclear.2
      exact ⟨by simp [kept, hfirst, hkept, written], hfirst⟩
    | flush => exact ⟨(ih mode hclear.2).1, rfl⟩
    | clear => exact absurd rfl hclear.1
    | buffer val =>
      obtain ⟨hkept, hfirst⟩ := ih val hclear.2
      exact ⟨hkept, by rw [clearedFirst, hfirst, Bool.and_false]⟩
    | setContentType type => exact ih mode hclear.2

/-- Unbuffered writes hand out what they write. -/
theorem handedOut_writes : ∀ ops : List Op, handedOut false [] (writes ops) = written ops := by
  intro ops
  induction ops with
  | nil => rfl
  | cons op ops ih =>
    cases op with
    | overflow c =>
      show toChar c :: handedOut false [] (writes ops) = _
      rw [ih]
      rfl
    | flush => exact ih
    | clear => exact ih
    | buffer val => exact ih
    | setContentType type => exact ih

/-- **Output is exact if and only if no NUL byte is written in buffered mode, unless
a clear meets it before any flush.** -/
theorem output_exact_iff (mode : Bool) (ops : List Op) :
    OutputExact mode ops ↔ heldNuls mode ops = 0 := by
  constructor
  · intro h
    have hcount := congrArg (List.count 0) h.kept_eq
    rw [delivered_new, count_handedOut _ _ _ (fun _ => rfl), count_kept] at hcount
    omega
  · intro h
    have hkept : handedOut mode [] ops = kept mode ops := by
      rw [handedOut_eq ops mode [] (fun _ => rfl) (by simp [pending]) h]
      simp [pending]
    refine ⟨by rw [delivered_new, hkept], fun hclear => ?_⟩
    rw [delivered_new, delivered_new, hkept, handedOut_writes,
      (kept_of_clear_notMem ops mode hclear).1]

/-- A NUL byte and a letter written to a buffered output: neither arrives. -/
theorem not_outputExact_nul :
    delivered (runOutput succeeding [.overflow 0, .overflow 97] (Output.new true)).calls = [] ∧
      kept true [.overflow 0, .overflow 97] = [0, 97] ∧
      ¬ OutputExact true [.overflow 0, .overflow 97] := by
  refine ⟨by decide, by decide, fun h => ?_⟩
  have := h.kept_eq
  exact absurd this (by decide)

end ModCplusplus
