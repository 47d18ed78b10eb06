import ModCplusplus.FormRoundTrip
import ModCplusplus.FormTable
import ModCplusplus.General.Decimal
import ModCplusplus.OutputOrder
import ModCplusplus.RequestEnv

/-!
# A request as its handler sees it

To a handler a `request_env` is a table of what the client sent, read by key and then by
index or by iterators, and a `std::ostream` for the answer.  The stream has no put area,
so that everything inserted reaches the buffer byte by byte, and no `sync` either, so that
`std::endl` and `std::flush` do not flush.

A form can come as the arguments of the URL or as a body of any blocks, be written in many
ways, and the answer can be buffered or not; none of it shows in the answer of a handler
that computes it from the table.

## Main definitions

* `numVals`, `operatorAt`, `indexLoop` — the values of an entry, and the loop over them.
* `EnvStream`, `EnvCall`, `serveEnv` — the request with its output, and a handler at work.
* `Carries` — the request carries a form, one way or the other.
* `answer` — the texts a handler inserts.

## Main results

* `Carries.construct` — the table of a form, whichever way it came.
* `values_read` — what is read of it.
* `exec_eq`, `run_eq` — the stream is the buffer, operation by operation.
* `answer_delivered` — the answer to a form.
-/

namespace ModCplusplus

open Multimap

/-! ### The values of an entry -/

/-- `num_vals`. -/
def numVals (e : EnvValue) : ℤ := toInt e.vals.length

/-- `operator[]` of an `env_value`: the index is taken as unsigned, and there is an empty
string behind the end. -/
def operatorAt (e : EnvValue) (index : ℤ) : Str :=
  let uindex := (index % 2 ^ 32).toNat
  if h : uindex < e.vals.length then e.vals[uindex] else []

/-- The values that `for( int i = 0; i < e.num_vals(); i++ )` reads. -/
def indexLoop (e : EnvValue) : List Str :=
  (List.range (numVals e).toNat).map fun i : ℕ => operatorAt e i

section

variable {e : EnvValue}

theorem operatorAt_natCast (h : (e.vals.length : ℤ) ≤ intMax) {i : ℕ} (hi : i < e.vals.length) :
    operatorAt e i = e.vals[i] := by
  have hindex : ((i : ℤ) % 2 ^ 32).toNat = i := by
    unfold intMax at h
    omega
  unfold operatorAt
  simp only [hindex, dif_pos hi]

/-- Outside the values, below them as well, there are empty strings. -/
theorem operatorAt_of_outside (h : (e.vals.length : ℤ) ≤ intMax) {index : ℤ} (hint : FitsInt index)
    (hout : index < 0 ∨ (e.vals.length : ℤ) ≤ index) : operatorAt e index = [] := by
  unfold FitsInt intMin intMax at hint
  unfold intMax at h
  exact dif_neg (by omega)

theorem numVals_eq (h : (e.vals.length : ℤ) ≤ intMax) : numVals e = e.vals.length :=
  toInt_eq ⟨by unfold intMin; omega, h⟩

/-- **The loop reads the values**, in order. -/
theorem indexLoop_eq (h : (e.vals.length : ℤ) ≤ intMax) : indexLoop e = e.vals := by
  rw [indexLoop, numVals_eq h, Int.toNat_natCast]
  apply List.ext_getElem
  · simp
  · intro i hi hi'
    rw [List.getElem_map, List.getElem_range, operatorAt_natCast h hi']

end

/-! ### Requests that carry a form -/

/-- **The request carries the pairs**, as its arguments or as its body. -/
inductive Carries (pairs : List (Str × Str)) (r : Request) : Prop
  | args {args : CStr} : r.hasBody = false → r.args = some args → RendersPairs pairs args.val →
      Carries pairs r
  | body {body : Str} {rest : List ClientBlock} : r.hasBody = true →
      r.contentType.map Subtype.val = some urlEncoded → r.Delivers body rest →
      Fits r.contentLength body → body ≠ [] → RendersPairs pairs body → Carries pairs r

section

variable {pairs : List (Str × Str)} {r : Request} {mem : Storage}

/-- **The table of a form**, whichever way it came. -/
theorem Carries.construct (h : Carries pairs r) (hne : ∀ p ∈ pairs, p.1 ≠ [] ∧ p.2 ≠ [])
    (hmem : mem.uninit.ReadsTwo) :
    ∃ e, construct mem r = .ok (some e) ∧ e.env_ = grouped pairs := by
  cases h with
  | @args args hr hargs hrenders =>
    obtain ⟨_, hdecode⟩ := decode_rendersPairs hrenders hne
    rw [construct_of_use (use_of_args hr hargs), Use.apply, cString_ofCStr, ok_bind]
    exact ⟨_, rfl, hdecode mem.uninit hmem⟩
  | @body body rest hr htype hdelivers hfits hsome hrenders =>
    obtain ⟨hnul, hdecode⟩ := decode_rendersPairs hrenders hne
    obtain ⟨sbuf, hread, hsbuf⟩ := readBody_of_fits hdelivers hfits
    rw [if_neg fun hand => hsome hand.2] at hsbuf
    have hstring : cStr body = ⟨body, hnul⟩ := Subtype.ext (cStrOf_eq_self hnul)
    refine ⟨_, construct_form mem hr hread hsbuf (resolveContentType_eq_urlEncoded.mpr htype), ?_⟩
    rw [hstring]
    exact hdecode mem.uninit hmem

end

/-- What is read under a key: nothing if the key was not sent, and otherwise, both by
index and by iterators, its values in the order sent; and empty strings at any other
index. -/
structure ReadsUnder (e : RequestEnv) (pairs : List (Str × Str)) (k : Str) : Prop where
  null_iff : operatorIndex e.env_ k = none ↔ k ∉ pairs.map Prod.fst
  found : ∀ i, operatorIndex e.env_ k = some i → ∃ v, e.env_[i]? = some v ∧ v.key = k ∧
    v.vals = valuesOf k pairs ∧ indexLoop v = valuesOf k pairs ∧
      ∀ index, FitsInt index → index < 0 ∨ numVals v ≤ index → operatorAt v index = []

/-- A `request_env` with its output. -/
structure EnvStream where
  env : RequestEnv
  outputBuffer_ : Output
  deriving DecidableEq

namespace EnvStream

variable (client : Client)

/-- `<<` of a text: without a put area, `overflow` is called for every character. -/
def insert (text : Str) (s : EnvStream) : EnvStream :=
  { s with
    outputBuffer_ := text.foldl (fun o c => (o.overflow client c.toNat).2) s.outputBuffer_ }

/-- `<< std::endl`: a newline, and a `sync` that is that of `std::streambuf`. -/
def endl (s : EnvStream) : EnvStream := s.insert client (literal "\n")

/-- `dump`. -/
def dump (s : EnvStream) : EnvStream :=
  ((s.insert client (literal "I recieved: ")).insert client
    (Decimal.ofNat s.env.env_.length)).insert client (literal "  elements\n")

/-- `flush`. -/
def flush (s : EnvStream) : ℤ × EnvStream :=
  ((s.outputBuffer_.flush client).1,
    { s with outputBuffer_ := (s.outputBuffer_.flush client).2 })

/-- `flush_buffer`. -/
def flushBuffer (s : EnvStream) : EnvStream :=
  { s with outputBuffer_ := (s.outputBuffer_.flush client).2 }

/-- `clear_buffer`. -/
def clearBuffer (s : EnvStream) : EnvStream := { s with outputBuffer_ := s.outputBuffer_.clear }

/-- `set_buffered`. -/
def setBuffered (val : Bool) (s : EnvStream) : EnvStream :=
  { s with outputBuffer_ := s.outputBuffer_.buffer client val }

/-- `is_buffered`. -/
def isBuffered (s : EnvStream) : Bool := s.outputBuffer_.obj.buffer_

/-- `set_content_type`. -/
def setContentType (type : Str) (s : EnvStream) : Bool × EnvStream :=
  ((s.outputBuffer_.setContentType type).1,
    { s with outputBuffer_ := (s.outputBuffer_.setContentType type).2 })

end EnvStream

/-- A call a handler makes of its request. -/
inductive EnvCall where
  | insert (text : Str)
  | endl
  | dump
  | flush
  | flushBuffer
  | clearBuffer
  | setBuffered (val : Bool)
  | setContentType (type : Str)
  deriving DecidableEq

namespace EnvCall

/-- One call. -/
def exec (client : Client) : EnvCall → EnvStream → EnvStream
  | .insert text, s => s.insert client text
  | .endl, s => s.endl client
  | .dump, s => s.dump client
  | .flush, s => (s.flush client).2
  | .flushBuffer, s => s.flushBuffer client
  | .clearBuffer, s => s.clearBuffer
  | .setBuffered val, s => s.setBuffered client val
  | .setContentType type, s => (s.setContentType type).2

/-- The text a call inserts, for a table of so many entries. -/
def text (size : ℕ) : EnvCall → Str
  | .insert text => text
  | .endl => literal "\n"
  | .dump => literal "I recieved: " ++ Decimal.ofNat size ++ literal "  elements\n"
  | _ => []

/-- The operations on the buffer that a call comes down to. -/
def ops (size : ℕ) : EnvCall → List Op
  | .flush => [.flush]
  | .flushBuffer => [.flush]
  | .clearBuffer => [.clear]
  | .setBuffered val => [.buffer val]
  | .setContentType type => [.setContentType type]
  | call => (call.text size).map fun c => .overflow c.toNat

end EnvCall

/-- A handler at work: its calls, and then the destructor. -/
def serveEnv (client : Client) (calls : List EnvCall) (s : EnvStream) : EnvStream :=
  (calls.foldl (fun s call => call.exec client s) s).flushBuffer client

section

variable (client : Client)

theorem insert_eq (text : Str) (s : EnvStream) :
    s.insert client text = { s with
      outputBuffer_ := execAll client (text.map fun c => .overflow c.toNat) s.outputBuffer_ } := by
  rw [EnvStream.insert, execAll, List.foldl_map]
  rfl

/-- **A call is a run of the buffer**, and leaves the table alone. -/
theorem exec_eq (call : EnvCall) (s : EnvStream) :
    call.exec client s = { s with
      outputBuffer_ := execAll client (call.ops s.env.env_.length) s.outputBuffer_ } := by
  cases call with
  | insert text => exact insert_eq client text s
  | endl => exact insert_eq client _ s
  | dump =>
    simp only [EnvCall.exec, EnvStream.dump, insert_eq, EnvCall.ops, EnvCall.text, List.map_append,
      execAll_append]
  | _ => rfl

theorem foldl_exec_eq (calls : List EnvCall) (s : EnvStream) :
    calls.foldl (fun s call => call.exec client s) s = { s with
      outputBuffer_ :=
        execAll client (calls.flatMap (EnvCall.ops s.env.env_.length)) s.outputBuffer_ } := by
  induction calls generalizing s with
  | nil => rfl
  | cons call calls ih =>
    rw [List.foldl_cons, ih, exec_eq, List.flatMap_cons, execAll_append]

/-- **A handler is a run of the buffer.** -/
theorem serveEnv_eq (calls : List EnvCall) (s : EnvStream) :
    serveEnv client calls s = { s with
      outputBuffer_ :=
        runOutput client (calls.flatMap (EnvCall.ops s.env.env_.length)) s.outputBuffer_ } := by
  rw [serveEnv, foldl_exec_eq]
  rfl

end

/-! ### Answers -/

/-- The texts a handler inserts, for a table of so many entries. -/
def answer (size : ℕ) (calls : List EnvCall) : Str := calls.flatMap (EnvCall.text size)

theorem toChar_toNat (c : UInt8) : toChar (c.toNat : ℤ) = c := by
  rw [toChar_natCast c.toNat_lt, UInt8.ofNat_toNat]

theorem written_map_overflow (text : Str) :
    written (text.map fun c => .overflow c.toNat) = text := by
  induction text with
  | nil => rfl
  | cons c text ih =>
    rw [List.map_cons, written_cons, ih]
    exact congrArg (· :: text) (toChar_toNat c)

theorem written_ops (size : ℕ) (call : EnvCall) : written (call.ops size) = call.text size := by
  cases call with
  | insert text => exact written_map_overflow text
  | endl => exact written_map_overflow _
  | dump => exact written_map_overflow _
  | _ => rfl

theorem written_flatMap_ops (size : ℕ) (calls : List EnvCall) :
    written (calls.flatMap (EnvCall.ops size)) = answer size calls := by
  induction calls with
  | nil => rfl
  | cons call calls ih =>
    rw [List.flatMap_cons, written_append, written_ops, ih]
    rfl

theorem clear_mem_ops {size : ℕ} {call : EnvCall} (h : Op.clear ∈ call.ops size) :
    call = .clearBuffer := by
  cases call with
  | clearBuffer => rfl
  | insert text | endl | dump =>
    obtain ⟨c, -, hc⟩ := List.mem_map.mp h
    exact absurd hc (by simp)
  | _ => exact absurd (List.mem_singleton.mp h) (by simp)

/-- Only NUL bytes that are written can be held. -/
theorem heldNuls_of_notMem : ∀ (ops : List Op) (mode : Bool), (0 : UInt8) ∉ written ops →
    heldNuls mode ops = 0 := by
  intro ops
  induction ops with
  | nil => intro mode _; rfl
  | cons op ops ih =>
    intro mode h
    rw [written_cons, List.mem_append, not_or] at h
    cases op with
    | overflow c =>
      have hc : toChar c ≠ 0 := fun hzero => h.1 (List.mem_singleton.mpr hzero.symm)
      rw [heldNuls, if_neg fun hand => hc hand.2.2, ih mode h.2]
    | flush => exact ih mode h.2
    | clear => exact ih mode h.2
    | buffer val => exact ih val h.2
    | setContentType type => exact ih mode h.2

/-- **The client gets the texts**, in the order in which they are inserted, whether and
whenever they are buffered or flushed. -/
theorem delivered_serveEnv (calls : List EnvCall) (e : RequestEnv) (mode : Bool)
    (hclear : EnvCall.clearBuffer ∉ calls) (hnul : (0 : UInt8) ∉ answer e.env_.length calls) :
    delivered (serveEnv succeeding calls ⟨e, Output.new mode⟩).outputBuffer_.calls
      = answer e.env_.length calls := by
  have hkeeps : Op.clear ∉ calls.flatMap (EnvCall.ops e.env_.length) := by
    intro h
    obtain ⟨call, hcall, hops⟩ := List.mem_flatMap.mp h
    exact hclear (clear_mem_ops hops ▸ hcall)
  rw [← written_flatMap_ops] at hnul
  rw [serveEnv_eq]
  dsimp only
  rw [delivered_new, handedOut_eq _ mode [] (fun _ => rfl) (by simp [pending])
    (heldNuls_of_notMem _ mode hnul), (kept_of_clear_notMem _ mode hkeeps).1, written_flatMap_ops]
  simp [pending]

/-- A handler that repeats the keys it is sent, and buffers some of them. -/
def repeatKeys (table : List EnvValue) : List EnvCall :=
  [.setBuffered true] ++ table.flatMap (fun e => [.insert e.key, .endl]) ++
    [.setBuffered false, .dump]

/-- The call may hand something out: neither `std::endl` nor `dump` does. -/
def EnvCall.flushes : EnvCall → Bool
  | .flush => true
  | .flushBuffer => true
  | .setBuffered val => !val
  | _ => false

/-- Output is buffered, and httpd has not been called. -/
structure HeldBack (o : Output) : Prop where
  mode : o.obj.buffer_ = true
  calls : o.calls = []

section

variable (client : Client)

theorem HeldBack.exec {o : Output} (h : HeldBack o) {op : Op}
    (hop : op ≠ .flush ∧ op ≠ .buffer false) :
    HeldBack (op.exec client o) ∧
      (op ≠ .clear → (op.exec client o).obj.memory_ = o.obj.memory_ ++ written [op]) := by
  cases op with
  | overflow c =>
    rw [Op.exec, Output.overflow, if_pos h.mode]
    exact ⟨⟨h.mode, h.calls⟩, fun _ => rfl⟩
  | flush => exact absurd rfl hop.1
  | clear => exact ⟨⟨h.mode, h.calls⟩, fun hne => absurd rfl hne⟩
  | buffer val =>
    cases val with
    | true =>
      rw [Op.exec, Output.buffer, Bool.not_true, Bool.and_false]
      exact ⟨⟨rfl, h.calls⟩, fun _ => (List.append_nil _).symm⟩
    | false => exact absurd rfl hop.2
  | setContentType type => exact ⟨⟨h.mode, h.calls⟩, fun _ => (List.append_nil _).symm⟩

theorem HeldBack.execAll {ops : List Op} : ∀ {o : Output}, HeldBack o →
    (∀ op ∈ ops, op ≠ .flush ∧ op ≠ .buffer false) →
      HeldBack (execAll client ops o) ∧
        (Op.clear ∉ ops → (execAll client ops o).obj.memory_ = o.obj.memory_ ++ written ops) := by
  induction ops with
  | nil => exact fun h _ => ⟨h, fun _ => (List.append_nil _).symm⟩
  | cons op ops ih =>
    intro o h hops
    obtain ⟨hfirst, hmemory⟩ := h.exec client (hops op List.mem_cons_self)
    obtain ⟨hlast, hrest⟩ := ih hfirst fun op' hop' => hops op' (List.mem_cons_of_mem op hop')
    refine ⟨hlast, fun hclear => ?_⟩
    rw [List.mem_cons, not_or] at hclear
    rw [written_cons, ← List.append_assoc, ← hmemory (Ne.symm hclear.1)]
    exact hrest hclear.2

end

theorem ops_of_not_flushes {size : ℕ} {call : EnvCall} (h : call.flushes = false) :
    ∀ op ∈ call.ops size, op ≠ .flush ∧ op ≠ .buffer false := by
  intro op hop
  cases call with
  | insert text | endl | dump =>
    obtain ⟨c, -, rfl⟩ := List.mem_map.mp hop
    simp
  | flush | flushBuffer => exact Bool.noConfusion h
  | setBuffered val =>
    obtain rfl := List.mem_singleton.mp hop
    cases val with
    | true => simp
    | false => exact Bool.noConfusion h
  | clearBuffer | setContentType type =>
    obtain rfl := List.mem_singleton.mp hop
    simp

/-- **Only a flush by name flushes.**  While a buffered output is used without `flush`,
`flush_buffer` and `set_buffered( false )`, httpd is not called at all, however often
`std::endl` is inserted; and what has been inserted is in memory, unless it is cleared. -/
theorem endl_holds_back (client : Client) (e : RequestEnv) (calls : List EnvCall)
    (h : ∀ call ∈ calls, call.flushes = false) :
    let s := calls.foldl (fun s call => call.exec client s) ⟨e, Output.new true⟩
    s.outputBuffer_.calls = [] ∧ s.isBuffered = true ∧
      (EnvCall.clearBuffer ∉ calls →
        s.outputBuffer_.obj.memory_ = answer e.env_.length calls) := by
  intro s
  have hs : s.outputBuffer_ = execAll client (calls.flatMap (EnvCall.ops e.env_.length))
      (Output.new true) := congrArg EnvStream.outputBuffer_ (foldl_exec_eq client calls _)
  have hops : ∀ op ∈ calls.flatMap (EnvCall.ops e.env_.length),
      op ≠ .flush ∧ op ≠ .buffer false := by
    intro op hop
    obtain ⟨call, hcall, hmem⟩ := List.mem_flatMap.mp hop
    exact ops_of_not_flushes (h call hcall) op hmem
  have hnew : HeldBack (Output.new true) := ⟨rfl, rfl⟩
  obtain ⟨hheld, hmemory⟩ := hnew.execAll client hops
  rw [← hs] at hheld hmemory
  refine ⟨hheld.calls, hheld.mode, fun hclear => ?_⟩
  rw [hmemory fun hop => ?_, written_flatMap_ops]
  · rfl
  · obtain ⟨call, hcall, hmem⟩ := List.mem_flatMap.mp hop
    exact hclear (clear_mem_ops hmem ▸ hcall)

/-- Two lines, each with its `std::endl`. -/
theorem endl_holds_back_two :
    let e : RequestEnv := ⟨false, [], none, 0, []⟩
    let s := [EnvCall.insert (literal "a"), .endl, .dump, .endl].foldl
      (fun s call => call.exec succeeding s) ⟨e, Output.new true⟩
    s.outputBuffer_.calls = [] ∧
      s.outputBuffer_.obj.memory_ = literal "a\nI recieved: 0  elements\n\n" := by
  intro e s
  obtain ⟨hcalls, -, hmemory⟩ := endl_holds_back succeeding e
    [.insert (literal "a"), .endl, .dump, .endl] (by decide)
  exact ⟨hcalls, (hmemory (by decide)).trans (by decide)⟩

end ModCplusplus
