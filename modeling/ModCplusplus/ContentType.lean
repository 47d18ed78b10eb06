import ModCplusplus.OutputBuffer

/-!
# The content type of a response

`set_content_type` only records a type and answers whether it is in time.  The type
is committed lazily, by the first operation that sends anything, be it the flush of
the destructor; `output_anything_` is set then, and both keeps the type from being
committed again and makes the answers to come negative.

## Main definitions

* `pendingType` — the type recorded.
* `acceptedTypes` — the types of the calls answered `true`, along a run.
* `CommitsOnce` — the content type is committed once and before any content.

## Main results

* `exec_cases` — what an operation does: it sends something, or it keeps what has been
  sent.
* `calls_runOutput` — the calls of a run: the commitment, and then content.
* `content_type_committed_once` — the law.
-/

namespace ModCplusplus

/-! ### What is sent -/

/-- A call that hands content to httpd, some bytes or none. -/
def Call.isContent : Call → Bool
  | .apSetContentType _ => false
  | .apRputs _ _ => true
  | .apRputc _ _ => true

/-- The type recorded. -/
def pendingType (o : Output) : Option Str :=
  if o.obj.updateContentType_ then some o.obj.contentType_ else none

/-- The call that commits a type, if there is one. -/
def commitCalls (type : Option Str) : List Call :=
  (type.map fun type => .apSetContentType (cStrOf type)).toList

/-- The type of a `set_content_type` that is answered `true`. -/
def Op.accepted (o : Output) : Op → Option Str
  | .setContentType type => if (o.setContentType type).1 then some type else none
  | _ => none

/-- The types of the `set_content_type` calls of a run that are answered `true`. -/
def acceptedTypes (client : Client) : List Op → Output → List Str
  | [], _ => []
  | op :: ops, o => (op.accepted o).toList ++ acceptedTypes client ops (op.exec client o)

theorem calls_signalSending (o : Output) :
    o.signalSending.calls
      = o.calls ++ if o.obj.outputAnything_ then [] else commitCalls (pendingType o) := by
  unfold Output.signalSending Output.sendHttpHeader commitCalls pendingType
  cases o.obj.outputAnything_ with
  | true => simp
  | false => cases o.obj.updateContentType_ <;> simp

theorem outputAnything_signalSending (o : Output) : o.signalSending.obj.outputAnything_ = true := by
  unfold Output.signalSending
  split
  · next h => exact h
  · rfl

/-- A flush hands memory out, behind the header. -/
theorem calls_flush (client : Client) (o : Output) :
    ∃ w : Call, w.isContent = true ∧ (o.flush client).2.calls = o.signalSending.calls ++ [w] := by
  refine ⟨.apRputs (cStrOf o.signalSending.obj.memory_) (client o.signalSending.calls), rfl, ?_⟩
  unfold Output.flush
  dsimp only
  split <;> rfl

theorem outputAnything_flush (client : Client) (o : Output) :
    (o.flush client).2.obj.outputAnything_ = true := by
  have hsent := outputAnything_signalSending o
  unfold Output.flush
  dsimp only
  split
  · exact hsent
  · exact hsent

/-! ### One operation -/

/-- An operation that sends something: the header, unless it has been sent, and then
content. -/
structure Sends (o o' : Output) : Prop where
  sent : o'.obj.outputAnything_ = true
  calls : ∃ ws, o'.calls = o.signalSending.calls ++ ws ∧ ∀ w ∈ ws, Call.isContent w = true

theorem sends_flush (client : Client) (o : Output) : Sends o (o.flush client).2 := by
  obtain ⟨w, hw, hcalls⟩ := calls_flush client o
  refine ⟨outputAnything_flush client o, [w], hcalls, ?_⟩
  intro w' hw'
  rw [List.mem_singleton] at hw'
  rw [hw']
  exact hw

/-- **What an operation does**: it sends something, or it leaves the calls and whether
anything has been sent as they are, and records the type it accepts. -/
theorem exec_cases (client : Client) (op : Op) (o : Output) :
    (op.accepted o = none ∧ Sends o (op.exec client o)) ∨
    ((op.exec client o).calls = o.calls ∧
      (op.exec client o).obj.outputAnything_ = o.obj.outputAnything_ ∧
      (o.obj.outputAnything_ = false →
        pendingType (op.exec client o) = (op.accepted o).or (pendingType o)) ∧
      (o.obj.outputAnything_ = true → op.accepted o = none)) := by
  cases op with
  | overflow c =>
    cases hmode : o.obj.buffer_ with
    | true =>
      right
      simp [Op.exec, Output.overflow, hmode, pendingType, Op.accepted]
    | false =>
      left
      refine ⟨rfl, ?_, [.apRputc (toChar c) (client o.signalSending.calls)], ?_, ?_⟩
      · simp [Op.exec, Output.overflow, hmode, outputAnything_signalSending]
      · simp [Op.exec, Output.overflow, hmode]
      · simp [Call.isContent]
  | flush => exact Or.inl ⟨rfl, sends_flush client o⟩
  | clear => exact Or.inr ⟨rfl, rfl, fun _ => rfl, fun _ => rfl⟩
  | buffer val =>
    cases hflush : o.obj.buffer_ && !val with
    | true =>
      left
      obtain ⟨hsent, ws, hcalls, hws⟩ := sends_flush client o
      refine ⟨rfl, ?_, ws, ?_, hws⟩
      · simpa [Op.exec, Output.buffer, hflush] using hsent
      · simpa [Op.exec, Output.buffer, hflush] using hcalls
    | false =>
      right
      simp [Op.exec, Output.buffer, hflush, pendingType, Op.accepted]
  | setContentType type =>
    right
    cases hsent : o.obj.outputAnything_ with
    | true => simp [Op.exec, Output.setContentType, Op.accepted, hsent]
    | false => simp [Op.exec, Output.setContentType, Op.accepted, hsent, pendingType]

/-! ### Runs -/

/-- Once something has been sent, only content is. -/
theorem calls_runOutput_of_sent (client : Client) (ops : List Op) (o : Output)
    (h : o.obj.outputAnything_ = true) :
    acceptedTypes client ops o = [] ∧ ∃ ws, (runOutput client ops o).calls = o.calls ++ ws ∧
      ∀ w ∈ ws, Call.isContent w = true := by
  induction ops generalizing o with
  | nil =>
    obtain ⟨-, ws, hcalls, hws⟩ := sends_flush client o
    rw [calls_signalSending, if_pos h, List.append_nil] at hcalls
    exact ⟨rfl, ws, hcalls, hws⟩
  | cons op ops ih =>
    rcases exec_cases client op o with ⟨hnone, hsent, ws, hcalls, hws⟩ | ⟨hcalls, hkeep, -, hnone⟩
    · obtain ⟨hacc, ws', hcalls', hws'⟩ := ih _ hsent
      rw [calls_signalSending, if_pos h, List.append_nil] at hcalls
      refine ⟨by rw [acceptedTypes, hnone, hacc]; rfl, ws ++ ws', ?_, ?_⟩
      · rw [runOutput_cons, hcalls', hcalls, List.append_assoc]
      · intro w hw
        rw [List.mem_append] at hw
        exact hw.elim (hws w) (hws' w)
    · obtain ⟨hacc, ws', hcalls', hws'⟩ := ih _ (hkeep.trans h)
      refine ⟨by rw [acceptedTypes, hnone h, hacc]; rfl, ws', ?_, hws'⟩
      rw [runOutput_cons, hcalls', hcalls]

theorem calls_signalSending_of_unsent {o : Output} (h : o.obj.outputAnything_ = false) :
    o.signalSending.calls = o.calls ++ commitCalls (pendingType o) := by
  rw [calls_signalSending, h]
  rfl

/-- **The calls of a run** before which nothing has been sent: the last type accepted
is committed, or else the type recorded before, and then there is only content. -/
theorem calls_runOutput (client : Client) (ops : List Op) (o : Output)
    (h : o.obj.outputAnything_ = false) :
    ∃ ws, (runOutput client ops o).calls
        = o.calls ++ commitCalls ((acceptedTypes client ops o).getLast?.or (pendingType o)) ++ ws ∧
      ∀ w ∈ ws, Call.isContent w = true := by
  induction ops generalizing o with
  | nil =>
    obtain ⟨-, ws, hcalls, hws⟩ := sends_flush client o
    rw [calls_signalSending_of_unsent h] at hcalls
    exact ⟨ws, hcalls, hws⟩
  | cons op ops ih =>
    rw [runOutput_cons, acceptedTypes]
    rcases exec_cases client op o with ⟨hnone, hsent, ws, hcalls, hws⟩ | ⟨hcalls, hkeep, hrec, -⟩
    · obtain ⟨hacc, ws', hcalls', hws'⟩ := calls_runOutput_of_sent client ops _ hsent
      rw [calls_signalSending_of_unsent h] at hcalls
      refine ⟨ws ++ ws', ?_, ?_⟩
      · rw [hnone, hacc, hcalls', hcalls, ← List.append_assoc]
        rfl
      · intro w hw
        rw [List.mem_append] at hw
        exact hw.elim (hws w) (hws' w)
    · obtain ⟨ws, hcalls', hws⟩ := ih _ (hkeep.trans h)
      refine ⟨ws, ?_, hws⟩
      -- a type accepted by the operation counts if no later one is
      have hlast : (op.accepted o).toList.getLast? = op.accepted o := by
        cases op.accepted o <;> rfl
      rw [hcalls', hcalls, hrec h, List.getLast?_append, hlast, Option.or_assoc]

/-! ### The law -/

/-- **The content type is committed once and before any content**: at most once,
before every call that hands content to httpd, and if and only if some type has been
accepted, with the last one accepted. -/
structure CommitsOnce (client : Client) (mode : Bool) (ops : List Op) : Prop where
  once : ((runOutput client ops (Output.new mode)).calls.countP fun c => !c.isContent) ≤ 1
  before : ∀ pre type post,
    (runOutput client ops (Output.new mode)).calls = pre ++ .apSetContentType type :: post →
      ∀ c ∈ pre, Call.isContent c = false
  called_iff : (∃ type, .apSetContentType type ∈ (runOutput client ops (Output.new mode)).calls) ↔
    acceptedTypes client ops (Output.new mode) ≠ []
  type_eq : ∀ type, .apSetContentType type ∈ (runOutput client ops (Output.new mode)).calls →
    (acceptedTypes client ops (Output.new mode)).getLast? = some type

/-- A run accepts only types it was given. -/
theorem mem_of_mem_acceptedTypes {client : Client} {type : Str} {ops : List Op} {o : Output}
    (h : type ∈ acceptedTypes client ops o) : .setContentType type ∈ ops := by
  induction ops generalizing o with
  | nil => exact absurd h List.not_mem_nil
  | cons op ops ih =>
    rw [acceptedTypes, List.mem_append, Option.mem_toList] at h
    rcases h with h | h
    · cases op with
      | setContentType type' =>
        rw [Op.accepted] at h
        split at h
        · rw [Option.some.inj h]
          exact List.mem_cons_self
        · exact absurd h (by simp)
      | overflow c => exact absurd h (by simp [Op.accepted])
      | flush => exact absurd h (by simp [Op.accepted])
      | clear => exact absurd h (by simp [Op.accepted])
      | buffer val => exact absurd h (by simp [Op.accepted])
    · exact List.mem_cons_of_mem _ (ih h)

section

variable {last : Option Str} {ws : List Call}

/-- Content does not commit a type. -/
theorem notMem_of_isContent (hws : ∀ w ∈ ws, Call.isContent w = true) (type : Str) :
    .apSetContentType type ∉ ws := by
  intro hmem
  have hcontent := hws _ hmem
  rw [Call.isContent] at hcontent
  exact Bool.noConfusion hcontent

/-- Behind the commitment, if there is one, only content comes: types are committed at
most once, -/
theorem countP_commitCalls_append (hws : ∀ w ∈ ws, Call.isContent w = true) :
    ((commitCalls last ++ ws).countP fun c => !c.isContent) ≤ 1 := by
  have hcount : (ws.countP fun c => !c.isContent) = 0 :=
    List.countP_eq_zero.mpr fun w hw => by simp [hws w hw]
  rw [List.countP_append, hcount, Nat.add_zero]
  refine List.countP_le_length.trans ?_
  cases last with
  | none => exact Nat.zero_le 1
  | some type => exact Nat.le_refl 1

/-- and the one committed is known, -/
theorem mem_commitCalls_append (hws : ∀ w ∈ ws, Call.isContent w = true) (type : Str) :
    .apSetContentType type ∈ commitCalls last ++ ws ↔ last.map cStrOf = some type := by
  rw [List.mem_append, or_iff_left (notMem_of_isContent hws type), commitCalls, Option.mem_toList]
  cases last with
  | none => exact iff_of_false nofun nofun
  | some t => simp [Option.some.injEq]

/-- and stands in front. -/
theorem eq_nil_of_commitCalls_append (hws : ∀ w ∈ ws, Call.isContent w = true)
    {pre post : List Call} {type : Str}
    (h : commitCalls last ++ ws = pre ++ .apSetContentType type :: post) : pre = [] := by
  cases last with
  | none =>
    have h : ws = pre ++ .apSetContentType type :: post := h
    exact absurd (h ▸ List.mem_append_right pre List.mem_cons_self) (notMem_of_isContent hws type)
  | some t =>
    cases pre with
    | nil => rfl
    | cons c pre =>
      obtain ⟨-, htail⟩ := List.cons.inj h
      have htail : ws = pre ++ .apSetContentType type :: post := htail
      exact absurd (htail ▸ List.mem_append_right pre List.mem_cons_self)
        (notMem_of_isContent hws type)

end

/-- **The content type is committed once and before any content**, in every run whose
types have no NUL byte, whatever writes fail. -/
theorem content_type_committed_once (client : Client) (mode : Bool) (ops : List Op)
    (hnul : ∀ type, .setContentType type ∈ ops → (0 : UInt8) ∉ type) :
    CommitsOnce client mode ops := by
  obtain ⟨ws, hcalls, hws⟩ := calls_runOutput client ops (Output.new mode) rfl
  have hpending : pendingType (Output.new mode) = none := rfl
  have hstart : (Output.new mode).calls = [] := rfl
  rw [hpending, Option.or_none, hstart, List.nil_append] at hcalls
  -- `c_str()` shows the whole of the type
  have hwhole : (acceptedTypes client ops (Output.new mode)).getLast?.map cStrOf
      = (acceptedTypes client ops (Output.new mode)).getLast? := by
    cases hlast : (acceptedTypes client ops (Output.new mode)).getLast? with
    | none => rfl
    | some type =>
      have hmem := mem_of_mem_acceptedTypes (List.mem_of_getLast? hlast)
      rw [Option.map_some, cStrOf_eq_self (hnul type hmem)]
  have hmem (type : Str) :
      .apSetContentType type ∈ (runOutput client ops (Output.new mode)).calls ↔
        (acceptedTypes client ops (Output.new mode)).getLast? = some type := by
    rw [hcalls, mem_commitCalls_append hws, hwhole]
  refine ⟨?_, ?_, ?_, ?_⟩
  · rw [hcalls]
    exact countP_commitCalls_append hws
  · intro pre type post heq
    rw [hcalls] at heq
    rw [eq_nil_of_commitCalls_append hws heq]
    exact fun c hc => absurd hc List.not_mem_nil
  · rw [exists_congr hmem, ← Option.isSome_iff_exists, List.getLast?_isSome]
  · exact fun type => (hmem type).mp

/-- Two types, a byte and a third type: the second is committed. -/
theorem content_type_committed_once_late :
    CommitsOnce (fun _ => false) false [.setContentType (literal "text/plain"),
      .setContentType (literal "image/png"), .overflow 97, .setContentType (literal "text/xml")] :=
  content_type_committed_once (fun _ => false) false [.setContentType (literal "text/plain"),
    .setContentType (literal "image/png"), .overflow 97, .setContentType (literal "text/xml")] (by
      intro type hmem
      simp only [List.mem_cons, Op.setContentType.injEq, reduceCtorEq, List.not_mem_nil, or_false,
        false_or] at hmem
      rcases hmem with rfl | rfl | rfl <;> decide)

end ModCplusplus
