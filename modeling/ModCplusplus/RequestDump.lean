import ModCplusplus.CTypes
import ModCplusplus.General.Decimal
import ModCplusplus.General.Lines

/-!
# The dump of a request

`dump_string` shows fifteen members of a `request_rec` and five of its tables as lines of
text, and `dump` writes the text as a C string.  Numbers are printed through a buffer of
fifty characters, which is always enough, and as `int`s, which is not what all of them
are; NULL is shown as an empty string.  Up to that, and as long as no string brings a line
break of its own and no name in a table a quote, the text can be read back.

## Main definitions

* `DumpedRequest`, `DumpedRequest.shown` — what is dumped, and what can be seen of it.
* `istring`, `mstring`, `tableString`, `dumpString` — the functions of the dump.
* `Plain` — no line breaks in strings and no quotes in names.

## Main results

* `istring_eq`, `istring_injective` — numbers are never cut.
* `lines_inj`, `tableLines_inj`, `tables_inj` — lines and tables can be read back.
* `dump_reads_back` — and so can a dump.
-/

namespace ModCplusplus

/-! ### The functions -/

/-- The members of a `request_rec` that are dumped. -/
structure DumpedRequest where
  theRequest : Option CStr
  contentType : Option CStr
  assbackwards : ℤ
  proxyreq : ℤ
  headerOnly : ℤ
  protocol : Option CStr
  protoNum : ℤ
  hostname : Option CStr
  statusLine : Option CStr
  status : ℤ
  method : Option CStr
  methodNumber : ℤ
  -- these two have 64 bits
  allowed : ℤ
  bytesSent : ℤ
  args : Option CStr
  headersIn : List (CStr × CStr)
  headersOut : List (CStr × CStr)
  errHeadersOut : List (CStr × CStr)
  subprocessEnv : List (CStr × CStr)
  notes : List (CStr × CStr)
  deriving DecidableEq, Inhabited

/-- `TEMP_STORE`. -/
def tempStore : ℕ := 50

/-- `istring`, with its default format: the value is passed as an `int`, and what
`apr_snprintf` writes ends before the last character of the buffer. -/
def istring (value : ℤ) : Str := (Decimal.ofInt (toInt value)).take (tempStore - 1)

/-- `mstring`. -/
def mstring (cp : Option CStr) : Str :=
  match cp with
  | none => []
  | some s => s.val

/-- The lines of the entries of a table, from the entry `i` on. -/
def tableLines (i : ℕ) : List (CStr × CStr) → Str
  | [] => []
  | (key, val) :: rest =>
      literal "    [" ++ istring i ++ literal "] '" ++ key.val ++ literal "'='" ++ val.val
        ++ literal "'\n" ++ tableLines (i + 1) rest

/-- `table_string`. -/
def tableString (pTable : List (CStr × CStr)) : Str := tableLines 0 pTable

/-- The lines of the members, each with its label. -/
def DumpedRequest.members (r : DumpedRequest) : List (Str × Str) :=
  [(literal "the_request: ", mstring r.theRequest),
    (literal "content_type: ", mstring r.contentType),
    (literal "assbackwards: ", istring r.assbackwards),
    (literal "proxyreq: ", istring r.proxyreq),
    (literal "header_only: ", istring r.headerOnly),
    (literal "protocol: ", mstring r.protocol),
    (literal "pro  inum: ", istring r.protoNum),
    (literal "hostname: ", mstring r.hostname),
    (literal "status_line: ", mstring r.statusLine),
    (literal "status: ", istring r.status),
    (literal "method: ", mstring r.method),
    (literal "method_number: ", istring r.methodNumber),
    (literal "allowed: ", istring r.allowed),
    (literal "bytes_sent: ", istring r.bytesSent),
    (literal "args: ", mstring r.args)]

/-- The tables, each with the line above it. -/
def DumpedRequest.tables (r : DumpedRequest) : List (Str × List (CStr × CStr)) :=
  [(literal "headers_in: \n", r.headersIn),
    (literal "headers_out: \n", r.headersOut),
    (literal "err_headers_out: \n", r.errHeadersOut),
    (literal "subprocess_env: \n", r.subprocessEnv),
    (literal "notes: \n", r.notes)]

/-- `dump_string`. -/
def dumpString (r : DumpedRequest) : Str :=
  literal "============ ApacheRequestRec ==============\n"
    ++ labelledLines (byteOf '\n') r.members
    ++ labelledBlocks tableString r.tables
    ++ literal "============ /ApacheRequestRec ==============\n"

/-! ### Numbers -/

theorem FitsInt.natAbs_lt {z : ℤ} (h : FitsInt z) : z.natAbs < 10 ^ 10 := by
  unfold FitsInt intMin intMax at h
  omega

/-- **The buffer is large enough** for every `int`. -/
theorem istring_eq (value : ℤ) : istring value = Decimal.ofInt (toInt value) := by
  apply List.take_of_length_le
  exact (Decimal.length_ofInt_le (by decide) (fitsInt_toInt value).natAbs_lt).trans (by decide)

/-- A number shown tells its `int`. -/
theorem istring_inj {value value' : ℤ} :
    istring value = istring value' ↔ toInt value = toInt value' := by
  rw [istring_eq, istring_eq]
  exact Decimal.ofInt_injective.eq_iff

theorem notMem_istring {c : UInt8} (hsign : c ≠ 45) (hdigit : c < 48) (value : ℤ) :
    c ∉ istring value := by
  rw [istring_eq]
  intro h
  rcases Decimal.mem_ofInt h with rfl | ⟨hge, -⟩
  · exact hsign rfl
  · exact absurd hge (UInt8.not_le.mpr hdigit)

/-! ### Tables -/

/-- A quote. -/
def quote : UInt8 := 39

/-- No name and no value of the table breaks the line, and no name has a quote. -/
def PlainTable (table : List (CStr × CStr)) : Prop :=
  ∀ e ∈ table, byteOf '\n' ∉ e.1.val ∧ quote ∉ e.1.val ∧ byteOf '\n' ∉ e.2.val

instance : DecidablePred PlainTable := fun table =>
  inferInstanceAs (Decidable (∀ e ∈ table, _))

theorem tableLines_cons (i : ℕ) (key val : CStr) (table : List (CStr × CStr)) (rest : Str) :
    tableLines i ((key, val) :: table) ++ rest
      = literal "    [" ++ istring i ++ literal "] '" ++ (key.val ++ quote :: (literal "='"
          ++ ((val.val ++ [quote]) ++ byteOf '\n' :: (tableLines (i + 1) table ++ rest)))) := by
  have hbetween : literal "'='" = quote :: literal "='" := by decide
  have hend : literal "'\n" = [quote, byteOf '\n'] := by decide
  rw [tableLines, hbetween, hend]
  simp only [List.append_assoc, List.cons_append, List.nil_append]

/-- The lines of a table start with a blank. -/
theorem head?_tableLines_cons (i : ℕ) (e : CStr × CStr) (table : List (CStr × CStr))
    (rest : Str) : (tableLines i (e :: table) ++ rest).head? = some (byteOf ' ') := by
  rw [tableLines_cons]
  rfl

/-- **The lines of a table are read back**, from any entry on. -/
theorem tableLines_inj (i : ℕ) : ReadsBack PlainTable (byteOf ' ') (tableLines i) := by
  intro table
  induction table generalizing i with
  | nil =>
    intro table' rest rest' _ _ hrest _ h
    cases table' with
    | nil => exact ⟨rfl, h⟩
    | cons e' table' =>
      refine absurd ?_ hrest
      rw [← head?_tableLines_cons i e' table' rest', ← h]
      rfl
  | cons e table ih =>
    intro table' rest rest' hplain hplain' hrest hrest' h
    cases table' with
    | nil =>
      refine absurd ?_ hrest'
      rw [← head?_tableLines_cons i e table rest, h]
      rfl
    | cons e' table' =>
      obtain ⟨key, val⟩ := e
      obtain ⟨key', val'⟩ := e'
      obtain ⟨-, hquote, hval⟩ := hplain (key, val) List.mem_cons_self
      obtain ⟨-, hquote', hval'⟩ := hplain' (key', val') List.mem_cons_self
      rw [tableLines_cons, tableLines_cons, List.append_cancel_left_eq] at h
      obtain ⟨hkey, h⟩ := (append_mark_inj hquote hquote').mp h
      rw [List.append_cancel_left_eq] at h
      have hbreak {v : Str} (hv : byteOf '\n' ∉ v) : byteOf '\n' ∉ v ++ [quote] := by
        rw [List.mem_append, not_or]
        exact ⟨hv, by decide⟩
      obtain ⟨hvalue, h⟩ := (append_mark_inj (hbreak hval) (hbreak hval')).mp h
      obtain ⟨htable, hlast⟩ := ih (i + 1) (fun x hx => hplain x (List.mem_cons_of_mem _ hx))
        (fun x hx => hplain' x (List.mem_cons_of_mem _ hx)) hrest hrest' h
      have hentry : (key, val) = (key', val') :=
        Prod.ext (Subtype.ext hkey) (Subtype.ext (List.append_cancel_right hvalue))
      exact ⟨List.cons_eq_cons.mpr ⟨hentry, htable⟩, hlast⟩

/-! ### What a dump shows -/

/-- The strings shown. -/
def DumpedRequest.strings (r : DumpedRequest) : List (Option CStr) :=
  [r.theRequest, r.contentType, r.protocol, r.hostname, r.statusLine, r.method, r.args]

/-- No string breaks its line, and the tables are plain. -/
structure Plain (r : DumpedRequest) : Prop where
  strings : ∀ s ∈ r.strings, byteOf '\n' ∉ mstring s
  tables : ∀ table ∈ r.tables, PlainTable table.2

/-- A string as it is shown: NULL is an empty string. -/
def shownString (cp : Option CStr) : Option CStr := some (cp.getD ⟨[], List.not_mem_nil⟩)

/-- A request as it is shown: its numbers are `int`s. -/
def DumpedRequest.shown (r : DumpedRequest) : DumpedRequest :=
  { r with
    theRequest := shownString r.theRequest
    contentType := shownString r.contentType
    assbackwards := toInt r.assbackwards
    proxyreq := toInt r.proxyreq
    headerOnly := toInt r.headerOnly
    protocol := shownString r.protocol
    protoNum := toInt r.protoNum
    hostname := shownString r.hostname
    statusLine := shownString r.statusLine
    status := toInt r.status
    method := shownString r.method
    methodNumber := toInt r.methodNumber
    allowed := toInt r.allowed
    bytesSent := toInt r.bytesSent
    args := shownString r.args }

theorem mstring_inj {s s' : Option CStr} :
    mstring s = mstring s' ↔ shownString s = shownString s' := by
  have hval (s : Option CStr) : mstring s = (s.getD ⟨[], List.not_mem_nil⟩).val := by
    cases s <;> rfl
  rw [hval, hval, shownString, shownString, Option.some.injEq, Subtype.ext_iff]

theorem shown_eq_iff {r r' : DumpedRequest} :
    r.shown = r'.shown ↔ r.members = r'.members ∧ r.tables = r'.tables := by
  simp only [DumpedRequest.shown, DumpedRequest.members, DumpedRequest.tables,
    DumpedRequest.mk.injEq, List.cons.injEq, Prod.mk.injEq, mstring_inj, istring_inj, true_and,
    and_true]
  tauto

section

variable {r r' : DumpedRequest}

/-- What is shown of a member is a number or a string. -/
theorem member_cases {line : Str × Str} (h : line ∈ r.members) :
    (∃ value, line.2 = istring value) ∨ ∃ s ∈ r.strings, line.2 = mstring s := by
  simp only [DumpedRequest.members, List.mem_cons, List.not_mem_nil, or_false] at h
  rcases h with rfl | rfl | rfl | rfl | rfl | rfl | rfl | rfl | rfl | rfl | rfl | rfl | rfl |
    rfl | rfl
  all_goals first
    | exact Or.inl ⟨_, rfl⟩
    | exact Or.inr ⟨_, by simp [DumpedRequest.strings], rfl⟩

theorem Plain.notMem_members (h : Plain r) : ∀ line ∈ r.members, byteOf '\n' ∉ line.2 := by
  intro line hline
  rcases member_cases hline with ⟨value, hvalue⟩ | ⟨s, hs, htext⟩
  · rw [hvalue]
    exact notMem_istring (by decide) (by decide) value
  · rw [htext]
    exact h.strings s hs

/-- The labels do not depend on the request. -/
theorem labels_eq (r r' : DumpedRequest) :
    r.members.map Prod.fst = r'.members.map Prod.fst ∧
      r.tables.map Prod.fst = r'.tables.map Prod.fst := ⟨rfl, rfl⟩

/-- No line above a table looks like one of its lines. -/
theorem table_labels (r : DumpedRequest) :
    ∀ table ∈ r.tables, table.1 ≠ [] ∧ table.1.head? ≠ some (byteOf ' ') := by
  intro table htable
  have hlabel : table.1 ∈ (default : DumpedRequest).tables.map Prod.fst := by
    rw [← (labels_eq r default).2]
    exact List.mem_map_of_mem htable
  have hall : ∀ l ∈ (default : DumpedRequest).tables.map Prod.fst,
      l ≠ [] ∧ l.head? ≠ some (byteOf ' ') := by decide
  exact hall table.1 hlabel

/-- **A dump tells its lines and its tables.** -/
theorem Plain.dumpString_inj (h : Plain r) (h' : Plain r') (heq : dumpString r = dumpString r') :
    r.members = r'.members ∧ r.tables = r'.tables := by
  simp only [dumpString, List.append_assoc, List.append_cancel_left_eq] at heq
  obtain ⟨hmembers, hrest⟩ := labelledLines_inj (labels_eq r r').1 h.notMem_members
    h'.notMem_members heq
  have hfooter : (literal "============ /ApacheRequestRec ==============\n").head?
      ≠ some (byteOf ' ') := by decide
  obtain ⟨htables, -⟩ := labelledBlocks_inj (tableLines_inj 0) (labels_eq r r').2
    (fun table htable => ⟨h.tables table htable, table_labels r table htable⟩)
    h'.tables hfooter hfooter hrest
  exact ⟨hmembers, htables⟩

/-! ### A dump as a C string -/

theorem zero_notMem_istring (value : ℤ) : (0 : UInt8) ∉ istring value :=
  notMem_istring (by decide) (by decide) value

theorem zero_notMem_mstring (s : Option CStr) : (0 : UInt8) ∉ mstring s := by
  cases s with
  | none => exact List.not_mem_nil
  | some s => exact s.property

theorem zero_notMem_tableLines (table : List (CStr × CStr)) : ∀ i,
    (0 : UInt8) ∉ tableLines i table := by
  induction table with
  | nil => exact fun _ => List.not_mem_nil
  | cons e table ih =>
    intro i
    simp only [tableLines, List.mem_append, not_or]
    exact ⟨⟨⟨⟨⟨⟨⟨by decide, zero_notMem_istring i⟩, by decide⟩, e.1.property⟩, by decide⟩,
      e.2.property⟩, by decide⟩, ih (i + 1)⟩

/-- **No NUL byte cuts a dump**: all of it is written. -/
theorem cStrOf_dumpString (r : DumpedRequest) : cStrOf (dumpString r) = dumpString r := by
  apply cStrOf_eq_self
  have hlabels : (∀ l ∈ (default : DumpedRequest).members.map Prod.fst, (0 : UInt8) ∉ l) ∧
      ∀ l ∈ (default : DumpedRequest).tables.map Prod.fst, (0 : UInt8) ∉ l := by decide
  rw [← (labels_eq r default).1, ← (labels_eq r default).2] at hlabels
  simp only [dumpString, List.mem_append, not_or]
  refine ⟨⟨⟨by decide, ?_⟩, ?_⟩, by decide⟩
  · intro h
    obtain ⟨line, hline, hmem⟩ := List.mem_flatMap.mp h
    rw [List.mem_append, List.mem_append, or_assoc] at hmem
    rcases hmem with hlabel | htext | hend
    · exact hlabels.1 line.1 (List.mem_map_of_mem hline) hlabel
    · rcases member_cases hline with ⟨value, hvalue⟩ | ⟨s, -, hs⟩
      · exact zero_notMem_istring value (hvalue ▸ htext)
      · exact zero_notMem_mstring s (hs ▸ htext)
    · exact absurd hend (by decide)
  · intro h
    obtain ⟨table, htable, hmem⟩ := List.mem_flatMap.mp h
    rcases List.mem_append.mp hmem with hlabel | htext
    · exact hlabels.2 table.1 (List.mem_map_of_mem htable) hlabel
    · exact zero_notMem_tableLines table.2 0 htext

end

/-- **A dump can be read back.**  No dump is cut, by a NUL byte or in one of its numbers, and
two requests whose strings do not break their lines have the same dump if and only if they
agree in all that is shown: the strings up to NULL, the numbers as `int`s and the tables
entry by entry. -/
theorem dump_reads_back :
    (∀ r, cStrOf (dumpString r) = dumpString r) ∧
      (∀ value, istring value = Decimal.ofInt (toInt value)) ∧
      ∀ r r', Plain r → Plain r' → (dumpString r = dumpString r' ↔ r.shown = r'.shown) := by
  refine ⟨cStrOf_dumpString, istring_eq, fun r r' h h' => ?_⟩
  rw [shown_eq_iff]
  constructor
  · exact h.dumpString_inj h'
  · rintro ⟨hmembers, htables⟩
    rw [dumpString, dumpString, hmembers, htables]

/-- A note is not taken for a header. -/
theorem dump_reads_back_note :
    let table : List (CStr × CStr) := [(cStr (literal "a"), cStr (literal "b"))]
    dumpString { (default : DumpedRequest) with headersIn := table }
      ≠ dumpString { (default : DumpedRequest) with notes := table } := by
  intro table heq
  have hplain : Plain { (default : DumpedRequest) with headersIn := table } :=
    ⟨by decide, by decide⟩
  have hplain' : Plain { (default : DumpedRequest) with notes := table } :=
    ⟨by decide, by decide⟩
  have hshown := (dump_reads_back.2.2 _ _ hplain hplain').mp heq
  exact absurd (congrArg DumpedRequest.notes hshown) (by decide)

end ModCplusplus
