import ModCplusplus.FormDecode
import ModCplusplus.RequestBody

/-!
# Building a request

The constructor of a `request_env` reads the body of a POST or PUT and then looks at
the Content-Type to choose what becomes of it: it is decoded, or kept as form data,
or dropped.  With any other method it decodes the arguments of the URL.

`form_data`, `form_data_length` and the table begin empty; nothing but the POST branch
assigns `is_post_`, so that what the storage held is a parameter, like the bytes the
decoder reads without having written them.

## Main definitions

* `Request`, `aprTableGet` — what is read of a request.
* `resolveContentType` — the media type and the boundary.
* `readBody`, `Request.use` — the body, and what becomes of it.
* `Storage`, `RequestEnv`, `construct` — the constructor.
* `Request.Delivers`, `Fits` — a body that httpd hands over, and one that can be read.

## Main results

* `readBody_of_fits`, `fits_of_readBody` — exactly the bodies that fit are read.
* `decode_argument_iff` — when `decode` is only called with strings.
* `bodies_agree` — the two ways of reading a body agree.
-/

namespace ModCplusplus

/-! ### The request -/

/-- `M_PUT`. -/
def mPut : ℤ := 1

/-- `M_POST`. -/
def mPost : ℤ := 2

/-- What the constructor reads of a `request_rec`, and the results
`ap_get_client_block` is going to return for it. -/
structure Request where
  methodNumber : ℤ
  args : Option CStr
  headersIn : List (CStr × CStr)
  body : List ClientBlock

/-- `tolower` in the C locale. -/
def toLower (c : UInt8) : UInt8 := if 65 ≤ c ∧ c ≤ 90 then c + 32 else c

/-- The strings are equal but for the case of their letters. -/
def sameFold (s t : Str) : Bool := s.map toLower == t.map toLower

/-- `apr_table_get`: the first value of a key, whatever the case of its letters. -/
def aprTableGet (table : List (CStr × CStr)) (key : Str) : Option CStr :=
  (table.find? fun h => sameFold h.1.val key).map Prod.snd

/-- The Content-Length header. -/
def Request.contentLength (r : Request) : Option CStr :=
  aprTableGet r.headersIn (literal "Content-Length")

/-- The Content-Type header. -/
def Request.contentType (r : Request) : Option CStr :=
  aprTableGet r.headersIn (literal "Content-Type")

/-- The method is one the body is read for. -/
def Request.hasBody (r : Request) : Bool := r.methodNumber == mPost || r.methodNumber == mPut

/-! ### The content type -/

/-- `std::string::find`: the first position of a pattern. -/
def findStr (pat : Str) : Str → Option ℕ
  | [] => if pat = [] then some 0 else none
  | c :: s => if pat <+: c :: s then some 0 else (findStr pat s).map (· + 1)

/-- `BDEF`. -/
def bdef : Str := literal "; boundary="

/-- `"application/x-www-form-urlencoded"`. -/
def urlEncoded : Str := literal "application/x-www-form-urlencoded"

/-- `"multipart/form-data"`. -/
def multipart : Str := literal "multipart/form-data"

/-- `sct` and `bnd`.  httpd bounds a header field by an `int`, so that the position
found is one. -/
def resolveContentType (contentType : Option CStr) : Str × Str :=
  match contentType with
  | none => (literal "text/plain", [])
  | some contentType =>
      match findStr bdef contentType.val with
      | none => (contentType.val, [])
      | some p =>
          if contentType.val.take p = multipart then
            (contentType.val.take p, contentType.val.drop (p + bdef.length))
          else (contentType.val, [])

/-! ### The body -/

/-- The cells of an array, or NULL. -/
abbrev Buffer := Option (List (Option UInt8))

/-- The bytes before the first NUL, if nothing that has not been stored comes before
it. -/
def stringAt : List (Option UInt8) → Option Str
  | some c :: cells => if c = 0 then some [] else (stringAt cells).map (c :: ·)
  | _ => none

/-- What a function that takes a string reads from a pointer. -/
def cString : Buffer → Except Fault CStr
  | none => .error .nullDeref
  | some cells =>
      match stringAt cells with
      | some s => .ok (cStr s)
      | none => .error (.outOfBounds cells.length)

/-- The array of a C string. -/
def Buffer.ofCStr (s : CStr) : Buffer := some (s.val.map some ++ [some 0])

/-- `sbuf` and `all_read` after the body has been read, if httpd returns enough
results for it. -/
def readBody (contentLength : Option CStr) (results : List ClientBlock) :
    Except Fault (Option (Buffer × ℤ)) :=
  match contentLength with
  | none => do
      let out ← readUnsized results Unsized.start
      return out.map fun p => (p.1.sbuf, p.1.allRead)
  | some contentLength => do
      let out ← readSized contentLength.val results
      return out.map fun p => (some p.1.sbuf, p.1.allRead)

/-- What becomes of the body, or of the arguments. -/
inductive Use where
  | decodes (ch : Buffer)
  | keeps (sbuf : Buffer) (allRead : ℤ) (bnd : Str)
  | drops
  deriving DecidableEq

/-- The parsing function selected by the content type. -/
def selectUse (contentType : Option CStr) (sbuf : Buffer) (allRead : ℤ) : Use :=
  let (sct, bnd) := resolveContentType contentType
  if sct = urlEncoded then .decodes sbuf
  else if sct = multipart then .keeps sbuf allRead bnd
  else .drops

/-- The constructor up to the use it makes of what the client sent. -/
def Request.use (r : Request) : Except Fault (Option Use) :=
  if r.hasBody then do
    let out ← readBody r.contentLength r.body
    return out.map fun p => selectUse r.contentType p.1 p.2
  else
    return some (match r.args with
      | some args => .decodes (Buffer.ofCStr args)
      | none => .drops)

/-! ### The constructor -/

/-- What memory holds that the constructor and the decoder have not written. -/
structure Storage where
  isPost_ : Bool
  uninit : Uninit

/-- A `request_env`, without its output. -/
structure RequestEnv where
  isPost_ : Bool
  env_ : List EnvValue
  formData : Buffer
  formDataLength : ℤ
  boundary : Str
  deriving DecidableEq

/-- `is_post`. -/
def RequestEnv.isPost (e : RequestEnv) : Bool := e.isPost_

/-- `is_get`. -/
def RequestEnv.isGet (e : RequestEnv) : Bool := !e.isPost_

/-- The members as the constructor finds or first assigns them. -/
def RequestEnv.start (mem : Storage) (r : Request) : RequestEnv where
  isPost_ := r.hasBody || mem.isPost_
  env_ := []
  formData := none
  formDataLength := 0
  boundary := []

/-- What the constructor makes of a use. -/
def Use.apply (mem : Storage) (e : RequestEnv) : Use → Except Fault RequestEnv
  | .decodes ch => do
      let ch ← cString ch
      return { e with env_ := (decode mem.uninit ch (Parse.start e.env_)).parse.env_ }
  | .keeps sbuf allRead bnd =>
      return { e with formData := sbuf, formDataLength := allRead, boundary := bnd }
  | .drops => return e

/-- `request_env::request_env`. -/
def construct (mem : Storage) (r : Request) : Except Fault (Option RequestEnv) := do
  match ← r.use with
  | none => return none
  | some use =>
      let e ← use.apply mem (RequestEnv.start mem r)
      return some e

/-! ### Strings in arrays -/

theorem stringAt_map (s : Str) (rest : List (Option UInt8)) :
    stringAt (s.map some ++ some 0 :: rest) = some (cStrOf s) := by
  induction s with
  | nil => rfl
  | cons c s ih =>
    rw [List.map_cons, List.cons_append, stringAt, ih, cStrOf, cStrOf]
    by_cases hc : c = 0
    · simp [hc]
    · simp [hc]

/-- The array begins with the bytes and a NUL byte. -/
def Buffer.Holds (sbuf : Buffer) (body : Str) : Prop :=
  ∃ cells, sbuf = some cells ∧ Memory.BeginsWith cells (body ++ [0])

theorem Buffer.Holds.cString {sbuf : Buffer} {body : Str} (h : sbuf.Holds body) :
    cString sbuf = .ok (cStr body) := by
  obtain ⟨cells, rfl, rest, rfl⟩ := h
  have hread := stringAt_map body rest
  rw [ModCplusplus.cString, List.map_append, List.map_singleton, List.append_assoc,
    List.singleton_append, hread]
  dsimp only
  rw [cStr]
  congr 1
  exact Subtype.ext (cStrOf_eq_self (not_mem_cStrOf body))

theorem Buffer.holds_ofCStr (s : CStr) : (Buffer.ofCStr s).Holds s.val :=
  ⟨_, rfl, [], by simp⟩

theorem cString_ofCStr (s : CStr) : cString (Buffer.ofCStr s) = .ok s := by
  rw [(Buffer.holds_ofCStr s).cString]
  exact congrArg _ (Subtype.ext (cStrOf_eq_self s.property))

/-! ### Reading the body -/

/-- httpd hands a body over: block by block, none of them empty nor, without a
Content-Length, larger than what it is asked for, and then its end. -/
structure Request.Delivers (r : Request) (body : Str) (rest : List ClientBlock) : Prop where
  blocks : ∃ blocks : List Str, blocks.flatten = body ∧ (∀ b ∈ blocks, b ≠ []) ∧
    (r.contentLength = none → ∀ b ∈ blocks, b.length < bufSize) ∧
    r.body = blocks.map .data ++ .data [] :: rest

/-- A body that can be read: its length fits an `int`, or the header, which gives a
length that can be allocated. -/
def Fits (contentLength : Option CStr) (body : Str) : Prop :=
  match contentLength with
  | none => (body.length : ℤ) ≤ intMax
  | some contentLength => 0 ≤ atoi contentLength.val ∧ atoi contentLength.val < intMax ∧
      (body.length : ℤ) ≤ atoi contentLength.val

instance : ∀ (contentLength : Option CStr) (body : Str), Decidable (Fits contentLength body)
  | none, body => inferInstanceAs (Decidable ((body.length : ℤ) ≤ intMax))
  | some _, _ => inferInstanceAs (Decidable (_ ∧ _ ∧ _))

/-- **A body that fits is read**, into an array with a NUL byte behind it; only
without a length and without a body there is no array. -/
theorem readBody_of_fits {r : Request} {body : Str} {rest : List ClientBlock}
    (h : r.Delivers body rest) (hfits : Fits r.contentLength body) :
    ∃ sbuf, readBody r.contentLength r.body = .ok (some (sbuf, body.length)) ∧
      if r.contentLength = none ∧ body = [] then sbuf = none else sbuf.Holds body := by
  obtain ⟨blocks, rfl, hne, hbuf, hbody⟩ := h.blocks
  rw [hbody]
  cases hlength : r.contentLength with
  | none =>
    rw [hlength] at hfits
    have hfit : FitBuf blocks := fun b hb => ⟨hne b hb, hbuf hlength b hb⟩
    by_cases hempty : blocks.flatten = []
    · obtain rfl : blocks = [] := by
        cases blocks with
        | nil => rfl
        | cons b blocks =>
          rw [List.flatten_cons, List.append_eq_nil_iff] at hempty
          exact absurd hempty.1 (hne b List.mem_cons_self)
      refine ⟨none, ?_, by simp⟩
      rw [List.map_nil, List.nil_append, readBody, readUnsized_end, ok_bind]
      rfl
    · obtain ⟨st, hst, htail⟩ := readUnsized_blocks hfit Unsized.holds_start hfits
      rw [List.nil_append] at hst
      refine ⟨st.sbuf, ?_, ?_⟩
      · rw [readBody, htail, readUnsized_end, ok_bind, ← hst.allRead]
        rfl
      · rw [if_neg fun hand => hempty hand.2]
        have hsbuf := hst.sbuf
        cases hs : st.sbuf with
        | none =>
          rw [hs] at hsbuf
          exact absurd hsbuf hempty
        | some cells =>
          rw [hs] at hsbuf
          exact ⟨cells, rfl, hsbuf⟩
  | some contentLength =>
    rw [hlength] at hfits
    obtain ⟨st, hread, hall, hbegins, -⟩ := readSized_of_le hne hfits.1 hfits.2.1 hfits.2.2 rest
    refine ⟨some st.sbuf, ?_, ?_⟩
    · rw [readBody, hread, ok_bind, ← hall]
      rfl
    · rw [if_neg (by simp)]
      exact ⟨st.sbuf, rfl, hbegins⟩

/-- **A body that is read fits.** -/
theorem fits_of_readBody {r : Request} {body : Str} {rest : List ClientBlock}
    (h : r.Delivers body rest) {out : Option (Buffer × ℤ)}
    (hread : readBody r.contentLength r.body = .ok out) : Fits r.contentLength body := by
  obtain ⟨blocks, rfl, hne, hbuf, hbody⟩ := h.blocks
  rw [hbody] at hread
  cases hlength : r.contentLength with
  | none =>
    rw [hlength, readBody] at hread
    obtain ⟨out', hread, -⟩ := bind_eq_ok hread
    have hfit : FitBuf blocks := fun b hb => ⟨hne b hb, hbuf hlength b hb⟩
    by_contra hgt
    obtain ⟨fault, hfault⟩ := readUnsized_blocks_of_gt hfit Unsized.holds_start (not_le.mp hgt)
    rw [hfault] at hread
    exact absurd hread (by simp)
  | some contentLength =>
    rw [hlength, readBody] at hread
    obtain ⟨out', hread, -⟩ := bind_eq_ok hread
    exact le_of_readSized hne hread

theorem use_of_readBody {r : Request} (hr : r.hasBody = true) {sbuf : Buffer} {n : ℤ}
    (h : readBody r.contentLength r.body = .ok (some (sbuf, n))) :
    r.use = .ok (some (selectUse r.contentType sbuf n)) := by
  rw [Request.use, if_pos hr, h, ok_bind]
  rfl

/-- What becomes of a body that fits. -/
theorem use_of_fits {r : Request} {body : Str} {rest : List ClientBlock} (hr : r.hasBody = true)
    (h : r.Delivers body rest) (hfits : Fits r.contentLength body) :
    ∃ sbuf, r.use = .ok (some (selectUse r.contentType sbuf body.length)) ∧
      if r.contentLength = none ∧ body = [] then sbuf = none else sbuf.Holds body := by
  obtain ⟨sbuf, hread, hsbuf⟩ := readBody_of_fits h hfits
  exact ⟨sbuf, use_of_readBody hr hread, hsbuf⟩

/-- Only a body that fits gets a use. -/
theorem fits_of_use {r : Request} {body : Str} {rest : List ClientBlock} (hr : r.hasBody = true)
    (h : r.Delivers body rest) {use : Option Use} (huse : r.use = .ok use) :
    Fits r.contentLength body := by
  rw [Request.use, if_pos hr] at huse
  obtain ⟨out, hread, -⟩ := bind_eq_ok huse
  exact fits_of_readBody h hread

/-- The arguments, with any other method. -/
theorem use_of_args {r : Request} (hr : r.hasBody = false) {args : CStr} (h : r.args = some args) :
    r.use = .ok (some (.decodes (Buffer.ofCStr args))) := by
  rw [Request.use, if_neg (by simp [hr]), h]
  rfl

theorem use_of_no_args {r : Request} (hr : r.hasBody = false) (h : r.args = none) :
    r.use = .ok (some .drops) := by
  rw [Request.use, if_neg (by simp [hr]), h]
  rfl

theorem construct_of_use {mem : Storage} {r : Request} {use : Use} (h : r.use = .ok (some use)) :
    construct mem r = (use.apply mem (RequestEnv.start mem r)).map some := by
  rw [construct, h, ok_bind]
  dsimp only
  cases use.apply mem (RequestEnv.start mem r) with
  | ok e => rfl
  | error fault => rfl

section

variable {r : Request} {sbuf : Buffer} {n : ℤ}

/-- **A form is decoded.** -/
theorem construct_form (mem : Storage) (hr : r.hasBody = true)
    (hread : readBody r.contentLength r.body = .ok (some (sbuf, n))) {body : Str}
    (hsbuf : sbuf.Holds body) (htype : (resolveContentType r.contentType).1 = urlEncoded) :
    construct mem r = .ok (some { RequestEnv.start mem r with
      env_ := (decode mem.uninit (cStr body) (Parse.start [])).parse.env_ }) := by
  rw [construct_of_use (use_of_readBody hr hread), selectUse]
  dsimp only
  rw [if_pos htype, Use.apply, hsbuf.cString, ok_bind]
  rfl

/-- **Form data is kept.** -/
theorem construct_formData (mem : Storage) (hr : r.hasBody = true)
    (hread : readBody r.contentLength r.body = .ok (some (sbuf, n))) {bnd : Str}
    (htype : resolveContentType r.contentType = (multipart, bnd)) :
    construct mem r = .ok (some { RequestEnv.start mem r with
      formData := sbuf, formDataLength := n, boundary := bnd }) := by
  rw [construct_of_use (use_of_readBody hr hread), selectUse, htype]
  rfl

/-- **Anything else is dropped.** -/
theorem construct_other (mem : Storage) (hr : r.hasBody = true)
    (hread : readBody r.contentLength r.body = .ok (some (sbuf, n)))
    (hform : (resolveContentType r.contentType).1 ≠ urlEncoded)
    (hdata : (resolveContentType r.contentType).1 ≠ multipart) :
    construct mem r = .ok (some (RequestEnv.start mem r)) := by
  rw [construct_of_use (use_of_readBody hr hread), selectUse]
  dsimp only
  rw [if_neg hform, if_neg hdata]
  rfl

end

/-! ### The argument of `decode` -/

theorem selectUse_eq_decodes {contentType : Option CStr} {sbuf ch : Buffer} {allRead : ℤ}
    (h : selectUse contentType sbuf allRead = .decodes ch) :
    (resolveContentType contentType).1 = urlEncoded ∧ ch = sbuf := by
  unfold selectUse at h
  dsimp only at h
  split at h
  · next hsct => exact ⟨hsct, (Use.decodes.inj h).symm⟩
  · split at h
    · exact absurd h (by simp)
    · exact absurd h (by simp)

/-- The type resolved is the one of forms exactly if the header is. -/
theorem resolveContentType_eq_urlEncoded {contentType : Option CStr} :
    (resolveContentType contentType).1 = urlEncoded ↔
      contentType.map Subtype.val = some urlEncoded := by
  cases contentType with
  | none => exact iff_of_false (by decide) (by simp)
  | some contentType =>
    rw [Option.map_some, Option.some.injEq, resolveContentType]
    split
    · exact Iff.rfl
    · next p hfind =>
      split
      · next htake =>
        refine iff_of_false ?_ fun heq => ?_
        · show ¬ contentType.val.take p = urlEncoded
          rw [htake]
          decide
        · rw [heq, show findStr bdef urlEncoded = none by decide] at hfind
          exact absurd hfind (by simp)
      · exact Iff.rfl

/-- `decode` is only called with a pointer to a string, and never with NULL. -/
def DecodesStrings (r : Request) : Prop :=
  ∀ ch, r.use = .ok (some (.decodes ch)) → ∃ s, cString ch = .ok s

/-- **`decode` is only called with strings**, unless a form is posted without a
Content-Length and without a body. -/
theorem decode_argument_iff (r : Request) (body : Str) (rest : List ClientBlock)
    (h : r.hasBody = true → r.Delivers body rest) :
    DecodesStrings r ↔ ¬ (r.hasBody = true ∧ r.contentLength = none ∧ body = [] ∧
      r.contentType.map Subtype.val = some urlEncoded) := by
  cases hr : r.hasBody with
  | false =>
    refine iff_of_true ?_ (by simp)
    intro ch huse
    cases hargs : r.args with
    | none =>
      rw [use_of_no_args hr hargs] at huse
      exact absurd huse (by simp)
    | some args =>
      rw [use_of_args hr hargs, Except.ok.injEq, Option.some.injEq, Use.decodes.injEq] at huse
      exact ⟨args, huse ▸ cString_ofCStr args⟩
  | true =>
    constructor
    · rintro hstrings ⟨-, hlength, rfl, htype⟩
      obtain ⟨sbuf, huse, hsbuf⟩ := use_of_fits hr (h hr) (by
        rw [hlength]
        exact (by decide : (0 : ℤ) ≤ intMax))
      rw [if_pos ⟨hlength, rfl⟩] at hsbuf
      have hselect : selectUse r.contentType sbuf (([] : Str).length) = .decodes none := by
        unfold selectUse
        dsimp only
        rw [if_pos (resolveContentType_eq_urlEncoded.mpr htype), hsbuf]
      rw [hselect] at huse
      obtain ⟨s, hs⟩ := hstrings none huse
      exact absurd hs (by simp [cString])
    · intro hcond ch huse
      obtain ⟨sbuf, huse', hsbuf⟩ := use_of_fits hr (h hr) (fits_of_use hr (h hr) huse)
      rw [huse', Except.ok.injEq, Option.some.injEq] at huse
      obtain ⟨htype, rfl⟩ := selectUse_eq_decodes huse
      rw [if_neg fun hand => hcond ⟨rfl, hand.1, hand.2,
        resolveContentType_eq_urlEncoded.mp htype⟩] at hsbuf
      exact ⟨cStr body, hsbuf.cString⟩

/-- A form `a=b` posted without a Content-Length. -/
theorem decode_argument_iff_one :
    DecodesStrings ⟨mPost, none, [(cStr (literal "content-type"), cStr urlEncoded)],
      [.data (literal "a=b"), .data []]⟩ :=
  (decode_argument_iff ⟨mPost, none, [(cStr (literal "content-type"), cStr urlEncoded)],
    [.data (literal "a=b"), .data []]⟩ (literal "a=b") [] fun _ =>
      ⟨[literal "a=b"], by decide, by decide, fun _ => by decide, rfl⟩).mpr (by decide)

/-- A form posted without a Content-Length and without a body: `decode` is called with
NULL. -/
theorem not_decodesStrings_empty :
    Request.use ⟨mPost, none, [(cStr (literal "Content-Type"), cStr urlEncoded)], [.data []]⟩
        = .ok (some (.decodes none)) ∧
      ¬ DecodesStrings
        ⟨mPost, none, [(cStr (literal "Content-Type"), cStr urlEncoded)], [.data []]⟩ := by
  have huse : Request.use
      ⟨mPost, none, [(cStr (literal "Content-Type"), cStr urlEncoded)], [.data []]⟩
        = .ok (some (.decodes none)) := by
    decide +kernel
  refine ⟨huse, fun h => ?_⟩
  obtain ⟨s, hs⟩ := h none huse
  exact absurd hs (by simp [cString])

/-! ### The two ways of reading a body -/

/-- The `form_data` of two constructions: both NULL, or both the body and a NUL byte. -/
def SameFormData (formData formData' : Buffer) (body : Str) : Prop :=
  (formData = none ∧ formData' = none) ∨ (formData.Holds body ∧ formData'.Holds body)

/-- **The two ways of reading agree**: both read all of the body into an array with a
NUL byte behind it, and what is then decoded or kept is the same. -/
structure BodiesAgree (r r' : Request) (body : Str) : Prop where
  unsized : ∃ sbuf, readBody none r.body = .ok (some (sbuf, body.length)) ∧ sbuf.Holds body
  sized : ∃ sbuf, readBody r'.contentLength r'.body = .ok (some (sbuf, body.length)) ∧
    sbuf.Holds body
  use : ∀ mem, ∃ e e', construct mem r = .ok (some e) ∧ construct mem r' = .ok (some e') ∧
    e.isPost_ = e'.isPost_ ∧ e.env_ = e'.env_ ∧ e.formDataLength = e'.formDataLength ∧
    e.boundary = e'.boundary ∧ SameFormData e.formData e'.formData body

/-- What is made of an array depends on the body it holds. -/
theorem apply_selectUse (mem : Storage) (contentType : Option CStr) (body : Str) (n : ℤ)
    {sbuf sbuf' : Buffer} (h : sbuf.Holds body) (h' : sbuf'.Holds body) (e : RequestEnv)
    (he : e.formData = none) :
    ∃ e₁ e₂, (selectUse contentType sbuf n).apply mem e = .ok e₁ ∧
      (selectUse contentType sbuf' n).apply mem e = .ok e₂ ∧ e₁.isPost_ = e₂.isPost_ ∧
      e₁.env_ = e₂.env_ ∧ e₁.formDataLength = e₂.formDataLength ∧ e₁.boundary = e₂.boundary ∧
      SameFormData e₁.formData e₂.formData body := by
  unfold selectUse
  dsimp only
  split
  · rw [Use.apply, Use.apply, h.cString, h'.cString, ok_bind]
    exact ⟨_, _, rfl, rfl, rfl, rfl, rfl, rfl, Or.inl ⟨he, he⟩⟩
  · split
    · exact ⟨_, _, rfl, rfl, rfl, rfl, rfl, rfl, Or.inr ⟨h, h'⟩⟩
    · exact ⟨_, _, rfl, rfl, rfl, rfl, rfl, rfl, Or.inl ⟨he, he⟩⟩

/-- **The two ways of reading a body agree**, however each is cut into blocks. -/
theorem bodies_agree (r r' : Request) (body : Str) (rest rest' : List ClientBlock)
    (hr : r.hasBody = true) (hr' : r'.hasBody = true) (hne : body ≠ [])
    (hsize : body.length + 524288 < 2 ^ 31) (hlength : r.contentLength = none)
    (hlength' : r'.contentLength.map (fun header => atoi header.val) = some (body.length : ℤ))
    (htype : r.contentType = r'.contentType) (h : r.Delivers body rest)
    (h' : r'.Delivers body rest') :
    BodiesAgree r r' body := by
  have hmax : intMax = 2 ^ 31 - 1 := rfl
  obtain ⟨header, hheader, hatoi⟩ := Option.map_eq_some_iff.mp hlength'
  have hfits : Fits r.contentLength body := by
    rw [hlength, Fits]
    omega
  have hfits' : Fits r'.contentLength body := by
    rw [hheader, Fits]
    omega
  obtain ⟨sbuf, hread, hsbuf⟩ := readBody_of_fits h hfits
  obtain ⟨sbuf', hread', hsbuf'⟩ := readBody_of_fits h' hfits'
  rw [if_neg fun hand => hne hand.2] at hsbuf hsbuf'
  refine ⟨⟨sbuf, hlength ▸ hread, hsbuf⟩, ⟨sbuf', hread', hsbuf'⟩, fun mem => ?_⟩
  have hstart : RequestEnv.start mem r = RequestEnv.start mem r' := by
    rw [RequestEnv.start, RequestEnv.start, hr, hr']
  obtain ⟨e, e', he, he', hsame⟩ := apply_selectUse mem r.contentType body body.length hsbuf hsbuf'
    (RequestEnv.start mem r) rfl
  refine ⟨e, e', ?_, ?_, hsame⟩
  · rw [construct_of_use (use_of_readBody hr hread), he]
    rfl
  · rw [construct_of_use (use_of_readBody hr' hread'), ← hstart, ← htype, he']
    rfl

/-- `a=b`, in two blocks and in one. -/
theorem bodies_agree_two :
    BodiesAgree ⟨mPost, none, [], [.data (literal "a="), .data (literal "b"), .data []]⟩
      ⟨mPut, none, [(cStr (literal "Content-Length"), cStr (literal "3"))],
        [.data (literal "a=b"), .data []]⟩ (literal "a=b") :=
  bodies_agree ⟨mPost, none, [], [.data (literal "a="), .data (literal "b"), .data []]⟩
    ⟨mPut, none, [(cStr (literal "Content-Length"), cStr (literal "3"))],
      [.data (literal "a=b"), .data []]⟩ (literal "a=b") [] [] (by decide) (by decide) (by decide)
    (by decide) (by decide) (by decide) (by decide)
    ⟨[literal "a=", literal "b"], by decide, by decide, fun _ => by decide, rfl⟩
    ⟨[literal "a=b"], by decide, by decide, by decide, rfl⟩

end ModCplusplus
