import ModCplusplus.EscapeDigits
import ModCplusplus.FormParser
import ModCplusplus.RequestEnv

/-!
# Requests that determine what is built

The storage a `request_env` is built in decides its `is_post_` wherever the
constructor does not assign it, and the bytes behind `hexstr` decide what an escape
that runs on becomes.  A form that has such an escape and gives a key can get a `=`
into its table or not, as memory has it.

## Main definitions

* `SameRequest` — two constructions agree.
* `DependsOnRequestAlone` — they do so in all memory.
* `Determined` — the requests for which they do.

## Main results

* `env_decode_eq_iff` — when the table of a string is the same in all memory.
* `depends_on_request_alone_iff` — when all the members are.
-/

namespace ModCplusplus

/-- Two constructions agree on all that can be seen of them. -/
structure SameRequest (e e' : RequestEnv) : Prop where
  isPost : e.isPost = e'.isPost
  isGet : e.isGet = e'.isGet
  env_ : e.env_ = e'.env_
  formData : e.formData = e'.formData
  formDataLength : e.formDataLength = e'.formDataLength
  boundary : e.boundary = e'.boundary

/-- **What is built depends on the request alone**: in any two memories the constructor
returns, and the two constructions agree. -/
def DependsOnRequestAlone (r : Request) : Prop :=
  ∀ mem mem', ∃ e e', construct mem r = .ok (some e) ∧ construct mem' r = .ok (some e') ∧
    SameRequest e e'

theorem SameRequest.rfl {e : RequestEnv} : SameRequest e e :=
  ⟨Eq.refl _, Eq.refl _, Eq.refl _, Eq.refl _, Eq.refl _, Eq.refl _⟩

/-! ### The table -/

/-- **The table of a string is the same in all memory** exactly if no escape of it runs
on or it gives no key. -/
theorem env_decode_eq_iff (ch : CStr) :
    (∀ mem mem', (decode mem ch (Parse.start [])).parse.env_ =
      (decode mem' ch (Parse.start [])).parse.env_) ↔
    escapesRunOn ch.val = false ∨ givesKey false ch.val = false := by
  constructor
  · intro h
    by_contra hcond
    rw [not_or, Bool.not_eq_false, Bool.not_eq_false] at hcond
    obtain ⟨hruns, hkey⟩ := hcond
    -- the escape becomes a `=` in one memory, and none does in the other
    obtain ⟨after, hafter⟩ := exists_char_mem_pieces hruns (byteOf '=')
    have hmem := (mentions_decode (Uninit.behind after) hkey (byteOf '=')).mpr (hafter 0)
    have hnotMem := mt (mentions_decode (Uninit.behind (spell 0)) hkey (byteOf '=')).mp
      (char_equals_notMem_pieces ch.val 0)
    rw [h _ (Uninit.behind (spell 0))] at hmem
    exact hnotMem hmem
  · rintro (hruns | hkey) mem mem'
    · rw [parse_decode, parse_decode, tokens, tokens, map_token_pieces hruns mem mem']
    · rw [(env_decode_eq_nil_iff mem ch).mpr hkey, (env_decode_eq_nil_iff mem' ch).mpr hkey]

/-! ### The members -/

/-- A POST or PUT whose body can be read and, if it is decoded, is there, and has no
escape that runs on or gives no key. -/
def Determined (r : Request) (body : Str) : Prop :=
  r.hasBody = true ∧ Fits r.contentLength body ∧
    (r.contentType.map Subtype.val = some urlEncoded →
      ¬ (r.contentLength = none ∧ body = []) ∧
        (escapesRunOn (cStr body).val = false ∨ givesKey false (cStr body).val = false))

/-- Without a body that is read, `is_post_` is what the storage held. -/
theorem isPost_of_construct {mem : Storage} {r : Request} {e : RequestEnv}
    (hr : r.hasBody = false) (h : construct mem r = .ok (some e)) : e.isPost = mem.isPost_ := by
  cases hargs : r.args with
  | none =>
    rw [construct_of_use (use_of_no_args hr hargs)] at h
    obtain rfl : RequestEnv.start mem r = e := Option.some.inj (Except.ok.inj h)
    simp [RequestEnv.isPost, RequestEnv.start, hr]
  | some args =>
    rw [construct_of_use (use_of_args hr hargs), Use.apply, cString_ofCStr, ok_bind] at h
    obtain rfl := Option.some.inj (Except.ok.inj h)
    simp [RequestEnv.isPost, RequestEnv.start, hr]

/-- With a body that is read, nothing the storage held is left. -/
theorem start_eq_start {r : Request} (hr : r.hasBody = true) (mem mem' : Storage) :
    RequestEnv.start mem r = RequestEnv.start mem' r := by
  rw [RequestEnv.start, RequestEnv.start, hr, Bool.true_or, Bool.true_or]

/-- What was built was built from a use. -/
theorem exists_use_of_construct {mem : Storage} {r : Request} {e : RequestEnv}
    (h : construct mem r = .ok (some e)) : ∃ use, r.use = .ok (some use) := by
  rw [construct] at h
  obtain ⟨use, huse, h⟩ := bind_eq_ok h
  cases use with
  | none => exact absurd (Except.ok.inj h) (Option.some_ne_none e).symm
  | some use => exact ⟨use, huse⟩

/-- A form without a Content-Length and without a body is not built. -/
theorem construct_form_empty {mem : Storage} {r : Request} {rest : List ClientBlock}
    (hr : r.hasBody = true) (h : r.Delivers [] rest) (hfits : Fits r.contentLength [])
    (hlength : r.contentLength = none) (htype : (resolveContentType r.contentType).1 = urlEncoded) :
    construct mem r = .error .nullDeref := by
  obtain ⟨sbuf, huse, hsbuf⟩ := use_of_fits hr h hfits
  rw [if_pos ⟨hlength, rfl⟩] at hsbuf
  rw [construct_of_use huse, selectUse]
  dsimp only
  rw [if_pos htype, hsbuf]
  rfl

section

variable {r : Request} {body : Str} {rest : List ClientBlock}

/-- Only a determined request is built the same in all memory. -/
theorem determined_of_dependsOnRequestAlone (h : r.hasBody = true → r.Delivers body rest)
    (hsame : DependsOnRequestAlone r) : Determined r body := by
  have hr : r.hasBody = true := by
    by_contra hr
    rw [Bool.not_eq_true] at hr
    obtain ⟨e, e', he, he', hagree⟩ :=
      hsame ⟨true, fun _ => 0, fun _ => []⟩ ⟨false, fun _ => 0, fun _ => []⟩
    have hpost := hagree.isPost
    rw [isPost_of_construct hr he, isPost_of_construct hr he'] at hpost
    exact Bool.noConfusion hpost
  obtain ⟨e, e', he, -⟩ := hsame ⟨true, fun _ => 0, fun _ => []⟩ ⟨true, fun _ => 0, fun _ => []⟩
  obtain ⟨use, huse⟩ := exists_use_of_construct he
  have hfits := fits_of_use hr (h hr) huse
  refine ⟨hr, hfits, fun htype => ?_⟩
  have hsct := resolveContentType_eq_urlEncoded.mpr htype
  have hne : ¬ (r.contentLength = none ∧ body = []) := by
    rintro ⟨hlength, rfl⟩
    rw [construct_form_empty hr (h hr) hfits hlength hsct] at he
    exact absurd he nofun
  obtain ⟨sbuf, hread, hsbuf⟩ := readBody_of_fits (h hr) hfits
  rw [if_neg hne] at hsbuf
  refine ⟨hne, (env_decode_eq_iff (cStr body)).mp fun mem mem' => ?_⟩
  obtain ⟨e, e', he, he', hagree⟩ := hsame ⟨true, mem⟩ ⟨true, mem'⟩
  rw [construct_form _ hr hread hsbuf hsct, Except.ok.injEq, Option.some.injEq] at he he'
  have henv := hagree.env_
  rw [← he, ← he'] at henv
  exact henv

/-- A determined request is. -/
theorem dependsOnRequestAlone_of_determined (h : r.hasBody = true → r.Delivers body rest)
    (hdet : Determined r body) : DependsOnRequestAlone r := by
  obtain ⟨hr, hfits, hform⟩ := hdet
  obtain ⟨sbuf, hread, hsbuf⟩ := readBody_of_fits (h hr) hfits
  intro mem mem'
  have hstart := start_eq_start hr mem mem'
  by_cases hsct : (resolveContentType r.contentType).1 = urlEncoded
  · obtain ⟨hne, hcond⟩ := hform (resolveContentType_eq_urlEncoded.mp hsct)
    rw [if_neg hne] at hsbuf
    refine ⟨_, _, construct_form mem hr hread hsbuf hsct,
      construct_form mem' hr hread hsbuf hsct, ?_⟩
    rw [hstart, (env_decode_eq_iff (cStr body)).mpr hcond mem.uninit mem'.uninit]
    exact SameRequest.rfl
  · by_cases hdata : (resolveContentType r.contentType).1 = multipart
    · have htype : resolveContentType r.contentType
          = (multipart, (resolveContentType r.contentType).2) := Prod.ext hdata (Eq.refl _)
      refine ⟨_, _, construct_formData mem hr hread htype,
        construct_formData mem' hr hread htype, ?_⟩
      rw [hstart]
      exact SameRequest.rfl
    · refine ⟨_, _, construct_other mem hr hread hsct hdata,
        construct_other mem' hr hread hsct hdata, ?_⟩
      rw [hstart]
      exact SameRequest.rfl

end

/-- **What is built depends on the request alone** exactly for a POST or PUT whose body
can be read and, if it is a form, is there and has no escape that runs on, or gives no
key. -/
theorem depends_on_request_alone_iff (r : Request) (body : Str) (rest : List ClientBlock)
    (h : r.hasBody = true → r.Delivers body rest) :
    DependsOnRequestAlone r ↔ Determined r body :=
  ⟨determined_of_dependsOnRequestAlone h, dependsOnRequestAlone_of_determined h⟩

/-- The form `a=b+c` posted in one block. -/
theorem depends_on_request_alone_post :
    DependsOnRequestAlone ⟨mPost, none, [(cStr (literal "Content-Type"), cStr urlEncoded)],
      [.data (literal "a=b+c"), .data []]⟩ :=
  (depends_on_request_alone_iff
    ⟨mPost, none, [(cStr (literal "Content-Type"), cStr urlEncoded)],
      [.data (literal "a=b+c"), .data []]⟩ (literal "a=b+c") [] fun _ =>
      ⟨[literal "a=b+c"], by decide, by decide, fun _ => by decide, rfl⟩).mpr
    ⟨by decide, by decide, fun _ => ⟨by decide, Or.inl (by decide)⟩⟩

/-- A GET without arguments in storage that held `true`, and in storage that held
`false`. -/
theorem not_dependsOnRequestAlone_get :
    construct ⟨true, fun _ => 0, fun _ => []⟩ ⟨0, none, [], []⟩
        = .ok (some ⟨true, [], none, 0, []⟩) ∧
      construct ⟨false, fun _ => 0, fun _ => []⟩ ⟨0, none, [], []⟩
        = .ok (some ⟨false, [], none, 0, []⟩) ∧
      ¬ DependsOnRequestAlone ⟨0, none, [], []⟩ := by
  have htrue : construct ⟨true, fun _ => 0, fun _ => []⟩ ⟨0, none, [], []⟩
      = .ok (some ⟨true, [], none, 0, []⟩) := rfl
  have hfalse : construct ⟨false, fun _ => 0, fun _ => []⟩ ⟨0, none, [], []⟩
      = .ok (some ⟨false, [], none, 0, []⟩) := rfl
  refine ⟨htrue, hfalse, fun h => ?_⟩
  obtain ⟨e, e', he, he', hagree⟩ :=
    h ⟨true, fun _ => 0, fun _ => []⟩ ⟨false, fun _ => 0, fun _ => []⟩
  rw [htrue, Except.ok.injEq, Option.some.injEq] at he
  rw [hfalse, Except.ok.injEq, Option.some.injEq] at he'
  have hpost := hagree.isPost
  rw [← he, ← he'] at hpost
  exact Bool.noConfusion hpost

end ModCplusplus
