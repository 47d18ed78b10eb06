import ModCplusplus.FormParser
import ModCplusplus.RequestEnv

/-!
# Media types and their parameters

A Content-Type header is a media type, in any case, and parameters behind it.  The
constructor compares the whole header, letter by letter, with the types it knows;
only a boundary is cut off before, and only where nothing but the exact type of form
data stands in front of it.  What follows the boundary becomes part of it.

## Main definitions

* `renderParams` — the parameters of a header.
* `ChosenByMediaType` — the media type alone decides what becomes of the body.
* `TypeUnderstood` — the headers the constructor understands.

## Main results

* `resolveContentType_boundary`, `resolveContentType_of_ne` — what a header resolves to.
* `chosen_by_media_type_iff` — when the media type alone decides.
-/

namespace ModCplusplus

/-! ### Searching -/

theorem prefix_drop_of_findStr {pat s : Str} {p : ℕ} (h : findStr pat s = some p) :
    pat <+: s.drop p := by
  induction s generalizing p with
  | nil =>
    rw [findStr] at h
    split at h
    · next hpat =>
      rw [hpat]
      exact List.nil_prefix
    · exact absurd h (by simp)
  | cons c s ih =>
    rw [findStr] at h
    split at h
    · next hpre =>
      obtain rfl := Option.some.inj h
      exact hpre
    · obtain ⟨q, hq, rfl⟩ := Option.map_eq_some_iff.mp h
      exact ih hq

/-- A pattern is found where its first byte first occurs, if it stands there. -/
theorem findStr_append {c : UInt8} {pat a b : Str} (hc : c ∉ a) (h : c :: pat <+: b) :
    findStr (c :: pat) (a ++ b) = some a.length := by
  induction a with
  | nil =>
    obtain ⟨rest, rfl⟩ := h
    rw [List.nil_append, List.cons_append, findStr, if_pos ⟨rest, rfl⟩]
    rfl
  | cons d a ih =>
    rw [List.mem_cons, not_or] at hc
    have hnot : ¬ c :: pat <+: d :: (a ++ b) := by
      rintro ⟨rest, hrest⟩
      exact hc.1 (List.cons.inj hrest).1
    rw [List.cons_append, findStr, if_neg hnot, ih hc.2]
    rfl

/-- **A boundary behind the exact type is cut off**, with all that follows it. -/
theorem resolveContentType_boundary {contentType : CStr} {b : Str}
    (h : contentType.val = multipart ++ (bdef ++ b)) :
    resolveContentType (some contentType) = (multipart, b) := by
  have hfind : findStr bdef contentType.val = some multipart.length := by
    rw [h]
    exact findStr_append (by decide) (List.prefix_append bdef b)
  have htake : contentType.val.take multipart.length = multipart := by rw [h, List.take_left]
  have hdrop : contentType.val.drop (multipart.length + bdef.length) = b := by
    rw [h, ← List.append_assoc, ← List.length_append, List.drop_left]
  rw [resolveContentType, hfind]
  dsimp only
  rw [htake, hdrop, if_pos rfl]

/-- **Any other header is left as it is.** -/
theorem resolveContentType_of_ne {contentType : CStr}
    (h : ∀ b, contentType.val ≠ multipart ++ (bdef ++ b)) :
    resolveContentType (some contentType) = (contentType.val, []) := by
  rw [resolveContentType]
  split
  · rfl
  · next p hfind =>
    refine if_neg fun htake => ?_
    obtain ⟨b, hb⟩ := prefix_drop_of_findStr hfind
    apply h b
    rw [hb, ← htake, List.take_append_drop]

/-! ### Headers -/

/-- What a list of parameters is written as. -/
def renderParams (params : List (Str × Str)) : Str :=
  params.flatMap fun p => literal "; " ++ (p.1 ++ byteOf '=' :: p.2)

/-- The name of the boundary parameter. -/
def boundaryName : Str := literal "boundary"

theorem bdef_eq (b : Str) : bdef ++ b = literal "; " ++ (boundaryName ++ byteOf '=' :: b) := rfl

theorem renderParams_cons (p : Str × Str) (params : List (Str × Str)) :
    renderParams (p :: params)
      = literal "; " ++ (p.1 ++ byteOf '=' :: p.2) ++ renderParams params :=
  List.flatMap_cons

theorem renderParams_eq_nil_iff {params : List (Str × Str)} :
    renderParams params = [] ↔ params = [] := by
  cases params with
  | nil => exact iff_of_true rfl rfl
  | cons p params =>
    rw [renderParams_cons]
    exact iff_of_false (fun h => absurd h (by simp [literal])) (by simp)

/-- Names end at the first `=`. -/
theorem name_inj {n n' v v' : Str} (hn : byteOf '=' ∉ n) (hn' : byteOf '=' ∉ n')
    (h : n ++ byteOf '=' :: v = n' ++ byteOf '=' :: v') : n = n' ∧ v = v' := by
  induction n generalizing n' with
  | nil =>
    cases n' with
    | nil => exact ⟨rfl, (List.cons.inj h).2⟩
    | cons c' n' =>
      rw [(List.cons.inj h).1] at hn'
      exact absurd List.mem_cons_self hn'
  | cons c n ih =>
    cases n' with
    | nil =>
      rw [← (List.cons.inj h).1] at hn
      exact absurd List.mem_cons_self hn
    | cons c' n' =>
      obtain ⟨rfl, hrest⟩ := List.cons.inj h
      rw [List.mem_cons, not_or] at hn hn'
      obtain ⟨rfl, rfl⟩ := ih hn.2 hn'.2 hrest
      exact ⟨rfl, rfl⟩

/-- **Parameters that begin with a boundary**: the rest of the header is its value and
the other parameters. -/
theorem renderParams_eq_bdef {params : List (Str × Str)} {b : Str}
    (hnames : ∀ p ∈ params, byteOf '=' ∉ p.1) (h : renderParams params = bdef ++ b) :
    ∃ v more, params = (boundaryName, v) :: more ∧ b = v ++ renderParams more := by
  cases params with
  | nil => exact absurd h (by simp [renderParams, bdef, literal])
  | cons p more =>
    rw [renderParams_cons, bdef_eq, List.append_assoc, List.append_assoc, List.cons_append] at h
    obtain ⟨hname, hvalue⟩ := name_inj (hnames p List.mem_cons_self) (by decide)
      (List.append_cancel_left h)
    refine ⟨p.2, more, ?_, hvalue.symm⟩
    rw [← hname]

theorem length_eq_of_sameFold {s t : Str} (h : sameFold s t = true) : s.length = t.length := by
  have hmap := congrArg List.length (beq_iff_eq.mp h)
  rwa [List.length_map, List.length_map] at hmap

/-- A header is a media type alone only without parameters. -/
theorem append_renderParams_eq_iff {mt t : Str} (h : sameFold mt t = true)
    {params : List (Str × Str)} : mt ++ renderParams params = t ↔ mt = t ∧ params = [] := by
  constructor
  · intro heq
    rw [← List.append_nil t] at heq
    obtain ⟨hmt, hparams⟩ := List.append_inj heq (length_eq_of_sameFold h)
    exact ⟨hmt, renderParams_eq_nil_iff.mp hparams⟩
  · rintro ⟨rfl, rfl⟩
    exact List.append_nil _

/-- Types with different first letters, in any case, do not begin the same header. -/
theorem append_ne_of_sameFold {mt t u : Str} (h : sameFold mt t = true) (ht : t.map toLower ≠ [])
    (hu : u.map toLower ≠ []) (hhead : (t.map toLower).head? ≠ (u.map toLower).head?)
    (s s' : Str) : mt ++ s ≠ u ++ s' := by
  intro heq
  have hlower := congrArg (fun l => (l.map toLower).head?) heq
  rw [List.map_append, List.map_append, beq_iff_eq.mp h, List.head?_append_of_ne_nil _ ht,
    List.head?_append_of_ne_nil _ hu] at hlower
  exact hhead hlower

/-- A form's type in any case does not begin like the type of form data. -/
theorem ne_multipart_of_sameFold {mt : Str} (h : sameFold mt urlEncoded = true) (s t : Str) :
    mt ++ s ≠ multipart ++ t :=
  append_ne_of_sameFold h (by decide) (by decide) (by decide) s t

/-- A form's type is not the type of form data, in any case. -/
theorem ne_urlEncoded_of_sameFold {mt : Str} (h : sameFold mt multipart = true) (s : Str) :
    mt ++ s ≠ urlEncoded := by
  have hne := append_ne_of_sameFold h (u := urlEncoded) (by decide) (by decide) (by decide) s []
  rwa [List.append_nil] at hne

/-! ### The choice -/

/-- **The media type alone decides**, in any case and whatever its parameters: a form is
decoded, and of form data with a boundary the body is kept and the boundary set. -/
structure ChosenByMediaType (r : Request) (body mt : Str) (params : List (Str × Str)) : Prop where
  form : sameFold mt urlEncoded = true → ∀ mem, ∃ e, construct mem r = .ok (some e) ∧
    e.env_ = (decode mem.uninit (cStr body) (Parse.start [])).parse.env_
  formData : sameFold mt multipart = true → boundaryName ∈ params.map Prod.fst →
    ∀ mem, ∃ e, construct mem r = .ok (some e) ∧ e.formData.Holds body ∧
      e.formDataLength = body.length ∧ ∀ v, (boundaryName, v) ∈ params → e.boundary = v

/-- The header is one the constructor understands: for a form, the type in lower case
without parameters, unless the body gives no key anyhow; for form data with a boundary,
the type in lower case with no other parameter. -/
def TypeUnderstood (body mt : Str) (params : List (Str × Str)) : Prop :=
  (sameFold mt urlEncoded = true →
    (mt = urlEncoded ∧ params = []) ∨ givesKey false (cStr body).val = false) ∧
  (sameFold mt multipart = true → boundaryName ∈ params.map Prod.fst →
    mt = multipart ∧ ∃ v, params = [(boundaryName, v)])

section

variable {r : Request} {body mt : Str} {params : List (Str × Str)} {sbuf : Buffer}

/-- A header that is neither of the types leaves the object as it starts. -/
theorem construct_of_neither (mem : Storage) (hr : r.hasBody = true)
    (hread : readBody r.contentLength r.body = .ok (some (sbuf, body.length)))
    {contentType : CStr} (htype : r.contentType = some contentType)
    (hcut : ∀ b, contentType.val ≠ multipart ++ (bdef ++ b)) (hform : contentType.val ≠ urlEncoded)
    (hdata : contentType.val ≠ multipart) :
    construct mem r = .ok (some (RequestEnv.start mem r)) := by
  have hresolve : resolveContentType r.contentType = (contentType.val, []) := by
    rw [htype]
    exact resolveContentType_of_ne hcut
  exact construct_other mem hr hread (by rw [hresolve]; exact hform) (by rw [hresolve]; exact hdata)

/-- Which forms are decoded. -/
theorem form_iff (hr : r.hasBody = true)
    (hread : readBody r.contentLength r.body = .ok (some (sbuf, body.length)))
    (hsbuf : sbuf.Holds body)
    (hheader : r.contentType.map Subtype.val = some (mt ++ renderParams params))
    (hmt : sameFold mt urlEncoded = true) :
    (∀ mem, ∃ e, construct mem r = .ok (some e) ∧
      e.env_ = (decode mem.uninit (cStr body) (Parse.start [])).parse.env_) ↔
    (mt = urlEncoded ∧ params = []) ∨ givesKey false (cStr body).val = false := by
  obtain ⟨contentType, htype, hval⟩ := Option.map_eq_some_iff.mp hheader
  have hcut (t : Str) : contentType.val ≠ multipart ++ t := hval ▸ ne_multipart_of_sameFold hmt _ t
  have hexact : contentType.val = urlEncoded ↔ mt = urlEncoded ∧ params = [] := by
    rw [hval]
    exact append_renderParams_eq_iff hmt
  by_cases hform : contentType.val = urlEncoded
  · refine iff_of_true (fun mem => ⟨_, construct_form mem hr hread hsbuf ?_, rfl⟩)
      (Or.inl (hexact.mp hform))
    rw [htype, resolveContentType_of_ne fun b => hcut (bdef ++ b)]
    exact hform
  · have hconstruct (mem : Storage) : construct mem r = .ok (some (RequestEnv.start mem r)) := by
      refine construct_of_neither mem hr hread htype (fun b => hcut (bdef ++ b)) hform ?_
      rw [← List.append_nil multipart]
      exact hcut []
    rw [← hexact, or_iff_right hform]
    constructor
    · intro h
      obtain ⟨e, he, henv⟩ := h ⟨false, fun _ => 0, fun _ => []⟩
      rw [hconstruct, Except.ok.injEq, Option.some.injEq] at he
      rw [← he] at henv
      exact (env_decode_eq_nil_iff _ _).mp henv.symm
    · intro h mem
      exact ⟨_, hconstruct mem, ((env_decode_eq_nil_iff _ _).mpr h).symm⟩

/-- Which form data is kept with its boundary. -/
theorem formData_iff (hr : r.hasBody = true)
    (hread : readBody r.contentLength r.body = .ok (some (sbuf, body.length)))
    (hsbuf : sbuf.Holds body)
    (hheader : r.contentType.map Subtype.val = some (mt ++ renderParams params))
    (hnames : ∀ p ∈ params, byteOf '=' ∉ p.1) (hmt : sameFold mt multipart = true)
    (hboundary : boundaryName ∈ params.map Prod.fst) :
    (∀ mem, ∃ e, construct mem r = .ok (some e) ∧ e.formData.Holds body ∧
      e.formDataLength = body.length ∧ ∀ v, (boundaryName, v) ∈ params → e.boundary = v) ↔
    mt = multipart ∧ ∃ v, params = [(boundaryName, v)] := by
  obtain ⟨contentType, htype, hval⟩ := Option.map_eq_some_iff.mp hheader
  constructor
  · intro h
    by_cases hcut : ∃ b, contentType.val = multipart ++ (bdef ++ b)
    · obtain ⟨b, hb⟩ := hcut
      obtain ⟨hmt', hparams⟩ := List.append_inj (hval.symm.trans hb) (length_eq_of_sameFold hmt)
      obtain ⟨v, more, rfl, rfl⟩ := renderParams_eq_bdef hnames hparams
      -- the boundary is what follows the first name, and has to be its value
      obtain ⟨e, he, -, -, hv⟩ := h ⟨false, fun _ => 0, fun _ => []⟩
      rw [construct_formData _ hr hread (htype ▸ resolveContentType_boundary hb),
        Except.ok.injEq, Option.some.injEq] at he
      have hvalue := hv v List.mem_cons_self
      rw [← he] at hvalue
      have hmore : more = [] := renderParams_eq_nil_iff.mp (List.append_right_eq_self.mp hvalue)
      exact ⟨hmt', v, by rw [hmore]⟩
    · -- the header is neither of the types, and the body is dropped
      exfalso
      have hdata : contentType.val ≠ multipart := by
        intro heq
        rw [hval] at heq
        rw [((append_renderParams_eq_iff hmt).mp heq).2] at hboundary
        exact absurd hboundary List.not_mem_nil
      obtain ⟨e, he, ⟨cells, hcells, -⟩, -⟩ := h ⟨false, fun _ => 0, fun _ => []⟩
      rw [construct_of_neither _ hr hread htype (not_exists.mp hcut)
        (hval ▸ ne_urlEncoded_of_sameFold hmt _) hdata, Except.ok.injEq, Option.some.injEq] at he
      rw [← he] at hcells
      exact absurd hcells (by simp [RequestEnv.start])
  · rintro ⟨rfl, v, rfl⟩ mem
    have hb : contentType.val = multipart ++ (bdef ++ v) := by
      rw [hval, renderParams_cons, bdef_eq]
      simp [renderParams, boundaryName]
    refine ⟨_, construct_formData mem hr hread (htype ▸ resolveContentType_boundary hb), hsbuf, rfl,
      ?_⟩
    intro v' hmem
    rw [List.mem_singleton, Prod.mk.injEq] at hmem
    exact hmem.2.symm

end

/-- **The media type alone decides exactly for the headers that are understood**, of a
POST or PUT request with a body that is not empty and can be read. -/
theorem chosen_by_media_type_iff (r : Request) (body : Str) (rest : List ClientBlock) (mt : Str)
    (params : List (Str × Str)) (hr : r.hasBody = true) (h : r.Delivers body rest)
    (hfits : Fits r.contentLength body) (hne : body ≠ [])
    (hheader : r.contentType.map Subtype.val = some (mt ++ renderParams params))
    (hnames : ∀ p ∈ params, byteOf '=' ∉ p.1) :
    ChosenByMediaType r body mt params ↔ TypeUnderstood body mt params := by
  obtain ⟨sbuf, hread, hsbuf⟩ := readBody_of_fits h hfits
  rw [if_neg fun hand => hne hand.2] at hsbuf
  constructor
  · intro hchosen
    exact ⟨fun hmt => (form_iff hr hread hsbuf hheader hmt).mp (hchosen.form hmt),
      fun hmt hboundary => (formData_iff hr hread hsbuf hheader hnames hmt hboundary).mp
        (hchosen.formData hmt hboundary)⟩
  · rintro ⟨hform, hdata⟩
    exact ⟨fun hmt => (form_iff hr hread hsbuf hheader hmt).mpr (hform hmt),
      fun hmt hboundary => (formData_iff hr hread hsbuf hheader hnames hmt hboundary).mpr
        (hdata hmt hboundary)⟩

/-- Form data with the boundary `b`. -/
theorem chosen_by_media_type_iff_boundary :
    ChosenByMediaType ⟨mPost, none,
      [(cStr (literal "Content-Type"), cStr (literal "multipart/form-data; boundary=b"))],
      [.data (literal "--b--"), .data []]⟩ (literal "--b--") multipart
        [(boundaryName, literal "b")] :=
  (chosen_by_media_type_iff ⟨mPost, none,
    [(cStr (literal "Content-Type"), cStr (literal "multipart/form-data; boundary=b"))],
    [.data (literal "--b--"), .data []]⟩ (literal "--b--") [] multipart
      [(boundaryName, literal "b")] (by decide)
      ⟨[literal "--b--"], by decide, by decide, fun _ => by decide, rfl⟩ (by decide +kernel)
      (by decide) (by decide +kernel) (by decide)).mpr
    ⟨fun hmt => absurd hmt (by decide), fun _ _ => ⟨rfl, _, rfl⟩⟩

/-- A form `a=b` of the type `application/x-www-form-urlencoded; charset=UTF-8`: the body
is dropped. -/
theorem not_chosenByMediaType_charset :
    ¬ ChosenByMediaType ⟨mPost, none, [(cStr (literal "Content-Type"),
      cStr (literal "application/x-www-form-urlencoded; charset=UTF-8"))],
      [.data (literal "a=b"), .data []]⟩ (literal "a=b") urlEncoded
        [(literal "charset", literal "UTF-8")] := by
  intro h
  have hdelivers : Request.Delivers ⟨mPost, none, [(cStr (literal "Content-Type"),
      cStr (literal "application/x-www-form-urlencoded; charset=UTF-8"))],
      [.data (literal "a=b"), .data []]⟩ (literal "a=b") [] :=
    ⟨[literal "a=b"], by decide, by decide, fun _ => by decide, rfl⟩
  obtain ⟨sbuf, hread, hsbuf⟩ := readBody_of_fits hdelivers (by decide +kernel)
  rw [if_neg (by decide)] at hsbuf
  have hheader : (some (cStr (literal "application/x-www-form-urlencoded; charset=UTF-8"))).map
      Subtype.val = some (urlEncoded ++ renderParams [(literal "charset", literal "UTF-8")]) := by
    decide +kernel
  have hkey := (form_iff rfl hread hsbuf hheader (by decide)).mp (h.form (by decide))
  exact absurd hkey (by decide)

end ModCplusplus
