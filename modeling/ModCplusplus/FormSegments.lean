import ModCplusplus.FormText

/-!
# Segments of a form

At a `&` the parser ought to switch to a new name.  It stores the value it has read,
but it keeps the current entry, and with no entry it keeps the text as well; so what
stands behind a `&` is not parsed as it would be alone.  What is lost depends on how
the segment before ends, whether it has named a key, and on how the next begins, with
a text that is a key or with one that is a value.

## Main definitions

* `leadDelims`, `body`, `firstText`, `afterText` — the delimiters a string begins with,
  what follows them, and the text in front of it.
* `namesKey`, `beginsWithKey` — a string gives a name to some entry; its first text is
  a name.
* `Separate` — two segments do not affect each other.

## Main results

* `decodeBytes_body`, `decodeBytes_noKey` — what leaves the parser without an entry.
* `segments_independent_iff` — when segments are parsed independently.
-/

namespace ModCplusplus

/-! ### How a string begins -/

/-- The delimiters a string begins with. -/
def leadDelims (s : Str) : Str := s.takeWhile isDelim

/-- What follows them. -/
def body (s : Str) : Str := s.dropWhile isDelim

/-- The first text of a string. -/
def firstText (s : Str) : Str := (body s).takeWhile fun c => !isDelim c

/-- What follows the first text: nothing, or a delimiter and what is behind it. -/
def afterText (s : Str) : Str := (body s).dropWhile fun c => !isDelim c

/-- Some text is ended by a `=`. -/
def namesKey (s : Str) : Bool := (body s).contains (byteOf '=')

/-- The first text is ended by a `=`. -/
def beginsWithKey (s : Str) : Bool := (afterText s).head? == some (byteOf '=')

/-- What the parser has collected of a string in which no text is ended by a `=`. -/
def looseText (s : Str) : Str := resolve ((body s).filter fun c => c ≠ byteOf '&')

/-- **Two segments do not affect each other.**  When the first names a key, the second
begins with a key, if it has any text.  When the first has a text but names no key,
either the second has no `=`, or it begins with one and then with a key that is the
same text. -/
def Separate (s t : Str) : Prop :=
  if namesKey s then body t = [] ∨ beginsWithKey t
  else body s = [] ∨ byteOf '=' ∉ t ∨
    (byteOf '=' ∈ leadDelims t ∧ beginsWithKey t ∧ resolve (firstText t) = looseText s)

instance (s t : Str) : Decidable (Separate s t) := by
  unfold Separate
  infer_instance

theorem leadDelims_append_body (s : Str) : leadDelims s ++ body s = s :=
  List.takeWhile_append_dropWhile

theorem firstText_append_afterText (s : Str) : firstText s ++ afterText s = body s :=
  List.takeWhile_append_dropWhile

theorem isDelim_of_mem_leadDelims {s : Str} : ∀ c ∈ leadDelims s, isDelim c = true :=
  fun _ hc => List.mem_takeWhile_imp hc

theorem not_isDelim_of_mem_firstText {s : Str} : ∀ c ∈ firstText s, isDelim c = false :=
  fun _ hc => by simpa using List.mem_takeWhile_imp hc

/-- The body of a string does not begin with a delimiter. -/
theorem body_cases (s : Str) : body s = [] ∨ ∃ c rest, body s = c :: rest ∧ isDelim c = false := by
  cases h : body s with
  | nil => exact Or.inl rfl
  | cons c rest =>
    have hhead := List.head?_dropWhile_not isDelim s
    rw [show s.dropWhile isDelim = c :: rest from h] at hhead
    exact Or.inr ⟨c, rest, rfl, by simpa using hhead⟩

/-- A body that is not empty begins with a text. -/
theorem firstText_ne_nil {s : Str} (h : body s ≠ []) : firstText s ≠ [] := by
  rcases body_cases s with hnil | ⟨c, rest, hbody, hc⟩
  · exact absurd hnil h
  · rw [firstText, hbody, List.takeWhile_cons_of_pos (by simpa using hc)]
    exact List.cons_ne_nil _ _

/-- What follows the first text begins with a delimiter. -/
theorem afterText_cases (s : Str) :
    afterText s = [] ∨ (∃ rest, afterText s = byteOf '=' :: rest) ∨
      ∃ rest, afterText s = byteOf '&' :: rest := by
  cases h : afterText s with
  | nil => exact Or.inl rfl
  | cons c rest =>
    right
    have hhead := List.head?_dropWhile_not (fun c => !isDelim c) (body s)
    rw [show (body s).dropWhile (fun c => !isDelim c) = c :: rest from h] at hhead
    have hc : isDelim c = true := by simpa using hhead
    rw [isDelim, Bool.or_eq_true, beq_iff_eq, beq_iff_eq] at hc
    rcases hc with rfl | rfl
    · exact Or.inl ⟨rest, rfl⟩
    · exact Or.inr ⟨rest, rfl⟩

theorem Whole.of_delims {d rest : Str} (hd : ∀ c ∈ d, isDelim c = true) (h : Whole (d ++ rest)) :
    Whole rest := by
  induction d with
  | nil => exact h
  | cons c d ih =>
    rw [List.cons_append] at h
    exact ih (fun c hc => hd c (List.mem_cons_of_mem _ hc))
      (Whole.split (a := []) (hd c List.mem_cons_self) h).2

theorem Whole.body {s : Str} (h : Whole s) : Whole (body s) := by
  rw [← leadDelims_append_body s] at h
  exact h.of_delims isDelim_of_mem_leadDelims

theorem Whole.firstText {s : Str} (h : Whole s) : Whole (firstText s) := by
  have hbody := h.body
  rw [← firstText_append_afterText s] at hbody
  rcases afterText_cases s with hafter | ⟨rest, hafter⟩ | ⟨rest, hafter⟩
  · rwa [hafter, List.append_nil] at hbody
  · rw [hafter] at hbody
    exact (hbody.split isDelim_equals).1
  · rw [hafter] at hbody
    exact (hbody.split isDelim_ampersand).1

/-- What stands in front of the first `=` of a string. -/
theorem Whole.beforeKey {s : Str} (h : Whole s) (hmem : byteOf '=' ∈ s) :
    ∃ g rest, s = g ++ byteOf '=' :: rest ∧ byteOf '=' ∉ g ∧ Whole g := by
  obtain ⟨g, rest, rfl, hg⟩ := List.eq_append_cons_of_mem hmem
  exact ⟨g, rest, rfl, hg, (h.split isDelim_equals).1⟩

theorem ne_ampersand_of_isHex {c : UInt8} (h : isHex c = true) : c ≠ byteOf '&' := by
  rintro rfl
  rw [not_isHex_of_isDelim isDelim_ampersand] at h
  exact Bool.noConfusion h

/-- An escape is kept whole when the `&` are left out. -/
theorem filter_escape {h l : UInt8} (hh : isHex h = true) (hl : isHex l = true) (s : Str) :
    (byteOf '%' :: h :: l :: s).filter (fun c => c ≠ byteOf '&')
      = byteOf '%' :: h :: l :: s.filter fun c => c ≠ byteOf '&' := by
  rw [List.filter_cons_of_pos rfl,
    List.filter_cons_of_pos (by simpa using ne_ampersand_of_isHex hh),
    List.filter_cons_of_pos (by simpa using ne_ampersand_of_isHex hl)]

/-! ### Runs without an entry -/

/-- Decoding a whole string and then the rest. -/
theorem Whole.decodeBytes_append {s : Str} (h : Whole s) (rest : Str) (p : Parse) :
    decodeBytes (s ++ rest) p = decodeBytes rest (decodeBytes s p) := by
  induction h generalizing p with
  | nil => rfl
  | escape _ _ _ ih =>
    rw [List.cons_append, List.cons_append, List.cons_append, decodeBytes_escape,
      decodeBytes_escape, ih]
  | plain hc _ ih =>
    rw [List.cons_append, decodeBytes_cons_of_ne hc, decodeBytes_cons_of_ne hc, ih]

/-- A delimiter does nothing without a text. -/
theorem Parse.char_of_isDelim {c : UInt8} (h : isDelim c = true) {p : Parse} (hp : p.pStr = []) :
    p.char c = p := by
  rw [isDelim, Bool.or_eq_true, beq_iff_eq, beq_iff_eq] at h
  rcases h with rfl | rfl
  · exact Parse.endKey_of_nil hp
  · exact Parse.endValue_of_nil hp

theorem decodeBytes_delims {d : Str} (hd : ∀ c ∈ d, isDelim c = true) (rest : Str) (o : Option ℕ)
    (env_ : List EnvValue) :
    decodeBytes (d ++ rest) ⟨[], o, env_⟩ = decodeBytes rest ⟨[], o, env_⟩ := by
  induction d with
  | nil => rfl
  | cons c d ih =>
    have hc := hd c List.mem_cons_self
    rw [List.cons_append, decodeBytes_cons_of_ne (ne_percent_of_isDelim hc),
      Parse.char_of_isDelim hc rfl, ih fun c hc => hd c (List.mem_cons_of_mem _ hc)]

/-- **The delimiters a string begins with do nothing.** -/
theorem decodeBytes_body (s : Str) (o : Option ℕ) (env_ : List EnvValue) :
    decodeBytes s ⟨[], o, env_⟩ = decodeBytes (body s) ⟨[], o, env_⟩ := by
  rw [← decodeBytes_delims isDelim_of_mem_leadDelims (body s), leadDelims_append_body]

/-- **Without an entry, the text goes on over every `&`.** -/
theorem decodeBytes_noKey {g : Str} (hw : Whole g) (hg : byteOf '=' ∉ g) (rest z : Str)
    (env_ : List EnvValue) :
    decodeBytes (g ++ rest) ⟨z, none, env_⟩
      = decodeBytes rest ⟨z ++ resolve (g.filter fun c => c ≠ byteOf '&'), none, env_⟩ := by
  induction hw generalizing z with
  | nil => simp [resolve]
  | @escape h l tail hh hl _ ih =>
    rw [List.cons_append, List.cons_append, List.cons_append, decodeBytes_escape,
      toChar_strtol_eq_hexByte hh hl, filter_escape hh hl, resolve_escape, Parse.push,
      ih (fun hmem => hg (by simp [hmem])), List.append_assoc, List.singleton_append]
  | @plain c tail hc _ ih =>
    have hrest : byteOf '=' ∉ tail := fun hmem => hg (List.mem_cons_of_mem c hmem)
    have hne : c ≠ byteOf '=' := fun heq => hg (heq ▸ List.mem_cons_self)
    rw [List.cons_append, decodeBytes_cons_of_ne hc]
    by_cases hamp : c = byteOf '&'
    · have hkeep : Parse.char c ⟨z, none, env_⟩ = ⟨z, none, env_⟩ := by
        rw [Parse.char, if_neg hne, if_pos hamp]
        rfl
      rw [hkeep, ih hrest, List.filter_cons_of_neg (by simpa using hamp)]
    · have hpush := Parse.char_of_not_isDelim (c := c) (by simp [isDelim, hne, hamp])
        ⟨z, none, env_⟩
      rw [hpush, Parse.push, ih hrest, List.filter_cons_of_pos (by simpa using hamp),
        resolve_plain hc, List.append_assoc, List.singleton_append]

theorem Whole.filter {g : Str} (h : Whole g) : Whole (g.filter fun c => c ≠ byteOf '&') := by
  induction h with
  | nil => exact .nil
  | @escape h l tail hh hl _ ih =>
    rw [filter_escape hh hl]
    exact .escape hh hl ih
  | @plain c tail hc _ ih =>
    rw [List.filter_cons]
    split
    · exact .plain hc ih
    · exact ih

/-- What a string that does not begin with a delimiter leaves as text is not empty. -/
theorem resolve_filter_ne_nil {c : UInt8} {g : Str} (h : Whole (c :: g)) (hc : isDelim c = false) :
    resolve ((c :: g).filter fun c => c ≠ byteOf '&') ≠ [] := by
  apply h.filter.resolve_ne_nil
  rw [List.filter_cons_of_pos]
  · exact List.cons_ne_nil _ _
  · rw [isDelim, Bool.or_eq_false_iff, beq_eq_false_iff_ne, beq_eq_false_iff_ne] at hc
    simpa using hc.2

/-- **The first key**, where the first text that a `=` ends stands behind some `&`. -/
theorem decodeBytes_firstKey {g : Str} (hw : Whole g) (hg : byteOf '=' ∉ g) (rest z : Str)
    (hz : z ++ resolve (g.filter fun c => c ≠ byteOf '&') ≠ []) :
    decodeBytes (g ++ byteOf '=' :: rest) ⟨z, none, []⟩ = decodeBytes rest
      ⟨[], some 0, [⟨z ++ resolve (g.filter fun c => c ≠ byteOf '&'), []⟩]⟩ := by
  rw [decodeBytes_noKey hw hg, decodeBytes_equals, Parse.endKey_eq hz]
  rfl

/-! ### How a segment ends -/

theorem looseText_eq_nil_iff {s : Str} (h : Whole s) : looseText s = [] ↔ body s = [] := by
  constructor
  · intro hloose
    rcases body_cases s with hnil | ⟨c, rest, hbody, hc⟩
    · exact hnil
    · rw [looseText, hbody] at hloose
      exact absurd hloose (resolve_filter_ne_nil (hbody ▸ h.body) hc)
  · intro hbody
    rw [looseText, hbody]
    rfl

/-- A segment that names no key leaves its text. -/
theorem decodeBytes_of_not_namesKey {s : Str} (h : Whole s) (hs : namesKey s = false) :
    decodeBytes s (Parse.start []) = ⟨looseText s, none, []⟩ := by
  have hnot : byteOf '=' ∉ body s := by simpa [namesKey] using hs
  have hrun := decodeBytes_noKey h.body hnot [] [] []
  rw [List.append_nil, List.nil_append, decodeBytes_nil] at hrun
  rw [Parse.start, decodeBytes_body, hrun, looseText]

/-- A segment that names a key leaves an entry and no text. -/
theorem endValue_of_namesKey {s : Str} (h : Whole s) (hs : namesKey s = true) :
    ∃ i env_, (decodeBytes s (Parse.start [])).endValue = ⟨[], some i, env_⟩ ∧
      i < env_.length := by
  have hmem : byteOf '=' ∈ body s := by simpa [namesKey] using hs
  obtain ⟨g, rest, hsplit, hg, hg'⟩ := h.body.beforeKey hmem
  have hne : resolve (g.filter fun c => c ≠ byteOf '&') ≠ [] := by
    rcases body_cases s with hnil | ⟨c, tail, hbody, hc⟩
    · rw [hnil] at hsplit
      exact absurd hsplit.symm (by simp)
    · cases g with
      | nil =>
        rw [hbody] at hsplit
        rw [(List.cons.inj hsplit).1, isDelim_equals] at hc
        exact Bool.noConfusion hc
      | cons c' g =>
        rw [hbody] at hsplit
        obtain ⟨rfl, -⟩ := List.cons.inj hsplit
        exact resolve_filter_ne_nil hg' hc
  -- from the first key on there is an entry
  have hstart : (Parse.start []).Valid := by rintro i ⟨⟩
  obtain ⟨ts, hts⟩ := exists_run_eq s
  obtain ⟨ts', hts'⟩ := exists_run_eq rest
  have hvalid : (decodeBytes s (Parse.start [])).endValue.Valid := by
    rw [hts]
    exact (hstart.run ts).step .endValue
  have hcurrent : (decodeBytes s (Parse.start [])).pEnv.isSome := by
    rw [Parse.start, decodeBytes_body, hsplit, decodeBytes_firstKey hg' hg rest [] hne, hts']
    exact pEnv_isSome_run ts' rfl
  obtain ⟨i, hi⟩ := Option.isSome_iff_exists.mp
    (pEnv_isSome_step .endValue hcurrent : (decodeBytes s (Parse.start [])).endValue.pEnv.isSome)
  refine ⟨i, (decodeBytes s (Parse.start [])).endValue.env_, ?_, hvalid i hi⟩
  rw [← hi, ← Parse.pStr_endValue hcurrent]
  rfl

/-! ### How the next segment begins -/

/-- The first text of a segment is collected. -/
theorem decodeBytes_firstText {t : Str} (h : Whole t) (p : Parse) :
    decodeBytes (body t) p
      = decodeBytes (afterText t) { p with pStr := p.pStr ++ resolve (firstText t) } := by
  rw [← firstText_append_afterText t,
    decodeBytes_resolve h.firstText not_isDelim_of_mem_firstText]

/-- A run that has just stored a value is ahead of one without an entry. -/
theorem ahead_of_value {i : ℕ} {env_ : List EnvValue} (hi : i < env_.length) (y z : Str) :
    Parse.Ahead ⟨[], some i, Multimap.addAt i y env_⟩ ⟨z, none, env_⟩ where
  current := rfl
  valid := by
    rintro j ⟨⟩
    simpa using hi
  valid' := nofun
  stored := by
    rw [Parse.stored, Parse.stored, Multimap.weight_addAt _ _ hi]
    exact Nat.lt_succ_self _
  same := Or.inl rfl

/-- **Behind a segment that has named a key**, the next must begin with one. -/
theorem finish_behind_key_iff {t : Str} (h : Whole t) {i : ℕ} {env_ : List EnvValue}
    (hi : i < env_.length) :
    (decodeBytes t ⟨[], some i, env_⟩).finish.env_ = (decodeBytes t ⟨[], none, env_⟩).finish.env_ ↔
      body t = [] ∨ beginsWithKey t = true := by
  rw [decodeBytes_body t (some i), decodeBytes_body t none]
  by_cases hbody : body t = []
  · rw [hbody]
    exact iff_of_true rfl (Or.inl rfl)
  have hy := h.firstText.resolve_ne_nil (firstText_ne_nil hbody)
  rw [decodeBytes_firstText h, decodeBytes_firstText h, List.nil_append, beginsWithKey]
  rcases afterText_cases t with hafter | ⟨rest, hafter⟩ | ⟨rest, hafter⟩
  · -- the text is stored in one of the runs
    refine iff_of_false ?_ (by simp [hafter, hbody])
    rw [hafter, decodeBytes_nil, decodeBytes_nil, Parse.env_finish, Parse.env_finish,
      Parse.endValue_of_some rfl hy, Parse.endValue_of_none rfl]
    intro heq
    have hweight := Multimap.weight_addAt (fun _ => 1) (resolve (firstText t)) hi
    rw [show Multimap.addAt i (resolve (firstText t)) env_ = env_ from heq] at hweight
    omega
  · -- the text is a key, and replaces the entry
    refine iff_of_true ?_ (Or.inr (by simp [hafter]))
    rw [hafter, decodeBytes_equals, decodeBytes_equals, Parse.endKey_eq hy, Parse.endKey_eq hy]
  · -- the text is stored in one of the runs, and the other keeps it
    have hnot : ¬ (body t = [] ∨ ((afterText t).head? == some (byteOf '=')) = true) := by
      rw [hafter]
      exact not_or.mpr ⟨hbody, by rw [List.head?_cons]; decide⟩
    refine iff_of_false ?_ hnot
    rw [hafter, decodeBytes_ampersand, decodeBytes_ampersand, Parse.endValue_of_some rfl hy,
      Parse.endValue_of_none rfl]
    exact (ahead_of_value hi _ _).finish_ne rest

/-- Tables whose first keys differ stay different. -/
theorem finish_ne_of_firstKey {a b : Str} (hab : a ≠ b) {p q : Parse}
    (hp : [a] <+: Multimap.keys p.env_) (hq : [b] <+: Multimap.keys q.env_) (s t : Str) :
    (decodeBytes s p).finish.env_ ≠ (decodeBytes t q).finish.env_ := by
  obtain ⟨u, hu⟩ := hp.trans (keys_prefix_finish s p)
  obtain ⟨v, hv⟩ := hq.trans (keys_prefix_finish t q)
  intro heq
  rw [heq, ← hv] at hu
  exact hab (List.cons.inj hu).1

/-- A table with a key does not become empty. -/
theorem finish_ne_nil (s : Str) (i : ℕ) (e : EnvValue) :
    (decodeBytes s ⟨[], some i, [e]⟩).finish.env_ ≠ [] := by
  obtain ⟨u, hu⟩ := keys_prefix_finish s ⟨[], some i, [e]⟩
  intro heq
  rw [heq] at hu
  exact absurd hu (by simp [Multimap.keys])

/-- Behind a text that a leading `=` has made a key, the first text must be the same
key. -/
theorem finish_behind_lead_iff {t : Str} (h : Whole t) (x : Str) :
    (decodeBytes (body t) ⟨[], some 0, [⟨x, []⟩]⟩).finish.env_
        = (decodeBytes (body t) ⟨[], none, []⟩).finish.env_ ↔
      beginsWithKey t = true ∧ resolve (firstText t) = x := by
  have hx : [x] <+: Multimap.keys (Parse.env_ ⟨[], some 0, [⟨x, []⟩]⟩) := List.prefix_rfl
  rw [beginsWithKey]
  by_cases hbody : body t = []
  · have hafter : afterText t = [] := by rw [afterText, hbody]; rfl
    refine iff_of_false ?_ (by simp [hafter])
    rw [hbody, decodeBytes_nil ⟨[], none, []⟩]
    exact finish_ne_nil [] 0 _
  have hy := h.firstText.resolve_ne_nil (firstText_ne_nil hbody)
  rw [decodeBytes_firstText h ⟨[], none, []⟩, List.nil_append]
  rcases afterText_cases t with hafter | ⟨rest, hafter⟩ | ⟨rest, hafter⟩
  · refine iff_of_false ?_ (by simp [hafter])
    rw [hafter, decodeBytes_nil, Parse.env_finish ⟨resolve (firstText t), none, []⟩,
      Parse.endValue_of_none rfl]
    exact finish_ne_nil _ 0 _
  · rw [hafter, decodeBytes_equals, Parse.endKey_eq hy, List.head?_cons]
    by_cases hsame : resolve (firstText t) = x
    · refine iff_of_true ?_ ⟨by decide, hsame⟩
      rw [decodeBytes_firstText h, hafter, List.nil_append, decodeBytes_equals,
        Parse.endKey_eq hy, hsame]
      simp [Multimap.intern, Multimap.find]
    · refine iff_of_false ?_ fun hkey => hsame hkey.2
      exact finish_ne_of_firstKey (Ne.symm hsame) hx List.prefix_rfl _ _
  · refine iff_of_false ?_ fun hkey => ?_
    · rw [decodeBytes_firstText h, hafter, List.nil_append, decodeBytes_ampersand,
        decodeBytes_ampersand, Parse.endValue_of_some rfl hy, Parse.endValue_of_none rfl]
      apply Parse.Ahead.finish_ne
      refine ⟨rfl, ?_, ?_, Nat.one_pos, Or.inl rfl⟩
      · rintro j ⟨⟩
        exact Nat.one_pos
      · rintro j ⟨⟩
    · rw [hafter, List.head?_cons] at hkey
      exact absurd hkey.1 (by decide)

/-- Every `=` of a string whose first delimiters have none stands behind a text. -/
theorem resolve_ne_nil_of_firstKey {g rest : Str} (h : Whole g)
    (hlead : byteOf '=' ∉ leadDelims (g ++ byteOf '=' :: rest)) :
    resolve (g.filter fun c => c ≠ byteOf '&') ≠ [] := by
  apply h.filter.resolve_ne_nil
  intro hnil
  rw [List.filter_eq_nil_iff] at hnil
  have hall : ∀ c ∈ g, isDelim c = true := by
    intro c hc
    have hamp : c = byteOf '&' := by simpa using hnil c hc
    rw [hamp, isDelim_ampersand]
  rw [leadDelims, List.takeWhile_append_of_pos hall,
    List.takeWhile_cons_of_pos isDelim_equals] at hlead
  exact hlead (by simp)

/-- **Behind a segment that leaves a text and no key**, the next must have no key at
all, or make the text a key at once and then begin with the same one. -/
theorem finish_behind_text_iff {t : Str} (h : Whole t) {x : Str} (hx : x ≠ []) :
    (decodeBytes t ⟨x, none, []⟩).finish.env_ = (decodeBytes t ⟨[], none, []⟩).finish.env_ ↔
      byteOf '=' ∉ t ∨ (byteOf '=' ∈ leadDelims t ∧ beginsWithKey t = true ∧
        resolve (firstText t) = x) := by
  by_cases hkey : byteOf '=' ∈ t
  · rw [or_iff_right (not_not_intro hkey)]
    by_cases hlead : byteOf '=' ∈ leadDelims t
    · rw [and_iff_right hlead, ← finish_behind_lead_iff h x, ← decodeBytes_body t none]
      -- the text becomes a key at the first `=`
      obtain ⟨g, rest, hsplit, hg⟩ := List.eq_append_cons_of_mem hlead
      have hdelims : ∀ c ∈ g ++ byteOf '=' :: rest, isDelim c = true :=
        hsplit ▸ isDelim_of_mem_leadDelims
      have ht : t = g ++ byteOf '=' :: (rest ++ body t) := by
        rw [← List.cons_append, ← List.append_assoc, ← hsplit, leadDelims_append_body]
      have hg' : Whole g := (Whole.split isDelim_equals (ht ▸ h)).1
      have hfilter : (g.filter fun c => c ≠ byteOf '&') = [] := by
        rw [List.filter_eq_nil_iff]
        intro c hc
        have hdelim := hdelims c (List.mem_append_left _ hc)
        rw [isDelim, Bool.or_eq_true, beq_iff_eq, beq_iff_eq] at hdelim
        simpa using hdelim.resolve_left fun heq => hg (heq ▸ hc)
      have hrun := decodeBytes_firstKey hg' hg (rest ++ body t) x (by
        rw [hfilter]
        simpa [resolve] using hx)
      rw [← ht, hfilter, resolve, List.append_nil,
        decodeBytes_delims fun c hc => hdelims c (by simp [hc])] at hrun
      rw [hrun]
    · refine iff_of_false ?_ fun hcond => hlead hcond.1
      -- both runs begin with a key, and the one has the text in front of it
      obtain ⟨g, rest, rfl, hg, hg'⟩ := h.beforeKey hkey
      have hne := resolve_ne_nil_of_firstKey hg' hlead
      rw [decodeBytes_firstKey hg' hg rest x (by simp [hx]),
        decodeBytes_firstKey hg' hg rest [] hne]
      apply finish_ne_of_firstKey _ List.prefix_rfl List.prefix_rfl
      simpa using hx
  · refine iff_of_true ?_ (Or.inl hkey)
    have hnone : ∀ z, (decodeBytes t ⟨z, none, []⟩).finish.env_ = [] := by
      intro z
      have hrun := decodeBytes_noKey h hkey [] z []
      rw [List.append_nil, decodeBytes_nil] at hrun
      rw [hrun]
      rfl
    rw [hnone, hnone]

/-! ### Two segments -/

/-- `s&t`. -/
def joined (s t : CStr) : CStr :=
  ⟨s.val ++ byteOf '&' :: t.val, by
    rw [List.mem_append, List.mem_cons, not_or, not_or]
    exact ⟨s.property, by decide, t.property⟩⟩

/-- The table after both segments at once, and after one and then the other. -/
def SegmentsIndependent (mem : Uninit) (s t : CStr) : Prop :=
  (decode mem (joined s t) (Parse.start [])).parse.env_
    = (decode mem t (Parse.start (decode mem s (Parse.start [])).parse.env_)).parse.env_

instance (mem : Uninit) (s t : CStr) : Decidable (SegmentsIndependent mem s t) :=
  inferInstanceAs (Decidable (_ = _))

/-- **Segments are parsed independently exactly if they do not affect each other.** -/
theorem segments_independent_iff (mem : Uninit) (hmem : mem.ReadsTwo) (s t : CStr)
    (hs : EscapesWhole s.val) (ht : EscapesWhole t.val) :
    SegmentsIndependent mem s t ↔ Separate s.val t.val := by
  rw [SegmentsIndependent, decode_eq hmem, decode_eq hmem, decode_eq hmem, joined,
    hs.whole.decodeBytes_append, decodeBytes_ampersand, Parse.env_finish (decodeBytes s.val _),
    Separate]
  cases hkey : namesKey s.val with
  | true =>
    obtain ⟨i, env_, hend, hi⟩ := endValue_of_namesKey hs.whole hkey
    rw [hend, if_pos rfl]
    exact finish_behind_key_iff ht.whole hi
  | false =>
    have hend : (decodeBytes s.val (Parse.start [])).endValue = ⟨looseText s.val, none, []⟩ := by
      rw [decodeBytes_of_not_namesKey hs.whole hkey]
      exact Parse.endValue_of_none rfl
    rw [hend, if_neg (by simp)]
    by_cases hbody : body s.val = []
    · rw [(looseText_eq_nil_iff hs.whole).mpr hbody]
      exact iff_of_true rfl (Or.inl hbody)
    · rw [or_iff_right hbody]
      exact finish_behind_text_iff ht.whole fun h => hbody ((looseText_eq_nil_iff hs.whole).mp h)

/-- `a=b` and `c=d`. -/
theorem segments_independent_iff_pairs :
    SegmentsIndependent ⟨fun _ => 0, fun _ => []⟩ (cStr (literal "a=b")) (cStr (literal "c=d")) :=
  (segments_independent_iff ⟨fun _ => 0, fun _ => []⟩ (fun _ => rfl) (cStr (literal "a=b"))
    (cStr (literal "c=d")) (by decide) (by decide)).mpr (by decide)

/-- `a=b` and `c`: together, `c` is a second value of `a`. -/
theorem not_segmentsIndependent_value :
    (decode ⟨fun _ => 0, fun _ => []⟩ (joined (cStr (literal "a=b")) (cStr (literal "c")))
        (Parse.start [])).parse.env_ = [⟨literal "a", [literal "b", literal "c"]⟩] ∧
      ¬ SegmentsIndependent ⟨fun _ => 0, fun _ => []⟩ (cStr (literal "a=b"))
        (cStr (literal "c")) := by
  decide

end ModCplusplus
