import EnvoyWasmFilters.TransformationFilter.HeaderRewrite

/-!
# The order of the protobuf maps

The constructor of `InjaTransformer` iterates over two protobuf maps, in an order that is not
specified.  Two transformations with the same entries in different orders are `Reordered`.

* `new_reordered` — the constructor accepts both or neither;
* `rendersTo_reordered` — a template renders alike: it asks the extractions by name, and the names are
  different;
* `orderIndependent_iff` — exactly when all orders leave every header name with the same values.
-/

namespace EnvoyWasmFilters.TransformationFilter

open Inja StateExcept ElementwiseLists

variable {R J : Type} [StdRegex R] [NlohmannJson J]

/-- The same maps, visited in another order. -/
def Reordered (T T' : Transformation) : Prop :=
  T.extractors.entries.Perm T'.extractors.entries ∧ T.headers.entries.Perm T'.headers.entries

/-- The transformers built from the two orders hold the same extractors and the same templates. -/
theorem new_reordered {T T' : Transformation} {t : InjaTransformer R J} (h : Reordered T T')
    (hnew : InjaTransformer.new T = .ok t) :
    ∃ t', InjaTransformer.new T' = .ok t' ∧ t.extractors.Perm t'.extractors ∧
      t.headers.Perm t'.headers := by
  obtain ⟨hextractors, hheaders⟩ := InjaTransformer.new_eq_ok.mp hnew
  obtain ⟨extractors', hextractors', hperm⟩ := forall₂_perm h.1 hextractors
  obtain ⟨headers', hheaders', hperm'⟩ := forall₂_perm h.2 hheaders
  exact ⟨⟨extractors', headers'⟩, InjaTransformer.new_eq_ok.mpr ⟨hextractors', hheaders'⟩, hperm,
    hperm'⟩

/-! ### The extractions -/

section Extractions

variable {pairs : HeaderMap}

/-- **The map of extractions**, by induction on the extractors: under each extractor's name its value,
under other names what was there before. -/
theorem lookup_collectExtractions {extractors : List (Str × Extractor R)} {m m' : Dict Str}
    (hnodup : (extractors.map Prod.fst).Nodup)
    (h : collectExtractions pairs m extractors = .ok m') (name value : Str) :
    m'.lookup name = some value ↔
      (∃ x ∈ extractors, x.1 = name ∧ x.2.extract pairs = .ok value) ∨
        (name ∉ extractors.map Prod.fst ∧ m.lookup name = some value) := by
  induction extractors generalizing m with
  | nil =>
    obtain rfl : m = m' := pure_eq_ok.mp h
    simp
  | cons x extractors ih =>
    obtain ⟨v, hv, h⟩ := bind_eq_ok.mp h
    rw [List.map_cons, List.nodup_cons] at hnodup
    rw [ih hnodup.2 h, List.map_cons, List.mem_cons, not_or]
    by_cases hname : name = x.1
    · subst hname
      constructor
      · intro hleft
        rcases hleft with ⟨y, hy, hyname, -⟩ | ⟨-, hlook⟩
        · exact absurd (List.mem_map.mpr ⟨y, hy, hyname⟩) hnodup.1
        · rw [AList.lookup_insert] at hlook
          exact Or.inl ⟨x, List.mem_cons_self, rfl, by rw [hv, Option.some.inj hlook]⟩
      · intro hright
        rcases hright with ⟨y, hy, hyname, hvalue⟩ | ⟨⟨hne, -⟩, -⟩
        · rcases List.mem_cons.mp hy with rfl | hy
          · obtain rfl : v = value := Except.ok.inj (hv.symm.trans hvalue)
            exact Or.inr ⟨hnodup.1, AList.lookup_insert _⟩
          · exact absurd (List.mem_map.mpr ⟨y, hy, hyname⟩) hnodup.1
        · exact absurd rfl hne
    · rw [AList.lookup_insert_ne hname]
      constructor
      · intro hleft
        rcases hleft with ⟨y, hy, hyname, hvalue⟩ | ⟨hnot, hlook⟩
        · exact Or.inl ⟨y, List.mem_cons_of_mem x hy, hyname, hvalue⟩
        · exact Or.inr ⟨⟨hname, hnot⟩, hlook⟩
      · intro hright
        rcases hright with ⟨y, hy, hyname, hvalue⟩ | ⟨⟨-, hnot⟩, hlook⟩
        · rcases List.mem_cons.mp hy with rfl | hy
          · exact absurd hyname.symm hname
          · exact Or.inl ⟨y, hy, hyname, hvalue⟩
        · exact Or.inr ⟨hnot, hlook⟩

/-- The extractions are there exactly when every extractor returns. -/
theorem collectExtractions_isOk_iff {extractors : List (Str × Extractor R)} {m : Dict Str} :
    (∃ m', collectExtractions pairs m extractors = .ok m') ↔
      ∀ x ∈ extractors, ∃ value, x.2.extract pairs = .ok value := by
  induction extractors generalizing m with
  | nil => exact ⟨fun _ x hx => absurd hx List.not_mem_nil, fun _ => ⟨m, rfl⟩⟩
  | cons x extractors ih =>
    rw [List.forall_mem_cons]
    constructor
    · intro h
      obtain ⟨m', h⟩ := h
      obtain ⟨v, hv, h⟩ := bind_eq_ok.mp h
      exact ⟨⟨v, hv⟩, ih.mp ⟨m', h⟩⟩
    · intro h
      obtain ⟨⟨v, hv⟩, hrest⟩ := h
      obtain ⟨m', hm'⟩ := ih.mpr hrest
      exact ⟨m', bind_eq_ok.mpr ⟨v, hv, hm'⟩⟩

/-- Reordered extractors with different names collect the same extraction under every name. -/
theorem collectExtractions_perm {extractors extractors' : List (Str × Extractor R)}
    {m : Dict Str} (hnodup : (extractors.map Prod.fst).Nodup) (hperm : extractors.Perm extractors')
    (h : collectExtractions pairs ∅ extractors = .ok m) :
    ∃ m', collectExtractions pairs ∅ extractors' = .ok m' ∧
      ∀ name, m'.lookup name = m.lookup name := by
  have hnodup' : (extractors'.map Prod.fst).Nodup := (hperm.map Prod.fst).nodup_iff.mp hnodup
  obtain ⟨m', hm'⟩ := collectExtractions_isOk_iff (m := ∅).mpr fun x hx =>
    collectExtractions_isOk_iff.mp ⟨m, h⟩ x (hperm.mem_iff.mpr hx)
  refine ⟨m', hm', fun name => Option.ext fun value => ?_⟩
  rw [lookup_collectExtractions hnodup' hm', lookup_collectExtractions hnodup h]
  simp only [AList.lookup_empty, hperm.mem_iff, reduceCtorEq, and_false, or_false]

end Extractions

/-! ### Rendering -/

variable [InjaRenderer J]

omit [StdRegex R] in
/-- Rendering depends on the extractions by name only. -/
theorem render_congr {pairs : HeaderMap} {m m' : Dict Str}
    (h : ∀ name, m'.lookup name = m.lookup name) (context : J) (tmpl : Template J) :
    TransformerInstance.render { headers := pairs, extractions := m', context := context } tmpl
      = TransformerInstance.render { headers := pairs, extractions := m, context := context } tmpl := by
  have hcallback : TransformerInstance.extractedCallback
        { headers := pairs, extractions := m', context := context }
      = TransformerInstance.extractedCallback
        { headers := pairs, extractions := m, context := context } := by
    funext args
    simp only [TransformerInstance.extractedCallback, h]
  simp only [TransformerInstance.render, TransformerInstance.callbacks]
  rw [hcallback]
  rfl

omit [InjaRenderer J] in
theorem extractor_names_nodup {T : Transformation} {t : InjaTransformer R J}
    (hnew : InjaTransformer.new T = .ok t) : (t.extractors.map Prod.fst).Nodup := by
  have hnames : t.extractors.map Prod.fst = T.extractors.entries.map Sigma.fst := by
    have hextractors := (InjaTransformer.new_eq_ok.mp hnew).1
    generalize T.extractors.entries = entries at hextractors ⊢
    generalize t.extractors = extractors at hextractors ⊢
    induction hextractors with
    | nil => rfl
    | cons hhead _ ih => rw [List.map_cons, List.map_cons, hhead.1, ih]
  rw [hnames]
  exact T.extractors.nodupKeys

/-- A template renders alike on the extractors in another order. -/
theorem rendersTo_reordered {t t' : InjaTransformer R J} {pairs : HeaderMap}
    (hnodup : (t.extractors.map Prod.fst).Nodup) (hperm : t.extractors.Perm t'.extractors)
    {tmpl : Template J} {text : Str} (h : t.RendersTo pairs tmpl text) :
    t'.RendersTo pairs tmpl text := by
  obtain ⟨m, hm, hrender⟩ := h
  obtain ⟨m', hm', hlookup⟩ := collectExtractions_perm hnodup hperm hm
  exact ⟨m', hm', by rw [render_congr hlookup, hrender]⟩

/-! ### All orders -/

/-- Every order of the two maps is accepted and leaves every header name with the same values. -/
def OrderIndependent (T : Transformation) (t : InjaTransformer R J) (pairs : HeaderMap) : Prop :=
  ∀ T', Reordered T T' → ∃ t' : InjaTransformer R J, InjaTransformer.new T' = .ok t' ∧
    ∀ name, Multimap.entriesOf name (execCalls pairs (t'.transform pairs).1)
      = Multimap.entriesOf name (execCalls pairs (t.transform pairs).1)

/-- The writes of the transformer for one order, those for another being a permutation of them. -/
theorem writes_reordered {t t' : InjaTransformer R J} {pairs : HeaderMap}
    {ws : List (Str × Option Str)} (hnodup : (t.extractors.map Prod.fst).Nodup)
    (hextractors : t.extractors.Perm t'.extractors) (hheaders : t.headers.Perm t'.headers)
    (hws : List.Forall₂ (t.WritesOn pairs) t.headers ws) :
    ∃ ws', List.Forall₂ (t'.WritesOn pairs) t'.headers ws' ∧ ws.Perm ws' := by
  obtain ⟨ws', hws', hperm⟩ := forall₂_perm hheaders hws
  refine ⟨ws', hws'.imp fun header w hw => ?_, hperm⟩
  obtain ⟨text, htext, rfl⟩ := hw
  exact ⟨text, rendersTo_reordered hnodup hextractors htext, rfl⟩

/-- A key can be visited last. -/
theorem exists_reordered_last {T : Transformation} {entry : (_ : Str) × InjaTemplate}
    (h : entry ∈ T.headers.entries) :
    ∃ T' before, Reordered T T' ∧ T'.headers.entries = before ++ [entry] := by
  obtain ⟨front, back, hsplit⟩ := List.append_of_mem h
  have hperm : T.headers.entries.Perm (front ++ back ++ [entry]) := by
    rw [hsplit, List.append_assoc]
    have hlast : (entry :: back).Perm (back ++ [entry]) := (List.perm_append_singleton entry back).symm
    exact hlast.append_left front
  refine ⟨{ T with headers := ⟨front ++ back ++ [entry], ?_⟩ }, front ++ back,
    ⟨List.Perm.refl _, hperm⟩, rfl⟩
  exact (List.perm_nodupKeys hperm).mp T.headers.nodupKeys

/-- The writes of an accepted transformation, all of whose templates render. -/
theorem exists_writes {T : Transformation} {t : InjaTransformer R J} {pairs : HeaderMap}
    (hnew : InjaTransformer.new T = .ok t)
    (hall : ∀ entry ∈ T.headers.entries, ∀ tmpl, ParsesTo entry.2.text tmpl →
      ∃ text, t.RendersTo pairs tmpl text) :
    ∃ ws, List.Forall₂ (t.WritesOn pairs) t.headers ws ∧
      ∀ m, execCalls m (t.transform pairs).1 = Multimap.putAll m ws :=
  transform_all fun header hheader => by
    obtain ⟨entry, hentry, -, hparse⟩ :=
      exists_of_forall₂_right (InjaTransformer.new_eq_ok.mp hnew).2 hheader
    exact hall entry hentry header.2 hparse

/-- In an order that visits `entry` last, its rendered text decides its name. -/
theorem exists_reordered_decided {T : Transformation} {t : InjaTransformer R J} {pairs : HeaderMap}
    (hnew : InjaTransformer.new T = .ok t) {ws : List (Str × Option Str)}
    (hws : List.Forall₂ (t.WritesOn pairs) t.headers ws) {entry : (_ : Str) × InjaTemplate}
    (hentry : entry ∈ T.headers.entries) {tmpl : Template J} {text : Str}
    (hparse : ParsesTo entry.2.text tmpl) (htext : t.RendersTo pairs tmpl text) :
    ∃ T', Reordered T T' ∧ ∀ t' : InjaTransformer R J, InjaTransformer.new T' = .ok t' →
      Multimap.entriesOf (lower entry.1) (execCalls pairs (t'.transform pairs).1)
        = Multimap.written (headerWrite (lower entry.1) text) := by
  obtain ⟨T', before, hreordered, hlast⟩ := exists_reordered_last hentry
  refine ⟨T', hreordered, fun t' hnew' => ?_⟩
  have hnodup := extractor_names_nodup hnew
  obtain ⟨t'', hnew'', hextractors, hheaders⟩ := new_reordered hreordered hnew
  obtain rfl : t' = t'' := Except.ok.inj (hnew'.symm.trans hnew'')
  obtain ⟨ws', hws', -⟩ := writes_reordered hnodup hextractors hheaders hws
  -- the last template is that of `entry`, and so is the last write
  have hbuilt := (InjaTransformer.new_eq_ok.mp hnew').2
  rw [hlast] at hbuilt
  obtain ⟨front, header, hfront, -, hname, hparse'⟩ := exists_concat_of_forall₂ hbuilt
  have hws'' := hws'
  rw [hfront] at hws''
  obtain ⟨earlier, w, rfl, -, text', htext', rfl⟩ := exists_concat_of_forall₂ hws''
  obtain rfl := hparse'.unique hparse
  obtain rfl := RendersTo.unique htext' (rendersTo_reordered hnodup hextractors htext)
  rw [transform_of_split (List.append_nil _).symm hws' (Or.inl rfl), ← hname]
  exact Multimap.entriesOf_putAll_concat pairs earlier (headerWrite header.1 text')

/-- **When the order is irrelevant.**  For an accepted transformation no template of which fails, all
orders of its maps leave every header name with the same values exactly when keys that differ only in
letter case render to the same text. -/
theorem orderIndependent_iff {T : Transformation} {t : InjaTransformer R J} {pairs : HeaderMap}
    (hnew : InjaTransformer.new T = .ok t)
    (hall : ∀ entry ∈ T.headers.entries, ∀ tmpl, ParsesTo entry.2.text tmpl →
      ∃ text, t.RendersTo pairs tmpl text) :
    OrderIndependent T t pairs ↔
      ∀ entry ∈ T.headers.entries, ∀ other ∈ T.headers.entries, lower entry.1 = lower other.1 →
        ∀ tmpl tmpl' text text', ParsesTo entry.2.text tmpl → ParsesTo other.2.text tmpl' →
          t.RendersTo pairs tmpl text → t.RendersTo pairs tmpl' text' → text = text' := by
  obtain ⟨ws, hws, hcalls⟩ := exists_writes hnew hall
  constructor
  · intro hindependent entry hentry other hother hlower tmpl tmpl' text text' hparse hparse' htext
      htext'
    obtain ⟨T₁, hreordered₁, hdecided₁⟩ :=
      exists_reordered_decided hnew hws hentry hparse htext
    obtain ⟨T₂, hreordered₂, hdecided₂⟩ :=
      exists_reordered_decided hnew hws hother hparse' htext'
    obtain ⟨t₁, hnew₁, hsame₁⟩ := hindependent T₁ hreordered₁
    obtain ⟨t₂, hnew₂, hsame₂⟩ := hindependent T₂ hreordered₂
    have hwritten : Multimap.written (headerWrite (lower entry.1) text)
        = Multimap.written (headerWrite (lower other.1) text') := by
      rw [← hdecided₁ t₁ hnew₁, ← hdecided₂ t₂ hnew₂, hsame₁, hsame₂, hlower]
    rw [written_headerWrite, written_headerWrite, hlower] at hwritten
    cases text <;> cases text' <;> simp_all
  · intro hagree T' hreordered
    have hnodup := extractor_names_nodup hnew
    obtain ⟨t', hnew', hextractors, hheaders⟩ := new_reordered hreordered hnew
    obtain ⟨ws', hws', hperm⟩ := writes_reordered hnodup hextractors hheaders hws
    refine ⟨t', hnew', fun name => ?_⟩
    rw [transform_of_split (List.append_nil _).symm hws' (Or.inl rfl), hcalls]
    refine (Multimap.putAll_perm hperm (fun w hw w' hw' hname => ?_) pairs name).symm
    obtain ⟨entry, hentry, tmpl, text, hparse, htext, rfl⟩ := mem_writes hnew hws hw
    obtain ⟨other, hother, tmpl', text', hparse', htext', rfl⟩ := mem_writes hnew hws hw'
    rw [hagree entry hentry other hother hname tmpl tmpl' text text' hparse hparse' htext htext']
    rfl

/-- One key: the order does not matter. -/
theorem copy_orderIndependent :
    OrderIndependent copyTransformation copyTransformer [("x-a", "1"), ("y", "2"), ("x-a", "3")] := by
  refine (orderIndependent_iff copyTransformer_new fun entry hentry tmpl hparse =>
    ⟨"2", copy_renders hentry hparse⟩).mpr ?_
  intro entry hentry other hother _ tmpl tmpl' text text' hparse hparse' htext htext'
  obtain rfl := RendersTo.unique htext (copy_renders hentry hparse)
  exact RendersTo.unique (copy_renders hother hparse') htext'

/-- Two keys that differ in letter case only, in one order and in the other. -/
def caseTransformation (first second : Str) (h : first ≠ second) : Transformation where
  extractors := ∅
  headers := ⟨[⟨first, { text := first }⟩, ⟨second, { text := second }⟩], by
    simpa [List.NodupKeys, List.keys] using h⟩

/-- What the constructor makes of it: each header has its own key as text. -/
def caseTransformer (first second : Str) : InjaTransformer PlainRegex PlainJson where
  extractors := []
  headers := [first, second].map fun key => (lower key, {
    bytecodes := [{ op := .printText, value := .null, str := key }]
    content := key })

/-- The keys `X-A` and `x-a` leave the header `x-a` with one value or another. -/
theorem case_orderDependent :
    InjaTransformer.new (caseTransformation "X-A" "x-a" (by decide))
        = .ok (caseTransformer "X-A" "x-a") ∧
      ¬ OrderIndependent (caseTransformation "X-A" "x-a" (by decide))
        (caseTransformer "X-A" "x-a") [] := by
  refine ⟨by decide +kernel, fun h => ?_⟩
  obtain ⟨t', hnew', hsame⟩ := h (caseTransformation "x-a" "X-A" (by decide))
    ⟨List.Perm.refl _, List.Perm.swap _ _ _⟩
  have hnew : InjaTransformer.new (caseTransformation "x-a" "X-A" (by decide))
      = .ok (caseTransformer "x-a" "X-A") := by decide +kernel
  obtain rfl : caseTransformer "x-a" "X-A" = t' := Except.ok.inj (hnew.symm.trans hnew')
  exact absurd (hsame "x-a") (by decide +kernel)

end EnvoyWasmFilters.TransformationFilter
