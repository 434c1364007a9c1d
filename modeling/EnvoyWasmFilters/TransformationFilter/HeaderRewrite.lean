import EnvoyWasmFilters.Library.Multimap
import EnvoyWasmFilters.TransformationFilter.Construction
import EnvoyWasmFilters.TransformationFilter.PlainTemplates

/-!
# What a transformation does to the headers

The host calls of one rendered header are one write to the host's header multimap (`execCalls_put`).
`transform` renders and writes template by template, so that the calls it has made, at its end or when
a template fails, are the writes of the templates rendered so far (`transform_of_split`).

* `transform_rewrites` — the outcome when no template fails: the frame, the written names, and that
  every text is rendered from the received headers;
* `forwarded_eq_received_iff` — exactly when a failing transformation leaves the received headers as
  they were; `forwarded_of_first_fails`: it does if the first template fails.
-/

namespace EnvoyWasmFilters.TransformationFilter

open Inja StateExcept ElementwiseLists

variable {R J : Type} [StdRegex R] [NlohmannJson J] [InjaRenderer J]

/-! ### One write per rendered header -/

/-- The write of a rendered header: its name and, unless empty, its text. -/
def headerWrite (name output : Str) : Str × Option Str :=
  (name, if output.isEmpty then none else some output)

theorem written_headerWrite (name output : Str) :
    Multimap.written (headerWrite name output) = if output.isEmpty then [] else [(name, output)] := by
  simp only [headerWrite]
  cases output.isEmpty <;> rfl

/-- The host calls of a rendered header are one write. -/
theorem execCalls_put (m : HeaderMap) (name output : Str) :
    execCalls m (headerCalls name output) = Multimap.put m (headerWrite name output) := by
  rw [Multimap.put, written_headerWrite]
  simp only [headerCalls]
  cases output.isEmpty with
  | true => exact (List.append_nil _).symm
  | false => rfl

/-- The template of `header` renders, and `w` is the write of its text. -/
def Writes (render : Template J → Except Stop Str) (header : Str × Template J)
    (w : Str × Option Str) : Prop :=
  ∃ text, render header.2 = .ok text ∧ w = headerWrite header.1 text

omit [NlohmannJson J] [InjaRenderer J] in
/-- **The loop**, by induction on the templates that render: up to the end or to the first template
that fails, it makes their writes. -/
theorem transformHeaders_of_split {render : Template J → Except Stop Str}
    {done rest : List (Str × Template J)} {ws : List (Str × Option Str)}
    (hdone : List.Forall₂ (Writes render) done ws)
    (hend : rest = [] ∨ ∃ header rest' e, rest = header :: rest' ∧ render header.2 = .error e)
    (m : HeaderMap) :
    execCalls m (transformHeaders render (done ++ rest)).1 = Multimap.putAll m ws := by
  induction hdone generalizing m with
  | nil =>
    rcases hend with rfl | ⟨header, rest', e, rfl, hfail⟩
    · rfl
    · simp only [List.nil_append, transformHeaders, hfail]
      rfl
  | cons hw _ ih =>
    obtain ⟨text, htext, rfl⟩ := hw
    simp only [List.cons_append, transformHeaders, htext]
    rw [execCalls_append, execCalls_put, ih]
    rfl

/-! ### Rendering on the received headers -/

/-- On the headers `pairs` the template renders to `text`; headers and extractions are those of
`pairs`. -/
def InjaTransformer.RendersTo (t : InjaTransformer R J) (pairs : HeaderMap) (tmpl : Template J)
    (text : Str) : Prop :=
  ∃ extractions, collectExtractions pairs ∅ t.extractors = .ok extractions ∧
    TransformerInstance.render
      { headers := pairs, extractions := extractions, context := NlohmannJson.null } tmpl = .ok text

/-- On the headers `pairs` rendering the template throws. -/
def InjaTransformer.FailsOn (t : InjaTransformer R J) (pairs : HeaderMap) (tmpl : Template J) : Prop :=
  ∃ extractions e, collectExtractions pairs ∅ t.extractors = .ok extractions ∧
    TransformerInstance.render
      { headers := pairs, extractions := extractions, context := NlohmannJson.null } tmpl = .error e

theorem RendersTo.unique {t : InjaTransformer R J} {pairs : HeaderMap}
    {tmpl : Template J} {text text' : Str} (h : t.RendersTo pairs tmpl text)
    (h' : t.RendersTo pairs tmpl text') : text = text' := by
  obtain ⟨extractions, hext, hrender⟩ := h
  obtain ⟨extractions', hext', hrender'⟩ := h'
  rw [hext] at hext'
  obtain rfl : extractions = extractions' := Except.ok.inj hext'
  rw [hrender] at hrender'
  exact Except.ok.inj hrender'

/-- The header renders on `pairs`, and `w` is the write of its text. -/
def InjaTransformer.WritesOn (t : InjaTransformer R J) (pairs : HeaderMap)
    (header : Str × Template J) (w : Str × Option Str) : Prop :=
  ∃ text, t.RendersTo pairs header.2 text ∧ w = headerWrite header.1 text

/-- Every list of templates splits at the first one that does not render. -/
theorem exists_split (t : InjaTransformer R J) (pairs : HeaderMap) {extractions : Dict Str}
    (hext : collectExtractions pairs ∅ t.extractors = .ok extractions)
    (headers : List (Str × Template J)) :
    ∃ done rest ws, headers = done ++ rest ∧ List.Forall₂ (t.WritesOn pairs) done ws ∧
      (rest = [] ∨ ∃ header rest', rest = header :: rest' ∧ t.FailsOn pairs header.2) := by
  induction headers with
  | nil => exact ⟨[], [], [], rfl, List.Forall₂.nil, Or.inl rfl⟩
  | cons header headers ih =>
    cases hrender : TransformerInstance.render
      { headers := pairs, extractions := extractions, context := NlohmannJson.null } header.2 with
    | error e =>
      exact ⟨[], header :: headers, [], rfl, List.Forall₂.nil,
        Or.inr ⟨header, headers, rfl, extractions, e, hext, hrender⟩⟩
    | ok text =>
      obtain ⟨done, rest, ws, hsplit, hdone, hend⟩ := ih
      exact ⟨header :: done, rest, headerWrite header.1 text :: ws, by rw [hsplit]; rfl,
        List.Forall₂.cons ⟨text, ⟨extractions, hext, hrender⟩, rfl⟩ hdone, hend⟩

/-- **`transform`** makes the writes of the templates before the first one that fails, or of all. -/
theorem transform_of_split {t : InjaTransformer R J} {pairs : HeaderMap}
    {done rest : List (Str × Template J)} {ws : List (Str × Option Str)}
    (hsplit : t.headers = done ++ rest) (hdone : List.Forall₂ (t.WritesOn pairs) done ws)
    (hend : rest = [] ∨ ∃ header rest', rest = header :: rest' ∧ t.FailsOn pairs header.2)
    (m : HeaderMap) : execCalls m (t.transform pairs).1 = Multimap.putAll m ws := by
  cases hext : collectExtractions pairs ∅ t.extractors with
  | error e =>
    -- the extractors have thrown: no template has been rendered
    obtain rfl : ws = [] := by
      cases hdone with
      | nil => rfl
      | cons hw _ =>
        obtain ⟨text, ⟨extractions, hok, -⟩, -⟩ := hw
        rw [hext] at hok
        exact absurd hok (by simp)
    simp only [InjaTransformer.transform, hext]
    rfl
  | ok extractions =>
    simp only [InjaTransformer.transform, hext, hsplit]
    refine transformHeaders_of_split (hdone.imp fun header w hw => ?_) ?_ m
    · obtain ⟨text, ⟨extractions', hok, htext⟩, rfl⟩ := hw
      obtain rfl : extractions = extractions' := Except.ok.inj (hext.symm.trans hok)
      exact ⟨text, htext, rfl⟩
    · rcases hend with hnil | ⟨header, rest', hcons, extractions', e, hok, hfail⟩
      · exact Or.inl hnil
      · obtain rfl : extractions = extractions' := Except.ok.inj (hext.symm.trans hok)
        exact Or.inr ⟨header, rest', e, hcons, hfail⟩

theorem not_rendersTo_of_failsOn {t : InjaTransformer R J} {pairs : HeaderMap} {tmpl : Template J}
    (h : t.FailsOn pairs tmpl) (text : Str) : ¬ t.RendersTo pairs tmpl text := by
  intro hrenders
  obtain ⟨extractions, e, hext, hfail⟩ := h
  obtain ⟨extractions', hext', hrender⟩ := hrenders
  rw [hext] at hext'
  obtain rfl : extractions = extractions' := Except.ok.inj hext'
  rw [hfail] at hrender
  exact absurd hrender (by simp)

/-- When every template renders, all of them are written. -/
theorem transform_all {t : InjaTransformer R J} {pairs : HeaderMap}
    (hall : ∀ header ∈ t.headers, ∃ text, t.RendersTo pairs header.2 text) :
    ∃ ws, List.Forall₂ (t.WritesOn pairs) t.headers ws ∧
      ∀ m, execCalls m (t.transform pairs).1 = Multimap.putAll m ws := by
  obtain ⟨ws, hws⟩ : ∃ ws, List.Forall₂ (t.WritesOn pairs) t.headers ws := by
    apply exists_forall₂_iff.mpr
    intro header hheader
    obtain ⟨text, htext⟩ := hall header hheader
    exact ⟨headerWrite header.1 text, text, htext, rfl⟩
  exact ⟨ws, hws, transform_of_split (List.append_nil _).symm hws (Or.inl rfl)⟩

/-! ### A transformation that does not fail -/

/-- The names a transformation writes: the lower-cased keys of its header map. -/
def Transformation.targets (T : Transformation) : List Str :=
  T.headers.entries.map fun entry => lower entry.1

omit [InjaRenderer J] in
theorem targets_eq {T : Transformation} {t : InjaTransformer R J}
    (hnew : InjaTransformer.new T = .ok t) : t.headers.map Prod.fst = T.targets := by
  have hheaders := (InjaTransformer.new_eq_ok.mp hnew).2
  simp only [Transformation.targets]
  generalize T.headers.entries = entries at hheaders ⊢
  generalize t.headers = headers at hheaders ⊢
  induction hheaders with
  | nil => rfl
  | cons hhead _ ih => rw [List.map_cons, List.map_cons, hhead.1, ih]

theorem keys_writes {t : InjaTransformer R J} {pairs : HeaderMap} {headers : List (Str × Template J)}
    {ws : List (Str × Option Str)} (h : List.Forall₂ (t.WritesOn pairs) headers ws) :
    Multimap.keys ws = headers.map Prod.fst := by
  induction h with
  | nil => rfl
  | cons hhead _ ih =>
    obtain ⟨text, -, rfl⟩ := hhead
    rw [Multimap.keys_cons, List.map_cons, ih]
    rfl

/-- Every write is that of an entry of the transformation, rendered on the received headers. -/
theorem mem_writes {T : Transformation} {t : InjaTransformer R J} {pairs : HeaderMap}
    {ws : List (Str × Option Str)} (hnew : InjaTransformer.new T = .ok t)
    (hws : List.Forall₂ (t.WritesOn pairs) t.headers ws) {w : Str × Option Str} (hw : w ∈ ws) :
    ∃ entry ∈ T.headers.entries, ∃ tmpl text, ParsesTo entry.2.text tmpl ∧
      t.RendersTo pairs tmpl text ∧ w = headerWrite (lower entry.1) text := by
  obtain ⟨header, hheader, text, htext, rfl⟩ := exists_of_forall₂_right hws hw
  obtain ⟨entry, hentry, hname, hparse⟩ :=
    exists_of_forall₂_right (InjaTransformer.new_eq_ok.mp hnew).2 hheader
  exact ⟨entry, hentry, header.2, text, hparse, htext, by rw [hname]⟩

/-- What ought to become of the headers `pairs` under the transformation `T`. -/
structure Rewritten (T : Transformation) (t : InjaTransformer R J) (pairs after : HeaderMap) :
    Prop where
  /-- Headers under other names are untouched, order included. -/
  frame : after.filter (fun e => e.1 ∉ T.targets) = pairs.filter (fun e => e.1 ∉ T.targets)
  /-- A written name has at most one entry. -/
  atMostOne : ∀ name ∈ T.targets, (Multimap.entriesOf name after).length ≤ 1
  /-- A key no other key collides with has exactly its rendered text, or no entry if that is empty. -/
  exact : ∀ entry ∈ T.headers.entries,
    (∀ other ∈ T.headers.entries, lower other.1 = lower entry.1 → other.1 = entry.1) →
    ∀ tmpl text, ParsesTo entry.2.text tmpl → t.RendersTo pairs tmpl text →
      Multimap.entriesOf (lower entry.1) after
        = if text.isEmpty then [] else [(lower entry.1, text)]
  /-- Whatever is written has been rendered from the received headers. -/
  snapshot : ∀ e ∈ after, e.1 ∈ T.targets → ∃ entry ∈ T.headers.entries, ∃ tmpl,
    lower entry.1 = e.1 ∧ ParsesTo entry.2.text tmpl ∧ t.RendersTo pairs tmpl e.2

/-- **A transformation no template of which fails.** -/
theorem transform_rewrites {T : Transformation} {t : InjaTransformer R J}
    (hnew : InjaTransformer.new T = .ok t) (pairs : HeaderMap)
    (hall : ∀ entry ∈ T.headers.entries, ∀ tmpl, ParsesTo entry.2.text tmpl →
      ∃ text, t.RendersTo pairs tmpl text) :
    Rewritten T t pairs (execCalls pairs (t.transform pairs).1) := by
  have hheaders := (InjaTransformer.new_eq_ok.mp hnew).2
  obtain ⟨ws, hws, hcalls⟩ := transform_all fun header hheader => by
    obtain ⟨entry, hentry, -, hparse⟩ := exists_of_forall₂_right hheaders hheader
    exact hall entry hentry header.2 hparse
  have hkeys : Multimap.keys ws = T.targets := (keys_writes hws).trans (targets_eq hnew)
  rw [hcalls]
  refine ⟨?_, fun name hname => ?_, fun entry hentry hunique tmpl text hparse htext => ?_,
    fun e he hname => ?_⟩
  · rw [← hkeys]
    -- up to the decision procedure for membership
    convert Multimap.filter_putAll pairs ws
  · rw [← hkeys] at hname
    rw [Multimap.entriesOf_putAll_of_mem hname]
    exact Multimap.entriesOf_settled_length_le name ws
  · have hmem : lower entry.1 ∈ Multimap.keys ws := by
      rw [hkeys]
      exact List.mem_map.mpr ⟨entry, hentry, rfl⟩
    have hagree : ∀ w ∈ ws, w.1 = lower entry.1 →
        w.2 = (headerWrite (lower entry.1) text).2 := by
      intro w hw hwname
      obtain ⟨other, hother, tmpl', text', hparse', htext', rfl⟩ := mem_writes hnew hws hw
      have hkey : other.1 = entry.1 := hunique other hother hwname
      obtain rfl : other = entry := T.headers.nodupKeys.eq_of_fst_eq hother hentry hkey
      obtain rfl : tmpl' = tmpl := hparse'.unique hparse
      rw [RendersTo.unique htext' htext]
    rw [Multimap.entriesOf_putAll_of_agree hmem hagree]
    exact written_headerWrite _ _
  · -- an entry under a written name is what one of the writes left behind
    have hsettled : e ∈ Multimap.settled ws := by
      rw [Multimap.putAll_eq, List.mem_append, List.mem_filter] at he
      rcases he with ⟨-, hnot⟩ | he
      · rw [← hkeys] at hname
        exact absurd hname (by simpa using hnot)
      · exact he
    obtain ⟨w, hw, hwe⟩ := Multimap.mem_settled hsettled
    obtain ⟨entry, hentry, tmpl, text, hparse, htext, rfl⟩ := mem_writes hnew hws hw
    rw [written_headerWrite] at hwe
    split at hwe
    · exact absurd hwe List.not_mem_nil
    · obtain rfl : e = (lower entry.1, text) := List.mem_singleton.mp hwe
      exact ⟨entry, hentry, tmpl, rfl, hparse, htext⟩

/-- A transformation that copies the header `y` into `X-A`. -/
def copyTransformation : Transformation :=
  .ofHeaders (AList.singleton "X-A".toList { text := "\x7b\x7bheader(\"y\")\x7d\x7d" })

/-- What the constructor makes of it. -/
def copyTransformer : InjaTransformer PlainRegex PlainJson where
  extractors := []
  headers := [("x-a", {
    bytecodes :=
      [{ op := .callback, args := 1, flags := .immediate, value := .string "y", str := "header" },
       { op := .printValue, args := 1, value := .null }]
    content := "\x7b\x7bheader(\"y\")\x7d\x7d" })]

theorem copyTransformer_new : InjaTransformer.new copyTransformation = .ok copyTransformer := by
  decide +kernel

theorem copy_renders {entry : (_ : Str) × InjaTemplate}
    (hentry : entry ∈ copyTransformation.headers.entries) {tmpl : Template PlainJson}
    (hparse : ParsesTo entry.2.text tmpl) :
    copyTransformer.RendersTo [("x-a", "1"), ("y", "2"), ("x-a", "3")] tmpl "2" := by
  -- the one entry's template is the transformer's
  have hheaders := (InjaTransformer.new_eq_ok.mp copyTransformer_new).2
  obtain ⟨header, hheader, -, hparse'⟩ := exists_of_forall₂_left hheaders hentry
  obtain rfl := hparse.unique hparse'
  refine ⟨∅, rfl, ?_⟩
  rw [List.mem_singleton.mp hheader]
  decide +kernel

/-- Copying the header `y` into `x-a`, of which two values were received. -/
theorem copy_rewrites : Rewritten copyTransformation copyTransformer
    [("x-a", "1"), ("y", "2"), ("x-a", "3")]
    (execCalls [("x-a", "1"), ("y", "2"), ("x-a", "3")]
      (copyTransformer.transform [("x-a", "1"), ("y", "2"), ("x-a", "3")]).1) :=
  transform_rewrites copyTransformer_new _ fun _ hentry _ hparse =>
    ⟨"2", copy_renders hentry hparse⟩

example : execCalls [("x-a", "1"), ("y", "2"), ("x-a", "3")]
    (copyTransformer.transform [("x-a", "1"), ("y", "2"), ("x-a", "3")]).1
      = [("y".toList, "2".toList), ("x-a".toList, "2".toList)] := by decide +kernel

/-! ### A transformation that fails -/

/-- A header callback has run the transformer `t` on the headers `pairs`, with the given result: as
the request transformer of the rule `pairs` selects, or as the response transformer of the rule the
context points to. -/
def Applied (root : RootContext R J) (context : TransformationContext) (t : InjaTransformer R J)
    (pairs : HeaderMap) (result : HeadersResult) : Prop :=
  (∃ route context', root.selectedRoute pairs = some route ∧ route.request = some t ∧
      context.onRequestHeaders root pairs = some (result, context')) ∨
    ∃ pointer route, context.transformation = some pointer ∧ root.deref pointer = some route ∧
      route.response = some t ∧ context.onResponseHeaders root pairs = some result

theorem runTransformer_headers (direction : Str) (t : InjaTransformer R J) (pairs : HeaderMap) :
    (runTransformer direction t pairs).headers = execCalls pairs (t.transform pairs).1 := by
  simp only [runTransformer]
  split
  · rfl
  · split <;> rfl

/-- Either callback forwards what the transformer's host calls have left. -/
theorem applied_headers {root : RootContext R J} {context : TransformationContext}
    {t : InjaTransformer R J} {pairs : HeaderMap} {result : HeadersResult}
    (h : Applied root context t pairs result) :
    result.headers = execCalls pairs (t.transform pairs).1 := by
  rcases h with ⟨route, context', hselected, hrequest, hresult⟩ |
    ⟨pointer, route, hpointer, hderef, hresponse, hresult⟩
  · obtain ⟨result', hresult'⟩ := onRequestHeaders_selected context hselected
    rw [hresult, hrequest] at hresult'
    rw [(Prod.mk.inj (Option.some.inj hresult')).1]
    exact runTransformer_headers _ t pairs
  · rw [TransformationContext.onResponseHeaders, hpointer] at hresult
    simp only [hderef, Option.bind_eq_bind, Option.bind_some, Option.pure_def, hresponse,
      Option.some.injEq] at hresult
    rw [← hresult]
    exact runTransformer_headers _ t pairs

/-- **When a failing transformation changes nothing.**  If some template fails on the received headers,
the forwarded headers are the received ones exactly when the templates before the first failing one
write what is there already: the received headers end in the entries they leave, in that order, and
have no other entry under the names they write. -/
theorem forwarded_eq_received_iff {root : RootContext R J} {context : TransformationContext}
    {t : InjaTransformer R J} {pairs : HeaderMap} {result : HeadersResult}
    (h : Applied root context t pairs result)
    (hfail : ∃ header ∈ t.headers, t.FailsOn pairs header.2) :
    result.headers = pairs ↔
      ∀ done header rest ws, t.headers = done ++ header :: rest →
        List.Forall₂ (t.WritesOn pairs) done ws → t.FailsOn pairs header.2 →
        ∃ kept, pairs = kept ++ Multimap.settled ws ∧ ∀ e ∈ kept, e.1 ∉ Multimap.keys ws := by
  rw [applied_headers h]
  constructor
  · intro heq done header rest ws hsplit hdone hheader
    rw [transform_of_split hsplit hdone (Or.inr ⟨header, rest, rfl, hheader⟩)] at heq
    exact (Multimap.putAll_eq_self_iff pairs ws).mp heq
  · intro hcond
    obtain ⟨failing, hmem, extractions, e, hext, hrender⟩ := hfail
    obtain ⟨done, rest, ws, hsplit, hdone, hend⟩ := exists_split t pairs hext t.headers
    rw [transform_of_split hsplit hdone hend]
    apply (Multimap.putAll_eq_self_iff pairs ws).mpr
    rcases hend with rfl | ⟨header, rest', rfl, hheader⟩
    · -- all templates have rendered, the failing one among them
      rw [List.append_nil] at hsplit
      rw [hsplit] at hmem
      obtain ⟨w, -, text, htext, -⟩ := exists_of_forall₂_left hdone hmem
      exact absurd htext (not_rendersTo_of_failsOn ⟨extractions, e, hext, hrender⟩ text)
    · exact hcond done header rest' ws hsplit hdone hheader

/-- If the first template fails, the received headers are forwarded. -/
theorem forwarded_of_first_fails {root : RootContext R J} {context : TransformationContext}
    {t : InjaTransformer R J} {pairs : HeaderMap} {result : HeadersResult}
    (h : Applied root context t pairs result) {header : Str × Template J} {rest : List (Str × Template J)}
    (hheaders : t.headers = header :: rest) (hfail : t.FailsOn pairs header.2) : result.headers = pairs := by
  have hsplit : t.headers = [] ++ header :: rest := hheaders
  rw [applied_headers h]
  exact transform_of_split hsplit List.Forall₂.nil (Or.inr ⟨header, rest, rfl, hfail⟩) pairs

/-- A transformation whose second template reads a variable there is not. -/
def halfTransformation : Transformation :=
  .ofHeaders ((AList.singleton "y".toList { text := "\x7b\x7bmissing\x7d\x7d" }).insert "x".toList
    { text := "1" })

/-- What the constructor makes of it. -/
def halfTransformer : InjaTransformer PlainRegex PlainJson where
  extractors := []
  headers :=
    [("x", { bytecodes := [{ op := .printText, value := .null, str := "1" }], content := "1" }),
     ("y", {
       bytecodes :=
         [{ op := .printValue, args := 1, flags := .lookupDot, value := .null, str := "missing" }]
       content := "\x7b\x7bmissing\x7d\x7d" })]

/-- The root context whose only rule has this request transformation. -/
def halfRoot : RootContext PlainRegex PlainJson where
  transformationConfig := some { transformations :=
    [(MatcherImpl.new { headerMatchers := [] }, { request := some halfTransformer, response := none })] }
  generation := 1

/-- What the request callback makes of the headers `pairs`. -/
def halfResult (pairs : HeaderMap) : HeadersResult :=
  applyTransformer "request" (some halfTransformer) pairs

theorem half_applied (pairs : HeaderMap) :
    Applied halfRoot {} halfTransformer pairs (halfResult pairs) :=
  Or.inl ⟨{ request := some halfTransformer, response := none },
    { transformation := some ⟨1, 0⟩ }, rfl, rfl, rfl⟩

theorem half_fails (pairs : HeaderMap) :
    ∃ header ∈ halfTransformer.headers, halfTransformer.FailsOn pairs header.2 :=
  ⟨_, List.mem_cons_of_mem _ List.mem_cons_self, ∅, _, rfl, rfl⟩

/-- The header the first template writes was received as the last one: nothing changes, and what
precedes the failing template is already there. -/
theorem half_unchanged :
    (halfResult [("y", "2"), ("x", "1")]).headers = [("y".toList, "2".toList), ("x".toList, "1".toList)] ∧
      ∀ done header rest ws, halfTransformer.headers = done ++ header :: rest →
        List.Forall₂ (halfTransformer.WritesOn [("y", "2"), ("x", "1")]) done ws →
        halfTransformer.FailsOn [("y", "2"), ("x", "1")] header.2 →
        ∃ kept, [("y".toList, "2".toList), ("x".toList, "1".toList)] = kept ++ Multimap.settled ws ∧
          ∀ e ∈ kept, e.1 ∉ Multimap.keys ws :=
  ⟨by decide +kernel, (forwarded_eq_received_iff (half_applied [("y", "2"), ("x", "1")])
    (half_fails _)).mp (by decide +kernel)⟩

/-- The first template's header reaches the host although the second template fails. -/
theorem half_forwarded :
    InjaTransformer.new halfTransformation = .ok halfTransformer ∧
      Applied halfRoot {} halfTransformer [] (halfResult []) ∧
      (∃ header ∈ halfTransformer.headers, halfTransformer.FailsOn [] header.2) ∧
      (halfResult []).headers = [("x".toList, "1".toList)] ∧ (halfResult []).headers ≠ [] :=
  ⟨by decide +kernel, half_applied [], half_fails [], by decide +kernel, by decide +kernel⟩

end EnvoyWasmFilters.TransformationFilter
