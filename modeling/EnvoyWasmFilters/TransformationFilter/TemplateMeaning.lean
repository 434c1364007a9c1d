import EnvoyWasmFilters.Inja.Meaning
import EnvoyWasmFilters.TransformationFilter.Construction
import EnvoyWasmFilters.TransformationFilter.PlainTemplates

/-!
# What a transformation means

A transformation whose header templates the grammar can read: what its transformer writes, in terms of the trees of
the templates and not of bytecode.

* `FaithfulRenderer` — what the filter relies on of `Environment::render`, and `runRenderer`, which has it;
* `transformTrees` — the transformation, evaluating trees;
* `transform_eq_trees` — **the transformer built from the texts does the same.**
-/

namespace EnvoyWasmFilters.TransformationFilter

open Inja StateExcept ElementwiseLists FailingMachine

/-! ### The renderer -/

/-- `Environment::render` returns and throws as the run of its renderer does.  The environment of a
`TransformerInstance` has no included templates. -/
class FaithfulRenderer (J : Type) [NlohmannJson J] [RenderJson J] [InjaRenderer J] : Prop where
  returns : ∀ (callbacks : Callbacks J) (tmpl : Template J) (data : J) (text : Str),
    Renderer.Returns ⟨∅, callbacks⟩ tmpl data text → InjaRenderer.render callbacks tmpl data = .ok text
  stops : ∀ (callbacks : Callbacks J) (tmpl : Template J) (data : J) (e : Stop),
    Renderer.Stops ⟨∅, callbacks⟩ tmpl data e → InjaRenderer.render callbacks tmpl data = .error e

section Outcome

variable {J : Type} [NlohmannJson J] [RenderJson J]

theorem returns_halts {env : Renderer J} {tmpl : Template J} {data : J} {text : Str}
    (h : env.Returns tmpl data text) : ∃ r, Halts env.step (Rendering.start tmpl data) r ∧ r.os = text := by
  obtain ⟨r, hreach, hend, hos⟩ := h
  exact ⟨r, ⟨hreach, hend⟩, hos⟩

theorem returns_unique {env : Renderer J} {tmpl : Template J} {data : J} {text text' : Str}
    (h : env.Returns tmpl data text) (h' : env.Returns tmpl data text') : text = text' := by
  obtain ⟨r, hr, rfl⟩ := returns_halts h
  obtain ⟨r', hr', rfl⟩ := returns_halts h'
  rw [hr.unique hr']

open Classical in
/-- The outcome of a run, as a function; of a run without end there is nothing to say. -/
noncomputable def runOutcome (env : Renderer J) (tmpl : Template J) (data : J) : Except Stop Str :=
  if h : ∃ text, env.Returns tmpl data text then .ok h.choose
  else if h : ∃ e, env.Stops tmpl data e then .error h.choose
  else .error .undefinedBehaviour

/-- The renderer that runs the bytecode. -/
noncomputable abbrev runRenderer (J : Type) [NlohmannJson J] [RenderJson J] : InjaRenderer J where
  render := fun callbacks tmpl data => runOutcome ⟨∅, callbacks⟩ tmpl data

theorem runOutcome_of_returns {env : Renderer J} {tmpl : Template J} {data : J} {text : Str}
    (h : env.Returns tmpl data text) : runOutcome env tmpl data = .ok text := by
  have hexists : ∃ text, env.Returns tmpl data text := ⟨text, h⟩
  rw [runOutcome, dif_pos hexists, returns_unique hexists.choose_spec h]

theorem runOutcome_of_stops {env : Renderer J} {tmpl : Template J} {data : J} {e : Stop}
    (h : env.Stops tmpl data e) : runOutcome env tmpl data = .error e := by
  have hexists : ∃ e, env.Stops tmpl data e := ⟨e, h⟩
  have hnot : ¬ ∃ text, env.Returns tmpl data text := by
    rintro ⟨text, htext⟩
    obtain ⟨r, hr, -⟩ := returns_halts htext
    exact hr.not_fails h
  rw [runOutcome, dif_neg hnot, dif_pos hexists, Fails.unique hexists.choose_spec h]

/-- Running the bytecode is faithful. -/
theorem runRenderer_faithful : @FaithfulRenderer J _ _ (runRenderer J) :=
  @FaithfulRenderer.mk J _ _ (runRenderer J) (fun _ _ _ _ h => runOutcome_of_returns h)
    fun _ _ _ _ h => runOutcome_of_stops h

end Outcome

/-! ### Transformations -/

variable {R J : Type} [StdRegex R] [NlohmannJson J] [RenderJson J]

/-- What the names of a header template stand for: the calls `header`, `extraction` and `context`, and no data. -/
def messageScope (pairs : HeaderMap) (extractions : Dict Str) : Scope J :=
  { callbacks :=
      TransformerInstance.callbacks { headers := pairs, extractions := extractions, context := NlohmannJson.null }
    data := NlohmannJson.null }

/-- The host calls for the headers, each with the text its tree stands for, up to the first one that throws. -/
def writeTrees (scope : Scope J) : List (Str × Inja.Tree J) → List HeaderCall × Except Stop Unit
  | [] => ([], pure ())
  | header :: headers =>
      match header.2.eval scope with
      | .error e => ([], .error e)
      | .ok text =>
          let rest := writeTrees scope headers
          (headerCalls header.1 text ++ rest.1, rest.2)

/-- **The transformation** as its trees have it. -/
def transformTrees (extractors : List (Str × Extractor R)) (headers : List (Str × Inja.Tree J)) (pairs : HeaderMap) :
    List HeaderCall × Except Stop Unit :=
  match collectExtractions pairs ∅ extractors with
  | .error e => ([], .error e)
  | .ok extractions => writeTrees (messageScope pairs extractions) headers

/-- The loop over the headers, template by template. -/
theorem transformHeaders_eq {scope : Scope J} {render : Template J → Except Stop Str}
    {templates : List (Str × Template J)} {headers : List (Str × Inja.Tree J)}
    (h : List.Forall₂ (fun x y => x.1 = y.1 ∧ render x.2 = y.2.eval scope) templates headers) :
    transformHeaders render templates = writeTrees scope headers := by
  induction h with
  | nil => rfl
  | @cons header named templates headers hhead _ ih =>
    cases hvalue : named.2.eval scope with
    | error e => simp only [transformHeaders, writeTrees, hhead.2, hvalue]
    | ok text => simp only [transformHeaders, writeTrees, hhead.1, hhead.2, hvalue, ih]

variable [InjaRenderer J] [LawfulJson J] [FaithfulRenderer J]

/-- Rendering the bytecode of a tree is evaluating the tree. -/
theorem render_eq_eval {t : Inja.Tree J} (hc : t.compilable = true) {tmpl : Template J}
    (htmpl : tmpl.bytecodes = t.code 0) (pairs : HeaderMap) (extractions : Dict Str) :
    TransformerInstance.render { headers := pairs, extractions := extractions, context := NlohmannJson.null } tmpl
      = t.eval (messageScope pairs extractions) := by
  have hdata : TransformerInstance.render
      { headers := pairs, extractions := extractions, context := NlohmannJson.null } tmpl
      = InjaRenderer.render (messageScope (J := J) pairs extractions).callbacks tmpl NlohmannJson.null := by
    simp only [TransformerInstance.render, ite_self]
    rfl
  obtain ⟨hreturns, hstops⟩ := render_iff_eval hc htmpl
    ⟨∅, (messageScope (J := J) pairs extractions).callbacks⟩ NlohmannJson.null
  rw [hdata]
  cases heval : t.eval (messageScope pairs extractions) with
  | ok text => exact FaithfulRenderer.returns _ _ _ _ ((hreturns text).mpr heval)
  | error e => exact FaithfulRenderer.stops _ _ _ _ ((hstops e).mpr heval)

/-- The templates of a transformer have the bytecode of their trees. -/
theorem forall₂_trees {tree : Str → Inja.Tree J} {entries : List ((_ : Str) × InjaTemplate)}
    {templates : List (Str × Template J)}
    (h : List.Forall₂ (fun e x => x.1 = lower e.1 ∧ ParsesTo e.2.text x.2) entries templates)
    (htree : ∀ e ∈ entries, IsTemplate e.2.text (tree e.2.text) ∧ (tree e.2.text).compilable = true)
    (pairs : HeaderMap) (extractions : Dict Str) :
    List.Forall₂ (fun x y => x.1 = y.1 ∧
        TransformerInstance.render { headers := pairs, extractions := extractions, context := NlohmannJson.null } x.2
          = y.2.eval (messageScope pairs extractions))
      templates (entries.map fun e => (lower e.1, tree e.2.text)) := by
  induction h with
  | nil => exact .nil
  | @cons entry template entries templates hhead _ ih =>
    obtain ⟨hname, hparses⟩ := hhead
    obtain ⟨htemplate, hc⟩ := htree entry List.mem_cons_self
    have hcode : template.2 = ⟨(tree entry.2.text).code 0, entry.2.text⟩ :=
      hparses.unique (parse_eq_code new_parser_idle htemplate hc)
    refine .cons ⟨hname, ?_⟩ (ih fun e he => htree e (List.mem_cons_of_mem entry he))
    exact render_eq_eval hc (by rw [hcode]) pairs extractions

/-- A transformer whose templates `tree` reads makes the host calls of the trees and ends as they do. -/
theorem transform_eq_transformTrees {T : Transformation} {tree : Str → Inja.Tree J}
    (htree : ∀ e ∈ T.headers.entries, IsTemplate e.2.text (tree e.2.text) ∧ (tree e.2.text).compilable = true)
    {t : InjaTransformer R J} (hnew : InjaTransformer.new T = .ok t) (pairs : HeaderMap) :
    t.transform pairs = transformTrees t.extractors
      (T.headers.entries.map fun e => (lower e.1, tree e.2.text)) pairs := by
  have htemplates := (InjaTransformer.new_eq_ok.mp hnew).2
  rw [InjaTransformer.transform, transformTrees]
  cases collectExtractions pairs ∅ t.extractors with
  | error e => rfl
  | ok extractions => exact transformHeaders_eq (forall₂_trees htemplates htree pairs extractions)

/-- **The transformer does what the trees of its templates say.**  Where `tree` reads every header template of the
transformation, the constructor accepts it exactly if it accepts the extractors; and the transformer makes, on any
message, the host calls of the trees, and ends as they do. -/
theorem transform_eq_trees {T : Transformation} {tree : Str → Inja.Tree J}
    (htree : ∀ e ∈ T.headers.entries, IsTemplate e.2.text (tree e.2.text) ∧ (tree e.2.text).compilable = true) :
    ((∃ t : InjaTransformer R J, InjaTransformer.new T = .ok t) ↔
        ∃ extractors : List (Str × Extractor R), newExtractors T.extractors.entries = .ok extractors) ∧
      ∀ t : InjaTransformer R J, InjaTransformer.new T = .ok t → ∀ pairs,
        t.transform pairs = transformTrees t.extractors
          (T.headers.entries.map fun e => (lower e.1, tree e.2.text)) pairs := by
  refine ⟨⟨?_, ?_⟩, fun t hnew pairs => transform_eq_transformTrees htree hnew pairs⟩
  · intro haccepted
    obtain ⟨t, hnew⟩ := haccepted
    exact ⟨t.extractors, newExtractors_eq_ok.mpr (InjaTransformer.new_eq_ok.mp hnew).1⟩
  · intro haccepted
    obtain ⟨extractors, hextractors⟩ := haccepted
    refine ⟨⟨extractors, T.headers.entries.map fun e => (lower e.1, ⟨(tree e.2.text).code 0, e.2.text⟩)⟩,
      InjaTransformer.new_eq_ok.mpr ⟨newExtractors_eq_ok.mp hextractors, ?_⟩⟩
    rw [List.forall₂_map_right_iff, List.forall₂_same]
    exact fun e he => ⟨rfl, parse_eq_code new_parser_idle (htree e he).1 (htree e he).2⟩

/-! ### A message -/

noncomputable instance : InjaRenderer Json := runRenderer Json

instance : FaithfulRenderer Json := runRenderer_faithful

/-- A greeting that calls a header of the message. -/
def callingText : Str := "Hi \x7b\x7b header(\"name\") \x7d\x7d"

def callingTree : Inja.Tree Json := .text "Hi " (.print (.call "header" [.literal (.string "name")]) .nil)

theorem callingText_isTemplate : IsTemplate callingText callingTree := by
  have htokens : tokens callingText = [⟨.text, "Hi ", 0⟩, ⟨.expressionOpen, "\x7b\x7b", 3⟩, ⟨.id, "header", 6⟩,
      ⟨.leftParen, "(", 12⟩, ⟨.string, "\"name\"", 13⟩, ⟨.rightParen, ")", 19⟩,
      ⟨.expressionClose, "\x7d\x7d", 21⟩] := by decide +kernel
  have hliteral : JsonText (J := Json) callingText 13 ⟨.string, "\"name\"", 13⟩ (.string "name") := by rfl
  have hargument : Derives (J := Json) callingText .disjunction
      [⟨.string, "\"name\"", 13⟩, ⟨.rightParen, ")", 19⟩, ⟨.expressionClose, "\x7d\x7d", 21⟩]
      (.literal (.string "name")) [⟨.rightParen, ")", 19⟩, ⟨.expressionClose, "\x7d\x7d", 21⟩] :=
    derives_datum (.scalar (Or.inr (Or.inl rfl)) hliteral) (by decide) rfl rfl rfl
  have hcall : Derives (J := Json) callingText .disjunction
      [⟨.id, "header", 6⟩, ⟨.leftParen, "(", 12⟩, ⟨.string, "\"name\"", 13⟩, ⟨.rightParen, ")", 19⟩,
        ⟨.expressionClose, "\x7d\x7d", 21⟩] (.call "header" [.literal (.string "name")])
      [⟨.expressionClose, "\x7d\x7d", 21⟩] :=
    derives_datum (.call rfl rfl (by decide) (.last hargument rfl)) (by decide) rfl rfl rfl
  rw [IsTemplate, htokens]
  exact .text rfl (.print rfl hcall rfl .nil)

/-- A transformation that greets. -/
def callingTransformation : Transformation := .ofHeaders (AList.singleton "X-Greeting".toList ⟨callingText⟩)

theorem transform_eq_trees_calling :
    ∃ t : InjaTransformer PlainRegex Json, InjaTransformer.new callingTransformation = .ok t ∧
      t.transform [("name", "Bob")] = ([.del "x-greeting", .add "x-greeting" "Hi Bob"], .ok ()) := by
  have hread : ∀ e ∈ callingTransformation.headers.entries,
      IsTemplate e.2.text callingTree ∧ callingTree.compilable = true := by
    intro e he
    obtain rfl := List.mem_singleton.mp he
    exact ⟨callingText_isTemplate, by decide +kernel⟩
  obtain ⟨haccepted, htransform⟩ :=
    @transform_eq_trees PlainRegex Json _ _ _ _ _ _ callingTransformation (fun _ => callingTree) hread
  obtain ⟨t, hnew⟩ := haccepted.mpr ⟨[], rfl⟩
  have hextractors : t.extractors = [] := List.forall₂_nil_left_iff.mp (InjaTransformer.new_eq_ok.mp hnew).1
  refine ⟨t, hnew, ?_⟩
  rw [htransform t hnew, hextractors]
  decide +kernel

end EnvoyWasmFilters.TransformationFilter
