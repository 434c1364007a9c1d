import EnvoyWasmFilters.TransformationFilter.HeaderRewrite
import EnvoyWasmFilters.TransformationFilter.RouteSelection

/-!
# The order of a message's headers

The filter looks at a message's headers through `getHeader` alone, which finds the first value of a
name.  Two lists of headers are `SameByName` when one is a permutation of the other that keeps the
order of the entries of each name.

* `getHeader_sameByName` — such lists have the same first values;
* `seenAlike_of_sameByName` — so the filter does the same on both: the selected rule, the extractions,
  the rendered templates and the host calls are equal.
-/

namespace EnvoyWasmFilters.TransformationFilter

open Inja StateExcept

/-- A permutation of the headers that keeps the order of the entries of each name. -/
structure SameByName (h h' : HeaderMap) : Prop where
  perm : h.Perm h'
  order : ∀ name, Multimap.entriesOf name h = Multimap.entriesOf name h'

theorem getHeader_sameByName {h h' : HeaderMap} (hsame : SameByName h h') :
    getHeader h = getHeader h' := by
  funext name
  rw [getHeader_eq_head?, getHeader_eq_head?, hsame.order]

variable {R J : Type} [StdRegex R] [NlohmannJson J]

/-! ### What depends on the first values only -/

section FirstValues

variable {h h' : HeaderMap} (hget : getHeader h = getHeader h')

include hget

theorem matches_congr (m : MatcherImpl) : m.matches h = m.matches h' := by
  simp only [MatcherImpl.matches, hget]

omit [StdRegex R] [NlohmannJson J] in
theorem getRouteTransformation_congr (tc : TransformationConfig R J) :
    tc.getRouteTransformation h = tc.getRouteTransformation h' := by
  simp only [TransformationConfig.getRouteTransformation, matches_congr hget]

theorem extract_congr (x : Extractor R) : x.extract h = x.extract h' := by
  simp only [Extractor.extract, hget]

/-- By induction on the extractors still to run, whatever has been collected before. -/
theorem collectExtractions_congr (extractors : List (Str × Extractor R)) (m : Dict Str) :
    collectExtractions h m extractors = collectExtractions h' m extractors := by
  induction extractors generalizing m with
  | nil => rfl
  | cons x extractors ih =>
    rw [collectExtractions, collectExtractions, extract_congr hget]
    exact bind_congr fun value => ih _

variable [InjaRenderer J]

omit [StdRegex R] in
/-- Of the three callbacks only `header` looks at the headers. -/
theorem render_headers_congr (extractions : Dict Str) (context : J) (tmpl : Template J) :
    TransformerInstance.render
        { headers := h, extractions := extractions, context := context } tmpl
      = TransformerInstance.render
        { headers := h', extractions := extractions, context := context } tmpl := by
  have hcallback : TransformerInstance.headerCallback
        { headers := h, extractions := extractions, context := context }
      = TransformerInstance.headerCallback
        { headers := h', extractions := extractions, context := context } := by
    funext args
    simp only [TransformerInstance.headerCallback, hget]
  simp only [TransformerInstance.render, TransformerInstance.callbacks]
  rw [hcallback]
  rfl

theorem rendersTo_congr (t : InjaTransformer R J) (tmpl : Template J) (text : Str) :
    t.RendersTo h tmpl text ↔ t.RendersTo h' tmpl text := by
  simp only [InjaTransformer.RendersTo, collectExtractions_congr hget, render_headers_congr hget]

theorem failsOn_congr (t : InjaTransformer R J) (tmpl : Template J) :
    t.FailsOn h tmpl ↔ t.FailsOn h' tmpl := by
  simp only [InjaTransformer.FailsOn, collectExtractions_congr hget, render_headers_congr hget]

theorem transform_congr (t : InjaTransformer R J) : t.transform h = t.transform h' := by
  have hrender : ∀ extractions : Dict Str,
      TransformerInstance.render
          { headers := h, extractions := extractions, context := (NlohmannJson.null : J) }
        = TransformerInstance.render
          { headers := h', extractions := extractions, context := NlohmannJson.null } :=
    fun extractions => funext fun tmpl => render_headers_congr hget extractions _ tmpl
  simp only [InjaTransformer.transform, collectExtractions_congr hget, hrender]

end FirstValues

/-! ### Reordered headers -/

/-- The filter built from a configuration does the same on two lists of headers. -/
structure SeenAlike (R J : Type) [StdRegex R] [NlohmannJson J] [InjaRenderer J] (config : Config)
    (h h' : HeaderMap) : Prop where
  selected : ∀ tc : TransformationConfig R J, TransformationConfig.new config = .ok tc →
    tc.getRouteTransformation h = tc.getRouteTransformation h'
  extracted : ∀ x : Extractor R, x.extract h = x.extract h'
  rendered : ∀ (t : InjaTransformer R J) (tmpl : Template J) (text : Str),
    t.RendersTo h tmpl text ↔ t.RendersTo h' tmpl text
  failed : ∀ (t : InjaTransformer R J) (tmpl : Template J), t.FailsOn h tmpl ↔ t.FailsOn h' tmpl
  calls : ∀ t : InjaTransformer R J, t.transform h = t.transform h'

/-- **The order of headers of different names does not matter.** -/
theorem seenAlike_of_sameByName [InjaRenderer J] (config : Config) {h h' : HeaderMap}
    (hsame : SameByName h h') : SeenAlike R J config h h' := by
  have hget := getHeader_sameByName hsame
  exact {
    selected := fun tc _ => getRouteTransformation_congr hget tc
    extracted := extract_congr hget
    rendered := rendersTo_congr hget
    failed := failsOn_congr hget
    calls := transform_congr hget }

/-- A second `:path` stays behind the first one. -/
theorem seenAlike_path : SeenAlike PlainRegex PlainJson ⟨[pathRule]⟩
    [(":path", "/a/b"), ("x-user", "u"), (":path", "/c")]
    [("x-user", "u"), (":path", "/a/b"), (":path", "/c")] := by
  refine seenAlike_of_sameByName _ ⟨List.Perm.swap _ _ _, fun name => ?_⟩
  by_cases hname : ("x-user" : Str) = name
  · subst hname
    decide
  · simp only [Multimap.entriesOf, List.filter_cons, hname]
    rfl

end EnvoyWasmFilters.TransformationFilter
