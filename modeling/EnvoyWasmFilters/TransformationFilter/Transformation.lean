import EnvoyWasmFilters.Inja.ParserTotal
import EnvoyWasmFilters.TransformationFilter.Matcher

/-!
# Transformations

`transformation.cc`: extractors, the instance that renders one message's templates, the transformer
built from a `Transformation`, and the table of rules built from a `Config`.

`std::regex` is not part of the repository and appears as a class over arbitrary types (`StdRegex`).
The renderer of inja is, and is modelled in `Inja.Renderer`.  Most of what is proved of the filter
holds of every renderer, so that the renderer is a class as well (`InjaRenderer`); `TemplateMeaning`
gives the instance that runs inja's.  A function that may throw returns `Except Stop`.
`InjaTransformer.transform` throws between its host calls, so it returns the calls made so far
together with how it ended.
-/

namespace EnvoyWasmFilters.TransformationFilter

open Inja

/-- The operations of `std::regex` the filter uses.  A submatch that took part in the match is its
text. -/
class StdRegex (R : Type) where
  /-- `std::regex(pattern)`, which throws `std::regex_error`. -/
  compile : Str → Except Stop R
  /-- `mark_count()`. -/
  markCount : R → ℕ
  /-- `std::regex_match` with its `match_results`, which may throw `std::regex_error`. -/
  regexMatch : R → Str → Except Stop (Option (List (Option Str)))

/-- `inja::Environment::render`, given the environment's callbacks. -/
class InjaRenderer (J : Type) where
  render : Callbacks J → Template J → J → Except Stop Str

variable {R J : Type} [StdRegex R] [NlohmannJson J] [InjaRenderer J]

/-! ### Extractors -/

/-- `class Extractor`. -/
structure Extractor (R : Type) where
  headername : Str
  group : ℕ
  extractRegex : R
deriving DecidableEq

/-- The constructor of `Extractor`. -/
def Extractor.new (extractor : Extraction) : Except Stop (Extractor R) := do
  let extractRegex ← StdRegex.compile extractor.regex
  if StdRegex.markCount extractRegex < extractor.subgroup then
    throw (.logicError "group requested for regex outside range")
  else
    pure { headername := extractor.header, group := extractor.subgroup, extractRegex := extractRegex }

/-- `Extractor::extractValue`. -/
def Extractor.extractValue (e : Extractor R) (value : Str) : Except Stop Str := do
  match ← StdRegex.regexMatch e.extractRegex value with
  | none => pure []
  | some regexResult =>
      match regexResult[e.group]? with
      | none => pure []
      | some none => pure []
      | some (some subMatch) => pure subMatch

/-- `Extractor::extract`. -/
def Extractor.extract (e : Extractor R) (headers : HeaderMap) : Except Stop Str :=
  match getHeader headers e.headername with
  | some value => e.extractValue value
  | none => pure []

/-! ### Rendering -/

/-- `class TransformerInstance`. -/
structure TransformerInstance (J : Type) where
  headers : HeaderMap
  extractions : Dict Str
  context : J

/-- `args.at(0)`. -/
def firstArgument (args : List J) : Except Stop J :=
  match args with
  | [] => throw (.logicError "vector")
  | arg :: _ => pure arg

/-- `header_callback`. -/
def TransformerInstance.headerCallback (i : TransformerInstance J) (args : List J) :
    Except Stop J := do
  let headername ← NlohmannJson.getString (← firstArgument args)
  pure (NlohmannJson.string ((getHeader i.headers headername).getD []))

/-- `extracted_callback`. -/
def TransformerInstance.extractedCallback (i : TransformerInstance J) (args : List J) :
    Except Stop J := do
  let name ← NlohmannJson.getString (← firstArgument args)
  pure (NlohmannJson.string ((i.extractions.lookup name).getD []))

/-- The callbacks the constructor of `TransformerInstance` adds to its environment. -/
def TransformerInstance.callbacks (i : TransformerInstance J) : Callbacks J :=
  [(("header", 1), i.headerCallback),
   (("extraction", 1), i.extractedCallback),
   (("context", 0), fun _ => pure i.context)]

/-- `TransformerInstance::render`.  The data `{}` is the default JSON value. -/
def TransformerInstance.render (i : TransformerInstance J) (input : Template J) : Except Stop Str :=
  if NlohmannJson.isObject i.context then InjaRenderer.render i.callbacks input i.context
  else InjaRenderer.render i.callbacks input NlohmannJson.null

/-! ### The transformer -/

/-- `class InjaTransformer`. -/
structure InjaTransformer (R J : Type) where
  extractors : List (Str × Extractor R)
  headers : List (Str × Template J)
deriving DecidableEq

/-- `std::transform(…, tolower)`. -/
def lower (name : Str) : Str := name.map Char.toLower

/-- The constructor's loop over `transformation.extractors()`. -/
def newExtractors : List ((_ : Str) × Extraction) → Except Stop (List (Str × Extractor R))
  | [] => pure []
  | entry :: entries => do
      let extractor ← Extractor.new entry.2
      let rest ← newExtractors entries
      pure ((entry.1, extractor) :: rest)

/-- The constructor's loop over `transformation.headers()`: every template goes through the one
parser. -/
def parseHeaders : Parser J → List ((_ : Str) × InjaTemplate) → Except Stop (List (Str × Template J))
  | _, [] => pure []
  | parser, entry :: entries => do
      let parsed ← parser.parse entry.2.text
      let rest ← parseHeaders parsed.2 entries
      pure ((lower entry.1, parsed.1) :: rest)

/-- The constructor of `InjaTransformer`. -/
def InjaTransformer.new (transformation : Transformation) : Except Stop (InjaTransformer R J) := do
  let extractors ← newExtractors transformation.extractors.entries
  let headers ← parseHeaders {} transformation.headers.entries
  pure { extractors := extractors, headers := headers }

/-- The loop that fills the local map `extractions`. -/
def collectExtractions (headers : HeaderMap) :
    Dict Str → List (Str × Extractor R) → Except Stop (Dict Str)
  | extractions, [] => pure extractions
  | extractions, named :: rest => do
      let value ← named.2.extract headers
      collectExtractions headers (extractions.insert named.1 value) rest

/-- The host calls for one rendered header: `del`, and `add` unless the text is empty. -/
def headerCalls (name output : Str) : List HeaderCall :=
  if output.isEmpty then [.del name] else [.del name, .add name output]

/-- The loop over `headers_`. -/
def transformHeaders (render : Template J → Except Stop Str) :
    List (Str × Template J) → List HeaderCall × Except Stop Unit
  | [] => ([], pure ())
  | header :: headers =>
      match render header.2 with
      | .error e => ([], .error e)
      | .ok output =>
          let rest := transformHeaders render headers
          (headerCalls header.1 output ++ rest.1, rest.2)

/-- `InjaTransformer::transform`: the host calls made, and how it ended. -/
def InjaTransformer.transform (t : InjaTransformer R J) (headers : HeaderMap) :
    List HeaderCall × Except Stop Unit :=
  match collectExtractions headers ∅ t.extractors with
  | .error e => ([], .error e)
  | .ok extractions =>
      let inst : TransformerInstance J :=
        { headers := headers, extractions := extractions, context := NlohmannJson.null }
      transformHeaders inst.render t.headers

/-! ### Routes -/

/-- `struct RouteTransformers`. -/
structure RouteTransformers (R J : Type) where
  request : Option (InjaTransformer R J)
  response : Option (InjaTransformer R J)

/-- An optional transformation's transformer. -/
def newTransformer : Option Transformation → Except Stop (Option (InjaTransformer R J))
  | none => pure none
  | some transformation => do
      let transformer ← InjaTransformer.new transformation
      pure (some transformer)

/-- The transformers of one rule, the request's first. -/
def RouteTransformers.new (routes : RouteTransformations) : Except Stop (RouteTransformers R J) := do
  let request ← newTransformer routes.requestTransformation
  let response ← newTransformer routes.responseTransformation
  pure { request := request, response := response }

/-- `class TransformationConfig`. -/
structure TransformationConfig (R J : Type) where
  transformations : List (MatcherImpl × RouteTransformers R J)

/-- The loop of the constructor of `TransformationConfig`. -/
def newTransformations :
    List TransformationRule → Except Stop (List (MatcherImpl × RouteTransformers R J))
  | [] => pure []
  | rule :: rules => do
      let rt ← RouteTransformers.new rule.routeTransformations
      let rest ← newTransformations rules
      pure ((MatcherImpl.new rule.matcher, rt) :: rest)

/-- The constructor of `TransformationConfig`. -/
def TransformationConfig.new (config : Config) : Except Stop (TransformationConfig R J) := do
  let transformations ← newTransformations config.transformations
  pure { transformations := transformations }

/-- `getRouteTransformation`: the index of the element the returned pointer points to. -/
def TransformationConfig.getRouteTransformation (c : TransformationConfig R J)
    (headers : HeaderMap) : Option ℕ :=
  c.transformations.findIdx? fun transformation => transformation.1.matches headers

end EnvoyWasmFilters.TransformationFilter
