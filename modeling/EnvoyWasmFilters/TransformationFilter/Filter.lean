import EnvoyWasmFilters.TransformationFilter.Transformation

/-!
# The transformation filter's contexts

`filter.cc`: the root context, which `onConfigure` gives its rules, and the context of one stream,
which keeps a raw pointer to the `RouteTransformers` selected by the stream's request headers.

The pointer points into the vector of the root context's `TransformationConfig`.  It is modelled as
the number of the value it points into (`generation`: how often `emplace` has run) and an index; what
it points to, `RootContext.deref`, is there only while that very value exists.  A callback that
dereferences anything else has no result (`none`).

`google::protobuf::util::JsonStringToMessage` is not part of the repository: it is the parameter
`jsonStringToMessage`, giving the message or the text of the status.
-/

namespace EnvoyWasmFilters.TransformationFilter

open Inja

variable {R J : Type} [StdRegex R] [NlohmannJson J]

/-- What `getConfiguration()` returns: a null pointer, a buffer without data, or a text. -/
inductive Configuration where
  | null
  | nullData
  | data (text : Str)
deriving DecidableEq

/-- `class TransformationRootContext`.  `generation` counts the values `transformation_config_` has
been given. -/
structure RootContext (R J : Type) where
  transformationConfig : Option (TransformationConfig R J) := none
  generation : ℕ := 0

/-- `transformation_config_.emplace(config)`: the old value is destroyed first, and the optional
stays empty if the constructor does not return. -/
def RootContext.emplace (root : RootContext R J) (config : Config) :
    Except Stop Unit × RootContext R J :=
  match TransformationConfig.new config with
  | .ok value => (pure (), ⟨some value, root.generation + 1⟩)
  | .error e => (.error e, ⟨none, root.generation + 1⟩)

/-- How a call of `onConfigure` ends, the root context it leaves and what it logs. -/
structure Configured (R J : Type) where
  returned : Except Stop Bool
  root : RootContext R J
  log : List Str := []

/-- `TransformationRootContext::onConfigure`. -/
def RootContext.onConfigure (jsonStringToMessage : Str → Except Str Config) (root : RootContext R J) :
    Configuration → Configured R J
  | .null =>
      { returned := pure true, root := root
        log := ["received null config - filter will be disabled"] }
  | .nullData =>
      { returned := pure true, root := root
        log := ["received null config data - filter will be disabled"] }
  | .data confStr =>
      match jsonStringToMessage confStr with
      | .error status =>
          { returned := pure false, root := root
            log := ["failed parsing config:" ++ confStr ++ "\n error:" ++ status] }
      | .ok config =>
          let emplaced := root.emplace config
          { returned := emplaced.1.map fun _ => true, root := emplaced.2 }

/-- `const RouteTransformers*`, as it is stored in a stream's context. -/
structure RoutePointer where
  generation : ℕ
  index : ℕ
deriving DecidableEq

/-- What a stored pointer points to, if the value it was taken from still exists. -/
def RootContext.deref (root : RootContext R J) (pointer : RoutePointer) :
    Option (RouteTransformers R J) :=
  if root.generation = pointer.generation then
    root.transformationConfig.bind fun config =>
      config.transformations[pointer.index]?.map Prod.snd
  else none

/-- What the request headers select: the transformers of the rule found for them. -/
def RootContext.selectedRoute (root : RootContext R J) (pairs : HeaderMap) :
    Option (RouteTransformers R J) :=
  root.transformationConfig.bind fun config =>
    (config.getRouteTransformation pairs).bind fun index =>
      config.transformations[index]?.map Prod.snd

/-- `class TransformationContext`, for a stream of the given root context. -/
structure TransformationContext where
  transformation : Option RoutePointer := none
deriving DecidableEq

/-- How a header callback ends, the header map it leaves at the host and what it logs. -/
structure HeadersResult where
  status : Except Stop FilterHeadersStatus
  headers : HeaderMap
  log : List Str := []

section Callbacks

variable [InjaRenderer J]

/-- The `try` block of a callback: the transformer's calls reach the host as it runs, and an exception
is logged and swallowed. -/
def runTransformer (direction : Str) (transformer : InjaTransformer R J) (headers : HeaderMap) :
    HeadersResult :=
  let transformed := transformer.transform headers
  let forwarded := execCalls headers transformed.1
  match transformed.2 with
  | .ok () => { status := pure .continue, headers := forwarded }
  | .error e =>
      if e.isException then
        { status := pure .continue, headers := forwarded
          log := ["exception while transforming " ++ direction ++ ":" ++ e.what] }
      else { status := .error e, headers := forwarded }

/-- A callback after it has found its route: nothing to do without a transformer. -/
def applyTransformer (direction : Str) (transformer : Option (InjaTransformer R J))
    (headers : HeaderMap) : HeadersResult :=
  match transformer with
  | none => { status := pure .continue, headers := headers }
  | some t => runTransformer direction t headers

/-- `TransformationContext::onRequestHeaders`. -/
def TransformationContext.onRequestHeaders (context : TransformationContext) (root : RootContext R J)
    (pairs : HeaderMap) : Option (HeadersResult × TransformationContext) :=
  match root.transformationConfig with
  | none => some ({ status := pure .continue, headers := pairs }, context)
  | some config =>
      match config.getRouteTransformation pairs with
      | none => some ({ status := pure .continue, headers := pairs }, { transformation := none })
      | some index => do
          let pointer : RoutePointer := ⟨root.generation, index⟩
          let route ← root.deref pointer
          pure (applyTransformer "request" route.request pairs, { transformation := some pointer })

/-- `TransformationContext::onResponseHeaders`. -/
def TransformationContext.onResponseHeaders (context : TransformationContext)
    (root : RootContext R J) (pairs : HeaderMap) : Option HeadersResult :=
  match context.transformation with
  | none => some { status := pure .continue, headers := pairs }
  | some pointer => do
      let route ← root.deref pointer
      pure (applyTransformer "response" route.response pairs)

/-! ### What a stream's headers select -/

omit [StdRegex R] [NlohmannJson J] [InjaRenderer J] in
/-- What is selected is what the pointer taken at that moment points to. -/
theorem deref_selected {root : RootContext R J} {config : TransformationConfig R J} {index : ℕ}
    {pairs : HeaderMap} (hconfig : root.transformationConfig = some config)
    (hindex : config.getRouteTransformation pairs = some index) :
    ∃ route, root.deref ⟨root.generation, index⟩ = some route ∧
      root.selectedRoute pairs = some route := by
  have hlt : index < config.transformations.length := by
    obtain ⟨hi, -, -⟩ := List.findIdx?_eq_some_iff_getElem.mp hindex
    exact hi
  refine ⟨config.transformations[index].2, ?_, ?_⟩
  · rw [RootContext.deref, if_pos rfl, hconfig, Option.bind_some, List.getElem?_eq_getElem hlt]
    rfl
  · rw [RootContext.selectedRoute, hconfig, Option.bind_some, hindex, Option.bind_some,
      List.getElem?_eq_getElem hlt]
    rfl

/-- The request callback on headers that select a route. -/
theorem onRequestHeaders_selected {root : RootContext R J} (context : TransformationContext)
    {pairs : HeaderMap} {route : RouteTransformers R J}
    (h : root.selectedRoute pairs = some route) :
    ∃ context', context.onRequestHeaders root pairs
      = some (applyTransformer "request" route.request pairs, context') := by
  obtain ⟨config, hconfig, hroute⟩ := Option.bind_eq_some_iff.mp h
  obtain ⟨index, hindex, -⟩ := Option.bind_eq_some_iff.mp hroute
  obtain ⟨route', hderef, hselected⟩ := deref_selected hconfig hindex
  obtain rfl : route = route' := Option.some.inj (h.symm.trans hselected)
  refine ⟨{ transformation := some ⟨root.generation, index⟩ }, ?_⟩
  simp only [TransformationContext.onRequestHeaders, hconfig, hindex, hderef, Option.bind_eq_bind,
    Option.bind_some, Option.pure_def]

end Callbacks

/-! ### What `onConfigure` does to the root context -/

section Configure

variable {jsonStringToMessage : Str → Except Str Config} (root : RootContext R J)

/-- A null configuration and null data are accepted and change nothing. -/
theorem onConfigure_null (conf : Configuration) (h : ∀ text, conf ≠ .data text) :
    (root.onConfigure jsonStringToMessage conf).returned = pure true ∧
      (root.onConfigure jsonStringToMessage conf).root = root := by
  cases conf with
  | null => exact ⟨rfl, rfl⟩
  | nullData => exact ⟨rfl, rfl⟩
  | data text => exact absurd rfl (h text)

/-- A text the JSON parser rejects is refused and changes nothing. -/
theorem onConfigure_rejected {text status : Str} (h : jsonStringToMessage text = .error status) :
    (root.onConfigure jsonStringToMessage (.data text)).returned = pure false ∧
      (root.onConfigure jsonStringToMessage (.data text)).root = root := by
  simp only [RootContext.onConfigure, h]
  exact ⟨trivial, trivial⟩

/-- A usable configuration replaces the old one. -/
theorem onConfigure_usable {text : Str} {config : Config} {value : TransformationConfig R J}
    (h : jsonStringToMessage text = .ok config) (hnew : TransformationConfig.new config = .ok value) :
    (root.onConfigure jsonStringToMessage (.data text)).returned = pure true ∧
      (root.onConfigure jsonStringToMessage (.data text)).root
        = ⟨some value, root.generation + 1⟩ := by
  simp only [RootContext.onConfigure, RootContext.emplace, h, hnew]
  exact ⟨rfl, trivial⟩

/-- A configuration whose rules cannot be built leaves no configuration at all, and the call does not
return. -/
theorem onConfigure_unbuildable {text : Str} {config : Config} {e : Stop}
    (h : jsonStringToMessage text = .ok config)
    (hnew : (TransformationConfig.new config : Except Stop (TransformationConfig R J)) = .error e) :
    (root.onConfigure jsonStringToMessage (.data text)).returned = .error e ∧
      (root.onConfigure jsonStringToMessage (.data text)).root = ⟨none, root.generation + 1⟩ := by
  simp only [RootContext.onConfigure, RootContext.emplace, h, hnew]
  exact ⟨rfl, trivial⟩

end Configure

end EnvoyWasmFilters.TransformationFilter
