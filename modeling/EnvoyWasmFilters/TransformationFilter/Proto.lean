import EnvoyWasmFilters.Common.Runtime

/-!
# The transformation filter's configuration messages

`filter.proto`, message by message.  A singular submessage whose presence the code never tests is
held by value (an unset one reads as the empty message); `request_transformation` and
`response_transformation`, tested with `has_…`, are optional.
-/

namespace EnvoyWasmFilters.TransformationFilter

/-- `message InjaTemplate`. -/
structure InjaTemplate where
  text : Str

/-- `message Extraction`.  `source` is the `oneof` holding the header name. -/
structure Extraction where
  source : Option Str
  regex : Str
  subgroup : ℕ

/-- The accessor `extractor.header()`: an unset `oneof` string reads as the empty string. -/
def Extraction.header (e : Extraction) : Str := e.source.getD []

/-- `message Transformation`. -/
structure Transformation where
  extractors : Dict Extraction
  headers : Dict InjaTemplate

/-- `message RouteTransformations`. -/
structure RouteTransformations where
  requestTransformation : Option Transformation
  responseTransformation : Option Transformation

/-- The `oneof header_match_specifier`. -/
inductive HeaderMatchSpecifier where
  | exactMatch (value : Str)
  | prefixMatch (value : Str)
  | suffixMatch (value : Str)
  | presentMatch (value : Bool)
deriving DecidableEq

/-- `message HeaderMatch`. -/
structure HeaderMatch where
  name : Str
  headerMatchSpecifier : Option HeaderMatchSpecifier
deriving DecidableEq

/-- `message Matcher`. -/
structure Matcher where
  headerMatchers : List HeaderMatch

/-- `message TransformationRule`. -/
structure TransformationRule where
  matcher : Matcher
  routeTransformations : RouteTransformations

/-- `message Config`. -/
structure Config where
  transformations : List TransformationRule

end EnvoyWasmFilters.TransformationFilter
