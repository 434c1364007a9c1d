import EnvoyWasmFilters.Common.RequestInfo

/-!
# The metrics filter

`WasmStats`, `SimpleStat`, `StatGen`, `StatsRootContext` and `StatsContext` of the directory `metrics`.
A callback takes what it reads of the host and gives what it leaves.

* The calls on metrics are collected in a list of `MetricCall`s.  What the host does on them is in
  `MetricCall.exec`.
* `JsonText` stands for the protobuf library: what `JsonStringToMessage` makes of a configuration.
* `config_` is left out: no callback reads the pointer.
-/

namespace EnvoyWasmFilters.Metrics

open Common

/-! ### Metrics at the host -/

/-- The types of metric that the filter creates. -/
inductive MetricType where
  | counter | histogram
deriving DecidableEq

/-- A metric of the host.  The host numbers its metrics; the number stands for the type and the full
name with which the metric was defined. -/
structure MetricId where
  type : MetricType
  name : Str
deriving DecidableEq

/-- A call that changes a metric: `incrementMetric` or `recordMetric`. -/
inductive MetricCall where
  | increment (metricId : MetricId) (offset : UInt64)
  | record (metricId : MetricId) (value : UInt64)
deriving DecidableEq

/-- The totals of the counters and the samples of the histograms, the oldest first. -/
@[ext] structure MetricStore where
  counters : MetricId → ℕ := fun _ => 0
  histograms : MetricId → List UInt64 := fun _ => []

/-- A counter goes up by `n`. -/
def MetricStore.add (store : MetricStore) (metricId : MetricId) (n : UInt64) : MetricStore :=
  { store with
    counters := Function.update store.counters metricId (store.counters metricId + n.toNat) }

/-- A histogram gets a sample. -/
def MetricStore.sample (store : MetricStore) (metricId : MetricId) (n : UInt64) : MetricStore :=
  { store with
    histograms := Function.update store.histograms metricId (store.histograms metricId ++ [n]) }

/-- What the host does on a call.  Both calls add to a counter; a histogram can only be recorded. -/
def MetricCall.exec (store : MetricStore) : MetricCall → MetricStore
  | .increment metricId offset =>
      match metricId.type with
      | .counter => store.add metricId offset
      | .histogram => store
  | .record metricId value =>
      match metricId.type with
      | .counter => store.add metricId value
      | .histogram => store.sample metricId value

/-- The host's metrics after a sequence of calls. -/
def execCalls (store : MetricStore) (calls : List MetricCall) : MetricStore :=
  calls.foldl MetricCall.exec store

theorem execCalls_append (store : MetricStore) (calls calls' : List MetricCall) :
    execCalls store (calls ++ calls') = execCalls (execCalls store calls) calls' := by
  rw [execCalls, List.foldl_append]
  rfl

/-! ### Statistics -/

/-- `ValueExtractorFn`. -/
abbrev ValueExtractorFn := RequestInfo → UInt64

/-- `class SimpleStat`. -/
structure SimpleStat where
  metricId : MetricId
  metricType : MetricType
  valueFn : ValueExtractorFn

/-- `record`. -/
def SimpleStat.record (stat : SimpleStat) (requestInfo : RequestInfo) : List MetricCall :=
  match stat.metricType with
  -- no `break` ends the counter's case, so the default case runs too
  | .counter =>
      [.increment stat.metricId (stat.valueFn requestInfo),
        .record stat.metricId (stat.valueFn requestInfo)]
  | .histogram => [.record stat.metricId (stat.valueFn requestInfo)]

/-- `class StatGen`. -/
structure StatGen where
  name : Str
  metricType : MetricType
  valueFn : ValueExtractorFn

/-- `resolveWithFields`, called without dimension values only: the full name is then the name. -/
def StatGen.metricId (statgen : StatGen) : MetricId := ⟨statgen.metricType, statgen.name⟩

/-- `resolve`. -/
def StatGen.resolve (statgen : StatGen) : SimpleStat :=
  ⟨statgen.metricId, statgen.metricType, statgen.valueFn⟩

/-- `struct WasmStats`. -/
structure WasmStats where
  destinationService : Str := []
  destinationPort : Str := []
  requestProtocol : Str := []
  responseCode : Str := []
  responseFlags : Str := []
  outbound : Bool := false

/-- `map`. -/
def WasmStats.map (stats : WasmStats) (request : RequestInfo) : WasmStats :=
  { stats with
    destinationService := request.destinationServiceHost
    destinationPort := stdToString request.destinationPort.toNat
    requestProtocol := request.requestProtocol
    responseCode := stdToString request.responseCode.toNat
    responseFlags := request.responseFlag }

/-! ### The root context -/

/-- `message Config`, less the separators, which nothing reads. -/
structure Config where
  statPrefix : Str := []
  disableHostHeaderFallback : Bool := false

/-- The protobuf library: whether `JsonStringToMessage` accepts a text, and what it leaves in a message
that was empty. -/
class JsonText where
  jsonStringToMessage : Str → Bool × Config

/-- The members of `class StatsRootContext`. -/
structure StatsRootContext where
  outbound : Bool
  useHostHeaderFallback : Bool
  wasmStats : WasmStats := {}
  stats : List StatGen := []

/-- `default_stat_prefix`. -/
def defaultStatPrefix : Str := "wasm"

/-- `stat_prefix` in `onConfigure`, with the underscores around it. -/
def statPrefix (config : Config) : Str :=
  "_" ++ (if config.statPrefix = [] then defaultStatPrefix else config.statPrefix) ++ "_"

def requestsTotal : Str := "requests_total"
def requestDurationMilliseconds : Str := "request_duration_milliseconds"
def requestBytes : Str := "request_bytes"
def responseBytes : Str := "response_bytes"
def extauthRejectedRequests : Str := "extauth_rejected_requests"
def ratelimitedRequests : Str := "ratelimited_requests"

/-- The extractor of a counter of the requests with one response flag. -/
def hasResponseFlag (responseFlag : Str) : ValueExtractorFn :=
  fun requestInfo => if requestInfo.responseFlag = responseFlag then 1 else 0

/-- The extractor of the duration. -/
def durationMilliseconds : ValueExtractorFn :=
  fun requestInfo => ((requestInfo.endTimestamp - requestInfo.startTimestamp) / 1000000).toUInt64

/-- The statistics that `onConfigure` creates. -/
def statGens (statPrefix : Str) : List StatGen :=
  [⟨statPrefix ++ requestsTotal, .counter, fun _ => 1⟩,
    ⟨statPrefix ++ extauthRejectedRequests, .counter, hasResponseFlag "UAEX"⟩,
    ⟨statPrefix ++ ratelimitedRequests, .counter, hasResponseFlag "RL"⟩,
    ⟨statPrefix ++ requestDurationMilliseconds, .histogram, durationMilliseconds⟩,
    ⟨statPrefix ++ requestBytes, .histogram, fun requestInfo => requestInfo.requestSize.toUInt64⟩,
    ⟨statPrefix ++ responseBytes, .histogram, fun requestInfo => requestInfo.responseSize.toUInt64⟩]

/-- `TrafficDirection`, an enumeration over all of `int64_t`. -/
abbrev TrafficDirection := Int64

/-- `TrafficDirection::Outbound`. -/
def TrafficDirection.outbound : TrafficDirection := 2

/-- `getTrafficDirection`, of the property `listener_direction`. -/
def getTrafficDirection (listenerDirection : Option Int64) : TrafficDirection :=
  listenerDirection.getD 0

/-- `onConfigure`.  A text that is no configuration is logged and otherwise ignored. -/
def StatsRootContext.onConfigure [JsonText] (root : StatsRootContext) (configuration : Str)
    (listenerDirection : Option Int64) : Bool × StatsRootContext :=
  let config := (JsonText.jsonStringToMessage configuration).2
  let outbound := decide (getTrafficDirection listenerDirection = TrafficDirection.outbound)
  (true,
    { outbound := outbound
      useHostHeaderFallback := true
      wasmStats := { root.wasmStats with outbound := outbound }
      stats := statGens (statPrefix config) })

/-- `report`. -/
def StatsRootContext.report (root : StatsRootContext) (requestInfo : RequestInfo) :
    List MetricCall × StatsRootContext :=
  (root.stats.flatMap fun statgen => statgen.resolve.record requestInfo,
    { root with wasmStats := root.wasmStats.map requestInfo })

/-! ### The stream context -/

/-- The members of `class StatsContext`. -/
structure StatsContext where
  requestInfo : RequestInfo := {}

/-- `onRequestHeaders`. -/
def StatsContext.onRequestHeaders (context : StatsContext) (currentTimeNanoseconds : UInt64) :
    FilterHeadersStatus × StatsContext :=
  (.continue,
    { context with
      requestInfo :=
        { context.requestInfo with startTimestamp := currentTimeNanoseconds.toInt64 } })

/-- `onRequestBody`. -/
def StatsContext.onRequestBody (context : StatsContext) (bodyBufferLength : UInt64)
    (_endOfStream : Bool) : FilterDataStatus × StatsContext :=
  (.continue,
    { context with
      requestInfo :=
        { context.requestInfo with
          requestSize := context.requestInfo.requestSize + bodyBufferLength.toInt64 } })

/-- `onResponseBody`. -/
def StatsContext.onResponseBody (context : StatsContext) (bodyBufferLength : UInt64)
    (_endOfStream : Bool) : FilterDataStatus × StatsContext :=
  (.continue,
    { context with
      requestInfo :=
        { context.requestInfo with
          responseSize := context.requestInfo.responseSize + bodyBufferLength.toInt64 } })

/-- `onLog`. -/
def StatsContext.onLog (context : StatsContext) (root : StatsRootContext)
    (host : RequestProperties) : List MetricCall × StatsRootContext × StatsContext :=
  let requestInfo :=
    populateHTTPRequestInfo root.outbound root.useHostHeaderFallback host context.requestInfo
  let reported := root.report requestInfo
  (reported.1, reported.2, { context with requestInfo := requestInfo })

end EnvoyWasmFilters.Metrics
