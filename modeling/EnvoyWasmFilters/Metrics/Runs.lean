import EnvoyWasmFilters.Library.GuardedRun
import EnvoyWasmFilters.Metrics.Filter

/-!
# Runs of the metrics filter

One root context with any number of streams.  The callbacks come in any order, those of the streams
interleaved; a stream has its context from the first of them on.
-/

namespace EnvoyWasmFilters.Metrics

open Common GuardedRun

/-- A callback, on the root or on the stream `id`. -/
inductive Event where
  | configure (configuration : Str) (listenerDirection : Option Int64)
  | requestHeaders (id : ℕ) (currentTimeNanoseconds : UInt64)
  | requestBody (id : ℕ) (bodyBufferLength : UInt64) (endOfStream : Bool)
  | responseBody (id : ℕ) (bodyBufferLength : UInt64) (endOfStream : Bool)
  | log (id : ℕ) (host : RequestProperties)
deriving DecidableEq

/-- One `onLog`: the statistics the root had, and what was reported. -/
structure Report where
  stats : List StatGen
  requestInfo : RequestInfo

/-- The root, its streams and the metrics at the host.  `reports` is no data of the filter: it lists
the executions of `onLog`. -/
structure MetricsState where
  root : StatsRootContext
  streams : ℕ → StatsContext := fun _ => {}
  metrics : MetricStore := {}
  reports : List Report := []

/-- Before the first callback.  `outbound_` and `use_host_header_fallback_` have no initial value in
the source, so they are whatever is in the memory. -/
def MetricsState.start (outbound useHostHeaderFallback : Bool) (metrics : MetricStore) :
    MetricsState where
  root := { outbound := outbound, useHostHeaderFallback := useHostHeaderFallback }
  metrics := metrics

variable [JsonText]

/-- A stream has another context. -/
def MetricsState.setStream (s : MetricsState) (id : ℕ) (context : StatsContext) : MetricsState :=
  { s with streams := Function.update s.streams id context }

/-- One callback. -/
def MetricsState.step (s : MetricsState) : Event → MetricsState
  | .configure configuration listenerDirection =>
      { s with root := (s.root.onConfigure configuration listenerDirection).2 }
  | .requestHeaders id currentTimeNanoseconds =>
      s.setStream id ((s.streams id).onRequestHeaders currentTimeNanoseconds).2
  | .requestBody id bodyBufferLength endOfStream =>
      s.setStream id ((s.streams id).onRequestBody bodyBufferLength endOfStream).2
  | .responseBody id bodyBufferLength endOfStream =>
      s.setStream id ((s.streams id).onResponseBody bodyBufferLength endOfStream).2
  | .log id host =>
      let logged := (s.streams id).onLog s.root host
      { root := logged.2.1
        streams := Function.update s.streams id logged.2.2
        metrics := execCalls s.metrics logged.1
        reports := s.reports ++ [⟨s.root.stats, logged.2.2.requestInfo⟩] }

/-! ### What the root has -/

/-- The statistics of a root that was configured or was not. -/
def StatsRootContext.WellFormed (root : StatsRootContext) : Prop :=
  root.stats = [] ∨ ∃ statPrefix, root.stats = statGens statPrefix

/-- No callback takes them apart. -/
theorem step_wellFormed (s : MetricsState) (e : Event) (h : s.root.WellFormed) :
    (s.step e).root.WellFormed := by
  cases e with
  | configure configuration listenerDirection => exact .inr ⟨_, rfl⟩
  | requestHeaders id ns => exact h
  | requestBody id length endOfStream => exact h
  | responseBody id length endOfStream => exact h
  | log id host => exact h

end EnvoyWasmFilters.Metrics
