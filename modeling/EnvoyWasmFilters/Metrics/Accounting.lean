import EnvoyWasmFilters.Metrics.Runs
import Mathlib

/-!
# What the counters count

A report is to add to each counter what its extractor gives.  The filter adds it twice: a counter is
incremented, and then recorded as well.

* `Report.gain` — what a counter should gain by a report, and `gains` by a list of them;
* `counters_run` — **a counter gains twice that**, over every run of interleaved streams;
* `accounted_iff` — the counters are right in every state of a run exactly when nothing is reported
  in it.
-/

namespace EnvoyWasmFilters.Metrics

open Common GuardedRun

/-! ### What should be counted -/

/-- The sum of what the extractors of `m` give on a report. -/
def Report.gain (report : Report) (m : MetricId) : ℕ :=
  ((report.stats.filter fun statgen => statgen.metricId = m).map
    fun statgen => (statgen.valueFn report.requestInfo).toNat).sum

/-- The sum over the reports. -/
def gains (reports : List Report) (m : MetricId) : ℕ := (reports.map (·.gain m)).sum

/-- The number of reports by a root that has `m`. -/
def reportsOn (reports : List Report) (m : MetricId) : ℕ :=
  reports.countP fun report => m ∈ report.stats.map StatGen.metricId

/-- The counter of all requests, under the prefix of a configuration. -/
def requestsTotalId (statPrefix : Str) : MetricId := ⟨.counter, statPrefix ++ requestsTotal⟩

/-- **Right counters**: the one of all requests has grown by the number of reports, and each by the
sum of the values of its extractor. -/
structure Accounted (metrics : MetricStore) (s : MetricsState) : Prop where
  requestsTotal : ∀ statPrefix, s.metrics.counters (requestsTotalId statPrefix)
    = metrics.counters (requestsTotalId statPrefix)
      + reportsOn s.reports (requestsTotalId statPrefix)
  counters : ∀ m, m.type = .counter →
    s.metrics.counters m = metrics.counters m + gains s.reports m

theorem gains_append (reports : List Report) (report : Report) (m : MetricId) :
    gains (reports ++ [report]) m = gains reports m + report.gain m := by
  rw [gains, List.map_append, List.sum_append]
  exact congrArg (gains reports m + ·) (Nat.add_zero _)

theorem reportsOn_append (reports : List Report) (report : Report) (m : MetricId) :
    reportsOn (reports ++ [report]) m = reportsOn reports m + reportsOn [report] m :=
  List.countP_append

theorem gain_cons (statgen : StatGen) (stats : List StatGen) (requestInfo : RequestInfo)
    (m : MetricId) :
    Report.gain ⟨statgen :: stats, requestInfo⟩ m
      = (if statgen.metricId = m then (statgen.valueFn requestInfo).toNat else 0)
        + Report.gain ⟨stats, requestInfo⟩ m := by
  simp only [Report.gain]
  by_cases hm : statgen.metricId = m
  · rw [List.filter_cons, if_pos (decide_eq_true hm), if_pos hm]
    rfl
  · rw [List.filter_cons, if_neg (by rw [decide_eq_true_eq]; exact hm), if_neg hm, Nat.zero_add]

/-! ### What is counted -/

theorem add_counters (store : MetricStore) (metricId m : MetricId) (n : UInt64) :
    (store.add metricId n).counters m
      = store.counters m + if metricId = m then n.toNat else 0 := by
  simp only [MetricStore.add, Function.update_apply]
  by_cases hm : m = metricId
  · rw [if_pos hm, if_pos hm.symm, hm]
  · rw [if_neg hm, if_neg (Ne.symm hm), Nat.add_zero]

/-- One statistic: the value goes into a counter twice, and into no other counter. -/
theorem counters_record (statgen : StatGen) (requestInfo : RequestInfo) (store : MetricStore)
    {m : MetricId} (hm : m.type = .counter) :
    (execCalls store (statgen.resolve.record requestInfo)).counters m
      = store.counters m
        + 2 * if statgen.metricId = m then (statgen.valueFn requestInfo).toNat else 0 := by
  obtain ⟨name, metricType, valueFn⟩ := statgen
  cases metricType with
  | counter =>
    show ((store.add ⟨.counter, name⟩ _).add ⟨.counter, name⟩ _).counters m = _
    rw [add_counters, add_counters, Nat.add_assoc, ← Nat.two_mul]
    rfl
  | histogram =>
    have hother : (⟨name, .histogram, valueFn⟩ : StatGen).metricId ≠ m := by
      intro h
      rw [← h] at hm
      exact MetricType.noConfusion hm
    rw [if_neg hother]
    rfl

/-- One report. -/
theorem counters_report (stats : List StatGen) (requestInfo : RequestInfo) (store : MetricStore)
    {m : MetricId} (hm : m.type = .counter) :
    (execCalls store (stats.flatMap fun statgen => statgen.resolve.record requestInfo)).counters m
      = store.counters m + 2 * Report.gain ⟨stats, requestInfo⟩ m := by
  induction stats generalizing store with
  | nil => rfl
  | cons statgen stats ih =>
    rw [List.flatMap_cons, execCalls_append, ih, counters_record statgen requestInfo store hm,
      gain_cons, Nat.mul_add, Nat.add_assoc]

section

variable [JsonText]

/-- The counters have gained twice what they should. -/
def Doubled (metrics : MetricStore) (s : MetricsState) : Prop :=
  ∀ m : MetricId, m.type = .counter →
    s.metrics.counters m = metrics.counters m + 2 * gains s.reports m

/-- Every callback keeps it: only `onLog` touches the metrics, and it does so by a report. -/
theorem step_doubled (metrics : MetricStore) (s : MetricsState) (e : Event)
    (h : Doubled metrics s) : Doubled metrics (s.step e) := by
  cases e with
  | configure configuration listenerDirection => exact h
  | requestHeaders id ns => exact h
  | requestBody id length endOfStream => exact h
  | responseBody id length endOfStream => exact h
  | log id host =>
    intro m hm
    show (execCalls s.metrics (s.root.stats.flatMap _)).counters m
      = metrics.counters m + 2 * gains (s.reports ++ [_]) m
    rw [counters_report s.root.stats _ s.metrics hm, h m hm, gains_append, Nat.mul_add,
      Nat.add_assoc]
    rfl

/-- **A counter gains twice the sum of its extractor's values**, in every run. -/
theorem counters_run (outbound useHostHeaderFallback : Bool) (metrics : MetricStore)
    (es : List Event) :
    Doubled metrics
      (run MetricsState.step (MetricsState.start outbound useHostHeaderFallback metrics) es) := by
  apply invariant_run MetricsState.step (step_doubled metrics)
  intro m _
  rfl

/-! ### When the counters are right -/

/-- The condition on a callback: it is no `onLog`, or the root was not configured yet. -/
def Quiet (s : MetricsState) : Event → Prop
  | .log _ _ => s.root.stats = []
  | _ => True

omit [JsonText] in
/-- A report by a configured root is one for the counter of all requests. -/
theorem gain_requestsTotal (statPrefix : Str) (requestInfo : RequestInfo) :
    0 < Report.gain ⟨statGens statPrefix, requestInfo⟩ (requestsTotalId statPrefix) := by
  rw [statGens, gain_cons]
  show 0 < (if requestsTotalId statPrefix = requestsTotalId statPrefix then 1 else 0) + _
  rw [if_pos rfl]
  exact Nat.lt_of_lt_of_le Nat.one_pos (Nat.le_add_right _ _)

omit [JsonText] in
/-- Where a counter has gained twice its due, it is right if nothing is due. -/
theorem gains_eq_zero {metrics : MetricStore} {s : MetricsState} (hdoubled : Doubled metrics s)
    (h : Accounted metrics s) {m : MetricId} (hm : m.type = .counter) : gains s.reports m = 0 := by
  have htwice := hdoubled m hm
  have honce := h.counters m hm
  omega

/-- **One callback.**  The counters stay right exactly if it reports nothing. -/
theorem step_accounted_iff (metrics : MetricStore) (s : MetricsState) (e : Event)
    (hroot : s.root.WellFormed) (hdoubled : Doubled metrics s) (h : Accounted metrics s) :
    Accounted metrics (s.step e) ↔ Quiet s e := by
  cases e with
  | configure configuration listenerDirection => exact iff_of_true ⟨h.1, h.2⟩ trivial
  | requestHeaders id ns => exact iff_of_true ⟨h.1, h.2⟩ trivial
  | requestBody id length endOfStream => exact iff_of_true ⟨h.1, h.2⟩ trivial
  | responseBody id length endOfStream => exact iff_of_true ⟨h.1, h.2⟩ trivial
  | log id host =>
    obtain hnone | ⟨statPrefix, hstats⟩ := hroot
    · have hmetrics : (s.step (.log id host)).metrics = s.metrics := by
        show execCalls s.metrics (s.root.stats.flatMap _) = s.metrics
        rw [hnone]
        rfl
      apply iff_of_true _ hnone
      constructor
      · intro statPrefix
        rw [hmetrics, h.requestsTotal statPrefix]
        show _ = _ + reportsOn (s.reports ++ [⟨s.root.stats, _⟩]) _
        rw [reportsOn_append, hnone]
        rfl
      · intro m hm
        rw [hmetrics, h.counters m hm]
        show _ = _ + gains (s.reports ++ [⟨s.root.stats, _⟩]) m
        rw [gains_append, hnone]
        rfl
    · apply iff_of_false
      · intro h'
        have hzero : gains (s.reports ++ [⟨s.root.stats, _⟩]) (requestsTotalId statPrefix) = 0 :=
          gains_eq_zero (step_doubled metrics s (.log id host) hdoubled) h' rfl
        rw [gains_append, hstats] at hzero
        exact absurd hzero (Nat.ne_of_gt (Nat.add_pos_right _ (gain_requestsTotal statPrefix _)))
      · show s.root.stats ≠ []
        rw [hstats]
        exact List.cons_ne_nil _ _

/-- **When the counters are right**: in every state of a run exactly if no `onLog` of it finds the
root configured. -/
theorem accounted_iff (outbound useHostHeaderFallback : Bool) (metrics : MetricStore)
    (es : List Event) :
    Throughout MetricsState.step (Accounted metrics)
        (MetricsState.start outbound useHostHeaderFallback metrics) es
      ↔ Guarded MetricsState.step Quiet
        (MetricsState.start outbound useHostHeaderFallback metrics) es := by
  apply invariant_iff_guarded_of_invariant MetricsState.step
    (J := fun s => s.root.WellFormed ∧ Doubled metrics s)
  · rintro s e ⟨hroot, hdoubled⟩
    exact ⟨step_wellFormed s e hroot, step_doubled metrics s e hdoubled⟩
  · rintro s e ⟨hroot, hdoubled⟩ h
    exact step_accounted_iff metrics s e hroot hdoubled h
  · exact ⟨.inl rfl, fun _ _ => rfl⟩
  · exact ⟨fun _ => rfl, fun _ _ => rfl⟩

end

/-- A protobuf library that knows the configuration without any field set only. -/
instance : JsonText where
  jsonStringToMessage text := (decide (text = ("\x7b\x7d" : Str)), {})

/-- Two streams on a configured root, one of them rate limited, both of them logged. -/
def twoStreams : List Event :=
  [.configure "\x7b\x7d" none, .requestHeaders 0 5, .requestHeaders 1 6,
    .log 1 { currentTimeNanoseconds := 7, responseFlags := some 0x800 },
    .log 0 { currentTimeNanoseconds := 8 }]

/-- Two requests are counted as four, and the one that was limited as two. -/
theorem twoStreams_not_accounted :
    ¬ Throughout MetricsState.step (Accounted {}) (MetricsState.start false false {}) twoStreams ∧
      (run MetricsState.step (MetricsState.start false false {}) twoStreams).metrics.counters
        ⟨.counter, "_wasm_requests_total"⟩ = 4 ∧
      (run MetricsState.step (MetricsState.start false false {}) twoStreams).metrics.counters
        ⟨.counter, "_wasm_ratelimited_requests"⟩ = 2 := by
  have htotal : (run MetricsState.step (MetricsState.start false false {})
      twoStreams).metrics.counters ⟨.counter, "_wasm_requests_total"⟩ = 4 := by decide +kernel
  have hlimited : (run MetricsState.step (MetricsState.start false false {})
      twoStreams).metrics.counters ⟨.counter, "_wasm_ratelimited_requests"⟩ = 2 := by decide +kernel
  refine ⟨fun h => ?_, htotal, hlimited⟩
  have hlast := (h twoStreams (List.prefix_refl _)).requestsTotal "_wasm_"
  have hright : (run MetricsState.step (MetricsState.start false false {})
      twoStreams).metrics.counters ⟨.counter, "_wasm_requests_total"⟩ = 2 := by
    apply Eq.trans hlast
    decide +kernel
  rw [htotal] at hright
  exact absurd hright (by decide)

end EnvoyWasmFilters.Metrics
