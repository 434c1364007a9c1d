import EnvoyWasmFilters.Library.SignedWord
import EnvoyWasmFilters.Metrics.Accounting
import EnvoyWasmFilters.Metrics.Isolation

/-!
# How long a request takes

The duration of a request is a difference of two clock readings in 64 signed bits, divided and read as an
unsigned number.  A stream that has seen no `onRequestHeaders` counts from `0`.

* `readings`, `spanMilliseconds` — the clock readings of a stream, and how far they lie apart;
* `duration_le_iff`, `epoch_le_iff` — one difference, with and without a reading at the headers;
* `durations_bounded_iff` — **when the recorded durations lie within the readings**, in whole runs.
-/

namespace EnvoyWasmFilters.Metrics

open Common GuardedRun SignedWord

/-! ### Clock readings -/

/-- The clock reading that a callback takes for the stream `id`. -/
def Event.reading (id : ℕ) : Event → Option UInt64
  | .requestHeaders id' currentTimeNanoseconds =>
      if id' = id then some currentTimeNanoseconds else none
  | .log id' host => if id' = id then some host.currentTimeNanoseconds else none
  | _ => none

/-- The clock readings taken for a stream. -/
def readings (id : ℕ) (es : List Event) : List UInt64 := es.filterMap (Event.reading id)

/-- The whole milliseconds between the earliest and the latest of some readings. -/
def spanMilliseconds (rs : List UInt64) : ℕ :=
  ((rs.map UInt64.toNat).max?.getD 0 - (rs.map UInt64.toNat).min?.getD 0) / 1000000

/-- Two readings lie within the span. -/
theorem sub_le_span {rs : List UInt64} {m n : UInt64} (hm : m ∈ rs) (hn : n ∈ rs) :
    (m.toNat - n.toNat) / 1000000 ≤ spanMilliseconds rs := by
  have hmax : m.toNat ≤ (rs.map UInt64.toNat).max?.getD 0 :=
    List.le_max?_getD_of_mem (List.mem_map_of_mem hm)
  have hmin : (rs.map UInt64.toNat).min?.getD 0 ≤ n.toNat :=
    List.min?_getD_le_of_mem (List.mem_map_of_mem hn)
  exact Nat.div_le_div_right (tsub_le_tsub hmax hmin)

/-- No span is longer than the range of the clock. -/
theorem span_lt (rs : List UInt64) : spanMilliseconds rs < 2 ^ 64 / 1000000 + 1 := by
  have hmax : (rs.map UInt64.toNat).max?.getD 0 < 2 ^ 64 := by
    cases h : (rs.map UInt64.toNat).max? with
    | none => decide
    | some m =>
      obtain ⟨r, -, rfl⟩ := List.mem_map.mp (List.max?_mem h)
      exact r.toNat_lt
  rw [Nat.lt_add_one_iff]
  exact Nat.div_le_div_right (le_trans (Nat.sub_le _ _) hmax.le)

theorem span_singleton (r : UInt64) : spanMilliseconds [r] = 0 := by
  show (r.toNat - r.toNat) / 1000000 = 0
  rw [Nat.sub_self, Nat.zero_div]

/-! ### One difference -/

/-- The number that `durationMilliseconds` makes of a difference. -/
def milliseconds (d : Int64) : ℕ := (d / 1000000).toUInt64.toNat

theorem million_pos : 0 < (1000000 : Int64).toInt := by decide

theorem toInt_million : (1000000 : Int64).toInt = 1000000 := by decide

/-- A wrapped quotient is out of every span. -/
theorem span_lt_milliseconds {d : Int64} (h : d.toInt ≤ -1000000) (rs : List UInt64) :
    spanMilliseconds rs < milliseconds d := by
  have hwrap := quotient_of_wrap million_pos (x := d) h
  have hspan := span_lt rs
  rw [toInt_million] at hwrap
  rw [milliseconds]
  omega

/-- **From a reading to a later one**: the duration lies within the readings exactly if the clock has not
stepped back by a millisecond or more. -/
theorem duration_le_iff {rs : List UInt64} {start now : UInt64} (hstart : start ∈ rs)
    (hnow : now ∈ rs) :
    milliseconds (now.toInt64 - start.toInt64) ≤ spanMilliseconds rs
      ↔ -1000000 < (now.toInt64 - start.toInt64).toInt := by
  constructor
  · intro hle
    by_contra hback
    exact absurd hle (not_le.mpr (span_lt_milliseconds (not_lt.mp hback) rs))
  · intro hforward
    by_cases hneg : (now.toInt64 - start.toInt64).toInt < 0
    · rw [milliseconds, quotient_of_small million_pos hneg hforward]
      exact Nat.zero_le _
    · have hquotient := quotient_of_nonneg million_pos (not_lt.mp hneg)
      rw [toInt_million] at hquotient
      have hup := sub_le_span hnow hstart
      have hdown := sub_le_span hstart hnow
      have hcases := toInt_sub_cases now start
      have hlow := Int64.toInt_lt (now.toInt64 - start.toInt64)
      have hnow' := now.toNat_lt
      have hstart' := start.toNat_lt
      rw [milliseconds]
      omega

/-- **From the epoch**: the duration is nothing exactly if the clock is within a millisecond of it. -/
theorem epoch_le_iff (now : UInt64) :
    milliseconds (now.toInt64 - 0) ≤ spanMilliseconds [now]
      ↔ -1000000 < now.toInt64.toInt ∧ now.toInt64.toInt < 1000000 := by
  rw [Int64.sub_zero, span_singleton]
  by_cases hback : now.toInt64.toInt ≤ -1000000
  · have hlarge := span_lt_milliseconds hback []
    exact iff_of_false (by omega) (by omega)
  · by_cases hneg : now.toInt64.toInt < 0
    · rw [milliseconds, quotient_of_small million_pos hneg (not_le.mp hback)]
      exact iff_of_true (le_refl 0) ⟨not_le.mp hback, by omega⟩
    · have hquotient := quotient_of_nonneg million_pos (not_lt.mp hneg)
      rw [toInt_million] at hquotient
      rw [milliseconds]
      omega

/-! ### Runs -/

/-- The stream of a callback. -/
def Event.stream : Event → Option ℕ
  | .configure _ _ => none
  | .requestHeaders id _ => some id
  | .requestBody id _ _ => some id
  | .responseBody id _ _ => some id
  | .log id _ => some id

/-- The stream of an `onLog`. -/
def Event.logged : Event → Option ℕ
  | .log id _ => some id
  | _ => none

/-- A legal order of the callbacks: none of a stream comes after its `onLog`. -/
def Legal (es : List Event) : Prop := es.Pairwise fun e f => e.logged = none ∨ e.logged ≠ f.stream

instance (es : List Event) : Decidable (Legal es) :=
  inferInstanceAs (Decidable (es.Pairwise fun e f => e.logged = none ∨ e.logged ≠ f.stream))

/-- Before its `onLog` a stream has read the clock at its headers only. -/
theorem readings_before_log {es pre : List Event} {id : ℕ} {host : RequestProperties}
    (hlegal : Legal es) (hpre : pre ++ [.log id host] <+: es) :
    readings id pre = pre.filterMap (Event.startTime id) := by
  have hpairs := (List.pairwise_append.mp (hlegal.sublist hpre.sublist)).2.2
  apply List.filterMap_congr
  intro e he
  cases e with
  | log id' host' =>
    have hother : id' ≠ id := by
      rintro rfl
      obtain hnone | hne := hpairs _ he _ (List.mem_singleton_self _)
      · exact Option.some_ne_none _ hnone
      · exact hne rfl
    exact if_neg hother
  | _ => rfl

/-- The clock of a stream with the reading `start` at its headers, if it had any: not back by a
millisecond, or else within a millisecond of the epoch. -/
def ClockForward (start : Option UInt64) (now : UInt64) : Prop :=
  match start with
  | some start => -1000000 < (now.toInt64 - start.toInt64).toInt
  | none => -1000000 < now.toInt64.toInt ∧ now.toInt64.toInt < 1000000

/-- One `onLog` in a legal run. -/
theorem log_duration_iff {es pre : List Event} {id : ℕ} {host : RequestProperties}
    (hlegal : Legal es) (hpre : pre ++ [.log id host] <+: es) :
    milliseconds (host.currentTimeNanoseconds.toInt64
          - ((latest (Event.startTime id) pre).map UInt64.toInt64).getD 0)
        ≤ spanMilliseconds (readings id (pre ++ [.log id host]))
      ↔ ClockForward (latest (Event.startTime id) pre) host.currentTimeNanoseconds := by
  have hreadings : readings id (pre ++ [.log id host])
      = pre.filterMap (Event.startTime id) ++ [host.currentTimeNanoseconds] := by
    have hown : Event.reading id (.log id host) = some host.currentTimeNanoseconds := if_pos rfl
    rw [← readings_before_log hlegal hpre, readings, readings, List.filterMap_append,
      List.filterMap_cons_some hown, List.filterMap_nil]
  rw [hreadings]
  cases hstart : latest (Event.startTime id) pre with
  | none =>
    rw [List.getLast?_eq_none_iff.mp hstart]
    exact epoch_le_iff host.currentTimeNanoseconds
  | some start =>
    have hmem : start ∈ pre.filterMap (Event.startTime id) := List.mem_of_getLast? hstart
    exact duration_le_iff (List.mem_append_left _ hmem) List.mem_concat_self

section

variable [JsonText]

/-- What an `onLog` of the stream `id` records as its duration, after the callbacks `pre`, is at most the
span of the stream's readings. -/
def DurationBounded (s : MetricsState) (pre : List Event) (id : ℕ) (host : RequestProperties) : Prop :=
  ∀ statPrefix, latest Event.statPrefix pre = some statPrefix →
    ∀ v ∈ samplesIn ((s.streams id).onLog s.root host).1
        ⟨.histogram, statPrefix ++ requestDurationMilliseconds⟩,
      v.toNat ≤ spanMilliseconds (readings id (pre ++ [.log id host]))

/-- The sample for the duration, under the prefix that the root has. -/
theorem ownSamples_duration {id : ℕ} {pre : List Event} {statPrefix : Str}
    (h : latest Event.statPrefix pre = some statPrefix) (host : RequestProperties) :
    ownSamples id pre host (statPrefix ++ requestDurationMilliseconds)
      = [((host.currentTimeNanoseconds.toInt64
        - ((latest (Event.startTime id) pre).map UInt64.toInt64).getD 0) / 1000000).toUInt64] := by
  rw [ownSamples, h]
  exact if_pos rfl

/-- **When durations lie within the readings**: in a legal run every recorded duration does exactly if at
every `onLog` under a configuration the clock has not stepped back by a millisecond or more since the
stream's headers, or, without headers, is within a millisecond of the epoch. -/
theorem durations_bounded_iff (outbound useHostHeaderFallback : Bool) (metrics : MetricStore)
    (es : List Event) (hlegal : Legal es) :
    (∀ pre id host, pre ++ [.log id host] <+: es →
        DurationBounded (run MetricsState.step
          (MetricsState.start outbound useHostHeaderFallback metrics) pre) pre id host)
      ↔ ∀ pre id host, pre ++ [.log id host] <+: es → latest Event.statPrefix pre ≠ none →
          ClockForward (latest (Event.startTime id) pre) host.currentTimeNanoseconds := by
  apply forall₃_congr
  intro pre id host
  apply imp_congr_right
  intro hpre
  have htally := tally_run id outbound useHostHeaderFallback metrics pre
  rw [← log_duration_iff hlegal hpre]
  constructor
  · intro hbounded hsome
    obtain ⟨statPrefix, hconfigured⟩ := Option.ne_none_iff_exists'.mp hsome
    apply hbounded statPrefix hconfigured
    rw [samplesIn_onLog htally, ownSamples_duration hconfigured]
    exact List.mem_singleton_self _
  · intro hle statPrefix hconfigured v hv
    rw [samplesIn_onLog htally, ownSamples_duration hconfigured] at hv
    rw [List.mem_singleton.mp hv]
    exact hle (by rw [hconfigured]; exact Option.some_ne_none _)

end

/-- The headers and the log of a stream, five milliseconds apart. -/
def steadyClock : List Event :=
  [.configure "\x7b\x7d" none, .requestHeaders 0 1600000000000000000,
    .log 0 { currentTimeNanoseconds := 1600000000005000000 }]

/-- Its duration lies within the readings. -/
theorem steadyClock_bounded :
    Legal steadyClock ∧ ∀ pre id host, pre ++ [.log id host] <+: steadyClock →
      DurationBounded (run MetricsState.step (MetricsState.start false false {}) pre) pre id host := by
  refine ⟨by decide, (durations_bounded_iff false false {} steadyClock (by decide)).mpr ?_⟩
  rintro pre id host ⟨post, h⟩ -
  rcases pre with _ | ⟨first, _ | ⟨second, _ | ⟨third, pre⟩⟩⟩
  · cases (List.cons.inj h).1
  · cases (List.cons.inj (List.cons.inj h).2).1
  · obtain ⟨rfl, rfl, hlog, -⟩ : _ ∧ _ ∧ Event.log id host = _ ∧ _ := by
      simpa only [steadyClock, List.cons_append, List.nil_append, List.cons.injEq] using h
    cases hlog
    show -1000000 < (UInt64.toInt64 _ - UInt64.toInt64 _).toInt
    decide +kernel
  · simp [steadyClock] at h

/-- Two streams: one is answered by an earlier filter and logged without its headers, and the clock
steps back by two milliseconds before the other is logged. -/
def steppingBack : List Event :=
  [.configure "\x7b\x7d" none, .log 0 { currentTimeNanoseconds := 1600000000000000000 },
    .requestHeaders 1 1600000000000000000, .log 1 { currentTimeNanoseconds := 1599999999998000000 }]

/-- The first is recorded with the time since the epoch, and the second with `2 ^ 64 - 2` milliseconds. -/
theorem steppingBack_not_bounded :
    Legal steppingBack ∧
      (¬ ∀ pre id host, pre ++ [.log id host] <+: steppingBack →
        DurationBounded (run MetricsState.step (MetricsState.start false false {}) pre) pre id host) ∧
      (run MetricsState.step (MetricsState.start false false {}) steppingBack).metrics.histograms
        ⟨.histogram, "_wasm_request_duration_milliseconds"⟩
        = [1600000000000, 18446744073709551614] := by
  refine ⟨by decide, fun h => ?_, by decide +kernel⟩
  have hfirst := h (steppingBack.take 1) 0 { currentTimeNanoseconds := 1600000000000000000 }
    (List.take_prefix 2 steppingBack) "_wasm_" (by decide +kernel) 1600000000000 (by decide +kernel)
  exact absurd hfirst (by decide +kernel)

end EnvoyWasmFilters.Metrics
