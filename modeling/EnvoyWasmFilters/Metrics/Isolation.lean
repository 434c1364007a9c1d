import EnvoyWasmFilters.Library.Projection
import EnvoyWasmFilters.Metrics.Runs
import Mathlib

/-!
# What a stream's samples depend on

All streams report through one root.  The samples of a report are those of the stream's own callbacks:
its clock readings and the lengths of its bodies.

* `StreamView` — what of the state a stream's report depends on, `streamView_isolated` that the other
  streams leave it alone;
* `Tally` — what a stream's information has summed up of its past, `tally_run` that it does;
* `log_samples` — **the samples of an `onLog`**, the same as in the run of the stream alone.
-/

namespace EnvoyWasmFilters.Metrics

open Common GuardedRun

/-! ### Samples at the host -/

/-- The samples that calls record in the histogram `m`. -/
def samplesIn (calls : List MetricCall) (m : MetricId) : List UInt64 :=
  calls.filterMap fun
    | .record metricId value => if metricId = m then some value else none
    | .increment _ _ => none

theorem samplesIn_cons (call : MetricCall) (calls : List MetricCall) (m : MetricId) :
    samplesIn (call :: calls) m = samplesIn [call] m ++ samplesIn calls m := by
  rw [samplesIn, ← List.singleton_append, List.filterMap_append]
  rfl

/-- A histogram after one call. -/
theorem exec_histograms (store : MetricStore) (call : MetricCall) {m : MetricId}
    (hm : m.type = .histogram) :
    (call.exec store).histograms m = store.histograms m ++ samplesIn [call] m := by
  cases call with
  | increment metricId offset =>
    obtain ⟨type, name⟩ := metricId
    cases type <;> exact (List.append_nil _).symm
  | record metricId value =>
    obtain ⟨type, name⟩ := metricId
    cases type with
    | counter =>
      have hother : (⟨.counter, name⟩ : MetricId) ≠ m := by
        rintro rfl
        exact MetricType.noConfusion hm
      show store.histograms m = store.histograms m ++ samplesIn [.record ⟨.counter, name⟩ value] m
      simp only [samplesIn, List.filterMap_cons, List.filterMap_nil, if_neg hother, List.append_nil]
    | histogram =>
      show (store.sample ⟨.histogram, name⟩ value).histograms m = _
      simp only [MetricStore.sample, samplesIn, List.filterMap_cons, List.filterMap_nil,
        Function.update_apply]
      by_cases hsame : m = ⟨.histogram, name⟩
      · rw [if_pos hsame, if_pos hsame.symm, hsame]
      · rw [if_neg hsame, if_neg (Ne.symm hsame), List.append_nil]

/-- A histogram after calls. -/
theorem execCalls_histograms (store : MetricStore) (calls : List MetricCall) {m : MetricId}
    (hm : m.type = .histogram) :
    (execCalls store calls).histograms m = store.histograms m ++ samplesIn calls m := by
  induction calls generalizing store with
  | nil => exact (List.append_nil _).symm
  | cons call calls ih =>
    show (execCalls (call.exec store) calls).histograms m = _
    rw [ih, exec_histograms store call hm, List.append_assoc, ← samplesIn_cons]

section

variable [JsonText]

/-! ### What a report depends on -/

/-- The part of the state that the report of a stream depends on. -/
@[ext] structure StreamView where
  outbound : Bool
  useHostHeaderFallback : Bool
  stats : List StatGen
  context : StatsContext

/-- What the stream `id` sees. -/
def streamView (id : ℕ) (s : MetricsState) : StreamView :=
  ⟨s.root.outbound, s.root.useHostHeaderFallback, s.root.stats, s.streams id⟩

/-- The callbacks of the stream `id`, and those of the root. -/
def Event.own (id : ℕ) : Event → Bool
  | .configure _ _ => true
  | .requestHeaders id' _ => decide (id' = id)
  | .requestBody id' _ _ => decide (id' = id)
  | .responseBody id' _ _ => decide (id' = id)
  | .log id' _ => decide (id' = id)

omit [JsonText] in
/-- Another context for another stream. -/
theorem update_streams_ne (s : MetricsState) {id id' : ℕ} (h : decide (id' = id) = false)
    (context : StatsContext) : Function.update s.streams id' context id = s.streams id :=
  Function.update_of_ne (Ne.symm (of_decide_eq_false h)) context s.streams

omit [JsonText] in
/-- The same change of two contexts that are seen alike. -/
theorem streamView_setStream {id : ℕ} {s t : MetricsState}
    (hview : streamView id s = streamView id t) (change : StatsContext → StatsContext) :
    streamView id (s.setStream id (change (s.streams id)))
      = streamView id (t.setStream id (change (t.streams id))) := by
  obtain ⟨houtbound, hfallback, hstats, hcontext⟩ := StreamView.ext_iff.mp hview
  have hsame : s.streams id = t.streams id := hcontext
  ext1
  · exact houtbound
  · exact hfallback
  · exact hstats
  · show Function.update s.streams id _ id = Function.update t.streams id _ id
    rw [Function.update_self, Function.update_self, hsame]

omit [JsonText] in
/-- An `onLog` is the same call for call where the stream sees the same. -/
theorem onLog_eq {id : ℕ} {s t : MetricsState} (hview : streamView id s = streamView id t)
    (host : RequestProperties) :
    ((s.streams id).onLog s.root host).1 = ((t.streams id).onLog t.root host).1 ∧
      ((s.streams id).onLog s.root host).2.2 = ((t.streams id).onLog t.root host).2.2 := by
  obtain ⟨houtbound, hfallback, hstats, hcontext⟩ := StreamView.ext_iff.mp hview
  have hfallback' : s.root.useHostHeaderFallback = t.root.useHostHeaderFallback := hfallback
  have hstats' : s.root.stats = t.root.stats := hstats
  have hcontext' : s.streams id = t.streams id := hcontext
  have houtbound' : s.root.outbound = t.root.outbound := houtbound
  simp only [StatsContext.onLog, StatsRootContext.report]
  rw [houtbound', hfallback', hstats', hcontext']
  exact ⟨rfl, rfl⟩

/-- **Streams do not touch each other's view.** -/
theorem streamView_isolated (id : ℕ) :
    Isolated MetricsState.step (streamView id) (Event.own id) := by
  constructor
  · intro s e hown
    cases e with
    | configure configuration listenerDirection => exact Bool.noConfusion hown
    | requestHeaders id' ns => exact congrArg (StreamView.mk _ _ _) (update_streams_ne s hown _)
    | requestBody id' length eos => exact congrArg (StreamView.mk _ _ _) (update_streams_ne s hown _)
    | responseBody id' length eos => exact congrArg (StreamView.mk _ _ _) (update_streams_ne s hown _)
    | log id' host => exact congrArg (StreamView.mk _ _ _) (update_streams_ne s hown _)
  · intro s t e hown hview
    cases e with
    | configure configuration listenerDirection =>
      exact congrArg (StreamView.mk _ _ _) (congrArg StreamView.context hview)
    | requestHeaders id' ns =>
      obtain rfl : id' = id := of_decide_eq_true hown
      exact streamView_setStream hview fun context => (context.onRequestHeaders ns).2
    | requestBody id' length eos =>
      obtain rfl : id' = id := of_decide_eq_true hown
      exact streamView_setStream hview fun context => (context.onRequestBody length eos).2
    | responseBody id' length eos =>
      obtain rfl : id' = id := of_decide_eq_true hown
      exact streamView_setStream hview fun context => (context.onResponseBody length eos).2
    | log id' host =>
      obtain rfl : id' = id := of_decide_eq_true hown
      obtain ⟨houtbound, hfallback, hstats, -⟩ := StreamView.ext_iff.mp hview
      ext1
      · exact houtbound
      · exact hfallback
      · exact hstats
      · show Function.update s.streams id' _ id' = Function.update t.streams id' _ id'
        rw [Function.update_self, Function.update_self]
        exact (onLog_eq hview host).2

/-! ### What a stream has summed up -/

/-- The prefix that an `onConfigure` gives the statistics. -/
def Event.statPrefix : Event → Option Str
  | .configure configuration _ =>
      some (Metrics.statPrefix (JsonText.jsonStringToMessage configuration).2)
  | _ => none

/-- The clock's reading at an `onRequestHeaders` of the stream `id`. -/
def Event.startTime (id : ℕ) : Event → Option UInt64
  | .requestHeaders id' currentTimeNanoseconds =>
      if id' = id then some currentTimeNanoseconds else none
  | _ => none

/-- The length at an `onRequestBody` of the stream `id`. -/
def Event.requestLength (id : ℕ) : Event → Option UInt64
  | .requestBody id' bodyBufferLength _ => if id' = id then some bodyBufferLength else none
  | _ => none

/-- The length at an `onResponseBody` of the stream `id`. -/
def Event.responseLength (id : ℕ) : Event → Option UInt64
  | .responseBody id' bodyBufferLength _ => if id' = id then some bodyBufferLength else none
  | _ => none

/-- The last of what some of the events have. -/
def latest {β : Type} (value : Event → Option β) (es : List Event) : Option β :=
  (es.filterMap value).getLast?

/-- The sum of the lengths that some of the events have. -/
def total (length : Event → Option UInt64) (es : List Event) : ℕ :=
  ((es.filterMap length).map UInt64.toNat).sum

omit [JsonText] in
theorem latest_concat {β : Type} (value : Event → Option β) (es : List Event) (e : Event) :
    latest value (es ++ [e]) = (value e).or (latest value es) := by
  simp only [latest, List.filterMap_append]
  cases h : value e with
  | none => rw [List.filterMap_cons_none h, List.filterMap_nil, List.append_nil, Option.none_or]
  | some b =>
    rw [List.filterMap_cons_some h, List.filterMap_nil, List.getLast?_concat, Option.some_or]

omit [JsonText] in
theorem total_concat (length : Event → Option UInt64) (es : List Event) (e : Event) :
    total length (es ++ [e]) = total length es + ((length e).getD 0).toNat := by
  simp only [total, List.filterMap_append, List.map_append, List.sum_append]
  cases h : length e with
  | none => rw [List.filterMap_cons_none h]; rfl
  | some n => rw [List.filterMap_cons_some h]; rfl

omit [JsonText] in
/-- A part of a context that the change of one stream's context keeps. -/
theorem update_part {β : Type} (part : StatsContext → β) (streams : ℕ → StatsContext) (id : ℕ)
    {id' : ℕ} {context : StatsContext} (h : part context = part (streams id')) :
    part (Function.update streams id' context id) = part (streams id) := by
  rw [Function.update_apply]
  split
  · next hid => rw [h, hid]
  · rfl

omit [JsonText] in
/-- A part of a context after the change of one stream's context. -/
theorem update_part_eq {β : Type} (part : StatsContext → β) (streams : ℕ → StatsContext)
    (id id' : ℕ) (context : StatsContext) :
    part (Function.update streams id' context id)
      = if id' = id then part context else part (streams id) := by
  rw [Function.update_apply]
  by_cases hid : id' = id
  · rw [if_pos hid, if_pos hid.symm]
  · rw [if_neg hid, if_neg (Ne.symm hid)]

theorem step_stats (s : MetricsState) (e : Event) :
    (s.step e).root.stats = (e.statPrefix.map statGens).getD s.root.stats := by
  cases e <;> rfl

/-- Only its own headers set a stream's start. -/
theorem step_startTimestamp (id : ℕ) (s : MetricsState) (e : Event) :
    ((s.step e).streams id).requestInfo.startTimestamp
      = ((e.startTime id).map UInt64.toInt64).getD (s.streams id).requestInfo.startTimestamp := by
  cases e with
  | configure configuration listenerDirection => rfl
  | requestHeaders id' ns =>
    show (Function.update s.streams id' _ id).requestInfo.startTimestamp = _
    rw [update_part_eq (·.requestInfo.startTimestamp), Event.startTime]
    split <;> rfl
  | requestBody id' length eos => exact update_part (·.requestInfo.startTimestamp) s.streams id rfl
  | responseBody id' length eos => exact update_part (·.requestInfo.startTimestamp) s.streams id rfl
  | log id' host => exact update_part (·.requestInfo.startTimestamp) s.streams id rfl

omit [JsonText] in
/-- A size that the change of one stream's context keeps. -/
theorem size_kept (size : StatsContext → UInt64) (streams : ℕ → StatsContext) (id : ℕ) {id' : ℕ}
    {context : StatsContext} (h : size context = size (streams id')) :
    size (Function.update streams id' context id) = size (streams id) + 0 :=
  (update_part size streams id h).trans (UInt64.add_zero _).symm

omit [JsonText] in
/-- A size that the change adds to: the sum grows for the stream itself only. -/
theorem size_added (size : StatsContext → UInt64) (streams : ℕ → StatsContext) (id id' : ℕ)
    {context : StatsContext} {n : UInt64} (h : size context = size (streams id') + n) :
    size (Function.update streams id' context id)
      = size (streams id) + (if id' = id then some n else none).getD 0 := by
  rw [update_part_eq size]
  split
  · next hid =>
    rw [h, hid]
    rfl
  · exact (UInt64.add_zero _).symm

/-- Only its own body adds to a stream's request. -/
theorem step_requestSize (id : ℕ) (s : MetricsState) (e : Event) :
    ((s.step e).streams id).requestInfo.requestSize.toUInt64
      = (s.streams id).requestInfo.requestSize.toUInt64 + (e.requestLength id).getD 0 := by
  cases e with
  | configure configuration listenerDirection => exact (UInt64.add_zero _).symm
  | requestHeaders id' ns => exact size_kept (·.requestInfo.requestSize.toUInt64) s.streams id rfl
  | requestBody id' length eos =>
    exact size_added (·.requestInfo.requestSize.toUInt64) s.streams id id' (Int64.toUInt64_add _ _)
  | responseBody id' length eos => exact size_kept (·.requestInfo.requestSize.toUInt64) s.streams id rfl
  | log id' host => exact size_kept (·.requestInfo.requestSize.toUInt64) s.streams id rfl

/-- Only its own body adds to a stream's response. -/
theorem step_responseSize (id : ℕ) (s : MetricsState) (e : Event) :
    ((s.step e).streams id).requestInfo.responseSize.toUInt64
      = (s.streams id).requestInfo.responseSize.toUInt64 + (e.responseLength id).getD 0 := by
  cases e with
  | configure configuration listenerDirection => exact (UInt64.add_zero _).symm
  | requestHeaders id' ns => exact size_kept (·.requestInfo.responseSize.toUInt64) s.streams id rfl
  | requestBody id' length eos => exact size_kept (·.requestInfo.responseSize.toUInt64) s.streams id rfl
  | responseBody id' length eos =>
    exact size_added (·.requestInfo.responseSize.toUInt64) s.streams id id' (Int64.toUInt64_add _ _)
  | log id' host => exact size_kept (·.requestInfo.responseSize.toUInt64) s.streams id rfl

/-- **What a stream knows**: the statistics of the last configuration, the last clock reading at its
headers, and the lengths of its bodies added up in 64 bits. -/
structure Tally (id : ℕ) (es : List Event) (s : MetricsState) : Prop where
  stats : s.root.stats = ((latest Event.statPrefix es).map statGens).getD []
  startTimestamp : (s.streams id).requestInfo.startTimestamp
    = ((latest (Event.startTime id) es).map UInt64.toInt64).getD 0
  requestSize : (s.streams id).requestInfo.requestSize.toUInt64
    = UInt64.ofNat (total (Event.requestLength id) es)
  responseSize : (s.streams id).requestInfo.responseSize.toUInt64
    = UInt64.ofNat (total (Event.responseLength id) es)

/-- One more callback. -/
theorem step_tally (id : ℕ) (es : List Event) (s : MetricsState) (e : Event) (h : Tally id es s) :
    Tally id (es ++ [e]) (s.step e) := by
  constructor
  · rw [step_stats, latest_concat, h.stats]
    cases e.statPrefix <;> rfl
  · rw [step_startTimestamp, latest_concat, h.startTimestamp]
    cases e.startTime id <;> rfl
  · rw [step_requestSize, total_concat, h.requestSize, UInt64.ofNat_add, UInt64.ofNat_toNat]
  · rw [step_responseSize, total_concat, h.responseSize, UInt64.ofNat_add, UInt64.ofNat_toNat]

/-- Every run. -/
theorem tally_run (id : ℕ) (outbound useHostHeaderFallback : Bool) (metrics : MetricStore)
    (es : List Event) :
    Tally id es
      (run MetricsState.step (MetricsState.start outbound useHostHeaderFallback metrics) es) := by
  apply history_run MetricsState.step (step_tally id)
  constructor <;> rfl

/-! ### The samples of a report -/

/-- The samples for the histogram `name`: one for each histogram of a configured root, the duration
from the last `onRequestHeaders` to the `onLog` and the sizes of the two bodies. -/
def ownSamples (id : ℕ) (es : List Event) (host : RequestProperties) (name : Str) : List UInt64 :=
  match latest Event.statPrefix es with
  | none => []
  | some statPrefix =>
      if name = statPrefix ++ requestDurationMilliseconds then
        [((host.currentTimeNanoseconds.toInt64
          - ((latest (Event.startTime id) es).map UInt64.toInt64).getD 0) / 1000000).toUInt64]
      else if name = statPrefix ++ requestBytes then
        [UInt64.ofNat (total (Event.requestLength id) es)]
      else if name = statPrefix ++ responseBytes then
        [UInt64.ofNat (total (Event.responseLength id) es)]
      else []

omit [JsonText] in
/-- A counter gets no samples. -/
theorem samplesIn_counter (name counter : Str) (valueFn : ValueExtractorFn)
    (requestInfo : RequestInfo) (calls : List MetricCall) :
    samplesIn ((StatGen.resolve ⟨counter, .counter, valueFn⟩).record requestInfo ++ calls)
        ⟨.histogram, name⟩
      = samplesIn calls ⟨.histogram, name⟩ := by
  have hother : (⟨.counter, counter⟩ : MetricId) ≠ ⟨.histogram, name⟩ := by
    intro h
    exact MetricType.noConfusion (congrArg MetricId.type h)
  show samplesIn (.increment ⟨.counter, counter⟩ _ :: .record ⟨.counter, counter⟩ _ :: calls) _ = _
  simp only [samplesIn, List.filterMap_cons, if_neg hother]

omit [JsonText] in
/-- A histogram gets one. -/
theorem samplesIn_histogram (name histogram : Str) (valueFn : ValueExtractorFn)
    (requestInfo : RequestInfo) (calls : List MetricCall) :
    samplesIn ((StatGen.resolve ⟨histogram, .histogram, valueFn⟩).record requestInfo ++ calls)
        ⟨.histogram, name⟩
      = (if name = histogram then [valueFn requestInfo] else [])
        ++ samplesIn calls ⟨.histogram, name⟩ := by
  show samplesIn (.record ⟨.histogram, histogram⟩ (valueFn requestInfo) :: calls) _ = _
  rw [samplesIn_cons]
  by_cases hname : name = histogram
  · rw [if_pos hname, hname]
    simp only [samplesIn, List.filterMap_cons, if_true, List.filterMap_nil]
  · have hother : (⟨.histogram, histogram⟩ : MetricId) ≠ ⟨.histogram, name⟩ := by
      intro h
      exact hname (congrArg MetricId.name h).symm
    rw [if_neg hname]
    simp only [samplesIn, List.filterMap_cons, if_neg hother, List.filterMap_nil]

/-- The samples of an `onLog` of a stream, by what the stream knows. -/
theorem samplesIn_onLog {id : ℕ} {es : List Event} {s : MetricsState} (h : Tally id es s)
    (host : RequestProperties) (name : Str) :
    samplesIn ((s.streams id).onLog s.root host).1 ⟨.histogram, name⟩
      = ownSamples id es host name := by
  have hstats := h.stats
  simp only [StatsContext.onLog, StatsRootContext.report, ownSamples]
  cases hlatest : latest Event.statPrefix es with
  | none =>
    rw [hlatest] at hstats
    rw [hstats]
    rfl
  | some statPrefix =>
    rw [hlatest] at hstats
    rw [hstats, Option.map_some, Option.getD_some, statGens, List.flatMap_cons, List.flatMap_cons,
      List.flatMap_cons, List.flatMap_cons, List.flatMap_cons, List.flatMap_cons,
      samplesIn_counter, samplesIn_counter, samplesIn_counter, samplesIn_histogram,
      samplesIn_histogram, samplesIn_histogram, ← h.startTimestamp, ← h.requestSize,
      ← h.responseSize]
    dsimp only
    have hbytes : statPrefix ++ requestDurationMilliseconds ≠ statPrefix ++ requestBytes := by
      intro heq
      exact absurd (List.append_cancel_left heq) (by decide)
    have hresponse : statPrefix ++ requestDurationMilliseconds ≠ statPrefix ++ responseBytes := by
      intro heq
      exact absurd (List.append_cancel_left heq) (by decide)
    have hsizes : statPrefix ++ requestBytes ≠ statPrefix ++ responseBytes := by
      intro heq
      exact absurd (List.append_cancel_left heq) (by decide)
    by_cases hduration : name = statPrefix ++ requestDurationMilliseconds
    · rw [hduration, if_pos rfl, if_neg hbytes, if_neg hresponse, if_pos rfl]
      rfl
    · rw [if_neg hduration, if_neg hduration]
      by_cases hrequest : name = statPrefix ++ requestBytes
      · rw [hrequest, if_pos rfl, if_neg hsizes, if_pos rfl]
        rfl
      · rw [if_neg hrequest, if_neg hrequest]
        split <;> rfl

/-- **A stream's samples are its own.**  However the streams are interleaved, an `onLog` adds to the
histograms one sample each: the milliseconds since the stream's headers, and the lengths of its
request and of its response body added up.  The same is added where the callbacks of the stream and
of the root are all there are. -/
theorem log_samples (outbound useHostHeaderFallback : Bool) (metrics : MetricStore)
    (es : List Event) (id : ℕ) (host : RequestProperties) (name : Str) :
    let start := MetricsState.start outbound useHostHeaderFallback metrics
    let s := run MetricsState.step start es
    let alone := run MetricsState.step start (es.filter (Event.own id))
    let samples := ownSamples id es host name
    (s.step (.log id host)).metrics.histograms ⟨.histogram, name⟩
        = s.metrics.histograms ⟨.histogram, name⟩ ++ samples ∧
      (alone.step (.log id host)).metrics.histograms ⟨.histogram, name⟩
        = alone.metrics.histograms ⟨.histogram, name⟩ ++ samples := by
  intro start s alone samples
  have hown : samplesIn ((s.streams id).onLog s.root host).1 ⟨.histogram, name⟩ = samples :=
    samplesIn_onLog (tally_run id outbound useHostHeaderFallback metrics es) host name
  have hcalls : ((s.streams id).onLog s.root host).1
      = ((alone.streams id).onLog alone.root host).1 :=
    (onLog_eq ((streamView_isolated id).view_run start es) host).1
  constructor
  · rw [← hown]
    exact execCalls_histograms s.metrics _ rfl
  · rw [← hown, hcalls]
    exact execCalls_histograms alone.metrics _ rfl

end

end EnvoyWasmFilters.Metrics
