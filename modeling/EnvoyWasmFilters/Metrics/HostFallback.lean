import EnvoyWasmFilters.Library.TwoRuns
import EnvoyWasmFilters.Metrics.Runs

/-!
# The fallback to the host header

`Config.disable_host_header_fallback` is to keep the client's `:authority` out of what is reported.  Two
runs are compared that differ in the `:authority` of their requests only.

* `OnlyAuthority`, `Twin` — two answers of the host that differ there only, and two callbacks;
* `populate_eq_iff` — the information of one request: it is the same where a destination is known, or the
  two headers have one value;
* `authority_hidden_iff` — **when the header stays out of the reports** of two whole runs under
  configurations with the fallback disabled.
-/

namespace EnvoyWasmFilters.Metrics

open Common GuardedRun Multimap

/-! ### Requests that differ in one header -/

/-- Headers of another name are found where the name's entries are removed. -/
theorem getHeader_removeAll (h : HeaderMap) {key name : Str} (hkey : key ≠ name) :
    getHeader (removeAll name h) key = getHeader h key := by
  rw [getHeader_eq_head?, getHeader_eq_head?, entriesOf, removeAll, List.filter_filter, entriesOf]
  congr 2
  apply List.filter_congr
  intro e _
  by_cases he : e.1 = key
  · have hname : e.1 ≠ name := by
      rw [he]
      exact hkey
    rw [decide_eq_true he, decide_eq_true hname, Bool.and_true]
  · rw [decide_eq_false he, Bool.false_and]

/-- `kAuthorityHeaderKey`. -/
def authorityHeaderKey : Str := ":authority"

/-- The host answers the same, but for the values of `:authority`. -/
structure OnlyAuthority (host host' : RequestProperties) : Prop where
  currentTimeNanoseconds : host.currentTimeNanoseconds = host'.currentTimeNanoseconds
  responseCode : host.responseCode = host'.responseCode
  requestHeaders :
    removeAll authorityHeaderKey host.requestHeaders
      = removeAll authorityHeaderKey host'.requestHeaders
  urlPath : host.urlPath = host'.urlPath
  responseFlags : host.responseFlags = host'.responseFlags

theorem OnlyAuthority.getHeaderMapValue {host host' : RequestProperties}
    (h : OnlyAuthority host host') {key : Str} (hkey : key ≠ authorityHeaderKey) :
    host.getHeaderMapValue key = host'.getHeaderMapValue key := by
  simp only [RequestProperties.getHeaderMapValue]
  rw [← getHeader_removeAll host.requestHeaders hkey, h.requestHeaders,
    getHeader_removeAll host'.requestHeaders hkey]

/-- **One request.**  Under the fallback, two requests that differ in `:authority` only give the same
information exactly if a destination is known already, or the first `:authority` is the same. -/
theorem populate_eq_iff {host host' : RequestProperties} (h : OnlyAuthority host host')
    (outbound : Bool) (requestInfo : RequestInfo) :
    populateHTTPRequestInfo outbound true host requestInfo
        = populateHTTPRequestInfo outbound true host' requestInfo
      ↔ requestInfo.destinationServiceHost ≠ []
        ∨ host.getHeaderMapValue authorityHeaderKey = host'.getHeaderMapValue authorityHeaderKey := by
  have hcontent : host.getHeaderMapValue "content-type" = host'.getHeaderMapValue "content-type" :=
    h.getHeaderMapValue (by decide)
  have hmethod : host.getHeaderMapValue ":method" = host'.getHeaderMapValue ":method" :=
    h.getHeaderMapValue (by decide)
  simp only [populateHTTPRequestInfo]
  rw [h.currentTimeNanoseconds, h.responseCode, h.urlPath, h.responseFlags, hcontent, hmethod]
  by_cases hknown : requestInfo.destinationServiceHost = []
  · simp only [if_neg (not_not_intro hknown), if_true]
    constructor
    · intro heq
      exact .inr (congrArg RequestInfo.destinationServiceHost heq)
    · rintro (hne | hsame)
      · exact absurd hknown hne
      · have hauthority : host.getHeaderMapValue ":authority" = host'.getHeaderMapValue ":authority" :=
          hsame
        rw [hauthority]
  · simp only [if_pos hknown]
    exact iff_of_true trivial (.inl hknown)

section

variable [JsonText]

/-! ### Two runs -/

/-- The text of a configuration that disables the fallback. -/
structure DisablingConfiguration where
  text : Str
  disables : (JsonText.jsonStringToMessage text).2.disableHostHeaderFallback = true

/-- Two corresponding callbacks of the two runs: the same callback, a new configuration with the
fallback disabled as well, or the `onLog` of a stream for two requests. -/
inductive Twin where
  | configure (configuration : DisablingConfiguration) (listenerDirection : Option Int64)
  | requestHeaders (id : ℕ) (currentTimeNanoseconds : UInt64)
  | requestBody (id : ℕ) (bodyBufferLength : UInt64) (endOfStream : Bool)
  | responseBody (id : ℕ) (bodyBufferLength : UInt64) (endOfStream : Bool)
  | log (id : ℕ) (host host' : RequestProperties) (onlyAuthority : OnlyAuthority host host')

/-- The callback of the first run. -/
def Twin.left : Twin → Event
  | .configure configuration listenerDirection => .configure configuration.text listenerDirection
  | .requestHeaders id ns => .requestHeaders id ns
  | .requestBody id length endOfStream => .requestBody id length endOfStream
  | .responseBody id length endOfStream => .responseBody id length endOfStream
  | .log id host _ _ => .log id host

/-- The callback of the second run. -/
def Twin.right : Twin → Event
  | .log id _ host' _ => .log id host'
  | e => e.left

/-- What the filter reports: the information of each `onLog`, and the dimensions. -/
def reported (s : MetricsState) : List RequestInfo × WasmStats :=
  (s.reports.map Report.requestInfo, s.root.wasmStats)

/-- The condition on a pair of callbacks: an `onLog` of two requests finds a destination that an earlier
one has left in the stream, or the two have the same `:authority`. -/
def SameDestination (s : MetricsState) : Twin → Prop
  | .log id host host' _ =>
      (s.streams id).requestInfo.destinationServiceHost ≠ []
        ∨ host.getHeaderMapValue authorityHeaderKey = host'.getHeaderMapValue authorityHeaderKey
  | _ => True

/-- The fallback is in use in every configured root: no callback takes it back. -/
theorem step_useHostHeaderFallback (s : MetricsState) (e : Event)
    (h : s.root.useHostHeaderFallback = true) : (s.step e).root.useHostHeaderFallback = true := by
  cases e with
  | configure configuration listenerDirection => rfl
  | requestHeaders id ns => exact h
  | requestBody id length endOfStream => exact h
  | responseBody id length endOfStream => exact h
  | log id host => exact h

/-- Two requests with the same information lead to one state. -/
theorem step_log_congr (s : MetricsState) (id : ℕ) {host host' : RequestProperties}
    (h : populateHTTPRequestInfo s.root.outbound s.root.useHostHeaderFallback host
        (s.streams id).requestInfo
      = populateHTTPRequestInfo s.root.outbound s.root.useHostHeaderFallback host'
        (s.streams id).requestInfo) :
    s.step (.log id host) = s.step (.log id host') := by
  simp only [MetricsState.step, StatsContext.onLog]
  rw [h]

/-- The last information reported after an `onLog` is the one populated there. -/
theorem reported_log (s : MetricsState) (id : ℕ) (host : RequestProperties) :
    (reported (s.step (.log id host))).1
      = s.reports.map Report.requestInfo
        ++ [populateHTTPRequestInfo s.root.outbound s.root.useHostHeaderFallback host
          (s.streams id).requestInfo] :=
  List.map_append

/-- **When `:authority` stays out of the reports.**  Under configurations that disable the fallback, two
runs whose requests differ in `:authority` only report the same throughout exactly if every `onLog` finds
a known destination or the same `:authority` in both: the setting has no effect. -/
theorem authority_hidden_iff (outbound useHostHeaderFallback : Bool) (metrics : MetricStore)
    (configuration : DisablingConfiguration) (listenerDirection : Option Int64) (es : List Twin) :
    let s := (MetricsState.start outbound useHostHeaderFallback metrics).step
      (.configure configuration.text listenerDirection)
    AgreeThroughout MetricsState.step Twin.left Twin.right reported s es
      ↔ Guarded (fun s e => s.step e.left) SameDestination s es := by
  intro s
  apply agreeThroughout_iff_guarded (J := fun s => s.root.useHostHeaderFallback = true)
  · intro s e h
    exact step_useHostHeaderFallback s e.left h
  · intro s e h hsame
    cases e with
    | log id host host' honly =>
      apply step_log_congr
      rw [h]
      exact (populate_eq_iff honly s.root.outbound (s.streams id).requestInfo).mpr hsame
    | _ => rfl
  · intro s e h hview
    cases e with
    | log id host host' honly =>
      have hinfo := congrArg Prod.fst hview
      dsimp only [Twin.left, Twin.right] at hinfo
      rw [reported_log, reported_log, h] at hinfo
      exact (populate_eq_iff honly s.root.outbound (s.streams id).requestInfo).mp
        (List.singleton_inj.mp (List.append_cancel_left hinfo))
    | _ => trivial
  · rfl

end

/-- A protobuf library that reads the one field of `{"disable_host_header_fallback":true}`. -/
@[reducible] def disablingText : JsonText where
  jsonStringToMessage text :=
    let disables : Str := "\x7b\"disable_host_header_fallback\":true\x7d"
    (decide (text = disables), { disableHostHeaderFallback := decide (text = disables) })

/-- A request that ends one millisecond after the epoch, with a `:authority` of the client's. -/
def requestTo (authority : Str) : RequestProperties :=
  { currentTimeNanoseconds := 1000000, requestHeaders := [(authorityHeaderKey, authority)] }

theorem requestTo_onlyAuthority (authority authority' : Str) :
    OnlyAuthority (requestTo authority) (requestTo authority') where
  currentTimeNanoseconds := rfl
  responseCode := rfl
  requestHeaders := by simp [removeAll, requestTo]
  urlPath := rfl
  responseFlags := rfl

/-- With the fallback disabled, two clients are reported under the `:authority` that each has sent. -/
theorem authority_not_hidden :
    letI := disablingText
    ¬ ∀ (configuration : DisablingConfiguration) (es : List Twin),
        AgreeThroughout MetricsState.step Twin.left Twin.right reported
          ((MetricsState.start false false {}).step (.configure configuration.text none)) es := by
  let json := disablingText
  intro h
  have htwo := h ⟨"\x7b\"disable_host_header_fallback\":true\x7d", by decide +kernel⟩
    [.log 0 _ _ (requestTo_onlyAuthority "a.example" "b.example")] _ (List.prefix_refl _)
  exact absurd (congrArg (fun r => r.2.destinationService) htwo) (by decide +kernel)

end EnvoyWasmFilters.Metrics
