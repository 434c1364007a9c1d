import EnvoyWasmFilters.Common.ResponseFlags
import EnvoyWasmFilters.Metrics.Filter

/-!
# Counters of response flags

Two counters are of the requests with one response flag.  Their extractors compare the whole string of
`parseResponseFlag` with the name of the flag.

* `hasResponseFlag_right_iff` — when such an extractor tells the flag, for any flag of the table;
* `counter_right_iff` — the same of a counter under its name in a configured root;
* `flagCounters_right_iff` — **when the two counters are right**.
-/

namespace EnvoyWasmFilters.Metrics

open Common NamedFlags

/-- A word whose string is the name of one flag is that flag. -/
theorem parseResponseFlag_eq_name_iff {flag : UInt64 × Str} (hflag : flag ∈ responseFlags)
    (w : UInt64) : parseResponseFlag w = flag.2 ↔ w = flag.1 := by
  have hnames : ∀ flag ∈ responseFlags, parseResponseFlag flag.1 = flag.2 := by decide +kernel
  constructor
  · intro h
    rw [← hnames flag hflag] at h
    rw [← decodeResponseFlag_parseResponseFlag w, h, decodeResponseFlag_parseResponseFlag]
  · rintro rfl
    exact hnames flag hflag

theorem flag_ne_zero {flag : UInt64 × Str} (hflag : flag ∈ responseFlags) :
    flag.1 &&& flag.1 ≠ 0 := by
  have hall : ∀ flag ∈ responseFlags, flag.1 &&& flag.1 ≠ 0 := by decide +kernel
  exact hall flag hflag

/-- **One flag.**  The extractor tells it exactly if the flag is not set, or nothing else is. -/
theorem hasResponseFlag_right_iff {flag : UInt64 × Str} (hflag : flag ∈ responseFlags)
    {requestInfo : RequestInfo} {w : UInt64} (hinfo : requestInfo.responseFlag = parseResponseFlag w) :
    hasResponseFlag flag.2 requestInfo = (if w &&& flag.1 ≠ 0 then 1 else 0)
      ↔ w &&& flag.1 = 0 ∨ w = flag.1 := by
  rw [hasResponseFlag, hinfo]
  by_cases hword : w = flag.1
  · rw [if_pos ((parseResponseFlag_eq_name_iff hflag w).mpr hword), hword,
      if_pos (flag_ne_zero hflag)]
    exact iff_of_true rfl (.inr rfl)
  · rw [if_neg fun h => hword ((parseResponseFlag_eq_name_iff hflag w).mp h), or_iff_left hword]
    by_cases hset : w &&& flag.1 = 0
    · rw [if_neg (not_not_intro hset)]
      exact iff_of_true rfl hset
    · rw [if_pos hset]
      exact iff_of_false (by decide) hset

/-- **Right values**: the two counters of rejected requests get `1` exactly if the bit of their flag is
set in the word `w`. -/
structure FlagsCounted (stats : List StatGen) (statPrefix : Str) (requestInfo : RequestInfo)
    (w : UInt64) : Prop where
  extauthRejected : ∀ statgen ∈ stats, statgen.name = statPrefix ++ extauthRejectedRequests →
    statgen.valueFn requestInfo = if w &&& 0x1000 ≠ 0 then 1 else 0
  ratelimited : ∀ statgen ∈ stats, statgen.name = statPrefix ++ ratelimitedRequests →
    statgen.valueFn requestInfo = if w &&& 0x800 ≠ 0 then 1 else 0

theorem statGens_names_nodup (statPrefix : Str) :
    ((statGens statPrefix).map StatGen.name).Nodup := by
  have hnames : ([requestsTotal, extauthRejectedRequests, ratelimitedRequests,
      requestDurationMilliseconds, requestBytes, responseBytes] : List Str).Nodup := by decide +kernel
  have hprefixed := hnames.map (List.append_right_injective statPrefix)
  exact hprefixed

theorem mem_statGens_extauthRejected (statPrefix : Str) :
    ⟨statPrefix ++ extauthRejectedRequests, .counter, hasResponseFlag "UAEX"⟩
      ∈ statGens statPrefix := by
  simp [statGens]

theorem mem_statGens_ratelimited (statPrefix : Str) :
    ⟨statPrefix ++ ratelimitedRequests, .counter, hasResponseFlag "RL"⟩ ∈ statGens statPrefix := by
  simp [statGens]

/-- A counter of one flag, under its name: a configured root has no other statistic of that name. -/
theorem counter_right_iff {flag : UInt64 × Str} (hflag : flag ∈ responseFlags)
    {statPrefix name : Str}
    (hstatgen : ⟨statPrefix ++ name, .counter, hasResponseFlag flag.2⟩ ∈ statGens statPrefix)
    {requestInfo : RequestInfo} {w : UInt64}
    (hinfo : requestInfo.responseFlag = parseResponseFlag w) :
    (∀ statgen ∈ statGens statPrefix, statgen.name = statPrefix ++ name →
        statgen.valueFn requestInfo = if w &&& flag.1 ≠ 0 then 1 else 0)
      ↔ w &&& flag.1 = 0 ∨ w = flag.1 := by
  rw [← hasResponseFlag_right_iff hflag hinfo]
  constructor
  · intro h
    exact h _ hstatgen rfl
  · intro h statgen hmem hname
    rw [List.inj_on_of_nodup_map (statGens_names_nodup statPrefix) hmem hstatgen hname]
    exact h

/-- **When the two counters are right**: whatever else the host tells of a request, for each of the two
flags either its bit is not set in the word, or the word is just that bit. -/
theorem flagCounters_right_iff (statPrefix : Str) (outbound useHostHeaderFallback : Bool)
    (host : RequestProperties) (requestInfo : RequestInfo) :
    let w := host.responseFlags.getD 0
    FlagsCounted (statGens statPrefix) statPrefix
        (populateHTTPRequestInfo outbound useHostHeaderFallback host requestInfo) w
      ↔ (w &&& 0x1000 = 0 ∨ w = 0x1000) ∧ (w &&& 0x800 = 0 ∨ w = 0x800) := by
  intro w
  have hinfo : (populateHTTPRequestInfo outbound useHostHeaderFallback host
      requestInfo).responseFlag = parseResponseFlag w := rfl
  have huaex : ((0x1000, "UAEX") : UInt64 × Str) ∈ responseFlags := by decide +kernel
  have hrl : ((0x800, "RL") : UInt64 × Str) ∈ responseFlags := by decide +kernel
  have hextauth := counter_right_iff huaex (mem_statGens_extauthRejected statPrefix) hinfo
  have hlimited := counter_right_iff hrl (mem_statGens_ratelimited statPrefix) hinfo
  constructor
  · intro h
    exact ⟨hextauth.mp h.extauthRejected, hlimited.mp h.ratelimited⟩
  · rintro ⟨h1, h2⟩
    exact ⟨hextauth.mpr h1, hlimited.mpr h2⟩

/-- Both flags at once: a request that external authorization has rejected and that was rate limited as
well counts for neither. -/
theorem both_flags_not_counted :
    ¬ FlagsCounted (statGens "_wasm_") "_wasm_"
      (populateHTTPRequestInfo false true
        { currentTimeNanoseconds := 0, responseFlags := some 0x1800 } {}) 0x1800 := by
  intro h
  have hvalue := h.extauthRejected _ (mem_statGens_extauthRejected "_wasm_") rfl
  exact absurd hvalue (by decide +kernel)

end EnvoyWasmFilters.Metrics
