import EnvoyWasmFilters.AwsLambda.Executions
import EnvoyWasmFilters.AwsLambda.Timestamp

/-!
# The headers of an invocation and the client's

`lambdafy` adds four headers to whatever the client has sent.

* `outcome_requestHeaders` — the request that is sent on;
* `exact_iff` — when each of the four has exactly the value the filter has chosen, and the date that
  is signed is the one in the string to sign: the client has sent none of them.
-/

namespace EnvoyWasmFilters.AwsLambda

open Multimap

/-- The names of the four headers. -/
def invocationNames : List Str :=
  ["x-amz-invocation-type", "x-amz-log-type", dateHeader, "authorization"]

/-- The values of a name, in order. -/
def valuesOf (headers : HeaderMap) (name : Str) : List Str := (entriesOf name headers).map Prod.snd

theorem valuesOf_append (headers added : HeaderMap) (name : Str) :
    valuesOf (headers ++ added) name = valuesOf headers name ++ valuesOf added name := by
  rw [valuesOf, entriesOf_append, List.map_append]
  rfl

theorem valuesOf_eq_nil_iff (headers : HeaderMap) (name : Str) :
    valuesOf headers name = [] ↔ ∀ header ∈ headers, header.1 ≠ name := by
  rw [valuesOf, List.map_eq_nil_iff, entriesOf, List.filter_eq_nil_iff]
  simp only [decide_eq_true_eq]

/-- A name has exactly the value added if there was none before. -/
theorem valuesOf_append_iff (headers : HeaderMap) {added : HeaderMap} {name value : Str}
    (hadded : valuesOf added name = [value]) :
    valuesOf (headers ++ added) name = [value] ↔ ∀ header ∈ headers, header.1 ≠ name := by
  rw [valuesOf_append, hadded, ← valuesOf_eq_nil_iff]
  constructor
  · intro h
    exact List.append_cancel_right (h.trans (List.nil_append [value]).symm)
  · intro h
    rw [h, List.nil_append]

section

variable [Platform] [Sha2]

/-- **What is sent on**: the client's headers, and the four of the filter after them. -/
theorem outcome_requestHeaders (e : Execution) :
    e.outcome.2.requestHeaders = e.host.requestHeaders
      ++ invocationHeaders e.signing.requestDateTime e.signing.authorization := by
  show (e.context.awsAuthenticator.sign e.call.host e.context.requestHeaders headersToSign
    "us-east-1" e.systemTime).2.requestHeaders = _
  have hhost : e.call.host.requestHeaders = e.host.requestHeaders
      ++ ([("x-amz-invocation-type", "RequestResponse"), ("x-amz-log-type", "None")] : HeaderMap) := by
    simp only [Execution.call, addRequestHeader_requestHeaders, List.append_assoc]
    rfl
  rw [sign_requestHeaders, hhost, List.append_assoc]
  rfl

/-- Each of the four headers has one value, the one the filter has chosen, and the only `x-amz-date`
that is signed is the timestamp of the string to sign. -/
structure Execution.Exact (e : Execution) : Prop where
  invocationType : valuesOf e.outcome.2.requestHeaders "x-amz-invocation-type"
    = [("RequestResponse" : Str)]
  logType : valuesOf e.outcome.2.requestHeaders "x-amz-log-type" = [("None" : Str)]
  date : valuesOf e.outcome.2.requestHeaders dateHeader = [e.signing.requestDateTime]
  authorization : valuesOf e.outcome.2.requestHeaders "authorization" = [e.signing.authorization]
  signedDate : valuesOf e.call.pairs dateHeader = (e.signing.stringToSign[2]?).toList

omit [Platform] [Sha2] in
/-- A name that is signed is signed with its first value. -/
theorem valuesOf_map_signedPair (headers : HeaderMap) (names : HeaderList) (name : Str) :
    valuesOf (names.map (signedPair headers)) name
      = (names.filter (· = name)).map fun name => (getHeader headers name).getD [] := by
  rw [valuesOf, entriesOf, List.filter_map, List.map_map]
  rfl

omit [Sha2] in
/-- The date that is signed: the client's, if there is one. -/
theorem valuesOf_pairs (e : Execution) :
    valuesOf e.call.pairs dateHeader
      = [((getHeader e.host.requestHeaders dateHeader).or
          (some (formatTime "%Y%m%dT%H%M%SZ" putDateTime (signTime e.systemTime)))).getD []] := by
  have honce : headersToSign.filter (· = dateHeader) = [dateHeader] := by decide
  have hadded : (addDate e.call.host e.call.now).2.requestHeaders = e.host.requestHeaders
      ++ ([("x-amz-invocation-type", "RequestResponse"), ("x-amz-log-type", "None"),
        (dateHeader, formatTime "%Y%m%dT%H%M%SZ" putDateTime (signTime e.systemTime))]
          : HeaderMap) := by
    simp only [addDate, Execution.call, addRequestHeader_requestHeaders, List.append_assoc]
    rfl
  rw [SignCall.pairs, valuesOf_map_signedPair, hadded]
  show (headersToSign.filter (· = dateHeader)).map _ = _
  rw [honce, List.map_cons, List.map_nil, getHeader_append]
  rfl

/-- A name has the value that the filter adds, and no other, if the client has not sent it. -/
theorem valuesOf_sent_iff (e : Execution) {name value : Str}
    (hadded : valuesOf (invocationHeaders e.signing.requestDateTime e.signing.authorization) name
      = [value]) :
    valuesOf e.outcome.2.requestHeaders name = [value]
      ↔ ∀ header ∈ e.host.requestHeaders, header.1 ≠ name := by
  rw [outcome_requestHeaders]
  exact valuesOf_append_iff e.host.requestHeaders hadded

/-- **When the headers are exactly the filter's**: the client has sent none of the four. -/
theorem exact_iff (e : Execution) :
    e.Exact ↔ ∀ header ∈ e.host.requestHeaders, header.1 ∉ invocationNames := by
  constructor
  · rintro ⟨hinvocation, hlog, hdate, hauthorization, -⟩ header hmem hname
    simp only [invocationNames, List.mem_cons, List.not_mem_nil, or_false] at hname
    obtain h | h | h | h := hname
    · exact (valuesOf_sent_iff e rfl).mp hinvocation header hmem h
    · exact (valuesOf_sent_iff e rfl).mp hlog header hmem h
    · exact (valuesOf_sent_iff e rfl).mp hdate header hmem h
    · exact (valuesOf_sent_iff e rfl).mp hauthorization header hmem h
  · intro h
    have hnone : ∀ name ∈ invocationNames, ∀ header ∈ e.host.requestHeaders, header.1 ≠ name := by
      rintro name hname header hmem rfl
      exact h header hmem hname
    constructor
    · exact (valuesOf_sent_iff e rfl).mpr (hnone _ (by decide))
    · exact (valuesOf_sent_iff e rfl).mpr (hnone _ (by decide))
    · exact (valuesOf_sent_iff e rfl).mpr (hnone _ (by decide))
    · exact (valuesOf_sent_iff e rfl).mpr (hnone _ (by decide))
    · have hunset : getHeader e.host.requestHeaders dateHeader = none := by
        rw [getHeader_eq_head?, ← List.head?_map, ← valuesOf,
          (valuesOf_eq_nil_iff e.host.requestHeaders dateHeader).mpr (hnone _ (by decide))]
        rfl
      rw [valuesOf_pairs, hunset]
      rfl

end

/-- A `GET` for which the client has chosen a date. -/
def clientDate : Execution where
  context := {}
  host := { requestHeaders := [(":method", "GET"), ("x-amz-date", "20200101T000000Z")] }
  systemTime := 0

/-- Two dates are sent on, and the client's is the one that is signed. -/
theorem clientDate_not_exact :
    ¬ clientDate.Exact ∧
      valuesOf clientDate.outcome.2.requestHeaders dateHeader
        = [("20200101T000000Z" : Str), "19700101T000000Z"] ∧
      valuesOf clientDate.call.pairs dateHeader = [("20200101T000000Z" : Str)] ∧
      clientDate.signing.requestDateTime = ("19700101T000000Z" : Str) := by
  have hsent : valuesOf clientDate.outcome.2.requestHeaders dateHeader
      = [("20200101T000000Z" : Str), "19700101T000000Z"] := by decide +kernel
  have hsigned : valuesOf clientDate.call.pairs dateHeader = [("20200101T000000Z" : Str)] := by
    decide +kernel
  have hstamp : clientDate.signing.requestDateTime = ("19700101T000000Z" : Str) := by
    decide +kernel
  refine ⟨fun h => ?_, hsent, hsigned, hstamp⟩
  have hdate := h.date
  rw [hsent] at hdate
  exact absurd (congrArg List.length hdate) (by decide)

end EnvoyWasmFilters.AwsLambda
