import EnvoyWasmFilters.Library.GuardedRun
import EnvoyWasmFilters.AwsLambda.CanonicalRequest
import EnvoyWasmFilters.AwsLambda.StreamSigning

/-!
# When `lambdafy` is executed, and with what

Three callbacks execute `lambdafy`.  What is signed is in the arguments of the execution, and who had
to provide it is spread over the constructor, `onConfigure` and the callbacks.

* `StreamState.execution?` — the execution of `lambdafy` in a callback; `deliver_execution`,
  `deliver_held` say what a callback with and without one leaves;
* `released_signed` — **no request goes on unsigned**, after any callbacks;
* `signsItsMethod_iff` — when the method that is signed is the one that is sent;
* `installed_iff` — when all that signing dereferences has been set.
-/

namespace EnvoyWasmFilters.AwsLambda

open GuardedRun

/-! ### Executions -/

/-- An execution of `lambdafy`: the filter and the host it finds, and the clock's reading. -/
structure Execution where
  context : AwsLambdaFilterContext
  host : WasmHost
  systemTime : ℕ

section

variable [Platform] [Sha2]

omit [Sha2] in
/-- The execution of `lambdafy` in a callback. -/
def StreamState.execution? (s : StreamState) : Callback → Option Execution
  | .headers systemTime =>
      let method := s.host.getRequestHeader ":method"
      if method.2.read method.1 = "GET" then some ⟨s.context, method.2, systemTime⟩ else none
  | .body chunk endOfStream =>
      let host := { s.host with requestBody := s.host.requestBody ++ chunk.data }
      let body := host.getBufferBytes 0 host.requestBody.length
      let awsAuthenticator :=
        s.context.awsAuthenticator.updatePayloadHash (body.2.read body.1)
      if endOfStream then
        some ⟨{ s.context with awsAuthenticator := awsAuthenticator }, body.2, chunk.systemTime⟩
      else none
  | .trailers systemTime => some ⟨s.context, s.host, systemTime⟩

/-- What `lambdafy` leaves. -/
def Execution.outcome (e : Execution) : AwsLambdaFilterContext × WasmHost :=
  e.context.lambdafy e.host e.systemTime

/-- A callback with an execution: it leaves what `lambdafy` leaves, and the stream goes on. -/
theorem deliver_execution {s : StreamState} {callback : Callback} {e : Execution}
    (h : s.execution? callback = some e) :
    (s.deliver callback).context = e.outcome.1 ∧
      (s.deliver callback).host.requestHeaders = e.outcome.2.requestHeaders ∧
      (s.deliver callback).continued = true ∧ e.host.requestHeaders = s.host.requestHeaders := by
  cases callback with
  | headers systemTime =>
    simp only [StreamState.execution?] at h
    split at h
    · next hget =>
      obtain rfl := Option.some.inj h
      simp only [StreamState.deliver, AwsLambdaFilterContext.onRequestHeaders]
      rw [if_pos (decide_eq_true hget)]
      exact ⟨rfl, rfl, rfl, rfl⟩
    · cases h
  | body chunk endOfStream =>
    simp only [StreamState.execution?] at h
    split at h
    · next hend =>
      obtain rfl := Option.some.inj h
      simp only [StreamState.deliver, AwsLambdaFilterContext.onRequestBody]
      rw [if_pos hend]
      exact ⟨rfl, rfl, rfl, rfl⟩
    · cases h
  | trailers systemTime =>
    obtain rfl := Option.some.inj h
    exact ⟨rfl, rfl, rfl, rfl⟩

/-- A callback without one: the filter and the headers stay, and the stream is held back. -/
theorem deliver_held {s : StreamState} {callback : Callback} (h : s.execution? callback = none) :
    (s.deliver callback).context = s.context ∧
      (s.deliver callback).host.requestHeaders = s.host.requestHeaders ∧
      (s.deliver callback).continued = false := by
  cases callback with
  | headers systemTime =>
    simp only [StreamState.execution?] at h
    split at h
    · cases h
    · next hget =>
      simp only [StreamState.deliver, AwsLambdaFilterContext.onRequestHeaders]
      rw [if_neg (fun hdecide => hget (of_decide_eq_true hdecide))]
      exact ⟨rfl, rfl, rfl⟩
  | body chunk endOfStream =>
    simp only [StreamState.execution?] at h
    split at h
    · cases h
    · next hend =>
      simp only [StreamState.deliver, AwsLambdaFilterContext.onRequestBody]
      rw [if_neg hend]
      exact ⟨rfl, rfl, rfl⟩
  | trailers systemTime => cases h

/-! ### No request goes on unsigned -/

omit [Platform] [Sha2] in
/-- As many signatures have been added as `lambdafy` was executed, and at least one if the stream goes
on. -/
def Ledger.Sound (before : ℕ) (l : Ledger) : Prop :=
  l.signatures = before + l.lambdafied ∧ (l.continued = true → 0 < l.lambdafied)

omit [Platform] [Sha2] in
theorem sign_sound {before : ℕ} {l : Ledger} (h : l.Sound before) : l.sign.Sound before :=
  ⟨congrArg (· + 1) h.1, fun _ => Nat.succ_pos _⟩

omit [Platform] [Sha2] in
theorem hold_sound {before : ℕ} {l : Ledger} (h : l.Sound before) : l.hold.Sound before :=
  ⟨h.1, fun hgoes => absurd hgoes Bool.false_ne_true⟩

/-- One callback, whichever it is. -/
theorem deliver_sound {before : ℕ} (s : StreamState) (callback : Callback)
    (h : s.ledger.Sound before) : (s.deliver callback).ledger.Sound before := by
  cases callback with
  | headers systemTime =>
    rw [ledger_headers, Ledger.headers]
    split
    · exact sign_sound h
    · exact hold_sound h
  | body chunk endOfStream =>
    cases endOfStream with
    | true =>
      rw [ledger_last]
      exact sign_sound (l := (s.ledger.receive chunk.data).hash) h
    | false => exact hold_sound (l := s.ledger.receive chunk.data) h
  | trailers systemTime =>
    rw [ledger_trailers]
    exact sign_sound h

omit [Platform] [Sha2] in
/-- A stream that has been signed: `lambdafy` was executed, and each execution has added an
authorization to those the request came with. -/
def StreamState.Signed (headers : HeaderMap) (s : StreamState) : Prop :=
  0 < s.context.lambdafied ∧
    signatures s.host.requestHeaders = signatures headers + s.context.lambdafied

/-- **No request goes on unsigned.**  After any callbacks in any order, whenever the last of them has let
the stream continue, it has been signed. -/
theorem released_signed (headers : HeaderMap) (callbacks : List Callback) :
    Throughout StreamState.deliver (fun s => s.continued = true → s.Signed headers)
      { host := { requestHeaders := headers } } callbacks := by
  intro pre _ hgoes
  have hsound : (run StreamState.deliver { host := { requestHeaders := headers } }
      pre).ledger.Sound (signatures headers) := by
    apply invariant_run StreamState.deliver (I := fun s => s.ledger.Sound (signatures headers))
      deliver_sound
    exact ⟨rfl, fun h => absurd h Bool.false_ne_true⟩
  exact ⟨hsound.2 hgoes, hsound.1⟩

/-! ### What an execution finds and leaves -/

omit [Platform] [Sha2] in
/-- The call of `signWithTime` in an execution. -/
def Execution.call (e : Execution) : SignCall where
  auth := e.context.awsAuthenticator
  host := (e.host.addRequestHeader "x-amz-invocation-type" "RequestResponse").addRequestHeader
    "x-amz-log-type" "None"
  requestHeaders := e.context.requestHeaders
  headersToSign := headersToSign
  region := "us-east-1"
  now := signTime e.systemTime

/-- Its local variables. -/
def Execution.signing (e : Execution) : Signing := e.call.signing

/-- The authenticator that an execution leaves. -/
theorem signing_auth (e : Execution) :
    ∃ urlBase queryString,
      e.signing.auth
        = { e.context.awsAuthenticator with
            bodySha := e.context.awsAuthenticator.bodySha ++ [.final]
            requestHeaders := e.context.requestHeaders
            urlBase := urlBase
            queryString := queryString } :=
  signWithTime_auth _ _ _ _ _ _

omit [Sha2] in
/-- The filter that an execution finds: what the callback before it may have changed is the body's
hash. -/
theorem execution_context {s : StreamState} {callback : Callback} {e : Execution}
    (h : s.execution? callback = some e) :
    ∃ bodySha, e.context = { s.context with
      awsAuthenticator := { s.context.awsAuthenticator with bodySha := bodySha } } := by
  cases callback with
  | headers systemTime =>
    simp only [StreamState.execution?] at h
    split at h
    · obtain rfl := Option.some.inj h
      exact ⟨_, rfl⟩
    · cases h
  | body chunk endOfStream =>
    simp only [StreamState.execution?] at h
    split at h
    · obtain rfl := Option.some.inj h
      exact ⟨_, rfl⟩
    · cases h
  | trailers systemTime =>
    obtain rfl := Option.some.inj h
    exact ⟨_, rfl⟩

/-- What `init` and the constructor have set, no callback changes. -/
theorem deliver_keys (s : StreamState) (callback : Callback) :
    (s.deliver callback).context.awsAuthenticator.accessKey = s.context.awsAuthenticator.accessKey ∧
      (s.deliver callback).context.awsAuthenticator.method = s.context.awsAuthenticator.method := by
  cases h : s.execution? callback with
  | none =>
    rw [(deliver_held h).1]
    exact ⟨rfl, rfl⟩
  | some e =>
    obtain ⟨bodySha, hcontext⟩ := execution_context h
    obtain ⟨urlBase, queryString, hauth⟩ := signing_auth e
    have hleft : (s.deliver callback).context.awsAuthenticator = e.signing.auth :=
      congrArg AwsLambdaFilterContext.awsAuthenticator (deliver_execution h).1
    rw [hleft, hauth, hcontext]
    exact ⟨rfl, rfl⟩

/-! ### The method that is signed -/

omit [Platform] [Sha2] in
/-- The first line of a text in pieces. -/
def firstLine (pieces : List Str) : Str := pieces.flatten.takeWhile (· ≠ '\n')

/-- It is the method of the authenticator. -/
theorem firstLine_canonicalRequest (e : Execution)
    (hmethod : '\n' ∉ e.context.awsAuthenticator.method) :
    firstLine e.signing.canonicalRequest = e.context.awsAuthenticator.method := by
  obtain ⟨urlBase, queryString, hauth⟩ := signing_auth e
  have hsigned : e.signing.auth.method = e.context.awsAuthenticator.method := by
    rw [hauth]
  rw [firstLine, Signing.canonicalRequest, AwsAuthenticator.canonicalRequest, hsigned,
    List.flatten_cons, List.flatten_cons]
  exact Delimited.takeWhile_field hmethod _

/-- Every signature of a stream is for the method of the constructor. -/
theorem execution_firstLine (r : Request) (callbacks : List Callback) {callback : Callback}
    {e : Execution} (h : (r.start.run callbacks).execution? callback = some e) :
    firstLine e.signing.canonicalRequest = ("POST" : Str) := by
  have hrun : (run StreamState.deliver r.start callbacks).context.awsAuthenticator.method
      = ("POST" : Str) := by
    apply invariant_run StreamState.deliver
      (I := fun s => s.context.awsAuthenticator.method = ("POST" : Str))
    · intro s callback hs
      exact (deliver_keys s callback).2.trans hs
    · rfl
  obtain ⟨bodySha, hcontext⟩ := execution_context h
  have hmethod : e.context.awsAuthenticator.method = ("POST" : Str) := by
    rw [hcontext]
    exact hrun
  rw [firstLine_canonicalRequest e (by rw [hmethod]; decide), hmethod]

/-- The `:method` at the host is the client's: none of the headers added is called so. -/
theorem deliver_method (s : StreamState) (callback : Callback) :
    getHeader (s.deliver callback).host.requestHeaders ":method"
      = getHeader s.host.requestHeaders ":method" := by
  cases h : s.execution? callback with
  | none => rw [(deliver_held h).2.1]
  | some e =>
    obtain ⟨-, hheaders, -, hfound⟩ := deliver_execution h
    obtain ⟨dateTime, authorization, hadded⟩ :=
      lambdafy_requestHeaders e.context e.host e.systemTime
    have hnone : getHeader (invocationHeaders dateTime authorization) ":method" = none := rfl
    rw [hheaders, Execution.outcome, hadded, getHeader_append, hnone, Option.or_none, hfound]

/-- The method with which the request is sent on. -/
theorem complete_method (r : Request) :
    (getHeader r.complete.host.requestHeaders ":method").getD [] = r.method := by
  have hrun : getHeader (run StreamState.deliver r.start r.callbacks).host.requestHeaders ":method"
      = getHeader r.headers ":method" := by
    apply invariant_run StreamState.deliver
      (I := fun s => getHeader s.host.requestHeaders ":method" = getHeader r.headers ":method")
    · intro s callback hs
      exact (deliver_method s callback).trans hs
    · rfl
  exact congrArg (Option.getD · []) hrun

/-- Whenever the stream is signed, the first line of the canonical request is the method with which the
request is sent on. -/
def Request.SignsItsMethod (r : Request) : Prop :=
  ∀ pre callback e, pre ++ [callback] <+: r.callbacks →
    (r.start.run pre).execution? callback = some e →
    firstLine e.signing.canonicalRequest
      = (getHeader r.complete.host.requestHeaders ":method").getD []

omit [Sha2] in
/-- The headers execute `lambdafy` exactly for `GET`. -/
theorem execution_headers (s : StreamState) (systemTime : ℕ) :
    s.execution? (.headers systemTime) = none
      ↔ (getHeader s.host.requestHeaders ":method").getD [] ≠ ("GET" : Str) := by
  simp only [StreamState.execution?]
  rw [WasmHost.getRequestHeader, read_newData]
  split
  · next hget => exact iff_of_false (fun h => by cases h) (fun h => h hget)
  · next hget => exact iff_of_true rfl hget

/-- The callback that ends the stream after the headers executes it always. -/
theorem execution_rest (r : Request) (hrest : r.rest ≠ .headersOnly) :
    ∃ pre callback e, pre ++ [callback] <+: r.callbacks ∧
      (r.start.run pre).execution? callback = some e := by
  cases h : r.rest with
  | headersOnly => exact absurd h hrest
  | body chunks last =>
    refine ⟨.headers r.systemTime :: chunks.map (.body · false), .body last true, _, ?_, rfl⟩
    rw [Request.callbacks, h]
    exact List.prefix_rfl
  | trailers chunks systemTime =>
    refine ⟨.headers r.systemTime :: chunks.map (.body · false), .trailers systemTime, _, ?_, rfl⟩
    rw [Request.callbacks, h]
    exact List.prefix_rfl

/-- **When the method that is signed is the one that is sent**: it is `POST`, or the stream is never
signed. -/
theorem signsItsMethod_iff (r : Request) :
    r.SignsItsMethod
      ↔ r.method = ("POST" : Str) ∨ (r.method ≠ ("GET" : Str) ∧ r.rest = .headersOnly) := by
  constructor
  · intro h
    by_cases hpost : r.method = ("POST" : Str)
    · exact .inl hpost
    · have hnever : ∀ pre callback, pre ++ [callback] <+: r.callbacks →
          (r.start.run pre).execution? callback = none := by
        intro pre callback hpre
        cases he : (r.start.run pre).execution? callback with
        | none => rfl
        | some e =>
          have hsigned := h pre callback e hpre he
          rw [execution_firstLine r pre he, complete_method] at hsigned
          exact absurd hsigned.symm hpost
      refine .inr ⟨?_, ?_⟩
      · apply (execution_headers r.start r.systemTime).mp
        exact hnever [] (.headers r.systemTime) (List.cons_prefix_cons.mpr ⟨rfl, List.nil_prefix⟩)
      · by_contra hrest
        obtain ⟨pre, callback, e, hpre, he⟩ := execution_rest r hrest
        rw [hnever pre callback hpre] at he
        cases he
  · rintro (hpost | ⟨hget, hrest⟩) pre callback e hpre he
    · rw [execution_firstLine r pre he, complete_method, hpost]
    · rw [Request.callbacks, hrest] at hpre
      cases pre with
      | nil =>
        obtain ⟨rfl, -⟩ := List.cons_prefix_cons.mp hpre
        have hnone := (execution_headers r.start r.systemTime).mpr hget
        cases hnone.symm.trans he
      | cons first pre =>
        -- there is no second callback
        have hempty := List.prefix_nil.mp (List.cons_prefix_cons.mp hpre).2
        exact absurd hempty (List.append_ne_nil_of_right_ne_nil pre (List.cons_ne_nil _ _))

end

/-- A `GET` that its headers end. -/
def getOnly : Request :=
  { headers := [(":method", "GET"), ("host", "a")], systemTime := 0, rest := .headersOnly }

/-- It is signed as a `POST` and sent as a `GET`. -/
theorem getOnly_signed_as_post :
    ¬ getOnly.SignsItsMethod ∧ getOnly.complete.continued = true ∧
      (getHeader getOnly.complete.host.requestHeaders ":method").getD [] = ("GET" : Str) := by
  have hgoes : getOnly.complete.continued = true := by decide +kernel
  have hsent : (getHeader getOnly.complete.host.requestHeaders ":method").getD [] = ("GET" : Str) := by
    decide +kernel
  have hpost : firstLine (Execution.signing ⟨getOnly.start.context,
      (getOnly.start.host.getRequestHeader ":method").2, 0⟩).canonicalRequest = ("POST" : Str) := by
    decide +kernel
  refine ⟨fun h => ?_, hgoes, hsent⟩
  have hsigned := h [] (.headers 0) ⟨getOnly.start.context,
    (getOnly.start.host.getRequestHeader ":method").2, 0⟩ List.prefix_rfl rfl
  rw [hpost, hsent] at hsigned
  exact absurd hsigned (by decide)

/-! ### The data that signing dereferences -/

/-- `message Config` of `filter.proto`. -/
structure Config where
  value : Str := []
deriving DecidableEq

/-- `class AwsLambdaFilterRootContext`. -/
structure AwsLambdaFilterRootContext where
  headerValue : Str := []

/-- `onConfigure`, with what the protobuf library makes of the configuration. -/
def AwsLambdaFilterRootContext.onConfigure (root : AwsLambdaFilterRootContext) (config : Config) :
    Bool × AwsLambdaFilterRootContext :=
  (true, { root with headerValue := config.value })

/-- A callback on the root context or on the context of a stream. -/
inductive FilterEvent where
  | configure (config : Config)
  | create
  | callback (callback : Callback)

/-- The root context with a stream. -/
structure FilterState where
  root : AwsLambdaFilterRootContext := {}
  stream : StreamState

section

variable [Platform] [Sha2]

/-- One callback.  `onCreate` writes to the log only. -/
def FilterState.step (s : FilterState) : FilterEvent → FilterState
  | .configure config => { s with root := (s.root.onConfigure config).2 }
  | .create => s
  | .callback callback => { s with stream := s.stream.deliver callback }

omit [Sha2] in
/-- The execution of `lambdafy` in a callback. -/
def FilterState.execution? (s : FilterState) : FilterEvent → Option Execution
  | .callback callback => s.stream.execution? callback
  | _ => none

omit [Platform] [Sha2] in
/-- What signing dereferences is there: a key installed by `init`, with the secret of it, and the
headers of this request. -/
def Execution.Installed (e : Execution) : Prop :=
  (∃ accessKey, e.context.awsAuthenticator.accessKey = some accessKey) ∧
    (∃ secretKey, e.context.awsAuthenticator.firstKey = "AWS4" ++ secretKey) ∧
    e.context.requestHeaders = some e.host.requestHeaders

omit [Sha2] in
/-- Whenever `lambdafy` is executed by the event, its data has been installed. -/
def FilterState.SignsInstalled (s : FilterState) (event : FilterEvent) : Prop :=
  ∀ e, s.execution? event = some e → e.Installed

omit [Platform] [Sha2] in
/-- The event does not reach `lambdafy`: it is one of the root, headers of another method than `GET`,
or a piece of the body that does not end the stream. -/
def FilterState.Holds (s : FilterState) : FilterEvent → Prop
  | .configure _ => True
  | .create => True
  | .callback (.headers _) =>
      (getHeader s.stream.host.requestHeaders ":method").getD [] ≠ ("GET" : Str)
  | .callback (.body _ endOfStream) => endOfStream = false
  | .callback (.trailers _) => False

omit [Sha2] in
theorem holds_iff (s : FilterState) (event : FilterEvent) :
    s.Holds event ↔ s.execution? event = none := by
  cases event with
  | configure config => exact iff_of_true trivial rfl
  | create => exact iff_of_true trivial rfl
  | callback callback =>
    cases callback with
    | headers systemTime => exact (execution_headers s.stream systemTime).symm
    | body chunk endOfStream =>
      cases endOfStream with
      | true => exact iff_of_false (fun h => by cases h) (fun h => by cases h)
      | false => exact iff_of_true rfl rfl
    | trailers systemTime => exact iff_of_false id (fun h => by cases h)

/-- No event calls `init`. -/
theorem step_accessKey (s : FilterState) (event : FilterEvent)
    (h : s.stream.context.awsAuthenticator.accessKey = none) :
    (s.step event).stream.context.awsAuthenticator.accessKey = none := by
  cases event with
  | configure config => exact h
  | create => exact h
  | callback callback => exact (deliver_keys s.stream callback).1.trans h

omit [Sha2] in
/-- Without a key only the events that do not sign are safe. -/
theorem signsInstalled_iff (s : FilterState) (event : FilterEvent)
    (h : s.stream.context.awsAuthenticator.accessKey = none) :
    s.SignsInstalled event ↔ s.Holds event := by
  rw [holds_iff]
  constructor
  · intro hinstalled
    cases he : s.execution? event with
    | none => rfl
    | some e =>
      obtain ⟨⟨accessKey, hkey⟩, -⟩ := hinstalled e he
      cases event with
      | configure config => cases he
      | create => cases he
      | callback callback =>
        obtain ⟨bodySha, hcontext⟩ := execution_context he
        rw [hcontext] at hkey
        cases h.symm.trans hkey
  · intro hnone e he
    cases hnone.symm.trans he

/-- **When all that signing dereferences has been set**: in a run exactly if none of its events reaches
`lambdafy`. -/
theorem installed_iff (headers : HeaderMap) (events : List FilterEvent) :
    Guarded FilterState.step FilterState.SignsInstalled
        { stream := { host := { requestHeaders := headers } } } events
      ↔ Guarded FilterState.step FilterState.Holds
        { stream := { host := { requestHeaders := headers } } } events :=
  guarded_congr FilterState.step step_accessKey signsInstalled_iff rfl events

end

/-- A configured filter, and a `GET` for it. -/
def configuredGet : List FilterEvent :=
  [.configure { value := "a" }, .create, .callback (.headers 0)]

/-- Its headers are signed with a key that nobody has installed. -/
theorem configuredGet_not_installed :
    ¬ Guarded FilterState.step FilterState.SignsInstalled
      { stream := { host := { requestHeaders := [(":method", "GET")] } } } configuredGet := by
  rintro ⟨-, -, hinstalled, -⟩
  obtain ⟨⟨accessKey, hkey⟩, -⟩ := hinstalled _ rfl
  cases hkey

end EnvoyWasmFilters.AwsLambda
