import EnvoyWasmFilters.AwsLambda.Authenticator

/-!
# The AWS Lambda filter

`AwsLambdaFilterContext` of `filter.cc`.  A callback takes the context, the host and the clock's
reading at that moment, and gives the status it returns with the context and the host it leaves.
-/

namespace EnvoyWasmFilters.AwsLambda

/-- The members of `class AwsLambdaFilterContext` that its callbacks use.  `requestHeaders` is never
assigned in the source.  `lambdafied` is not a member: it counts the executions of `lambdafy`. -/
structure AwsLambdaFilterContext where
  requestHeaders : Option HeaderMap := none
  awsAuthenticator : AwsAuthenticator := .new
  lambdafied : ℕ := 0

/-- `HeadersToSign`. -/
def headersToSign : HeaderList :=
  createHeaderToSign ["x-amz-invocation-type", "x-amz-log-type", "host", "content-type"]

section

variable [Platform] [Sha2]

/-- `lambdafy`. -/
def AwsLambdaFilterContext.lambdafy (context : AwsLambdaFilterContext) (w : WasmHost)
    (systemTime : ℕ) : AwsLambdaFilterContext × WasmHost :=
  let w := w.addRequestHeader "x-amz-invocation-type" "RequestResponse"
  let w := w.addRequestHeader "x-amz-log-type" "None"
  let signed := context.awsAuthenticator.sign w context.requestHeaders headersToSign "us-east-1"
    systemTime
  ({ context with awsAuthenticator := signed.1, lambdafied := context.lambdafied + 1 }, signed.2)

/-- `onRequestHeaders`. -/
def AwsLambdaFilterContext.onRequestHeaders (context : AwsLambdaFilterContext) (w : WasmHost)
    (systemTime : ℕ) : FilterHeadersStatus × AwsLambdaFilterContext × WasmHost :=
  let method := w.getRequestHeader ":method"
  -- the heuristic for a stream that its headers end
  let endStream := decide (method.2.read method.1 = "GET")
  if endStream then
    let lambdafied := context.lambdafy method.2 systemTime
    (.continue, lambdafied.1, lambdafied.2.release method.1)
  else (.stopIteration, context, method.2.release method.1)

/-- `onRequestBody`. -/
def AwsLambdaFilterContext.onRequestBody (context : AwsLambdaFilterContext) (w : WasmHost)
    (systemTime bodyBufferLength : ℕ) (endStream : Bool) :
    FilterDataStatus × AwsLambdaFilterContext × WasmHost :=
  if endStream then
    let body := w.getBufferBytes 0 bodyBufferLength
    let awsAuthenticator := context.awsAuthenticator.updatePayloadHash (body.2.read body.1)
    let lambdafied :=
      { context with awsAuthenticator := awsAuthenticator }.lambdafy body.2 systemTime
    (.continue, lambdafied.1, lambdafied.2.release body.1)
  else (.stopIterationAndBuffer, context, w)

/-- `onRequestTrailers`. -/
def AwsLambdaFilterContext.onRequestTrailers (context : AwsLambdaFilterContext) (w : WasmHost)
    (systemTime : ℕ) : FilterTrailersStatus × AwsLambdaFilterContext × WasmHost :=
  (.continue, context.lambdafy w systemTime)

/-! ### What `lambdafy` does -/

/-- The execution of `lambdafy` is counted. -/
theorem lambdafy_lambdafied (context : AwsLambdaFilterContext) (w : WasmHost) (systemTime : ℕ) :
    (context.lambdafy w systemTime).1.lambdafied = context.lambdafied + 1 := rfl

/-- It asks the body's hash for its digest. -/
theorem lambdafy_bodySha (context : AwsLambdaFilterContext) (w : WasmHost) (systemTime : ℕ) :
    (context.lambdafy w systemTime).1.awsAuthenticator.bodySha
      = context.awsAuthenticator.bodySha ++ [.final] :=
  sign_bodySha context.awsAuthenticator _ context.requestHeaders headersToSign "us-east-1" systemTime

theorem lambdafy_requestBody (context : AwsLambdaFilterContext) (w : WasmHost) (systemTime : ℕ) :
    (context.lambdafy w systemTime).2.requestBody = w.requestBody :=
  sign_requestBody context.awsAuthenticator _ context.requestHeaders headersToSign "us-east-1"
    systemTime

omit [Platform] [Sha2] in
/-- The headers of an invocation, in the order in which they are added. -/
def invocationHeaders (dateTime authorization : Str) : HeaderMap :=
  [("x-amz-invocation-type", "RequestResponse"), ("x-amz-log-type", "None"),
    (dateHeader, dateTime), ("authorization", authorization)]

/-- **It adds four headers**, the last of them a signature. -/
theorem lambdafy_requestHeaders (context : AwsLambdaFilterContext) (w : WasmHost)
    (systemTime : ℕ) :
    ∃ dateTime authorization, (context.lambdafy w systemTime).2.requestHeaders
      = w.requestHeaders ++ invocationHeaders dateTime authorization := by
  let invoked := (w.addRequestHeader "x-amz-invocation-type" "RequestResponse").addRequestHeader
    "x-amz-log-type" "None"
  let signing := context.awsAuthenticator.signWithTime invoked context.requestHeaders headersToSign
    "us-east-1" (signTime systemTime)
  refine ⟨formatTime "%Y%m%dT%H%M%SZ" putDateTime (signTime systemTime), signing.authorization, ?_⟩
  show (context.awsAuthenticator.sign invoked context.requestHeaders headersToSign "us-east-1"
    systemTime).2.requestHeaders = _
  rw [sign_requestHeaders, addRequestHeader_requestHeaders, addRequestHeader_requestHeaders,
    List.append_assoc, List.append_assoc]
  rfl

end

end EnvoyWasmFilters.AwsLambda
