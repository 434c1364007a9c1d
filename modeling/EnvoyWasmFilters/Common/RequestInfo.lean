import EnvoyWasmFilters.Common.Runtime

/-!
# What a stream tells about itself

`RequestInfo`, `parseResponseFlag` and `populateHTTPRequestInfo` of the directory `common`.  Integers
have the widths of the source.  Where they overflow they wrap, as they do on the wasm target.

What the functions ask the host for while they run is in `RequestProperties`: a value the host has not
got is `none`.  The name of the cluster is asked for and not used, so it is left out.
-/

namespace EnvoyWasmFilters.Common

/-- `struct RequestInfo`. -/
structure RequestInfo where
  startTimestamp : Int64 := 0
  endTimestamp : Int64 := 0
  requestSize : Int64 := 0
  responseSize : Int64 := 0
  destinationPort : UInt32 := 0
  requestProtocol : Str := []
  responseCode : UInt32 := 0
  responseFlag : Str := []
  destinationServiceHost : Str := []
  destinationServiceName : Str := []
  requestOperation : Str := []
  requestUrlPath : Str := []
deriving DecidableEq

/-- `std::to_string` of an unsigned number. -/
def stdToString (n : ℕ) : Str := Nat.toDigits 10 n

/-! ### Response flags -/

/-- `enum ResponseFlag` with the short names, in the order in which the flags are looked at. -/
def responseFlags : List (UInt64 × Str) :=
  [(0x1, "LH"), (0x2, "UH"), (0x4, "UT"), (0x8, "LR"), (0x10, "UR"), (0x20, "UF"), (0x40, "UC"),
    (0x80, "UO"), (0x100, "NR"), (0x200, "DI"), (0x400, "FI"), (0x800, "RL"), (0x1000, "UAEX"),
    (0x2000, "RLSE"), (0x4000, "DC"), (0x8000, "URX"), (0x10000, "SI"), (0x20000, "IH"),
    (0x40000, "DPE")]

/-- `LastFlag`. -/
def lastFlag : UInt64 := 0x40000

/-- `appendString`. -/
def appendString (result append : Str) : Str :=
  if result = [] then append else result ++ "," ++ append

/-- `parseResponseFlag`. -/
def parseResponseFlag (responseFlag : UInt64) : Str :=
  let result := responseFlags.foldl
    (fun result flag => if responseFlag &&& flag.1 ≠ 0 then appendString result flag.2 else result) []
  let result :=
    if lastFlag <<< 1 ≤ responseFlag then appendString result (stdToString responseFlag.toNat)
    else result
  if result = [] then "-" else result

-- two known flags and one that is not
example : parseResponseFlag 0x101800 = ("RL,UAEX,1054720" : Str) := by decide +kernel

/-! ### Populating the information -/

/-- `kGrpcContentTypes`. -/
def grpcContentTypes : List Str :=
  ["application/grpc", "application/grpc+proto", "application/grpc+json"]

/-- `extractServiceName`. -/
def extractServiceName (fqdn serviceName : Str) : Str :=
  match fqdn.splitOn ',' with
  | [] => serviceName
  | first :: _ => first

/-- What the host answers while `populateHTTPRequestInfo` runs. -/
structure RequestProperties where
  currentTimeNanoseconds : UInt64
  responseCode : Option Int64 := none
  requestHeaders : HeaderMap := []
  urlPath : Option Str := none
  responseFlags : Option UInt64 := none
deriving DecidableEq

/-- `getHeaderMapValue(HeaderMapType::RequestHeaders, key)->toString()`: empty without the header. -/
def RequestProperties.getHeaderMapValue (host : RequestProperties) (key : Str) : Str :=
  (getHeader host.requestHeaders key).getD []

/-- `populateHTTPRequestInfo`. -/
def populateHTTPRequestInfo (_outbound useHostHeaderFallback : Bool) (host : RequestProperties)
    (requestInfo : RequestInfo) : RequestInfo :=
  { requestInfo with
    endTimestamp := host.currentTimeNanoseconds.toInt64
    responseCode :=
      match host.responseCode with
      | some responseCode => responseCode.toUInt64.toUInt32
      | none => requestInfo.responseCode
    requestProtocol :=
      if host.getHeaderMapValue "content-type" ∈ grpcContentTypes then "grpc" else "http"
    destinationServiceName :=
      if requestInfo.destinationServiceHost ≠ [] then
        extractServiceName requestInfo.destinationServiceHost requestInfo.destinationServiceName
      else requestInfo.destinationServiceName
    -- the host header is asked for only where no earlier call has set a destination
    destinationServiceHost :=
      if requestInfo.destinationServiceHost ≠ [] then requestInfo.destinationServiceHost
      else if useHostHeaderFallback then host.getHeaderMapValue ":authority"
      else requestInfo.destinationServiceHost
    requestOperation := host.getHeaderMapValue ":method"
    requestUrlPath := host.urlPath.getD requestInfo.requestUrlPath
    destinationPort := 0
    responseFlag := parseResponseFlag (host.responseFlags.getD 0) }

end EnvoyWasmFilters.Common
