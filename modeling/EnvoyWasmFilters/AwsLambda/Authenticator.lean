import Mathlib.Data.Rat.Floor
import EnvoyWasmFilters.AwsLambda.Gmtime
import EnvoyWasmFilters.AwsLambda.Host

/-!
# The AWS authenticator

`aws_authenticator.cc`: the signature of a request, version 4.  `signWithTime` returns, beside the
value of the header, its local variables (`Signing`), so that what has been signed can be spoken of.

Two classes of strings live in the authenticator: the views `url_base_` and `query_string_` into the
buffer `fetchUrl` obtained and released, and pointers to strings owned by others.
-/

namespace EnvoyWasmFilters.AwsLambda

/-! ### Time -/

/-- A number as an output stream writes it. -/
def decimal (n : ℤ) : Str :=
  if n < 0 then '-' :: Nat.toDigits 10 n.natAbs else Nat.toDigits 10 n.toNat

/-- A number with at least two digits. -/
def twoDigits (n : ℤ) : Str := if 0 ≤ n ∧ n < 10 then '0' :: decimal n else decimal n

/-- `%Y%m%d` of `std::put_time`. -/
def putDate (tm : Tm) : Str :=
  decimal (tm.tmYear + 1900) ++ twoDigits (tm.tmMon + 1) ++ twoDigits tm.tmMday

/-- `%Y%m%dT%H%M%SZ` of `std::put_time`. -/
def putDateTime (tm : Tm) : Str :=
  putDate tm ++ "T" ++ twoDigits tm.tmHour ++ twoDigits tm.tmMin ++ twoDigits tm.tmSec ++ "Z"

section

variable [Platform]

/-- The conversion of a `SystemTime` to `std::time_t`. -/
def timeT (now : ℕ) : ℤ := Int.bmod now (2 ^ Platform.timeTBits)

/-- `std::put_time(std::gmtime(&timenow), format)`. -/
def formatTime (format : Str) (put : Tm → Str) (now : ℕ) : Str :=
  match gmtime (some (timeT now)) with
  | some tm => put tm
  | none => Platform.nullTime format

/-- The argument `sign` passes as `now`: `time_source_.systemTime()/10e9`, converted to a
`SystemTime`.  The division is exact here. -/
def signTime (systemTime : ℕ) : ℕ := ⌊(systemTime : ℚ) / 10e9⌋₊

end

/-! ### The authenticator -/

/-- `class AwsAuthenticator`. -/
structure AwsAuthenticator where
  bodySha : List Sha256Op := []
  accessKey : Option Str := none
  firstKey : Str := []
  service : Str := []
  method : Str := []
  queryString : View := {}
  urlBase : View := {}
  requestHeaders : Option HeaderMap := none
deriving DecidableEq

/-- The constructor. -/
def AwsAuthenticator.new : AwsAuthenticator := { service := "lambda", method := "POST" }

/-- `init`. -/
def AwsAuthenticator.init (auth : AwsAuthenticator) (accessKey secretKey : Str) :
    AwsAuthenticator :=
  { auth with accessKey := some accessKey, firstKey := "AWS4" ++ secretKey }

/-- `AwsAuthenticatorValues::DateHeader`. -/
def dateHeader : Str := "x-amz-date"

/-- `lowercasecompare`. -/
def lowercasecompare (i j : Str) : Bool := decide (i < j)

/-- `HeaderList`: a `std::set` ordered by `lowercasecompare`, as the list of its elements in order. -/
abbrev HeaderList := List Str

/-- `HeaderList::insert`. -/
def insertHeader (header : Str) : HeaderList → HeaderList
  | [] => [header]
  | first :: rest =>
      if lowercasecompare header first then header :: first :: rest
      else if lowercasecompare first header then first :: insertHeader header rest
      else first :: rest

/-- `createHeaderToSign`. -/
def createHeaderToSign (headers : List Str) : HeaderList :=
  insertHeader dateHeader (headers.foldl (fun set header => insertHeader header set) [])

/-- `updatePayloadHash`. -/
def AwsAuthenticator.updatePayloadHash (auth : AwsAuthenticator) (data : Str) : AwsAuthenticator :=
  { auth with bodySha := auth.bodySha ++ [.update data] }

section Signing

variable [Platform] [Sha2]

/-- `addDate`. -/
def addDate (w : WasmHost) (now : ℕ) : Str × WasmHost :=
  let requestDateTime := formatTime "%Y%m%dT%H%M%SZ" putDateTime now
  (requestDateTime, w.addRequestHeader dateHeader requestDateTime)

/-- The loop of `prepareHeaders`: the canonical headers and the signed headers. -/
def prepareHeaders (w : WasmHost) : HeaderList → (Str × Str) × WasmHost
  | [] => (([], []), w)
  | header :: rest =>
      let headerData := w.getRequestHeader header
      let headerEntry := headerData.2.read headerData.1
      let following := prepareHeaders (headerData.2.release headerData.1) rest
      ((header ++ ":" ++ headerEntry ++ "\n" ++ following.1.1,
        header ++ (if rest.isEmpty then [] else ";") ++ following.1.2), following.2)

/-- `getBodyHexSha`. -/
def AwsAuthenticator.getBodyHexSha (auth : AwsAuthenticator) : Str × AwsAuthenticator :=
  (hexEncode (Sha2.sha256Final auth.bodySha).toList,
    { auth with bodySha := auth.bodySha ++ [.final] })

/-- `findQueryStringStart`: the view from the first question mark on. -/
def findQueryStringStart (w : WasmHost) (path : View) : View :=
  path.removePrefix ((w.read path).takeWhile (· ≠ '?')).length

/-- `fetchUrl`.  The buffer of `path` is released at its end. -/
def AwsAuthenticator.fetchUrl (auth : AwsAuthenticator) (w : WasmHost) :
    AwsAuthenticator × WasmHost :=
  let path := w.getRequestHeader ":path"
  let queryString := findQueryStringStart path.2 path.1
  let auth :=
    if queryString.length ≠ 0 then
      { auth with
        urlBase := path.1.removeSuffix queryString.length
        queryString := queryString.removePrefix 1 }
    else { auth with urlBase := path.1, queryString := queryString }
  (auth, path.2.release path.1)

/-- The pieces of the canonical request, as `computeCanonicalRequestHash` feeds them to the hash. -/
def AwsAuthenticator.canonicalRequest (auth : AwsAuthenticator) (w : WasmHost)
    (requestMethod canonicalHeaders signedHeaders hexpayload : Str) : List Str :=
  requestMethod :: "\n" :: w.read auth.urlBase :: "\n" ::
    ((if auth.queryString.length ≠ 0 then [w.read auth.queryString] else []) ++
      [("\n" : Str), canonicalHeaders, "\n", signedHeaders, "\n", hexpayload])

/-- `computeCanonicalRequestHash`. -/
def AwsAuthenticator.computeCanonicalRequestHash (auth : AwsAuthenticator) (w : WasmHost)
    (requestMethod canonicalHeaders signedHeaders hexpayload : Str) : Str :=
  let updates := auth.canonicalRequest w requestMethod canonicalHeaders signedHeaders hexpayload
  hexEncode (Sha2.sha256Final (updates.map .update)).toList

/-- `getCredntialScopeDate`. -/
def getCredntialScopeDate (now : ℕ) : Str := formatTime "%Y%m%d" putDate now

/-- `getCredntialScope`. -/
def AwsAuthenticator.getCredntialScope (auth : AwsAuthenticator) (region scopeDate : Str) : Str :=
  scopeDate ++ "/" ++ region ++ "/" ++ auth.service ++ "/aws4_request"

/-- `recusiveHmacHelper`: a new computation on the context, keyed with the digest of the last one. -/
def recusiveHmacHelper (hmac : List HmacOp × Digest) (what : List Str) : List HmacOp × Digest :=
  let calls := hmac.1 ++ [.init hmac.2.chars] ++ what.map .update
  (calls ++ [.final], Sha2.hmacSha256Final calls)

/-- The strings of the last computation of `computeSignature`: the string to sign. -/
def stringToSign (requestDateTime credentialScope hashedCanonicalRequest : Str) : List Str :=
  ["AWS4-HMAC-SHA256", "\n", requestDateTime, "\n", credentialScope, "\n", hashedCanonicalRequest]

/-- `computeSignature`. -/
def AwsAuthenticator.computeSignature (auth : AwsAuthenticator)
    (region scopeDate credentialScope requestDateTime hashedCanonicalRequest : Str) : Str :=
  let calls : List HmacOp := [.init auth.firstKey, .update scopeDate]
  let dateKey := (calls ++ [.final], Sha2.hmacSha256Final calls)
  let regionKey := recusiveHmacHelper dateKey [region]
  let serviceKey := recusiveHmacHelper regionKey [auth.service]
  let signingKey := recusiveHmacHelper serviceKey ["aws4_request"]
  let signature := recusiveHmacHelper signingKey
    (stringToSign requestDateTime credentialScope hashedCanonicalRequest)
  hexEncode signature.2.toList

/-- The local variables of `signWithTime`, its result, and the state it leaves. -/
structure Signing where
  requestDateTime : Str
  canonicalHeaders : Str
  signedHeaders : Str
  hexpayload : Str
  hashedCanonicalRequest : Str
  scopeDate : Str
  credentialScope : Str
  signature : Str
  authorization : Str
  auth : AwsAuthenticator
  host : WasmHost

/-- `signWithTime`. -/
def AwsAuthenticator.signWithTime (auth : AwsAuthenticator) (w : WasmHost)
    (requestHeaders : Option HeaderMap) (headersToSign : HeaderList) (region : Str) (now : ℕ) :
    Signing :=
  let auth := { auth with requestHeaders := requestHeaders }
  let dated := addDate w now
  let prepared := prepareHeaders dated.2 headersToSign
  let hashed := auth.getBodyHexSha
  let fetched := hashed.2.fetchUrl prepared.2
  let hashedCanonicalRequest := fetched.1.computeCanonicalRequestHash fetched.2 fetched.1.method
    prepared.1.1 prepared.1.2 hashed.1
  let scopeDate := getCredntialScopeDate now
  let credentialScope := fetched.1.getCredntialScope region scopeDate
  let signature := fetched.1.computeSignature region scopeDate credentialScope dated.1
    hashedCanonicalRequest
  { requestDateTime := dated.1
    canonicalHeaders := prepared.1.1
    signedHeaders := prepared.1.2
    hexpayload := hashed.1
    hashedCanonicalRequest := hashedCanonicalRequest
    scopeDate := scopeDate
    credentialScope := credentialScope
    signature := signature
    authorization :=
      "AWS4-HMAC-SHA256" ++ " Credential=" ++ fetched.1.accessKey.getD Platform.nullString ++ "/" ++
        credentialScope ++ ", SignedHeaders=" ++ prepared.1.2 ++ ", Signature=" ++ signature
    auth := fetched.1
    host := fetched.2 }

/-- `sign`, at the clock reading `systemTime`. -/
def AwsAuthenticator.sign (auth : AwsAuthenticator) (w : WasmHost)
    (requestHeaders : Option HeaderMap) (headersToSign : HeaderList) (region : Str)
    (systemTime : ℕ) : AwsAuthenticator × WasmHost :=
  let signing := auth.signWithTime w requestHeaders headersToSign region (signTime systemTime)
  (signing.auth, signing.host.addRequestHeader "authorization" signing.authorization)

/-! ### What signing leaves behind -/

omit [Sha2] in
/-- Reading the headers touches the buffers only. -/
theorem prepareHeaders_host (w : WasmHost) (headers : HeaderList) :
    ∃ buffers, (prepareHeaders w headers).2 = { w with buffers := buffers } := by
  induction headers generalizing w with
  | nil => exact ⟨w.buffers, rfl⟩
  | cons header rest ih =>
    let headerData := w.getRequestHeader header
    obtain ⟨buffers, hrest⟩ := ih (headerData.2.release headerData.1)
    exact ⟨buffers, hrest⟩

omit [Sha2] in
@[simp] theorem prepareHeaders_requestHeaders (w : WasmHost) (headers : HeaderList) :
    (prepareHeaders w headers).2.requestHeaders = w.requestHeaders := by
  obtain ⟨buffers, hhost⟩ := prepareHeaders_host w headers
  rw [hhost]

omit [Sha2] in
@[simp] theorem prepareHeaders_requestBody (w : WasmHost) (headers : HeaderList) :
    (prepareHeaders w headers).2.requestBody = w.requestBody := by
  obtain ⟨buffers, hhost⟩ := prepareHeaders_host w headers
  rw [hhost]

omit [Sha2] in
@[simp] theorem fetchUrl_requestHeaders (auth : AwsAuthenticator) (w : WasmHost) :
    (auth.fetchUrl w).2.requestHeaders = w.requestHeaders := rfl

omit [Sha2] in
@[simp] theorem fetchUrl_requestBody (auth : AwsAuthenticator) (w : WasmHost) :
    (auth.fetchUrl w).2.requestBody = w.requestBody := rfl

omit [Sha2] in
/-- `fetchUrl` assigns two views and nothing else. -/
theorem fetchUrl_auth (auth : AwsAuthenticator) (w : WasmHost) :
    ∃ urlBase queryString,
      (auth.fetchUrl w).1 = { auth with urlBase := urlBase, queryString := queryString } := by
  simp only [AwsAuthenticator.fetchUrl]
  split
  · exact ⟨_, _, rfl⟩
  · exact ⟨_, _, rfl⟩

omit [Sha2] in
@[simp] theorem fetchUrl_service (auth : AwsAuthenticator) (w : WasmHost) :
    (auth.fetchUrl w).1.service = auth.service := by
  obtain ⟨urlBase, queryString, hfetch⟩ := fetchUrl_auth auth w
  rw [hfetch]

/-- **What signing assigns**: the views, the headers it was given, and the body's hash. -/
theorem signWithTime_auth (auth : AwsAuthenticator) (w : WasmHost)
    (requestHeaders : Option HeaderMap) (headersToSign : HeaderList) (region : Str) (now : ℕ) :
    ∃ urlBase queryString,
      (auth.signWithTime w requestHeaders headersToSign region now).auth
        = { auth with
            bodySha := auth.bodySha ++ [.final]
            requestHeaders := requestHeaders
            urlBase := urlBase
            queryString := queryString } := by
  simp only [AwsAuthenticator.signWithTime]
  obtain ⟨urlBase, queryString, hfetch⟩ :=
    fetchUrl_auth ({ auth with requestHeaders := requestHeaders }.getBodyHexSha).2
      (prepareHeaders (addDate w now).2 headersToSign).2
  exact ⟨urlBase, queryString, hfetch⟩

/-- The scope is that of the time, the region and the service. -/
theorem signWithTime_credentialScope (auth : AwsAuthenticator) (w : WasmHost)
    (requestHeaders : Option HeaderMap) (headersToSign : HeaderList) (region : Str) (now : ℕ) :
    (auth.signWithTime w requestHeaders headersToSign region now).credentialScope
      = auth.getCredntialScope region (getCredntialScopeDate now) := by
  simp only [AwsAuthenticator.signWithTime, AwsAuthenticator.getCredntialScope]
  rw [fetchUrl_service]
  rfl

/-- **Signing finalises the body's hash**, once. -/
theorem sign_bodySha (auth : AwsAuthenticator) (w : WasmHost) (requestHeaders : Option HeaderMap)
    (headersToSign : HeaderList) (region : Str) (systemTime : ℕ) :
    (auth.sign w requestHeaders headersToSign region systemTime).1.bodySha
      = auth.bodySha ++ [.final] := by
  obtain ⟨urlBase, queryString, hauth⟩ :=
    signWithTime_auth auth w requestHeaders headersToSign region (signTime systemTime)
  exact congrArg AwsAuthenticator.bodySha hauth

/-- Signing leaves the body alone. -/
theorem sign_requestBody (auth : AwsAuthenticator) (w : WasmHost)
    (requestHeaders : Option HeaderMap) (headersToSign : HeaderList) (region : Str)
    (systemTime : ℕ) :
    (auth.sign w requestHeaders headersToSign region systemTime).2.requestBody = w.requestBody := by
  simp only [AwsAuthenticator.sign, AwsAuthenticator.signWithTime, addRequestHeader_requestBody,
    fetchUrl_requestBody, prepareHeaders_requestBody]
  rfl

/-- **Signing adds two headers**, the date and the authorization. -/
theorem sign_requestHeaders (auth : AwsAuthenticator) (w : WasmHost)
    (requestHeaders : Option HeaderMap) (headersToSign : HeaderList) (region : Str)
    (systemTime : ℕ) :
    (auth.sign w requestHeaders headersToSign region systemTime).2.requestHeaders
      = w.requestHeaders ++
        [(dateHeader, formatTime "%Y%m%dT%H%M%SZ" putDateTime (signTime systemTime)),
         ("authorization", (auth.signWithTime w requestHeaders headersToSign region
            (signTime systemTime)).authorization)] := by
  simp only [AwsAuthenticator.sign]
  rw [addRequestHeader_requestHeaders]
  have hhost : (auth.signWithTime w requestHeaders headersToSign region
      (signTime systemTime)).host.requestHeaders = w.requestHeaders ++
        [(dateHeader, formatTime "%Y%m%dT%H%M%SZ" putDateTime (signTime systemTime))] := by
    simp only [AwsAuthenticator.signWithTime, fetchUrl_requestHeaders,
      prepareHeaders_requestHeaders]
    rfl
  rw [hhost, List.append_assoc]
  rfl

end Signing

end EnvoyWasmFilters.AwsLambda
