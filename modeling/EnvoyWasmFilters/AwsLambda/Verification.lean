import Mathlib.Data.List.Basic
import EnvoyWasmFilters.AwsLambda.InvocationHeaders
import EnvoyWasmFilters.AwsLambda.SignedHeaders

/-!
# The check that the signature is for

A service that has the secret of an access key computes the signature again, from nothing but the request that has
arrived, and compares.

* `Authorization` — the parts of the value of `authorization`, and `parse_value`: they can be read off it;
* `Received.verify` — the check of the service;
* `execution_verified` — what one execution of `lambdafy` sends passes it;
* `forwarded_verified` — **a stream with keys**: whatever the pieces of its body, what is sent on in the end passes.
-/

namespace EnvoyWasmFilters.AwsLambda

/-! ### The value of `authorization` -/

/-- What the value says. -/
structure Authorization where
  accessKey : Str
  date : Str
  region : Str
  service : Str
  names : List Str
  signature : Str
deriving DecidableEq

/-- The parts of a credential. -/
def Authorization.credential (a : Authorization) : List Str :=
  [a.accessKey, a.date, a.region, a.service, "aws4_request"]

def credentialPrefix : Str := "AWS4-HMAC-SHA256 Credential="
def namesPrefix : Str := ", SignedHeaders="
def signaturePrefix : Str := ", Signature="

/-- The value with these parts. -/
def Authorization.value (a : Authorization) : Str :=
  credentialPrefix ++ (['/'].intercalate a.credential ++ (namesPrefix ++ ([';'].intercalate a.names ++
    (signaturePrefix ++ a.signature))))

/-- The parts of a value: the credential and the names end at the next comma. -/
def parseAuthorization (value : Str) : Option Authorization := do
  let value ← value.dropPrefix? credentialPrefix
  let credential := value.takeWhile (· ≠ ',')
  let value ← (value.dropWhile (· ≠ ',')).dropPrefix? namesPrefix
  let names := value.takeWhile (· ≠ ',')
  let signature ← (value.dropWhile (· ≠ ',')).dropPrefix? signaturePrefix
  match credential.splitOn '/' with
  | [accessKey, date, region, service, terminator] =>
      if terminator = "aws4_request" then
        some ⟨accessKey, date, region, service, names.splitOn ';', signature⟩
      else none
  | _ => none

/-- The value for a credential of the service. -/
theorem value_lambda {a : Authorization} (h : a.service = "lambda") :
    a.value = "AWS4-HMAC-SHA256" ++ " Credential=" ++ a.accessKey ++ "/" ++ referenceScope a.date a.region ++
      ", SignedHeaders=" ++ signedNames a.names ++ ", Signature=" ++ a.signature := by
  have hcredential : ['/'].intercalate a.credential = a.accessKey ++ ("/" ++ referenceScope a.date a.region) := by
    rw [Authorization.credential, h, List.intercalate_cons_cons, List.intercalate_cons_cons,
      List.intercalate_cons_cons, List.intercalate_cons_cons, List.intercalate_singleton, referenceScope]
    simp only [List.append_assoc]
    rfl
  have hprefix : credentialPrefix = ("AWS4-HMAC-SHA256" : Str) ++ " Credential=" := by decide +kernel
  rw [Authorization.value, hcredential, ← signedNames_eq, hprefix]
  unfold namesPrefix signaturePrefix
  simp only [List.append_assoc]

/-- The parts keep clear of the delimiters between them. -/
structure Authorization.WellFormed (a : Authorization) : Prop where
  credential : ∀ part ∈ a.credential, ',' ∉ part ∧ '/' ∉ part
  names_ne_nil : a.names ≠ []
  names : ∀ name ∈ a.names, ',' ∉ name ∧ ';' ∉ name

theorem dropPrefix?_append (pre rest : Str) : (pre ++ rest).dropPrefix? pre = some rest :=
  List.dropPrefix?_append_of_beq rest (beq_self_eq_true pre)

/-- **The parts can be read off the value.** -/
theorem parse_value {a : Authorization} (h : a.WellFormed) : parseAuthorization a.value = some a := by
  have hcredential : ',' ∉ ['/'].intercalate a.credential :=
    Delimited.notMem_intercalate (by decide) fun part hpart => (h.credential part hpart).1
  have hnames : ',' ∉ [';'].intercalate a.names :=
    Delimited.notMem_intercalate (by decide) fun name hname => (h.names name hname).1
  have hparts : (['/'].intercalate a.credential).splitOn '/' = a.credential :=
    List.splitOn_intercalate '/' (fun part hpart => (h.credential part hpart).2) (List.cons_ne_nil _ _)
  have hlist : ([';'].intercalate a.names).splitOn ';' = a.names :=
    List.splitOn_intercalate ';' (fun name hname => (h.names name hname).2) h.names_ne_nil
  have hfirst : ∀ (rest : Str) {text pre : Str}, ',' ∉ text → pre.head? = some ',' →
      (text ++ (pre ++ rest)).takeWhile (· ≠ ',') = text ∧
        (text ++ (pre ++ rest)).dropWhile (· ≠ ',') = pre ++ rest := by
    intro rest text pre htext hpre
    cases pre with
    | nil => cases hpre
    | cons c pre =>
      obtain rfl := Option.some.inj hpre
      exact ⟨Delimited.takeWhile_field htext _, Delimited.dropWhile_field htext _⟩
  obtain ⟨hfield, hrest⟩ := hfirst ([';'].intercalate a.names ++ (signaturePrefix ++ a.signature)) hcredential
    (show namesPrefix.head? = some ',' by decide)
  obtain ⟨hfield', hrest'⟩ := hfirst a.signature hnames (show signaturePrefix.head? = some ',' by decide)
  rw [parseAuthorization, Authorization.value, dropPrefix?_append]
  simp only [Option.bind_eq_bind, Option.bind_some]
  rw [hrest, dropPrefix?_append]
  simp only [Option.bind_some]
  rw [hrest', dropPrefix?_append]
  simp only [Option.bind_some]
  rw [hfield, hfield', hparts, hlist]
  rfl

/-! ### The service -/

/-- A request as it arrives, the method and the path among its headers. -/
structure Received where
  headers : HeaderMap
  body : Str

/-- The first value of a name, or nothing. -/
def Received.value (r : Received) (name : Str) : Str := (getHeader r.headers name).getD []

section

variable [Sha2]

/-- The canonical request of what has arrived. -/
def Received.canonical (r : Received) (names : List Str) : Str :=
  r.value ":method" ++ "\n" ++ beforeQuery (r.value ":path") ++ "\n" ++ afterQuery (r.value ":path") ++ "\n"
    ++ (names.map (signedPair r.headers)).flatMap referenceLine ++ "\n"
    ++ signedNames names ++ "\n" ++ hexEncode (Sha2.sha256 r.body).toList

/-- The signature that the request ought to have. -/
def Received.signature (r : Received) (secretKey : Str) (a : Authorization) : Str :=
  let request := hexEncode (Sha2.sha256 (r.canonical a.names)).toList
  hexEncode (Sha2.hmacSha256 (referenceKey secretKey a.date a.region).chars
    ("AWS4-HMAC-SHA256\n" ++ r.value dateHeader ++ "\n" ++ referenceScope a.date a.region ++ "\n" ++ request)).toList

/-- **The check of the service**: the credential is for it and of the day of the request, the date is among the
headers that are signed, and the signature is the one the request ought to have. -/
def Received.verify (r : Received) (secretOf : Str → Option Str) : Bool :=
  match parseAuthorization (r.value "authorization") with
  | none => false
  | some a =>
      match secretOf a.accessKey with
      | none => false
      | some secretKey =>
          decide (a.service = "lambda") && decide (a.date = (r.value dateHeader).take 8) &&
            a.names.contains dateHeader && decide (a.signature = r.signature secretKey a)

/-- What the check asks for. -/
theorem verify_eq_true {r : Received} {secretOf : Str → Option Str} {a : Authorization} {secretKey : Str}
    (hparse : parseAuthorization (r.value "authorization") = some a) (hsecret : secretOf a.accessKey = some secretKey)
    (hservice : a.service = "lambda") (hdate : a.date = (r.value dateHeader).take 8) (hnames : dateHeader ∈ a.names)
    (hsignature : a.signature = r.signature secretKey a) : r.verify secretOf = true := by
  rw [Received.verify, hparse]
  dsimp only
  rw [hsecret]
  dsimp only
  rw [decide_eq_true hservice, decide_eq_true hdate, List.contains_iff_mem.mpr hnames, decide_eq_true hsignature]
  rfl

end

/-! ### What is signed -/

section

variable [Platform]

/-- A date of digits. -/
theorem formatTime_digits {now : ℕ} (h : FourDigitYear now) (format : Str) {c : Char}
    (hc : c ∈ formatTime format putDate now) : c.isDigit = true := by
  obtain ⟨tm, year, month, day, hgmtime, hyear, -, -, hmonth, -, hday, -⟩ := gmtime_fields h.1 h.2
  have hdigits : ∀ {n : ℕ}, c ∈ Nat.toDigits 10 n → c.isDigit = true :=
    fun hmem => Nat.isDigit_of_mem_toDigits (by decide) (by decide) hmem
  have hpadded : ∀ {w n : ℕ}, c ∈ Decimal.padded w n → c.isDigit = true := by
    intro w n hmem
    rcases List.mem_append.mp hmem with hzero | hrest
    · rw [List.eq_of_mem_replicate hzero]
      rfl
    · exact hdigits hrest
  simp only [formatTime] at hc
  rw [hgmtime] at hc
  simp only [putDate] at hc
  rw [hyear, hmonth, hday, decimal_natCast, twoDigits_natCast, twoDigits_natCast] at hc
  rcases List.mem_append.mp hc with hyears | hdays
  · rcases List.mem_append.mp hyears with hyear' | hmonth'
    · exact hdigits hyear'
    · exact hpadded hmonth'
  · exact hpadded hdays

variable [Sha2]

/-- The parts of the value that a call returns. -/
def SignCall.parts (c : SignCall) (accessKey : Str) : Authorization where
  accessKey := accessKey
  date := c.signing.scopeDate
  region := c.region
  service := "lambda"
  names := c.headersToSign
  signature := c.signing.signature

variable {c : SignCall} {accessKey secretKey : Str} {pieces : List Str}

/-- The authenticator of a call that had keys and was fed a body. -/
theorem signing_initialised (hauth : c.auth = initialised accessKey secretKey pieces) :
    c.signing.auth.accessKey = some accessKey ∧ c.signing.auth.firstKey = "AWS4" ++ secretKey ∧
      c.signing.auth.service = ("lambda" : Str) ∧ c.signing.auth.method = ("POST" : Str) := by
  have hkeys := signing_keys c
  rw [hauth, initialised, foldl_updatePayloadHash] at hkeys
  exact hkeys

theorem signing_credentialScope (hauth : c.auth = initialised accessKey secretKey pieces) :
    c.signing.credentialScope = referenceScope c.signing.scopeDate c.region := by
  show c.signing.scopeDate ++ "/" ++ c.region ++ "/" ++ c.signing.auth.service ++ "/aws4_request" = _
  rw [(signing_initialised hauth).2.2.1]
  simp only [referenceScope, List.append_assoc]
  rfl

/-- The value that a call returns has these parts. -/
theorem signing_value (hauth : c.auth = initialised accessKey secretKey pieces) :
    c.signing.authorization = (c.parts accessKey).value := by
  rw [signing_authorization c (signing_initialised hauth).1, signing_credentialScope hauth, signing_signedHeaders,
    value_lambda rfl]
  rfl

/-- **The signature**, as the definition has it for the headers and the body that were signed. -/
theorem signing_signature_eq [LawfulSha2] (hauth : c.auth = initialised accessKey secretKey pieces)
    (hviews : c.ViewsValid) :
    c.signing.signature
      = hexEncode (Sha2.hmacSha256 (referenceKey secretKey c.signing.scopeDate c.region).chars
          ("AWS4-HMAC-SHA256\n" ++ c.signing.requestDateTime ++ "\n" ++
            referenceScope c.signing.scopeDate c.region ++ "\n" ++
              hexEncode (Sha2.sha256 (referenceRequest c.path c.pairs pieces.flatten)).toList)).toList := by
  obtain ⟨-, hfirst, hservice, hmethod⟩ := signing_initialised hauth
  have hpayload : c.signing.hexpayload = hexEncode (Sha2.sha256 pieces.flatten).toList := by
    show hexEncode (Sha2.sha256Final c.auth.bodySha).toList = _
    rw [hauth, initialised, foldl_updatePayloadHash, ← LawfulSha2.sha256_updates]
    rfl
  have hrequest : c.signing.hashedCanonicalRequest
      = hexEncode (Sha2.sha256 (referenceRequest c.path c.pairs pieces.flatten)).toList := by
    rw [← text_eq hviews hmethod hpayload, ← LawfulSha2.sha256_updates]
    rfl
  rw [signing_signature c hfirst hservice, flatten_stringToSign, signing_credentialScope hauth, hrequest]

/-! ### What an execution sends -/

omit [Sha2] in
/-- The headers at the host while they are signed. -/
theorem dated_requestHeaders (e : Execution) :
    (addDate e.call.host e.call.now).2.requestHeaders = e.host.requestHeaders
      ++ ([("x-amz-invocation-type", "RequestResponse"), ("x-amz-log-type", "None"),
        (dateHeader, formatTime "%Y%m%dT%H%M%SZ" putDateTime (signTime e.systemTime))] : HeaderMap) := by
  simp only [addDate, Execution.call, addRequestHeader_requestHeaders, List.append_assoc]
  rfl

/-- What arrives when an execution's request is sent on with a body. -/
def Execution.sent (e : Execution) (body : Str) : Received := ⟨e.outcome.2.requestHeaders, body⟩

/-- What is sent on and what was signed differ in the signature only. -/
theorem sent_requestHeaders (e : Execution) (body : Str) :
    (e.sent body).headers = (addDate e.call.host e.call.now).2.requestHeaders
      ++ ([("authorization", e.signing.authorization)] : HeaderMap) := by
  rw [Execution.sent, outcome_requestHeaders, dated_requestHeaders, List.append_assoc]
  rfl

/-- The value of any other name has been there when the headers were signed. -/
theorem sent_getHeader (e : Execution) (body : Str) {name : Str} (hname : name ≠ "authorization") :
    getHeader (e.sent body).headers name = getHeader (addDate e.call.host e.call.now).2.requestHeaders name := by
  have hnone : getHeader ([("authorization", e.signing.authorization)] : HeaderMap) name = none :=
    if_neg fun h => hname h.symm
  rw [sent_requestHeaders, getHeader_append, hnone, Option.or_none]

/-- The client has sent none of the names that the filter adds. -/
def Execution.Fresh (e : Execution) : Prop := ∀ header ∈ e.host.requestHeaders, header.1 ∉ invocationNames

omit [Platform] [Sha2] in
theorem getHeader_fresh {e : Execution} (h : e.Fresh) {name : Str} (hname : name ∈ invocationNames) :
    getHeader e.host.requestHeaders name = none := by
  have hnone : valuesOf e.host.requestHeaders name = [] := by
    rw [valuesOf_eq_nil_iff]
    intro header hmem heq
    exact h header hmem (heq ▸ hname)
  rw [getHeader_eq_head?, ← List.head?_map, ← valuesOf, hnone]
  rfl

/-- The value of `authorization` that arrives is the filter's. -/
theorem sent_authorization {e : Execution} (h : e.Fresh) (body : Str) :
    (e.sent body).value "authorization" = e.signing.authorization := by
  have hclient : getHeader (addDate e.call.host e.call.now).2.requestHeaders "authorization" = none := by
    rw [dated_requestHeaders, getHeader_append, getHeader_fresh h (by decide)]
    rfl
  rw [Received.value, sent_requestHeaders, getHeader_append, hclient]
  rfl

/-- So is the date. -/
theorem sent_date {e : Execution} (h : e.Fresh) (body : Str) :
    (e.sent body).value dateHeader = e.signing.requestDateTime := by
  rw [Received.value, sent_getHeader e body (by decide), dated_requestHeaders, getHeader_append,
    getHeader_fresh h (by decide)]
  rfl

/-- **The service reads the canonical request that was signed**, in the request that arrives. -/
theorem sent_canonical {e : Execution}
    (hmethod : getHeader e.host.requestHeaders ":method" = some ("POST" : Str)) (body : Str) :
    (e.sent body).canonical headersToSign = referenceRequest e.call.path e.call.pairs body := by
  have hpairs : headersToSign.map (signedPair (e.sent body).headers) = e.call.pairs := by
    apply List.map_congr_left
    intro name hname
    have hne : ∀ name ∈ headersToSign, name ≠ ("authorization" : Str) := by decide
    rw [signedPair, signedPair, sent_getHeader e body (hne name hname)]
  have hpath : (e.sent body).value ":path" = e.call.path := by
    rw [Received.value, sent_getHeader e body (by decide)]
    rfl
  have hpost : (e.sent body).value ":method" = ("POST" : Str) := by
    rw [Received.value, sent_getHeader e body (by decide), dated_requestHeaders, getHeader_append, hmethod]
    rfl
  have hnames : e.call.pairs.map Prod.fst = headersToSign := pairs_names e.call
  have hline : ("POST\n" : Str) = "POST" ++ "\n" := by decide +kernel
  unfold Received.canonical referenceRequest
  rw [hpairs, hpath, hpost, hnames, hline]
  rfl

/-- The parts that a call returns can be read off again. -/
theorem parts_wellFormed {e : Execution} {accessKey : Str} (hkey : ',' ∉ accessKey ∧ '/' ∉ accessKey)
    (hyear : FourDigitYear e.call.now) : (e.call.parts accessKey).WellFormed where
  credential := by
    have hdate : ∀ {c : Char}, c ∈ e.signing.scopeDate → c.isDigit = true :=
      fun hmem => formatTime_digits hyear "%Y%m%d" hmem
    have hclear : ',' ∉ e.signing.scopeDate ∧ '/' ∉ e.signing.scopeDate :=
      ⟨fun h => absurd (hdate h) (by decide), fun h => absurd (hdate h) (by decide)⟩
    have hfixed : ∀ part ∈ [("us-east-1" : Str), "lambda", "aws4_request"], ',' ∉ part ∧ '/' ∉ part := by
      decide
    intro part hpart
    rcases List.mem_cons.mp hpart with rfl | hpart
    · exact hkey
    · rcases List.mem_cons.mp hpart with rfl | hpart
      · exact hclear
      · exact hfixed part hpart
  names_ne_nil := createHeaderToSign_ne_nil _
  names := by
    show ∀ name ∈ headersToSign, ',' ∉ name ∧ ';' ∉ name
    decide

/-- **What an execution sends passes the check**, with the body that was fed to the authenticator. -/
theorem execution_verified [LawfulSha2] {e : Execution} {accessKey secretKey : Str} {pieces : List Str}
    {secretOf : Str → Option Str} (hauth : e.context.awsAuthenticator = initialised accessKey secretKey pieces)
    (hsecret : secretOf accessKey = some secretKey) (hkey : ',' ∉ accessKey ∧ '/' ∉ accessKey)
    (hmethod : getHeader e.host.requestHeaders ":method" = some ("POST" : Str)) (hfresh : e.Fresh)
    (hyear : FourDigitYear e.call.now) (hviews : e.call.ViewsValid) :
    (e.sent pieces.flatten).verify secretOf = true := by
  have hvalue : (e.sent pieces.flatten).value "authorization" = (e.call.parts accessKey).value :=
    (sent_authorization hfresh _).trans (signing_value (c := e.call) hauth)
  have hday : e.signing.scopeDate = ((e.sent pieces.flatten).value dateHeader).take 8 := by
    rw [sent_date hfresh]
    exact (take_formatTime hyear _ _).symm
  refine verify_eq_true (a := e.call.parts accessKey) ?_ hsecret rfl hday ?_ ?_
  · rw [hvalue]
    exact parse_value (parts_wellFormed hkey hyear)
  · show dateHeader ∈ headersToSign
    decide
  · show e.call.signing.signature = _
    rw [signing_signature_eq hauth hviews, ← sent_canonical hmethod, Received.signature, sent_date hfresh]
    rfl

/-! ### What a stream sends -/

omit [Platform] [Sha2] in
/-- A new stream with an authenticator that has keys. -/
def Request.keyed (r : Request) (accessKey secretKey : Str) : StreamState where
  context := { awsAuthenticator := AwsAuthenticator.new.init accessKey secretKey }
  host := { requestHeaders := r.headers }

/-- It when the request is complete. -/
def Request.completeWith (r : Request) (accessKey secretKey : Str) : StreamState :=
  (r.keyed accessKey secretKey).run r.callbacks

/-- The execution of `lambdafy` in its last callback. -/
def Request.lastExecution? (r : Request) (accessKey secretKey : Str) : Option Execution :=
  r.callbacks.getLast?.bind ((r.keyed accessKey secretKey).run r.callbacks.dropLast).execution?

/-- A stream that has been held back: all that has changed is the body at the host. -/
structure Held (start s : StreamState) (body : Str) : Prop where
  context : s.context = start.context
  requestHeaders : s.host.requestHeaders = start.host.requestHeaders
  requestBody : s.host.requestBody = start.host.requestBody ++ body

/-- The headers of another method than `GET`. -/
theorem held_headers (s : StreamState) (systemTime : ℕ)
    (hmethod : (getHeader s.host.requestHeaders ":method").getD [] ≠ ("GET" : Str)) :
    Held s (s.deliver (.headers systemTime)) [] := by
  obtain ⟨hcontext, hheaders, -⟩ := deliver_held ((execution_headers s systemTime).mpr hmethod)
  have hledger := congrArg Ledger.received (ledger_headers s systemTime)
  rw [Ledger.headers, if_neg hmethod] at hledger
  exact ⟨hcontext, hheaders, hledger.trans (List.append_nil _).symm⟩

/-- Pieces of the body that do not end it, by induction on them. -/
theorem held_chunks {start s : StreamState} {body : Str} (h : Held start s body) (chunks : List Chunk) :
    Held start (s.run (chunks.map (.body · false))) (body ++ bodyOf chunks) := by
  induction chunks generalizing s body with
  | nil =>
    rw [bodyOf, List.flatMap_nil, List.append_nil]
    exact h
  | cons chunk chunks ih =>
    have hchunk : Held start (s.deliver (.body chunk false)) (body ++ chunk.data) := by
      refine ⟨h.context, h.requestHeaders, ?_⟩
      rw [← List.append_assoc, ← h.requestBody]
      rfl
    have hrest := ih hchunk
    rw [List.append_assoc] at hrest
    exact hrest

variable {accessKey secretKey : Str} {secretOf : Str → Option Str}

omit [Sha2] in
/-- The piece that ends the stream has all of the body fed before it is signed. -/
theorem execution_last (s : StreamState) (last : Chunk) :
    ∃ e, s.execution? (.body last true) = some e ∧ e.context.awsAuthenticator
      = s.context.awsAuthenticator.updatePayloadHash (s.host.requestBody ++ last.data) := by
  simp only [StreamState.execution?]
  rw [if_pos trivial, WasmHost.getBufferBytes, read_newData, List.drop_zero, List.take_length]
  exact ⟨_, rfl, rfl⟩

/-- The callback that has a stream signed that was held back, when all of the body has been fed to the
authenticator. -/
theorem deliver_verified [LawfulSha2] {r : Request} {s : StreamState} {callback : Callback} {e : Execution}
    {received : Str} {pieces : List Str} (hheld : Held (r.keyed accessKey secretKey) s received)
    (he : s.execution? callback = some e)
    (hauth : e.context.awsAuthenticator = initialised accessKey secretKey pieces)
    (hbody : (s.deliver callback).host.requestBody = pieces.flatten)
    (hsecret : secretOf accessKey = some secretKey) (hkey : ',' ∉ accessKey ∧ '/' ∉ accessKey)
    (hmethod : getHeader r.headers ":method" = some ("POST" : Str))
    (hclient : ∀ header ∈ r.headers, header.1 ∉ invocationNames)
    (hsigned : e.systemTime < 2 ^ 64 ∧ e.call.ViewsValid) :
    Received.verify ⟨(s.deliver callback).host.requestHeaders, (s.deliver callback).host.requestBody⟩ secretOf
      = true := by
  obtain ⟨-, hsent, -, hfound⟩ := deliver_execution he
  have hheaders : e.host.requestHeaders = r.headers := hfound.trans hheld.requestHeaders
  have hfresh : e.Fresh := by
    intro header hmem
    rw [hheaders] at hmem
    exact hclient header hmem
  rw [← hheaders] at hmethod
  rw [hsent, hbody]
  exact execution_verified hauth hsecret hkey hmethod hfresh (signTime_fourDigitYear hsigned.1) hsigned.2

/-- The stream is complete after its last callback. -/
theorem completeWith_concat {r : Request} {callbacks : List Callback} {callback : Callback}
    (h : r.callbacks = callbacks ++ [callback]) (accessKey secretKey : Str) :
    r.completeWith accessKey secretKey = ((r.keyed accessKey secretKey).run callbacks).deliver callback ∧
      r.lastExecution? accessKey secretKey
        = ((r.keyed accessKey secretKey).run callbacks).execution? callback := by
  rw [Request.completeWith, Request.lastExecution?, h, List.getLast?_concat, List.dropLast_concat, StreamState.run,
    List.foldl_append]
  exact ⟨rfl, rfl⟩

omit [Platform] [Sha2] in
/-- The headers, and pieces of the body that do not end it. -/
def Request.opening (r : Request) (chunks : List Chunk) : List Callback :=
  .headers r.systemTime :: chunks.map (.body · false)

theorem held_opening (r : Request) (chunks : List Chunk) (accessKey secretKey : Str)
    (hmethod : getHeader r.headers ":method" = some ("POST" : Str)) :
    Held (r.keyed accessKey secretKey) ((r.keyed accessKey secretKey).run (r.opening chunks)) (bodyOf chunks) := by
  have hpost : (getHeader r.headers ":method").getD [] ≠ ("GET" : Str) := by
    rw [hmethod]
    decide
  exact held_chunks (held_headers (r.keyed accessKey secretKey) r.systemTime hpost) chunks

/-- **Whatever a filter with keys lets go, the service accepts.**  A `POST` in any number of pieces, of which the client
has sent none of the filter's headers, and no body before trailers: if the stream goes on in the end, the request as it
is sent on, with its body, passes the check of the service. -/
theorem forwarded_verified [LawfulSha2] (r : Request) (hsecret : secretOf accessKey = some secretKey)
    (hkey : ',' ∉ accessKey ∧ '/' ∉ accessKey)
    (hmethod : getHeader r.headers ":method" = some ("POST" : Str))
    (hclient : ∀ header ∈ r.headers, header.1 ∉ invocationNames)
    (hsealed : r.body = [] ∨ ∀ chunks systemTime, r.rest ≠ .trailers chunks systemTime)
    (hsigned : ∀ e, r.lastExecution? accessKey secretKey = some e → e.systemTime < 2 ^ 64 ∧ e.call.ViewsValid)
    (hgoes : (r.completeWith accessKey secretKey).continued = true) :
    Received.verify ⟨(r.completeWith accessKey secretKey).host.requestHeaders,
      (r.completeWith accessKey secretKey).host.requestBody⟩ secretOf = true := by
  cases hrest : r.rest with
  | headersOnly =>
    -- nobody signs it, and it is held back
    have hcallbacks : r.callbacks = [] ++ [.headers r.systemTime] := by rw [Request.callbacks, hrest, List.nil_append]
    have hpost : (getHeader r.headers ":method").getD [] ≠ ("GET" : Str) := by
      rw [hmethod]
      decide
    have hheld := (deliver_held ((execution_headers (r.keyed accessKey secretKey) r.systemTime).mpr hpost)).2.2
    rw [(completeWith_concat hcallbacks accessKey secretKey).1] at hgoes
    exact absurd (hheld.symm.trans hgoes) Bool.false_ne_true
  | body chunks last =>
    have hcallbacks : r.callbacks = r.opening chunks ++ [.body last true] := by
      rw [Request.callbacks, hrest]
      rfl
    obtain ⟨hcomplete, hlast⟩ := completeWith_concat hcallbacks accessKey secretKey
    have hheld := held_opening r chunks accessKey secretKey hmethod
    rw [hcomplete]
    rw [hlast] at hsigned
    generalize (r.keyed accessKey secretKey).run (r.opening chunks) = s at hheld hsigned
    obtain ⟨e, he, hfed⟩ := execution_last s last
    rw [hheld.context] at hfed
    have hauth : e.context.awsAuthenticator
        = initialised accessKey secretKey [s.host.requestBody ++ last.data] := hfed
    have hsent : (s.deliver (.body last true)).host.requestBody = [s.host.requestBody ++ last.data].flatten := by
      rw [List.flatten_singleton]
      exact congrArg Ledger.received (ledger_last s last)
    exact deliver_verified hheld he hauth hsent hsecret hkey hmethod hclient (hsigned e he)
  | trailers chunks systemTime =>
    have hcallbacks : r.callbacks = r.opening chunks ++ [.trailers systemTime] := by
      rw [Request.callbacks, hrest]
      rfl
    have hempty : bodyOf chunks = [] := by
      rcases hsealed with hbody | hnone
      · rw [Request.body, hrest] at hbody
        exact hbody
      · exact absurd hrest (hnone chunks systemTime)
    obtain ⟨hcomplete, hlast⟩ := completeWith_concat hcallbacks accessKey secretKey
    have hheld := held_opening r chunks accessKey secretKey hmethod
    rw [hcomplete]
    rw [hlast] at hsigned
    rw [hempty] at hheld
    generalize (r.keyed accessKey secretKey).run (r.opening chunks) = s at hheld hsigned
    have he : s.execution? (.trailers systemTime) = some ⟨s.context, s.host, systemTime⟩ := rfl
    have hauth : s.context.awsAuthenticator = initialised accessKey secretKey [] := by
      rw [hheld.context]
      rfl
    have hsent : (s.deliver (.trailers systemTime)).host.requestBody = ([] : List Str).flatten :=
      (congrArg Ledger.received (ledger_trailers s systemTime)).trans hheld.requestBody
    exact deliver_verified hheld he hauth hsent hsecret hkey hmethod hclient (hsigned _ he)

end

/-- A `POST` with a body in two pieces, from a client that has sent a header with the signature's comma in it. -/
def postInPieces : Request where
  headers := [(":method", "POST"), (":path", "/f?x=1"), ("host", "h"), ("content-type", "a, b")]
  systemTime := 0
  rest := .body [⟨"a", 1⟩] ⟨"b", 2⟩

/-- The service that has given out one key accepts it. -/
theorem forwarded_verified_postInPieces :
    @Received.verify _ ⟨(@Request.completeWith (keeping "/f?x=1") _ postInPieces "k" "s").host.requestHeaders,
      (@Request.completeWith (keeping "/f?x=1") _ postInPieces "k" "s").host.requestBody⟩
        (fun key => if key = "k" then some "s" else none) = true := by
  let : Platform := keeping "/f?x=1"
  have hsigned : ∀ e, postInPieces.lastExecution? "k" "s" = some e →
      e.systemTime < 2 ^ 64 ∧ e.call.ViewsValid := by
    intro e he
    obtain rfl := Option.some.inj he
    exact ⟨by decide, by decide +kernel, by decide +kernel⟩
  exact forwarded_verified postInPieces rfl (by decide) rfl (by decide) (.inr fun _ _ => Rest.noConfusion) hsigned
    (by decide +kernel)

end EnvoyWasmFilters.AwsLambda
