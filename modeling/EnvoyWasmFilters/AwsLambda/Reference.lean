import EnvoyWasmFilters.AwsLambda.CanonicalRequest
import EnvoyWasmFilters.AwsLambda.PathViews
import EnvoyWasmFilters.AwsLambda.Timestamp

/-!
# The signature in one piece

What signing is for, without contexts, views and reused buffers: the digests are functions of the data,
and the value of `authorization` is one expression over the strings that are signed.

* `Sha2.sha256`, `Sha2.hmacSha256`, `LawfulSha2` — the digest of all the data, and that it does not
  matter in which pieces the data comes;
* `reference` — **the value of `authorization`** by the signature's definition;
* `signWithTime_eq_reference` — `signWithTime` returns it, in the years of four digits;
* `signTime_fourDigitYear` — `sign` passes no other time.
-/

namespace EnvoyWasmFilters.AwsLambda

/-! ### Digests in one piece -/

section

variable [Sha2]

/-- The SHA-256 of the data. -/
def Sha2.sha256 (data : Str) : Digest := Sha2.sha256Final [.update data]

/-- The HMAC-SHA-256 of the data under a key. -/
def Sha2.hmacSha256 (key data : Str) : Digest := Sha2.hmacSha256Final [.init key, .update data]

/-- What the libraries promise: data in pieces is hashed as their concatenation, and `init` starts
afresh, whatever has been done on the context before. -/
class LawfulSha2 : Prop where
  sha256_updates : ∀ data : List Str,
    Sha2.sha256Final (data.map .update) = Sha2.sha256 data.flatten
  hmac_updates : ∀ (before : List HmacOp) (key : Str) (data : List Str),
    Sha2.hmacSha256Final (before ++ [.init key] ++ data.map .update)
      = Sha2.hmacSha256 key data.flatten

/-! ### The reference -/

/-- The scope of a credential. -/
def referenceScope (date region : Str) : Str := date ++ "/" ++ region ++ "/lambda/aws4_request"

/-- The key derived from the secret. -/
def referenceKey (secretKey date region : Str) : Digest :=
  let kDate := Sha2.hmacSha256 ("AWS4" ++ secretKey) date
  let kRegion := Sha2.hmacSha256 kDate.chars region
  let kService := Sha2.hmacSha256 kRegion.chars "lambda"
  Sha2.hmacSha256 kService.chars "aws4_request"

/-- The line of a header. -/
def referenceLine (pair : Str × Str) : Str := pair.1 ++ ":" ++ pair.2 ++ "\n"

/-- The canonical request. -/
def referenceRequest (path : Str) (pairs : List (Str × Str)) (body : Str) : Str :=
  "POST\n" ++ beforeQuery path ++ "\n" ++ afterQuery path ++ "\n"
    ++ pairs.flatMap referenceLine ++ "\n"
    ++ signedNames (pairs.map Prod.fst) ++ "\n" ++ hexEncode (Sha2.sha256 body).toList

/-- **The value of `authorization`**, for a date and time `dateTime`, the headers that are signed and
all of the body. -/
def reference (accessKey secretKey region dateTime path : Str) (pairs : List (Str × Str))
    (body : Str) : Str :=
  let date := dateTime.take 8
  let scope := referenceScope date region
  let request := hexEncode (Sha2.sha256 (referenceRequest path pairs body)).toList
  let signature := Sha2.hmacSha256 (referenceKey secretKey date region).chars
    ("AWS4-HMAC-SHA256\n" ++ dateTime ++ "\n" ++ scope ++ "\n" ++ request)
  "AWS4-HMAC-SHA256 Credential=" ++ accessKey ++ "/" ++ scope ++ ", SignedHeaders="
    ++ signedNames (pairs.map Prod.fst) ++ ", Signature=" ++ hexEncode signature.toList

/-! ### The derivation of the key -/

/-- One more HMAC on the context: keyed with the last digest, over the concatenation. -/
theorem recusiveHmacHelper_digest [LawfulSha2] (hmac : List HmacOp × Digest) (what : List Str) :
    (recusiveHmacHelper hmac what).2 = Sha2.hmacSha256 hmac.2.chars what.flatten :=
  LawfulSha2.hmac_updates hmac.1 hmac.2.chars what

/-- **Five HMACs on one context.** -/
theorem computeSignature_eq [LawfulSha2] (auth : AwsAuthenticator)
    (region scopeDate credentialScope requestDateTime hashedCanonicalRequest : Str) {secretKey : Str}
    (hkey : auth.firstKey = "AWS4" ++ secretKey) (hservice : auth.service = "lambda") :
    auth.computeSignature region scopeDate credentialScope requestDateTime hashedCanonicalRequest
      = hexEncode (Sha2.hmacSha256 (referenceKey secretKey scopeDate region).chars
          (stringToSign requestDateTime credentialScope hashedCanonicalRequest).flatten).toList := by
  simp only [AwsAuthenticator.computeSignature]
  rw [recusiveHmacHelper_digest, recusiveHmacHelper_digest, recusiveHmacHelper_digest,
    recusiveHmacHelper_digest, hkey, hservice]
  simp only [List.flatten_cons, List.flatten_nil, List.append_nil]
  rfl

end

section

variable [Platform]

/-! ### The dates -/

omit [Platform] in
/-- A date of a year of four digits has eight characters. -/
theorem length_putDate {tm : Tm} {year month day : ℕ} (hyear : tm.tmYear + 1900 = year)
    (hyear_ge : 1970 ≤ year) (hyear_lt : year < 10000) (hmonth : tm.tmMon + 1 = month)
    (hmonth_lt : month < 100) (hday : tm.tmMday = day) (hday_lt : day < 100) :
    (putDate tm).length = 8 := by
  have hle : (Nat.toDigits 10 year).length ≤ 4 :=
    (Nat.length_toDigits_le_iff (by decide) (by decide)).mpr hyear_lt
  have hge : ¬ (Nat.toDigits 10 year).length ≤ 3 := by
    rw [Nat.length_toDigits_le_iff (by decide) (by decide)]
    omega
  simp only [putDate]
  rw [hyear, hmonth, hday, decimal_natCast, twoDigits_natCast, twoDigits_natCast,
    List.length_append, List.length_append, Decimal.length_padded (by decide) hmonth_lt,
    Decimal.length_padded (by decide) hday_lt]
  omega

/-- The times before the year 10000. -/
def FourDigitYear (now : ℕ) : Prop := 0 ≤ timeT now ∧ timeT now < 253402300800

/-- `sign`, which alone calls `signWithTime`, passes no other: a clock of 64 bits does not reach the year
10000, and a tenth of its time is signed. -/
theorem signTime_fourDigitYear {systemTime : ℕ} (h : systemTime < 2 ^ 64) :
    FourDigitYear (signTime systemTime) := by
  have hsmall : signTime systemTime < 2 ^ 31 := by
    rw [signTime_eq]
    omega
  rw [FourDigitYear, timeT_of_lt hsmall]
  constructor <;> omega

/-- **One date.**  In the years of four digits the date of the scope is the beginning of the date and
time. -/
theorem take_formatTime {now : ℕ} (h : FourDigitYear now) (format format' : Str) :
    (formatTime format putDateTime now).take 8 = formatTime format' putDate now := by
  obtain ⟨tm, year, month, day, hgmtime, hyear, hge, hlt, hmonth, hmonth_lt, hday, hday_lt⟩ :=
    gmtime_fields h.1 h.2
  have hlength := length_putDate hyear hge hlt hmonth hmonth_lt hday hday_lt
  simp only [formatTime]
  rw [hgmtime]
  simp only [putDateTime, List.append_assoc]
  exact List.take_left' hlength

/-! ### The call -/

variable [Sha2]

omit [Platform] [Sha2] in
/-- A new authenticator with keys, that has been given a body in pieces. -/
def initialised (accessKey secretKey : Str) (chunks : List Str) : AwsAuthenticator :=
  chunks.foldl AwsAuthenticator.updatePayloadHash (AwsAuthenticator.new.init accessKey secretKey)

omit [Platform] [Sha2] in
/-- The pieces are in the transcript of the body's hash, and nowhere else. -/
theorem foldl_updatePayloadHash (auth : AwsAuthenticator) (chunks : List Str) :
    chunks.foldl AwsAuthenticator.updatePayloadHash auth
      = { auth with bodySha := auth.bodySha ++ chunks.map .update } := by
  induction chunks generalizing auth with
  | nil =>
    rw [List.map_nil, List.append_nil]
    rfl
  | cons chunk chunks ih =>
    rw [List.foldl_cons, ih, AwsAuthenticator.updatePayloadHash, List.append_assoc]
    rfl

/-- The host that owns the buffer of `:path` still. -/
def SignCall.owner (c : SignCall) : WasmHost :=
  ((prepareHeaders (addDate c.host c.now).2 c.headersToSign).2.getRequestHeader ":path").2

/-- What is read through the two views when the buffer is gone is what was read before. -/
def SignCall.ViewsValid (c : SignCall) : Prop :=
  c.urlBase = c.owner.read c.signing.auth.urlBase ∧
    c.queryString = c.owner.read c.signing.auth.queryString

omit [Sha2] in
/-- The value of `:path`. -/
def SignCall.path (c : SignCall) : Str :=
  (getHeader (addDate c.host c.now).2.requestHeaders ":path").getD []

/-- The two views read as the parts of the path. -/
theorem views_eq {c : SignCall} (h : c.ViewsValid) :
    c.urlBase = beforeQuery c.path ∧ c.queryString = afterQuery c.path := by
  have hreads := fetchUrl_reads ({ c.auth with requestHeaders := c.requestHeaders }.getBodyHexSha).2
    (prepareHeaders (addDate c.host c.now).2 c.headersToSign).2
  rw [prepareHeaders_requestHeaders] at hreads
  exact ⟨h.1.trans hreads.1, h.2.trans hreads.2⟩

omit [Platform] [Sha2] in
/-- Lines of names and values, as they are written in one piece. -/
theorem lines_eq_flatMap (pairs : List (Str × Str)) :
    Delimited.lines '\n' (pairs.map headerLine) = pairs.flatMap referenceLine := by
  induction pairs with
  | nil => rfl
  | cons pair pairs ih =>
    rw [List.map_cons, List.flatMap_cons, ← ih, ← List.append_nil (Delimited.lines _ (_ :: _)),
      Delimited.lines_cons, List.append_nil, headerLine, Delimited.pair, referenceLine]
    simp only [List.append_assoc]
    rfl

omit [Sha2] in
theorem pairs_names (c : SignCall) : c.pairs.map Prod.fst = c.headersToSign := by
  rw [SignCall.pairs, List.map_map]
  exact List.map_id c.headersToSign

omit [Platform] [Sha2] in
/-- The text of the canonical request in strings and in characters. -/
theorem text_newlines (url query lines names payload : Str) :
    ("POST" : Str) ++ '\n' :: (url ++ '\n' :: (query ++ '\n' :: (lines ++ '\n' ::
        (names ++ '\n' :: payload))))
      = "POST\n" ++ url ++ "\n" ++ query ++ "\n" ++ lines ++ "\n" ++ names ++ "\n" ++ payload := by
  simp only [List.append_assoc]
  rfl

/-- The text of the canonical request, with valid views and an authenticator for `POST`. -/
theorem text_eq {c : SignCall} (hviews : c.ViewsValid)
    (hmethod : c.signing.auth.method = ("POST" : Str)) {body : Str}
    (hbody : c.signing.hexpayload = hexEncode (Sha2.sha256 body).toList) :
    c.signing.canonicalRequest.flatten = referenceRequest c.path c.pairs body := by
  obtain ⟨hurl, hquery⟩ := views_eq hviews
  rw [SignCall.urlBase] at hurl
  rw [SignCall.queryString] at hquery
  rw [Signing.canonicalRequest, flatten_canonicalRequest, hmethod, signing_canonicalHeaders,
    signing_signedHeaders, hbody, lines_eq_flatMap, hurl, hquery, text_newlines, ← pairs_names]
  rfl

omit [Platform] [Sha2] in
theorem flatten_stringToSign (dateTime scope request : Str) :
    (stringToSign dateTime scope request).flatten
      = "AWS4-HMAC-SHA256\n" ++ dateTime ++ "\n" ++ scope ++ "\n" ++ request := by
  simp only [stringToSign, List.flatten_cons, List.flatten_nil, List.append_nil, List.append_assoc]
  rfl

omit [Platform] in
/-- The value of the header by its parts. -/
theorem reference_eq (accessKey secretKey region : Str) {dateTime date : Str}
    (hdate : dateTime.take 8 = date) (path : Str) (pairs : List (Str × Str)) (body : Str) :
    reference accessKey secretKey region dateTime path pairs body
      = "AWS4-HMAC-SHA256" ++ " Credential=" ++ accessKey ++ "/" ++ referenceScope date region ++
          ", SignedHeaders=" ++ signedNames (pairs.map Prod.fst) ++ ", Signature=" ++
          hexEncode (Sha2.hmacSha256 (referenceKey secretKey date region).chars
            (stringToSign dateTime (referenceScope date region)
              (hexEncode (Sha2.sha256 (referenceRequest path pairs body)).toList)).flatten).toList := by
  rw [flatten_stringToSign, ← hdate]
  rfl

/-- The authenticator that computes the signature is the one of the call, but for the views, the
headers and the body's hash. -/
theorem signing_keys (c : SignCall) :
    c.signing.auth.accessKey = c.auth.accessKey ∧ c.signing.auth.firstKey = c.auth.firstKey ∧
      c.signing.auth.service = c.auth.service ∧ c.signing.auth.method = c.auth.method := by
  obtain ⟨urlBase, queryString, hauth⟩ :=
    signWithTime_auth c.auth c.host c.requestHeaders c.headersToSign c.region c.now
  rw [SignCall.signing, hauth]
  exact ⟨rfl, rfl, rfl, rfl⟩

/-- The value of the header, put together from the local variables. -/
theorem signing_authorization (c : SignCall) {accessKey : Str}
    (hkey : c.signing.auth.accessKey = some accessKey) :
    c.signing.authorization
      = "AWS4-HMAC-SHA256" ++ " Credential=" ++ accessKey ++ "/" ++ c.signing.credentialScope ++
          ", SignedHeaders=" ++ c.signing.signedHeaders ++ ", Signature=" ++ c.signing.signature := by
  show "AWS4-HMAC-SHA256" ++ " Credential=" ++ c.signing.auth.accessKey.getD Platform.nullString ++
    "/" ++ c.signing.credentialScope ++ ", SignedHeaders=" ++ c.signing.signedHeaders ++
      ", Signature=" ++ c.signing.signature = _
  rw [hkey]
  rfl

/-- The signature, in one piece. -/
theorem signing_signature [LawfulSha2] (c : SignCall) {secretKey : Str}
    (hkey : c.signing.auth.firstKey = "AWS4" ++ secretKey)
    (hservice : c.signing.auth.service = ("lambda" : Str)) :
    c.signing.signature
      = hexEncode (Sha2.hmacSha256 (referenceKey secretKey c.signing.scopeDate c.region).chars
          (stringToSign c.signing.requestDateTime c.signing.credentialScope
            c.signing.hashedCanonicalRequest).flatten).toList :=
  computeSignature_eq c.signing.auth c.region c.signing.scopeDate c.signing.credentialScope
    c.signing.requestDateTime c.signing.hashedCanonicalRequest hkey hservice

/-- **Streaming, views and one context for five HMACs make no difference**: with a new authenticator and
valid views, `signWithTime` returns the value that the definition of the signature gives, in the years
of four digits. -/
theorem signWithTime_eq_reference [LawfulSha2] (accessKey secretKey : Str) (chunks : List Str)
    (w : WasmHost) (requestHeaders : Option HeaderMap) (headersToSign : HeaderList) (region : Str)
    (now : ℕ) (hyear : FourDigitYear now)
    (hviews : SignCall.ViewsValid
      ⟨initialised accessKey secretKey chunks, w, requestHeaders, headersToSign, region, now⟩) :
    ((initialised accessKey secretKey chunks).signWithTime w requestHeaders headersToSign region
        now).authorization
      = reference accessKey secretKey region (addDate w now).1
          ((getHeader (addDate w now).2.requestHeaders ":path").getD [])
          (headersToSign.map (signedPair (addDate w now).2.requestHeaders)) chunks.flatten := by
  have hinit : initialised accessKey secretKey chunks = _ :=
    foldl_updatePayloadHash (AwsAuthenticator.new.init accessKey secretKey) chunks
  generalize hc : (⟨initialised accessKey secretKey chunks, w, requestHeaders, headersToSign, region,
    now⟩ : SignCall) = c at hviews
  obtain ⟨haccess, hfirst, hservice, hmethod⟩ := signing_keys c
  have hauth : c.auth = initialised accessKey secretKey chunks := by rw [← hc]
  rw [hauth, hinit] at haccess hfirst hservice hmethod
  have hpayload : c.signing.hexpayload = hexEncode (Sha2.sha256 chunks.flatten).toList := by
    show hexEncode (Sha2.sha256Final c.auth.bodySha).toList = _
    rw [hauth, hinit, ← LawfulSha2.sha256_updates]
    rfl
  have hrequest : c.signing.hashedCanonicalRequest
      = hexEncode (Sha2.sha256 (referenceRequest c.path c.pairs chunks.flatten)).toList := by
    rw [← text_eq hviews hmethod hpayload, ← LawfulSha2.sha256_updates]
    rfl
  have hdate : c.signing.requestDateTime.take 8 = c.signing.scopeDate := by
    rw [← hc]
    exact take_formatTime hyear _ _
  have hscope : c.signing.credentialScope = referenceScope c.signing.scopeDate c.region := by
    show c.signing.scopeDate ++ "/" ++ c.region ++ "/" ++ c.signing.auth.service ++ "/aws4_request" = _
    rw [hservice]
    simp only [referenceScope, List.append_assoc]
    rfl
  have hsignature := signing_signature c hfirst hservice
  rw [hrequest, hscope] at hsignature
  have hvalue := signing_authorization c haccess
  rw [hsignature, hscope, signing_signedHeaders, ← pairs_names,
    ← reference_eq accessKey secretKey c.region hdate] at hvalue
  rw [← hc] at hvalue
  exact hvalue

end

/-! ### A small call -/

theorem hmacFed_updates (before : List HmacOp) (key : Str) (data : List Str) :
    hmacFed (before ++ [.init key] ++ data.map .update) = key ++ data.flatten := by
  simp only [hmacFed, List.foldl_append, List.foldl_cons, List.foldl_nil, List.foldl_map]
  induction data generalizing key with
  | nil => exact (List.append_nil key).symm
  | cons first data ih =>
    rw [List.foldl_cons, ih, List.flatten_cons, List.append_assoc]

/-- The data of a HMAC comes in pieces or at once, whatever has been done before. -/
theorem hmacFed_pieces (before : List HmacOp) (key : Str) (data : List Str) :
    hmacFed (before ++ [.init key] ++ data.map .update) = hmacFed [.init key, .update data.flatten] := by
  have hone := hmacFed_updates [] key [data.flatten]
  rw [List.flatten_singleton] at hone
  rw [hmacFed_updates]
  exact hone.symm

/-- The checksums keep the promise. -/
instance : LawfulSha2 where
  sha256_updates data := by
    show checksum (HashTranscript.fed (data.map HashTranscript.Call.update))
      = checksum (HashTranscript.fed [.update data.flatten])
    rw [HashTranscript.fed_map_update, HashTranscript.fed_update]
  hmac_updates before key data := congrArg checksum (hmacFed_pieces before key data)

/-- A call with a body in two pieces. -/
def smallCall : SignCall where
  auth := initialised "k" "s" ["a", "b"]
  host := { requestHeaders := [(":path", "/f?x=1"), ("host", "h")] }
  requestHeaders := none
  headersToSign := ["host", "x-amz-date"]
  region := "us-east-1"
  now := 0

/-- Where freed memory still reads as the path, it is signed by the definition. -/
theorem smallCall_eq_reference :
    @SignCall.ViewsValid (keeping "/f?x=1") _ smallCall ∧
      (@SignCall.signing (keeping "/f?x=1") _ smallCall).authorization
        = reference "k" "s" "us-east-1" (@addDate (keeping "/f?x=1") smallCall.host 0).1
            (@SignCall.path (keeping "/f?x=1") smallCall)
            (@SignCall.pairs (keeping "/f?x=1") smallCall) (["a", "b"] : List Str).flatten := by
  let : Platform := keeping "/f?x=1"
  have hviews : smallCall.ViewsValid := ⟨by decide +kernel, by decide +kernel⟩
  exact ⟨hviews, signWithTime_eq_reference "k" "s" ["a", "b"] smallCall.host none
    ["host", "x-amz-date"] "us-east-1" 0 ⟨by decide, by decide⟩ hviews⟩

end EnvoyWasmFilters.AwsLambda
