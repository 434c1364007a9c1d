import EnvoyWasmFilters.AwsLambda.Authenticator
import EnvoyWasmFilters.AwsLambda.Target
import EnvoyWasmFilters.Library.Delimited

/-!
# The canonical request

What is hashed is one text: the method, the URL, the query and the header lines, then an empty line,
the names that are signed and the hash of the body.

* `prepareHeaders_eq` — the canonical headers as lines of names and values;
* `flatten_canonicalRequest` — the text;
* `canonicalRequest_inj` — **the text determines what is signed**.
-/

namespace EnvoyWasmFilters.AwsLambda

/-! ### Canonical headers -/

/-- A header that is signed: its name, and its first value at the host. -/
def signedPair (requestHeaders : HeaderMap) (header : Str) : Str × Str :=
  (header, (getHeader requestHeaders header).getD [])

/-- The line of a header. -/
def headerLine (pair : Str × Str) : Str := Delimited.pair ':' pair

/-- The names that are signed. -/
def signedNames : HeaderList → Str
  | [] => []
  | [header] => header
  | header :: rest => header ++ ";" ++ signedNames rest

theorem not_mem_signedNames {headers : HeaderList} (h : ∀ header ∈ headers, '\n' ∉ header) :
    '\n' ∉ signedNames headers := by
  induction headers with
  | nil => exact List.not_mem_nil
  | cons header rest ih =>
    have hheader := h header List.mem_cons_self
    cases rest with
    | nil => exact hheader
    | cons next rest =>
      rw [signedNames, List.mem_append, List.mem_append, not_or, not_or]
      · exact ⟨⟨hheader, by decide⟩, ih fun n hn => h n (List.mem_cons_of_mem header hn)⟩
      · exact List.cons_ne_nil next rest

section

variable [Platform]

/-- **What `prepareHeaders` makes of the headers**, by induction on them: a line for each, and the
names. -/
theorem prepareHeaders_eq (w : WasmHost) (headers : HeaderList) :
    (prepareHeaders w headers).1
      = (Delimited.lines '\n' ((headers.map (signedPair w.requestHeaders)).map headerLine),
        signedNames headers) := by
  induction headers generalizing w with
  | nil => rfl
  | cons header rest ih =>
    rw [prepareHeaders]
    dsimp only
    rw [ih, WasmHost.getRequestHeader, read_newData]
    apply Prod.ext
    · show header ++ ":" ++ (getHeader w.requestHeaders header).getD [] ++ "\n" ++ _ = _
      rw [List.map_cons, List.map_cons, ← List.append_nil (Delimited.lines _ (headerLine _ :: _)),
        Delimited.lines_cons, List.append_nil, headerLine, Delimited.pair]
      simp only [List.append_assoc, signedPair]
      rfl
    · cases rest with
      | nil => exact (List.append_nil _).trans (List.append_nil _)
      | cons next rest => rfl

/-! ### The text -/

/-- An empty view reads as the empty string. -/
theorem read_eq_nil (w : WasmHost) {v : View} (h : v.length = 0) : w.read v = [] := by
  rw [WasmHost.read, WasmHost.read?, if_pos h]
  rfl

/-- **The text that is hashed.** -/
theorem flatten_canonicalRequest (auth : AwsAuthenticator) (w : WasmHost)
    (requestMethod canonicalHeaders signedHeaders hexpayload : Str) :
    (auth.canonicalRequest w requestMethod canonicalHeaders signedHeaders hexpayload).flatten
      = requestMethod ++ '\n' :: (w.read auth.urlBase ++ '\n' :: (w.read auth.queryString ++ '\n' ::
          (canonicalHeaders ++ '\n' :: (signedHeaders ++ '\n' :: hexpayload)))) := by
  have hquery : (if auth.queryString.length ≠ 0 then [w.read auth.queryString] else []).flatten
      = w.read auth.queryString := by
    split
    · exact List.append_nil _
    · next hlength => exact (read_eq_nil w (not_not.mp hlength)).symm
  have htail : ([("\n" : Str), canonicalHeaders, "\n", signedHeaders, "\n", hexpayload]).flatten
      = '\n' :: (canonicalHeaders ++ '\n' :: (signedHeaders ++ '\n' :: hexpayload)) := by
    show '\n' :: (canonicalHeaders ++ '\n' :: (signedHeaders ++ '\n' :: (hexpayload ++ []))) = _
    rw [List.append_nil]
  rw [AwsAuthenticator.canonicalRequest, List.flatten_cons, List.flatten_cons, List.flatten_cons,
    List.flatten_cons, List.flatten_append, hquery, htail]
  rfl

/-! ### What is signed -/

variable [Sha2]

/-- The pieces of the canonical request of a signature. -/
def Signing.canonicalRequest (signing : Signing) : List Str :=
  signing.auth.canonicalRequest signing.host signing.auth.method signing.canonicalHeaders
    signing.signedHeaders signing.hexpayload

/-- A call of `signWithTime`. -/
structure SignCall where
  auth : AwsAuthenticator
  host : WasmHost
  requestHeaders : Option HeaderMap
  headersToSign : HeaderList
  region : Str
  now : ℕ

/-- Its local variables. -/
def SignCall.signing (c : SignCall) : Signing :=
  c.auth.signWithTime c.host c.requestHeaders c.headersToSign c.region c.now

/-- `url_base_` while the canonical request is hashed. -/
def SignCall.urlBase (c : SignCall) : Str := c.signing.host.read c.signing.auth.urlBase

/-- `query_string_` while the canonical request is hashed. -/
def SignCall.queryString (c : SignCall) : Str := c.signing.host.read c.signing.auth.queryString

/-- The headers that are signed, those of the host after `addDate`. -/
def SignCall.pairs (c : SignCall) : List (Str × Str) :=
  c.headersToSign.map (signedPair (addDate c.host c.now).2.requestHeaders)

theorem signing_canonicalHeaders (c : SignCall) :
    c.signing.canonicalHeaders = Delimited.lines '\n' (c.pairs.map headerLine) :=
  congrArg Prod.fst (prepareHeaders_eq _ _)

theorem signing_signedHeaders (c : SignCall) :
    c.signing.signedHeaders = signedNames c.headersToSign :=
  congrArg Prod.snd (prepareHeaders_eq _ _)

/-- The authenticators there can be: new ones, and what calls of their functions leave. -/
inductive AwsAuthenticator.Reachable : AwsAuthenticator → Prop
  | new : Reachable .new
  | init (accessKey secretKey : Str) {auth : AwsAuthenticator} (h : auth.Reachable) :
      Reachable (auth.init accessKey secretKey)
  | updatePayloadHash (data : Str) {auth : AwsAuthenticator} (h : auth.Reachable) :
      Reachable (auth.updatePayloadHash data)
  | signWithTime (c : SignCall) (h : c.auth.Reachable) : Reachable c.signing.auth

/-- What the constructor sets, it keeps. -/
theorem AwsAuthenticator.Reachable.constructed {auth : AwsAuthenticator} (h : auth.Reachable) :
    auth.method = ("POST" : Str) ∧ auth.service = ("lambda" : Str) := by
  induction h with
  | new => exact ⟨rfl, rfl⟩
  | init accessKey secretKey h ih => exact ih
  | updatePayloadHash data h ih => exact ih
  | signWithTime c h ih =>
    obtain ⟨urlBase, queryString, hauth⟩ :=
      signWithTime_auth c.auth c.host c.requestHeaders c.headersToSign c.region c.now
    rw [SignCall.signing, hauth]
    exact ih

/-! ### What the text determines -/

/-- What HTTP and the callers of `createHeaderToSign` see to. -/
structure SignCall.WellFormed (c : SignCall) : Prop where
  reachable : c.auth.Reachable
  urlBase : '\n' ∉ c.urlBase
  queryString : '\n' ∉ c.queryString
  names : ∀ name ∈ c.headersToSign, name ≠ [] ∧ ':' ∉ name ∧ ';' ∉ name ∧ '\n' ∉ name
  values : ∀ pair ∈ c.pairs, '\n' ∉ pair.2

omit [Sha2] in
/-- A pair that is signed has a name of the list. -/
theorem name_of_mem_pairs {c : SignCall} {pair : Str × Str} (h : pair ∈ c.pairs) :
    pair.1 ∈ c.headersToSign := by
  obtain ⟨header, hmem, rfl⟩ := List.mem_map.mp h
  exact hmem

/-- The header lines: none is empty and none has a newline in it. -/
theorem SignCall.WellFormed.lines {c : SignCall} (hc : c.WellFormed) :
    ∀ line ∈ c.pairs.map headerLine, line ≠ [] ∧ '\n' ∉ line := by
  intro line hline
  obtain ⟨pair, hpair, rfl⟩ := List.mem_map.mp hline
  refine ⟨Delimited.pair_ne_nil pair, ?_⟩
  obtain ⟨-, -, -, hname⟩ := hc.names pair.1 (name_of_mem_pairs hpair)
  rw [headerLine, Delimited.pair, List.mem_append, List.mem_cons, not_or, not_or]
  exact ⟨hname, by decide, hc.values pair hpair⟩

/-- The text of a call. -/
theorem SignCall.WellFormed.text {c : SignCall} (hc : c.WellFormed) :
    c.signing.canonicalRequest.flatten
      = "POST" ++ '\n' :: (c.urlBase ++ '\n' :: (c.queryString ++ '\n' ::
          (Delimited.lines '\n' (c.pairs.map headerLine) ++ '\n' ::
            (signedNames c.headersToSign ++ '\n' :: c.signing.hexpayload)))) := by
  have hmethod : c.signing.auth.method = ("POST" : Str) :=
    (AwsAuthenticator.Reachable.signWithTime c hc.reachable).constructed.1
  rw [Signing.canonicalRequest, flatten_canonicalRequest, hmethod, signing_canonicalHeaders,
    signing_signedHeaders]
  rfl

/-- **The text determines what is signed**: the URL, the query, the names and values of the headers
and the hash of the body, part after part up to its newline. -/
theorem canonicalRequest_inj {c d : SignCall} (hc : c.WellFormed) (hd : d.WellFormed)
    (h : c.signing.canonicalRequest.flatten = d.signing.canonicalRequest.flatten) :
    c.urlBase = d.urlBase ∧ c.queryString = d.queryString ∧ c.pairs = d.pairs ∧
      c.signing.hexpayload = d.signing.hexpayload := by
  rw [hc.text, hd.text] at h
  have hpost : '\n' ∉ ("POST" : Str) := by decide
  obtain ⟨-, h⟩ := Delimited.field_inj hpost hpost h
  obtain ⟨hurl, h⟩ := Delimited.field_inj hc.urlBase hd.urlBase h
  obtain ⟨hquery, h⟩ := Delimited.field_inj hc.queryString hd.queryString h
  obtain ⟨hlines, h⟩ := Delimited.lines_inj hc.lines hd.lines h
  have hpairs : c.pairs = d.pairs := Delimited.map_pair_inj
    (fun pair hpair => (hc.names pair.1 (name_of_mem_pairs hpair)).2.1)
    (fun pair hpair => (hd.names pair.1 (name_of_mem_pairs hpair)).2.1) hlines
  have hnames : ∀ {e : SignCall}, e.WellFormed → '\n' ∉ signedNames e.headersToSign :=
    fun he => not_mem_signedNames fun name hname => (he.names name hname).2.2.2
  obtain ⟨-, hpayload⟩ := Delimited.field_inj (hnames hc) (hnames hd) h
  exact ⟨hurl, hquery, hpairs, hpayload⟩

end

/-- A call that signs three headers, for a region. -/
def signedHost (region : Str) : SignCall where
  auth := .new
  host := { requestHeaders := [(":path", "/a?b=c"), ("host", "h"), ("accept", "text"), ("accept", "json")] }
  requestHeaders := none
  headersToSign := ["accept", "host", "x-amz-date"]
  region := region
  now := 0

theorem signedHost_wellFormed (region : Str) :
    @SignCall.WellFormed (keeping "/a?b=c") _ (signedHost region) :=
  let : Platform := keeping "/a?b=c"
  { reachable := .new
    urlBase := by
      show '\n' ∉ (signedHost []).urlBase
      decide +kernel
    queryString := by
      show '\n' ∉ (signedHost []).queryString
      decide +kernel
    names := by
      show ∀ name ∈ (signedHost []).headersToSign,
        name ≠ [] ∧ ':' ∉ name ∧ ';' ∉ name ∧ '\n' ∉ name
      decide
    values := by
      show ∀ pair ∈ (signedHost []).pairs, '\n' ∉ pair.2
      decide +kernel }

/-- The text that is hashed for a region, on a target where freed memory still reads as the path. -/
def hostText (region : Str) : Str :=
  (@Signing.canonicalRequest (keeping "/a?b=c")
    (@SignCall.signing (keeping "/a?b=c") _ (signedHost region))).flatten

/-- The URL, the query and the headers are in the text, and the region is not. -/
theorem canonicalRequest_inj_regions :
    hostText "us-east-1" = hostText "eu-west-1" ∧
      @SignCall.urlBase (keeping "/a?b=c") _ (signedHost "us-east-1") = "/a" ∧
      @SignCall.urlBase (keeping "/a?b=c") _ (signedHost "eu-west-1") = "/a" ∧
      @SignCall.queryString (keeping "/a?b=c") _ (signedHost "us-east-1") = "b=c" ∧
      @SignCall.queryString (keeping "/a?b=c") _ (signedHost "eu-west-1") = "b=c" ∧
      @SignCall.pairs (keeping "/a?b=c") (signedHost "us-east-1")
        = @SignCall.pairs (keeping "/a?b=c") (signedHost "eu-west-1") := by
  let : Platform := keeping "/a?b=c"
  have hsame : hostText "us-east-1" = hostText "eu-west-1" := by decide +kernel
  obtain ⟨hurl, hquery, hpairs, -⟩ := canonicalRequest_inj (signedHost_wellFormed "us-east-1")
    (signedHost_wellFormed "eu-west-1") hsame
  have hread : (signedHost "us-east-1").urlBase = "/a" ∧ (signedHost "us-east-1").queryString = "b=c" :=
    ⟨by decide +kernel, by decide +kernel⟩
  exact ⟨hsame, hread.1, hurl ▸ hread.1, hread.2, hquery ▸ hread.2, hpairs⟩

end EnvoyWasmFilters.AwsLambda
