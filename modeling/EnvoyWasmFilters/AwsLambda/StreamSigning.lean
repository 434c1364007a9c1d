import EnvoyWasmFilters.AwsLambda.Filter
import EnvoyWasmFilters.AwsLambda.Target

/-!
# Signing over a whole stream

A complete request reaches the filter as its headers, the pieces of its body and perhaps trailers.
The filter holds it back until it has signed it.  The decision to sign is spread over the three
callbacks.

* `Request` — a complete request: in `Rest`, only the legal orders of callbacks can be written down;
* `Ledger` — what there is to say about signing after some callbacks, and `ledger_headers`,
  `ledger_body`, `ledger_trailers`, one step of each callback on it;
* `ledger_complete` — the ledger of every complete request;
* `signedOnce_iff` — a request is signed exactly once when its method is `GET` exactly if its headers
  end it;
* `sealsBody_iff` — every signature is over the whole body when the body is empty, or the method is
  not `GET` and there are no trailers.
-/

namespace EnvoyWasmFilters.AwsLambda

open HashTranscript

/-! ### Requests -/

/-- A piece of the body, with the clock's reading at its callback. -/
structure Chunk where
  data : Str
  systemTime : ℕ
deriving DecidableEq

/-- What follows the headers: nothing, pieces of the body the last of which ends the stream, or pieces
none of which ends it and trailers. -/
inductive Rest where
  | headersOnly
  | body (chunks : List Chunk) (last : Chunk)
  | trailers (chunks : List Chunk) (systemTime : ℕ)
deriving DecidableEq

/-- A complete request. -/
structure Request where
  headers : HeaderMap
  systemTime : ℕ
  rest : Rest
deriving DecidableEq

/-- The value of `:method`. -/
def Request.method (r : Request) : Str := (getHeader r.headers ":method").getD []

/-- The body the pieces make up. -/
def bodyOf (chunks : List Chunk) : Str := chunks.flatMap Chunk.data

/-- The body of the request. -/
def Request.body (r : Request) : Str :=
  match r.rest with
  | .headersOnly => []
  | .body chunks last => bodyOf chunks ++ last.data
  | .trailers chunks _ => bodyOf chunks

/-- A callback of the host. -/
inductive Callback where
  | headers (systemTime : ℕ)
  | body (chunk : Chunk) (endOfStream : Bool)
  | trailers (systemTime : ℕ)

/-- The callbacks of a request, in order. -/
def Request.callbacks (r : Request) : List Callback :=
  .headers r.systemTime ::
    match r.rest with
    | .headersOnly => []
    | .body chunks last => chunks.map (.body · false) ++ [.body last true]
    | .trailers chunks systemTime => chunks.map (.body · false) ++ [.trailers systemTime]

/-! ### Running a stream -/

/-- A stream between two callbacks; `continued` tells whether the last one let it continue. -/
structure StreamState where
  context : AwsLambdaFilterContext := {}
  host : WasmHost
  continued : Bool := false

section

variable [Platform] [Sha2]

/-- One callback.  The host adds each piece to the body it has, and tells the filter the length of all
of it. -/
def StreamState.deliver (s : StreamState) : Callback → StreamState
  | .headers systemTime =>
      let result := s.context.onRequestHeaders s.host systemTime
      { context := result.2.1, host := result.2.2, continued := decide (result.1 = .continue) }
  | .body chunk endOfStream =>
      let host := { s.host with requestBody := s.host.requestBody ++ chunk.data }
      let result := s.context.onRequestBody host chunk.systemTime host.requestBody.length endOfStream
      { context := result.2.1, host := result.2.2, continued := decide (result.1 = .continue) }
  | .trailers systemTime =>
      let result := s.context.onRequestTrailers s.host systemTime
      { context := result.2.1, host := result.2.2, continued := decide (result.1 = .continue) }

/-- Callbacks in order. -/
def StreamState.run (s : StreamState) (callbacks : List Callback) : StreamState :=
  callbacks.foldl StreamState.deliver s

omit [Platform] [Sha2] in
/-- A new stream. -/
def Request.start (r : Request) : StreamState := { host := { requestHeaders := r.headers } }

/-- The stream when the request is complete. -/
def Request.complete (r : Request) : StreamState := r.start.run r.callbacks

end

/-! ### The ledger -/

/-- The number of signatures a request carries. -/
def signatures (headers : HeaderMap) : ℕ :=
  headers.countP fun header => header.1 = ("authorization" : Str)

/-- What there is to say about signing: the executions of `lambdafy`, the signatures the request
carries, the calls on the body's hash, the body received, and whether the stream goes on. -/
@[ext] structure Ledger where
  lambdafied : ℕ
  signatures : ℕ
  bodySha : List Sha256Op
  received : Str
  continued : Bool

/-- The ledger of a context and the request at the host. -/
def ledgerOf (context : AwsLambdaFilterContext) (requestHeaders : HeaderMap) (requestBody : Str)
    (continued : Bool) : Ledger where
  lambdafied := context.lambdafied
  signatures := signatures requestHeaders
  bodySha := context.awsAuthenticator.bodySha
  received := requestBody
  continued := continued

/-- The ledger of a stream. -/
def StreamState.ledger (s : StreamState) : Ledger :=
  ledgerOf s.context s.host.requestHeaders s.host.requestBody s.continued

/-- Signing and letting the stream go on. -/
def Ledger.sign (l : Ledger) : Ledger :=
  { l with
    lambdafied := l.lambdafied + 1
    signatures := l.signatures + 1
    bodySha := l.bodySha ++ [.final]
    continued := true }

/-- Holding the stream back. -/
def Ledger.hold (l : Ledger) : Ledger := { l with continued := false }

/-- Receiving a piece of the body. -/
def Ledger.receive (l : Ledger) (data : Str) : Ledger := { l with received := l.received ++ data }

/-- Hashing the body received. -/
def Ledger.hash (l : Ledger) : Ledger := { l with bodySha := l.bodySha ++ [.update l.received] }

/-- The first callback on the ledger. -/
def Ledger.headers (l : Ledger) (method : Str) : Ledger :=
  if method = ("GET" : Str) then l.sign else l.hold

/-- The remaining callbacks on the ledger. -/
def Ledger.rest (l : Ledger) : Rest → Ledger
  | .headersOnly => l
  | .body chunks last => ((l.receive (bodyOf chunks)).receive last.data).hash.sign
  | .trailers chunks _ => (l.receive (bodyOf chunks)).sign

section

variable [Platform] [Sha2]

/-- **`lambdafy` on the ledger.** -/
theorem ledgerOf_lambdafy (context : AwsLambdaFilterContext) (w : WasmHost) (systemTime : ℕ)
    (continued : Bool) :
    ledgerOf (context.lambdafy w systemTime).1 (context.lambdafy w systemTime).2.requestHeaders
        (context.lambdafy w systemTime).2.requestBody true
      = (ledgerOf context w.requestHeaders w.requestBody continued).sign := by
  obtain ⟨dateTime, authorization, hheaders⟩ := lambdafy_requestHeaders context w systemTime
  have hsignatures : signatures (w.requestHeaders ++ invocationHeaders dateTime authorization)
      = signatures w.requestHeaders + 1 := by
    rw [signatures, List.countP_append]
    rfl
  simp only [ledgerOf]
  rw [lambdafy_lambdafied, lambdafy_bodySha, lambdafy_requestBody, hheaders, hsignatures]
  rfl

/-- **Headers.**  The stream is signed at once or held back, as the method tells. -/
theorem ledger_headers (s : StreamState) (systemTime : ℕ) :
    (s.deliver (.headers systemTime)).ledger
      = s.ledger.headers ((getHeader s.host.requestHeaders ":method").getD []) := by
  simp only [StreamState.deliver, AwsLambdaFilterContext.onRequestHeaders, Ledger.headers]
  rw [WasmHost.getRequestHeader, read_newData]
  by_cases hget : (getHeader s.host.requestHeaders ":method").getD [] = ("GET" : Str)
  · rw [if_pos hget, if_pos (decide_eq_true hget)]
    exact ledgerOf_lambdafy s.context _ systemTime s.continued
  · rw [if_neg hget, if_neg (fun h => hget (of_decide_eq_true h))]
    rfl

/-- **A piece that does not end the stream** is received, and the stream held back. -/
theorem ledger_chunk (s : StreamState) (chunk : Chunk) :
    (s.deliver (.body chunk false)).ledger = (s.ledger.receive chunk.data).hold := rfl

/-- **The piece that ends the stream** is received, all the body is hashed, and the stream signed. -/
theorem ledger_last (s : StreamState) (last : Chunk) :
    (s.deliver (.body last true)).ledger = (s.ledger.receive last.data).hash.sign := by
  unfold StreamState.deliver AwsLambdaFilterContext.onRequestBody
  dsimp only
  rw [if_pos rfl, WasmHost.getBufferBytes, read_newData, List.drop_zero, List.take_length]
  exact ledgerOf_lambdafy _ _ last.systemTime s.continued

/-- **Trailers.**  The stream is signed; nothing is hashed. -/
theorem ledger_trailers (s : StreamState) (systemTime : ℕ) :
    (s.deliver (.trailers systemTime)).ledger = s.ledger.sign :=
  ledgerOf_lambdafy s.context s.host systemTime s.continued

/-- **Pieces**, by induction on them: what they make up is received. -/
theorem ledger_chunks (s : StreamState) (chunks : List Chunk) :
    (s.run (chunks.map (.body · false))).ledger.hold = (s.ledger.receive (bodyOf chunks)).hold := by
  induction chunks generalizing s with
  | nil =>
    show s.ledger.hold = { s.ledger with received := s.ledger.received ++ [], continued := false }
    rw [List.append_nil]
    rfl
  | cons chunk chunks ih =>
    show ((s.deliver (.body chunk false)).run (chunks.map (.body · false))).ledger.hold = _
    rw [ih, ledger_chunk]
    show { s.ledger with
        received := s.ledger.received ++ chunk.data ++ bodyOf chunks, continued := false }
      = (s.ledger.receive (chunk.data ++ bodyOf chunks)).hold
    rw [List.append_assoc]
    rfl

/-- **The whole stream.** -/
theorem ledger_complete (r : Request) :
    r.complete.ledger = (r.start.ledger.headers r.method).rest r.rest := by
  have hheaders : (r.start.deliver (.headers r.systemTime)).ledger
      = r.start.ledger.headers r.method := ledger_headers r.start r.systemTime
  simp only [Request.complete, Request.callbacks, StreamState.run]
  rw [List.foldl_cons]
  cases r.rest with
  | headersOnly => exact hheaders
  | body chunks last =>
    have hchunks := ledger_chunks (r.start.deliver (.headers r.systemTime)) chunks
    rw [List.foldl_append, List.foldl_cons, List.foldl_nil, ledger_last, ← hheaders]
    -- signing overwrites what the pieces before it left of `continued`
    exact congrArg (fun l => (l.receive last.data).hash.sign) hchunks
  | trailers chunks systemTime =>
    have hchunks := ledger_chunks (r.start.deliver (.headers r.systemTime)) chunks
    rw [List.foldl_append, List.foldl_cons, List.foldl_nil, ledger_trailers, ← hheaders]
    have hsign := congrArg Ledger.sign hchunks
    exact hsign

/-- The body at the host is the request's. -/
theorem complete_requestBody (r : Request) : r.complete.host.requestBody = r.body := by
  have hledger := congrArg Ledger.received (ledger_complete r)
  apply hledger.trans
  simp only [Request.body, Ledger.headers]
  cases r.rest <;> split <;> rfl

/-! ### One signature -/

/-- `lambdafy` has been executed exactly once, the request carries one signature more than it came
with, and the last callback has let it continue. -/
def Request.SignedOnce (r : Request) : Prop :=
  r.complete.context.lambdafied = 1 ∧
    signatures r.complete.host.requestHeaders = signatures r.headers + 1 ∧
    r.complete.continued = true

/-- **When a request is signed exactly once.**  `GET` has to tell whether the headers end the
stream. -/
theorem signedOnce_iff (r : Request) :
    r.SignedOnce ↔ (r.method = ("GET" : Str) ↔ r.rest = .headersOnly) := by
  show (r.complete.ledger.lambdafied = 1 ∧ r.complete.ledger.signatures = r.start.ledger.signatures + 1
    ∧ r.complete.ledger.continued = true) ↔ _
  rw [ledger_complete]
  simp only [Ledger.headers]
  have htwice : 2 ≠ 1 := by decide
  have hnever : 0 ≠ 1 := by decide
  by_cases hget : r.method = ("GET" : Str)
  · rw [if_pos hget, iff_true_left hget]
    cases r.rest with
    | headersOnly => exact iff_of_true ⟨rfl, rfl, rfl⟩ rfl
    | body chunks last => exact iff_of_false (fun h => htwice h.1) Rest.noConfusion
    | trailers chunks systemTime => exact iff_of_false (fun h => htwice h.1) Rest.noConfusion
  · rw [if_neg hget, iff_false_left hget]
    cases r.rest with
    | headersOnly => exact iff_of_false (fun h => hnever h.1) (fun h => h rfl)
    | body chunks last => exact iff_of_true ⟨rfl, rfl, rfl⟩ Rest.noConfusion
    | trailers chunks systemTime => exact iff_of_true ⟨rfl, rfl, rfl⟩ Rest.noConfusion

end

/-- A `POST` without a body. -/
def postWithoutBody : Request :=
  { headers := [(":method", "POST"), ("host", "a")], systemTime := 0, rest := .headersOnly }

/-- A `GET` with a body. -/
def getWithBody : Request :=
  { headers := [(":method", "GET"), ("host", "a")], systemTime := 0, rest := .body [] ⟨"a", 1⟩ }

/-- The first is never signed and held back for ever; the second is signed at its headers and again at
its body. -/
theorem postWithoutBody_unsigned_getWithBody_twice :
    (¬ postWithoutBody.SignedOnce ∧ postWithoutBody.complete.context.lambdafied = 0 ∧
        postWithoutBody.complete.continued = false) ∧
      ¬ getWithBody.SignedOnce ∧ getWithBody.complete.context.lambdafied = 2 := by
  have hnever : postWithoutBody.complete.context.lambdafied = 0 := by decide +kernel
  have hheld : postWithoutBody.complete.continued = false := by decide +kernel
  have htwice : getWithBody.complete.context.lambdafied = 2 := by decide +kernel
  refine ⟨⟨fun h => ?_, hnever, hheld⟩, fun h => ?_, htwice⟩
  · exact absurd (hnever.symm.trans h.1) (by decide)
  · exact absurd (htwice.symm.trans h.1) (by decide)

/-! ### What is signed -/

section

variable [Platform] [Sha2]

/-- Whenever the body's hash is asked for its digest, exactly the body the upstream receives has been
fed to it. -/
def Request.SealsBody (r : Request) : Prop :=
  Seals r.complete.host.requestBody r.complete.context.awsAuthenticator.bodySha

omit [Platform] [Sha2] in
/-- The headers feed nothing. -/
theorem fed_headers (r : Request) : fed (r.start.ledger.headers r.method).bodySha = [] := by
  simp only [Ledger.headers]
  split <;> rfl

omit [Platform] [Sha2] in
theorem received_headers (r : Request) : (r.start.ledger.headers r.method).received = [] := by
  simp only [Ledger.headers]
  split <;> rfl

omit [Platform] [Sha2] in
/-- After the headers the body's hash has been asked exactly for `GET`. -/
theorem seals_headers (r : Request) :
    Seals r.body (r.start.ledger.headers r.method).bodySha
      ↔ r.body = [] ∨ r.method ≠ ("GET" : Str) := by
  have hnone : Seals r.body [] := seals_nil r.body
  simp only [Ledger.headers]
  by_cases hget : r.method = ("GET" : Str)
  · rw [if_pos hget]
    have hfinal : Seals r.body ([] ++ [.final]) ↔ r.body = [] := by
      rw [seals_append_final, and_iff_right hnone, fed_nil, eq_comm]
    exact hfinal.trans (or_iff_left (not_not_intro hget)).symm
  · rw [if_neg hget]
    exact iff_of_true hnone (.inr hget)

omit [Platform] [Sha2] in
/-- The piece that ends the stream has all of it hashed before it is signed. -/
theorem seals_last {l : Ledger} (hfed : fed l.bodySha = []) (chunks : List Chunk) (last : Chunk) :
    Seals (l.received ++ bodyOf chunks ++ last.data) (l.rest (.body chunks last)).bodySha
      ↔ Seals (l.received ++ bodyOf chunks ++ last.data) l.bodySha := by
  show Seals _ (l.bodySha ++ [.update (l.received ++ bodyOf chunks ++ last.data)] ++ [.final]) ↔ _
  rw [seals_append_final, seals_append_update, fed_append, hfed, fed_update]
  exact and_iff_left (List.nil_append _)

omit [Platform] [Sha2] in
/-- Trailers have nothing hashed. -/
theorem seals_trailers {l : Ledger} (hfed : fed l.bodySha = []) (body : Str) (chunks : List Chunk)
    (systemTime : ℕ) :
    Seals body (l.rest (.trailers chunks systemTime)).bodySha ↔ Seals body l.bodySha ∧ body = [] := by
  show Seals body (l.bodySha ++ [.final]) ↔ _
  rw [seals_append_final, hfed]
  exact and_congr_right fun _ => eq_comm

/-- **When every signature is over the whole body.**  There is no body, or it is the last of its
pieces that has the request signed. -/
theorem sealsBody_iff (r : Request) :
    r.SealsBody ↔
      r.body = [] ∨ (r.method ≠ ("GET" : Str) ∧ ∀ chunks t, r.rest ≠ .trailers chunks t) := by
  have hsha : r.complete.context.awsAuthenticator.bodySha
      = ((r.start.ledger.headers r.method).rest r.rest).bodySha :=
    congrArg Ledger.bodySha (ledger_complete r)
  have hfed := fed_headers r
  have hheaders := seals_headers r
  simp only [Request.SealsBody]
  rw [complete_requestBody, hsha]
  cases hrest : r.rest with
  | headersOnly =>
    have hbody : r.body = [] := by
      simp only [Request.body, hrest]
    exact iff_of_true (hheaders.mpr (.inl hbody)) (.inl hbody)
  | body chunks last =>
    have hbody : r.body
        = (r.start.ledger.headers r.method).received ++ bodyOf chunks ++ last.data := by
      simp only [Request.body, hrest, received_headers, List.nil_append]
    have hlast := seals_last hfed chunks last
    rw [← hbody] at hlast
    rw [hlast, hheaders]
    exact or_congr_right (and_iff_left fun _ _ => Rest.noConfusion).symm
  | trailers chunks systemTime =>
    rw [seals_trailers hfed, hheaders]
    constructor
    · intro h
      exact .inl h.2
    · intro h
      rcases h with hbody | ⟨-, hnone⟩
      · exact ⟨.inl hbody, hbody⟩
      · exact absurd rfl (hnone chunks systemTime)

end

/-- A `POST` with a body that trailers follow. -/
def postWithTrailers : Request :=
  { headers := [(":method", "POST"), ("host", "a")], systemTime := 0
    rest := .trailers [⟨"a", 1⟩] 2 }

/-- The hash of nothing is signed for a body that is there. -/
theorem postWithTrailers_not_sealed :
    postWithTrailers.complete.context.awsAuthenticator.bodySha = [.final] ∧
      postWithTrailers.complete.host.requestBody = ("a" : Str) ∧ ¬ postWithTrailers.SealsBody := by
  have hsha : postWithTrailers.complete.context.awsAuthenticator.bodySha = [.final] := by
    decide +kernel
  have hbody : postWithTrailers.complete.host.requestBody = ("a" : Str) := by decide +kernel
  refine ⟨hsha, hbody, fun h => ?_⟩
  have hfed := h [] [] hsha
  rw [hbody] at hfed
  exact absurd hfed (by decide)

end EnvoyWasmFilters.AwsLambda
