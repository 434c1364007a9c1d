import EnvoyWasmFilters.Common.Runtime
import EnvoyWasmFilters.Library.HashTranscript

/-!
# What the AWS Lambda filter calls

The libraries and the host as the filter sees them.

* `Platform` — what the language and the target leave open: the width of `time_t`, and what is read
  through a null pointer or through a view whose buffer has been freed.  In WebAssembly all of these
  reads return something.
* `Sha2` — the functions of the `sha2` and `hmac` libraries.  A context is the transcript of the calls
  made on it; a digest is any function of that transcript.
* `WasmHost` — the request at the host, and the buffers of the `WasmData` objects handed out.
-/

namespace EnvoyWasmFilters.AwsLambda

/-! ### Views and buffers -/

/-- A `std::string_view` into the buffer of a `WasmData`. -/
structure View where
  buffer : ℕ := 0
  offset : ℕ := 0
  length : ℕ := 0
deriving DecidableEq

/-- `remove_prefix`. -/
def View.removePrefix (v : View) (n : ℕ) : View :=
  { v with offset := v.offset + n, length := v.length - n }

/-- `remove_suffix`. -/
def View.removeSuffix (v : View) (n : ℕ) : View := { v with length := v.length - n }

/-- What the source's behaviour depends on outside the source. -/
class Platform where
  /-- The bits of `time_t` and `long`. -/
  timeTBits : ℕ
  timeTBits_ge : 32 ≤ timeTBits
  /-- The `std::string` at a null pointer. -/
  nullString : Str
  /-- What `std::put_time` writes for a null pointer. -/
  nullTime : Str → Str
  /-- The characters of a view whose buffer has been freed. -/
  staleView : View → Str

/-- The request at the host, and the buffers handed out, an empty place being a freed one. -/
structure WasmHost where
  requestHeaders : HeaderMap
  requestBody : Str := []
  buffers : List (Option Str) := []
deriving DecidableEq

/-- A `WasmData` with the given characters, as the view of all of it. -/
def WasmHost.newData (w : WasmHost) (data : Str) : View × WasmHost :=
  ({ buffer := w.buffers.length, length := data.length },
    { w with buffers := w.buffers ++ [some data] })

/-- The end of a `WasmDataPtr`'s scope. -/
def WasmHost.release (w : WasmHost) (v : View) : WasmHost :=
  { w with buffers := w.buffers.set v.buffer none }

/-- `getRequestHeader`: the first value of a name, or an empty view. -/
def WasmHost.getRequestHeader (w : WasmHost) (name : Str) : View × WasmHost :=
  w.newData ((getHeader w.requestHeaders name).getD [])

/-- `getBufferBytes(BufferType::HttpRequestBody, start, length)`. -/
def WasmHost.getBufferBytes (w : WasmHost) (start length : ℕ) : View × WasmHost :=
  w.newData ((w.requestBody.drop start).take length)

/-- `addRequestHeader`. -/
def WasmHost.addRequestHeader (w : WasmHost) (name value : Str) : WasmHost :=
  { w with requestHeaders := HeaderCall.exec w.requestHeaders (.add name value) }

/-- The characters of a view, if its buffer is still owned. -/
def WasmHost.read? (w : WasmHost) (v : View) : Option Str :=
  if v.length = 0 then some []
  else (w.buffers[v.buffer]?.join).map fun data => (data.drop v.offset).take v.length

/-- The characters read through a view. -/
def WasmHost.read [Platform] (w : WasmHost) (v : View) : Str :=
  (w.read? v).getD (Platform.staleView v)

/-- New data is owned, and reads as what it was made of. -/
theorem read?_newData (w : WasmHost) (data : Str) :
    (w.newData data).2.read? (w.newData data).1 = some data := by
  unfold WasmHost.read? WasmHost.newData
  dsimp only
  cases data with
  | nil => rfl
  | cons c data =>
    rw [if_neg (show (c :: data).length ≠ 0 from Nat.succ_ne_zero _), List.getElem?_concat_length]
    exact congrArg some List.take_length

@[simp] theorem read_newData [Platform] (w : WasmHost) (data : Str) :
    (w.newData data).2.read (w.newData data).1 = data := by
  rw [WasmHost.read, read?_newData]
  rfl

@[simp] theorem addRequestHeader_requestBody (w : WasmHost) (name value : Str) :
    (w.addRequestHeader name value).requestBody = w.requestBody := rfl

@[simp] theorem addRequestHeader_requestHeaders (w : WasmHost) (name value : Str) :
    (w.addRequestHeader name value).requestHeaders = w.requestHeaders ++ [(name, value)] := rfl

/-! ### SHA-256 and HMAC -/

/-- A call on a `sha256_ctx` after `sha256_init`. -/
abbrev Sha256Op := HashTranscript.Call Char

/-- A call on a `hmac_sha256_ctx`. -/
inductive HmacOp where
  | init (key : Str)
  | update (data : Str)
  | final
deriving DecidableEq

/-- `SHA256_DIGEST_SIZE` bytes. -/
abbrev Digest := Vector UInt8 32

/-- The digests of the two libraries, given the calls made on the context before. -/
class Sha2 where
  sha256Final : List Sha256Op → Digest
  hmacSha256Final : List HmacOp → Digest

/-- The characters of a digest. -/
def Digest.chars (d : Digest) : Str := d.toList.map fun byte => Char.ofNat byte.toNat

/-- The local array of `HexEncode`. -/
def digits : Str := "0123456789abcdef"

/-- `HexEncode`. -/
def hexEncode (data : List UInt8) : Str :=
  data.flatMap fun d : UInt8 =>
    [digits.getD (d >>> 4).toNat ' ', digits.getD (d &&& 0xf).toNat ' ']

end EnvoyWasmFilters.AwsLambda
