import EnvoyWasmFilters.AwsLambda.Host

/-!
# A target to run on

One choice of what the target and the libraries leave open, to run the filter on concrete requests:
a `time_t` of 64 bits, null pointers that read as empty strings, freed memory that reads as zeros, and
a checksum in the place of the digests.
-/

namespace EnvoyWasmFilters.AwsLambda

instance : Platform where
  timeTBits := 64
  timeTBits_ge := by decide
  nullString := []
  nullTime := fun _ => []
  staleView := fun v => List.replicate v.length '\x00'

/-- The sum of the character codes, in each byte of a digest. -/
def checksum (data : Str) : Digest :=
  Vector.replicate 32 (data.foldl (fun sum c => sum + UInt8.ofNat c.toNat) 0)

/-- What is fed to a HMAC context from its last `init` on: the key, and the data. -/
def hmacFed (calls : List HmacOp) : Str :=
  calls.foldl
    (fun data call =>
      match call with
      | .init key => key
      | .update more => data ++ more
      | .final => data) []

instance : Sha2 where
  sha256Final := fun calls => checksum (HashTranscript.fed calls)
  hmacSha256Final := fun calls => checksum (hmacFed calls)

/-- The same target with freed memory that still reads as `data`. -/
abbrev keeping (data : Str) : Platform :=
  { (inferInstance : Platform) with staleView := fun v =>
      (data.drop v.offset ++ List.replicate v.length '\x00').take v.length }

end EnvoyWasmFilters.AwsLambda
