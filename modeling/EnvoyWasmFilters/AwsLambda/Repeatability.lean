import EnvoyWasmFilters.AwsLambda.Reference

/-!
# Signing more than once

An authenticator has one context for the hash of the body.  Every signature finalises it, and nothing
initialises it again.

* `signAll` — an authenticator that signs one call after the other, `signAll_bodySha` what is on its
  context then;
* `hexEncode_injective` — different digests are written differently;
* `consuming` — a library that keeps its promise, and in which a finalised context is spent;
  `consuming_payload_ne` a call that finds one;
* `repeatable_iff` — **when signing can be repeated**, whatever the library makes of a finalised context.
-/

namespace EnvoyWasmFilters.AwsLambda

open HashTranscript

/-! ### One signature after the other -/

/-- The arguments of `signWithTime`, and the request at the host. -/
structure SignArguments where
  host : WasmHost
  requestHeaders : Option HeaderMap
  headersToSign : HeaderList
  region : Str
  now : ℕ

/-- The call on an authenticator. -/
def SignArguments.on (arguments : SignArguments) (auth : AwsAuthenticator) : SignCall :=
  { auth := auth
    host := arguments.host
    requestHeaders := arguments.requestHeaders
    headersToSign := arguments.headersToSign
    region := arguments.region
    now := arguments.now }

section

variable [Platform]

section

variable [Sha2]

/-- The authenticator after a sequence of calls. -/
def signAll (auth : AwsAuthenticator) (calls : List SignArguments) : AwsAuthenticator :=
  calls.foldl (fun auth call => (call.on auth).signing.auth) auth

/-- One digest is asked for in each call. -/
theorem signAll_bodySha (auth : AwsAuthenticator) (calls : List SignArguments) :
    (signAll auth calls).bodySha = auth.bodySha ++ List.replicate calls.length .final := by
  induction calls generalizing auth with
  | nil => exact (List.append_nil _).symm
  | cons call calls ih =>
    obtain ⟨urlBase, queryString, hauth⟩ := signWithTime_auth auth call.host call.requestHeaders
      call.headersToSign call.region call.now
    have hbody : (call.on auth).signing.auth.bodySha = auth.bodySha ++ [.final] :=
      congrArg AwsAuthenticator.bodySha hauth
    show (signAll (call.on auth).signing.auth calls).bodySha = _
    rw [ih, hbody, List.append_assoc]
    rfl

/-- **Repeatable**: every call signs the hash of all the body that was fed to the authenticator, and equal
calls return the same value. -/
structure Repeatable (auth : AwsAuthenticator) (calls : List SignArguments) : Prop where
  payload : ∀ before call after, calls = before ++ call :: after →
    (call.on (signAll auth before)).signing.hexpayload
      = hexEncode (Sha2.sha256 (fed auth.bodySha)).toList
  same : ∀ before call between after, calls = before ++ call :: (between ++ call :: after) →
    (call.on (signAll auth before)).signing.authorization
      = (call.on (signAll auth (before ++ call :: between))).signing.authorization

omit [Platform] in
/-- A context that was only fed gives the hash of the data. -/
theorem sha256Final_of_updates [LawfulSha2] {t : List Sha256Op} (h : .final ∉ t) :
    Sha2.sha256Final t = Sha2.sha256 (fed t) := by
  rw [fed_eq_flatten, ← LawfulSha2.sha256_updates, ← eq_map_update h]

/-- A single call on a context that was only fed. -/
theorem repeatable_single [LawfulSha2] {auth : AwsAuthenticator} (h : .final ∉ auth.bodySha)
    (call : SignArguments) : Repeatable auth [call] := by
  constructor
  · intro before call' after hcalls
    have hlength := congrArg List.length hcalls
    simp only [List.length_append, List.length_cons, List.length_nil] at hlength
    rw [List.eq_nil_of_length_eq_zero (show before.length = 0 by omega)]
    show hexEncode (Sha2.sha256Final auth.bodySha).toList = _
    rw [sha256Final_of_updates h]
  · intro before call' between after hcalls
    have hlength := congrArg List.length hcalls
    simp only [List.length_append, List.length_cons, List.length_nil] at hlength
    omega

end

/-! ### A library with spent contexts -/

omit [Platform] in
/-- The two hexadecimal digits of a byte tell the byte. -/
theorem hexEncode_byte (d : UInt8) :
    16 * digits.idxOf (digits.getD (d >>> 4).toNat ' ')
      + digits.idxOf (digits.getD (d &&& 0xf).toNat ' ') = d.toNat := by
  have hall : ∀ n < 256, 16 * digits.idxOf (digits.getD (UInt8.ofNat n >>> 4).toNat ' ')
      + digits.idxOf (digits.getD (UInt8.ofNat n &&& 0xf).toNat ' ') = n := by decide +kernel
  have hbyte := hall d.toNat d.toNat_lt
  rw [UInt8.ofNat_toNat] at hbyte
  exact hbyte

omit [Platform] in
/-- Different bytes are written differently. -/
theorem hexEncode_injective {data data' : List UInt8} (h : hexEncode data = hexEncode data') :
    data = data' := by
  induction data generalizing data' with
  | nil =>
    cases data' with
    | nil => rfl
    | cons d data' => cases h
  | cons d data ih =>
    cases data' with
    | nil => cases h
    | cons d' data' =>
      rw [hexEncode, List.flatMap_cons, hexEncode, List.flatMap_cons] at h
      obtain ⟨hhigh, h⟩ := List.cons.inj h
      obtain ⟨hlow, hrest⟩ := List.cons.inj h
      have hbyte : d.toNat = d'.toNat := by
        rw [← hexEncode_byte d, hhigh, hlow, hexEncode_byte]
      rw [UInt8.toNat.inj hbyte, ih hrest]

end

/-- The checksums again, with one more byte fed to a context that has been finalised. -/
@[reducible] def consuming : Sha2 where
  sha256Final calls := checksum (fed calls ++ if .final ∈ calls then [Char.ofNat 1] else [])
  hmacSha256Final calls := checksum (hmacFed calls)

/-- A context that was only fed is not spent. -/
theorem consuming_sha256Final {t : List Sha256Op} (h : .final ∉ t) :
    @Sha2.sha256Final consuming t = checksum (fed t) := by
  show checksum (fed t ++ if .final ∈ t then [Char.ofNat 1] else []) = _
  rw [if_neg h, List.append_nil]

theorem consuming_lawful : @LawfulSha2 consuming := by
  let : Sha2 := consuming
  refine { sha256_updates := ?_, hmac_updates := ?_ }
  · intro data
    have hmany : (.final : Sha256Op) ∉ data.map .update := by simp
    have hone : (.final : Sha256Op) ∉ [.update data.flatten] := by simp
    show @Sha2.sha256Final consuming _ = @Sha2.sha256Final consuming [.update data.flatten]
    rw [consuming_sha256Final hmany, consuming_sha256Final hone, fed_map_update, fed_update]
  · intro before key data
    exact congrArg checksum (hmacFed_pieces before key data)

/-- One more byte of 1 changes the checksum. -/
theorem checksum_concat_ne (data : Str) : checksum (data ++ [Char.ofNat 1]) ≠ checksum data := by
  intro h
  have hfirst := congrArg (fun digest : Digest => digest[0]) h
  simp only [checksum, Vector.getElem_replicate, List.foldl_append, List.foldl_cons,
    List.foldl_nil] at hfirst
  have hone : UInt8.ofNat (Char.ofNat 1).toNat = 1 := by decide
  rw [hone] at hfirst
  grind

/-- A spent context gives another hash than that of the data. -/
theorem consuming_spent {t : List Sha256Op} (h : .final ∈ t) :
    @Sha2.sha256Final consuming t ≠ @Sha2.sha256 consuming (fed t) := by
  have hone : (.final : Sha256Op) ∉ [.update (fed t)] := by simp
  show checksum (fed t ++ if .final ∈ t then [Char.ofNat 1] else [])
    ≠ @Sha2.sha256Final consuming [.update (fed t)]
  rw [if_pos h, consuming_sha256Final hone, fed_update]
  exact checksum_concat_ne (fed t)

section

variable [Platform]

/-- With spent contexts, a call after a digest does not sign the hash of the body. -/
theorem consuming_payload_ne {auth : AwsAuthenticator} (before : List SignArguments)
    {call : SignArguments} {after : List SignArguments}
    (hspent : .final ∈ (@signAll _ consuming auth before).bodySha) :
    ¬ @Repeatable _ consuming auth (before ++ call :: after) := by
  let : Sha2 := consuming
  intro hrepeatable
  have hpayload := hrepeatable.payload before call after rfl
  change hexEncode (Sha2.sha256Final (signAll auth before).bodySha).toList = _ at hpayload
  have hfed : fed (signAll auth before).bodySha = fed auth.bodySha := by
    rw [signAll_bodySha, fed_append, fed_replicate_final, List.append_nil]
  rw [← hfed] at hpayload
  exact consuming_spent hspent (Vector.toList_inj.mp (hexEncode_injective hpayload))

/-- **When signing can be repeated.**  Whatever the library makes of a finalised context, all calls on an
authenticator sign the hash of the body exactly if there is no more than one of them and none has gone
before. -/
theorem repeatable_iff (auth : AwsAuthenticator) (calls : List SignArguments) :
    (∀ [Sha2] [LawfulSha2], Repeatable auth calls)
      ↔ calls = [] ∨ (∃ call, calls = [call]) ∧ .final ∉ auth.bodySha := by
  constructor
  · intro hall
    have hrepeatable := @hall consuming consuming_lawful
    rcases calls with _ | ⟨first, _ | ⟨second, rest⟩⟩
    · exact .inl rfl
    · refine .inr ⟨⟨first, rfl⟩, fun hspent => ?_⟩
      exact consuming_payload_ne [] hspent hrepeatable
    · refine absurd hrepeatable (consuming_payload_ne [first] ?_)
      rw [@signAll_bodySha _ consuming]
      exact List.mem_append_right _ List.mem_cons_self
  · rintro (rfl | ⟨⟨call, rfl⟩, hunspent⟩)
    · intro _ _
      exact ⟨fun before call after hcalls => by simp at hcalls,
        fun before call between after hcalls => by simp at hcalls⟩
    · intro _ _
      exact repeatable_single hunspent call

end

/-- A call at the epoch. -/
def plainArguments : SignArguments where
  host := { requestHeaders := [(":path", "/f"), ("host", "h")] }
  requestHeaders := none
  headersToSign := ["host"]
  region := "us-east-1"
  now := 0

/-- The second of two equal calls signs another hash than that of the body, and returns another value. -/
theorem second_call_not_repeatable :
    ¬ (∀ [Sha2] [LawfulSha2], @Repeatable (keeping "/f") _ (initialised "k" "s" ["a"])
        [plainArguments, plainArguments]) ∧
      (@SignCall.signing (keeping "/f") consuming
          (plainArguments.on (initialised "k" "s" ["a"]))).authorization
        ≠ (@SignCall.signing (keeping "/f") consuming (plainArguments.on
          (@signAll (keeping "/f") consuming (initialised "k" "s" ["a"])
            [plainArguments]))).authorization := by
  constructor
  · intro hall
    have hrepeatable := @hall consuming consuming_lawful
    let : Platform := keeping "/f"
    refine consuming_payload_ne [plainArguments] ?_ hrepeatable
    rw [@signAll_bodySha _ consuming]
    exact List.mem_append_right _ List.mem_cons_self
  · decide +kernel

end EnvoyWasmFilters.AwsLambda
