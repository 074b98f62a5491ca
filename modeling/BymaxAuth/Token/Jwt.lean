import BymaxAuth.Token.Manager

/-!
# The HS256 codec

`bymax-auth-jwt`: signing a set of claims into a compact JWS, verifying one under a key, and the verification under a
current key and the retired ones (`verify_rotating_with` of the token manager).

## The model

What the codec is built over is a parameter (`Primitives`): HMAC-SHA-256, base64url and the JSON header; so is how a
set of claims is written and read (`ClaimsCodec`). The comparison of two tags in constant time is their equality.
-/

namespace BymaxAuth.Hs256

open Concurrency List

/-- The bytes of a text. -/
def textBytes (text : String) : List UInt8 := text.toByteArray.data.toList

/-- `HEADER_JSON` -/
def headerJson : String := r#"{"alg":"HS256","typ":"JWT"}"#

/-- What the codec is built over. -/
structure Primitives where
  /-- `hmac_sha256` of a key and a message. -/
  hmacSha256 : List UInt8 → List UInt8 → List UInt8
  /-- Base64url without padding. -/
  encode : List UInt8 → String
  /-- Base64url without padding, read. -/
  decode : String → Option (List UInt8)
  /-- The `alg` of a header, if the bytes are one. -/
  headerAlg : List UInt8 → Option String
  /-- What was encoded decodes. -/
  decode_encode : ∀ bytes, decode (encode bytes) = some bytes
  /-- The alphabet has no dot. -/
  dot_notMem : ∀ bytes, '.' ∉ (encode bytes).toList
  /-- The fixed header names the pinned algorithm. -/
  headerAlg_header : headerAlg (textBytes headerJson) = some "HS256"

/-- How a set of claims is written, read, and looked at by the verifier. -/
structure ClaimsCodec (C : Type) where
  /-- `serde_json::to_vec` -/
  write : C → List UInt8
  /-- `serde_json::from_slice`; claims of another type do not decode. -/
  read : List UInt8 → Option C
  /-- The first second at which the token is invalid. -/
  exp : C → ℤ
  /-- When it was issued. -/
  iat : C → ℤ
  /-- The issuer it names. -/
  iss : C → Option String
  /-- The audience it names. -/
  aud : C → Option String

/-- `JwtError` -/
inductive JwtError where
  /-- Not three base64url segments, or refused as if it were not. -/
  | malformed
  /-- `alg` is not HS256. -/
  | unsupportedAlg
  /-- The tag is not the one of the key. -/
  | badSignature
  /-- `exp` has passed. -/
  | expired
  /-- The payload is no such set of claims. -/
  | decode

/-- `VerifyOptions`, with the time the caller or the clock gave. -/
structure VerifyOptions where
  /-- Tolerated clock skew, in seconds. -/
  leewaySecs : ℕ := 0
  /-- Whether to enforce `exp`. -/
  validateExp : Bool := true
  /-- Whether to enforce `iat`. -/
  validateIat : Bool := true
  /-- The current time. -/
  now : ℤ
  /-- The issuer the token must name. -/
  expectedIss : Option String := none
  /-- The audience the token must name. -/
  expectedAud : Option String := none

variable {C : Type} (p : Primitives) (codec : ClaimsCodec C)

/-- `ok_or` -/
def okOr {α : Type} (error : JwtError) : Option α → Except JwtError α
  | some a => .ok a
  | none => .error error

theorem okOr_eq_ok {α : Type} {error : JwtError} {o : Option α} {a : α} : okOr error o = .ok a ↔ o = some a := by
  cases o <;> simp [okOr]

/-- `split_segments` -/
def splitSegments (token : String) : Option (String × String × String) :=
  match token.toList.splitOn '.' with
  | [header, payload, signature] => some (.ofList header, .ofList payload, .ofList signature)
  | _ => none

/-- What is signed: `{header}.{payload}`. -/
def signingInput (header payload : String) : List UInt8 := textBytes (header ++ "." ++ payload)

/-- `sign` -/
def sign (claims : C) (key : List UInt8) : String :=
  let header := p.encode (textBytes headerJson)
  let payload := p.encode (codec.write claims)
  header ++ "." ++ payload ++ "." ++ p.encode (p.hmacSha256 key (signingInput header payload))

/-- `i64::saturating_add` -/
def saturatingAdd (a b : ℤ) : ℤ := max (-2 ^ 63) (min (a + b) (2 ^ 63 - 1))

/-- `validate_temporal` -/
def validateTemporal (claims : C) (opts : VerifyOptions) : Except JwtError Unit :=
  let leeway : ℤ := min opts.leewaySecs (2 ^ 63 - 1)
  if opts.validateExp && decide (saturatingAdd (codec.exp claims) leeway ≤ opts.now) then .error .expired
  else if opts.validateIat && decide (saturatingAdd opts.now leeway < codec.iat claims) then .error .malformed
  else .ok ()

/-- `validate_binding`: a token that names none is refused like one that names another. -/
def validateBinding (claims : C) (opts : VerifyOptions) : Except JwtError Unit :=
  if opts.expectedIss.all (fun expected => codec.iss claims = some expected) &&
      opts.expectedAud.all (fun expected => codec.aud claims = some expected) then .ok ()
  else .error .malformed

/-- `verify` -/
def verify (token : String) (key : List UInt8) (opts : VerifyOptions) : Except JwtError C := do
  let segments ← okOr .malformed (splitSegments token)
  let headerBytes ← okOr .malformed (p.decode segments.1)
  let alg ← okOr .malformed (p.headerAlg headerBytes)
  if alg = "HS256" then
    let provided ← okOr .malformed (p.decode segments.2.2)
    if p.hmacSha256 key (signingInput segments.1 segments.2.1) = provided then
      let payloadBytes ← okOr .malformed (p.decode segments.2.1)
      let claims ← okOr .decode (codec.read payloadBytes)
      validateTemporal codec claims opts
      validateBinding codec claims opts
      return claims
    else throw .badSignature
  else throw .unsupportedAlg

/-- `verify_rotating_with`: the current key first, then the retired ones. A failure is the current key's. -/
def verifyRotatingWith (token : String) (key : List UInt8) (previousKeys : List (List UInt8)) (opts : VerifyOptions) :
    Except JwtError C :=
  match verify p codec token key opts with
  | .ok claims => .ok claims
  | .error current =>
    match previousKeys.findSome? fun previous => (verify p codec token previous opts).toOption with
    | some claims => .ok claims
    | none => .error current

/-! ### What decides -/

/-- The tag of the token is the one of this key. -/
def SignedUnder (key : List UInt8) (token : String) : Prop :=
  ∃ header payload signature, splitSegments token = some (header, payload, signature) ∧
    p.decode signature = some (p.hmacSha256 key (signingInput header payload))

/-- Everything else the verifier asks of a token that has these claims. -/
structure Admissible (opts : VerifyOptions) (token : String) (claims : C) : Prop where
  /-- The header pins the algorithm. -/
  header : ∃ segments bytes, splitSegments token = some segments ∧ p.decode segments.1 = some bytes ∧
    p.headerAlg bytes = some "HS256"
  /-- The payload is these claims. -/
  payload : ∃ segments bytes, splitSegments token = some segments ∧ p.decode segments.2.1 = some bytes ∧
    codec.read bytes = some claims
  /-- The times are right. -/
  temporal : validateTemporal codec claims opts = .ok ()
  /-- The issuer and the audience are. -/
  binding : validateBinding codec claims opts = .ok ()

variable {p codec} {token : String} {key : List UInt8} {opts : VerifyOptions} {claims : C}

/-- A token is one set of claims. -/
theorem Admissible.unique {claims' : C} (h : Admissible p codec opts token claims)
    (h' : Admissible p codec opts token claims') : claims = claims' := by
  obtain ⟨segments, bytes, hsplit, hdecode, hread⟩ := h.payload
  obtain ⟨segments', bytes', hsplit', hdecode', hread'⟩ := h'.payload
  cases hsplit.symm.trans hsplit'
  cases hdecode.symm.trans hdecode'
  exact Option.some.inj (hread.symm.trans hread')

theorem toOption_eq_some {α : Type} {x : Except JwtError α} {a : α} : x.toOption = some a ↔ x = .ok a := by
  cases x <;> simp [Except.toOption]

/-- A token is accepted exactly when its tag is the key's and it is admissible, which no key decides. -/
theorem verify_ok_iff :
    verify p codec token key opts = .ok claims ↔ SignedUnder p key token ∧ Admissible p codec opts token claims := by
  constructor
  · intro h
    simp only [verify, bind_ok_iff, okOr_eq_ok] at h
    obtain ⟨segments, hsplit, headerBytes, hheader, alg, halg, h⟩ := h
    by_cases hpinned : alg = "HS256"
    · rw [if_pos hpinned, bind_ok_iff] at h
      obtain ⟨provided, hprovided, h⟩ := h
      rw [okOr_eq_ok] at hprovided
      by_cases htag : p.hmacSha256 key (signingInput segments.1 segments.2.1) = provided
      · rw [if_pos htag] at h
        simp only [bind_ok_iff, okOr_eq_ok] at h
        obtain ⟨payloadBytes, hpayload, read, hread, ⟨⟩, htemporal, ⟨⟩, hbinding, hclaims⟩ := h
        cases hclaims
        refine ⟨⟨segments.1, segments.2.1, segments.2.2, hsplit, htag ▸ hprovided⟩, ?_⟩
        exact ⟨⟨segments, headerBytes, hsplit, hheader, hpinned ▸ halg⟩, ⟨segments, payloadBytes, hsplit, hpayload,
          hread⟩, htemporal, hbinding⟩
      · rw [if_neg htag] at h
        cases h
    · rw [if_neg hpinned] at h
      cases h
  · rintro ⟨⟨header, payload, signature, hsplit, htag⟩, ⟨⟨s, hb, hs, hheader, halg⟩, ⟨s', pb, hs', hpayload, hread⟩,
      htemporal, hbinding⟩⟩
    cases hsplit.symm.trans hs
    cases hsplit.symm.trans hs'
    simp [verify, okOr, hsplit, hheader, halg, htag, hpayload, hread, htemporal, hbinding, bind, Except.bind, pure,
      Except.pure]

/-- Under several keys a token is accepted exactly when its tag is the one of any of them, and it is admissible. -/
theorem verifyRotating_ok_iff {previousKeys : List (List UInt8)} :
    verifyRotatingWith p codec token key previousKeys opts = .ok claims ↔
      (∃ k ∈ key :: previousKeys, SignedUnder p k token) ∧ Admissible p codec opts token claims := by
  have hfound : ∀ found, verifyRotatingWith p codec token key previousKeys opts = .ok found →
      (∃ k ∈ key :: previousKeys, SignedUnder p k token) ∧ Admissible p codec opts token found := by
    intro found h
    unfold verifyRotatingWith at h
    split at h
    · next hverify =>
      cases h
      exact ⟨⟨key, mem_cons_self, (verify_ok_iff.mp hverify).1⟩, (verify_ok_iff.mp hverify).2⟩
    · split at h
      · next hsome =>
        cases h
        obtain ⟨k, hk, hsome⟩ := exists_of_findSome?_eq_some hsome
        obtain ⟨hsigned, hadm⟩ := verify_ok_iff.mp (toOption_eq_some.mp hsome)
        exact ⟨⟨k, mem_cons_of_mem _ hk, hsigned⟩, hadm⟩
      · cases h
  refine ⟨hfound claims, ?_⟩
  rintro ⟨⟨k, hk, hsigned⟩, hadm⟩
  -- One of the keys accepts the token, so the loop ends with an acceptance, and a token is one set of claims.
  have hok := verify_ok_iff.mpr ⟨hsigned, hadm⟩
  obtain ⟨found, heq⟩ : ∃ found, verifyRotatingWith p codec token key previousKeys opts = .ok found := by
    unfold verifyRotatingWith
    split
    · exact ⟨_, rfl⟩
    · next current hverify =>
      rcases mem_cons.mp hk with rfl | hk
      · rw [hverify] at hok
        cases hok
      · split
        · exact ⟨_, rfl⟩
        · next hnone =>
          have := List.findSome?_eq_none_iff.mp hnone k hk
          rw [toOption_eq_some.mpr hok] at this
          cases this
  rw [heq, (hfound found heq).2.unique hadm]

/-! ### A token that was signed -/

theorem splitSegments_sign (claims : C) (key : List UInt8) :
    splitSegments (sign p codec claims key) = some (p.encode (textBytes headerJson), p.encode (codec.write claims),
      p.encode (p.hmacSha256 key (signingInput (p.encode (textBytes headerJson)) (p.encode (codec.write claims))))) := by
  have hlist : ∀ a b c : String,
      (a ++ "." ++ b ++ "." ++ c).toList = a.toList ++ '.' :: (b.toList ++ '.' :: c.toList) := by
    intro a b c
    simp
  unfold splitSegments sign
  rw [hlist, splitOn_append_cons_self_of_not_mem (p.dot_notMem _),
    splitOn_append_cons_self_of_not_mem (p.dot_notMem _), splitOn_eq_singleton (p.dot_notMem _)]
  simp

/-- Its tag is the one of a key exactly when the two keys give one tag for it. -/
theorem signedUnder_sign_iff (key' : List UInt8) : SignedUnder p key' (sign p codec claims key) ↔
      p.hmacSha256 key' (signingInput (p.encode (textBytes headerJson)) (p.encode (codec.write claims))) =
        p.hmacSha256 key (signingInput (p.encode (textBytes headerJson)) (p.encode (codec.write claims))) := by
  unfold SignedUnder
  rw [splitSegments_sign]
  constructor
  · rintro ⟨header, payload, signature, hsplit, htag⟩
    cases hsplit
    rw [p.decode_encode] at htag
    exact (Option.some.inj htag).symm
  · intro htag
    exact ⟨_, _, _, rfl, by rw [p.decode_encode, htag]⟩

section

variable (hrw : codec.read (codec.write claims) = some claims)
include hrw

/-- What was signed is judged by its times and its binding alone, if what was written is read. -/
theorem admissible_sign_iff {claims' : C} : Admissible p codec opts (sign p codec claims key) claims' ↔
      claims' = claims ∧ validateTemporal codec claims opts = .ok () ∧ validateBinding codec claims opts = .ok () := by
  constructor
  · rintro ⟨-, ⟨segments, bytes, hsplit, hdecode, hread⟩, htemporal, hbinding⟩
    rw [splitSegments_sign] at hsplit
    cases hsplit
    rw [p.decode_encode] at hdecode
    cases hdecode
    rw [hrw] at hread
    cases hread
    exact ⟨rfl, htemporal, hbinding⟩
  · rintro ⟨rfl, htemporal, hbinding⟩
    exact ⟨⟨_, _, splitSegments_sign claims' key, p.decode_encode _, p.headerAlg_header⟩,
      ⟨_, _, splitSegments_sign claims' key, p.decode_encode _, hrw⟩, htemporal, hbinding⟩

/-- Under its own key it is judged by its times and its binding, in this order. -/
theorem verify_sign : verify p codec (sign p codec claims key) key opts =
      (do validateTemporal codec claims opts; validateBinding codec claims opts; pure claims) := by
  simp [verify, splitSegments_sign, okOr, p.decode_encode, p.headerAlg_header, hrw, bind, Except.bind]

/-- The retired keys do not change that. -/
theorem verifyRotating_sign {previousKeys : List (List UInt8)} :
    verifyRotatingWith p codec (sign p codec claims key) key previousKeys opts =
      (do validateTemporal codec claims opts; validateBinding codec claims opts; pure claims) := by
  have hsign : verify p codec (sign p codec claims key) key opts = _ := verify_sign hrw
  rw [← hsign]
  unfold verifyRotatingWith
  split
  · next hverify => exact hverify.symm
  · next current hverify =>
    split
    · next found hfound =>
      obtain ⟨k, -, hsome⟩ := exists_of_findSome?_eq_some hfound
      obtain ⟨rfl, htemporal, hbinding⟩ := (admissible_sign_iff hrw).mp (verify_ok_iff.mp (toOption_eq_some.mp hsome)).2
      rw [hsign, htemporal, hbinding] at hverify
      cases hverify
    · exact hverify.symm

end

/-! ### Primitives to compute with -/

namespace Demo

theorem toNat_shifted (byte : UInt8) : (Char.ofNat (byte.toNat + 256)).toNat = byte.toNat + 256 := by
  have hvalid : (byte.toNat + 256).isValidChar := .inl (by have := byte.toNat_lt; omega)
  rw [Char.ofNat, dif_pos hvalid]
  rfl

/-- Keys that are their own tags, and bytes that are characters beyond the dot. -/
def jws : Primitives where
  hmacSha256 := fun key _ => key
  encode := fun bytes => .ofList (bytes.map fun byte => Char.ofNat (byte.toNat + 256))
  decode := fun text => some (text.toList.map fun c => UInt8.ofNat (c.toNat - 256))
  headerAlg := fun _ => some "HS256"
  decode_encode := by
    intro bytes
    simp [Function.comp_def, toNat_shifted]
  dot_notMem := by
    intro bytes hmem
    simp only [String.toList_ofList, mem_map] at hmem
    obtain ⟨byte, -, hdot⟩ := hmem
    have hnat := toNat_shifted byte
    rw [hdot] at hnat
    have : ('.').toNat = 46 := rfl
    omega
  headerAlg_header := rfl

end Demo

end BymaxAuth.Hs256
