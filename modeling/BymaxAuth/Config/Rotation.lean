import BymaxAuth.Identity.Lockout
import BymaxAuth.Token.Jwt

/-!
# Rotating the signing secret

The signing secret does two jobs: it signs the tokens, and unless `identifier_key` is set the key that names the
accounts in the store is derived from it (`ResolvedConfig::new` in `config/validate.rs`, the wiring in
`engine/builder.rs`). A rotation retires it, and pins the identifier key to what it was.

## The model

`AuthConfig` keeps the fields these two jobs read. SHA-256 and what the token codec is built over are parameters
(`Primitives`). The handlers get the keyed hashes through `Env` (`ResolvedConfig.env`), and the verification of a
token's text ends in the checks of `BymaxAuth.Token.Manager`, which take a token for its claims: on a token that was
signed the two agree (`verifyAccessToken_sign`).
-/

namespace BymaxAuth

open Concurrency Hs256 List SingleUse.Recovery

/-! ### Configurations -/

/-- What the keys are derived with. -/
structure Digests where
  sha256 : List UInt8 → List UInt8
  /-- The token codec's. -/
  jws : Hs256.Primitives

/-- The fields of `AuthConfig` that hold keys, and the two that bind a token. -/
structure AuthConfig where
  /-- `jwt.secret` -/
  secret : String
  /-- `jwt.previous_secrets` -/
  previousSecrets : List String
  identifierKey : Option String
  /-- `jwt.issuer` -/
  issuer : Option String
  /-- `jwt.audience` -/
  audience : Option String

/-- `HMAC_KEY_LABEL` -/
def hmacKeyLabel : String := "bymax-auth:hmac-key:v1"

/-- `HEX_ALPHABET` -/
def hexAlphabet : List Char := "0123456789abcdef".toList

/-- `to_hex` -/
def toHex (bytes : List UInt8) : String :=
  .ofList (bytes.flatMap fun byte => [hexAlphabet.getD (byte.toNat / 16) '0', hexAlphabet.getD (byte.toNat % 16) '0'])

section Rotation

variable (digests : Digests)

/-- `derive_hmac_key`: the key is the text of the digest. -/
def deriveHmacKey (secret : String) : List UInt8 :=
  textBytes (toHex (digests.sha256 (textBytes (hmacKeyLabel ++ ":" ++ secret))))

/-- `ResolvedConfig` -/
structure ResolvedConfig where
  /-- The configuration. -/
  config : AuthConfig
  /-- The key of the identifiers. -/
  hmacKey : List UInt8
  /-- The keys of a rotation, for reading only. -/
  previousHmacKeys : List (List UInt8)

namespace ResolvedConfig

/-- `ResolvedConfig::new` -/
def new (config : AuthConfig) : ResolvedConfig where
  config
  hmacKey := deriveHmacKey digests (config.identifierKey.getD config.secret)
  previousHmacKeys := config.previousSecrets.map (deriveHmacKey digests)

/-- `to_hex(hmac_sha256(key, text))` -/
def keyed (key : List UInt8) (text : String) : String := toHex (digests.jws.hmacSha256 key (textBytes text))

/-- The surroundings of the handlers, with the keyed hashes of this configuration. -/
def env (r : ResolvedConfig) (base : SingleUse.Env) : SingleUse.Env :=
  { base with
    toEnv := { base.toEnv with
      identifierHmac := keyed digests r.hmacKey
      mfa := { base.mfa with previousIdentifierHmacs := r.previousHmacKeys.map (keyed digests) } } }

/-- `verify_rotating` of the token manager the builder makes. An empty issuer or audience is none. -/
def verifyRotating {C : Type} (r : ResolvedConfig) (codec : ClaimsCodec C) (now : ℕ) (token : String) :
    Except Hs256.JwtError C :=
  verifyRotatingWith digests.jws codec token (textBytes r.config.secret) (r.config.previousSecrets.map textBytes)
    { now, expectedIss := r.config.issuer.filter (· ≠ ""), expectedAud := r.config.audience.filter (· ≠ "") }

end ResolvedConfig

/-! ### Verifying a token's text -/

/-- `map_jwt_error` -/
def mapVerifyError : Hs256.JwtError → AuthError
  | .expired => .tokenExpired
  | _ => .tokenInvalid

/-- The end of `verify_access` and `verify_platform_access`: the blacklist, and the epoch of the account. -/
def assertNotRevoked (subject : String) (claims : AccessClaims) : Act AccessClaims := do
  if ← isBlacklisted claims.jti then throw .tokenRevoked
  if claims.epoch < (← currentEpoch subject) then throw .tokenRevoked
  pure claims

/-- `verify_access` and `verify_platform_access` of a token's text. -/
def verifyAccessToken (r : ResolvedConfig) (env : Env) (codec : ClaimsCodec AccessClaims) (token : String) :
    Act AccessClaims := do
  let now ← Act.host .nowUnix
  match r.verifyRotating digests codec now token with
  | .error e => throw (mapVerifyError e)
  | .ok claims => assertNotRevoked (env.subjectHash claims.tenantId claims.sub) claims

/-- The end of `verify_mfa_temp_token`: the marker, the epoch of the account, and the tenant of the plane. -/
def assertRedeemable (marker subject : String) (claims : MfaTempClaims) : Act MfaTempClaims := do
  match ← Act.account (.getTemp marker) with
  | none => throw .mfaTempTokenInvalid
  | some storedUser =>
    if storedUser ≠ claims.sub then throw .mfaTempTokenInvalid
    if claims.epoch < (← currentEpoch subject) then throw .mfaTempTokenInvalid
    if !planeTenantIsWellFormed claims.context claims.tenantId then throw .mfaTempTokenInvalid
    pure claims

/-- `verify_mfa_temp_token` of a token's text. -/
def verifyMfaTempTokenText (r : ResolvedConfig) (env : Env) (codec : ClaimsCodec MfaTempClaims) (token : String) :
    Act MfaTempClaims := do
  let now ← Act.host .nowUnix
  match r.verifyRotating digests codec now token with
  | .error _ => throw .mfaTempTokenInvalid
  | .ok claims => assertRedeemable (env.jtiHash claims.jti) (env.subjectHash claims.tenantId claims.sub) claims

/-! ### A rotation -/

/-- The rotated configuration retires the old secret with the ones retired before, keeps the binding, and pins the
identifier key to the one in use. -/
structure AuthConfig.RotatesTo (old new : AuthConfig) : Prop where
  /-- The old secrets still verify. -/
  retired : ∀ secret ∈ old.secret :: old.previousSecrets, secret ∈ new.previousSecrets
  /-- The identifiers stay where they are. -/
  pinned : new.identifierKey = some (old.identifierKey.getD old.secret)
  /-- The issuer is the same. -/
  issuer : new.issuer = old.issuer
  /-- The audience is the same. -/
  audience : new.audience = old.audience

/-- Nobody has signed this token under a secret that was not in use. -/
def Unforged (old new : AuthConfig) (token : String) : Prop :=
  ∀ secret ∈ new.secret :: new.previousSecrets, secret ∉ old.secret :: old.previousSecrets →
    ¬ SignedUnder digests.jws (textBytes secret) token

variable {digests} {old new : AuthConfig} {codec : ClaimsCodec AccessClaims}

/-- The keys of the rotated configuration accept what the old ones accepted, and no more. -/
theorem verifyRotating_iff {C : Type} {codec : ClaimsCodec C} {now : ℕ} {token : String} {claims : C}
    (h : old.RotatesTo new) (hu : Unforged digests old new token) :
    (ResolvedConfig.new digests old).verifyRotating digests codec now token = .ok claims ↔
      (ResolvedConfig.new digests new).verifyRotating digests codec now token = .ok claims := by
  unfold ResolvedConfig.verifyRotating
  rw [verifyRotating_ok_iff, verifyRotating_ok_iff]
  simp only [ResolvedConfig.new, h.issuer, h.audience, ← map_cons]
  refine and_congr_left fun _ => ?_
  constructor
  · rintro ⟨key, hkey, hsigned⟩
    obtain ⟨secret, hsecret, rfl⟩ := mem_map.mp hkey
    exact ⟨_, mem_map.mpr ⟨secret, mem_cons_of_mem _ (h.retired secret hsecret), rfl⟩, hsigned⟩
  · rintro ⟨key, hkey, hsigned⟩
    obtain ⟨secret, hsecret, rfl⟩ := mem_map.mp hkey
    have hold : secret ∈ old.secret :: old.previousSecrets := by
      by_contra hnew
      exact hu secret hsecret hnew hsigned
    exact ⟨_, mem_map.mpr ⟨secret, hold, rfl⟩, hsigned⟩

/-- Both accept the token, as the same claims, or both refuse it. -/
theorem verifyRotating_agree {C : Type} (codec : ClaimsCodec C) (now : ℕ) {token : String} (h : old.RotatesTo new)
    (hu : Unforged digests old new token) :
    (∃ claims, (ResolvedConfig.new digests old).verifyRotating digests codec now token = .ok claims ∧
        (ResolvedConfig.new digests new).verifyRotating digests codec now token = .ok claims) ∨
      ∃ e e', (ResolvedConfig.new digests old).verifyRotating digests codec now token = .error e ∧
        (ResolvedConfig.new digests new).verifyRotating digests codec now token = .error e' := by
  cases hold : (ResolvedConfig.new digests old).verifyRotating digests codec now token with
  | ok claims => exact .inl ⟨claims, rfl, (verifyRotating_iff h hu).mp hold⟩
  | error e =>
    cases hnew : (ResolvedConfig.new digests new).verifyRotating digests codec now token with
    | error e' => exact .inr ⟨e, e', rfl, rfl⟩
    | ok claims =>
      have hok := (verifyRotating_iff h hu).mpr hnew
      rw [hold] at hok
      cases hok

/-- The key of the identifiers is the same. -/
theorem AuthConfig.RotatesTo.hmacKey (h : old.RotatesTo new) :
    (ResolvedConfig.new digests new).hmacKey = (ResolvedConfig.new digests old).hmacKey := by
  simp [ResolvedConfig.new, h.pinned]

theorem AuthConfig.RotatesTo.identifierHmac (h : old.RotatesTo new) (base : SingleUse.Env) :
    ((ResolvedConfig.new digests new).env digests base).identifierHmac =
      ((ResolvedConfig.new digests old).env digests base).identifierHmac := by
  simp [ResolvedConfig.env, h.hmacKey]

theorem AuthConfig.RotatesTo.subjectHash (h : old.RotatesTo new) (base : SingleUse.Env) (kind : SessionKind)
    (tenantId : Option String) (userId : String) :
    (((ResolvedConfig.new digests new).env digests base).toEnv.onPlane kind).subjectHash tenantId userId =
      (((ResolvedConfig.new digests old).env digests base).toEnv.onPlane kind).subjectHash tenantId userId :=
  congrFun (h.identifierHmac base) _

/-- What a recovery code could match before, it can match still. -/
theorem AuthConfig.RotatesTo.candidates (h : old.RotatesTo new) (base : SingleUse.Env) (code : String) :
    ((ResolvedConfig.new digests old).env digests base).recoveryCodeCandidates code ⊆
      ((ResolvedConfig.new digests new).env digests base).recoveryCodeCandidates code := by
  intro digest hd
  unfold Env.recoveryCodeCandidates at hd ⊢
  rw [h.identifierHmac]
  rcases mem_cons.mp hd with rfl | hd
  · exact mem_cons_self
  · refine mem_cons_of_mem _ ?_
    simp only [ResolvedConfig.env, ResolvedConfig.new, mem_map, exists_exists_and_eq_and] at hd ⊢
    obtain ⟨secret, hsecret, rfl⟩ := hd
    exact ⟨secret, h.retired secret (mem_cons_of_mem _ hsecret), rfl⟩

/-- Two programs that read the clock and then either go on alike or both stop with a failure answer alike. -/
theorem answers_iff_of_agree {α : Type} {x y : ℕ → Act α}
    (h : ∀ now, x now = y now ∨ (∃ e, x now = throw e) ∧ ∃ e, y now = throw e) {tr : Trace} {a : α} :
    Path (Act.host .nowUnix >>= x).run tr (.ret (.ok a)) ↔ Path (Act.host .nowUnix >>= y).run tr (.ret (.ok a)) := by
  have hstep : ∀ z : ℕ → Act α, Path (Act.host .nowUnix >>= z).run tr (.ret (.ok a)) ↔
      ∃ (now : ℕ) (tr' : Trace), tr = ⟨.host .nowUnix, now⟩ :: tr' ∧ Path (z now).run tr' (.ret (.ok a)) := by
    intro z
    constructor
    · intro hp
      cases hp with
      | cons hp => exact ⟨_, _, rfl, hp⟩
    · rintro ⟨now, tr', rfl, hp⟩
      exact .cons hp
  rw [hstep, hstep]
  refine exists_congr fun now => exists_congr fun tr' => and_congr_right fun _ => ?_
  rcases h now with heq | ⟨⟨e, hx⟩, e', hy⟩
  · rw [heq]
  · rw [hx, hy]
    constructor <;> exact nofun

/-- **A rotation changes no decision.** Take a configuration and the one that retires its signing secret and pins the
identifier key. On a token that nobody has forged, with whatever replies the store gives: an access token of either
plane, or a challenge token, is accepted as these claims before exactly when it is after. A recovery code that matched
a stored digest matches one. And the names of every account in the store are the same: its session index and epoch,
its failure counters, and the key and fingerprint of its codes. -/
theorem rotation_keeps_decisions (h : old.RotatesTo new) (base : SingleUse.Env) :
    let before := ResolvedConfig.new digests old
    let after := ResolvedConfig.new digests new
    let env := before.env digests base
    let env' := after.env digests base
    (∀ token codec kind tr claims, Unforged digests old new token →
      (Path (verifyAccessToken digests before (env.toEnv.onPlane kind) codec token).run tr (.ret (.ok claims)) ↔
        Path (verifyAccessToken digests after (env'.toEnv.onPlane kind) codec token).run tr (.ret (.ok claims)))) ∧
    (∀ token codec kind tr claims, Unforged digests old new token →
      (Path (verifyMfaTempTokenText digests before (env.toEnv.onPlane kind) codec token).run tr (.ret (.ok claims)) ↔
        Path (verifyMfaTempTokenText digests after (env'.toEnv.onPlane kind) codec token).run tr
          (.ret (.ok claims)))) ∧
    (∀ storedDigests code, (verifyRecoveryCode storedDigests (env.recoveryCodeCandidates code)).isSome = true →
      (verifyRecoveryCode storedDigests (env'.recoveryCodeCandidates code)).isSome = true) ∧
    (∀ a : Account, (env'.toEnv.onPlane a.plane).subjectHash a.tenantId a.userId =
      (env.toEnv.onPlane a.plane).subjectHash a.tenantId a.userId) ∧
    (∀ b : Budget, b.identifier env' = b.identifier env) ∧
    (∀ tenantId email code, otpKey env' tenantId email = otpKey env tenantId email ∧
      otpFingerprint env' tenantId email code =
        otpFingerprint env tenantId email code) := by
  intro before after env env'
  refine ⟨?_, ?_, ?_, ?_, ?_, ?_⟩
  · intro token codec kind tr claims hu
    refine answers_iff_of_agree fun now => ?_
    rcases verifyRotating_agree codec now h hu with ⟨claims, hold, hnew⟩ | ⟨e, e', hold, hnew⟩
    · rw [hold, hnew]
      exact .inl (congrArg (assertNotRevoked · claims) (h.subjectHash base kind _ _).symm)
    · rw [hold, hnew]
      exact .inr ⟨⟨_, rfl⟩, _, rfl⟩
  · intro token codec kind tr claims hu
    refine answers_iff_of_agree fun now => ?_
    rcases verifyRotating_agree codec now h hu with ⟨claims, hold, hnew⟩ | ⟨e, e', hold, hnew⟩
    · rw [hold, hnew]
      exact .inl (congrArg (assertRedeemable _ · claims) (h.subjectHash base kind _ _).symm)
    · rw [hold, hnew]
      exact .inr ⟨⟨_, rfl⟩, _, rfl⟩
  · intro storedDigests code hmatch
    simp only [verifyRecoveryCode, List.findIdx?_isSome, any_eq_true, contains_eq_mem, decide_eq_true_eq] at hmatch ⊢
    obtain ⟨digest, hstored, hcandidate⟩ := hmatch
    exact ⟨digest, hstored, h.candidates base code hcandidate⟩
  · exact fun a => h.subjectHash base a.plane a.tenantId a.userId
  · intro b
    rw [Budget.identifier_eq, Budget.identifier_eq]
    exact congrFun (h.identifierHmac base) _
  · intro tenantId email code
    simp only [otpKey, otpFingerprint, hashedIdentifier, env,
      env', before, after, h.identifierHmac, and_self]

/-! ### A token that was signed -/

/-- The times of a token are judged as those of its claims are. -/
theorem validateTemporal_eq {claims : AccessClaims} {opts : VerifyOptions} {now : ℕ}
    (hopts : opts.leewaySecs = 0 ∧ opts.validateExp = true ∧ opts.validateIat = true ∧ opts.now = now)
    (hexp : codec.exp claims = claims.exp) (hiat : codec.iat claims = claims.iat) (hmax : claims.exp ≤ i64Max) :
    Hs256.validateTemporal codec claims opts =
      if claims.exp ≤ now then .error .expired else if now < claims.iat then .error .malformed else .ok () := by
  obtain ⟨hleeway, hvexp, hviat, hnow⟩ := hopts
  have hmax' : (claims.exp : ℤ) ≤ 2 ^ 63 - 1 := by
    unfold i64Max at hmax
    omega
  have hend : saturatingAdd claims.exp 0 = claims.exp := by
    unfold saturatingAdd
    omega
  by_cases hexpired : claims.exp ≤ now
  · simp [Hs256.validateTemporal, hleeway, hvexp, hnow, hexp, hend, hexpired]
  · have hstart : saturatingAdd now 0 = now := by
      unfold saturatingAdd
      omega
    simp [Hs256.validateTemporal, hleeway, hvexp, hviat, hnow, hexp, hiat, hend, hstart, hexpired]

/-- A token that was signed under the secret is verified as its claims are, where no issuer and no audience is
configured. -/
theorem verifyAccessToken_sign {r : ResolvedConfig} {env : Env}
    {claims : AccessClaims} (hrw : codec.read (codec.write claims) = some claims) (hissuer : r.config.issuer = none)
    (haudience : r.config.audience = none) (hexp : codec.exp claims = claims.exp)
    (hiat : codec.iat claims = claims.iat) (hmax : claims.exp ≤ i64Max) :
    verifyAccessToken digests r env codec (sign digests.jws codec claims (textBytes r.config.secret)) =
      verifyAccess env claims := by
  refine congrArg (Act.host .nowUnix >>= ·) (funext fun now => ?_)
  have hverify : r.verifyRotating digests codec now (sign digests.jws codec claims (textBytes r.config.secret)) = _ :=
    verifyRotating_sign hrw
  rw [hverify, validateTemporal_eq ⟨rfl, rfl, rfl, rfl⟩ hexp hiat hmax]
  simp only [validateBinding, hissuer, haudience, BymaxAuth.validateTemporal]
  by_cases hexpired : claims.exp ≤ now
  · simp only [if_pos hexpired]
    rfl
  · by_cases hfuture : now < claims.iat
    · simp only [if_neg hexpired, if_pos hfuture]
      rfl
    · simp only [if_neg hexpired, if_neg hfuture]
      rfl

end Rotation

namespace Demo

/-- Keys that are their own tags, and bytes that are characters beyond the dot. -/
def digests : Digests where
  sha256 := id
  jws := Hs256.Demo.jws

/-- The claims of an access token of the account. -/
def accessClaims : AccessClaims :=
  { sub := "u1", jti := "j1", tenantId := some "t1", role := "MEMBER", status := "active", mfaEnabled := false,
    mfaVerified := false, iat := 0, exp := 900, epoch := 0 }

/-- A codec that knows these claims. -/
def accessCodec : ClaimsCodec AccessClaims where
  write := fun _ => []
  read := fun _ => some accessClaims
  exp := fun claims => claims.exp
  iat := fun claims => claims.iat
  iss := fun _ => none
  aud := fun _ => none

/-- The configuration before a rotation. -/
def unrotated : AuthConfig :=
  { secret := "s1", previousSecrets := [], identifierKey := none, issuer := none, audience := none }

/-- The configuration after it. -/
def rotated : AuthConfig :=
  { secret := "s2", previousSecrets := ["s1"], identifierKey := some "s1", issuer := none, audience := none }

end Demo

open Demo

/-- An access token signed before the rotation is accepted before it and after it, on one reading of the store. -/
theorem rotation_keeps_decisions_signed :
    let before := ResolvedConfig.new digests unrotated
    let after := ResolvedConfig.new digests rotated
    let env := before.env digests (SingleUse.Recovery.Demo.env .token)
    let env' := after.env digests (SingleUse.Recovery.Demo.env .token)
    let token := sign digests.jws accessCodec accessClaims (textBytes "s1")
    unrotated.RotatesTo rotated ∧ Unforged digests unrotated rotated token ∧ ∃ tr,
      Path (verifyAccessToken digests before (env.toEnv.onPlane .dashboard) accessCodec token).run tr
        (.ret (.ok accessClaims)) ∧
      Path (verifyAccessToken digests after (env'.toEnv.onPlane .dashboard) accessCodec token).run tr
        (.ret (.ok accessClaims)) := by
  intro before after env env' token
  have hrotates : unrotated.RotatesTo rotated := ⟨by decide, rfl, rfl, rfl⟩
  have hunforged : Unforged digests unrotated rotated token := by
    intro secret hsecret hnew hsigned
    simp only [rotated, unrotated, mem_cons, not_mem_nil, or_false] at hsecret hnew
    have hs2 : secret = "s2" := hsecret.resolve_right hnew
    subst hs2
    have htags := (signedUnder_sign_iff (textBytes "s2")).mp hsigned
    exact absurd htags (by decide)
  have hsame : verifyAccessToken digests before (env.toEnv.onPlane .dashboard) accessCodec token =
      verifyAccess (env.toEnv.onPlane .dashboard) accessClaims :=
    verifyAccessToken_sign rfl rfl rfl rfl rfl (by decide)
  have hbefore : Path (verifyAccessToken digests before (env.toEnv.onPlane .dashboard) accessCodec token).run
      [⟨.host .nowUnix, (5 : ℕ)⟩, ⟨.account (.existsRv "j1"), false⟩,
        ⟨.account (.getEp ((env.toEnv.onPlane .dashboard).subjectHash (some "t1") "u1")), none⟩]
      (.ret (.ok accessClaims)) := by
    rw [hsame]
    exact .cons (.cons (.cons (.nil _)))
  have hkeeps := @rotation_keeps_decisions digests _ _ hrotates (SingleUse.Recovery.Demo.env .token)
  exact ⟨hrotates, hunforged, _, hbefore, (hkeeps.1 token _ _ _ _ hunforged).mp hbefore⟩

end BymaxAuth
