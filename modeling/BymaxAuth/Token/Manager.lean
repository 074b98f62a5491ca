import BymaxAuth.Session.Store

/-!
# Issuing, rotating and verifying tokens

`services/token_manager.rs`: the access claims and the refresh session of a login (`issue_tokens`), the
rotation of a presented refresh token with its live, grace and reuse arms (`reissue_tokens`), and the
verification of an access token and of an MFA challenge token.

## The model

A signed token is its claims: the signature is the ideal one, so what verifies under the engine's key is
what the engine signed. Verification is then the temporal check, the blacklist and the epoch.

Most functions of the source exist twice, once for each plane. Here the plane is `env.kind`, and a
function stands for both; what differs between the twins is in the small functions that look at the
plane: the tenant a record, a claim or an account has there, and the dashboard's refusal of a record
that names no tenant.

A call of `now_offset` or `now_unix` reads the clock where the source reads it.
-/

namespace BymaxAuth

open Concurrency Act

/-- `user_subject`: the plane decides the shape, and a tenant is prefixed by its length in bytes. -/
def userSubject (kind : SessionKind) (tenantId : Option String) (userId : String) : String :=
  match kind, tenantId with
  | .dashboard, some tenant =>
    "dashboard:" ++ toString tenant.utf8ByteSize ++ ":" ++ tenant ++ ":" ++ userId
  | .dashboard, none => "dashboard:" ++ userId
  | .platform, _ => "platform:" ++ userId

variable (env : Env)

/-- `session_subject_hash`: the suffix of an account's session index and token epoch. -/
def Env.subjectHash (tenantId : Option String) (userId : String) : String :=
  env.identifierHmac (userSubject env.kind tenantId userId)

/-- The index a record's session belongs to. -/
def Env.ownerIndex (r : SessionRecord) : String := env.subjectHash r.tenantId r.userId

/-- The tenant an account has on this plane. -/
def Env.tenantOf (user : AuthUser) : Option String :=
  match env.kind with
  | .dashboard => some user.tenantId
  | .platform => none

/-! ### Claims -/

/-- The largest `i64`. -/
def i64Max : ℕ := 2 ^ 63 - 1

/-- `now.saturating_add(ttl.min(i64::MAX as u64) as i64)` -/
def expiry (now ttl : ℕ) : ℕ := min (now + min ttl i64Max) i64Max

/-- The claims of an access token. A platform token carries neither tenant nor status. -/
structure AccessClaims where
  /-- The user id. -/
  sub : String
  /-- The token id. -/
  jti : String
  /-- The tenant, on the dashboard plane. -/
  tenantId : Option String
  role : String
  /-- The account status at login; empty on a rotated token. -/
  status : String
  /-- Whether the account has a second factor. -/
  mfaEnabled : Bool
  /-- Whether this session has cleared it. -/
  mfaVerified : Bool
  /-- When the token was issued. -/
  iat : ℕ
  /-- The first second at which it is invalid. -/
  exp : ℕ
  /-- The account's token epoch when the token was signed. -/
  epoch : ℕ
  deriving DecidableEq

/-- The claims of an MFA challenge token. -/
structure MfaTempClaims where
  /-- The user id. -/
  sub : String
  /-- The token id. -/
  jti : String
  /-- The plane. -/
  context : SessionKind
  /-- The tenant, on the dashboard plane. -/
  tenantId : Option String
  /-- The account's token epoch when the token was signed. -/
  epoch : ℕ
  /-- When the token was issued. -/
  iat : ℕ
  /-- The first second at which it is invalid. -/
  exp : ℕ
  deriving DecidableEq

/-- A rotated pair. -/
structure RotatedTokens where
  accessToken : AccessClaims
  /-- The raw refresh token. -/
  refreshToken : String

/-- What a login is answered with. -/
structure AuthResult where
  /-- The account. -/
  user : AuthUser
  accessToken : AccessClaims
  /-- The raw refresh token. -/
  refreshToken : String

/-! ### Records -/

/-- `names_a_tenant` -/
def namesATenant (r : SessionRecord) : Bool := r.tenantId.any (· ≠ "")

/-- Whether a record may rotate on this plane: a dashboard one has to name its tenant. -/
def Env.mayRotate (r : SessionRecord) : Bool :=
  match env.kind with
  | .dashboard => namesATenant r
  | .platform => true

/-- The seed's identity on a new record of this plane: the dashboard carries the tenant, the platform
drops it. The device, the IP and the creation time are the request's. -/
def Env.carry (seed : SessionRecord) (device ip : String) (createdAt : ℤ) : SessionRecord :=
  { seed with
    tenantId := match env.kind with
      | .dashboard => seed.tenantId
      | .platform => none
    device, ip, createdAt }

/-- `identity_record` and `platform_identity_record` -/
def identityRecord (seed : SessionRecord) (ip userAgent : String) : Act SessionRecord := do
  let metadata := env.normalizeSessionMetadata userAgent ip
  let now ← host .nowOffset
  pure (env.carry seed metadata.1 metadata.2 now)

/-- `placeholder_record` -/
def placeholderRecord (ip userAgent : String) : Act SessionRecord := do
  let metadata := env.normalizeSessionMetadata userAgent ip
  let now ← host .nowOffset
  pure { userId := "", tenantId := none, role := "", device := metadata.1, ip := metadata.2,
         createdAt := now, mfaEnabled := false, mfaVerified := false, familyId := "",
         familyCreatedAt := none }

/-- `Duration::whole_seconds`: towards zero. -/
def wholeSeconds (age : ℤ) : ℤ := age.tdiv 1000000000

/-- Whether a record is inside the absolute lifetime at the instant `now`. -/
def Env.withinLifetime (now : ℤ) (bornAt : ℤ) : Bool :=
  !((wholeSeconds (now - bornAt)).natAbs > env.config.absoluteLifetimeSecs && 0 < now - bornAt)

/-- `assert_within_absolute_lifetime` -/
def assertWithinAbsoluteLifetime (record : SessionRecord) : Act Unit :=
  if env.config.absoluteLifetimeSecs = 0 then pure ()
  else match record.familyCreatedAt with
    | none => pure ()
    | some bornAt => do
      let now ← host .nowOffset
      if env.withinLifetime now bornAt then pure () else throw .refreshTokenInvalid

/-! ### Issuing -/

/-- `issue_tokens` and `issue_platform_tokens`. The epoch is read before the session is written. -/
def issueTokens (user : AuthUser) (ip userAgent : String) (mfaVerified : Bool) : Act AuthResult := do
  let refresh ← host .generateToken
  let now ← host .nowUnix
  let subject := env.subjectHash (env.tenantOf user) user.id
  let epoch ← currentEpoch subject
  let jti ← host .newUuid
  let claims : AccessClaims :=
    { sub := user.id, jti, tenantId := env.tenantOf user, role := user.role,
      status := match env.kind with
        | .dashboard => user.status
        | .platform => "",
      mfaEnabled := user.mfaEnabled, mfaVerified, iat := now,
      exp := expiry now env.config.accessTtl, epoch }
  let metadata := env.normalizeSessionMetadata userAgent ip
  let createdAt ← host .nowOffset
  let familyId ← host .newUuid
  let familyCreatedAt ← host .nowOffset
  let record : SessionRecord :=
    { userId := user.id, tenantId := env.tenantOf user, role := user.role, device := metadata.1,
      ip := metadata.2, createdAt, mfaEnabled := user.mfaEnabled, mfaVerified, familyId,
      familyCreatedAt := some familyCreatedAt }
  createSession env subject (env.redisHash refresh) record env.config.refreshTtl
  pure { user, accessToken := claims, refreshToken := refresh }

/-- `rotated_claims` and `rotated_platform_claims` -/
def rotatedClaims (record : SessionRecord) (epoch : ℕ) : Act AccessClaims := do
  let now ← host .nowUnix
  let jti ← host .newUuid
  pure { sub := record.userId, jti,
         tenantId := match env.kind with
          | .dashboard => some (record.tenantId.getD "")
          | .platform => none,
         role := record.role, status := "", mfaEnabled := record.mfaEnabled,
         mfaVerified := record.mfaVerified, iat := now, exp := expiry now env.config.accessTtl, epoch }

/-! ### Rotating -/

/-- The live arm of `reissue_tokens`, after the script: the epoch is read once the successor is stored. -/
def signRotated (subject : String) (record : SessionRecord) (refresh : String) : Act RotatedTokens := do
  let epoch ← currentEpoch subject
  let accessToken ← rotatedClaims env record epoch
  pure { accessToken, refreshToken := refresh }

/-- The grace arm of `reissue_tokens`. -/
def recoverSession (recovered : SessionRecord) (ip userAgent : String) : Act RotatedTokens := do
  -- The check before the script ran against a seed that may have been the placeholder.
  assertWithinAbsoluteLifetime env recovered
  if !env.mayRotate recovered then throw .refreshTokenInvalid
  let fresh ← host .generateToken
  let freshRecord ← identityRecord env recovered ip userAgent
  let subject := env.ownerIndex freshRecord
  if !(← createRecoveredSession env subject (env.redisHash fresh) freshRecord env.config.refreshTtl) then
    throw .refreshTokenInvalid
  signRotated env subject freshRecord fresh

/-- The reuse arm of `reissue_tokens`. -/
def revokeReused (family : String) : Act RotatedTokens := do
  let owner ← findFamilyOwner env family
  revokeFamily family (owner.map env.ownerIndex)
  throw .refreshTokenInvalid

/-- The rotation of `reissue_tokens`, once the seed is known. -/
def rotateSeed (oldHash new : String) (seed : SessionRecord) (ip userAgent : String) :
    Act RotatedTokens := do
  assertWithinAbsoluteLifetime env seed
  let newRecord ← identityRecord env seed ip userAgent
  let subject := env.ownerIndex newRecord
  let outcome ← rotate env
    { oldHash, newHash := env.redisHash new, newRecord, subjectHash := subject,
      refreshTtl := env.config.refreshTtl, graceTtl := env.config.graceTtl }
  match outcome with
  | .rotated _ => signRotated env subject newRecord new
  | .grace recovered => recoverSession env recovered ip userAgent
  | .reused family => revokeReused env family
  | .invalid => throw .refreshTokenInvalid

/-- `reissue_tokens` and `reissue_platform_tokens` -/
def reissueTokens (rawRefresh ip userAgent : String) : Act RotatedTokens := do
  if !isHexShape rawRefresh then throw .refreshTokenInvalid
  let oldHash := env.redisHash rawRefresh
  host (.arrive oldHash)
  let new ← host .generateToken
  match ← findSession env oldHash with
  | some live =>
    -- A record that names no tenant is refused before anything is rotated.
    if !env.mayRotate live then throw .refreshTokenInvalid
    rotateSeed env oldHash new live ip userAgent
  | none =>
    let seed ← placeholderRecord env ip userAgent
    rotateSeed env oldHash new seed ip userAgent

/-! ### Verifying -/

/-- The two failures of the temporal check. -/
inductive JwtError where
  /-- `exp` has passed. -/
  | expired
  /-- Issued in the future. -/
  | malformed

/-- `validate_temporal`, with no leeway: `exp` is the first second at which the token is invalid. -/
def validateTemporal (now iat exp : ℕ) : Except JwtError Unit :=
  if exp ≤ now then .error .expired
  else if now < iat then .error .malformed
  else .ok ()

/-- `map_jwt_error` -/
def mapJwtError : JwtError → AuthError
  | .expired => .tokenExpired
  | .malformed => .tokenInvalid

/-- `verify_access` and `verify_platform_access` -/
def verifyAccess (token : AccessClaims) : Act AccessClaims := do
  let now ← host .nowUnix
  match validateTemporal now token.iat token.exp with
  | .error e => throw (mapJwtError e)
  | .ok () =>
    if ← isBlacklisted token.jti then throw .tokenRevoked
    if token.epoch < (← currentEpoch (env.subjectHash token.tenantId token.sub)) then
      throw .tokenRevoked
    pure token

/-- `reissue_access_with_authority` and `reissue_platform_access_with_authority` -/
def reissueAccessWithAuthority (claims : AccessClaims) (user : AuthUser) : Act AccessClaims := do
  let now ← host .nowUnix
  let epoch ← currentEpoch (env.subjectHash (env.tenantOf user) claims.sub)
  let jti ← host .newUuid
  pure { claims with
    epoch, jti, role := user.role, tenantId := env.tenantOf user, mfaEnabled := user.mfaEnabled,
    iat := now, exp := expiry now env.config.accessTtl }

/-! ### The MFA challenge token -/

/-- `MFA_TEMP_TOKEN_TTL_SECONDS` -/
def mfaTempTokenTtlSeconds : ℕ := 300

/-- `plane_tenant_is_well_formed` -/
def planeTenantIsWellFormed : SessionKind → Option String → Bool
  | .dashboard, some tenant => tenant ≠ ""
  | .platform, none => true
  | _, _ => false

/-- `issue_mfa_temp_token`, with the single-use support wired. -/
def issueMfaTempToken (userId : String) (tenantId : Option String) : Act MfaTempClaims := do
  if !planeTenantIsWellFormed env.kind tenantId then
    throw (.validation [("tenantId",
      "a dashboard MFA challenge requires a non-empty tenantId, and a platform one requires none")])
  let epoch ← currentEpoch (env.subjectHash tenantId userId)
  let now ← host .nowUnix
  let jti ← host .newUuid
  let claims : MfaTempClaims :=
    { sub := userId, jti, context := env.kind, tenantId, epoch, iat := now,
      exp := min (now + mfaTempTokenTtlSeconds) i64Max }
  account (.putTemp (env.jtiHash jti) userId mfaTempTokenTtlSeconds)
  pure claims

/-- `verify_mfa_temp_token`, with the single-use support wired. -/
def verifyMfaTempToken (token : MfaTempClaims) : Act MfaTempClaims := do
  let now ← host .nowUnix
  match validateTemporal now token.iat token.exp with
  | .error _ => throw .mfaTempTokenInvalid
  | .ok () =>
    match ← account (.getTemp (env.jtiHash token.jti)) with
    | none => throw .mfaTempTokenInvalid
    | some storedUser =>
      if storedUser ≠ token.sub then throw .mfaTempTokenInvalid
      if token.epoch < (← currentEpoch (env.subjectHash token.tenantId token.sub)) then
        throw .mfaTempTokenInvalid
      if !planeTenantIsWellFormed token.context token.tenantId then throw .mfaTempTokenInvalid
      pure token

end BymaxAuth
