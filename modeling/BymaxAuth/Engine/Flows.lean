import BymaxAuth.Token.Manager
import Mathlib.Data.List.Sort

/-!
# The engine's session flows

The operations of the engine that create, rotate, list or end sessions: `login` on both planes and the session cap,
`refresh` on both planes, `revoke_all_sessions`, `apply_password_reset`, the session service's
`revoke_session`, `resolve_live_session` and `revoke_all_except_current`, and `logout`
(`services/auth/login.rs`, `session_ops.rs`, `password_reset.rs`, `services/session.rs`,
`services/platform.rs`).

Left out are the parts that read or write nothing these flows depend on: log lines, detached hooks and
mails, the timing floor and the sentinel verification of an unknown address, the recent-authentication
marker. A detached rehash of a password is a write of the host's, which may come at any moment.
-/

namespace BymaxAuth

open Concurrency Act

variable (env : Env)

/-! ### The account gates -/

/-- `to_ascii_lowercase` -/
def asciiLower (s : String) : String := String.ofList (s.toList.map Char.toLower)

/-- `assert_not_blocked`: `none` lets the account pass. -/
def assertNotBlocked (status : String) (blockedStatuses : List String) : Option AuthError :=
  if !blockedStatuses.any (fun blocked => asciiLower blocked = asciiLower status) then none
  else some <|
    if asciiLower status = "banned" then .accountBanned
    else if asciiLower status = "inactive" then .accountInactive
    else if asciiLower status = "suspended" then .accountSuspended
    else if asciiLower status = "pending" ∨ asciiLower status = "pending_approval" then .pendingApproval
    else .accountInactive

/-! ### Ending sessions -/

/-- `revoke_all_sessions` and `revoke_all_platform_sessions`: the sweep, then the epoch. -/
def revokeAllSessions (tenantId : Option String) (userId : String) : Act Unit := do
  let subject := env.subjectHash tenantId userId
  revokeAll subject
  discard <| bumpEpoch subject

/-- `resolve_live_session` -/
def resolveLiveSession (tenantId userId presentedHash : String) : Act String := do
  if !isHexShape presentedHash then throw .sessionNotFound
  let entries ← listSessionEntries (env.subjectHash (some tenantId) userId)
  let isLive := fun hash => entries.any fun entry => entry.sessionHash = hash
  if isLive presentedHash then pure presentedHash
  else
    match ← graceSuccessor presentedHash with
    | some successor => if isLive successor then pure successor else throw .sessionNotFound
    | none => throw .sessionNotFound

/-- The loop of `revoke_all_except_current`: a victim that is already gone is not a failure. -/
def revokeOthers (subject kept : String) : List SessionEntry → Act Unit
  | [] => pure ()
  | entry :: rest =>
    if entry.sessionHash = kept then revokeOthers subject kept rest
    else do
      discard <| session (.sessionRevoke subject entry.sessionHash)
      revokeOthers subject kept rest

/-- `revoke_all_except_current` -/
def revokeAllExceptCurrent (tenantId userId currentHash : String) : Act Unit := do
  let kept ← resolveLiveSession env tenantId userId currentHash
  let subject := env.subjectHash (some tenantId) userId
  let sessions ← listSessionEntries subject
  revokeOthers subject kept sessions
  sweepGracePointers subject
  discard <| bumpEpoch subject

/-- `SessionService::revoke_session` -/
def revokeSessionOf (tenantId userId sessionHash : String) : Act Unit := do
  if !isHexShape sessionHash then throw .sessionNotFound
  revokeSession (env.subjectHash (some tenantId) userId) sessionHash

/-- The owner a logout reads from the session the presented token names. -/
def logoutOwner : Option String → Act (Option SessionRecord)
  | some hash => findSession env hash
  | none => pure none

/-- The access half of `logout`: the token whose signature verified, if one did, is blacklisted for its
residual lifetime. -/
def revokeLogoutAccess : Option AccessClaims → Act Unit
  | some claims => do
    let now ← host .nowUnix
    blacklistAccess claims.jti (claims.exp - now)
  | none => pure ()

/-- `revoke_logout_session`: a session that is already gone is not a failure. -/
def revokeLogoutSession (owner : Option SessionRecord) : Option String → Act Unit
  | some hash => do
    let subject := env.subjectHash (owner.bind (·.tenantId)) (owner.elim "" (·.userId))
    discard <| session (.sessionRevoke subject hash)
    deleteGracePointer hash
  | none => pure ()

/-- `logout` -/
def logout (access : Option AccessClaims) (rawRefresh : String) : Act Unit := do
  let sessionHash := if isHexShape rawRefresh then some (env.redisHash rawRefresh) else none
  let owner ← logoutOwner env sessionHash
  revokeLogoutAccess access
  revokeLogoutSession env owner sessionHash

/-! ### Login -/

/-- `resolve_session_limit` -/
def resolveSessionLimit (tenantId : Option String) (userId : String) : Act ℕ :=
  match env.maxSessionsResolver with
  | none => pure env.config.defaultMaxSessions
  | some resolver => do
    match ← host (.findById userId tenantId) with
    | some user => pure (resolver user)
    | none => pure env.config.defaultMaxSessions

/-- Oldest first, a session with no readable detail before every other. -/
def olderThan (a b : SessionEntry) : Bool :=
  match a.detail, b.detail with
  | none, _ => true
  | some _, none => false
  | some x, some y => x.createdAt ≤ y.createdAt

/-- The evictions of `enforce_session_limit`. -/
def evict (subject : String) : List SessionEntry → Act Unit
  | [] => pure ()
  | victim :: rest => do
    discard <| session (.sessionRevoke subject victim.sessionHash)
    evict subject rest

/-- `enforce_session_limit` -/
def enforceSessionLimit (tenantId : Option String) (userId newHash : String) : Act Unit := do
  let subject := env.subjectHash tenantId userId
  let sessions ← listSessionEntries subject
  let limit := max (← resolveSessionLimit env tenantId userId) 1
  let overBy := sessions.length - limit
  let oldestFirst := sessions.insertionSort (olderThan · ·)
  evict subject ((oldestFirst.filter fun entry => entry.sessionHash ≠ newHash).take overBy)

/-- `issue_tokens`, then `enforce_sessions_after_issue`; the platform plane has no session cap. -/
def issueSession (user : AuthUser) (ip userAgent : String) (mfaVerified : Bool) : Act AuthResult := do
  let result ← issueTokens env user ip userAgent mfaVerified
  if env.kind = .dashboard && env.config.sessionsEnabled then
    enforceSessionLimit env (env.tenantOf user) user.id (env.redisHash result.refreshToken)
  pure result

/-- `lockout_identifier` -/
def lockoutIdentifier (tenantId email : String) : String :=
  env.identifierHmac ("dashboard:" ++ tenantId ++ ":" ++ email)

/-- `assert_not_locked` -/
def assertNotLocked (identifier : String) : Act Unit := do
  if env.config.maxAttempts ≤ (← account (.getLf identifier)).getD 0 then
    throw (.accountLocked (← account (.ttlLf identifier)))

/-- `record_failure_and_reject` -/
def recordFailureAndReject {α : Type} (identifier : String) : Act α := do
  discard <| account (.incrLf identifier env.config.lockoutWindow)
  throw .invalidCredentials

/-- `LoginResult` -/
inductive LoginResult where
  /-- A full session. -/
  | success (result : AuthResult)
  /-- A challenge for the second factor. -/
  | mfaChallenge (token : MfaTempClaims)

/-- The part of `login` behind the password check. -/
def admitUser (identifier : String) (user : AuthUser) (ip userAgent : String) : Act LoginResult := do
  match assertNotBlocked user.status env.config.blockedStatuses with
  | some error => throw error
  | none =>
    if env.config.emailVerificationRequired && !user.emailVerified then throw .emailNotVerified
    account (.delLf identifier)
    if user.mfaEnabled then
      return .mfaChallenge (← issueMfaTempToken env user.id (some user.tenantId))
    return .success (← issueSession env user ip userAgent false)

/-- `login`, after `resolve_tenant`. -/
def login (email password tenantId ip userAgent : String) : Act LoginResult := do
  let email := env.normalizeEmail email
  let identifier := lockoutIdentifier env tenantId email
  assertNotLocked env identifier
  if !(← host (.beforeLogin email tenantId)) then throw .forbidden
  match ← host (.findByEmail email tenantId) with
  | none => recordFailureAndReject env identifier
  | some user =>
    if user.tenantId ≠ tenantId then recordFailureAndReject env identifier
    else match user.passwordHash with
      | none => recordFailureAndReject env identifier
      | some phc =>
        if env.verifyPassword password phc then admitUser env identifier user ip userAgent
        else recordFailureAndReject env identifier

/-- `brute_force_identifier` -/
def platformLockoutIdentifier (email : String) : String := env.identifierHmac ("platform:" ++ email)

/-- The part of the platform's login behind the password check: there is no address gate. -/
def admitAdmin (identifier : String) (admin : AuthUser) (ip userAgent : String) : Act LoginResult := do
  match assertNotBlocked admin.status env.config.blockedStatuses with
  | some error => throw error
  | none =>
    account (.delLf identifier)
    if admin.mfaEnabled then
      return .mfaChallenge (← issueMfaTempToken env admin.id none)
    return .success (← issueSession env admin ip userAgent false)

/-- `PlatformAuthService::login`. An administrator has a password; an account without one is refused. -/
def platformLogin (email password ip userAgent : String) : Act LoginResult := do
  let email := env.normalizeEmail email
  let identifier := platformLockoutIdentifier env email
  assertNotLocked env identifier
  match ← host (.findAdminByEmail email) with
  | none => recordFailureAndReject env identifier
  | some admin =>
    match admin.passwordHash with
    | none => recordFailureAndReject env identifier
    | some phc =>
      if env.verifyPassword password phc then admitAdmin env identifier admin ip userAgent
      else recordFailureAndReject env identifier

/-- `apply_password_reset`: the hash is written before the sessions are swept and the epoch bumped. -/
def applyPasswordReset (userId tenantId newPassword : String) : Act Unit := do
  let newHash ← host (.hashPassword newPassword)
  host (.updatePassword userId tenantId newHash)
  let subject := env.subjectHash (some tenantId) userId
  revokeAll subject
  discard <| bumpEpoch subject

/-! ### Refresh -/

/-- The end of `refresh`: the access token is signed again only when a claim differs. -/
def restamp (rotated : RotatedTokens) (claims : AccessClaims) (user : AuthUser) : Act RotatedTokens := do
  if claims.role = user.role ∧ claims.mfaEnabled = user.mfaEnabled then pure rotated
  else
    let accessToken ← reissueAccessWithAuthority env claims user
    pure { accessToken, refreshToken := rotated.refreshToken }

/-- The account gates of `refresh`. The account is read in the tenant the rotated token names; one that is
gone or blocked loses every session it has. -/
def accountGates (rotated : RotatedTokens) (claims : AccessClaims) : Act RotatedTokens := do
  match ← host (.findById claims.sub claims.tenantId) with
  | none =>
    revokeAllSessions env claims.tenantId claims.sub
    throw .tokenInvalid
  | some user =>
    match assertNotBlocked user.status env.config.blockedStatuses with
    | some error =>
      revokeAllSessions env (some user.tenantId) claims.sub
      throw error
    | none =>
      -- Refused, but not compensated.
      if env.config.emailVerificationRequired && !user.emailVerified then throw .emailNotVerified
      restamp env rotated claims user

/-- `AuthEngine::refresh`: the account gates run after the rotation. -/
def refresh (oldRefresh ip userAgent : String) : Act RotatedTokens := do
  let rotated ← reissueTokens env oldRefresh ip userAgent
  let claims ← verifyAccess env rotated.accessToken
  accountGates env rotated claims

/-- The account gates of `PlatformAuthService::refresh`: no tenant and no address gate. -/
def platformGates (rotated : RotatedTokens) (claims : AccessClaims) : Act RotatedTokens := do
  match ← host (.findById claims.sub none) with
  | none =>
    revokeAllSessions env none claims.sub
    throw .refreshTokenInvalid
  | some admin =>
    match assertNotBlocked admin.status env.config.blockedStatuses with
    | some error =>
      revokeAllSessions env none admin.id
      throw error
    | none => restamp env rotated claims admin

/-- `PlatformAuthService::refresh` -/
def platformRefresh (oldRefresh ip userAgent : String) : Act RotatedTokens := do
  let rotated ← reissueTokens env oldRefresh ip userAgent
  let claims ← verifyAccess env rotated.accessToken
  platformGates env rotated claims

end BymaxAuth
