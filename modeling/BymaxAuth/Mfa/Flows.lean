import BymaxAuth.Engine.Flows
import BymaxAuth.Lib.Fault

/-!
# The second factor

`services/mfa/`: enrolment in two steps (`setup`, `verify_and_enable`), removal (`disable`, `reset_mfa`), new
recovery codes (`regenerate_recovery_codes`), and the challenge that stands between a password and a session.

An account's second factor is one record of the host's, which is replaced as a whole. Every write of it is a
transition: the account's lock is taken, the record is read again, `mutate` says what to write in its place or
to leave it, and the lock is released whatever happened. The lock is a key with a deadline; it does not stop a
holder that is late.

## The model

The plane is `env.kind`, as everywhere. A function stands for its dashboard and its platform twin, and the
tenant of an account on the plane is `env.tenantOf`. The view of an account the source takes is the account. A
challenge token of the other plane belongs to the other plane's deployment and is refused here.

`reset_mfa` and the transition it shares with the others are written for a store that may fail
(`Concurrency.Faulty`); a transition of any other call runs on one that does not.

Left out are the notices and hooks, with the addresses they carry, and the texts of the log.
-/

namespace BymaxAuth

open Concurrency Act

/-- `MFA_SETUP_TTL_SECONDS` -/
def mfaSetupTtlSeconds : ℕ := 600

/-- `TOTP_STEP_SECONDS` -/
def totpStepSeconds : ℕ := 30

/-- `MAX_VERIFY_WINDOW` -/
def maxVerifyWindow : ℕ := 2

/-- `RECOVERY_CODE_CLAIM_TTL_SECONDS` -/
def recoveryCodeClaimTtlSeconds : ℕ := 300

/-- `MFA_TRANSITION_LOCK_TTL_SECONDS` -/
def mfaTransitionLockTtlSeconds : ℕ := 10

variable (env : Env)

/-! ### Identifiers -/

/-- `replay_id`: the suffix of a code's `tu:` and `rcu:` markers. -/
def Env.replayId (tenantId : Option String) (userId code : String) : String :=
  env.identifierHmac (userSubject env.kind tenantId userId ++ ":" ++ code)

/-- `challenge_bf_id` -/
def Env.challengeBfId (tenantId : Option String) (userId : String) : String :=
  env.identifierHmac ("challenge:" ++ userSubject env.kind tenantId userId)

/-- `disable_bf_id` -/
def Env.disableBfId (tenantId : Option String) (userId : String) : String :=
  env.identifierHmac ("disable:" ++ userSubject env.kind tenantId userId)

/-- `reauth_bf_id` -/
def Env.reauthBfId (tenantId : Option String) (userId : String) : String :=
  env.identifierHmac ("reauth:" ++ userSubject env.kind tenantId userId)

/-- `setup_key` -/
def Env.setupKey (tenantId : Option String) (userId : String) : String := env.subjectHash tenantId userId

/-- `mfa_lock_id` -/
def Env.mfaLockId (tenantId : Option String) (userId : String) : String := env.subjectHash tenantId userId

/-- `anti_replay_ttl_seconds` -/
def Env.antiReplayTtlSeconds : ℕ := (2 * min env.mfa.totpWindow maxVerifyWindow + 1) * totpStepSeconds

/-- `recovery_code_candidates` -/
def Env.recoveryCodeCandidates (code : String) : List String :=
  env.identifierHmac code :: env.mfa.previousIdentifierHmacs.map fun hmac => hmac code

/-! ### Secrets and codes -/

/-- `decrypt_with_rotation`: the text, and whether a retired key gave it. -/
def MfaSettings.decryptWithRotation (mfa : MfaSettings) (wire : String) : Option (String × Bool) :=
  match mfa.aeadDecrypt wire mfa.encryptionKey with
  | some plaintext => some (plaintext, false)
  | none => (mfa.previousEncryptionKeys.findSome? (mfa.aeadDecrypt wire)).map fun plaintext => (plaintext, true)

/-- `decrypt_secret_with_rotation` -/
def MfaSettings.decryptSecretWithRotation (mfa : MfaSettings) (wire : String) : Option (String × Bool) :=
  (mfa.decryptWithRotation wire).bind fun opened =>
    (mfa.decodeSecretBase32 opened.1).map fun secret => (secret, opened.2)

/-- `decrypt_secret` -/
def MfaSettings.decryptSecret (mfa : MfaSettings) (wire : String) : Option String :=
  (mfa.decryptSecretWithRotation wire).map Prod.fst

/-- `holds_challenged_secret` -/
def Env.holdsChallengedSecret (current : AuthUser) (challenged : String) : Bool :=
  current.mfaEnabled && (current.mfaSecret.bind env.mfa.decryptSecret == some challenged)

/-- `verify_recovery_code`: the first stored digest that is a candidate. -/
def verifyRecoveryCode (storedDigests candidates : List String) : Option ℕ :=
  storedDigests.findIdx? fun digest => candidates.contains digest

/-- `is_totp_code` -/
def isTotpCode (code : String) : Bool := code.toList.length = 6 && code.toList.all Char.isDigit

/-- `verify_totp_with_anti_replay` -/
def verifyTotpWithAntiReplay (tenantId : Option String) (userId secret code : String) : Act Bool := do
  let now ← host .nowUnix
  if !env.mfa.totpVerify secret code now env.mfa.totpWindow then pure false
  else mfa (.markTotpUsed (env.replayId tenantId userId code) env.antiReplayTtlSeconds)

/-! ### Transitions -/

/-- A handler over a store that may fail. -/
abbrev Try (α : Type) : Type := Faulty Op.Reply AuthError α

/-- A command to a store or to the host's repository, whose failure is an internal error. -/
def Try.call (c : Op) : Try c.Reply := Faulty.call .internal c

/-- `require_plane_tenant`: `none` lets the call pass. -/
def Env.requirePlaneTenant (tenantId : Option String) : Option AuthError :=
  if planeTenantIsWellFormed env.kind tenantId then none
  else some <| .validation [("tenantId",
    "a dashboard MFA operation requires a non-empty tenantId, and a platform one requires none")]

/-- `fetch_user_mfa` -/
def fetchUserMfa (userId : String) (tenantId : Option String) : Try AuthUser := do
  match ← Try.call (.host (.findById userId tenantId)) with
  | none => throw .mfaNotEnabled
  | some user =>
    match assertNotBlocked user.status env.config.blockedStatuses with
    | some error => throw error
    | none => pure user

/-- `transition_locked`, with `persist_mfa`: whether the record was replaced. -/
def transitionLocked (userId : String) (tenantId : Option String) (mutate : AuthUser → Option MfaRecord) :
    Try Bool := do
  let current ← fetchUserMfa env userId tenantId
  match mutate current with
  | none => pure false
  | some data =>
    Try.call (.host (.updateMfa userId tenantId data))
    pure true

/-- `transition_mfa_record` -/
def transitionMfaRecord (userId : String) (tenantId : Option String) (mutate : AuthUser → Option MfaRecord) :
    Try Bool := do
  let lockId := env.mfaLockId tenantId userId
  let lockToken ← Faulty.ask (.host .generateLockToken)
  if !(← Try.call (.mfa (.acquireLock lockId lockToken mfaTransitionLockTtlSeconds))) then
    throw .mfaStateConflict
  let outcome ← (transitionLocked env userId tenantId mutate).settle
  discard <| Try.call (.mfa (.releaseLock lockId lockToken))
  match outcome with
  | .ok replaced => pure replaced
  | .error error => throw error

/-- A part on stores that do not fail. -/
def reliably {α : Type} (x : Try α) : Act α := x.under []

/-! ### Enrolment -/

/-- `MfaSetupResult` -/
structure MfaSetupResult where
  /-- The secret, in Base32. -/
  secret : String
  /-- The provisioning URI. -/
  qrCodeUri : String
  recoveryCodes : List String

/-- `assert_reauthenticated` -/
def assertReauthenticated (tenantId : Option String) (userId : String) (passwordHash password : Option String) :
    Act Unit :=
  match passwordHash with
  | none => do
    if !(← host (.hasRecentAuth (env.subjectHash tenantId userId))) then throw .reauthenticationRequired
  | some hash => do
    let bfId := env.reauthBfId tenantId userId
    assertNotLocked env bfId
    if env.verifyPassword (password.getD "") hash then account (.delLf bfId)
    else recordFailureAndReject env bfId

/-- `generate_setup_material` -/
def generateSetupMaterial : Act (String × List String × MfaSetupData) := do
  let rawSecret ← host .generateSecret
  let plainCodes ← host (.generateRecoveryCodes env.mfa.recoveryCodeCount)
  let encryptedSecret ← host (.encrypt (env.mfa.encodeSecretBase32 rawSecret))
  let encryptedPlainCodes ← host (.encrypt (env.mfa.codesToJson plainCodes))
  pure (rawSecret, plainCodes,
    { encryptedSecret, hashedCodes := plainCodes.map env.identifierHmac, encryptedPlainCodes })

/-- `build_setup_result` -/
def buildSetupResult (email rawSecret : String) (recoveryCodes : List String) : MfaSetupResult :=
  { secret := env.mfa.encodeSecretBase32 rawSecret, qrCodeUri := env.mfa.provisioningUri rawSecret email,
    recoveryCodes }

/-- `setup_result_from_record` -/
def setupResultFromRecord (email : String) (data : MfaSetupData) : Act MfaSetupResult :=
  match env.mfa.decryptSecret data.encryptedSecret,
    ((env.mfa.decryptWithRotation data.encryptedPlainCodes).bind fun opened => env.mfa.codesOfJson opened.1) with
  | some rawSecret, some recoveryCodes => pure (buildSetupResult env email rawSecret recoveryCodes)
  | _, _ => throw .internal

/-- `setup`, once the caller has proved who they are. -/
def pendingSetup (userId : String) (tenantId : Option String) (email : String) : Act MfaSetupResult := do
  let key := env.setupKey tenantId userId
  match ← mfa (.getSetup key) with
  | some existing => setupResultFromRecord env email existing
  | none =>
    let (rawSecret, plainCodes, data) ← generateSetupMaterial env
    if ← mfa (.putSetupNx key data mfaSetupTtlSeconds) then
      pure (buildSetupResult env email rawSecret plainCodes)
    else
      match ← mfa (.getSetup key) with
      | some existing => setupResultFromRecord env email existing
      | none => throw .internal

/-- `setup` -/
def setup (userId : String) (tenantId : Option String) (password : Option String) : Act MfaSetupResult :=
  match env.requirePlaneTenant tenantId with
  | some error => throw error
  | none => do
    let view ← reliably (fetchUserMfa env userId tenantId)
    if view.mfaEnabled then throw .mfaAlreadyEnabled
    else
      assertReauthenticated env tenantId userId view.passwordHash password
      pendingSetup env userId tenantId view.email

/-- The record an enrolment writes. -/
def enrolled (data : MfaSetupData) : MfaRecord := ⟨true, some data.encryptedSecret, some data.hashedCodes⟩

/-- `verify_and_enable`, once the account was read. -/
def enableFactor (userId code : String) (tenantId : Option String) : Act Unit := do
  let key := env.setupKey tenantId userId
  match ← mfa (.getSetup key) with
  | none => throw .mfaSetupRequired
  | some data =>
    match env.mfa.decryptSecret data.encryptedSecret with
    | none => throw .mfaSetupRequired
    | some rawSecret =>
      if ← verifyTotpWithAntiReplay env tenantId userId rawSecret code then
        match ← mfa (.takeSetup key) with
        | none => throw .mfaSetupRequired
        | some _ =>
          -- What was taken is not looked at: the record written is the one that was read.
          discard <| reliably (transitionMfaRecord env userId tenantId fun _ => some (enrolled data))
          revokeAllSessions env tenantId userId
      else throw .mfaInvalidCode

/-- `verify_and_enable` -/
def verifyAndEnable (userId code : String) (tenantId : Option String) : Act Unit :=
  match env.requirePlaneTenant tenantId with
  | some error => throw error
  | none => do
    let view ← reliably (fetchUserMfa env userId tenantId)
    if view.mfaEnabled then throw .mfaAlreadyEnabled
    else enableFactor env userId code tenantId

/-! ### Management -/

/-- The record of an account without a second factor. -/
def cleared : MfaRecord := ⟨false, none, none⟩

/-- `reauth_gate` -/
def reauthGate (tenantId : Option String) (userId code : String) (view : AuthUser) : Act Unit :=
  if !view.mfaEnabled then throw .mfaNotEnabled
  else do
    let bfId := env.disableBfId tenantId userId
    assertNotLocked env bfId
    match view.mfaSecret.bind env.mfa.decryptSecret with
    | none => throw .tokenInvalid
    | some rawSecret =>
      if ← verifyTotpWithAntiReplay env tenantId userId rawSecret code then account (.delLf bfId)
      else
        discard <| account (.incrLf bfId env.config.lockoutWindow)
        throw .mfaInvalidCode

/-- `disable` -/
def disable (userId code : String) (tenantId : Option String) : Act Unit :=
  match env.requirePlaneTenant tenantId with
  | some error => throw error
  | none => do
    let view ← reliably (fetchUserMfa env userId tenantId)
    reauthGate env tenantId userId code view
    discard <| reliably (transitionMfaRecord env userId tenantId fun _ => some cleared)
    revokeAllSessions env tenantId userId

/-- `reset_mfa` -/
def resetMfa (userId : String) (tenantId : Option String) : Try Unit :=
  match env.requirePlaneTenant tenantId with
  | some error => throw error
  | none => do
    let view ← fetchUserMfa env userId tenantId
    if !view.mfaEnabled then pure ()
    else
      discard <| transitionMfaRecord env userId tenantId fun _ => some cleared
      let subject := env.subjectHash tenantId userId
      discard <| Try.call (.session (.invalidateUserSessions subject))
      discard <| Try.call (.account (.bumpEp subject))

/-- What `regenerate_recovery_codes` writes: the stored secret with the new digests, while there is a factor. -/
def regenerated (hashed : List String) (current : AuthUser) : Option MfaRecord :=
  if !current.mfaEnabled then none
  else current.mfaSecret.map fun secret => ⟨true, some secret, some hashed⟩

/-- `regenerate_recovery_codes` -/
def regenerateRecoveryCodes (userId code : String) (tenantId : Option String) : Act (List String) :=
  match env.requirePlaneTenant tenantId with
  | some error => throw error
  | none => do
    let view ← reliably (fetchUserMfa env userId tenantId)
    reauthGate env tenantId userId code view
    let plainCodes ← host (.generateRecoveryCodes env.mfa.recoveryCodeCount)
    let hashed := plainCodes.map env.identifierHmac
    if ← reliably (transitionMfaRecord env userId tenantId (regenerated hashed)) then pure plainCodes
    else throw .mfaNotEnabled

/-! ### The challenge -/

/-- `reject_code` -/
def rejectCode {α : Type} (bfId : String) : Act α := do
  discard <| account (.incrLf bfId env.config.lockoutWindow)
  throw .mfaInvalidCode

/-- `accept_totp` -/
def acceptTotp (token : MfaTempClaims) (rawSecret code : String) : Act Bool := do
  let now ← host .nowUnix
  if !env.mfa.totpVerify rawSecret code now env.mfa.totpWindow then pure false
  else mfa (.challengeConsume (env.replayId token.tenantId token.sub code) (env.jtiHash token.jti)
    env.antiReplayTtlSeconds)

/-- `accept_recovery_code` and `claim_matched_recovery_code` -/
def acceptRecoveryCode (user : AuthUser) (code : String) : Act (Option ℕ) := do
  match verifyRecoveryCode (user.mfaRecoveryCodes.getD []) (env.recoveryCodeCandidates code) with
  | none => pure none
  | some index =>
    if ← mfa (.claimRecoveryCode (env.replayId (env.tenantOf user) user.id code)
        recoveryCodeClaimTtlSeconds) then pure (some index)
    else pure none

/-- The code check of a challenge: the recovery code that was spent, if it was one. -/
def acceptCode (token : MfaTempClaims) (user : AuthUser) (rawSecret code bfId : String) : Act (Option ℕ) := do
  if isTotpCode code then
    if ← acceptTotp env token rawSecret code then pure none
    else rejectCode env bfId
  else
    match ← acceptRecoveryCode env user code with
    | none => rejectCode env bfId
    | some index =>
      -- The consume has to win.
      if ← mfa (.delTemp (env.jtiHash token.jti)) then pure (some index)
      else throw .mfaTempTokenInvalid

/-- What `splice_recovery_code` writes: the digest that was spent is found again by its value. -/
def Env.spliced (rawSecret storedSecret : String) (spent : Option String) (current : AuthUser) : Option MfaRecord :=
  if !env.holdsChallengedSecret current rawSecret then none
  else
    let codes := current.mfaRecoveryCodes.getD []
    (spent.bind fun digest => codes.findIdx? (· = digest)).map fun live =>
      ⟨true, some storedSecret, some (codes.eraseIdx live)⟩

/-- What a challenge writes for a secret that opened under a retired key. -/
def Env.rewritten (rawSecret storedSecret : String) (current : AuthUser) : Option MfaRecord :=
  if !env.holdsChallengedSecret current rawSecret then none
  else some ⟨true, some storedSecret, current.mfaRecoveryCodes⟩

/-- `reencrypt_secret` -/
def reencryptSecret (rawSecret : String) : Act String :=
  host (.encrypt (env.mfa.encodeSecretBase32 rawSecret))

/-- The secret a challenge writes back: one that opened under a retired key is encrypted again. -/
def secretToStore (encryptedSecret rawSecret : String) (underRetiredKey : Bool) : Act String :=
  if underRetiredKey then reencryptSecret env rawSecret else pure encryptedSecret

/-- The writes of a challenge that has passed. -/
def recordChallenge (user : AuthUser) (encryptedSecret rawSecret : String) (underRetiredKey : Bool)
    (recoveryIndex : Option ℕ) : Act Unit := do
  let storedSecret ← secretToStore env encryptedSecret rawSecret underRetiredKey
  match recoveryIndex with
  | some index =>
    let spent := (user.mfaRecoveryCodes.getD [])[index]?
    discard <| reliably (transitionMfaRecord env user.id (env.tenantOf user)
      (env.spliced rawSecret storedSecret spent))
  | none =>
    if underRetiredKey then
      discard <| reliably (transitionMfaRecord env user.id (env.tenantOf user)
        (env.rewritten rawSecret storedSecret))

/-- `challenge_dashboard` and `challenge_platform` from the account that was read to the session. -/
def challengeUser (token : MfaTempClaims) (user : AuthUser) (code : String) : Act Unit :=
  match assertNotBlocked user.status env.config.blockedStatuses with
  | some error => throw error
  | none =>
    match user.mfaSecret.filter fun _ => user.mfaEnabled with
    | none => throw .mfaNotEnabled
    | some encryptedSecret =>
      match env.mfa.decryptSecretWithRotation encryptedSecret with
      | none => throw .tokenInvalid
      | some (rawSecret, underRetiredKey) => do
        let bfId := env.challengeBfId token.tenantId token.sub
        let recoveryIndex ← acceptCode env token user rawSecret code bfId
        account (.delLf bfId)
        recordChallenge env user encryptedSecret rawSecret underRetiredKey recoveryIndex

/-- A challenge up to its session: the account that passed it. -/
def passChallenge (expected : Option SessionKind) (token : MfaTempClaims) (code : String) : Act AuthUser := do
  let verified ← verifyMfaTempToken env token
  if expected.any (· ≠ verified.context) then throw .platformAuthRequired
  else if verified.context ≠ env.kind then throw .mfaNotEnabled
  else
    assertNotLocked env (env.challengeBfId verified.tenantId verified.sub)
    -- The account that was answered has to be one of the tenant that was asked for.
    match (← host (.findById verified.sub verified.tenantId)).filter
        fun candidate => env.tenantOf candidate = verified.tenantId with
    | none => throw .mfaNotEnabled
    | some user =>
      challengeUser env verified user code
      pure user

/-- `challenge` and `challenge_platform_only` -/
def challenge (expected : Option SessionKind) (token : MfaTempClaims) (code ip userAgent : String) :
    Act AuthResult := do
  let user ← passChallenge env expected token code
  issueSession env user ip userAgent true

/-! ### Calls -/

/-- A call of the second factor's service. -/
inductive MfaCall where
  | setup (userId : String) (tenantId : Option String) (password : Option String)
  | verifyAndEnable (userId code : String) (tenantId : Option String)
  | disable (userId code : String) (tenantId : Option String)
  /-- `reset_mfa`, while the stores fail as the pattern says. -/
  | resetMfa (userId : String) (tenantId : Option String) (faults : List Fault)
  | regenerateRecoveryCodes (userId code : String) (tenantId : Option String)
  /-- `challenge`, for any plane or for one. -/
  | challenge (expected : Option SessionKind) (token : MfaTempClaims) (code ip userAgent : String)

/-- What such a call is answered with. -/
inductive MfaAnswer where
  /-- Nothing to say. -/
  | done
  /-- What an enrolment needs. -/
  | setup (result : MfaSetupResult)
  /-- New recovery codes. -/
  | codes (plainCodes : List String)
  /-- A new session. -/
  | session (result : AuthResult)

/-- The handler of a call. -/
def MfaCall.act : MfaCall → Act MfaAnswer
  | setup userId tenantId password => return .setup (← BymaxAuth.setup env userId tenantId password)
  | verifyAndEnable userId code tenantId => do
    BymaxAuth.verifyAndEnable env userId code tenantId
    return .done
  | disable userId code tenantId => do
    BymaxAuth.disable env userId code tenantId
    return .done
  | resetMfa userId tenantId faults => do
    (BymaxAuth.resetMfa env userId tenantId).under faults
    return .done
  | regenerateRecoveryCodes userId code tenantId =>
    return .codes (← BymaxAuth.regenerateRecoveryCodes env userId code tenantId)
  | challenge expected token code ip userAgent =>
    return .session (← BymaxAuth.challenge env expected token code ip userAgent)

end BymaxAuth
