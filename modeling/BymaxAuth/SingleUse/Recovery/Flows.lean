import BymaxAuth.SingleUse.World

/-!
# Password recovery

`services/auth/password_reset.rs` and `services/otp.rs`: a reset is initiated for an address, which sends a
link token or a code; the code may be exchanged for a verified token; `reset_password` takes one of the three
proofs and sets the password. `change_password` sets it for a caller who knows the current one.
`services/auth/email_change.rs`: a caller who knows the password asks for another address, which is sent a
token; `confirm_email_change` takes the token and moves the account to the address.

A stored proof carries a digest of the password hash of the account it was issued for, and `reset_password`
compares it with the account's present one. A code carries none.

The tenant is the one `resolve_tenant` answered with. Left out are the timing floors, the log, the mails
(but for the delivery of a link, whose failure deletes the token) and the detached hooks and notices.
-/

namespace BymaxAuth.SingleUse.Recovery

open Concurrency

variable (env : Env)

/-! ### Constants and digests -/

/-- `VERIFIED_TOKEN_TTL_SECONDS` -/
def verifiedTokenTtlSeconds : ℕ := 300

/-- `RESEND_COOLDOWN_SECS` -/
def resendCooldownSecs : ℕ := 60

/-- `MAX_ATTEMPTS` of the codes. -/
def maxAttempts : ℕ := 5

/-- `hashed_identifier` -/
def hashedIdentifier (tenantId email : String) : String := env.identifierHmac (tenantId ++ ":" ++ email)

/-- `reproof_identifier` -/
def reproofIdentifier (flow userId : String) : String :=
  env.identifierHmac ("reauth:" ++ flow ++ ":" ++ userId)

/-- `password_fingerprint`: empty for an account with no local password. -/
def passwordFingerprint (user : AuthUser) : String := user.passwordHash.elim "" env.sha256

/-- `digest_eq` -/
def digestEq (a b : String) : Bool := env.sha256 a = env.sha256 b

/-- `tenant_scoped` -/
def tenantScoped (user : Option AuthUser) (tenantId : String) : Option AuthUser :=
  user.filter fun candidate => candidate.tenantId = tenantId

/-- The key of an address's reset code. -/
def otpKey (tenantId email : String) : OtpPurpose × String := (.passwordReset, hashedIdentifier env tenantId email)

/-- `OtpService::fingerprint` -/
def otpFingerprint (tenantId email code : String) : String :=
  env.identifierHmac (hashedIdentifier env tenantId email ++ ":" ++ code)

/-- The context of a proof for this account. -/
def contextOf (user : AuthUser) (email tenantId : String) : ResetContext :=
  { userId := user.id, email, tenantId, passwordFingerprint := passwordFingerprint env user }

/-! ### Issuing proofs -/

/-- `send_reset_otp` -/
def sendResetOtp (tenantId email : String) : Act Unit := do
  let otp ← ask (.generateOtp env.otpLength)
  ask (.putOtp (otpKey env tenantId email) (otpFingerprint env tenantId email otp) env.otpTtl)

/-- `send_reset_token`: a link that was not delivered is deleted. -/
def sendResetToken (user : AuthUser) (email tenantId : String) : Act Unit := do
  let raw ← ask .generateSecureToken
  ask (.putProof .token (env.sha256 raw) (contextOf env user email tenantId) env.resetTokenTtl)
  if !(← ask (.sendPasswordResetToken tenantId email raw)) then ask (.deleteToken (env.sha256 raw))

/-- The common part of `initiate_reset_inner` and `resend_reset_otp_inner`: one cooldown, then the account,
and a proof if it may have one. -/
def issueProof (send : AuthUser → Act Unit) (email tenantId : String) : Act Unit := do
  if !(← ask (.tryBeginResend (otpKey env tenantId email) resendCooldownSecs)) then pure ()
  else
    match tenantScoped (← host (.findByEmail email tenantId)) tenantId with
    | none => pure ()
    | some user =>
      match assertNotBlocked user.status env.config.blockedStatuses with
      | some _ => pure ()
      | none => send user

/-- `initiate_reset` -/
def initiateReset (email tenantId : String) : Act Unit :=
  let email := env.normalizeEmail email
  issueProof env (fun user =>
    match env.resetMethod with
    | .otp => sendResetOtp env tenantId email
    | .token => sendResetToken env user email tenantId) email tenantId

/-- `resend_reset_otp` -/
def resendResetOtp (email tenantId : String) : Act Unit :=
  let email := env.normalizeEmail email
  issueProof env (fun _ => sendResetOtp env tenantId email) email tenantId

/-- `OtpService::verify` and `interpret_otp` -/
def verifyOtp (tenantId email otp : String) : Act Unit := do
  let submitted := otpFingerprint env tenantId email otp
  match ← ask (.verifyOtp (otpKey env tenantId email) submitted maxAttempts) with
  | .expired => throw .otpExpired
  | .max => throw .otpMaxAttempts
  | .present stored => if submitted = stored then pure () else throw .otpInvalid

/-- The account a code was verified for. -/
def verifiedAccount (tenantId email : String) : Act AuthUser := do
  match tenantScoped (← host (.findByEmail email tenantId)) tenantId with
  | some user => pure user
  | none => throw .passwordResetTokenInvalid

/-- `verify_reset_otp`: a code for a verified token. -/
def verifyResetOtp (email tenantId otp : String) : Act String := do
  let email := env.normalizeEmail email
  verifyOtp env tenantId email otp
  let user ← verifiedAccount tenantId email
  let raw ← ask .generateSecureToken
  ask (.putProof .verified (env.sha256 raw) (contextOf env user email tenantId) verifiedTokenTtlSeconds)
  pure raw

/-! ### Spending proofs -/

/-- The proof a request carries. -/
inductive Proof where
  /-- A link token. -/
  | token (raw : String)
  /-- A code. -/
  | otp (code : String)
  /-- A verified token. -/
  | verified (raw : String)

/-- What a proof is dispatched to under the configured method. -/
inductive Dispatch where
  /-- `reset_with_stored_proof` -/
  | stored (kind : ProofKind) (raw : String)
  /-- `reset_with_otp` -/
  | otp (code : String)

/-- Exactly one of the three proofs, and one the configured method accepts. -/
def dispatch (method : ResetMethod) (token otp verifiedToken : Option String) : Option Dispatch :=
  let proof := match token, otp, verifiedToken with
    | some raw, none, none => some (Proof.token raw)
    | none, some code, none => some (.otp code)
    | none, none, some raw => some (.verified raw)
    | _, _, _ => none
  match method, proof with
  | .token, some (.token raw) => some (.stored .token raw)
  | .otp, some (.otp code) => some (.otp code)
  | .otp, some (.verified raw) => some (.stored .verified raw)
  | _, _ => none

/-- `assert_proof_still_bound`: a proof with no fingerprint passes. -/
def assertProofStillBound (context : ResetContext) : Act Unit := do
  if context.passwordFingerprint = "" then pure ()
  else
    let user ← host (.findById context.userId (some context.tenantId))
    let current := user.elim "" (passwordFingerprint env)
    if digestEq env current context.passwordFingerprint then pure ()
    else throw .passwordResetTokenInvalid

/-- `reset_with_stored_proof` -/
def resetWithStoredProof (kind : ProofKind) (raw tenantId email newPassword : String) : Act Unit := do
  match ← ask (.consumeProof kind (env.sha256 raw)) with
  | none => throw .passwordResetTokenInvalid
  | some context =>
    if !digestEq env context.email email || !digestEq env context.tenantId tenantId then
      throw .passwordResetTokenInvalid
    assertProofStillBound env context
    lift (applyPasswordReset env.toEnv context.userId context.tenantId newPassword)

/-- `reset_with_otp` -/
def resetWithOtp (otp tenantId email newPassword : String) : Act Unit := do
  verifyOtp env tenantId email otp
  let user ← verifiedAccount tenantId email
  lift (applyPasswordReset env.toEnv user.id tenantId newPassword)

/-- `reset_password` -/
def resetPassword (email tenantId newPassword : String) (token otp verifiedToken : Option String) :
    Act Unit := do
  let email := env.normalizeEmail email
  match dispatch env.resetMethod token otp verifiedToken with
  | none => throw .passwordResetTokenInvalid
  | some dispatch =>
    assertAcceptable env newPassword "newPassword"
    match dispatch with
    | .stored kind raw => resetWithStoredProof env kind raw tenantId email newPassword
    | .otp code => resetWithOtp env code tenantId email newPassword

/-! ### Changing a password -/

/-- `resolve_current_session` -/
def resolveCurrentSession (tenantId userId raw : String) : BymaxAuth.Act String := do
  if !isHexShape raw then throw .sessionNotFound
  resolveLiveSession env.toEnv tenantId userId (env.redisHash raw)

/-- The first half of `end_other_sessions`: whether the sweep that spares `kept` went through. A kept session
that is gone is no failure. -/
def endAllExcept (tenantId userId kept : String) : BymaxAuth.Act Bool :=
  tryCatch (do revokeAllExceptCurrent env.toEnv tenantId userId kept; pure true)
    fun error => if error = .sessionNotFound then pure false else throw error

/-- `end_other_sessions` -/
def endOtherSessions (tenantId userId : String) : Option String → BymaxAuth.Act Unit
  | some kept => do
    if ← endAllExcept env tenantId userId kept then pure ()
    else revokeAllSessions env.toEnv (some tenantId) userId
  | none => revokeAllSessions env.toEnv (some tenantId) userId

/-- The session a change is told to spare. -/
def keptSession (tenantId userId : String) : Option String → BymaxAuth.Act (Option String)
  | some raw => return some (← resolveCurrentSession env tenantId userId raw)
  | none => pure none

/-- The part of `change_password` behind the account's lookup. -/
def changeTo (tenantId userId phc currentPassword newPassword : String) (currentRefresh : Option String) :
    Act Unit := do
  let bfId := reproofIdentifier env "change-password" userId
  lift (assertNotLocked env.toEnv bfId)
  if !env.verifyPassword currentPassword phc then
    discard <| account (.incrLf bfId env.config.lockoutWindow)
    throw .invalidCredentials
  account (.delLf bfId)
  let kept ← lift (keptSession env tenantId userId currentRefresh)
  assertAcceptable env newPassword "newPassword"
  let newHash ← host (.hashPassword newPassword)
  host (.updatePassword userId tenantId newHash)
  lift (endOtherSessions env tenantId userId kept)

/-- `change_password` -/
def changePassword (tenantId userId currentPassword newPassword : String) (currentRefresh : Option String) :
    Act Unit := do
  match (← host (.findById userId (some tenantId))).bind (·.passwordHash) with
  | none => throw .invalidCredentials
  | some phc => changeTo env tenantId userId phc currentPassword newPassword currentRefresh

/-! ### Changing an address -/

/-- `assert_address_is_free` -/
def assertAddressIsFree (user : AuthUser) (newEmail : String) : Act Unit := do
  if env.normalizeEmail user.email = newEmail then throw .emailAlreadyExists
  if (← host (.findByEmail newEmail user.tenantId)).isSome then throw .emailAlreadyExists

/-- `assert_user_not_blocked` -/
def assertUserNotBlocked (user : AuthUser) : Act Unit :=
  match assertNotBlocked user.status env.config.blockedStatuses with
  | some error => throw error
  | none => pure ()

/-- The part of `request_email_change` behind the account's lookup. -/
def requestFor (userId newEmail currentPassword : String) (user : AuthUser) (phc : String) : Act Unit := do
  assertUserNotBlocked env user
  let bfId := reproofIdentifier env "email-change" userId
  lift (assertNotLocked env.toEnv bfId)
  if !env.verifyPassword currentPassword phc then
    discard <| account (.incrLf bfId env.config.lockoutWindow)
    throw .invalidCredentials
  account (.delLf bfId)
  assertAddressIsFree env user newEmail
  let raw ← ask .generateSecureToken
  ask (.putEmailChange (env.sha256 raw)
    { userId, newEmail, tenantId := user.tenantId, passwordFingerprint := passwordFingerprint env user }
    env.emailChangeTtl)
  if !(← ask (.sendEmailChangeVerification user.tenantId newEmail raw)) then throw .internal

/-- `request_email_change` -/
def requestEmailChange (tenantId userId newEmail currentPassword : String) : Act Unit := do
  match ← host (.findById userId (some tenantId)) with
  | none => throw .invalidCredentials
  | some user =>
    match user.passwordHash with
    | none => throw .invalidCredentials
    | some phc => requestFor env userId (env.normalizeEmail newEmail) currentPassword user phc

/-- `assert_still_bound`: a request with no fingerprint passes. -/
def assertStillBound (context : EmailChangeContext) (user : AuthUser) : Act Unit :=
  if context.passwordFingerprint = "" then pure ()
  else if digestEq env context.passwordFingerprint (passwordFingerprint env user) then pure ()
  else throw .emailChangeTokenInvalid

/-- `confirm_email_change` -/
def confirmEmailChange (token : String) : Act Unit := do
  match ← ask (.consumeEmailChange (env.sha256 token)) with
  | none => throw .emailChangeTokenInvalid
  | some context =>
    match ← host (.findById context.userId (some context.tenantId)) with
    | none => throw .emailChangeTokenInvalid
    | some user =>
      assertStillBound env context user
      assertUserNotBlocked env user
      assertAddressIsFree env user context.newEmail
      if !(← ask (.updateEmail context.userId context.tenantId context.newEmail)) then throw .emailAlreadyExists

/-! ### Calls -/

/-- A call of the engine. -/
inductive Call where
  | initiateReset (email tenantId : String)
  | resendResetOtp (email tenantId : String)
  | verifyResetOtp (email tenantId otp : String)
  | resetPassword (email tenantId newPassword : String) (token otp verifiedToken : Option String)
  | changePassword (tenantId userId currentPassword newPassword : String) (currentRefresh : Option String)
  | requestEmailChange (tenantId userId newEmail currentPassword : String)
  | confirmEmailChange (token : String)

/-- What a call is answered with. -/
inductive Answer where
  /-- Nothing to say. -/
  | done
  /-- A verified token. -/
  | verified (raw : String)
  deriving DecidableEq

/-- The handler of a call. -/
def Call.act : Call → Act Answer
  | initiateReset email tenantId => do
    Recovery.initiateReset env email tenantId
    return .done
  | resendResetOtp email tenantId => do
    Recovery.resendResetOtp env email tenantId
    return .done
  | verifyResetOtp email tenantId otp => return .verified (← Recovery.verifyResetOtp env email tenantId otp)
  | resetPassword email tenantId newPassword token otp verifiedToken => do
    Recovery.resetPassword env email tenantId newPassword token otp verifiedToken
    return .done
  | changePassword tenantId userId currentPassword newPassword currentRefresh => do
    Recovery.changePassword env tenantId userId currentPassword newPassword currentRefresh
    return .done
  | requestEmailChange tenantId userId newEmail currentPassword => do
    Recovery.requestEmailChange env tenantId userId newEmail currentPassword
    return .done
  | confirmEmailChange token => do
    Recovery.confirmEmailChange env token
    return .done

/-- A moment of a run. -/
abbrev Snapshot := Concurrency.Config World Reply (Except AuthError Answer)

/-- A deployment, and the calls that are made of it. -/
structure Deployment where
  /-- The surroundings. -/
  env : Env
  /-- The second at which it starts. -/
  now : ℕ
  /-- The accounts it starts with. -/
  users : List AuthUser
  calls : ℕ → Call

namespace Deployment

/-- Nothing was stored, no call was served. -/
def start (D : Deployment) : Snapshot :=
  Concurrency.start (Store.initial D.now D.users, ProofKeys.empty) fun tid => ((D.calls tid).act D.env).run

/-- A run can come to this moment. -/
def Reaches (D : Deployment) (cfg : Snapshot) : Prop := Reach (machine D.env) D.start cfg

end Deployment

end BymaxAuth.SingleUse.Recovery
