import BymaxAuth.Session.World

/-!
# The session store

`SessionStore` as `bymax-auth-redis` implements it (`stores/session.rs`, `stores/session_listing.rs`):
every method is a program that issues the atomic units of `BymaxAuth.Session.Scripts` one after the
other. What a method does in several units another handler may run in between.

A record that does not serialize, or a stored one that does not parse, ends the method with the opaque
internal error, as every `RedisStoreError` does.
-/

namespace BymaxAuth

open Concurrency

/-- The engine's errors, as far as the modelled handlers return them. -/
inductive AuthError where
  /-- A backend or serialization failure. -/
  | internal
  /-- The refresh token is neither live nor inside its grace window. -/
  | refreshTokenInvalid
  /-- The token is malformed, mis-signed or names nobody. -/
  | tokenInvalid
  /-- The access token has expired. -/
  | tokenExpired
  /-- The access token was revoked. -/
  | tokenRevoked
  /-- The MFA challenge token is invalid. -/
  | mfaTempTokenInvalid
  /-- No such session of this account. -/
  | sessionNotFound
  /-- Unknown address or wrong password. -/
  | invalidCredentials
  /-- Too many failed logins; the seconds left. -/
  | accountLocked (retryAfterSeconds : ℕ)
  /-- A hook refused. -/
  | forbidden
  /-- The address is not verified. -/
  | emailNotVerified
  | accountBanned
  | accountInactive
  | accountSuspended
  /-- The account awaits approval. -/
  | pendingApproval
  /-- The caller's role does not reach as far as the request does. -/
  | insufficientRole
  /-- The invitation is unknown, spent, or no longer rests on its inviter's authority. -/
  | invalidInvitationToken
  /-- The tenant has an account with this address. -/
  | emailAlreadyExists
  /-- The password is in the breach corpus. -/
  | passwordCompromised
  /-- The reset proof is missing, of the wrong kind, unknown, spent or no longer bound. -/
  | passwordResetTokenInvalid
  /-- The address-change token is unknown, spent or no longer bound. -/
  | emailChangeTokenInvalid
  /-- The code is wrong. -/
  | otpInvalid
  /-- There is no code to compare with. -/
  | otpExpired
  /-- Too many wrong codes. -/
  | otpMaxAttempts
  /-- The session has not cleared its second factor. -/
  | mfaRequired
  /-- No second factor is enrolled, or there is no such account. -/
  | mfaNotEnabled
  /-- A second factor is enrolled. -/
  | mfaAlreadyEnabled
  /-- There is no pending enrolment. -/
  | mfaSetupRequired
  /-- The code is wrong or was used. -/
  | mfaInvalidCode
  /-- Another transition of the second factor is under way. -/
  | mfaStateConflict
  /-- The account has no password, and its last authentication is not recent. -/
  | reauthenticationRequired
  /-- The challenge is not one of this plane. -/
  | platformAuthRequired
  /-- A request that names these fields wrongly, each with its message. -/
  | validation (details : List (String × String))
  deriving DecidableEq

/-- A handler, or a part of one. -/
abbrev Act := ExceptT AuthError (Prog Op.Reply)

namespace Act

/-- A command on the session keys. -/
def session (c : SessionCmd) : Act c.Reply := issue (Op.session c)

/-- A command on the account keys. -/
def account (c : AccountCmd) : Act c.Reply := issue (Op.account c)

/-- A command to the host. -/
def host (c : HostCmd) : Act c.Reply := issue (Op.host c)

/-- A command on the keys of the second factor. -/
def mfa (c : MfaCmd) : Act c.Reply := issue (Op.mfa c)

end Act

variable (env : Env)

/-- `serde_json::to_string(record)?` -/
def encode (record : SessionRecord) : Act Json :=
  match record.toJson env.codec with
  | some json => pure json
  | none => throw .internal

/-- `serde_json::from_str(raw)?` -/
def decode (json : Json) : Act SessionRecord :=
  match SessionRecord.ofJson env.codec json with
  | some record => pure record
  | none => throw .internal

/-- What `create_session` and `create_recovered_session` send. -/
def newSession (subject hash : String) (record : SessionRecord) (json : Json) (ttl : ℕ) : NewSession :=
  { subject, hash, record := json, detail := (SessionDetailValue.atCreation record).toJson,
    family := record.familyId, ttl }

open Act

/-- `create_session` -/
def createSession (subject hash : String) (record : SessionRecord) (ttl : ℕ) : Act Unit := do
  let json ← encode env record
  session (.createSession (newSession subject hash record json ttl))

/-- `create_recovered_session` -/
def createRecoveredSession (subject hash : String) (record : SessionRecord) (ttl : ℕ) : Act Bool := do
  let json ← encode env record
  session (.recoverGrace (newSession subject hash record json ttl))

/-- The parameters of a rotation. -/
structure SessionRotation where
  /-- Hash of the presented refresh token. -/
  oldHash : String
  /-- Hash of the freshly minted one. -/
  newHash : String
  /-- The record bound to it. -/
  newRecord : SessionRecord
  /-- The owner's index suffix. -/
  subjectHash : String
  /-- The refresh TTL in seconds. -/
  refreshTtl : ℕ
  /-- The grace TTL in seconds. -/
  graceTtl : ℕ

/-- What `refresh_rotate` is sent for a rotation. -/
def SessionRotation.command (rotation : SessionRotation) (json : Json) : Rotation :=
  { oldHash := rotation.oldHash, newHash := rotation.newHash, newJson := json,
    refreshTtl := rotation.refreshTtl, graceTtl := rotation.graceTtl,
    family := rotation.newRecord.familyId, subject := rotation.subjectHash }

/-- The outcome of a rotation. -/
inductive RotateOutcome where
  /-- The old token was live and is consumed; the old record. -/
  | rotated (old : SessionRecord)
  /-- The old token was inside its grace window; the recovered record. -/
  | grace (record : SessionRecord)
  /-- The old token was consumed and its grace window has closed. -/
  | reused (family : String)
  /-- None of these. -/
  | invalid

/-- `family_is_alive` -/
def familyIsAlive (record : SessionRecord) : Act Bool :=
  if record.familyId = "" then pure true else session (.existsFam record.familyId)

/-- `rotate` -/
def rotate (rotation : SessionRotation) : Act RotateOutcome := do
  let json ← encode env rotation.newRecord
  match ← session (.refreshRotate (rotation.command json)) with
  | .invalid => pure .invalid
  | .grace recovered =>
    let record ← decode env recovered
    if ← familyIsAlive record then pure (.grace record) else pure .invalid
  | .reused family => pure (.reused family)
  | .rotated old =>
    let oldRecord ← decode env old
    session (.moveSessionDetail rotation.oldHash rotation.newHash
      (SessionDetailValue.atCreation rotation.newRecord).toJson rotation.refreshTtl)
    pure (.rotated oldRecord)

/-- `find_session` -/
def findSession (hash : String) : Act (Option SessionRecord) := do
  match ← session (.getRt hash) with
  | some json => some <$> decode env json
  | none => pure none

/-- The loop of `find_family_owner_inner`: the first member whose record is readable and names an owner. -/
def readOwner : List String → Act (Option SessionRecord)
  | [] => pure none
  | hash :: rest => do
    match ← session (.getRt hash) with
    | none => readOwner rest
    | some raw =>
      match SessionRecord.ofJson env.codec raw with
      | none => readOwner rest
      | some record => if record.userId = "" then readOwner rest else pure (some record)

/-- `find_family_owner` -/
def findFamilyOwner (family : String) : Act (Option SessionRecord) :=
  if family = "" then pure none
  else do readOwner env (← session (.smembersFam family))

/-- `revoke_family` -/
def revokeFamily (family : String) (owner : Option String) : Act Unit :=
  if family = "" then pure () else do discard <| session (.revokeFamily family owner)

/-- `revoke_session` -/
def revokeSession (subject hash : String) : Act Unit := do
  if ← session (.sessionRevoke subject hash) then pure () else throw .sessionNotFound

/-- `delete_grace_pointer` -/
def deleteGracePointer (hash : String) : Act Unit := session (.delRp hash)

/-- `grace_successor`, with `successor_of_pointer`. -/
def graceSuccessor (hash : String) : Act (Option String) := do
  let pointer ← session (.getRp hash)
  pure (pointer.bind fun p => if isHexShape p.1 then some p.1 else none)

/-- The loop of `sweep_grace_pointers_inner`. -/
def sweepMembers (subject : String) : List Member → Act Unit
  | [] => pure ()
  | .live _ :: rest => sweepMembers subject rest
  | .grace hash :: rest => do
    session (.delRp hash)
    session (.sremSess subject (.grace hash))
    sweepMembers subject rest

/-- `sweep_grace_pointers` -/
def sweepGracePointers (subject : String) : Act Unit := do
  sweepMembers subject (← session (.smembersSess subject))

/-- `revoke_all` -/
def revokeAll (subject : String) : Act Unit := do
  discard <| session (.invalidateUserSessions subject)

/-- One live session of an account as the index names it. -/
structure SessionEntry where
  /-- The stored session hash. -/
  sessionHash : String
  /-- The display detail, when the store holds a whole one. -/
  detail : Option SessionDetail

/-- The loop of `list_session_entries_inner`: the entries, and the members that may be dead. -/
def readEntries : List Member → Act (List SessionEntry × List Member)
  | [] => pure ([], [])
  | .grace hash :: rest => do
    let (entries, stale) ← readEntries rest
    pure (entries, .grace hash :: stale)
  | .live hash :: rest => do
    let detail := readDetail hash (← session (.getSd hash))
    let (entries, stale) ← readEntries rest
    pure ({ sessionHash := hash, detail } :: entries, if detail.isNone then .live hash :: stale else stale)

/-- `prune_dead_members` -/
def pruneDeadMembers (subject : String) (members : List Member) : Act (List Member) :=
  if members.isEmpty then pure [] else session (.pruneDead subject members)

/-- `list_session_entries` -/
def listSessionEntries (subject : String) : Act (List SessionEntry) := do
  let (entries, stale) ← readEntries (← session (.smembersSess subject))
  let removed ← pruneDeadMembers subject stale
  pure (entries.filter fun entry => entry.detail.isSome || !removed.contains (.live entry.sessionHash))

/-- `current_epoch` -/
def currentEpoch (subject : String) : Act ℕ := do
  pure ((← account (.getEp subject)).getD 0)

/-- `bump_epoch` -/
def bumpEpoch (subject : String) : Act ℕ := account (.bumpEp subject)

/-- `is_blacklisted` -/
def isBlacklisted (jti : String) : Act Bool := account (.existsRv jti)

/-- `blacklist_access`: a zero TTL is a no-op. -/
def blacklistAccess (jti : String) (ttl : ℕ) : Act Unit :=
  if ttl = 0 then pure () else account (.setRv jti ttl)

end BymaxAuth
