import BymaxAuth.Lib.Fresh
import BymaxAuth.Mfa.Scripts
import BymaxAuth.Session.Scripts

/-!
# The engine's surroundings

What a request handler of the engine talks to while it runs: the session store of its plane
(`BymaxAuth.Session.Scripts`), the account keys that decide whether a credential is accepted (the token
epoch `ep:`, the access blacklist `rv:`, the MFA challenge marker `mfa:`, the failed-login counter
`lf:`), the keys of the second factor (`BymaxAuth.Mfa.Scripts`), the host's user repository, the clock and
the random source. All of it is one state, `Store`, and one set of atomic commands, `Op`; `machine` runs any
number of handlers over it.

## The model

* Time is whole seconds, and passes between commands, never during one. Redis expiry is `now < expireAt`.
* The host may change its user table at any moment. What is asked of the table is what
  `UserRepository` asks of it: a lookup answers with an account of the id (or address) and tenant it was
  asked for, and an account's id is not empty (`AuthUser.id_ne`).
* Random values are new: a refresh token's hash was neither minted nor presented before, a UUID, a lock's
  token or a recovery code's digest was not drawn before. A ciphertext decrypts to what was encrypted.
* `arrive` is no store command. It marks the moment a request that presents a refresh token reaches the
  engine, so that the history shows what has been presented. A token that has been minted is presented
  only after its session was stored: until then nobody but the engine has it.
* A store command does not fail. A handler that crashes, or whose connection does, is one that is never
  scheduled again.
-/

namespace BymaxAuth

open Redis Concurrency

/-- The identity domain a store operation targets. -/
inductive SessionKind where
  /-- Dashboard/tenant sessions. -/
  | dashboard
  /-- Platform-admin sessions. -/
  | platform
  deriving DecidableEq

/-- `TOKEN_EPOCH_RETENTION_SECS`: thirty days. -/
def tokenEpochRetentionSecs : ℕ := 30 * 24 * 60 * 60

/-- `MAX_REFRESH_GRACE_WINDOW_SECS`: five minutes. -/
def maxRefreshGraceWindowSecs : ℕ := 300

/-- The part of a validated `AuthConfig` that the session subsystem reads. -/
structure Config where
  /-- `jwt.access_expires_in`, in seconds. -/
  accessTtl : ℕ
  /-- `jwt.refresh_expires_in_days`. -/
  refreshDays : ℕ
  /-- `jwt.refresh_grace_window`, in seconds. -/
  graceTtl : ℕ
  /-- The absolute session lifetime in seconds; zero disables the cap. -/
  absoluteLifetimeSecs : ℕ
  emailVerificationRequired : Bool
  blockedStatuses : List String
  /-- `brute_force.max_attempts` -/
  maxAttempts : ℕ
  /-- `brute_force.window`, in seconds. -/
  lockoutWindow : ℕ
  /-- `sessions.enabled`: whether the concurrent-session cap is enforced. -/
  sessionsEnabled : Bool
  defaultMaxSessions : ℕ
  /-- Rule 3: a refresh lifetime is positive. -/
  refresh_pos : 0 < refreshDays
  /-- Rule 4: the grace window is smaller than the refresh lifetime. -/
  grace_lt : graceTtl < refreshDays * 86400
  /-- … and bounded. -/
  grace_le : graceTtl ≤ maxRefreshGraceWindowSecs
  /-- Rule 4b: an access token does not outlive a token epoch. -/
  access_le : accessTtl ≤ tokenEpochRetentionSecs

/-- The refresh TTL in seconds. -/
def Config.refreshTtl (c : Config) : ℕ := c.refreshDays * 86400

theorem Config.refreshTtl_pos (c : Config) : 0 < c.refreshTtl := by
  have := c.refresh_pos
  unfold Config.refreshTtl
  omega

/-- An account of the host's repository. -/
structure AuthUser where
  /-- The repository id, unique within a tenant. -/
  id : String
  /-- The tenant; not read for a platform admin, who has none. -/
  tenantId : String
  /-- The address. -/
  email : String
  /-- The stored password hash, when the account has a local password. -/
  passwordHash : Option String
  role : String
  /-- The application-defined status. -/
  status : String
  /-- Whether the address is verified. -/
  emailVerified : Bool
  /-- Whether a second factor is enrolled. -/
  mfaEnabled : Bool
  /-- The encrypted secret of the second factor. -/
  mfaSecret : Option String := none
  /-- The digests of its recovery codes. -/
  mfaRecoveryCodes : Option (List String) := none
  /-- An account has an id. -/
  id_ne : id ≠ ""

/-- `UpdateMfaData`: what an account says about its second factor. -/
structure MfaRecord where
  /-- Whether one is enrolled. -/
  mfaEnabled : Bool
  /-- Its encrypted secret. -/
  mfaSecret : Option String
  /-- The digests of its recovery codes. -/
  mfaRecoveryCodes : Option (List String)
  deriving DecidableEq

/-- The part of an account that `update_mfa` replaces. -/
def AuthUser.mfaRecord (user : AuthUser) : MfaRecord :=
  ⟨user.mfaEnabled, user.mfaSecret, user.mfaRecoveryCodes⟩

/-- What the second factor is built over. -/
structure MfaSettings where
  /-- `mfa.encryption_key` -/
  encryptionKey : String
  /-- The encryption keys a rotation has retired. -/
  previousEncryptionKeys : List String
  /-- `aead::decrypt`: the text under a ciphertext and a key. -/
  aeadDecrypt : String → String → Option String
  /-- `totp::encode_secret_base32` -/
  encodeSecretBase32 : String → String
  /-- `totp::decode_secret_base32` -/
  decodeSecretBase32 : String → Option String
  /-- What was encoded decodes. -/
  decode_encode : ∀ secret, decodeSecretBase32 (encodeSecretBase32 secret) = some secret
  /-- `serde_json::to_string` of the recovery codes. -/
  codesToJson : List String → String
  /-- `serde_json::from_slice` of the recovery codes. -/
  codesOfJson : String → Option (List String)
  /-- `totp::provisioning_uri` of a secret and an account's address. -/
  provisioningUri : String → String → String
  /-- `totp::verify` of a secret, a code, a time and a window. -/
  totpVerify : String → String → ℕ → ℕ → Bool
  /-- `mfa.totp_window` -/
  totpWindow : ℕ
  /-- `mfa.recovery_code_count` -/
  recoveryCodeCount : ℕ
  /-- `hmac_sha256` under each identifier key a rotation has retired. -/
  previousIdentifierHmacs : List (String → String)

/-- What the handlers of one plane are built over. -/
structure Env where
  /-- The plane. -/
  kind : SessionKind
  /-- The configuration. -/
  config : Config
  /-- RFC 3339, for the stored records. -/
  codec : Rfc3339
  /-- `RawRefreshToken::redis_hash`: SHA-256, in hex. -/
  redisHash : String → String
  /-- `hmac_sha256(identifier_key, ·)`, in hex. -/
  identifierHmac : String → String
  /-- `sha256` of a token id, in hex. -/
  jtiHash : String → String
  /-- `normalize_session_metadata`: the device label and the bounded IP of a user agent and an IP. -/
  normalizeSessionMetadata : String → String → String × String
  normalizeEmail : String → String
  /-- The password KDF's verification of a password against a stored hash. -/
  verifyPassword : String → String → Bool
  /-- `sessions.max_sessions_resolver`, when the host configured one. -/
  maxSessionsResolver : Option (AuthUser → ℕ)
  /-- The second factor. -/
  mfa : MfaSettings

/-- Everything the handlers share. -/
structure Store where
  /-- Unix seconds. -/
  now : ℕ
  /-- The plane's session keys. -/
  keys : SessionKeys
  /-- `ep:{subject}` / `pep:{subject}`: the token epoch. -/
  ep : Keys String ℕ
  /-- `rv:{jti}`: the access blacklist. -/
  rv : Keys String Unit
  /-- `mfa:{sha256(jti)}`: the MFA challenge marker, the user id. -/
  mfa : Keys String String
  /-- `lf:{identifier}`: the failed-login counter. -/
  lf : Keys String ℕ
  /-- The keys of the second factor. -/
  mfaKeys : MfaKeys
  /-- The host's accounts. -/
  users : List AuthUser

/-- A store in which nothing was written yet. -/
def Store.initial (now : ℕ) (users : List AuthUser) : Store :=
  { now, keys := .empty, ep := fun _ => none, rv := fun _ => none, mfa := fun _ => none,
    lf := fun _ => none, mfaKeys := .empty, users }

/-! ### Commands -/

/-- The commands on the keys that decide whether a credential is accepted. -/
inductive AccountCmd where
  /-- `GET ep:{subject}` -/
  | getEp (subject : String)
  /-- `bump_epoch_inner`: `INCR` and `EXPIRE`, in one `MULTI` block. -/
  | bumpEp (subject : String)
  /-- `EXISTS rv:{jti}` -/
  | existsRv (jti : String)
  /-- `SET rv:{jti} 1 EX ttl` -/
  | setRv (jti : String) (ttl : ℕ)
  /-- `SET mfa:{hash} user EX ttl` -/
  | putTemp (hash user : String) (ttl : ℕ)
  /-- `GET mfa:{hash}` -/
  | getTemp (hash : String)
  /-- `GET lf:{identifier}` -/
  | getLf (identifier : String)
  /-- `TTL lf:{identifier}`, zero for a key that is gone or has none. -/
  | ttlLf (identifier : String)
  /-- `brute_force_incr.lua` -/
  | incrLf (identifier : String) (window : ℕ)
  /-- `DEL lf:{identifier}` -/
  | delLf (identifier : String)

/-- The reply of an account command. -/
abbrev AccountCmd.Reply : AccountCmd → Type
  | getEp _ | getLf _ => Option ℕ
  | bumpEp _ | ttlLf _ | incrLf .. => ℕ
  | existsRv _ => Bool
  | setRv .. | putTemp .. | delLf _ => Unit
  | getTemp _ => Option String

variable (st : Store)

/-- The reply of an account command, and the store after it. -/
def AccountCmd.exec : (c : AccountCmd) → c.Reply × Store
  | getEp subject => (get st.ep st.now subject, st)
  | bumpEp subject =>
    let bumped := incr st.ep st.now subject
    (bumped.1, { st with ep := expire bumped.2 st.now subject tokenEpochRetentionSecs })
  | existsRv jti => (has st.rv st.now jti, st)
  | setRv jti ttl => ((), { st with rv := setEx st.rv st.now jti () ttl })
  | putTemp hash user ttl => ((), { st with mfa := setEx st.mfa st.now hash user ttl })
  | getTemp hash => (get st.mfa st.now hash, st)
  | getLf identifier => (get st.lf st.now identifier, st)
  | ttlLf identifier =>
    (((find st.lf st.now identifier).bind (·.expireAt)).elim 0 (· - st.now), st)
  | incrLf identifier window =>
    let counted := incr st.lf st.now identifier
    -- The window starts at the first failure and never slides.
    let lf := if counted.1 = 1 then expire counted.2 st.now identifier window else counted.2
    (counted.1, { st with lf })
  | delLf identifier => ((), { st with lf := del st.lf identifier })

/-- The commands on the keys of the second factor. -/
inductive MfaCmd where
  /-- `SET mfalock:{lock} token NX EX ttl` -/
  | acquireLock (lockId token : String) (ttl : ℕ)
  /-- `release_lock.lua` -/
  | releaseLock (lockId token : String)
  /-- `SET tu:{replay} 1 NX EX ttl` -/
  | markTotpUsed (replayId : String) (ttl : ℕ)
  /-- `mfa_challenge.lua` -/
  | challengeConsume (replayId jtiHash : String) (ttl : ℕ)
  /-- `DEL mfa:{hash}` -/
  | delTemp (jtiHash : String)
  /-- `SET rcu:{claim} 1 NX EX ttl` -/
  | claimRecoveryCode (claimId : String) (ttl : ℕ)
  /-- `GET mfa_setup:{key}` -/
  | getSetup (key : String)
  /-- `SET mfa_setup:{key} data NX EX ttl` -/
  | putSetupNx (key : String) (data : MfaSetupData) (ttl : ℕ)
  /-- `GETDEL mfa_setup:{key}` -/
  | takeSetup (key : String)

/-- The reply of a command on the keys of the second factor. -/
abbrev MfaCmd.Reply : MfaCmd → Type
  | getSetup _ | takeSetup _ => Option MfaSetupData
  | _ => Bool

/-- The reply of a command on the keys of the second factor, and the store after it. -/
def MfaCmd.exec : (c : MfaCmd) → c.Reply × Store
  | acquireLock lockId token ttl =>
    let taken := setNx st.mfaKeys.lock st.now lockId token ttl
    (taken.1, { st with mfaKeys := { st.mfaKeys with lock := taken.2 } })
  | releaseLock lockId token =>
    let released := BymaxAuth.releaseLock st.now st.mfaKeys.lock lockId token
    (released.1, { st with mfaKeys := { st.mfaKeys with lock := released.2 } })
  | markTotpUsed replayId ttl =>
    let marked := setNx st.mfaKeys.tu st.now replayId () ttl
    (marked.1, { st with mfaKeys := { st.mfaKeys with tu := marked.2 } })
  | challengeConsume replayId jtiHash ttl =>
    let consumed := mfaChallenge st.now st.mfaKeys.tu st.mfa replayId jtiHash ttl
    (consumed.1, { st with mfaKeys := { st.mfaKeys with tu := consumed.2.1 }, mfa := consumed.2.2 })
  | delTemp jtiHash => (has st.mfa st.now jtiHash, { st with mfa := del st.mfa jtiHash })
  | claimRecoveryCode claimId ttl =>
    let claimed := setNx st.mfaKeys.rcu st.now claimId () ttl
    (claimed.1, { st with mfaKeys := { st.mfaKeys with rcu := claimed.2 } })
  | getSetup key => (get st.mfaKeys.setup st.now key, st)
  | putSetupNx key data ttl =>
    let put := setNx st.mfaKeys.setup st.now key data ttl
    (put.1, { st with mfaKeys := { st.mfaKeys with setup := put.2 } })
  | takeSetup key =>
    (get st.mfaKeys.setup st.now key, { st with mfaKeys := { st.mfaKeys with setup := del st.mfaKeys.setup key } })

/-- What a handler asks of the host, the clock and the random source. -/
inductive HostCmd where
  | nowUnix
  /-- `now_offset`, in nanoseconds. -/
  | nowOffset
  /-- `RawRefreshToken::generate` -/
  | generateToken
  /-- `new_uuid_v4` -/
  | newUuid
  /-- A request that presents a refresh token of this hash reaches the engine. -/
  | arrive (hash : String)
  /-- `UserRepository::find_by_id` -/
  | findById (id : String) (tenantId : Option String)
  /-- `UserRepository::find_by_email` -/
  | findByEmail (email tenantId : String)
  /-- `UserRepository::update_password` -/
  | updatePassword (id tenantId hash : String)
  /-- The password KDF, which draws a salt. -/
  | hashPassword (password : String)
  /-- `AuthHooks::before_login`: whether the host lets the login go on. -/
  | beforeLogin (email tenantId : String)
  /-- `PlatformUserRepository::find_by_email` -/
  | findAdminByEmail (email : String)
  /-- `update_mfa`, of the tenant's account or of the administrator. -/
  | updateMfa (id : String) (tenantId : Option String) (data : MfaRecord)
  | hasRecentAuth (subject : String)
  /-- `aead::encrypt`, which draws a nonce. -/
  | encrypt (plaintext : String)
  /-- A TOTP secret, drawn at random. -/
  | generateSecret
  /-- So many recovery codes, drawn at random. -/
  | generateRecoveryCodes (count : ℕ)
  /-- The token of a transition's lock, drawn at random. -/
  | generateLockToken

/-- The reply of a host command. -/
abbrev HostCmd.Reply : HostCmd → Type
  | nowUnix => ℕ
  | nowOffset => ℤ
  | generateToken | newUuid | hashPassword _ | encrypt _ | generateSecret | generateLockToken => String
  | arrive _ | updatePassword .. | updateMfa .. => Unit
  | findById .. | findByEmail .. | findAdminByEmail _ => Option AuthUser
  | beforeLogin .. | hasRecentAuth _ => Bool
  | generateRecoveryCodes _ => List String

/-- What the handlers do not decide: random values, the clock's sub-seconds, how much time passes, and
what the host does to its accounts. -/
structure Input where
  /-- A raw refresh token, or another random text. -/
  raw : String
  uuid : String
  /-- A password hash. -/
  phc : String
  /-- The host's answer to a hook. -/
  accepts : Bool
  /-- Nanoseconds into the second. -/
  nanos : ℕ
  /-- Seconds that pass. -/
  secs : ℕ
  /-- The host's accounts. -/
  users : List AuthUser
  /-- A ciphertext. -/
  wire : String := ""
  /-- Recovery codes. -/
  codes : List String := []

/-- The account with this id, in this tenant if one is named. -/
def Store.findById (id : String) (tenantId : Option String) : Option AuthUser :=
  st.users.find? fun u => u.id = id ∧ (tenantId = none ∨ tenantId = some u.tenantId)

/-- The account with this address in this tenant. -/
def Store.findByEmail (email tenantId : String) : Option AuthUser :=
  st.users.find? fun u => u.email = email ∧ u.tenantId = tenantId

/-- The accounts after a password was written. -/
def Store.updatePassword (id tenantId hash : String) : Store :=
  { st with
    users := st.users.map fun u =>
      if u.id = id ∧ u.tenantId = tenantId then { u with passwordHash := some hash } else u }

/-- The account with this address, of the administrators. -/
def Store.findAdminByEmail (email : String) : Option AuthUser :=
  st.users.find? fun u => u.email = email

/-- The accounts after a second factor was written. -/
def Store.updateMfa (id : String) (tenantId : Option String) (data : MfaRecord) : Store :=
  { st with
    users := st.users.map fun u =>
      if u.id = id ∧ (tenantId = none ∨ tenantId = some u.tenantId) then
        { u with
          mfaEnabled := data.mfaEnabled, mfaSecret := data.mfaSecret,
          mfaRecoveryCodes := data.mfaRecoveryCodes }
      else u }

/-- The reply of a host command, and the store after it. -/
def HostCmd.exec (i : Input) : (c : HostCmd) → c.Reply × Store
  | nowUnix => (st.now, st)
  | nowOffset => ((st.now : ℤ) * 1000000000 + (i.nanos % 1000000000 : ℕ), st)
  | generateToken => (i.raw, st)
  | newUuid => (i.uuid, st)
  | hashPassword _ => (i.phc, st)
  | arrive _ => ((), st)
  | beforeLogin .. => (i.accepts, st)
  | findById id tenantId => (st.findById id tenantId, st)
  | findByEmail email tenantId => (st.findByEmail email tenantId, st)
  | updatePassword id tenantId hash => ((), st.updatePassword id tenantId hash)
  | findAdminByEmail email => (st.findAdminByEmail email, st)
  | updateMfa id tenantId data => ((), st.updateMfa id tenantId data)
  | hasRecentAuth _ => (i.accepts, st)
  | encrypt _ => (i.wire, st)
  | generateSecret => (i.raw, st)
  | generateRecoveryCodes _ => (i.codes, st)
  | generateLockToken => (i.raw, st)

/-- A command. -/
inductive Op where
  /-- On the session keys. -/
  | session (c : SessionCmd)
  /-- On the account keys. -/
  | account (c : AccountCmd)
  | host (c : HostCmd)
  /-- On the keys of the second factor. -/
  | mfa (c : MfaCmd)

/-- The reply of a command. -/
abbrev Op.Reply : Op → Type
  | session c => c.Reply
  | account c => c.Reply
  | host c => c.Reply
  | mfa c => c.Reply

/-- An entry of the history. -/
abbrev Event := Entry Store Op.Reply

/-- An exchange of a handler. -/
abbrev Exchange := Ev Op.Reply

namespace Exchange

/-- The hash of the token an exchange minted. -/
def mints (env : Env) (ev : Exchange) : Option String :=
  match ev with
  | ⟨.host .generateToken, raw⟩ => some (env.redisHash raw)
  | _ => none

variable (ev : Exchange)

/-- The hash under which an exchange meant to store a session. -/
def spends : Option String :=
  match ev with
  | ⟨.session (.createSession s), _⟩ => some s.hash
  | ⟨.session (.refreshRotate a), _⟩ => some a.newHash
  | ⟨.session (.recoverGrace s), _⟩ => some s.hash
  | _ => none

/-- The hash under which an exchange did store one. -/
def stores : Option String :=
  match ev with
  | ⟨.session (.createSession s), _⟩ => some s.hash
  | ⟨.session (.refreshRotate a), .rotated _⟩ => some a.newHash
  | ⟨.session (.recoverGrace s), true⟩ => some s.hash
  | _ => none

/-- The hash an exchange presented. -/
def presents : Option String :=
  match ev with
  | ⟨.host (.arrive hash), _⟩ => some hash
  | _ => none

/-- The UUID an exchange drew. -/
def draws : Option String :=
  match ev with
  | ⟨.host .newUuid, uuid⟩ => some uuid
  | _ => none

/-- The family an exchange opened. -/
def opens : Option String :=
  match ev with
  | ⟨.session (.createSession s), _⟩ => some s.family
  | _ => none

/-- The hash of the UUID an exchange drew, as the name of a challenge. -/
def names (env : Env) (ev : Exchange) : Option String := (draws ev).map env.jtiHash

/-- The hash under which an exchange stored a challenge. -/
def plants : Option String :=
  match ev with
  | ⟨.account (.putTemp hash _ _), _⟩ => some hash
  | _ => none

/-- The token an exchange drew for a transition's lock. -/
def drawsLock : Option String :=
  match ev with
  | ⟨.host .generateLockToken, token⟩ => some token
  | _ => none

/-- The token with which an exchange meant to take a lock. -/
def locks : Option String :=
  match ev with
  | ⟨.mfa (.acquireLock _ token _), _⟩ => some token
  | _ => none

/-- The digests of the recovery codes an exchange drew. -/
def digests (env : Env) (ev : Exchange) : List String :=
  match ev with
  | ⟨.host (.generateRecoveryCodes _), codes⟩ => codes.map env.identifierHmac
  | _ => []

end Exchange

/-- `is_refresh_token_shape` and `is_session_hash`: 64 lower-case hex characters. -/
def isHexShape (s : String) : Bool :=
  s.toList.length = 64 && s.toList.all fun c => c.isDigit || ('a' ≤ c && c ≤ 'f')

open Exchange

/-- Which replies the random source and the clients give. -/
def admits (env : Env) (log : List Event) (e : Event) : Bool :=
  match e with
  | ⟨_, _, .host .generateToken, raw⟩ =>
    isHexShape raw && isHexShape (env.redisHash raw) &&
      !(minted (mints env) log).contains (env.redisHash raw) &&
      !(log.filterMap fun e => presents e.ev).contains (env.redisHash raw)
  | ⟨_, _, .host .newUuid, uuid⟩ => uuid ≠ "" && !(minted draws log).contains uuid
  | ⟨_, _, .host (.arrive hash), _⟩ =>
    (log.filterMap fun e => stores e.ev).contains hash || !(minted (mints env) log).contains hash
  | ⟨_, _, .host .generateLockToken, token⟩ => !(minted drawsLock log).contains token
  | ⟨_, _, .host (.generateRecoveryCodes count), codes⟩ =>
    codes.length = count && decide (codes.map env.identifierHmac).Nodup &&
      codes.all fun code => log.all fun e => !(digests env e.ev).contains (env.identifierHmac code)
  | ⟨_, _, .host (.encrypt plaintext), wire⟩ =>
    env.mfa.aeadDecrypt wire env.mfa.encryptionKey = some plaintext
  | _ => true

/-- The machine the handlers of one plane run on. -/
def machine (env : Env) : Machine Store Input Op.Reply where
  exec st
    | .session c, _ => ((c.exec st.now st.keys).1, { st with keys := (c.exec st.now st.keys).2 })
    | .account c, _ => c.exec st
    | .host c, i => c.exec st i
    | .mfa c, _ => c.exec st
  pass st i := { st with now := st.now + i.secs, users := i.users }
  admits := admits env

/-- A command takes no time. -/
theorem machine_now (env : Env) (st : Store) (c : Op) (i : Input) : ((machine env).exec st c i).2.now = st.now := by
  cases c with
  | session cmd => rfl
  | account cmd => cases cmd <;> rfl
  | host cmd => cases cmd <;> rfl
  | mfa cmd => cases cmd <;> rfl

end BymaxAuth
