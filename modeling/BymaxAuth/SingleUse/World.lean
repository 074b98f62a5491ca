import BymaxAuth.Engine.Flows
import BymaxAuth.Lib.Layer

/-!
# Single-use proofs

The short-lived keys beside the engine's sessions: reset proofs, address changes, one-time codes and
invitations (`stores/single_use.rs`, `stores/otp.rs`, `lua/otp_verify.lua`, `lua/claim_invitation_index.lua`),
and what the flows that use them ask of the host: an opaque token, a code, the breach corpus, the delivery of
a mail, a new account, a new address. They stand beside the engine's stores (`BymaxAuth.Lib.Layer`), whose
accounts these flows read and write.

Every key has the time to live the source gives it. An opaque token that is drawn is new, and so is the
text of a password's hash, which carries a random salt. A stored record that does not parse is left out:
every record here was written by the flows.
-/

namespace BymaxAuth.SingleUse

open Redis Concurrency Bool Function

/-! ### Records and keys -/

/-- `ResetContext` -/
structure ResetContext where
  /-- The account. -/
  userId : String
  /-- The address the proof was issued for. -/
  email : String
  tenantId : String
  /-- A digest of the password hash the proof was issued against; empty when the account had none. -/
  passwordFingerprint : String
  deriving DecidableEq

/-- `EmailChangeContext` -/
structure EmailChangeContext where
  /-- The account. -/
  userId : String
  /-- The address it moves to, normalized. -/
  newEmail : String
  tenantId : String
  /-- A digest of the password hash the request was made under. -/
  passwordFingerprint : String
  deriving DecidableEq

/-- `ProofKind`: which keyspace a stored reset proof lives in. -/
inductive ProofKind where
  /-- `pw_reset:`, the link token. -/
  | token
  /-- `pw_vtok:`, the token a code was exchanged for. -/
  | verified
  deriving DecidableEq

/-- `OtpPurpose` -/
inductive OtpPurpose where
  | passwordReset
  /-- The verification of an address. -/
  | emailVerification
  deriving DecidableEq

/-- The hash of an `otp:` key. -/
structure OtpRecord where
  /-- The keyed fingerprint of the code. -/
  code : String
  /-- The wrong guesses so far. -/
  attempts : ℕ

/-- `StoredInvitation` -/
structure StoredInvitation where
  /-- The invited address, normalized. -/
  email : String
  /-- The role the invitee is granted. -/
  role : String
  /-- The tenant the invitee joins. -/
  tenantId : String
  inviterUserId : String
  /-- When it was issued. -/
  createdAt : ℤ
  deriving DecidableEq

/-- `CreateUserData`, as an acceptance fills it in. -/
structure CreateUserData where
  /-- The address. -/
  email : String
  passwordHash : Option String
  role : String
  tenantId : String
  /-- Whether the address counts as verified. -/
  emailVerified : Bool

/-- The single-use keys. -/
structure ProofKeys where
  /-- `pw_reset:{hash}` and `pw_vtok:{hash}` -/
  proofs : ProofKind → Keys String ResetContext
  /-- `ec:{hash}` -/
  ec : Keys String EmailChangeContext
  /-- `otp:{purpose}:{identifier}` -/
  otp : Keys (OtpPurpose × String) OtpRecord
  /-- `resend:{purpose}:{identifier}` -/
  resend : Keys (OtpPurpose × String) Unit
  /-- `inv:{hash}` -/
  inv : Keys String StoredInvitation
  /-- `invidx:{tenantId}:{invitee_hash}`: the hash of the pending invitation. -/
  idx : Keys (String × String) String

/-- Nothing was written yet. -/
def ProofKeys.empty : ProofKeys :=
  { proofs := fun _ _ => none, ec := fun _ => none, otp := fun _ => none, resend := fun _ => none,
    inv := fun _ => none, idx := fun _ => none }

/-- What the handlers read and write. -/
abbrev World := Store × ProofKeys

/-! ### Commands -/

/-- The reply of `otp_verify.lua`. -/
inductive OtpReply where
  /-- No record. -/
  | expired
  /-- The ceiling was reached; the record is consumed. -/
  | max
  /-- The stored code. -/
  | present (code : String)

/-- The commands on the single-use keys, and what else the flows ask for. -/
inductive Cmd where
  /-- `put_token` and `put_verified` -/
  | putProof (kind : ProofKind) (hash : String) (context : ResetContext) (ttl : ℕ)
  /-- `consume_token` and `consume_verified`: `GETDEL`. -/
  | consumeProof (kind : ProofKind) (hash : String)
  | deleteToken (hash : String)
  | putEmailChange (hash : String) (context : EmailChangeContext) (ttl : ℕ)
  /-- `consume_email_change`: `GETDEL`. -/
  | consumeEmailChange (hash : String)
  /-- `HSET`, `HSET` and `EXPIRE`, in one `MULTI` block. -/
  | putOtp (key : OtpPurpose × String) (code : String) (ttl : ℕ)
  /-- `otp_verify.lua` -/
  | verifyOtp (key : OtpPurpose × String) (code : String) (maxAttempts : ℕ)
  /-- `SET resend:{key} 1 EX cooldown NX`; whether it was set. -/
  | tryBeginResend (key : OtpPurpose × String) (cooldown : ℕ)
  /-- `SET inv:{hash} … EX ttl` -/
  | putInvitation (hash : String) (invitation : StoredInvitation) (ttl : ℕ)
  /-- `GETDEL inv:{hash}` -/
  | consumeInvitation (hash : String)
  /-- `claim_invitation_index.lua` -/
  | claimInvitationIndex (key : String × String) (hash : String) (ttl : ℕ) (expected : Option String)
  /-- `GET invidx:{key}` -/
  | readInvitationIndex (key : String × String)
  /-- `GETDEL invidx:{key}` -/
  | takeInvitationIndex (key : String × String)
  /-- `GET inv:{hash}` -/
  | readInvitationByHash (hash : String)
  /-- `DEL inv:{hash}`; whether there was one. -/
  | deleteInvitationByHash (hash : String)
  | generateSecureToken
  /-- `OtpService::generate` -/
  | generateOtp (length : ℕ)
  /-- Whether the breach corpus knows the password. -/
  | isBreached (password : String)
  /-- Whether the mail with a reset link was delivered. -/
  | sendPasswordResetToken (tenantId email raw : String)
  /-- Whether the mail that verifies a new address was delivered. -/
  | sendEmailChangeVerification (tenantId newEmail raw : String)
  /-- `UserRepository::create`; `none` is a conflict. -/
  | createUser (data : CreateUserData)
  /-- `UserRepository::update_email`; `false` is a conflict. -/
  | updateEmail (id tenantId email : String)

/-- The reply of a command. -/
abbrev Cmd.Reply : Cmd → Type
  | putProof .. | deleteToken _ | putEmailChange .. | putOtp .. | putInvitation .. => Unit
  | consumeProof .. => Option ResetContext
  | consumeEmailChange _ => Option EmailChangeContext
  | verifyOtp .. => OtpReply
  | consumeInvitation _ | readInvitationByHash _ => Option StoredInvitation
  | tryBeginResend .. | claimInvitationIndex .. | deleteInvitationByHash _ | isBreached _
  | sendPasswordResetToken .. | sendEmailChangeVerification .. | updateEmail .. => Bool
  | readInvitationIndex _ | takeInvitationIndex _ => Option String
  | generateSecureToken | generateOtp _ => String
  | createUser _ => Option AuthUser

/-- `otp_verify.lua`: the ceiling, the comparison, and the consumption or the count, in one step. A wrong
guess leaves the record's expiry where it is. -/
def otpVerify (m : Keys (OtpPurpose × String) OtpRecord) (now : ℕ) (key : OtpPurpose × String) (code : String)
    (maxAttempts : ℕ) : OtpReply × Keys (OtpPurpose × String) OtpRecord :=
  match find m now key with
  | none => (.expired, m)
  | some cell =>
    if maxAttempts ≤ cell.val.attempts then (.max, del m key)
    else if cell.val.code = code then (.present cell.val.code, del m key)
    else
      (.present cell.val.code,
        update m key (some { cell with val := { cell.val with attempts := cell.val.attempts + 1 } }))

/-- `UserRepository::create`, with the id the repository chooses. -/
def createUser (st : Store) (id : String) (data : CreateUserData) : Option AuthUser × Store :=
  if h : id ≠ "" ∧ (st.findByEmail data.email data.tenantId).isNone = true then
    let user : AuthUser :=
      { id, tenantId := data.tenantId, email := data.email, passwordHash := data.passwordHash,
        role := data.role, status := "pending", emailVerified := data.emailVerified, mfaEnabled := false,
        id_ne := h.1 }
    (some user, { st with users := st.users ++ [user] })
  else (none, st)

/-- `UserRepository::update_email`: no two accounts of a tenant have one address. -/
def updateEmail (st : Store) (id tenantId email : String) : Bool × Store :=
  if (st.findByEmail email tenantId).isSome then (false, st)
  else
    (true, { st with
      users := st.users.map fun u => if u.id = id ∧ u.tenantId = tenantId then { u with email } else u })

/-- The reply of a command, and the world after it. -/
def Cmd.exec (w : World) (c : Cmd) (i : Input) : c.Reply × World :=
  match c with
  | putProof kind hash context ttl =>
    ((), w.1, { w.2 with
      proofs := update w.2.proofs kind (setEx (w.2.proofs kind) w.1.now hash context ttl) })
  | consumeProof kind hash =>
    (get (w.2.proofs kind) w.1.now hash, w.1,
      { w.2 with proofs := update w.2.proofs kind (del (w.2.proofs kind) hash) })
  | deleteToken hash =>
    ((), w.1, { w.2 with proofs := update w.2.proofs .token (del (w.2.proofs .token) hash) })
  | putEmailChange hash context ttl => ((), w.1, { w.2 with ec := setEx w.2.ec w.1.now hash context ttl })
  | consumeEmailChange hash => (get w.2.ec w.1.now hash, w.1, { w.2 with ec := del w.2.ec hash })
  | putOtp key code ttl => ((), w.1, { w.2 with otp := setEx w.2.otp w.1.now key ⟨code, 0⟩ ttl })
  | verifyOtp key code maxAttempts =>
    ((otpVerify w.2.otp w.1.now key code maxAttempts).1, w.1,
      { w.2 with otp := (otpVerify w.2.otp w.1.now key code maxAttempts).2 })
  | tryBeginResend key cooldown =>
    if has w.2.resend w.1.now key then (false, w)
    else (true, w.1, { w.2 with resend := setEx w.2.resend w.1.now key () cooldown })
  | putInvitation hash invitation ttl =>
    ((), w.1, { w.2 with inv := setEx w.2.inv w.1.now hash invitation ttl })
  | consumeInvitation hash => (get w.2.inv w.1.now hash, w.1, { w.2 with inv := del w.2.inv hash })
  | claimInvitationIndex key hash ttl expected =>
    if (get w.2.idx w.1.now key).getD "" ≠ expected.getD "" then (false, w)
    else (true, w.1, { w.2 with idx := setEx w.2.idx w.1.now key hash ttl })
  | readInvitationIndex key => (get w.2.idx w.1.now key, w)
  | takeInvitationIndex key => (get w.2.idx w.1.now key, w.1, { w.2 with idx := del w.2.idx key })
  | readInvitationByHash hash => (get w.2.inv w.1.now hash, w)
  | deleteInvitationByHash hash => (has w.2.inv w.1.now hash, w.1, { w.2 with inv := del w.2.inv hash })
  | generateSecureToken => (i.raw, w)
  | generateOtp _ => (i.raw, w)
  | isBreached _ => (!i.accepts, w)
  | sendPasswordResetToken .. => (i.accepts, w)
  | sendEmailChangeVerification .. => (i.accepts, w)
  | createUser data =>
    ((SingleUse.createUser w.1 i.uuid data).1, (SingleUse.createUser w.1 i.uuid data).2, w.2)
  | updateEmail id tenantId email =>
    ((SingleUse.updateEmail w.1 id tenantId email).1, (SingleUse.updateEmail w.1 id tenantId email).2, w.2)

/-- The replies of both families. -/
abbrev Reply := Beside Op.Reply Cmd.Reply

/-- An entry of the history. -/
abbrev Event := Entry World Reply

/-- An exchange of a handler. -/
abbrev Exchange := Ev Reply

/-- The exchanges of a handler. -/
abbrev Trace := List Exchange

/-! ### The machine -/

/-- `ResetMethod` -/
inductive ResetMethod where
  /-- A link with an opaque token. -/
  | token
  /-- A numeric code. -/
  | otp
  deriving DecidableEq

/-- What the flows are built over, beside the engine's own surroundings. -/
structure Env extends BymaxAuth.Env where
  /-- SHA-256, in hex. -/
  sha256 : String → String
  /-- `roles.hierarchy`: the roles each role includes. -/
  hierarchy : List (String × List String)
  /-- `invitations.token_ttl`, in seconds. -/
  invitationTtl : ℕ
  /-- `password.min_length` -/
  minLength : ℕ
  /-- `password_reset.method` -/
  resetMethod : ResetMethod
  /-- `password_reset.token_ttl`, in seconds. -/
  resetTokenTtl : ℕ
  /-- `password_reset.otp_length` -/
  otpLength : ℕ
  /-- `password_reset.otp_ttl`, in seconds. -/
  otpTtl : ℕ
  /-- `email_change.token_ttl`, in seconds. -/
  emailChangeTtl : ℕ

/-- The hash of the opaque token an exchange drew. -/
def mints (env : Env) (ev : Exchange) : Option String :=
  match ev with
  | ⟨.inr .generateSecureToken, raw⟩ => some (env.sha256 raw)
  | _ => none

/-- The password hash an exchange derived. -/
def derives (ev : Exchange) : Option String :=
  match ev with
  | ⟨.inl (.host (.hashPassword _)), phc⟩ => some phc
  | _ => none

/-- An opaque token that is drawn is new, its hash is no empty text, and a password hash is new. -/
def admits (env : Env) (log : List Event) (e : Event) : Bool :=
  ((mints env e.ev).all fun hash => hash ≠ "" && !(minted (mints env) log).contains hash) &&
    (derives e.ev).all fun phc => !(minted derives log).contains phc

/-- The machine the handlers run on. -/
def machine (env : Env) : Machine World Input Reply :=
  (BymaxAuth.machine env.toEnv).beside Cmd.exec (admits env)

/-- A handler, or a part of one. -/
abbrev Act := ExceptT AuthError (Prog Reply)

/-- A command on the single-use keys. -/
def ask (c : Cmd) : Act c.Reply := issue (Sum.inr c : Op ⊕ Cmd)

/-- A command to the host. -/
def host (c : HostCmd) : Act c.Reply := issue (Sum.inl (.host c) : Op ⊕ Cmd)

/-- A command on the account keys. -/
def account (c : AccountCmd) : Act c.Reply := issue (Sum.inl (.account c) : Op ⊕ Cmd)

/-- `assert_acceptable`: the length first, then the breach corpus. -/
def assertAcceptable (env : Env) (password field : String) : Act Unit := do
  if password.length < env.minLength then
    throw (.validation [(field, s!"{field} must be at least {env.minLength} characters")])
  if ← ask (.isBreached password) then throw .passwordCompromised

/-! ### One step -/

section Step

variable {env : Env} {α : Type} {log : List Event} {e : Event} {c d : Concurrency.Config World Reply α}

/-- An opaque token that is drawn is new. -/
theorem mint_new (ha : (machine env).admits log e = true) {hash : String} (hm : mints env e.ev = some hash) :
    hash ≠ "" ∧ hash ∉ minted (mints env) log := by
  have ha : (_ && admits env log e) = true := ha
  rw [and_eq_true, admits, and_eq_true] at ha
  simpa [hm] using ha.2.1

/-- A password hash that is derived is new. -/
theorem derive_new (ha : (machine env).admits log e = true) {phc : String} (hm : derives e.ev = some phc) :
    phc ∉ minted derives log := by
  have ha : (_ && admits env log e) = true := ha
  rw [and_eq_true, admits, and_eq_true] at ha
  simpa [hm] using ha.2.2

/-- A command takes no time. -/
theorem exec_now (env : Env) (w : World) (c : Op ⊕ Cmd) (i : Input) :
    ((machine env).exec w c i).2.1.now = w.1.now := by
  cases c with
  | inl cmd => exact machine_now env.toEnv w.1 cmd i
  | inr cmd =>
    show (Cmd.exec w cmd i).2.1.now = w.1.now
    cases cmd with
    | tryBeginResend | claimInvitationIndex => rw [Cmd.exec]; split_ifs <;> rfl
    | createUser data =>
      show (SingleUse.createUser w.1 i.uuid data).2.now = w.1.now
      unfold SingleUse.createUser
      split_ifs <;> rfl
    | updateEmail id tenantId email =>
      show (SingleUse.updateEmail w.1 id tenantId email).2.now = w.1.now
      unfold SingleUse.updateEmail
      split_ifs <;> rfl
    | _ => rfl

/-- The clock stands still at an entry. -/
theorem moment_now (hm : Moment (machine env) log e c d) : d.st.1.now = c.st.1.now := by
  obtain ⟨i, hi⟩ := hm.exec
  rw [hm.st₁, ← exec_now env e.pre e.op i, hi]

end Step

end BymaxAuth.SingleUse
