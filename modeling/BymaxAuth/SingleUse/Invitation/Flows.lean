import BymaxAuth.Engine.Calls
import BymaxAuth.SingleUse.World

/-!
# Invitations

`services/auth/invitation.rs` and `invitation/supersede.rs` with the store they use
(`stores/single_use.rs`, `lua/claim_invitation_index.lua`).

An invitation is a record under the hash of a token that only the invitee is sent. The issuing side finds
it again through an index, keyed by the tenant and the address, that names the hash. The record and the
index are two keys, written and removed by commands of their own, so three operations keep them together:
`invite` claims the index by compare-and-swap, then writes the record, then confirms that the index still
names it; `accept_invitation` consumes the record, then takes the index; `revoke_invitation` reads the index
and the record, then takes the index, then deletes the record.

The mail that carries the token, its text and the hooks are left out.
-/

namespace BymaxAuth.SingleUse.Invitation

open Concurrency

variable (env : Env)

/-! ### Roles -/

/-- `hierarchy.contains_key(role)` -/
def declares (role : String) : Bool := env.hierarchy.any fun entry => entry.1 = role

/-- `has_role`: the role itself, or one it includes. -/
def hasRole (holder required : String) (hierarchy : List (String × List String)) : Bool :=
  holder = required || (hierarchy.lookup holder).any fun included => included.contains required

/-! ### Superseding -/

/-- `SUPERSEDE_ATTEMPTS` -/
def supersedeAttempts : ℕ := 3

/-- `approve_supersede`: the hash that is pending, once the caller may destroy it. -/
def approveSupersede (inviterRole : String) (key : String × String) : Act (Option String) := do
  match ← ask (.readInvitationIndex key) with
  | none => pure none
  | some pendingHash =>
    match ← ask (.readInvitationByHash pendingHash) with
    | some pending =>
      if !hasRole inviterRole pending.role env.hierarchy then throw .insufficientRole
      pure (some pendingHash)
    | none => pure (some pendingHash)

/-- The attempts of `claim_invitation_slot`. -/
def claimAttempts (inviterRole : String) (key : String × String) (hash : String) : ℕ → Act (Option String)
  | 0 => throw .insufficientRole
  | attempts + 1 => do
    let approved ← approveSupersede env inviterRole key
    if ← ask (.claimInvitationIndex key hash env.invitationTtl approved) then pure approved
    else claimAttempts inviterRole key hash attempts

/-- `claim_invitation_slot` -/
def claimInvitationSlot (inviterRole : String) (key : String × String) (hash : String) :
    Act (Option String) := claimAttempts env inviterRole key hash supersedeAttempts

/-- `confirm_invitation_claim` -/
def confirmInvitationClaim (key : String × String) (hash : String) : Act Unit := do
  if ← ask (.claimInvitationIndex key hash env.invitationTtl (some hash)) then pure ()
  else
    discard <| ask (.deleteInvitationByHash hash)
    throw .insufficientRole

/-! ### The flows -/

/-- The index key of an address: the tenant and `invitee_identifier`. -/
def indexKey (tenantId email : String) : String × String := (tenantId, env.identifierHmac email)

/-- The part of `invite` that displaces what is pending. -/
def supersede : Option String → Act Unit
  | some previous => discard <| ask (.deleteInvitationByHash previous)
  | none => pure ()

/-- The part of `invite` behind the checks of the inviter. -/
def issueInvitation (inviter : AuthUser) (inviterUserId email role tenantId : String) : Act Unit := do
  let raw ← ask .generateSecureToken
  let createdAt ← host .nowOffset
  let key := indexKey env tenantId email
  let hash := env.sha256 raw
  let superseded ← claimInvitationSlot env inviter.role key hash
  supersede superseded
  ask (.putInvitation hash { email, role, tenantId, inviterUserId, createdAt } env.invitationTtl)
  confirmInvitationClaim env key hash

/-- `invite` -/
def invite (inviterUserId email role tenantId : String) : Act Unit := do
  let email := env.normalizeEmail email
  if !declares env role then throw .insufficientRole
  match ← host (.findById inviterUserId (some tenantId)) with
  | none => throw .tokenInvalid
  | some inviter =>
    if inviter.tenantId ≠ tenantId then throw .insufficientRole
    if !hasRole inviter.role role env.hierarchy then throw .insufficientRole
    issueInvitation env inviter inviterUserId email role tenantId

/-- `assert_inviter_still_authorised` -/
def assertInviterStillAuthorised (invitation : StoredInvitation) : Act Unit := do
  let inviter ← host (.findById invitation.inviterUserId (some invitation.tenantId))
  let stillAuthorised := inviter.any fun inviter =>
    (assertNotBlocked inviter.status env.config.blockedStatuses).isNone &&
      inviter.tenantId = invitation.tenantId && hasRole inviter.role invitation.role env.hierarchy
  if !stillAuthorised then throw .invalidInvitationToken

/-- The part of `accept_invitation` behind the index: the account, and a session for it. -/
def provision (invitation : StoredInvitation) (password ip userAgent : String) : Act AuthResult := do
  assertInviterStillAuthorised env invitation
  match ← host (.findByEmail invitation.email invitation.tenantId) with
  | some _ => throw .emailAlreadyExists
  | none =>
    let passwordHash ← host (.hashPassword password)
    match ← ask (.createUser
      { email := invitation.email, passwordHash := some passwordHash, role := invitation.role,
        tenantId := invitation.tenantId, emailVerified := true }) with
    | none => throw .emailAlreadyExists
    | some user => lift (issueSession env.toEnv user ip userAgent false)

/-- `accept_invitation` -/
def acceptInvitation (token password ip userAgent : String) : Act AuthResult := do
  assertAcceptable env password "password"
  match ← ask (.consumeInvitation (env.sha256 token)) with
  | none => throw .invalidInvitationToken
  | some invitation =>
    if invitation.email = "" ∨ invitation.tenantId = "" ∨ !declares env invitation.role then
      throw .invalidInvitationToken
    discard <| ask (.takeInvitationIndex (indexKey env invitation.tenantId invitation.email))
    provision env invitation password ip userAgent

/-- The part of `revoke_invitation` behind the checks of the revoker. -/
def withdraw (revoker : AuthUser) (key : String × String) : Act Bool := do
  match ← ask (.readInvitationIndex key) with
  | none => pure false
  | some hash =>
    let invitation ← ask (.readInvitationByHash hash)
    if invitation.any fun invitation => !hasRole revoker.role invitation.role env.hierarchy then pure false
    else
      discard <| ask (.takeInvitationIndex key)
      ask (.deleteInvitationByHash hash)

/-- `revoke_invitation` -/
def revokeInvitation (revokerUserId email tenantId : String) : Act Bool := do
  let email := env.normalizeEmail email
  match ← host (.findById revokerUserId (some tenantId)) with
  | none => throw .tokenInvalid
  | some revoker =>
    if revoker.tenantId ≠ tenantId then throw .insufficientRole
    match assertNotBlocked revoker.status env.config.blockedStatuses with
    | some error => throw error
    | none => withdraw env revoker (indexKey env tenantId email)

/-! ### Calls -/

/-- A call of the engine. -/
inductive Call where
  | invite (inviterUserId email role tenantId : String)
  /-- `accept_invitation` -/
  | accept (token password ip userAgent : String)
  /-- `revoke_invitation` -/
  | revoke (revokerUserId email tenantId : String)
  /-- Any other call. -/
  | other (flow : Flow)

/-- What a call is answered with. -/
inductive Answer where
  /-- The invitation stands. -/
  | invited
  /-- The account's first session. -/
  | accepted (result : AuthResult)
  /-- Whether there was an invitation to withdraw. -/
  | revoked (removed : Bool)
  /-- Another call's answer. -/
  | other (answer : BymaxAuth.Answer)

/-- The handler of a call. -/
def Call.act : Call → Act Answer
  | invite inviterUserId email role tenantId => do
    Invitation.invite env inviterUserId email role tenantId
    return .invited
  | accept token password ip userAgent => return .accepted (← acceptInvitation env token password ip userAgent)
  | revoke revokerUserId email tenantId => return .revoked (← revokeInvitation env revokerUserId email tenantId)
  | other flow => return .other (← lift (flow.act env.toEnv))

/-- A moment of a run. -/
abbrev Snapshot := Concurrency.Config World Reply (Except AuthError Answer)

/-- A deployment, and the calls that are made of it. -/
structure Deployment where
  /-- The surroundings. -/
  env : Env
  /-- The second at which it starts. -/
  now : ℕ
  /-- The accounts it starts with. -/
  users : List AuthUser
  calls : ℕ → Call

namespace Deployment

/-- Nothing was stored, no call was served. -/
def start (D : Deployment) : Snapshot :=
  Concurrency.start (Store.initial D.now D.users, ProofKeys.empty)
    fun tid => ((D.calls tid).act D.env).run

/-- A run can come to this moment. -/
def Reaches (D : Deployment) (cfg : Snapshot) : Prop := Reach (machine D.env) D.start cfg

end Deployment

end BymaxAuth.SingleUse.Invitation
