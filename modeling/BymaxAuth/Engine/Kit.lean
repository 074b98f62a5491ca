import BymaxAuth.Mfa.Flows

/-!
# What the flows are put together from

Much of what is said about a flow is said of every command it issues: that it may be issued wherever it stands, that it
touches no session, that it writes in one tenant only. Such a statement is passed from the parts of a flow to the flow in
the same way whatever it says, so the flows are gone through here once.

## The model

A `Kit` is a condition on parts of handlers that holds of what asks for nothing, of a single command with `P`, and of two
parts in sequence if it holds of both; a part may fail, but not with the invalid code. The commands that nearly every
condition lets pass have names: `Tally` for the account's counters and markers, `Plain` for those and the session keys,
`Timed` for those and what is drawn or read off the clock.
-/

namespace BymaxAuth

open Concurrency

/-- A failure other than the invalid code. -/
abbrev NotInvalid (e : AuthError) : Prop := e ≠ .mfaInvalidCode

/-- A condition on parts of handlers that goes from the parts of a part to the part. -/
structure Kit (P : Op → Prop) (C : {α : Type} → Act α → Prop) : Prop where
  /-- What asks for nothing. -/
  pure {α : Type} (a : α) : C (pure a : Act α)
  /-- What fails. -/
  throw {α : Type} {e : AuthError} : NotInvalid e → C (throw e : Act α)
  /-- One command. -/
  issue {c : Op} : P c → C (issue c : Act c.Reply)
  /-- A part, and the rest. -/
  bind {α β : Type} {x : Act α} {f : α → Act β} : C x → (∀ a, C (f a)) → C (x >>= f)

/-- A command on the account's counters and markers that neither counts a failure nor stores a challenge. -/
def Tally : Op → Prop
  | .account (.putTemp ..) => False
  | .account (.incrLf ..) => False
  | .account _ => True
  | _ => False

/-- Such a command, or one on the session keys that stores no session, revokes no family and takes nothing but a grace
pointer out of an index. -/
def Plain : Op → Prop
  | .session (.createSession _) => False
  | .session (.refreshRotate _) => False
  | .session (.recoverGrace _) => False
  | .session (.revokeFamily ..) => False
  | .session (.sremSess _ m) => ∃ hash, m = .grace hash
  | .session _ => True
  | c => Tally c

/-- Such a command, or a look at the clock, or a draw. -/
def Timed : Op → Prop
  | .host .nowUnix => True
  | .host .nowOffset => True
  | .host .newUuid => True
  | .host .generateToken => True
  | .host (.arrive _) => True
  | c => Plain c

theorem Tally.plain {c : Op} (h : Tally c) : Plain c := by
  cases c with
  | account c => exact h
  | _ => exact absurd h id

theorem Plain.timed {c : Op} (h : Plain c) : Timed c := by
  cases c with
  | host c => exact absurd h id
  | _ => exact h

theorem assertNotBlocked_ne {status : String} {blocked : List String} {error : AuthError}
    (h : assertNotBlocked status blocked = some error) : NotInvalid error := by
  unfold assertNotBlocked at h
  split_ifs at h <;> cases h <;> exact nofun

/-- What a handler issues is a kit. -/
theorem Kit.only {P : Op → Prop} : Kit P fun x => Only P x :=
  ⟨Only.pure, fun _ => Only.throw _, Only.issue, Only.bind⟩

/-- So is that together with what it fails with. -/
theorem Kit.within {P : Op → Prop} : Kit P fun x => Within P NotInvalid x :=
  ⟨Within.pure, Within.throw, Within.issue, Within.bind⟩

namespace Kit

variable {P : Op → Prop} {C : {α : Type} → Act α → Prop} {α β : Type}

theorem ite (_ : Kit P C) {p : Prop} [Decidable p] {x y : Act α} (hx : C x) (hy : C y) : C (if p then x else y) := by
  split
  · exact hx
  · exact hy

theorem map (K : Kit P C) {x : Act α} {f : α → β} (hx : C x) : C (f <$> x) := K.bind hx fun a => K.pure (f a)

/-- A command, and the rest. -/
theorem step (K : Kit P C) {c : Op} {f : c.Reply → Act α} (hc : P c) (hf : ∀ r, C (f r)) :
    C ((Concurrency.issue c : Act c.Reply) >>= f) := K.bind (K.issue hc) hf

/-- A check that may fail, and the rest. -/
theorem guard (K : Kit P C) {p : Prop} [Decidable p] {e : AuthError} {x : Act α} (he : NotInvalid e) (hx : C x) :
    C (if p then (MonadExcept.throw e : Act PUnit) >>= fun _ => x else x) := K.ite (K.bind (K.throw he) fun _ => hx) hx

end Kit

variable {env : Env} {P : Op → Prop} {C : {α : Type} → Act α → Prop} {α : Type} (K : Kit P C)

include K

theorem kit_encode (r : SessionRecord) : C (encode env r) := by
  unfold encode
  split
  · exact K.pure _
  · exact K.throw nofun

theorem kit_decode (json : Json) : C (decode env json) := by
  unfold decode
  split
  · exact K.pure _
  · exact K.throw nofun

/-! ### Counters and markers -/

section Tally

variable (hP : ∀ c, Tally c → P c)

include hP

theorem kit_currentEpoch (subject : String) : C (currentEpoch subject) :=
  K.step (hP _ trivial) fun _ => K.pure _

theorem kit_assertNotLocked (identifier : String) : C (assertNotLocked env identifier) :=
  K.step (hP _ trivial) fun _ => K.ite (K.step (hP _ trivial) fun _ => K.throw nofun) (K.pure _)

theorem kit_verifyMfaTempToken (hnow : P (.host .nowUnix)) (token : MfaTempClaims) :
    C (verifyMfaTempToken env token) := by
  refine K.step hnow fun now => ?_
  split
  · exact K.throw nofun
  · refine K.step (hP _ trivial) fun stored => ?_
    split
    · exact K.throw nofun
    · refine K.guard nofun (K.bind (kit_currentEpoch K hP _) fun epoch => ?_)
      exact K.guard nofun (K.guard nofun (K.pure _))

end Tally

section Codes

variable {token : MfaTempClaims} {tenantId : Option String} {userId rawSecret code : String}
  (hcount : ∀ identifier window, P (.account (.incrLf identifier window)))

include hcount

theorem kit_recordFailureAndReject (identifier : String) : C (recordFailureAndReject env identifier : Act α) :=
  K.bind (K.map (K.issue (hcount _ _))) fun _ => K.throw nofun

-- A part that finds a code invalid has to be let say so.
variable (hinvalid : ∀ {β : Type}, C (throw .mfaInvalidCode : Act β))

include hinvalid

theorem kit_rejectCode (bfId : String) : C (rejectCode env bfId : Act α) :=
  K.bind (K.map (K.issue (hcount _ _))) fun _ => hinvalid

theorem kit_acceptCode (hclaim : ∀ key, P (.mfa (.claimRecoveryCode key recoveryCodeClaimTtlSeconds)))
    (hdel : ∀ hash, P (.mfa (.delTemp hash))) (htotp : C (acceptTotp env token rawSecret code)) (user : AuthUser)
    (bfId : String) : C (acceptCode env token user rawSecret code bfId) := by
  have hreject : C (rejectCode env bfId : Act (Option ℕ)) := kit_rejectCode K hcount hinvalid _
  refine K.ite (K.bind htotp fun _ => K.ite (K.pure _) hreject) (K.bind ?_ fun index => ?_)
  · unfold acceptRecoveryCode
    split
    · exact K.pure _
    · exact K.step (hclaim _) fun _ => K.ite (K.pure _) (K.pure _)
  · split
    · exact hreject
    · exact K.step (hdel _) fun _ => K.ite (K.pure _) (K.throw nofun)

theorem kit_reauthGate (hP : ∀ c, Tally c → P c)
    (htotp : ∀ secret, C (verifyTotpWithAntiReplay env tenantId userId secret code)) (view : AuthUser) :
    C (reauthGate env tenantId userId code view) := by
  refine K.ite (K.throw nofun) (K.bind (kit_assertNotLocked K hP _) fun _ => ?_)
  split
  · exact K.throw nofun
  · refine K.bind (htotp _) fun _ => K.ite (K.issue (hP _ trivial)) ?_
    exact K.bind (K.map (K.issue (hcount _ _))) fun _ => hinvalid

end Codes

/-! ### Sessions -/

section Plain

variable (hP : ∀ c, Plain c → P c)

include hP

theorem kit_findSession (hash : String) : C (findSession env hash) := by
  refine K.step (hP _ trivial) fun found => ?_
  split
  · exact K.map (kit_decode K _)
  · exact K.pure _

theorem kit_readOwner (hashes : List String) : C (readOwner env hashes) := by
  induction hashes with
  | nil => exact K.pure _
  | cons hash rest ih =>
    refine K.step (hP _ trivial) fun raw => ?_
    split
    · exact ih
    · split
      · exact ih
      · exact K.ite ih (K.pure _)

theorem kit_findFamilyOwner (family : String) : C (findFamilyOwner env family) :=
  K.ite (K.pure _) (K.step (hP _ trivial) fun _ => kit_readOwner K hP _)

theorem kit_readEntries (ms : List Member) : C (readEntries ms) := by
  induction ms with
  | nil => exact K.pure _
  | cons m rest ih =>
    cases m with
    | grace hash => exact K.bind ih fun _ => K.pure _
    | live hash => exact K.step (hP _ trivial) fun _ => K.bind ih fun _ => K.pure _

theorem kit_listSessionEntries (subject : String) : C (listSessionEntries subject) := by
  refine K.step (hP _ trivial) fun _ => K.bind (kit_readEntries K hP _) fun _ => ?_
  exact K.bind (K.ite (K.pure _) (K.issue (hP _ trivial))) fun _ => K.pure _

theorem kit_revokeAllSessions (tenantId : Option String) (userId : String) :
    C (revokeAllSessions env tenantId userId) :=
  K.bind (K.map (K.issue (hP _ trivial))) fun _ => K.map (K.issue (hP _ trivial))

theorem kit_resolveLiveSession (tenantId userId hash : String) : C (resolveLiveSession env tenantId userId hash) := by
  refine K.guard nofun (K.bind (kit_listSessionEntries K hP _) fun entries => K.ite (K.pure _) ?_)
  refine K.bind (K.step (hP _ trivial) fun _ => K.pure _) fun successor => ?_
  split
  · exact K.ite (K.pure _) (K.throw nofun)
  · exact K.throw nofun

theorem kit_revokeOthers (subject kept : String) (entries : List SessionEntry) :
    C (revokeOthers subject kept entries) := by
  induction entries with
  | nil => exact K.pure _
  | cons entry rest ih => exact K.ite ih (K.bind (K.map (K.issue (hP _ trivial))) fun _ => ih)

theorem kit_sweepMembers (subject : String) (ms : List Member) : C (sweepMembers subject ms) := by
  induction ms with
  | nil => exact K.pure _
  | cons m rest ih =>
    cases m with
    | live hash => exact ih
    | grace hash => exact K.step (hP _ trivial) fun _ => K.step (hP _ ⟨hash, rfl⟩) fun _ => ih

theorem kit_revokeAllExceptCurrent (tenantId userId currentHash : String) :
    C (revokeAllExceptCurrent env tenantId userId currentHash) := by
  refine K.bind (kit_resolveLiveSession K hP _ _ _) fun _ => K.bind (kit_listSessionEntries K hP _) fun _ => ?_
  refine K.bind (kit_revokeOthers K hP _ _ _) fun _ => ?_
  refine K.bind (K.step (hP _ trivial) fun _ => kit_sweepMembers K hP _ _) fun _ => ?_
  exact K.map (K.issue (hP _ trivial))

theorem kit_revokeSessionOf (tenantId userId hash : String) : C (revokeSessionOf env tenantId userId hash) :=
  K.guard nofun (K.step (hP _ trivial) fun _ => K.ite (K.pure _) (K.throw nofun))

theorem kit_evict (subject : String) (victims : List SessionEntry) : C (evict subject victims) := by
  induction victims with
  | nil => exact K.pure _
  | cons victim rest ih => exact K.bind (K.map (K.issue (hP _ trivial))) fun _ => ih

theorem kit_enforceSessionLimit (tenantId : Option String) (userId newHash : String)
    (hfind : P (.host (.findById userId tenantId))) : C (enforceSessionLimit env tenantId userId newHash) := by
  refine K.bind (kit_listSessionEntries K hP _) fun sessions => K.bind ?_ fun limit => kit_evict K hP _ _
  unfold resolveSessionLimit
  split
  · exact K.pure _
  · refine K.step hfind fun found => ?_
    split <;> exact K.pure _

end Plain

/-! ### Tokens -/

section Timed

variable (hP : ∀ c, Timed c → P c)

include hP

theorem kit_signRotated (subject : String) (r : SessionRecord) (refresh : String) :
    C (signRotated env subject r refresh) := by
  refine K.bind (K.step (hP _ trivial) fun _ => K.pure _) fun _ => K.bind ?_ fun _ => K.pure _
  exact K.step (hP _ trivial) fun _ => K.step (hP _ trivial) fun _ => K.pure _

theorem kit_verifyAccess (token : AccessClaims) : C (verifyAccess env token) := by
  refine K.step (hP _ trivial) fun now => ?_
  split
  · exact K.throw (by cases ‹JwtError› <;> nofun)
  · refine K.step (hP _ trivial) fun _ => K.guard nofun ?_
    exact K.bind (K.step (hP _ trivial) fun _ => K.pure _) fun _ => K.guard nofun (K.pure _)

theorem kit_restamp (rotated : RotatedTokens) (claims : AccessClaims) (user : AuthUser) :
    C (restamp env rotated claims user) := by
  refine K.ite (K.pure _) (K.bind (K.step (hP _ trivial) fun _ => ?_) fun _ => K.pure _)
  refine K.bind (K.step (hP _ trivial) fun _ => K.pure _) fun _ => ?_
  exact K.step (hP _ trivial) fun _ => K.pure _

theorem kit_assertWithinAbsoluteLifetime (r : SessionRecord) : C (assertWithinAbsoluteLifetime env r) := by
  refine K.ite (K.pure _) ?_
  split
  · exact K.pure _
  · exact K.step (hP _ trivial) fun _ => K.ite (K.pure _) (K.throw nofun)

theorem kit_logout (access : Option AccessClaims) (rawRefresh : String) : C (logout env access rawRefresh) := by
  refine K.bind ?_ fun owner => K.bind ?_ fun _ => ?_
  · unfold logoutOwner
    split
    · exact kit_findSession K (fun c hc => hP c hc.timed) _
    · exact K.pure _
  · unfold revokeLogoutAccess
    split
    · exact K.step (hP _ trivial) fun _ => K.ite (K.pure _) (K.issue (hP _ trivial))
    · exact K.pure _
  · unfold revokeLogoutSession
    split
    · exact K.bind (K.map (K.issue (hP _ trivial))) fun _ => K.issue (hP _ trivial)
    · exact K.pure _

/-! ### Rotation -/

theorem kit_recoverSession (hrecover : ∀ s, P (.session (.recoverGrace s))) (recovered : SessionRecord)
    (ip userAgent : String) : C (recoverSession env recovered ip userAgent) := by
  refine K.bind (kit_assertWithinAbsoluteLifetime K hP _) fun _ => K.guard nofun ?_
  refine K.step (hP _ trivial) fun _ => K.bind (K.step (hP _ trivial) fun _ => K.pure _) fun r => ?_
  refine K.bind (K.bind (kit_encode K r) fun _ => K.issue (hrecover _)) fun _ => K.guard nofun ?_
  exact kit_signRotated K hP _ _ _

theorem kit_reissueTokens (hrotate : ∀ a, a.oldHash = env.redisHash rawRefresh → P (.session (.refreshRotate a)))
    (hrecover : ∀ s, P (.session (.recoverGrace s))) (hrevoke : ∀ f o, P (.session (.revokeFamily f o)))
    (ip userAgent : String) : C (reissueTokens env rawRefresh ip userAgent) := by
  have hplain : ∀ c, Plain c → P c := fun c hc => hP c hc.timed
  have hseed : ∀ new seed, C (rotateSeed env (env.redisHash rawRefresh) new seed ip userAgent) := by
    intro new seed
    refine K.bind (kit_assertWithinAbsoluteLifetime K hP _) fun _ => ?_
    refine K.bind (K.step (hP _ trivial) fun _ => K.pure _) fun r => K.bind ?_ fun outcome => ?_
    · refine K.bind (kit_encode K _) fun json => K.step (hrotate _ rfl) fun reply => ?_
      cases reply with
      | invalid => exact K.pure _
      | reused family => exact K.pure _
      | rotated old => exact K.bind (kit_decode K old) fun _ => K.step (hP _ trivial) fun _ => K.pure _
      | grace old =>
        refine K.bind (kit_decode K old) fun r => K.bind (K.ite (K.pure _) (K.issue (hP _ trivial))) fun _ => ?_
        exact K.ite (K.pure _) (K.pure _)
    · cases outcome with
      | rotated old => exact kit_signRotated K hP _ _ _
      | grace recovered => exact kit_recoverSession K hP hrecover _ _ _
      | reused family =>
        refine K.bind (kit_findFamilyOwner K hplain _) fun owner => K.bind ?_ fun _ => K.throw nofun
        exact K.ite (K.pure _) (K.map (K.issue (hrevoke _ _)))
      | invalid => exact K.throw nofun
  refine K.guard nofun (K.step (hP _ trivial) fun _ => K.step (hP _ trivial) fun new => ?_)
  refine K.bind (kit_findSession K hplain _) fun found => ?_
  cases found with
  | some live => exact K.guard nofun (hseed _ _)
  | none => exact K.bind (K.step (hP _ trivial) fun _ => K.pure _) fun _ => hseed _ _

/-! ### The account gates -/

theorem kit_accountGates (hfind : ∀ id tenantId, P (.host (.findById id tenantId))) (rotated : RotatedTokens)
    (claims : AccessClaims) : C (accountGates env rotated claims) := by
  have hplain : ∀ c, Plain c → P c := fun c hc => hP c hc.timed
  refine K.step (hfind _ _) fun found => ?_
  cases found with
  | none => exact K.bind (kit_revokeAllSessions K hplain _ _) fun _ => K.throw nofun
  | some user =>
    dsimp only
    split
    · next h => exact K.bind (kit_revokeAllSessions K hplain _ _) fun _ => K.throw (assertNotBlocked_ne h)
    · exact K.guard nofun (kit_restamp K hP _ _ _)

theorem kit_platformGates (hfind : ∀ id tenantId, P (.host (.findById id tenantId))) (rotated : RotatedTokens)
    (claims : AccessClaims) : C (platformGates env rotated claims) := by
  have hplain : ∀ c, Plain c → P c := fun c hc => hP c hc.timed
  refine K.step (hfind _ _) fun found => ?_
  cases found with
  | none => exact K.bind (kit_revokeAllSessions K hplain _ _) fun _ => K.throw nofun
  | some admin =>
    dsimp only
    split
    · next h => exact K.bind (kit_revokeAllSessions K hplain _ _) fun _ => K.throw (assertNotBlocked_ne h)
    · exact kit_restamp K hP _ _ _

/-! ### Login -/

section Login

variable {user : AuthUser} {ip userAgent : String} {mfaVerified : Bool}

theorem kit_issueTokens (hcreate : ∀ s, P (.session (.createSession s))) :
    C (issueTokens env user ip userAgent mfaVerified) := by
  refine K.step (hP _ trivial) fun _ => K.step (hP _ trivial) fun _ => ?_
  refine K.bind (K.map (K.issue (hP _ trivial))) fun _ => K.step (hP _ trivial) fun _ => ?_
  refine K.step (hP _ trivial) fun _ => K.step (hP _ trivial) fun _ => ?_
  refine K.step (hP _ trivial) fun _ => K.bind (K.bind (kit_encode K _) fun _ => ?_) fun _ => K.pure _
  exact K.issue (hcreate _)

theorem kit_issueSession (htokens : C (issueTokens env user ip userAgent mfaVerified))
    (hfind : ∀ id tenantId, P (.host (.findById id tenantId))) :
    C (issueSession env user ip userAgent mfaVerified) := by
  refine K.bind htokens fun result => K.ite (K.bind ?_ fun _ => K.pure _) (K.pure _)
  exact kit_enforceSessionLimit K (fun c hc => hP c hc.timed) _ _ _ (hfind _ _)

theorem kit_issueMfaTempToken (hput : ∀ hash userId, P (.account (.putTemp hash userId mfaTempTokenTtlSeconds)))
    (userId : String) (tenantId : Option String) : C (issueMfaTempToken env userId tenantId) := by
  refine K.guard nofun (K.bind (K.map (K.issue (hP _ trivial))) fun _ => ?_)
  refine K.step (hP _ trivial) fun _ => K.step (hP _ trivial) fun _ => ?_
  exact K.step (hput _ _) fun _ => K.pure _

theorem kit_admitUser (htemp : C (issueMfaTempToken env user.id (some user.tenantId)))
    (hsession : C (issueSession env user ip userAgent false)) (identifier : String) :
    C (admitUser env identifier user ip userAgent) := by
  unfold admitUser
  split
  · next h => exact K.throw (assertNotBlocked_ne h)
  · refine K.guard nofun (K.step (hP _ trivial) fun _ => K.ite (K.bind htemp fun _ => K.pure _) ?_)
    exact K.bind hsession fun _ => K.pure _

end Login

end Timed

end BymaxAuth
