import BymaxAuth.Engine.Kit

/-!
# What the handlers may do

The invariants of the session keyspace do not hold of any commands in any order: they hold because of
what the engine passes to the commands. This module says once what that is, and proves it of every
handler.

`Obeys env tr c` — a handler whose exchanges so far are `tr` may issue `c`. Most commands may be issued
at any point. The ones that store a session may not: the hash is that of the token minted last and not
used yet, and the record is

* for a login, one that names an account and opens the family of a UUID just drawn;
* for a rotation, the identity of the record read under the presented hash, or of the placeholder when
  nothing was found there, checked against the absolute lifetime;
* for a recovery, the identity of the record the grace reply carried, checked again.

A family is revoked only after a reply named it as reused, and nothing but a grace pointer is taken out
of an index by a bare `SREM`.

An account's second factor is written only under its lock, and what is written is one of four things made of
the record read under it (`Mutates`). A lock is taken with a token just drawn and released with the token it
was taken with; an enrolment is stored with codes the handler drew, and a challenge under a UUID just drawn.
-/

namespace BymaxAuth

open Concurrency List Exchange SessionRecord

variable (env : Env)

/-- The exchanges of a handler. -/
abbrev Trace := List Exchange

/-- The hash a handler with this trace has minted last and not used. -/
def pendingHash (tr : Trace) : Option String := pending (mints env) spends tr

/-- The UUID a handler with this trace has drawn last and not opened a family with. -/
def pendingFamily (tr : Trace) : Option String := pending draws opens tr

/-- The absolute lifetime was checked for this record, or does not apply to it. -/
def CapChecked (tr : Trace) (r : SessionRecord) : Prop :=
  env.config.absoluteLifetimeSecs = 0 ∨ r.familyCreatedAt = none ∨
    ∃ bornAt now, r.familyCreatedAt = some bornAt ∧ ⟨.host .nowOffset, now⟩ ∈ tr ∧ env.withinLifetime now bornAt = true

/-- `r` carries the identity of `seed`. -/
def Carried (seed r : SessionRecord) : Prop :=
  ∃ device ip createdAt, r = env.carry seed device ip createdAt

/-- The record a rotation of `hash` starts from. -/
inductive SeedOf (tr : Trace) (hash : String) : SessionRecord → Prop where
  /-- The live record, as it was read. -/
  | live {json : Json} {r : SessionRecord} : ⟨.session (.getRt hash), some json⟩ ∈ tr →
      ofJson env.codec json = some r → env.mayRotate r = true → SeedOf tr hash r
  /-- The placeholder, when the token was presented and nothing was found under its hash. -/
  | placeholder {tr₁ tr₂ : Trace} {r : SessionRecord} :
      tr = tr₁ ++ ⟨.session (.getRt hash), none⟩ :: tr₂ → ⟨.host (.arrive hash), ()⟩ ∈ tr₁ →
      r.familyId = "" → r.familyCreatedAt = none → SeedOf tr hash r

/-- What a login's write is made of. -/
structure Opens (tr : Trace) (s : NewSession) : Prop where
  /-- A hash of its own. -/
  hash : pendingHash env tr = some s.hash
  /-- A family of its own. -/
  family : pendingFamily tr = some s.family
  /-- A record that names its account. -/
  record : ∃ r, r.toJson env.codec = some s.record ∧ r.userId ≠ "" ∧ s.family = r.familyId ∧
    s.subject = env.ownerIndex r ∧ (∃ t, r.familyCreatedAt = some t) ∧
    (env.kind = .platform → r.tenantId = none) ∧ (env.kind = .dashboard → r.tenantId.isSome = true)
  /-- The refresh TTL. -/
  ttl : s.ttl = env.config.refreshTtl

/-- What a rotation is made of. -/
structure Rotates (tr : Trace) (a : Rotation) : Prop where
  /-- A handler rotates once. -/
  once : ∀ ev ∈ tr, ∀ b, ev.op ≠ .session (.refreshRotate b)
  /-- A hash of its own. -/
  hash : pendingHash env tr = some a.newHash
  /-- The identity found under the presented hash. -/
  record : ∃ seed r, SeedOf env tr a.oldHash seed ∧ CapChecked env tr seed ∧ Carried env seed r ∧
    r.toJson env.codec = some a.newJson ∧ a.family = r.familyId ∧ a.subject = env.ownerIndex r
  /-- The refresh TTL. -/
  ttl : a.refreshTtl = env.config.refreshTtl
  graceTtl : a.graceTtl = env.config.graceTtl

/-- What a recovery is made of. -/
structure Recovers (tr : Trace) (s : NewSession) : Prop where
  /-- A handler recovers once. -/
  once : ∀ ev ∈ tr, ∀ s', ev.op ≠ .session (.recoverGrace s')
  /-- A hash of its own. -/
  hash : pendingHash env tr = some s.hash
  /-- The identity the grace reply carried. -/
  record : ∃ a json seed r, ⟨.session (.refreshRotate a), .grace json⟩ ∈ tr ∧
    ofJson env.codec json = some seed ∧ CapChecked env tr seed ∧ Carried env seed r ∧
    r.toJson env.codec = some s.record ∧ s.family = r.familyId ∧ s.subject = env.ownerIndex r
  /-- The refresh TTL. -/
  ttl : s.ttl = env.config.refreshTtl

/-- The hash of the UUID a handler with this trace has drawn last and not stored a challenge under. -/
def pendingChallenge (tr : Trace) : Option String := pending (names env) plants tr

/-- The token a handler with this trace has drawn last for a lock and not used. -/
def pendingLock (tr : Trace) : Option String := pending drawsLock locks tr

/-- The account a handler with this trace looked up first. -/
def firstRead (tr : Trace) : Option AuthUser :=
  tr.findSome? fun ev =>
    match ev with
    | ⟨.host (.findById _ _), found⟩ => found
    | _ => none

/-- Whether a command stores something of a second factor: an enrolment, or the record. -/
def writesFactor : Op → Bool
  | .host (.updateMfa ..) | .mfa (.putSetupNx ..) => true
  | _ => false

/-- Nothing of a second factor was stored. -/
def Unwritten (tr : Trace) : Prop := ∀ ev ∈ tr, writesFactor ev.op = false

/-- What may be written in the place of the record of `current`, by a handler with this trace. -/
inductive Mutates (tr : Trace) (current : AuthUser) : MfaRecord → Prop where
  /-- Nothing. -/
  | cleared : Mutates tr current cleared
  /-- The pending enrolment that was read, once one was taken. -/
  | enrolled {key : String} {data taken : MfaSetupData} : ⟨.mfa (.getSetup key), some data⟩ ∈ tr →
      ⟨.mfa (.takeSetup key), some taken⟩ ∈ tr → Mutates tr current (enrolled data)
  /-- The record with the digests of new codes. -/
  | regenerated {count : ℕ} {codes : List String} {data : MfaRecord} :
      ⟨.host (.generateRecoveryCodes count), codes⟩ ∈ tr →
      regenerated (codes.map env.identifierHmac) current = some data → Mutates tr current data
  /-- The record without a code that was spent, or under the current key. -/
  | challenged {user : AuthUser} {encryptedSecret rawSecret storedSecret : String} {spent : Option String}
      {data : MfaRecord} : firstRead tr = some user → user.mfaSecret = some encryptedSecret →
      env.mfa.decryptSecret encryptedSecret = some rawSecret →
      (storedSecret = encryptedSecret ∨ ⟨.host (.encrypt (env.mfa.encodeSecretBase32 rawSecret)), storedSecret⟩ ∈ tr) →
      (env.spliced rawSecret storedSecret spent current = some data ∨
        env.rewritten rawSecret storedSecret current = some data) → Mutates tr current data

/-- What a write of an account's second factor is made of. -/
structure Transits (tr : Trace) (id : String) (tenantId : Option String) (data : MfaRecord) : Prop where
  /-- A handler writes once. -/
  once : Unwritten tr
  /-- The lock was taken and the record read under it. -/
  locked : ∃ tr₁ token current, tr = tr₁ ++
      [⟨.mfa (.acquireLock (env.mfaLockId tenantId id) token mfaTransitionLockTtlSeconds), true⟩,
        ⟨.host (.findById id tenantId), some current⟩] ∧ Mutates env tr₁ current data

/-- What an enrolment is made of. -/
structure Proposes (tr : Trace) (data : MfaSetupData) : Prop where
  /-- A handler stores one. -/
  once : Unwritten tr
  /-- Codes of its own. -/
  codes : ∃ count codes, ⟨.host (.generateRecoveryCodes count), codes⟩ ∈ tr ∧
    data.hashedCodes = codes.map env.identifierHmac

/-- What a marker of a used code is made of: the code was found valid at the time just read. -/
structure Marks (tr : Trace) (replayId : String) (ttl : ℕ) : Prop where
  /-- The code, and the secret it is one of. -/
  verified : ∃ tr₁ now tenantId userId secret code, tr = tr₁ ++ [⟨.host .nowUnix, now⟩] ∧
    replayId = env.replayId tenantId userId code ∧
    env.mfa.totpVerify secret code now env.mfa.totpWindow = true
  /-- As long as the code may be accepted. -/
  ttl : ttl = env.antiReplayTtlSeconds

/-- What a handler with these exchanges may issue next. -/
def Obeys (tr : Trace) : Op → Prop
  | .session (.createSession s) => Opens env tr s
  | .session (.refreshRotate a) => Rotates env tr a
  | .session (.recoverGrace s) => Recovers env tr s
  | .session (.revokeFamily family _) =>
    family ≠ "" ∧ ∃ a, ⟨.session (.refreshRotate a), .reused family⟩ ∈ tr
  | .session (.sremSess _ m) => ∃ hash, m = .grace hash
  | .account (.putTemp hash _ ttl) => pendingChallenge env tr = some hash ∧ ttl = mfaTempTokenTtlSeconds
  | .host (.updateMfa id tenantId data) => Transits env tr id tenantId data
  | .mfa (.acquireLock _ token ttl) => pendingLock tr = some token ∧ ttl = mfaTransitionLockTtlSeconds
  | .mfa (.releaseLock lockId token) =>
    ⟨.mfa (.acquireLock lockId token mfaTransitionLockTtlSeconds), true⟩ ∈ tr
  | .mfa (.putSetupNx _ data _) => Proposes env tr data
  | .mfa (.claimRecoveryCode _ ttl) => ttl = recoveryCodeClaimTtlSeconds
  | .mfa (.markTotpUsed replayId ttl) => Marks env tr replayId ttl
  | .mfa (.challengeConsume replayId _ ttl) => Marks env tr replayId ttl
  | _ => True

/-- A command that may be issued at any point. -/
def Free (c : Op) : Prop := ∀ tr, Obeys env tr c

/-! ### Handlers that may be anywhere -/

/-- `tr'` goes on from `tr`, and stores nothing of a second factor. -/
structure Extends (tr tr' : Trace) : Prop where
  /-- The trace only grew. -/
  pre : tr <+: tr'
  /-- Nothing was stored. -/
  unwritten : Unwritten tr → Unwritten tr'

theorem Extends.refl (tr : Trace) : Extends tr tr := ⟨prefix_refl tr, id⟩

theorem Extends.trans {tr₁ tr₂ tr₃ : Trace} (h : Extends tr₁ tr₂) (h' : Extends tr₂ tr₃) : Extends tr₁ tr₃ :=
  ⟨h.pre.trans h'.pre, fun hu => h'.unwritten (h.unwritten hu)⟩

variable {tr tr' : Trace} {ev : Exchange}

theorem Unwritten.append {l : Trace} (h : Unwritten tr) (hl : Unwritten l) : Unwritten (tr ++ l) := by
  intro ev hev
  rcases mem_append.mp hev with hev | hev
  · exact h ev hev
  · exact hl ev hev

theorem Extends.append {l : Trace} (hl : Unwritten l) : Extends tr (tr ++ l) :=
  ⟨prefix_append tr l, fun h => h.append hl⟩

/-- A command that stores something of a second factor is not one for any point. -/
theorem Free.unwritten {env : Env} {c : Op} (h : Free env c) (r : c.Reply) : Unwritten [⟨c, r⟩] := by
  intro ev hev
  cases mem_singleton.mp hev
  show writesFactor c = false
  unfold writesFactor
  split
  · next id tenantId data =>
    obtain ⟨tr₁, token, current, htr, -⟩ := (h [] : Transits env [] id tenantId data).locked
    exact absurd htr (by simp)
  · next key data ttl =>
    obtain ⟨count, codes, hmem, -⟩ := (h [] : Proposes env [] data).codes
    cases hmem
  · rfl

/-- A part of a handler that obeys wherever it stands. -/
def Calm {α : Type} (x : Act α) : Prop :=
  ∀ (tr : Trace) (S : Trace → Except AuthError α → Prop), (∀ tr' r, Extends tr tr' → S tr' r) →
    Wp (Obeys env) S tr x.run

variable {env}

namespace Calm

variable {α β : Type} {x : Act α}

theorem pure (a : α) : Calm env (pure a) := fun tr _ hS => hS tr _ (.refl tr)

theorem throw (e : AuthError) : Calm env (throw e : Act α) := fun tr _ hS => hS tr _ (.refl tr)

theorem issue {c : Op} (hc : Free env c) : Calm env (issue c) :=
  fun tr _ hS => ⟨hc tr, fun r => hS _ _ (.append (hc.unwritten r))⟩

theorem bind {f : α → Act β} (hx : Calm env x) (hf : ∀ a, Calm env (f a)) : Calm env (x >>= f) := by
  intro tr S hS
  rw [wp_run_bind]
  refine hx tr _ fun tr' r htr => ?_
  cases r with
  | ok a => exact hf a tr' S fun tr'' r' h => hS tr'' r' (htr.trans h)
  | error e => exact hS tr' _ htr

theorem map {f : α → β} (hx : Calm env x) : Calm env (f <$> x) := hx.bind fun a => Calm.pure (f a)

theorem ite {p : Prop} [Decidable p] {y : Act α} (hx : Calm env x) (hy : Calm env y) :
    Calm env (if p then x else y) := by
  split
  · exact hx
  · exact hy

/-- A calm handler obeys. -/
theorem wp (hx : Calm env x) (tr : Trace) : Wp (Obeys env) (fun _ _ => True) tr x.run :=
  hx tr _ fun _ _ _ => trivial

end Calm

theorem Kit.calm : Kit (Free env) fun x => Calm env x := ⟨Calm.pure, fun _ => Calm.throw _, Calm.issue, Calm.bind⟩

theorem free_of_timed (c : Op) (h : Timed c) : Free env c := by
  intro tr
  cases c with
  | session c => cases c <;> first | exact h | trivial
  | account c | host c => cases c <;> first | exact absurd h id | trivial
  | mfa c => exact absurd h id

theorem free_of_plain (c : Op) (h : Plain c) : Free env c := free_of_timed c h.timed

theorem calm_account (c : AccountCmd) (hc : Free env (.account c)) : Calm env (Act.account c) := .issue hc

theorem calm_host (c : HostCmd) (hc : Free env (.host c)) : Calm env (Act.host c) := .issue hc

theorem calm_revokeAllSessions (tenantId : Option String) (userId : String) :
    Calm env (revokeAllSessions env tenantId userId) := kit_revokeAllSessions .calm free_of_plain _ _

theorem calm_assertNotLocked (identifier : String) : Calm env (assertNotLocked env identifier) :=
  kit_assertNotLocked .calm (fun c hc => free_of_plain c hc.plain) _

theorem calm_recordFailureAndReject {α : Type} (identifier : String) :
    Calm env (recordFailureAndReject env identifier : Act α) :=
  kit_recordFailureAndReject .calm (fun _ _ _ => trivial) _

theorem calm_issueMfaTempToken (userId : String) (tenantId : Option String) :
    Calm env (issueMfaTempToken env userId tenantId) := by
  refine .ite (.bind (.throw _) fun _ => ?_) ?_ <;>
  · refine .bind (kit_currentEpoch .calm (fun c hc => free_of_plain c hc.plain) _) fun _ => ?_
    refine .bind (calm_host _ fun _ => trivial) fun _ => ?_
    refine fun tr S hS => ⟨trivial, fun jti => ⟨⟨?_, rfl⟩, fun _ => hS _ _ ?_⟩⟩
    · simp only [pendingChallenge, pending_snoc]
      rfl
    · simp only [append_assoc]
      exact .append (by simp [Unwritten, writesFactor])

theorem calm_applyPasswordReset (userId tenantId newPassword : String) :
    Calm env (applyPasswordReset env userId tenantId newPassword) :=
  .bind (calm_host _ fun _ => trivial) fun _ => .bind (calm_host _ fun _ => trivial) fun _ =>
    calm_revokeAllSessions (some tenantId) userId

theorem calm_signRotated (subject : String) (r : SessionRecord) (refresh : String) :
    Calm env (signRotated env subject r refresh) := kit_signRotated .calm free_of_timed _ _ _

/-! ### Writing a session -/

section Specs

variable {I : Trace → Op → Prop} {subject hash : String} {r : SessionRecord} {ttl : ℕ}

theorem wp_encode {S : Trace → Except AuthError Json → Prop}
    (hok : ∀ json, r.toJson env.codec = some json → S tr (.ok json))
    (herr : S tr (.error .internal)) : Wp I S tr (encode env r).run := by
  unfold encode
  split
  · next j hj => exact hok j hj
  · exact herr

theorem wp_decode {S : Trace → Except AuthError SessionRecord → Prop} {json : Json}
    (hok : ∀ r, ofJson env.codec json = some r → S tr (.ok r))
    (herr : S tr (.error .internal)) : Wp I S tr (decode env json).run := by
  unfold decode
  split
  · next r hr => exact hok r hr
  · exact herr

theorem wp_createSession {S : Trace → Except AuthError Unit → Prop} (hok : ∀ json, r.toJson env.codec = some json →
      I tr (.session (.createSession (newSession subject hash r json ttl))) ∧
        S (tr ++ [⟨.session (.createSession (newSession subject hash r json ttl)), ()⟩]) (.ok ()))
    (herr : S tr (.error .internal)) : Wp I S tr (createSession env subject hash r ttl).run := by
  refine wp_run_bind.mpr (wp_encode (fun json hj => ?_) herr)
  exact ⟨(hok json hj).1, fun _ => (hok json hj).2⟩

theorem wp_createRecoveredSession {S : Trace → Except AuthError Bool → Prop}
    (hok : ∀ json, r.toJson env.codec = some json →
      I tr (.session (.recoverGrace (newSession subject hash r json ttl))) ∧
        ∀ b, S (tr ++ [⟨.session (.recoverGrace (newSession subject hash r json ttl)), b⟩]) (.ok b))
    (herr : S tr (.error .internal)) : Wp I S tr (createRecoveredSession env subject hash r ttl).run := by
  refine wp_run_bind.mpr (wp_encode (fun json hj => ?_) herr)
  exact ⟨(hok json hj).1, fun b => (hok json hj).2 b⟩

end Specs

/-! ### Handlers that rotate -/

/-- An exchange that neither mints nor stores. -/
def Idle (env : Env) (ev : Exchange) : Prop := mints env ev = none ∧ spends ev = none

theorem Idle.pendingHash (h : Idle env ev) (tr : Trace) :
    pendingHash env (tr ++ [ev]) = BymaxAuth.pendingHash env tr := by
  simp [BymaxAuth.pendingHash, pending_snoc, pendingStep, h.1, h.2]

theorem idle_host {c : HostCmd} (hc : c ≠ .generateToken) (r : c.Reply) : Idle env ⟨.host c, r⟩ := by
  cases c <;> first | exact ⟨rfl, rfl⟩ | exact absurd rfl hc

/-- From `tr` to `tr'` nothing was minted or stored. -/
structure IdleTo (env : Env) (tr tr' : Trace) : Prop where
  /-- The trace only grew. -/
  pre : tr <+: tr'
  /-- What was pending still is. -/
  hash : pendingHash env tr' = pendingHash env tr
  /-- No rotation was added. -/
  once : ∀ ev ∈ tr', ∀ c, ev.op = .session c → spends ev ≠ none → ev ∈ tr

theorem IdleTo.refl (tr : Trace) : IdleTo env tr tr := ⟨prefix_refl tr, rfl, fun _ h _ _ _ => h⟩

theorem IdleTo.snoc (h : IdleTo env tr tr') (hev : Idle env ev) : IdleTo env tr (tr' ++ [ev]) := by
  refine ⟨h.pre.trans (prefix_append tr' [ev]), (hev.pendingHash tr').trans h.hash, ?_⟩
  intro x hx c hc hs
  rcases mem_append.mp hx with hx | hx
  · exact h.once x hx c hc hs
  · rw [mem_singleton] at hx
    subst hx
    exact absurd hev.2 hs

theorem IdleTo.mem (h : IdleTo env tr tr') (hev : ev ∈ tr) : ev ∈ tr' :=
  h.pre.subset hev

/-- A handler that goes on once the lifetime was checked. -/
theorem wp_assertWithinAbsoluteLifetime {r : SessionRecord} {S : Trace → Except AuthError Unit → Prop}
    (hok : ∀ tr', IdleTo env tr tr' → CapChecked env tr' r → S tr' (.ok ()))
    (herr : ∀ tr', S tr' (.error .refreshTokenInvalid)) :
    Wp (Obeys env) S tr (assertWithinAbsoluteLifetime env r).run := by
  unfold assertWithinAbsoluteLifetime
  split
  · next h => exact hok tr (.refl tr) (.inl h)
  · split
    · next h => exact hok tr (.refl tr) (.inr (.inl h))
    · next bornAt h =>
      refine ⟨trivial, fun now => ?_⟩
      show Wp _ _ _ (if env.withinLifetime now bornAt then pure ()
        else throw .refreshTokenInvalid : Act Unit).run
      split
      · next hw =>
        refine hok _ ((IdleTo.refl tr).snoc (idle_host (c := .nowOffset) (by simp) now)) (.inr (.inr ?_))
        exact ⟨bornAt, now, h, by simp, hw⟩
      · exact herr _

theorem carried_carry (seed : SessionRecord) (device ip : String) (createdAt : ℤ) :
    Carried env seed (env.carry seed device ip createdAt) := ⟨device, ip, createdAt, rfl⟩

theorem CapChecked.mono {r : SessionRecord} (h : CapChecked env tr r) (htr : ∀ ev ∈ tr, ev ∈ tr') :
    CapChecked env tr' r := by
  rcases h with h | h | ⟨bornAt, now, h₁, h₂, h₃⟩
  · exact .inl h
  · exact .inr (.inl h)
  · exact .inr (.inr ⟨bornAt, now, h₁, htr _ h₂, h₃⟩)

/-- The grace arm obeys, once a grace reply carried the record. -/
theorem recoverSession_obeys {a : Rotation} {json : Json} {recovered : SessionRecord} (ip userAgent : String)
    (hg : ⟨.session (.refreshRotate a), .grace json⟩ ∈ tr)
    (hj : ofJson env.codec json = some recovered)
    (hn : ∀ ev ∈ tr, ∀ s, ev.op ≠ .session (.recoverGrace s)) :
    Wp (Obeys env) (fun _ _ => True) tr (recoverSession env recovered ip userAgent).run := by
  refine wp_run_bind.mpr (wp_assertWithinAbsoluteLifetime (fun tr₁ h₁ hcap => ?_) fun _ => trivial)
  show Wp _ _ _ (if (!env.mayRotate recovered) = true then _ else _ : Act RotatedTokens).run
  split
  · trivial
  · refine ⟨trivial, fun fresh => ⟨trivial, fun now => ?_⟩⟩
    refine wp_run_bind.mpr (wp_createRecoveredSession (fun json' hj' => ⟨?_, fun b => ?_⟩) trivial)
    · have hmem : ∀ ev ∈ tr₁, ev ∈ tr₁ ++ [⟨.host .generateToken, fresh⟩] ++ [⟨.host .nowOffset, now⟩] :=
        fun ev hev => by simp [hev]
      refine ⟨?_, ?_, ⟨a, json, recovered, _, hmem _ (h₁.mem hg), hj, hcap.mono hmem,
        carried_carry _ _ _ _, hj', rfl, rfl⟩, rfl⟩
      · intro ev hev s hs
        simp only [mem_append, mem_singleton] at hev
        rcases hev with (hev | rfl) | rfl
        · refine hn ev (h₁.once ev hev _ hs ?_) s hs
          obtain ⟨op, res⟩ := ev
          cases hs
          simp [spends]
        · cases hs
        · cases hs
      · simp only [pendingHash, pending_snoc]
        rfl
    · cases b with
      | false => trivial
      | true => exact (calm_signRotated _ _ _).wp _

/-- The reuse arm obeys, once a reply named the family. -/
theorem revokeReused_obeys {a : Rotation} {family : String} (h : ⟨.session (.refreshRotate a), .reused family⟩ ∈ tr) :
    Wp (Obeys env) (fun _ _ => True) tr (revokeReused env family).run := by
  refine wp_run_bind.mpr (kit_findFamilyOwner Kit.calm free_of_plain family tr _ fun tr' owner htr => ?_)
  cases owner with
  | error e => trivial
  | ok owner =>
    refine wp_run_bind.mpr ?_
    unfold revokeFamily
    split
    · trivial
    · next hf => exact ⟨⟨hf, a, htr.pre.subset h⟩, fun _ => trivial⟩

/-- The rotation obeys, once the seed is what was found under the presented hash. -/
theorem rotateSeed_obeys {oldHash new : String} {seed : SessionRecord} (ip userAgent : String)
    (hpend : pendingHash env tr = some (env.redisHash new))
    (hseed : ∀ tr', tr <+: tr' → SeedOf env tr' oldHash seed)
    (hn : ∀ ev ∈ tr, ∀ c, ev.op = .session c → spends ev = none) :
    Wp (Obeys env) (fun _ _ => True) tr (rotateSeed env oldHash new seed ip userAgent).run := by
  refine wp_run_bind.mpr (wp_assertWithinAbsoluteLifetime (fun tr₁ h₁ hcap => ?_) fun _ => trivial)
  refine ⟨trivial, fun now => ?_⟩
  have h₂ : IdleTo env tr (tr₁ ++ [⟨.host .nowOffset, now⟩]) :=
    h₁.snoc (idle_host (c := .nowOffset) (by simp) now)
  have hnone : ∀ ev ∈ tr₁ ++ [⟨.host .nowOffset, now⟩], ∀ c, ev.op = .session c → spends ev = none := by
    intro ev hev c hc
    by_contra hs
    exact hs (hn ev (h₂.once ev hev c hc hs) c hc)
  refine wp_run_bind.mpr (wp_run_bind.mpr (wp_encode (fun json hj => ⟨?_, fun reply => ?_⟩) trivial))
  · refine ⟨?_, h₂.hash.trans hpend, ⟨seed, _, hseed _ h₂.pre, hcap.mono fun ev hev => by simp [hev],
      carried_carry _ _ _ _, hj, rfl, rfl⟩, rfl, rfl⟩
    intro ev hev b hb
    have := hnone ev hev _ hb
    obtain ⟨op, res⟩ := ev
    cases hb
    simp [spends] at this
  · cases reply with
    | invalid => trivial
    | reused family => exact revokeReused_obeys (mem_append_right _ (mem_singleton_self _))
    | rotated old =>
      refine wp_run_bind.mpr (wp_decode (fun r hr => ?_) trivial)
      exact ⟨trivial, fun _ => (calm_signRotated _ _ _).wp _⟩
    | grace recovered =>
      have hno : ∀ (tr' : Trace), (∀ ev ∈ tr', ∀ s, ev.op ≠ .session (.recoverGrace s)) →
          ∀ ev ∈ (tr₁ ++ [⟨.host .nowOffset, now⟩]) ++ tr', ∀ s, ev.op ≠ .session (.recoverGrace s) := by
        intro tr' htr' ev hev s hs
        rcases mem_append.mp hev with hev | hev
        · have := hnone ev hev _ hs
          obtain ⟨op, res⟩ := ev
          cases hs
          simp [spends] at this
        · exact htr' ev hev s hs
      refine wp_run_bind.mpr (wp_decode (fun r hr => wp_run_bind.mpr ?_) trivial)
      unfold familyIsAlive
      split
      · exact recoverSession_obeys ip userAgent (mem_append_right _ (mem_singleton_self _)) hr
          (hno _ (by simp))
      · refine ⟨trivial, fun alive => ?_⟩
        cases alive with
        | false => trivial
        | true =>
          refine recoverSession_obeys ip userAgent
            (mem_append_left _ (mem_append_right _ (mem_singleton_self _))) hr ?_
          rw [append_assoc]
          exact hno _ (by simp)

variable (rawRefresh ip userAgent : String)

/-- A refresh obeys up to the end of its rotation. -/
theorem reissueTokens_obeys : Wp (Obeys env) (fun _ _ => True) [] (reissueTokens env rawRefresh ip userAgent).run := by
  unfold reissueTokens
  split
  · trivial
  · refine ⟨trivial, fun _ => ⟨trivial, fun new => ⟨trivial, fun found => ?_⟩⟩⟩
    cases found with
    | some json =>
      refine wp_run_bind.mpr (wp_run_bind.mpr (wp_decode (fun live hlive => ?_) trivial))
      show Wp _ _ _ (if (!env.mayRotate live) = true then _ else _ : Act RotatedTokens).run
      split
      · trivial
      · next hmay =>
        refine rotateSeed_obeys ip userAgent (by simp [pendingHash, pending, pendingStep, mints,
          spends]) (fun tr' htr => ?_) (by simp [spends])
        exact .live (htr.subset (mem_append_right _ (mem_singleton_self _))) hlive
          (by simpa using hmay)
    | none =>
      refine ⟨trivial, fun now => ?_⟩
      refine rotateSeed_obeys ip userAgent (by simp [pendingHash, pending, pendingStep, mints,
        spends]) (fun tr' htr => ?_) (by simp [spends])
      obtain ⟨rest, rfl⟩ := htr
      have hsplit : ∀ (a b c d : Exchange) (rest : Trace),
          [] ++ [a] ++ [b] ++ [c] ++ [d] ++ rest = [a, b] ++ c :: d :: rest := fun _ _ _ _ _ => rfl
      exact .placeholder (hsplit _ _ _ _ rest) (by simp) rfl rfl

/-- Sequencing with what may be anywhere. -/
theorem wp_bind_calm {α β : Type} {x : Act α} {f : α → Act β} (hx : Wp (Obeys env) (fun _ _ => True) tr x.run)
    (hf : ∀ a, Calm env (f a)) : Wp (Obeys env) (fun _ _ => True) tr (x >>= f).run := by
  refine wp_run_bind.mpr (hx.mono (fun _ _ h => h) fun tr r _ => ?_)
  cases r with
  | ok a => exact (hf a).wp tr
  | error e => trivial

theorem refresh_obeys : Wp (Obeys env) (fun _ _ => True) [] (refresh env rawRefresh ip userAgent).run := by
  refine wp_bind_calm (reissueTokens_obeys rawRefresh ip userAgent) fun rotated => ?_
  refine .bind (kit_verifyAccess .calm free_of_timed _) fun claims => ?_
  exact kit_accountGates .calm free_of_timed (fun _ _ _ => trivial) _ _

theorem platformRefresh_obeys :
    Wp (Obeys env) (fun _ _ => True) [] (platformRefresh env rawRefresh ip userAgent).run := by
  refine wp_bind_calm (reissueTokens_obeys rawRefresh ip userAgent) fun rotated => ?_
  refine .bind (kit_verifyAccess .calm free_of_timed _) fun claims => ?_
  exact kit_platformGates .calm free_of_timed (fun _ _ _ => trivial) _ _

/-! ### Handlers that issue -/

/-- A login's session may be stored anywhere: its hash and its family are drawn on the way. -/
theorem calm_issueTokens (user : AuthUser) (ip userAgent : String) (mfaVerified : Bool) :
    Calm env (issueTokens env user ip userAgent mfaVerified) := by
  intro tr S hS
  refine ⟨trivial, fun refresh => ⟨trivial, fun now => ⟨trivial, fun epoch => ⟨trivial, fun jti =>
    ⟨trivial, fun createdAt => ⟨trivial, fun familyId => ⟨trivial, fun familyCreatedAt => ?_⟩⟩⟩⟩⟩⟩⟩
  refine wp_run_bind.mpr (wp_createSession (fun json hj => ⟨?_, hS _ _ ?_⟩) (hS _ _ ?_))
  · refine ⟨?_, ?_, ⟨_, hj, user.id_ne, rfl, rfl, ⟨_, rfl⟩, ?_, ?_⟩, rfl⟩
    · simp only [pendingHash, pending_snoc]
      rfl
    · simp only [pendingFamily, pending_snoc]
      rfl
    · intro hk
      simp [Env.tenantOf, hk]
    · intro hk
      simp [Env.tenantOf, hk]
  all_goals
    simp only [append_assoc]
    exact .append (by simp [Unwritten, writesFactor])

theorem calm_issueSession (user : AuthUser) (ip userAgent : String) (mfaVerified : Bool) :
    Calm env (issueSession env user ip userAgent mfaVerified) :=
  kit_issueSession .calm free_of_timed (calm_issueTokens _ _ _ _) fun _ _ _ => trivial

theorem calm_admitUser (identifier : String) (user : AuthUser) (ip userAgent : String) :
    Calm env (admitUser env identifier user ip userAgent) :=
  kit_admitUser .calm free_of_timed (calm_issueMfaTempToken _ _) (calm_issueSession _ _ _ _) _

theorem calm_login (email password tenantId ip userAgent : String) :
    Calm env (login env email password tenantId ip userAgent) := by
  refine .bind (calm_assertNotLocked _) fun _ => .bind (calm_host _ fun _ => trivial) fun ok => ?_
  refine .ite (.bind (.throw _) fun _ => ?_) ?_ <;>
  · refine .bind (calm_host _ fun _ => trivial) fun user => ?_
    split
    · exact calm_recordFailureAndReject _
    · refine .ite (calm_recordFailureAndReject _) ?_
      split
      · exact calm_recordFailureAndReject _
      · exact .ite (calm_admitUser _ _ _ _) (calm_recordFailureAndReject _)

theorem calm_admitAdmin (identifier : String) (admin : AuthUser) (ip userAgent : String) :
    Calm env (admitAdmin env identifier admin ip userAgent) := by
  unfold admitAdmin
  split
  · exact .throw _
  · refine .bind (calm_account _ fun _ => trivial) fun _ => .ite (.bind (calm_issueMfaTempToken _ _) fun _ => .pure _) ?_
    exact .bind (calm_issueSession _ _ _ _) fun _ => .pure _

theorem calm_platformLogin (email password ip userAgent : String) :
    Calm env (platformLogin env email password ip userAgent) := by
  refine .bind (calm_assertNotLocked _) fun _ => .bind (calm_host _ fun _ => trivial) fun admin => ?_
  split
  · exact calm_recordFailureAndReject _
  · split
    · exact calm_recordFailureAndReject _
    · exact .ite (calm_admitAdmin _ _ _ _) (calm_recordFailureAndReject _)

end BymaxAuth
