import BymaxAuth.Mfa.Challenge

/-!
# What a call has done when it writes the record

`disable`, `regenerate_recovery_codes` and the challenge check a code against the account they read first, and
write under the transition's lock, from the record they read there. This module says what such a call has done
when it comes to write: `Acting`.
-/

namespace BymaxAuth

open Concurrency List Path

variable {env : Env} {tr : Trace} {data : MfaRecord}

/-! ### Transitions -/

/-- A transition writes what `mutate` made of the record it read under the lock. -/
theorem transition_writes {userId id : String} {tenantId tenant : Option String}
    {mutate : AuthUser → Option MfaRecord} {k : Unit → Prog Op.Reply (Except AuthError Bool)}
    (h : Path (reliably (transitionMfaRecord env userId tenantId mutate)).run tr
      (.op (.host (.updateMfa id tenant data)) k)) :
    id = userId ∧ tenant = tenantId ∧ ∃ token current, tr = lockedRead env userId tenantId token current ∧
      mutate current = some data := by
  have hw : Robust (fun tr c => ∀ id tenant data, c = .host (.updateMfa id tenant data) → id = userId ∧
      tenant = tenantId ∧ ∃ token current, tr = lockedRead env userId tenantId token current ∧
        mutate current = some data) (fun _ _ => True) (fun _ _ => True) []
      (transitionMfaRecord env userId tenantId mutate) := by
    refine (transitionMfaRecord_robust nofun (fun _ _ _ _ => nofun) (fun _ _ _ _ => nofun) ?_
      fun _ _ _ _ _ _ => nofun).mono (fun _ _ h => h) (fun _ _ _ => trivial) fun _ _ _ => trivial
    rintro token current data hm _ _ _ ⟨⟩
    exact ⟨rfl, rfl, token, current, rfl, hm⟩
  exact Wp.issues (hw.under []) h id tenant data rfl

/-! ### Verified -/

/-- How the code of a call was checked against an account: as a TOTP code of its secret, or as one of its recovery
codes. -/
inductive Checked (env : Env) (code : String) (view : AuthUser) (rawSecret : String) (tr : Trace) : Prop where
  /-- A TOTP code. -/
  | totp {now : ℕ} : ⟨.host .nowUnix, now⟩ ∈ tr →
      env.mfa.totpVerify rawSecret code now env.mfa.totpWindow = true → Checked env code view rawSecret tr
  /-- A recovery code. -/
  | recovery {index : ℕ} : verifyRecoveryCode (view.mfaRecoveryCodes.getD []) (env.recoveryCodeCandidates code) =
      some index → Checked env code view rawSecret tr

theorem Checked.mono {code rawSecret : String} {view : AuthUser} {tr' : Trace} (h : Checked env code view rawSecret tr)
    (htr : tr <+: tr') : Checked env code view rawSecret tr' := by
  cases h with
  | totp hnow hv => exact .totp (htr.subset hnow) hv
  | recovery hindex => exact .recovery hindex

/-- The code of a call was checked against the factor of `view`, whose secret is `rawSecret`. -/
structure Verified (env : Env) (code : String) (view : AuthUser) (rawSecret : String) (tr : Trace) : Prop where
  /-- There is a factor. -/
  enabled : view.mfaEnabled = true
  secret : view.mfaSecret.bind env.mfa.decryptSecret = some rawSecret
  /-- The code. -/
  checked : Checked env code view rawSecret tr

/-- What each of the three makes of the record of `current`, once it has verified. -/
inductive Makes (env : Env) (rawSecret : String) (tr : Trace) (current : AuthUser) : MfaCall → MfaRecord → Prop where
  /-- Nothing. -/
  | disable {userId code : String} {tenantId : Option String} :
      Makes env rawSecret tr current (.disable userId code tenantId) cleared
  /-- The record with the digests of new codes. -/
  | regenerate {userId code : String} {tenantId : Option String} {count : ℕ} {codes : List String}
      {data : MfaRecord} : ⟨.host (.generateRecoveryCodes count), codes⟩ ∈ tr →
      regenerated (codes.map env.identifierHmac) current = some data →
      Makes env rawSecret tr current (.regenerateRecoveryCodes userId code tenantId) data
  /-- The record without a code that was spent, or under the current key. -/
  | challenge {expected : Option SessionKind} {token : MfaTempClaims} {code ip userAgent storedSecret : String}
      {spent : Option String} {data : MfaRecord} :
      (env.mfa.decryptSecret storedSecret = some rawSecret ∨
        ⟨.host (.encrypt (env.mfa.encodeSecretBase32 rawSecret)), storedSecret⟩ ∈ tr) →
      (env.spliced rawSecret storedSecret spent current = some data ∨
        env.rewritten rawSecret storedSecret current = some data) →
      Makes env rawSecret tr current (.challenge expected token code ip userAgent) data

/-- The code of a call that acts on a factor it has verified. -/
def MfaCall.code : MfaCall → Option String
  | .disable _ code _ => some code
  | .regenerateRecoveryCodes _ code _ => some code
  | .challenge _ _ code _ _ => some code
  | _ => none

/-- A call with a code has come to write the record of an account: it read the account, verified the code
against it, took the lock and read the account again. -/
def Acting (env : Env) (call : MfaCall) (code id : String) (tenantId : Option String) (data : MfaRecord)
    (tr : Trace) : Prop :=
  ∃ tr₀ view rawSecret tr₁ token current,
    tr = tr₀ ++ ⟨.host (.findById id tenantId), some view⟩ :: tr₁ ++ lockedRead env id tenantId token current ∧
    firstRead tr₀ = none ∧ Verified env code view rawSecret tr₁ ∧ Makes env rawSecret tr₁ current call data

/-- A part of a call that does not write the record. -/
abbrev Reading (c : Op) : Prop := writesFactor c = false

theorem not_reading {id : String} {tenantId : Option String} : ¬ Reading (.host (.updateMfa id tenantId data)) := nofun

theorem Preliminary.reading {c : Op} (h : Preliminary c) : Reading c := by
  unfold Reading writesFactor
  split
  · exact absurd h id
  · exact absurd h id
  · rfl

/-! ### Management -/

theorem reading_fetch (userId : String) (tenantId : Option String) :
    Only Reading (reliably (fetchUserMfa env userId tenantId)) :=
  (Robust.within (F := fun _ => True) (fun _ => (fetchUserMfa_robust (I := fun _ c => Reading c) rfl).mono
    (fun _ _ h => h) (fun _ _ _ => trivial) fun _ _ _ => trivial) []).only

theorem reading_of_plain (c : Op) (h : Plain c) : Reading c := (quiet_of_plain c h).2

theorem reading_assertNotLocked (identifier : String) : Only Reading (assertNotLocked env identifier) :=
  kit_assertNotLocked .only (fun c hc => reading_of_plain c hc.plain) _

theorem reading_reauthGate (tenantId : Option String) (userId code : String) (view : AuthUser) :
    Only Reading (reauthGate env tenantId userId code view) :=
  kit_reauthGate .only (fun _ _ => rfl) (.throw _) (fun c hc => reading_of_plain c hc.plain)
    (fun _ => .bind (.issue rfl) fun _ => .ite (.pure _) (.issue rfl)) _

/-- The gate lets a call pass whose code was checked against the account it read. -/
theorem reauthGate_returns (tenantId : Option String) (userId code : String) (view : AuthUser) :
    Returns (fun tr' _ => ∃ rawSecret, Verified env code view rawSecret tr') tr
      (reauthGate env tenantId userId code view) := by
  refine .ite (fun _ => .throw _) fun henabled => (Returns.grows _ _).bind fun tr₁ _ _ => ?_
  split
  · exact .throw _
  · next rawSecret hsecret =>
    refine .bind (P := fun tr' ok => ok = true → ∃ now, ⟨.host .nowUnix, now⟩ ∈ tr' ∧
      env.mfa.totpVerify rawSecret code now env.mfa.totpWindow = true) ⟨trivial, fun now => ?_⟩ fun tr₂ ok h => ?_
    · refine Returns.ite (fun _ => .pure nofun) fun hv => .issue fun ok _ => ⟨now, ?_, by simpa using hv⟩
      simp
    · refine .ite (fun hok => .issue fun _ => ?_) fun _ => .bind_throw _
      obtain ⟨now, hnow, hv⟩ := h hok
      exact ⟨rawSecret, by simpa using henabled, hsecret, .totp (mem_append_left _ hnow) hv⟩

theorem reading_revokeAllSessions (tenantId : Option String) (userId : String) :
    Only Reading (revokeAllSessions env tenantId userId) := kit_revokeAllSessions .only reading_of_plain _ _

section Management

variable {userId code id : String} {tenantId tenant : Option String}

theorem disable_writes {k : Unit → Prog Op.Reply (Except AuthError Unit)}
    (h : Path (disable env userId code tenantId).run tr (.op (.host (.updateMfa id tenant data)) k)) :
    id = userId ∧ tenant = tenantId ∧ Acting env (.disable userId code tenantId) code userId tenantId data tr := by
  unfold disable at h
  split at h
  · cases h
  · obtain ⟨tr₁, view, tr₂, rfl, h₁, h₂⟩ := (reading_fetch userId tenantId).past h not_reading
    obtain rfl := (fetch_spec userId tenantId).returns.of_path h₁
    obtain ⟨tr₃, _, tr₄, rfl, h₃, h₄⟩ := (reading_reauthGate tenantId userId code view).past h₂ not_reading
    obtain ⟨rawSecret, hverified⟩ := (reauthGate_returns tenantId userId code view).of_path h₃
    rcases issued h₄ with ⟨k', h₅⟩ | ⟨_, _, tr₅, -, -, h₅⟩
    · obtain ⟨k', h₅⟩ := of_map h₅
      obtain ⟨rfl, rfl, token, current, rfl, hdata⟩ := transition_writes h₅
      cases hdata
      exact ⟨rfl, rfl, [], view, rawSecret, tr₃, token, current, by simp, rfl, hverified, .disable⟩
    · exact absurd ((reading_revokeAllSessions tenantId userId).issues h₅) not_reading

theorem regenerateRecoveryCodes_writes {k : Unit → Prog Op.Reply (Except AuthError (List String))}
    (h : Path (regenerateRecoveryCodes env userId code tenantId).run tr
      (.op (.host (.updateMfa id tenant data)) k)) :
    id = userId ∧ tenant = tenantId ∧
      Acting env (.regenerateRecoveryCodes userId code tenantId) code userId tenantId data tr := by
  unfold regenerateRecoveryCodes at h
  split at h
  · cases h
  · obtain ⟨tr₁, view, tr₂, rfl, h₁, h₂⟩ := (reading_fetch userId tenantId).past h not_reading
    obtain rfl := (fetch_spec userId tenantId).returns.of_path h₁
    obtain ⟨tr₃, _, tr₄, rfl, h₃, h₄⟩ := (reading_reauthGate tenantId userId code view).past h₂ not_reading
    obtain ⟨rawSecret, hverified⟩ := (reauthGate_returns tenantId userId code view).of_path h₃
    obtain ⟨codes, tr₅, rfl, h₅⟩ := stepped h₄ nofun
    rcases issued h₅ with ⟨k', h₆⟩ | ⟨_, replaced, tr₆, -, -, h₆⟩
    · obtain ⟨rfl, rfl, token, current, rfl, hdata⟩ := transition_writes h₆
      refine ⟨rfl, rfl, [], view, rawSecret, tr₃ ++ [⟨.host (.generateRecoveryCodes env.mfa.recoveryCodeCount), codes⟩],
        token, current, by simp, rfl, ⟨hverified.enabled, hverified.secret, ?_⟩, .regenerate mem_concat_self hdata⟩
      exact hverified.checked.mono (prefix_append _ _)
    · cases replaced <;> cases h₆

end Management

/-! ### The challenge -/

theorem reading_verifyMfaTempToken (token : MfaTempClaims) : Only Reading (verifyMfaTempToken env token) :=
  (preliminary_verifyMfaTempToken token).mono fun _ h => h.reading

theorem reading_acceptCode (token : MfaTempClaims) (user : AuthUser) (rawSecret code bfId : String) :
    Only Reading (acceptCode env token user rawSecret code bfId) := by
  refine kit_acceptCode .only (fun _ _ => rfl) (.throw _) (fun _ => rfl) (fun _ => rfl) ?_ _ _
  exact .bind (.issue rfl) fun _ => .ite (.pure _) (.issue rfl)

theorem Accepted.checked {token : MfaTempClaims} {user : AuthUser} {rawSecret code : String} {index : Option ℕ}
    {l : Trace} (h : Accepted env token user rawSecret code index l) : Checked env code user rawSecret l := by
  cases h with
  | totp _ hv => exact .totp mem_cons_self hv
  | recovery _ hindex => exact .recovery hindex

section Challenge

variable {token : MfaTempClaims} {user : AuthUser} {code id : String} {tenant : Option String}
  {k : Unit → Prog Op.Reply (Except AuthError Unit)}

theorem recordChallenge_writes {encryptedSecret rawSecret : String} {underRetiredKey : Bool}
    {recoveryIndex : Option ℕ} (hraw : env.mfa.decryptSecret encryptedSecret = some rawSecret)
    (h : Path (recordChallenge env user encryptedSecret rawSecret underRetiredKey recoveryIndex).run tr
      (.op (.host (.updateMfa id tenant data)) k)) :
    id = user.id ∧ tenant = env.tenantOf user ∧ ∃ l storedSecret spent lockToken current,
      tr = l ++ lockedRead env user.id (env.tenantOf user) lockToken current ∧
      (env.mfa.decryptSecret storedSecret = some rawSecret ∨
        ⟨.host (.encrypt (env.mfa.encodeSecretBase32 rawSecret)), storedSecret⟩ ∈ l) ∧
      (env.spliced rawSecret storedSecret spent current = some data ∨
        env.rewritten rawSecret storedSecret current = some data) := by
  have honly : Only Reading (secretToStore env encryptedSecret rawSecret underRetiredKey) :=
    .ite (.issue rfl) (.pure _)
  have hstored : Returns (fun tr' stored => env.mfa.decryptSecret stored = some rawSecret ∨
      ⟨.host (.encrypt (env.mfa.encodeSecretBase32 rawSecret)), stored⟩ ∈ tr') []
      (secretToStore env encryptedSecret rawSecret underRetiredKey) :=
    .ite (fun _ => .issue fun _ => .inr (by simp)) fun _ => .pure (.inl hraw)
  obtain ⟨l, stored, tr₂, rfl, h₁, h₂⟩ := honly.past h not_reading
  have hs := hstored.of_path h₁
  cases recoveryIndex with
  | some index =>
    obtain ⟨k', h₃⟩ := of_map h₂
    obtain ⟨rfl, rfl, lockToken, current, rfl, hdata⟩ := transition_writes h₃
    exact ⟨rfl, rfl, l, stored, _, lockToken, current, rfl, hs, .inl hdata⟩
  | none =>
    dsimp only at h₂
    split at h₂
    · obtain ⟨k', h₃⟩ := of_map h₂
      obtain ⟨rfl, rfl, lockToken, current, rfl, hdata⟩ := transition_writes h₃
      exact ⟨rfl, rfl, l, stored, none, lockToken, current, rfl, hs, .inr hdata⟩
    · cases h₂

theorem challengeUser_writes
    (h : Path (challengeUser env token user code).run tr (.op (.host (.updateMfa id tenant data)) k)) :
    id = user.id ∧ tenant = env.tenantOf user ∧ ∃ rawSecret tr₁ lockToken current,
      tr = tr₁ ++ lockedRead env user.id (env.tenantOf user) lockToken current ∧
      Verified env code user rawSecret tr₁ ∧ ∀ expected ip userAgent,
        Makes env rawSecret tr₁ current (.challenge expected token code ip userAgent) data := by
  unfold challengeUser at h
  split at h
  · cases h
  · split at h
    · cases h
    · next encryptedSecret hsecret =>
      rw [Option.filter_eq_some_iff] at hsecret
      split at h
      · cases h
      · next rawSecret underRetiredKey hopen =>
        have hraw : env.mfa.decryptSecret encryptedSecret = some rawSecret := by
          rw [MfaSettings.decryptSecret, hopen]
          rfl
        obtain ⟨tr₁, index, tr₂, rfl, h₁, h₂⟩ := (reading_acceptCode token user rawSecret code _).past h not_reading
        obtain ⟨_, haccepted, rfl⟩ := (acceptCode_returns token user rawSecret code _).of_path h₁
        obtain ⟨u, tr₃, rfl, h₃⟩ := stepped h₂ (by rintro ⟨⟩)
        obtain ⟨hid, htenant, l', storedSecret, spent, lockToken, current, rfl, hstored, hdata⟩ :=
          recordChallenge_writes hraw h₃
        refine ⟨hid, htenant, rawSecret,
          tr₁ ++ ⟨.account (.delLf (env.challengeBfId token.tenantId token.sub)), u⟩ :: l', lockToken, current, by simp,
          ⟨hsecret.2, ?_, haccepted.checked.mono (prefix_append _ _)⟩, fun _ _ _ => .challenge ?_ hdata⟩
        · rw [hsecret.1]
          exact hraw
        · exact hstored.imp (fun h => h) fun h => mem_append_right _ (mem_cons_of_mem _ h)

theorem challenge_writes {expected : Option SessionKind} {ip userAgent : String}
    (htrue : ∀ id tenantId u, ⟨.host (.findById id tenantId), some u⟩ ∈ tr → u.id = id)
    {k : Unit → Prog Op.Reply (Except AuthError AuthResult)}
    (h : Path (challenge env expected token code ip userAgent).run tr (.op (.host (.updateMfa id tenant data)) k)) :
    Acting env (.challenge expected token code ip userAgent) code id tenant data tr := by
  rcases issued h with ⟨k', h₁⟩ | ⟨_, user, _, -, -, h₁⟩
  · obtain ⟨l₁, verified, tr₂, rfl, h₂, h₃⟩ := (reading_verifyMfaTempToken token).past h₁ not_reading
    obtain ⟨rfl, -, -⟩ := (verifyMfaTempToken_returns token).of_path h₂
    have hl₁ := (preliminary_verifyMfaTempToken verified).of_path h₂
    split at h₃
    · cases h₃
    · split at h₃
      · cases h₃
      · obtain ⟨l₂, _, tr₃, rfl, h₄, h₅⟩ := (reading_assertNotLocked _).past h₃ not_reading
        have hl₂ := (preliminary_assertNotLocked _).of_path h₄
        obtain ⟨found, tr₄, rfl, h₆⟩ := stepped h₅ nofun
        split at h₆
        · cases h₆
        · next user huser =>
          obtain ⟨rfl, htenant⟩ := Option.filter_eq_some_iff.mp huser
          obtain ⟨k'', h₇⟩ := of_map (f := fun _ => user) h₆
          obtain ⟨rfl, rfl, rawSecret, tr₁, lockToken, current, rfl, hverified, hmakes⟩ := challengeUser_writes h₇
          have hid : user.id = verified.sub := htrue verified.sub verified.tenantId user (by simp)
          have htenant : env.tenantOf user = verified.tenantId := by simpa using htenant
          refine ⟨l₁ ++ l₂, user, rawSecret, tr₁, lockToken, current, ?_, ?_, hverified, hmakes _ _ _⟩
          · rw [hid, htenant]
            simp
          · refine firstRead_eq_none fun ev hev => ?_
            rcases mem_append.mp hev with hev | hev
            · exact hl₁ ev hev
            · exact hl₂ ev hev
  · exact absurd ((within_issueSession user ip userAgent true).only.issues h₁).1 not_reading

end Challenge

/-- A call with a code that comes to write the record is acting on what it has verified. -/
theorem call_writes {call : MfaCall} {code id : String} {tenantId : Option String} (hcode : call.code = some code)
    (htrue : ∀ id tenantId u, ⟨.host (.findById id tenantId), some u⟩ ∈ tr → u.id = id)
    {k : Unit → Prog Op.Reply (Except AuthError MfaAnswer)}
    (h : Path (call.act env).run tr (.op (.host (.updateMfa id tenantId data)) k)) :
    Acting env call code id tenantId data tr := by
  cases call with
  | disable userId code' tenant =>
    cases hcode
    obtain ⟨k', h⟩ := of_map (f := fun _ => MfaAnswer.done) h
    obtain ⟨rfl, rfl, hacting⟩ := disable_writes h
    exact hacting
  | regenerateRecoveryCodes userId code' tenant =>
    cases hcode
    obtain ⟨k', h⟩ := of_map (f := MfaAnswer.codes) h
    obtain ⟨rfl, rfl, hacting⟩ := regenerateRecoveryCodes_writes h
    exact hacting
  | challenge expected token code' ip userAgent =>
    cases hcode
    obtain ⟨k', h⟩ := of_map (f := MfaAnswer.session) h
    exact challenge_writes htrue h
  | setup _ _ _ | verifyAndEnable _ _ _ | resetMfa _ _ _ => cases hcode

end BymaxAuth
