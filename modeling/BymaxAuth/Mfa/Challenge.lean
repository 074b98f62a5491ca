import BymaxAuth.Mfa.Discipline

/-!
# What a challenge has done

The handler of a challenge up to a given point. It touches no session until it has passed (`passChallenge`), so
whoever stores a session has consumed the token before that; and a challenge that is answered with an invalid
code has consumed nothing.
-/

namespace BymaxAuth

open Concurrency List

variable {env : Env} {tr : Trace}

/-! ### What is issued -/

/-- A command that is none on the sessions. -/
def Sessionless (c : Op) : Prop := ∀ cmd, c ≠ .session cmd

/-- Whether a command stores a new session. -/
def creates : Op → Bool
  | .session (.createSession _) => true
  | _ => false

/-- No new session was stored. -/
def Uncreated (tr : Trace) : Prop := ∀ ev ∈ tr, creates ev.op = false

/-- The exchange consumed the marker of a challenge. -/
def consumesMarker (hash : String) (ev : Exchange) : Bool :=
  match ev with
  | ⟨.mfa (.challengeConsume _ jtiHash _), true⟩ => jtiHash = hash
  | ⟨.mfa (.delTemp jtiHash), true⟩ => jtiHash = hash
  | _ => false

theorem Sessionless.not_creates {c : Op} (h : Sessionless c) : creates c = false := by
  unfold creates
  split
  · exact absurd rfl (h _)
  · rfl

theorem sessionless_host (c : HostCmd) : Sessionless (.host c) := fun _ => nofun

theorem sessionless_account (c : AccountCmd) : Sessionless (.account c) := fun _ => nofun

theorem sessionless_mfa (c : MfaCmd) : Sessionless (.mfa c) := fun _ => nofun

theorem Uncreated.nil : Uncreated [] := fun _ h => nomatch h

variable {ev : Exchange} {token : MfaTempClaims} {code : String} {expected : Option SessionKind}

theorem Uncreated.snoc (h : Uncreated tr) (hev : creates ev.op = false) : Uncreated (tr ++ [ev]) := by
  intro ev' hev'
  rcases mem_append.mp hev' with hmem | hmem
  · exact h ev' hmem
  · rw [mem_singleton.mp hmem]
    exact hev

/-! ### Transitions -/

/-- A transition asks only the host and the lock, and is not answered with an invalid code. -/
theorem within_transition (userId : String) (tenantId : Option String) (mutate : AuthUser → Option MfaRecord) :
    Within Sessionless NotInvalid (reliably (transitionMfaRecord env userId tenantId mutate)) := by
  refine Robust.within (fun tr => ?_) []
  refine (transitionMfaRecord_robust (I := fun _ c => Sessionless c) (sessionless_host _)
    (fun _ => sessionless_mfa _) (fun _ => sessionless_host _) (fun _ _ _ _ => sessionless_host _)
    fun _ _ _ => sessionless_mfa _).mono (fun _ _ h => h) (fun _ _ _ => trivial) fun _ _ h => h.ne

/-! ### Up to the session -/

theorem sessionless_of_tally (c : Op) (h : Tally c) : Sessionless c := by
  rintro cmd rfl
  exact h

theorem within_verifyMfaTempToken (token : MfaTempClaims) :
    Within Sessionless NotInvalid (verifyMfaTempToken env token) :=
  kit_verifyMfaTempToken .within sessionless_of_tally (sessionless_host _) _

theorem within_assertNotLocked (identifier : String) :
    Within Sessionless NotInvalid (assertNotLocked env identifier) :=
  kit_assertNotLocked .within sessionless_of_tally _

theorem within_recordChallenge (user : AuthUser) (encryptedSecret rawSecret : String) (underRetiredKey : Bool)
    (recoveryIndex : Option ℕ) :
    Within Sessionless NotInvalid
      (recordChallenge env user encryptedSecret rawSecret underRetiredKey recoveryIndex) := by
  refine .bind (.ite (.issue (sessionless_host _)) (.pure _)) fun stored => ?_
  cases recoveryIndex with
  | some index => exact (within_transition _ _ _).map
  | none => exact .ite (within_transition _ _ _).map (.pure _)

theorem only_acceptCode (token : MfaTempClaims) (user : AuthUser) (rawSecret code bfId : String) :
    Only Sessionless (acceptCode env token user rawSecret code bfId) :=
  kit_acceptCode .only (fun _ _ => sessionless_account _) (.throw _) (fun _ => sessionless_mfa _)
    (fun _ => sessionless_mfa _)
    (.bind (.issue (sessionless_host _)) fun _ => .ite (.pure _) (.issue (sessionless_mfa _))) _ _

theorem only_challengeUser (token : MfaTempClaims) (user : AuthUser) (code : String) :
    Only Sessionless (challengeUser env token user code) := by
  unfold challengeUser
  split
  · exact .throw _
  · split
    · exact .throw _
    · split
      · exact .throw _
      · refine .bind (only_acceptCode _ _ _ _ _) fun index => ?_
        exact .bind (.issue (sessionless_account _)) fun _ => (within_recordChallenge _ _ _ _ _).only

/-- A challenge touches no session before it has passed. -/
theorem only_passChallenge (expected : Option SessionKind) (token : MfaTempClaims) (code : String) :
    Only Sessionless (passChallenge env expected token code) := by
  refine .bind (within_verifyMfaTempToken token).only fun verified => ?_
  refine .ite (.throw _) (.ite (.throw _) (.bind (within_assertNotLocked _).only fun _ => ?_))
  refine .bind (.issue (sessionless_host _)) fun found => ?_
  split
  · exact .throw _
  · exact .bind (only_challengeUser _ _ _) fun _ => .pure _

/-! ### The session -/

/-- A command that stores neither a session nor anything of a second factor. -/
def Quiet (c : Op) : Prop := creates c = false ∧ writesFactor c = false

/-- A command that looks an account up by its address, or counts a failure of one. -/
def guesses (c : Op) : Bool :=
  match c with
  | .host (.findByEmail ..) | .account (.incrLf ..) => true
  | _ => false

/-- A command on the way to a session that has been granted. -/
def Granting (c : Op) : Prop := writesFactor c = false ∧ guesses c = false

theorem granting_of_timed (c : Op) (h : Timed c) : Granting c := by
  cases c with
  | account c | host c => cases c <;> first | exact absurd h id | exact ⟨rfl, rfl⟩
  | mfa c => exact absurd h id
  | session c => exact ⟨rfl, rfl⟩

theorem quiet_of_plain (c : Op) (h : Plain c) : Quiet c := by
  cases c with
  | session c => cases c <;> first | exact absurd h id | exact ⟨rfl, rfl⟩
  | account c => exact ⟨rfl, rfl⟩
  | host c | mfa c => exact absurd h id

theorem within_enforceSessionLimit (tenantId : Option String) (userId newHash : String) :
    Within Quiet NotInvalid (enforceSessionLimit env tenantId userId newHash) :=
  kit_enforceSessionLimit .within quiet_of_plain _ _ _ ⟨rfl, rfl⟩

theorem within_issueSession (user : AuthUser) (ip userAgent : String) (mfaVerified : Bool) :
    Within Granting NotInvalid (issueSession env user ip userAgent mfaVerified) :=
  kit_issueSession .within granting_of_timed (kit_issueTokens .within granting_of_timed fun _ => ⟨rfl, rfl⟩)
    fun _ _ => ⟨rfl, rfl⟩

/-- A new session is stored where none was stored before. -/
theorem issueSession_creates (hun : Uncreated tr) (user : AuthUser) (ip userAgent : String) (mfaVerified : Bool) :
    Triple (fun tr c => creates c = true → Uncreated tr) (fun _ _ => True) (fun _ => True) tr
      (issueSession env user ip userAgent mfaVerified) := by
  refine .bind (Q := fun _ _ => True) ?_ fun tr₁ result _ => .ite (fun _ => .bind (Q := fun _ _ => True) ?_
    fun _ _ _ => .pure trivial) fun _ => .pure trivial
  · -- Seven questions come first, none of them to the sessions.
    refine ⟨nofun, fun _ => ⟨nofun, fun _ => ⟨nofun, fun _ => ⟨nofun, fun _ => ⟨nofun, fun _ => ⟨nofun, fun _ =>
      ⟨nofun, fun _ => ?_⟩⟩⟩⟩⟩⟩⟩
    refine Triple.bind (Q := fun _ _ => True) (Triple.bind (Q := fun tr' _ => Uncreated tr') ?_
      fun tr' json h => ⟨fun _ => h, fun _ => trivial⟩) fun _ _ _ => .pure trivial
    unfold encode
    split
    · exact .pure <| ((((((hun.snoc rfl).snoc rfl).snoc rfl).snoc rfl).snoc rfl).snoc rfl).snoc rfl
    · exact .throw trivial
  · refine (within_enforceSessionLimit _ _ _ tr₁).mono (fun _ c h hc => nomatch h.1.symm.trans hc) fun _ r _ => ?_
    cases r <;> trivial

/-- A challenge that has passed has consumed its token. -/
theorem Passed.consumed {user : AuthUser} (h : Passed env token code user tr) :
    ∃ ev ∈ tr, consumesMarker (env.jtiHash token.jti) ev = true := by
  obtain ⟨tr₁, rawSecret, index, l, u, tr₂, -, haccepted, rfl, -⟩ := h.passed
  have hmem : ∀ ev ∈ l, ev ∈ tr₁ ++ l ++ [⟨.account (.delLf (env.challengeBfId token.tenantId token.sub)), u⟩] ++ tr₂ :=
    fun ev hev => by simp [hev]
  cases haccepted with
  | totp | recovery => exact ⟨_, hmem _ (mem_cons_of_mem _ mem_cons_self), decide_eq_true rfl⟩

/-- A challenge stores a session once it has passed, and stores one. -/
theorem challenge_creates {ip userAgent : String} {s : NewSession}
    {k : Unit → Prog Op.Reply (Except AuthError AuthResult)}
    (h : Path (challenge env expected token code ip userAgent).run tr (.op (.session (.createSession s)) k)) :
    ∃ tr₁ user tr₂, tr = tr₁ ++ tr₂ ∧ Passed env token code user tr₁ ∧ Uncreated tr := by
  obtain ⟨tr₁, user, tr₂, rfl, h₁, h₂⟩ := (only_passChallenge expected token code).past h fun hs => hs _ rfl
  refine ⟨tr₁, user, tr₂, rfl, (passChallenge_spec expected token code).returns.of_path h₁, fun ev hev => ?_⟩
  rcases mem_append.mp hev with hev | hev
  · exact ((only_passChallenge expected token code).of_path h₁ ev hev).not_creates
  · exact Wp.issues (issueSession_creates .nil user ip userAgent true) h₂ rfl ev hev

/-! ### Invalid codes -/

/-- Nothing was consumed. -/
def Unconsumed (tr : Trace) : Prop := ∀ ev ∈ tr, ∀ hash, consumesMarker hash ev = false

theorem Unconsumed.snoc (h : Unconsumed tr) (hev : ∀ hash, consumesMarker hash ev = false) :
    Unconsumed (tr ++ [ev]) := by
  intro ev' hev'
  rcases mem_append.mp hev' with hmem | hmem
  · exact h ev' hmem
  · rw [mem_singleton.mp hmem]
    exact hev

theorem Preliminary.unconsumed (h : Preliminary ev.op) (hash : String) : consumesMarker hash ev = false := by
  unfold consumesMarker
  split
  · exact absurd h id
  · exact absurd h id
  · rfl

theorem rejectCode_failsWith {α : Type} (hun : Unconsumed tr) (bfId : String) :
    FailsWith .mfaInvalidCode Unconsumed tr (rejectCode env bfId : Act α) :=
  ⟨trivial, fun _ _ => hun.snoc fun _ => rfl⟩

theorem acceptCode_failsWith (hun : Unconsumed tr) (token : MfaTempClaims) (user : AuthUser)
    (rawSecret code bfId : String) :
    FailsWith .mfaInvalidCode Unconsumed tr (acceptCode env token user rawSecret code bfId) := by
  refine .ite (fun _ => ?_) fun _ => ?_
  · refine .bind (Q := fun tr' ok => ok = false → Unconsumed tr')
      (.step fun _ => .ite (fun _ => .pure _) fun _ => .issue _) ⟨trivial, fun now => ?_⟩ fun tr' ok h => ?_
    · refine Returns.ite (fun _ => .pure fun _ => hun.snoc fun _ => rfl) fun _ => .issue ?_
      rintro _ rfl
      exact (hun.snoc fun _ => rfl).snoc fun _ => rfl
    · exact .ite (fun _ => .pure _) fun hok => rejectCode_failsWith (h (by simpa using hok)) _
  · refine .bind (Q := fun tr' _ => Unconsumed tr') ?_ ?_ fun tr' index h => ?_
    · unfold acceptRecoveryCode
      split
      · exact .pure _
      · exact .step fun _ => .ite (fun _ => .pure _) fun _ => .pure _
    · unfold acceptRecoveryCode
      split
      · exact .pure hun
      · exact ⟨trivial, fun _ => Returns.ite (fun _ => .pure (hun.snoc fun _ => rfl))
          fun _ => .pure (hun.snoc fun _ => rfl)⟩
    · split
      · exact rejectCode_failsWith h _
      · exact .step fun _ => .ite (fun _ => .pure _) fun _ => .throw nofun

theorem challengeUser_failsWith (hun : Unconsumed tr) (token : MfaTempClaims) (user : AuthUser) (code : String) :
    FailsWith .mfaInvalidCode Unconsumed tr (challengeUser env token user code) := by
  unfold challengeUser
  split
  · next hblocked => exact .throw fun he => absurd he (assertNotBlocked_ne hblocked)
  · split
    · exact .throw nofun
    · split
      · exact .throw nofun
      · refine .bind (acceptCode_failsWith hun _ _ _ _ _) (Returns.grows _ _) fun _ index _ => .step fun _ => ?_
        exact (within_recordChallenge _ _ _ _ _).failsWith fun h => h rfl

theorem passChallenge_failsWith (expected : Option SessionKind) (token : MfaTempClaims) (code : String) :
    FailsWith .mfaInvalidCode Unconsumed [] (passChallenge env expected token code) := by
  refine .bind ((within_verifyMfaTempToken token).failsWith fun h => h rfl)
    ((preliminary_verifyMfaTempToken token).returns []) ?_
  rintro _ verified ⟨l₁, rfl, hl₁⟩
  refine .ite (fun _ => .throw nofun) fun _ => .ite (fun _ => .throw nofun) fun _ => ?_
  refine .bind ((within_assertNotLocked _).failsWith fun h => h rfl) ((preliminary_assertNotLocked _).returns _) ?_
  rintro _ _ ⟨l₂, rfl, hl₂⟩
  refine .step fun found => ?_
  split
  · exact .throw nofun
  · refine .bind (challengeUser_failsWith (Unconsumed.snoc (fun ev hev hash => ?_) fun _ => rfl) _ _ _)
      (Returns.grows _ _) fun _ _ _ => .pure _
    rcases mem_append.mp hev with hev | hev
    · exact (hl₁ ev hev).unconsumed hash
    · exact (hl₂ ev hev).unconsumed hash

/-- A challenge that is answered with an invalid code read the marker of its token and consumed nothing. -/
theorem challenge_invalid {ip userAgent : String}
    (h : Path (challenge env expected token code ip userAgent).run tr (.ret (.error .mfaInvalidCode))) :
    ⟨.account (.getTemp (env.jtiHash token.jti)), some token.sub⟩ ∈ tr ∧ Unconsumed tr := by
  rcases Path.failed h with h | ⟨_, user, _, _, _, h⟩
  · refine ⟨?_, (passChallenge_failsWith expected token code).of_path h⟩
    rcases Path.failed h with h | ⟨tr₁, _, tr₂, rfl, h₁, -⟩
    · exact absurd rfl (Wp.ends (within_verifyMfaTempToken token []) h _ rfl)
    · exact mem_append_left _ ((verifyMfaTempToken_returns token).of_path h₁).2.2
  · exact absurd rfl (Wp.ends (within_issueSession user ip userAgent true []) h _ rfl)

end BymaxAuth
