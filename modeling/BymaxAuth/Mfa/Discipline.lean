import BymaxAuth.Engine.Answers

/-!
# What the calls of the second factor do

Every call of the second factor obeys (`Obeys`), and what its answer says about its exchanges.

A transition that has answered left four or five exchanges, always the same (`transitionTrace`): a token was
drawn, the lock taken with it, the record read, what `mutate` made of it written if it made something, and the
lock released. A call that changes the factor then swept the account's sessions and bumped its epoch
(`Changed`).

A challenge that has passed (`Passed`) has read the account first, and consumed its token: in the fused script
together with the marking of a TOTP code, or by itself after a recovery code was claimed. For a recovery code
(`SpentCode`) a transition came after that, which took the digest out of the record or found nothing to take.
-/

namespace BymaxAuth

open Concurrency List Option Returns Unwritten

variable {env : Env} {tr : Trace} {α : Type} {user : AuthUser}

/-! ### Traces -/

/-- What a write of the record leaves, if there was one. -/
def written (id : String) (tenantId : Option String) : Option MfaRecord → Trace
  | some data => [⟨.host (.updateMfa id tenantId data), ()⟩]
  | none => []

/-- The exchanges of a transition up to its write. -/
def lockedRead (env : Env) (id : String) (tenantId : Option String) (token : String) (current : AuthUser) : Trace :=
  [⟨.host .generateLockToken, token⟩,
    ⟨.mfa (.acquireLock (env.mfaLockId tenantId id) token mfaTransitionLockTtlSeconds), true⟩,
    ⟨.host (.findById id tenantId), some current⟩]

/-- The exchanges of a transition that has answered. -/
def transitionTrace (env : Env) (id : String) (tenantId : Option String) (token : String) (current : AuthUser)
    (data : Option MfaRecord) (released : Bool) : Trace :=
  lockedRead env id tenantId token current ++
    (written id tenantId data ++ [⟨.mfa (.releaseLock (env.mfaLockId tenantId id) token), released⟩])

/-- A second factor was changed to `data`, the sessions swept and the epoch bumped. -/
def Changed (env : Env) (id : String) (tenantId : Option String) (data : MfaRecord) (tr : Trace) : Prop :=
  ∃ tr₁ token current released n epoch,
    tr = tr₁ ++ transitionTrace env id tenantId token current (some data) released ++
      [⟨.session (.invalidateUserSessions (env.subjectHash tenantId id)), n⟩,
        ⟨.account (.bumpEp (env.subjectHash tenantId id)), epoch⟩]

theorem firstRead_append (tr tr' : Trace) : firstRead (tr ++ tr') = (firstRead tr).or (firstRead tr') := by
  simp [firstRead, List.findSome?_append]

theorem firstRead_of_pre {tr' : Trace} (h : firstRead tr = some user) (htr : tr <+: tr') :
    firstRead tr' = some user := by
  obtain ⟨rest, rfl⟩ := htr
  rw [firstRead_append, h, some_or]

theorem Mutates.mono {tr' : Trace} {current : AuthUser} {data : MfaRecord} (h : Mutates env tr current data)
    (htr : tr <+: tr') : Mutates env tr' current data := by
  cases h with
  | cleared => exact .cleared
  | enrolled hget htake => exact .enrolled (htr.subset hget) (htr.subset htake)
  | regenerated hdraw hdata => exact .regenerated (htr.subset hdraw) hdata
  | challenged hread hsecret hraw hstored hdata =>
    exact .challenged (firstRead_of_pre hread htr) hsecret hraw (hstored.imp id fun h => htr.subset h) hdata

theorem Unwritten.nil : Unwritten [] := fun _ h => nomatch h

theorem Unwritten.snoc (h : Unwritten tr) {ev : Exchange} (hev : writesFactor ev.op = false) :
    Unwritten (tr ++ [ev]) :=
  h.append fun _ hx => by
    rw [mem_singleton.mp hx]
    exact hev

/-! ### Calm parts -/

/-- A calm part of a handler, with what its answer says. -/
theorem Calm.spec {P : Trace → α → Prop} {x : Act α} (hx : Calm env x) (h : Returns P tr x) :
    Triple (Obeys env) (fun tr' a => Extends tr tr' ∧ P tr' a) (fun _ => True) tr x := by
  refine ((hx tr (fun tr' _ => Extends tr tr') fun _ _ h => h).and h).mono (fun _ _ h => h) ?_
  rintro tr' (e | a) ⟨hext, hP⟩
  · trivial
  · exact ⟨hext, hP a rfl⟩

/-- A calm part of a handler. -/
theorem Calm.triple {x : Act α} (hx : Calm env x) :
    Triple (Obeys env) (fun tr' _ => Extends tr tr') (fun _ => True) tr x :=
  (hx.spec (grows x tr)).mono (fun _ _ h => h.1) fun _ h => h

/-- A code is verified at the time just read, and only then marked used. -/
theorem calm_marks {secret code : String} {c : Op} {x : Act Bool}
    (hx : ∀ tr S, Obeys env tr c → (∀ r r', S (tr ++ [⟨c, r⟩]) r') → Wp (Obeys env) S tr x.run)
    (hc : writesFactor c = false)
    (hm : ∀ tr now, env.mfa.totpVerify secret code now env.mfa.totpWindow = true →
      Obeys env (tr ++ [⟨.host .nowUnix, now⟩]) c) :
    Calm env (do
      let now ← Act.host .nowUnix
      if !env.mfa.totpVerify secret code now env.mfa.totpWindow then pure false else x) := by
  intro tr S hS
  refine ⟨trivial, fun now => ?_⟩
  have hext : Extends tr (tr ++ [⟨.host .nowUnix, now⟩]) := .append (by simp [Unwritten, writesFactor])
  show Wp (Obeys env) S _ (ExceptT.run (if _ then _ else _))
  split_ifs with hv
  · exact hS _ _ hext
  · refine hx _ S (hm tr now (by simpa using hv)) fun r r' => hS _ _ (hext.trans (.append ?_))
    intro ev hev
    cases mem_singleton.mp hev
    exact hc

theorem calm_verifyTotpWithAntiReplay (tenantId : Option String) (userId secret code : String) :
    Calm env (verifyTotpWithAntiReplay env tenantId userId secret code) :=
  calm_marks (c := .mfa (.markTotpUsed (env.replayId tenantId userId code) env.antiReplayTtlSeconds))
    (fun _ _ ho hS => ⟨ho, fun r => hS r _⟩) rfl
    fun tr now hv => ⟨⟨tr, now, tenantId, userId, secret, code, rfl, rfl, hv⟩, rfl⟩

theorem calm_assertReauthenticated (tenantId : Option String) (userId : String)
    (passwordHash password : Option String) :
    Calm env (assertReauthenticated env tenantId userId passwordHash password) := by
  unfold assertReauthenticated
  split
  · exact .bind (calm_host _ fun _ => trivial) fun _ => .ite (.throw _) (.pure _)
  · refine .bind (calm_assertNotLocked _) fun _ => ?_
    exact .ite (calm_account _ fun _ => trivial) (calm_recordFailureAndReject _)

theorem calm_setupResultFromRecord (email : String) (data : MfaSetupData) :
    Calm env (setupResultFromRecord env email data) := by
  unfold setupResultFromRecord
  split
  · exact .pure _
  · exact .throw _

theorem calm_reauthGate (tenantId : Option String) (userId code : String) (view : AuthUser) :
    Calm env (reauthGate env tenantId userId code view) :=
  kit_reauthGate .calm (fun _ _ _ => trivial) (.throw _) (fun c hc => free_of_plain c hc.plain)
    (fun _ => calm_verifyTotpWithAntiReplay _ _ _ _) _

variable (token : MfaTempClaims)

theorem calm_verifyMfaTempToken : Calm env (verifyMfaTempToken env token) :=
  kit_verifyMfaTempToken .calm (fun c hc => free_of_plain c hc.plain) (fun _ => trivial) _

theorem calm_acceptTotp (rawSecret code : String) : Calm env (acceptTotp env token rawSecret code) :=
  calm_marks (c := .mfa (.challengeConsume (env.replayId token.tenantId token.sub code) (env.jtiHash token.jti)
      env.antiReplayTtlSeconds)) (fun _ _ ho hS => ⟨ho, fun r => hS r _⟩) rfl
    fun tr now hv => ⟨⟨tr, now, token.tenantId, token.sub, rawSecret, code, rfl, rfl, hv⟩, rfl⟩

theorem calm_acceptCode (user : AuthUser) (rawSecret code bfId : String) :
    Calm env (acceptCode env token user rawSecret code bfId) :=
  kit_acceptCode .calm (fun _ _ _ => trivial) (.throw _) (fun _ _ => rfl) (fun _ _ => trivial) (calm_acceptTotp _ _ _) _ _

/-! ### Transitions -/

/-- What a failure of a transition leaves: no exchange is undone, and no code was found invalid. -/
structure Spoiled (tr tr' : Trace) (e : AuthError) : Prop where
  /-- The trace only grew. -/
  pre : tr <+: tr'
  /-- It is about no code. -/
  ne : NotInvalid e

theorem Spoiled.append (tr l : Trace) {e : AuthError} (he : NotInvalid e) : Spoiled tr (tr ++ l) e :=
  ⟨prefix_append tr l, he⟩

section Transition

variable {I : Trace → Op → Prop} {userId : String} {tenantId : Option String} {mutate : AuthUser → Option MfaRecord}

theorem fetchUserMfa_robust (hI : I tr (.host (.findById userId tenantId))) :
    Robust I (fun tr' user => tr' = tr ++ [⟨.host (.findById userId tenantId), some user⟩]) (Spoiled tr) tr
      (fetchUserMfa env userId tenantId) := by
  refine .call hI ⟨prefix_refl tr, nofun⟩ (fun r => .append _ _ nofun) fun found => ?_
  cases found with
  | none => exact .throw (.append _ _ nofun)
  | some user =>
    dsimp only
    split
    · next hblocked => exact .throw (.append _ _ (assertNotBlocked_ne hblocked))
    · exact .pure rfl

theorem transitionLocked_robust (hfind : I tr (.host (.findById userId tenantId)))
    (hwrite : ∀ current data, mutate current = some data →
      I (tr ++ [⟨.host (.findById userId tenantId), some current⟩]) (.host (.updateMfa userId tenantId data))) :
    Robust I (fun tr' replaced => ∃ current, replaced = (mutate current).isSome ∧
        tr' = tr ++ ⟨.host (.findById userId tenantId), some current⟩ :: written userId tenantId (mutate current))
      (Spoiled tr) tr (transitionLocked env userId tenantId mutate) := by
  refine .bind (fetchUserMfa_robust hfind) ?_
  rintro tr₂ current rfl
  split
  · next hm => exact .pure ⟨current, by rw [hm]; rfl, by rw [hm]; rfl⟩
  · next data hm =>
    refine .call (hwrite current data hm) (.append _ _ nofun) (fun _ => ?_) fun _ =>
      .pure ⟨current, by rw [hm]; rfl, by rw [hm, append_assoc]; rfl⟩
    rw [append_assoc]
    exact .append _ _ nofun

/-- A transition, whatever the faults are and whatever a handler may issue where (`I`), as long as it may issue
the transition's five commands where a transition does. -/
theorem transitionMfaRecord_robust (hdraw : I tr (.host .generateLockToken))
    (hacquire : ∀ token, I (tr ++ [⟨.host .generateLockToken, token⟩])
      (.mfa (.acquireLock (env.mfaLockId tenantId userId) token mfaTransitionLockTtlSeconds)))
    (hfind : ∀ token, I (tr ++ [⟨.host .generateLockToken, token⟩] ++
      [⟨.mfa (.acquireLock (env.mfaLockId tenantId userId) token mfaTransitionLockTtlSeconds), true⟩])
      (.host (.findById userId tenantId))) (hwrite : ∀ token current data, mutate current = some data →
      I (tr ++ lockedRead env userId tenantId token current) (.host (.updateMfa userId tenantId data)))
    (hrelease : ∀ token tr', ⟨.mfa (.acquireLock (env.mfaLockId tenantId userId) token
      mfaTransitionLockTtlSeconds), true⟩ ∈ tr' → I tr' (.mfa (.releaseLock (env.mfaLockId tenantId userId) token))) :
    Robust I (fun tr' replaced => ∃ token current released, replaced = (mutate current).isSome ∧
        tr' = tr ++ transitionTrace env userId tenantId token current (mutate current) released)
      (Spoiled tr) tr (transitionMfaRecord env userId tenantId mutate) := by
  refine .ask hdraw fun token => .call (hacquire token) (.append _ _ nofun) (fun _ => ?_) fun acquired => ?_
  · rw [append_assoc]
    exact .append _ _ nofun
  cases acquired with
  | false =>
    rw [append_assoc]
    exact .throw_bind (.append _ _ nofun)
  | true =>
    refine .settle (transitionLocked_robust (hfind token) fun current data hm => ?_) ?_ ?_
    · rw [append_assoc, append_assoc]
      exact hwrite token current data hm
    · rintro tr₂ replaced ⟨current, hrep, rfl⟩
      simp only [append_assoc]
      refine .discard_call (hrelease token _ (by simp)) (.append _ _ nofun) (fun _ => ?_) fun released => ?_
      · rw [append_assoc]
        exact .append _ _ nofun
      · exact .pure ⟨token, current, released, hrep, by simp [transitionTrace, lockedRead]⟩
    · rintro tr₂ error ⟨htr₂, herror⟩
      have hpre : tr <+: tr₂ := by
        refine List.IsPrefix.trans ?_ htr₂
        rw [append_assoc]
        exact prefix_append _ _
      refine .discard_call (hrelease token _ (htr₂.subset (by simp))) ⟨hpre, nofun⟩ (fun _ => ?_)
        fun _ => .throw ?_
      · exact ⟨hpre.trans (prefix_append _ _), nofun⟩
      · exact ⟨hpre.trans (prefix_append _ _), herror⟩

/-- A transition obeys: what `mutate` makes of the record has to be something this handler may write. -/
theorem transitionMfaRecord_obeys (hun : Unwritten tr)
    (hmut : ∀ current data, mutate current = some data → Mutates env tr current data) :
    Robust (Obeys env) (fun tr' replaced => ∃ token current released, replaced = (mutate current).isSome ∧
        tr' = tr ++ transitionTrace env userId tenantId token current (mutate current) released)
      (Spoiled tr) tr (transitionMfaRecord env userId tenantId mutate) := by
  refine transitionMfaRecord_robust trivial (fun token => ⟨?_, rfl⟩) (fun _ => trivial) ?_ fun _ _ h => h
  · simp only [pendingLock, pending_snoc]
    rfl
  · intro token current data hm
    refine ⟨?_, tr ++ [⟨.host .generateLockToken, token⟩], token, current, ?_, ?_⟩
    · exact hun.append (by simp [lockedRead, Unwritten, writesFactor])
    · rw [append_assoc]
      rfl
    · exact (hmut current data hm).mono (prefix_append _ _)

end Transition

/-- A transition of a call whose stores do not fail. -/
theorem transition_spec {userId : String} {tenantId : Option String} {mutate : AuthUser → Option MfaRecord}
    (hun : Unwritten tr)
    (hmut : ∀ current data, mutate current = some data → Mutates env tr current data) :
    Triple (Obeys env) (fun tr' replaced => ∃ token current released, replaced = (mutate current).isSome ∧
        tr' = tr ++ transitionTrace env userId tenantId token current (mutate current) released)
      (fun _ => True) tr (reliably (transitionMfaRecord env userId tenantId mutate)) :=
  ((transitionMfaRecord_obeys hun hmut).triple []).mono (fun _ _ h => h) fun _ _ => trivial

theorem fetch_spec (userId : String) (tenantId : Option String) :
    Triple (Obeys env) (fun tr' user => tr' = tr ++ [⟨.host (.findById userId tenantId), some user⟩])
      (fun _ => True) tr (reliably (fetchUserMfa env userId tenantId)) :=
  ((fetchUserMfa_robust trivial).triple []).mono (fun _ _ h => h) fun _ _ => trivial

theorem revokeAllSessions_spec (tenantId : Option String) (userId : String) :
    Triple (Obeys env) (fun tr' _ => ∃ n epoch, tr' = tr ++
        [⟨.session (.invalidateUserSessions (env.subjectHash tenantId userId)), n⟩,
          ⟨.account (.bumpEp (env.subjectHash tenantId userId)), epoch⟩])
      (fun _ => True) tr (revokeAllSessions env tenantId userId) :=
  ⟨trivial, fun n => ⟨trivial, fun epoch => ⟨n, epoch, append_assoc _ _ _⟩⟩⟩

/-! ### Enrolment -/

theorem generateSetupMaterial_spec (hun : Unwritten tr) :
    Triple (Obeys env) (fun tr' material => Proposes env tr' material.2.2) (fun _ => True) tr
      (generateSetupMaterial env) := by
  refine .step trivial fun secret => .step trivial fun codes => .step trivial fun wire =>
    .step trivial fun wire' => .pure ⟨?_, env.mfa.recoveryCodeCount, codes, by simp, rfl⟩
  exact (((hun.snoc rfl).snoc rfl).snoc rfl).snoc rfl

theorem pendingSetup_spec (hun : Unwritten tr) (userId : String) (tenantId : Option String) (email : String) :
    Triple (Obeys env) (fun _ _ => True) (fun _ => True) tr (pendingSetup env userId tenantId email) := by
  have hrecord : ∀ tr' data, Triple (Obeys env) (fun _ _ => True) (fun _ => True) tr'
      (setupResultFromRecord env email data) :=
    fun tr' data => (calm_setupResultFromRecord email data).triple.mono (fun _ _ _ => trivial) fun _ h => h
  refine .step trivial fun existing => ?_
  cases existing with
  | some existing => exact hrecord _ _
  | none =>
    refine .bind (generateSetupMaterial_spec (hun.snoc rfl)) fun tr₁ material hmaterial => ?_
    refine .step hmaterial fun won => .ite (fun _ => .pure trivial) fun _ => .step trivial fun existing => ?_
    cases existing with
    | some existing => exact hrecord _ _
    | none => exact .throw trivial

theorem setup_spec (userId : String) (tenantId password : Option String) :
    Triple (Obeys env) (fun _ _ => True) (fun _ => True) [] (setup env userId tenantId password) := by
  unfold setup
  split
  · exact .throw trivial
  · refine .bind (fetch_spec _ _) ?_
    rintro _ view rfl
    refine .ite (fun _ => .throw trivial) fun _ => ?_
    refine .bind (calm_assertReauthenticated _ _ _ _).triple fun tr₁ _ h₁ => ?_
    exact pendingSetup_spec (h₁.unwritten (nil.snoc rfl)) _ _ _

theorem enableFactor_spec (hun : Unwritten tr) (userId code : String) (tenantId : Option String) :
    Triple (Obeys env) (fun tr' _ => ∃ data, Changed env userId tenantId (enrolled data) tr') (fun _ => True) tr
      (enableFactor env userId code tenantId) := by
  refine .step trivial fun found => ?_
  cases found with
  | none => exact .throw trivial
  | some data =>
    dsimp only
    split
    · exact .throw trivial
    · refine .bind (calm_verifyTotpWithAntiReplay _ _ _ _).triple fun tr₁ ok h₁ => .ite (fun _ => ?_) fun _ => ?_
      · refine .step trivial fun taken => ?_
        cases taken with
        | none => exact .throw trivial
        | some taken =>
          refine .discard_bind (transition_spec ((h₁.unwritten (hun.snoc rfl)).snoc rfl) ?_) ?_
          · rintro current _ ⟨⟩
            refine .enrolled (mem_append_left _ (h₁.pre.subset mem_concat_self)) mem_concat_self
          · rintro _ _ ⟨token, current, released, -, rfl⟩
            refine (revokeAllSessions_spec _ _).mono ?_ fun _ h => h
            rintro _ _ ⟨n, epoch, rfl⟩
            exact ⟨data, _, token, current, released, n, epoch, rfl⟩
      · exact .throw trivial

section

variable (userId code : String) (tenantId : Option String)
include userId code tenantId

theorem verifyAndEnable_spec :
    Triple (Obeys env) (fun tr' _ => ∃ data, Changed env userId tenantId (enrolled data) tr') (fun _ => True) []
      (verifyAndEnable env userId code tenantId) := by
  unfold verifyAndEnable
  split
  · exact .throw trivial
  · refine .bind (fetch_spec _ _) ?_
    rintro _ view rfl
    exact .ite (fun _ => .throw trivial) fun _ => enableFactor_spec (nil.snoc rfl) _ _ _

/-! ### Management -/

theorem disable_spec : Triple (Obeys env) (fun tr' _ => Changed env userId tenantId cleared tr') (fun _ => True) []
      (disable env userId code tenantId) := by
  unfold disable
  split
  · exact .throw trivial
  · refine .bind (fetch_spec _ _) ?_
    rintro _ view rfl
    refine .bind (calm_reauthGate _ _ _ _).triple fun tr₁ _ h₁ => ?_
    refine .discard_bind (transition_spec (h₁.unwritten (nil.snoc rfl)) ?_) ?_
    · rintro current _ ⟨⟩
      exact .cleared
    · rintro _ _ ⟨token, current, released, -, rfl⟩
      refine (revokeAllSessions_spec _ _).mono ?_ fun _ h => h
      rintro _ _ ⟨n, epoch, rfl⟩
      exact ⟨_, token, current, released, n, epoch, rfl⟩

theorem regenerateRecoveryCodes_spec : Triple (Obeys env) (fun tr' _ => ∃ tr₁ token current data released,
        tr' = tr₁ ++ transitionTrace env userId tenantId token current (some data) released)
      (fun _ => True) [] (regenerateRecoveryCodes env userId code tenantId) := by
  unfold regenerateRecoveryCodes
  split
  · exact .throw trivial
  · refine .bind (fetch_spec _ _) ?_
    rintro _ view rfl
    refine .bind (calm_reauthGate _ _ _ _).triple fun tr₁ _ h₁ => .step trivial fun codes => ?_
    refine .bind (transition_spec ((h₁.unwritten (nil.snoc rfl)).snoc rfl) ?_) ?_
    · exact fun current data hdata => .regenerated mem_concat_self hdata
    · rintro _ _ ⟨token, current, released, rfl, rfl⟩
      refine .ite (fun hsome => .pure ?_) fun _ => .throw trivial
      obtain ⟨data, hdata⟩ := isSome_iff_exists.mp hsome
      exact ⟨_, token, current, data, released, by rw [hdata]⟩

end

/-- A reset that has answered found no second factor, or changed it. -/
theorem resetMfa_robust (userId : String) (tenantId : Option String) : Robust (Obeys env) (fun tr' _ => ∃ view rest,
        tr' = ⟨.host (.findById userId tenantId), some view⟩ :: rest ∧
        (view.mfaEnabled = false ∧ rest = [] ∨ Changed env userId tenantId cleared tr'))
      (fun _ _ => True) [] (resetMfa env userId tenantId) := by
  unfold resetMfa
  split
  · exact .throw trivial
  · refine .bind ((fetchUserMfa_robust trivial).mono (fun _ _ h => h) (fun _ _ h => h) fun _ _ _ => trivial) ?_
    rintro _ view rfl
    refine .ite (fun hoff => .pure ⟨view, [], rfl, .inl ⟨by simpa using hoff, rfl⟩⟩) fun _ => ?_
    refine .discard ((transitionMfaRecord_obeys (nil.snoc rfl) ?_).mono (fun _ _ h => h)
      (fun _ _ h => h) fun _ _ _ => trivial) ?_
    · rintro current _ ⟨⟩
      exact .cleared
    · rintro _ _ ⟨token, current, released, -, rfl⟩
      refine .discard_call trivial trivial (fun _ => trivial) fun n => ?_
      refine .map (.issue trivial trivial (fun _ => trivial) fun epoch => ?_)
      exact ⟨view, _, rfl, .inr ⟨_, token, current, released, n, epoch, append_assoc _ _ _⟩⟩

/-! ### The challenge -/

/-- What a challenge asks before it reads the account: the clock, and the account's counters and markers. -/
def Preliminary : Op → Prop
  | .host .nowUnix => True
  | .account _ => True
  | _ => False

theorem firstRead_eq_none (h : ∀ ev ∈ tr, Preliminary ev.op) : firstRead tr = none := by
  refine List.findSome?_eq_none_iff.mpr fun ev hev => ?_
  split
  · exact absurd (h _ hev) id
  · rfl

theorem preliminary_of_tally (c : Op) (h : Tally c) : Preliminary c := by
  cases c with
  | account c => trivial
  | _ => exact absurd h id

theorem preliminary_verifyMfaTempToken :
    Only Preliminary (verifyMfaTempToken env token) := kit_verifyMfaTempToken .only preliminary_of_tally trivial _

theorem preliminary_assertNotLocked (identifier : String) : Only Preliminary (assertNotLocked env identifier) :=
  kit_assertNotLocked .only preliminary_of_tally _

theorem verifyMfaTempToken_returns : Returns (fun tr' verified => verified = token ∧
        planeTenantIsWellFormed token.context token.tenantId = true ∧
        ⟨.account (.getTemp (env.jtiHash token.jti)), some token.sub⟩ ∈ tr') tr
      (verifyMfaTempToken env token) := by
  refine (grows _ _).bind fun tr₁ now _ => ?_
  split
  · exact .throw _
  · refine ⟨trivial, fun stored => ?_⟩
    cases stored with
    | none => exact throw _
    | some storedUser =>
      refine guard fun hsub => ?_
      refine (grows _ _).bind fun tr₂ epoch h₂ => ?_
      refine .guard fun _ => ?_
      refine .guard fun hwell => .pure ⟨rfl, by simpa using hwell, ?_⟩
      rw [← Decidable.not_not.mp hsub]
      exact h₂.subset mem_concat_self

variable (env) in
/-- A challenge has read its account: these are its exchanges up to that read, the account, and its secret. -/
structure Opened (token : MfaTempClaims) (tr : Trace) (user : AuthUser) (rawSecret : String) : Prop where
  /-- No account was read before. -/
  read : ∃ tr₁, tr = tr₁ ++ [⟨.host (.findById token.sub token.tenantId), some user⟩] ∧ firstRead tr₁ = none
  /-- The token is one of this plane. -/
  plane : token.context = env.kind
  /-- The token names a tenant where it has to. -/
  wellFormed : planeTenantIsWellFormed token.context token.tenantId = true
  /-- The account is of the token's tenant. -/
  tenant : env.tenantOf user = token.tenantId
  /-- It has a second factor. -/
  enabled : user.mfaEnabled = true
  secret : user.mfaSecret.bind env.mfa.decryptSecret = some rawSecret

variable (env) in
/-- What a challenge of `user` has done to consume its token, and the recovery code it spent on it. -/
inductive Accepted (token : MfaTempClaims) (user : AuthUser) (rawSecret code : String) :
    Option ℕ → Trace → Prop where
  /-- A TOTP code, marked and consumed at once. -/
  | totp {now : ℕ} : isTotpCode code = true → env.mfa.totpVerify rawSecret code now env.mfa.totpWindow = true →
      Accepted token user rawSecret code none
        [⟨.host .nowUnix, now⟩, ⟨.mfa (.challengeConsume (env.replayId token.tenantId token.sub code)
          (env.jtiHash token.jti) env.antiReplayTtlSeconds), true⟩]
  /-- A recovery code, claimed before the token was consumed. -/
  | recovery {index : ℕ} : isTotpCode code = false →
      verifyRecoveryCode (user.mfaRecoveryCodes.getD []) (env.recoveryCodeCandidates code) = some index →
      Accepted token user rawSecret code (some index)
        [⟨.mfa (.claimRecoveryCode (env.replayId (env.tenantOf user) user.id code)
          recoveryCodeClaimTtlSeconds), true⟩, ⟨.mfa (.delTemp (env.jtiHash token.jti)), true⟩]

theorem rejectCode_returns {P : Trace → α → Prop} (bfId : String) : Returns P tr (rejectCode env bfId : Act α) :=
  .bind_throw _

theorem acceptCode_returns (user : AuthUser) (rawSecret code bfId : String) :
    Returns (fun tr' index => ∃ l, Accepted env token user rawSecret code index l ∧ tr' = tr ++ l) tr
      (acceptCode env token user rawSecret code bfId) := by
  refine .ite (fun hcode => ?_) fun hcode => ?_
  · refine .bind (P := fun tr' ok => ok = true → ∃ now,
      env.mfa.totpVerify rawSecret code now env.mfa.totpWindow = true ∧
      tr' = tr ++ [⟨.host .nowUnix, now⟩] ++ [⟨.mfa (.challengeConsume
        (env.replayId token.tenantId token.sub code) (env.jtiHash token.jti) env.antiReplayTtlSeconds), true⟩])
      ⟨trivial, fun now => ?_⟩ fun tr₁ ok h => .ite (fun hok => ?_) fun _ => rejectCode_returns _
    · refine ite (fun _ => .pure nofun) fun hv => .issue fun ok hok => ⟨now, by simpa using hv, ?_⟩
      rw [hok]
    · obtain ⟨now, hv, rfl⟩ := h hok
      exact .pure ⟨_, .totp hcode hv, append_assoc _ _ _⟩
  · refine .bind (P := fun tr' index => ∀ i, index = some i →
      verifyRecoveryCode (user.mfaRecoveryCodes.getD []) (env.recoveryCodeCandidates code) = some i ∧
      tr' = tr ++ [⟨.mfa (.claimRecoveryCode (env.replayId (env.tenantOf user) user.id code)
        recoveryCodeClaimTtlSeconds), true⟩]) ?_ fun tr₁ index h => ?_
    · unfold acceptRecoveryCode
      split
      · exact .pure nofun
      · next i hi =>
        refine ⟨trivial, fun claimed => ite (fun hc => .pure ?_) fun _ => .pure nofun⟩
        rintro _ ⟨⟩
        rw [show claimed = true from hc]
        exact ⟨hi, rfl⟩
    · cases index with
      | none => exact rejectCode_returns _
      | some i =>
        obtain ⟨hi, rfl⟩ := h i rfl
        refine ⟨trivial, fun consumed => ite (fun hc => .pure ?_) fun _ => .throw _⟩
        rw [show consumed = true from hc]
        exact ⟨_, .recovery (by simpa using hcode) hi, append_assoc _ _ _⟩

/-- The part of a challenge that writes. The secret of the account it read first is `rawSecret`. -/
theorem recordChallenge_spec {encryptedSecret rawSecret : String} (hun : Unwritten tr)
    (hread : firstRead tr = some user) (hsecret : user.mfaSecret = some encryptedSecret)
    (hraw : env.mfa.decryptSecret encryptedSecret = some rawSecret) (underRetiredKey : Bool)
    (recoveryIndex : Option ℕ) :
    Triple (Obeys env) (fun tr' _ => ∃ l, tr' = tr ++ l ∧ ∀ index, recoveryIndex = some index →
        ∃ l₁ storedSecret token current released, l = l₁ ++ transitionTrace env user.id (env.tenantOf user) token
          current (env.spliced rawSecret storedSecret (user.mfaRecoveryCodes.getD [])[index]? current) released)
      (fun _ => True) tr (recordChallenge env user encryptedSecret rawSecret underRetiredKey recoveryIndex) := by
  -- The secret that is written back is the one that was read, or has just been encrypted.
  refine .bind (Q := fun tr' stored => ∃ l, tr' = tr ++ l ∧ Unwritten tr' ∧ (stored = encryptedSecret ∨
    ⟨.host (.encrypt (env.mfa.encodeSecretBase32 rawSecret)), stored⟩ ∈ tr')) ?_ ?_
  · refine .ite (fun _ => ?_) fun _ => .pure ⟨[], (append_nil tr).symm, hun, .inl rfl⟩
    exact .issue trivial fun wire => ⟨_, rfl, hun.snoc rfl, .inr mem_concat_self⟩
  · rintro _ stored ⟨l₁, rfl, hun', hstored⟩
    have hmut : ∀ (spent : Option String) (current : AuthUser) (data : MfaRecord),
        env.spliced rawSecret stored spent current = some data ∨
          env.rewritten rawSecret stored current = some data → Mutates env (tr ++ l₁) current data :=
      fun spent current data h =>
        .challenged (firstRead_of_pre hread (prefix_append _ _)) hsecret hraw hstored h
    cases recoveryIndex with
    | some index =>
      refine .map ((transition_spec hun' fun current data h => hmut _ current data (.inl h)).mono ?_ fun _ h => h)
      rintro _ _ ⟨token, current, released, -, rfl⟩
      refine ⟨_, append_assoc _ _ _, ?_⟩
      rintro _ ⟨⟩
      exact ⟨l₁, stored, token, current, released, rfl⟩
    | none =>
      refine .ite (fun _ => ?_) fun _ => .pure ⟨l₁, rfl, nofun⟩
      refine .map ((transition_spec hun' fun current data h => hmut none current data (.inr h)).mono ?_ fun _ h => h)
      rintro _ _ ⟨token, current, released, -, rfl⟩
      exact ⟨_, append_assoc _ _ _, nofun⟩

variable (env) in
/-- A challenge of `user` has passed: the account was read, the token consumed, and for a recovery code a
transition came after that. -/
structure Passed (token : MfaTempClaims) (code : String) (user : AuthUser) (tr : Trace) : Prop where
  /-- The read, what consumed the token, and what was written. -/
  passed : ∃ tr₁ rawSecret index l u tr₂, Opened env token tr₁ user rawSecret ∧
    Accepted env token user rawSecret code index l ∧
    tr = tr₁ ++ l ++ [⟨.account (.delLf (env.challengeBfId token.tenantId token.sub)), u⟩] ++ tr₂ ∧
    ∀ i, index = some i → ∃ l₁ storedSecret lockToken current released,
      tr₂ = l₁ ++ transitionTrace env user.id (env.tenantOf user) lockToken current
        (env.spliced rawSecret storedSecret (user.mfaRecoveryCodes.getD [])[i]? current) released

theorem Accepted.unwritten {token : MfaTempClaims} {rawSecret code : String} {index : Option ℕ} {l : Trace}
    (h : Accepted env token user rawSecret code index l) : Unwritten l := by
  cases h <;> simp [Unwritten, writesFactor]

theorem challengeUser_spec {token : MfaTempClaims} {tr₁ : Trace} (hun : Unwritten tr)
    (htr : tr = tr₁ ++ [⟨.host (.findById token.sub token.tenantId), some user⟩]) (hfirst : firstRead tr₁ = none)
    (hplane : token.context = env.kind) (hwell : planeTenantIsWellFormed token.context token.tenantId = true)
    (htenant : env.tenantOf user = token.tenantId) (code : String) :
    Triple (Obeys env) (fun tr' _ => Passed env token code user tr') (fun _ => True) tr
      (challengeUser env token user code) := by
  unfold challengeUser
  split
  · exact .throw trivial
  · split
    · exact .throw trivial
    · next encryptedSecret hsecret =>
      rw [filter_eq_some_iff] at hsecret
      split
      · exact .throw trivial
      · next rawSecret underRetiredKey hopen =>
        have hraw : env.mfa.decryptSecret encryptedSecret = some rawSecret := by
          rw [MfaSettings.decryptSecret, hopen]
          rfl
        have hread : firstRead tr = some user := by
          rw [htr, firstRead_append, hfirst]
          rfl
        refine .bind ((calm_acceptCode _ _ _ _ _).spec (acceptCode_returns _ _ _ _ _)) ?_
        rintro _ index ⟨-, l, haccepted, rfl⟩
        refine .step trivial fun u => ?_
        refine (recordChallenge_spec ((hun.append haccepted.unwritten).snoc rfl) ?_ hsecret.1 hraw _ _).mono ?_
          fun _ h => h
        · exact firstRead_of_pre hread ((prefix_append _ _).trans (prefix_append _ _))
        · rintro _ _ ⟨tr₂, rfl, hspent⟩
          refine ⟨tr, rawSecret, index, l, u, tr₂, ⟨⟨tr₁, htr, hfirst⟩, hplane, hwell, htenant, hsecret.2, ?_⟩,
            haccepted, rfl, hspent⟩
          rw [hsecret.1]
          exact hraw

theorem passChallenge_spec (expected : Option SessionKind) (token : MfaTempClaims) (code : String) :
    Triple (Obeys env) (fun tr' user => Passed env token code user tr') (fun _ => True) []
      (passChallenge env expected token code) := by
  refine .bind ((calm_verifyMfaTempToken token).spec ((verifyMfaTempToken_returns token).and
    ((preliminary_verifyMfaTempToken token).returns []))) ?_
  rintro l₁ _ ⟨hext₁, ⟨rfl, hwell, -⟩, _, rfl, hl₁⟩
  refine .ite (fun _ => .throw trivial) fun _ => .ite (fun _ => .throw trivial) fun hplane => ?_
  refine .bind ((calm_assertNotLocked _).spec ((preliminary_assertNotLocked _).returns _)) ?_
  rintro _ _ ⟨hext₂, l₂, rfl, hl₂⟩
  refine .step trivial fun found => ?_
  split
  · exact .throw trivial
  · next user huser =>
    obtain ⟨rfl, htenant⟩ := filter_eq_some_iff.mp huser
    have hfirst : firstRead (l₁ ++ l₂) = none := by
      refine firstRead_eq_none fun ev hev => ?_
      rcases mem_append.mp hev with hev | hev
      · exact hl₁ ev hev
      · exact hl₂ ev hev
    refine .bind (challengeUser_spec (((hext₁.trans hext₂).unwritten nil).snoc rfl) rfl hfirst
      (by simpa using hplane) hwell (by simpa using htenant) code) fun _ _ hpassed => .pure hpassed

/-- A challenge that has answered has passed, and issued a session to the account that did. -/
theorem challenge_spec (expected : Option SessionKind) (token : MfaTempClaims) (code ip userAgent : String) :
    Triple (Obeys env) (fun tr' result => ∃ tr₁, tr₁ <+: tr' ∧ Passed env token code result.user tr₁ ∧
        Issued env tr' result) (fun _ => True) [] (challenge env expected token code ip userAgent) := by
  refine .bind (passChallenge_spec expected token code) fun tr₁ user hpassed => ?_
  refine ((calm_issueSession _ _ _ _).spec (issueSession_returns _ _ _ _)).mono ?_ fun _ h => h
  rintro tr₂ result ⟨-, h₂, rfl, hissued⟩
  exact ⟨tr₁, h₂, hpassed, hissued⟩

/-! ### Every call -/

/-- What a call's answer says about the exchanges of its handler. -/
def MfaCall.Answered (env : Env) : MfaCall → Trace → MfaAnswer → Prop
  | setup _ _ _, _, a => ∃ result, a = .setup result
  | verifyAndEnable userId _ tenantId, tr, a => a = .done ∧ ∃ data, Changed env userId tenantId (enrolled data) tr
  | disable userId _ tenantId, tr, a => a = .done ∧ Changed env userId tenantId cleared tr
  | resetMfa userId tenantId _, tr, a => a = .done ∧ ∃ view rest,
      tr = ⟨.host (.findById userId tenantId), some view⟩ :: rest ∧
      (view.mfaEnabled = false ∧ rest = [] ∨ Changed env userId tenantId cleared tr)
  | regenerateRecoveryCodes userId _ tenantId, tr, a => ∃ codes tr₁ token current data released,
      a = .codes codes ∧ tr = tr₁ ++ transitionTrace env userId tenantId token current (some data) released
  | challenge _ token code _ _, tr, a => ∃ result tr₁, a = .session result ∧ tr₁ <+: tr ∧
      Passed env token code result.user tr₁ ∧ Issued env tr result

/-- Every call of the second factor obeys, and its answer says what it should. -/
theorem mfaCall_spec (call : MfaCall) : Triple (Obeys env) (call.Answered env) (fun _ => True) [] (call.act env) := by
  cases call with
  | setup userId tenantId password =>
    exact .map ((setup_spec userId tenantId password).mono (fun _ result _ => ⟨result, rfl⟩) fun _ h => h)
  | verifyAndEnable userId code tenantId =>
    exact .bind (verifyAndEnable_spec userId code tenantId) fun _ _ h => .pure ⟨rfl, h⟩
  | disable userId code tenantId => exact .bind (disable_spec userId code tenantId) fun _ _ h => .pure ⟨rfl, h⟩
  | resetMfa userId tenantId faults =>
    refine .bind (((resetMfa_robust userId tenantId).triple faults).mono (fun _ _ h => h) fun _ _ => trivial) ?_
    exact fun _ _ h => .pure ⟨rfl, h⟩
  | regenerateRecoveryCodes userId code tenantId =>
    refine .map ((regenerateRecoveryCodes_spec userId code tenantId).mono ?_ fun _ h => h)
    rintro _ codes ⟨tr₁, token, current, data, released, rfl⟩
    exact ⟨codes, tr₁, token, current, data, released, rfl, rfl⟩
  | challenge expected token code ip userAgent =>
    refine .map ((challenge_spec expected token code ip userAgent).mono ?_ fun _ h => h)
    rintro _ result ⟨tr₁, h₁, hpassed, hissued⟩
    exact ⟨result, tr₁, rfl, h₁, hpassed, hissued⟩

end BymaxAuth
