import BymaxAuth.Guarantees.FactorChange
import BymaxAuth.History.Codes

/-!
# What an enrolment enables

`setup` leaves a pending record and shows its secret and its recovery codes. `verify_and_enable` reads the pending
record, checks the code against its secret, takes the record, and writes the factor. The read and the take are two
commands, and what the take returns is only checked to be there: the record that is written is the one that was read.

## The model

`Enrols` says what a `verify_and_enable` has done when it answers, with the record it read and the record it took.
`Showed` says what a `setup` has done when it answers. `Unreplaced` is the condition on a run: no pending record is put
between the read and the take of an enrolment.
-/

namespace BymaxAuth

open Redis Concurrency List Option

section Enrolment

variable {env : Env} {tr : Trace} {userId code : String} {tenantId : Option String}

/-! ### Enrolments -/

/-- The material of a pending record was drawn and encrypted in these exchanges. -/
structure Prepared (env : Env) (data : MfaSetupData) (rawSecret : String) (codes : List String) (tr : Trace) : Prop where
  /-- The recovery codes. -/
  drawn : ⟨.host (.generateRecoveryCodes env.mfa.recoveryCodeCount), codes⟩ ∈ tr
  secret : ⟨.host (.encrypt (env.mfa.encodeSecretBase32 rawSecret)), data.encryptedSecret⟩ ∈ tr
  /-- The recovery codes, to show them again. -/
  plain : ⟨.host (.encrypt (env.mfa.codesToJson codes)), data.encryptedPlainCodes⟩ ∈ tr
  /-- Their digests. -/
  hashed : data.hashedCodes = codes.map env.identifierHmac

/-- A pending record is put once its material is there. -/
def PutsPrepared (env : Env) (tr : Trace) : Op → Prop
  | .mfa (.putSetupNx _ data _) => ∃ rawSecret codes, Prepared env data rawSecret codes tr
  | _ => True

/-- The exchanges of an enrolment up to its transition: it read the record `data`, and took the record `taken`. -/
def enrolTrace (env : Env) (userId code : String) (tenantId : Option String) (view : AuthUser)
    (data taken : MfaSetupData) (now : ℕ) : Trace :=
  [⟨.host (.findById userId tenantId), some view⟩, ⟨.mfa (.getSetup (env.setupKey tenantId userId)), some data⟩,
    ⟨.host .nowUnix, now⟩, ⟨.mfa (.markTotpUsed (env.replayId tenantId userId code) env.antiReplayTtlSeconds), true⟩,
    ⟨.mfa (.takeSetup (env.setupKey tenantId userId)), some taken⟩]

/-- An enrolment that has answered read the record `data`, found `code` to be a code of its secret at the second `now`,
took the record `taken`, and wrote `data`. -/
structure Enrols (env : Env) (userId code : String) (tenantId : Option String) (data taken : MfaSetupData)
    (rawSecret : String) (now : ℕ) (tr : Trace) : Prop where
  /-- The secret. -/
  opens : env.mfa.decryptSecret data.encryptedSecret = some rawSecret
  /-- The code. -/
  verifies : env.mfa.totpVerify rawSecret code now env.mfa.totpWindow = true
  /-- The exchanges. -/
  trace : ∃ view token current released n epoch, tr = enrolTrace env userId code tenantId view data taken now ++
    transitionTrace env userId tenantId token current (some (enrolled data)) released ++
      [⟨.session (.invalidateUserSessions (env.subjectHash tenantId userId)), n⟩,
        ⟨.account (.bumpEp (env.subjectHash tenantId userId)), epoch⟩]

theorem transition_traced {mutate : AuthUser → Option MfaRecord} :
    Triple (PutsPrepared env) (fun tr' _ => ∃ token current released,
        tr' = tr ++ transitionTrace env userId tenantId token current (mutate current) released) (fun _ => True) tr
      (reliably (transitionMfaRecord env userId tenantId mutate)) := by
  refine ((transitionMfaRecord_robust trivial (fun _ => trivial) (fun _ => trivial) (fun _ _ _ _ => trivial)
    fun _ _ _ => trivial).triple []).mono ?_ fun _ _ => trivial
  rintro tr' _ ⟨token, current, released, -, rfl⟩
  exact ⟨token, current, released, rfl⟩

theorem verifyTotpWithAntiReplay_traced (secret : String) : Triple (PutsPrepared env) (fun tr' ok => ok = true → ∃ now,
        env.mfa.totpVerify secret code now env.mfa.totpWindow = true ∧ tr' = tr ++ [⟨.host .nowUnix, now⟩,
          ⟨.mfa (.markTotpUsed (env.replayId tenantId userId code) env.antiReplayTtlSeconds), true⟩])
      (fun _ => True) tr (verifyTotpWithAntiReplay env tenantId userId secret code) := by
  refine .step trivial fun now => .ite (fun _ => .pure nofun) fun hv => ⟨trivial, ?_⟩
  rintro _ rfl
  exact ⟨now, by simpa using hv, append_assoc _ _ _⟩

/-- What an enrolment that has answered has done. -/
theorem verifyAndEnable_traced : Triple (PutsPrepared env)
      (fun tr' _ => ∃ data taken rawSecret now, Enrols env userId code tenantId data taken rawSecret now tr')
      (fun _ => True) [] (verifyAndEnable env userId code tenantId) := by
  unfold verifyAndEnable
  split
  · exact .throw trivial
  · refine .bind (((fetchUserMfa_robust trivial).triple []).mono (fun _ _ h => h) fun _ _ => trivial) ?_
    rintro _ view rfl
    refine .ite (fun _ => .throw trivial) fun _ => .step trivial fun found => ?_
    cases found with
    | none => exact .throw trivial
    | some data =>
      dsimp only
      split
      · exact .throw trivial
      · next rawSecret hopens =>
        refine .bind (verifyTotpWithAntiReplay_traced rawSecret) fun tr₁ ok hok => .ite (fun hif => ?_) fun _ =>
          .throw trivial
        obtain ⟨now, hv, rfl⟩ := hok hif
        refine .step trivial fun taken => ?_
        cases taken with
        | none => exact .throw trivial
        | some taken =>
          refine .discard_bind transition_traced ?_
          rintro _ _ ⟨token, current, released, rfl⟩
          refine ⟨trivial, fun n => ⟨trivial, fun epoch => ?_⟩⟩
          refine ⟨data, taken, rawSecret, now, hopens, hv, view, token, current, released, n, epoch, ?_⟩
          simp [enrolTrace]

/-! ### Displays -/

/-- The recovery codes a pending record keeps to show them again. -/
def Env.plainCodes (env : Env) (data : MfaSetupData) : Option (List String) :=
  (env.mfa.decryptWithRotation data.encryptedPlainCodes).bind fun opened => env.mfa.codesOfJson opened.1

/-- What a `setup` that has answered shows, by its last exchange. -/
inductive Showed (env : Env) (key : String) (result : MfaSetupResult) (tr : Trace) : Prop where
  /-- It read a pending record. -/
  | read {tr₁ : Trace} {data : MfaSetupData} : tr = tr₁ ++ [⟨.mfa (.getSetup key), some data⟩] →
      (env.mfa.decryptSecret data.encryptedSecret).map env.mfa.encodeSecretBase32 = some result.secret →
      env.plainCodes data = some result.recoveryCodes → Showed env key result tr
  /-- It put one. -/
  | put {tr₁ : Trace} {data : MfaSetupData} {ttl : ℕ} {rawSecret : String} :
      tr = tr₁ ++ [⟨.mfa (.putSetupNx key data ttl), true⟩] → Prepared env data rawSecret result.recoveryCodes tr₁ →
      result.secret = env.mfa.encodeSecretBase32 rawSecret → Showed env key result tr

theorem putsPrepared_of_reading {α : Type} {x : Act α} (hx : Only Reading x) :
    Triple (PutsPrepared env) (fun _ _ => True) (fun _ => True) tr x := by
  refine .of_only hx (fun tr c hc => ?_) (fun _ _ => trivial) fun _ => trivial
  unfold PutsPrepared
  split
  · cases hc
  · trivial

variable {key : String} {data : MfaSetupData}

theorem setupResultFromRecord_shows {email : String} :
    Triple (PutsPrepared env) (fun tr' result => Showed env key result tr') (fun _ => True)
      (tr ++ [⟨.mfa (.getSetup key), some data⟩]) (setupResultFromRecord env email data) := by
  unfold setupResultFromRecord
  split
  · next hsecret hcodes => exact .pure (.read rfl (by rw [hsecret]; rfl) hcodes)
  · exact .throw trivial

theorem pendingSetup_shows (email : String) :
    Triple (PutsPrepared env) (fun tr' result => Showed env (env.setupKey tenantId userId) result tr') (fun _ => True) tr
      (pendingSetup env userId tenantId email) := by
  refine .step trivial fun existing => ?_
  cases existing with
  | some existing => exact setupResultFromRecord_shows
  | none =>
    refine .bind (Q := fun tr' material => Prepared env material.2.2 material.1 material.2.1 tr') ?_ ?_
    · refine .step trivial fun secret => .step trivial fun codes => .step trivial fun wire => .step trivial fun wire' =>
        .pure ⟨?_, ?_, ?_, rfl⟩ <;> simp
    · rintro tr₁ ⟨rawSecret, plainCodes, data⟩ hprepared
      refine .step ⟨rawSecret, plainCodes, hprepared⟩ fun won => ?_
      refine .ite (fun hwon => .pure (.put (by rw [hwon]) hprepared rfl)) fun _ => .step trivial fun existing => ?_
      cases existing with
      | some existing => exact setupResultFromRecord_shows
      | none => exact .throw trivial

theorem reading_assertReauthenticated (passwordHash password : Option String) :
    Only Reading (assertReauthenticated env tenantId userId passwordHash password) := by
  unfold assertReauthenticated
  split
  · exact .bind (.issue rfl) fun _ => .ite (.throw _) (.pure _)
  · refine .bind (reading_assertNotLocked _) fun _ => .ite (.issue rfl) ?_
    exact .bind (.bind (.issue rfl) fun _ => .pure _) fun _ => .throw _

/-- What a `setup` does: it puts what it has prepared, and shows what it put or read. -/
theorem setup_shows (password : Option String) :
    Triple (PutsPrepared env) (fun tr' result => Showed env (env.setupKey tenantId userId) result tr') (fun _ => True) []
      (setup env userId tenantId password) := by
  unfold setup
  split
  · exact .throw trivial
  · refine .bind (putsPrepared_of_reading (reading_fetch userId tenantId)) fun _ view _ =>
      .ite (fun _ => .throw trivial) fun _ => ?_
    exact .bind (putsPrepared_of_reading (reading_assertReauthenticated _ _)) fun _ _ _ => pendingSetup_shows _

/-- A call of `setup`, `verify_and_enable` or `disable`. -/
def Flow.OfEnrolment : Flow → Prop
  | .mfa (.setup ..) | .mfa (.verifyAndEnable ..) | .mfa (.disable ..) => True
  | _ => False

/-- Such a call puts only what it has prepared. -/
theorem flow_putsPrepared {flow : Flow} (h : flow.OfEnrolment) :
    Triple (PutsPrepared env) (fun _ _ => True) (fun _ => True) [] (flow.act env) := by
  unfold Flow.OfEnrolment at h
  split at h
  · exact .map (.map ((setup_shows _).mono (fun _ _ _ => trivial) fun _ h => h))
  · exact .map (.bind verifyAndEnable_traced fun _ _ _ => .pure trivial)
  · next userId code tenantId =>
    refine .map (.bind (Q := fun _ _ => True) ?_ fun _ _ _ => .pure trivial)
    unfold disable
    split
    · exact .throw trivial
    · refine .bind (putsPrepared_of_reading (reading_fetch userId tenantId)) fun _ view _ => ?_
      refine .bind (putsPrepared_of_reading (reading_reauthGate tenantId userId code view)) fun _ _ _ => ?_
      exact .discard_bind transition_traced fun _ _ _ =>
        putsPrepared_of_reading (reading_revokeAllSessions tenantId userId)
  · cases h

/-! ### Pending records in the history -/

/-- The pending record an exchange put under the key. -/
def setupPut (key : String) (ev : Exchange) : Option MfaSetupData :=
  match pendingSetups.takes ev with
  | some (key', data, _) => if key' = key then some data else none
  | none => none

/-- The pending record that was put under the key last. -/
def lastPut (key : String) (log : List Event) : Option MfaSetupData := (log.filterMap fun e => setupPut key e.ev).getLast?

theorem setupPut_eq_some {ev : Exchange} :
    setupPut key ev = some data ↔ ∃ ttl, ev = ⟨.mfa (.putSetupNx key data ttl), true⟩ := by
  constructor
  · intro h
    unfold setupPut at h
    split at h
    · next key' data' ttl heq =>
      split_ifs at h with hkey
      subst hkey
      cases h
      exact ⟨ttl, pendingSetups_takes.mp heq⟩
    · cases h
  · rintro ⟨ttl, rfl⟩
    simp [setupPut, pendingSetups]

theorem lastPut_append_of_none {l₁ l₂ : List Event} (h : ∀ e ∈ l₂, setupPut key e.ev = none) :
    lastPut key (l₁ ++ l₂) = lastPut key l₁ := by
  rw [lastPut, filterMap_append, filterMap_eq_nil_iff.mpr h, append_nil]
  rfl

theorem lastPut_of_put {l₁ l₂ : List Event} {p : Event} (hp : setupPut key p.ev = some data)
    (h : ∀ e ∈ l₂, setupPut key e.ev = none) : lastPut key (l₁ ++ p :: l₂) = some data := by
  rw [append_cons, lastPut_append_of_none h, lastPut, filterMap_append]
  simp [hp]

theorem exists_of_lastPut {log : List Event} (h : lastPut key log = some data) :
    ∃ p ∈ log, setupPut key p.ev = some data :=
  mem_filterMap.mp (mem_of_getLast? h)

/-- No pending record is put between the read and the take of an enrolment. -/
def Unreplaced (log : List Event) : Prop :=
  ∀ l₁ a l₂ b l₃ key data taken, log = l₁ ++ a :: (l₂ ++ b :: l₃) → a.tid = b.tid →
    a.ev = ⟨.mfa (.getSetup key), some data⟩ → b.ev = ⟨.mfa (.takeSetup key), some taken⟩ →
    ∀ x ∈ l₂, setupPut key x.ev = none

namespace Deployment

variable {D : Deployment} {cfg : Snapshot} {l₁ l₂ : List Event} {e : Event}

namespace Reaches

variable (h : D.Reaches cfg)
include h

/-- The pending record that is found is the one that was put last. -/
theorem lastPut_of_found (hl : cfg.log = l₁ ++ e :: l₂) (he : FindsSetup key data e.ev) :
    lastPut key l₁ = some data := by
  obtain ⟨c, d, hc, hm, -⟩ := h.at_entry hl
  obtain ⟨cell, hk, rfl⟩ := held_of_found hm he
  obtain ⟨k₁, p, k₂, ttl, hlog, htakes, hlast⟩ := Lease.holder (pendingSetups_kept D.env) (fun _ => rfl) hc hk
  rw [← hm.log₁, hlog]
  refine lastPut_of_put (by simp [setupPut, htakes]) fun x hx => ?_
  refine eq_none_iff_forall_ne_some.mpr fun data' hput => ?_
  obtain ⟨ttl', hev⟩ := setupPut_eq_some.mp hput
  exact hlast x hx data' ttl' (pendingSetups_takes.mpr hev)

/-- In a run in which no record is put in between, an enrolment takes the record it read. -/
theorem taken_eq_read (hun : Unreplaced cfg.log) {l₃ : List Event} {a b : Event}
    {taken : MfaSetupData} (hl : cfg.log = l₁ ++ a :: (l₂ ++ b :: l₃)) (ht : a.tid = b.tid)
    (ha : a.ev = ⟨.mfa (.getSetup key), some data⟩) (hb : b.ev = ⟨.mfa (.takeSetup key), some taken⟩) :
    taken = data := by
  have hread := h.lastPut_of_found hl (.read ha)
  have hcut : cfg.log = (l₁ ++ a :: l₂) ++ b :: l₃ := by rw [hl, append_assoc, cons_append]
  have htake := h.lastPut_of_found hcut (.taken hb)
  rw [lastPut_append_of_none, hread] at htake
  · exact (some.inj htake).symm
  · intro x hx
    rcases mem_cons.mp hx with rfl | hx
    · rw [ha]
      rfl
    · exact hun l₁ a l₂ b l₃ key data taken hl ht ha hb x hx

theorem read_back {tid : ℕ} {rawSecret : String} {codes : List String}
    (hp : Prepared D.env data rawSecret codes (localTrace tid cfg.log)) :
    D.env.mfa.decryptSecret data.encryptedSecret = some rawSecret ∧
      D.env.plainCodes data = D.env.mfa.codesOfJson (D.env.mfa.codesToJson codes) ∧
      codes.length = D.env.mfa.recoveryCodeCount := by
  refine ⟨h.decrypts hp.secret, by rw [Env.plainCodes, h.opens hp.plain]; rfl, ?_⟩
  obtain ⟨pre, hmem⟩ := exchange_mem.mp hp.drawn
  obtain ⟨c, d, -, hm, -⟩ := h.at_mem hmem
  have hadmits := hm.admits
  simp only [machine, admits, Bool.and_eq_true, decide_eq_true_eq] at hadmits
  exact hadmits.1.1

/-- The pending record that was put last was prepared. -/
theorem prepared_of_lastPut (hcalls : ∀ tid, (D.flows tid).OfEnrolment)
    (hl : l₁ <+: cfg.log) (hlast : lastPut key l₁ = some data) :
    ∃ tid rawSecret codes, Prepared D.env data rawSecret codes (localTrace tid cfg.log) := by
  obtain ⟨p, hp, hput⟩ := exists_of_lastPut hlast
  obtain ⟨ttl, hev⟩ := setupPut_eq_some.mp hput
  obtain ⟨k₁, k₂, hk⟩ := append_of_mem (hl.subset hp)
  have hissued := reach_issues (I := fun _ => PutsPrepared D.env) (fun tid => flow_putsPrepared (hcalls tid)) h hk
  obtain ⟨tid, pre, op, r⟩ := p
  cases hev
  obtain ⟨rawSecret, codes, hdrawn, hsecret, hplain, hhashed⟩ := hissued
  have hsub : localTrace tid k₁ ⊆ localTrace tid cfg.log := by
    rw [hk, localTrace_append]
    exact subset_append_left _ _
  exact ⟨tid, rawSecret, codes, hsub hdrawn, hsub hsecret, hsub hplain, hhashed⟩

end Reaches

end Deployment

/-- The secret and the recovery codes that are shown are those of the pending record. -/
structure Displays (env : Env) (result : MfaSetupResult) (data : MfaSetupData) : Prop where
  secret : (env.mfa.decryptSecret data.encryptedSecret).map env.mfa.encodeSecretBase32 = some result.secret
  /-- The recovery codes. -/
  codes : result.recoveryCodes.map env.identifierHmac = data.hashedCodes

namespace Deployment

variable {D : Deployment} {cfg : Snapshot}

/-- What an enrolment that has answered has done is in the history. -/
theorem Reaches.enrols (h : D.Reaches cfg) {tid : ℕ} (hf : D.flows tid = .mfa (.verifyAndEnable userId code tenantId))
    {a : Answer} (hp : cfg.pool tid = .ret (.ok a)) : ∃ data taken rawSecret now,
      Enrols D.env userId code tenantId data taken rawSecret now (localTrace tid cfg.log) := by
  have hpath := reach_path h tid
  rw [hp, hf] at hpath
  obtain ⟨_, -, hcall⟩ := Path.answered_of_map (f := Answer.mfa) hpath
  obtain ⟨_, -, henable⟩ := Path.answered_of_map (f := fun _ => MfaAnswer.done) hcall
  exact verifyAndEnable_traced.returns.of_path henable

/-- So is what a `setup` that has answered shows. -/
theorem Reaches.showed (h : D.Reaches cfg) {tid : ℕ} {password : Option String}
    (hf : D.flows tid = .mfa (.setup userId tenantId password)) {result : MfaSetupResult}
    (hp : cfg.pool tid = .ret (.ok (.mfa (.setup result)))) :
    Showed D.env (D.env.setupKey tenantId userId) result (localTrace tid cfg.log) := by
  have hpath := reach_path h tid
  rw [hp, hf] at hpath
  obtain ⟨_, ⟨⟩, hcall⟩ := Path.answered_of_map (f := Answer.mfa) hpath
  obtain ⟨_, ⟨⟩, hsetup⟩ := Path.answered_of_map (f := MfaAnswer.setup) hcall
  exact (setup_shows password).returns.of_path hsetup

/-- A `setup` after whose last exchange no record was put has shown the record that was put last. -/
theorem Reaches.displays (h : D.Reaches cfg) (hcalls : ∀ tid, (D.flows tid).OfEnrolment)
    (hjson : ∀ codes : List String, codes.length = D.env.mfa.recoveryCodeCount →
      D.env.mfa.codesOfJson (D.env.mfa.codesToJson codes) = some codes)
    {l₁ l₂ m₁ m₂ : List Event} {x : Event} (hl : cfg.log = l₁ ++ l₂) (hcut : l₁ = m₁ ++ x :: m₂)
    {password : Option String} {result : MfaSetupResult} (hf : D.flows x.tid = .mfa (.setup userId tenantId password))
    (hp : cfg.pool x.tid = .ret (.ok (.mfa (.setup result)))) (hend : localTrace x.tid (m₂ ++ l₂) = [])
    (hnone : ∀ y ∈ m₂, setupPut (D.env.setupKey tenantId userId) y.ev = none)
    (hlast : lastPut (D.env.setupKey tenantId userId) l₁ = some data) : Displays D.env result data := by
  have hlog : cfg.log = m₁ ++ x :: (m₂ ++ l₂) := by rw [hl, hcut, append_assoc, cons_append]
  have htrace : localTrace x.tid cfg.log = localTrace x.tid m₁ ++ [x.ev] := by
    rw [hlog, localTrace_append, localTrace_cons_self, hend]
  cases h.showed hf hp with
  | @read tr₁ data' htr hsecret hcodes =>
    obtain ⟨-, hev⟩ := append_inj' (htrace.symm.trans htr) rfl
    have hread := h.lastPut_of_found hlog (.read (singleton_inj.mp hev))
    obtain rfl : data' = data := by
      rw [hcut, lastPut_append_of_none, hread] at hlast
      · exact some.inj hlast
      · refine forall_mem_cons.mpr ⟨?_, hnone⟩
        rw [singleton_inj.mp hev]
        rfl
    obtain ⟨tid, rawSecret, codes, hprepared⟩ := h.prepared_of_lastPut hcalls ⟨l₂, hl.symm⟩ hlast
    obtain ⟨-, hplain, hcount⟩ := h.read_back hprepared
    obtain rfl : result.recoveryCodes = codes := by
      rw [hplain, hjson codes hcount] at hcodes
      exact (some.inj hcodes).symm
    exact ⟨hsecret, hprepared.hashed.symm⟩
  | @put tr₁ data' ttl rawSecret htr hprepared hsecret =>
    obtain ⟨htr₁, hev⟩ := append_inj' (htrace.symm.trans htr) rfl
    obtain rfl : data' = data := by
      rw [hcut, lastPut_of_put (setupPut_eq_some.mpr ⟨ttl, singleton_inj.mp hev⟩) hnone] at hlast
      exact some.inj hlast
    have hsub : tr₁ ⊆ localTrace x.tid cfg.log := by
      rw [htr]
      exact subset_append_left _ _
    refine ⟨?_, hprepared.hashed.symm⟩
    rw [h.decrypts (hsub hprepared.secret), hsecret]
    rfl

end Deployment

/-- What a `verify_and_enable` call that has returned has enabled: `take` is the take of the pending record `data`. -/
structure Enables (D : Deployment) (cfg : Snapshot) (tid : ℕ) (userId code : String) (tenantId : Option String)
    (data : MfaSetupData) (l₁ : List Event) (take : Event) (l₂ : List Event) : Prop where
  /-- The pending record was taken. -/
  took : take.ev = ⟨.mfa (.takeSetup (D.env.setupKey tenantId userId)), some data⟩
  /-- Its secret and its digests were written after that. -/
  wrote : ∃ w ∈ l₂, w.tid = tid ∧ w.op = .host (.updateMfa userId tenantId (enrolled data))
  /-- The call wrote nothing else. -/
  only : ∀ w ∈ cfg.log, w.tid = tid → ∀ id tenant record, w.op = .host (.updateMfa id tenant record) →
    id = userId ∧ tenant = tenantId ∧ record = enrolled data
  /-- The code was one of the secret of that record at a second the call read before that. -/
  accepted : ∃ rawSecret now, D.env.mfa.decryptSecret data.encryptedSecret = some rawSecret ∧
    ⟨.host .nowUnix, now⟩ ∈ localTrace tid l₁ ∧ D.env.mfa.totpVerify rawSecret code now D.env.mfa.totpWindow = true
  /-- That record is the one that was put last. -/
  last : lastPut (D.env.setupKey tenantId userId) l₁ = some data
  /-- So among calls of `setup`, `verify_and_enable` and `disable`, it is the one that was shown last: a `setup` that has
  ended before the take, and after whose last exchange no pending record was put, has shown it. -/
  shown : (∀ t, (D.flows t).OfEnrolment) → (∀ codes : List String, codes.length = D.env.mfa.recoveryCodeCount →
      D.env.mfa.codesOfJson (D.env.mfa.codesToJson codes) = some codes) →
    ∀ m₁ x m₂ password result, l₁ = m₁ ++ x :: m₂ → D.flows x.tid = .mfa (.setup userId tenantId password) →
      cfg.pool x.tid = .ret (.ok (.mfa (.setup result))) → localTrace x.tid (m₂ ++ take :: l₂) = [] →
      (∀ y ∈ m₂, setupPut (D.env.setupKey tenantId userId) y.ev = none) → Displays D.env result data

/-- In every run in which no pending record is put between the read and the take of an enrolment, a `verify_and_enable`
call that has returned has enabled the pending record it took. -/
theorem enrolment_enables_what_it_took {D : Deployment} {cfg : Snapshot} (h : D.Reaches cfg) (hun : Unreplaced cfg.log)
    {tid : ℕ} {userId code : String} {tenantId : Option String}
    (hf : D.flows tid = .mfa (.verifyAndEnable userId code tenantId)) {a : Answer} (hp : cfg.pool tid = .ret (.ok a)) :
    ∃ data l₁ take l₂, cfg.log = l₁ ++ take :: l₂ ∧ take.tid = tid ∧
      Enables D cfg tid userId code tenantId data l₁ take l₂ := by
  obtain ⟨data, taken, rawSecret, now, hopens, hverifies, view, token, current, released, n, epoch, htr⟩ := h.enrols hf hp
  set after : Trace := transitionTrace D.env userId tenantId token current (some (enrolled data)) released ++
    [⟨.session (.invalidateUserSessions (D.env.subjectHash tenantId userId)), n⟩,
      ⟨.account (.bumpEp (D.env.subjectHash tenantId userId)), epoch⟩] with hafter
  have hsplit : localTrace tid cfg.log = [⟨.host (.findById userId tenantId), some view⟩] ++
      ⟨.mfa (.getSetup (D.env.setupKey tenantId userId)), some data⟩ :: ([⟨.host .nowUnix, now⟩,
        ⟨.mfa (.markTotpUsed (D.env.replayId tenantId userId code) D.env.antiReplayTtlSeconds), true⟩] ++
          ⟨.mfa (.takeSetup (D.env.setupKey tenantId userId)), some taken⟩ :: after) := by
    rw [htr, hafter]
    simp [enrolTrace]
  obtain ⟨k₁, read, rest, hlog, hread, hreadEv, -, hrest⟩ := localTrace_split hsplit
  obtain ⟨k₂, take, l₂, rfl, htake, htakeEv, hk₂, hl₂⟩ := localTrace_split hrest
  obtain rfl : taken = data := h.taken_eq_read hun hlog (hread.trans htake.symm) hreadEv htakeEv
  have hcut : cfg.log = (k₁ ++ read :: k₂) ++ take :: l₂ := by rw [hlog, append_assoc, cons_append]
  have hlast := h.lastPut_of_found hcut (.taken htakeEv)
  refine ⟨taken, k₁ ++ read :: k₂, take, l₂, hcut, htake, htakeEv, ?_, ?_, ⟨rawSecret, now, hopens, ?_, hverifies⟩, hlast,
    fun hcalls hjson m₁ x m₂ password result hl hfx hpx hend hnone =>
      h.displays hcalls hjson hcut hl hfx hpx hend hnone hlast⟩
  · have hmem : ⟨.host (.updateMfa userId tenantId (enrolled taken)), ()⟩ ∈ localTrace tid l₂ := by
      rw [hl₂, hafter]
      simp [transitionTrace, written]
    obtain ⟨w, hw, ht, hev⟩ := mem_localTrace.mp hmem
    exact ⟨w, hw, ht, congrArg Ev.op hev⟩
  · intro w hw ht id tenant record hop
    have hmem : w.ev ∈ localTrace tid cfg.log := mem_localTrace.mpr ⟨w, hw, ht, rfl⟩
    obtain ⟨t, pre, op, r⟩ := w
    cases hop
    rw [htr] at hmem
    simpa [enrolTrace, transitionTrace, lockedRead, written, Entry.ev] using hmem
  · rw [localTrace_append]
    refine mem_append_right _ ?_
    rw [← hread, localTrace_cons_self, hread, hk₂]
    simp

/-- Whether an entry is a read that found a pending record. -/
def readsSetup (e : Event) : Bool :=
  match e.ev with
  | ⟨.mfa (.getSetup _), some _⟩ => true
  | _ => false

theorem unreplaced_of_order {log : List Event}
    (h : precedes readsSetup (fun e => (pendingSetups.takes e.ev).isSome) log = false) : Unreplaced log := by
  intro l₁ a l₂ b l₃ key data taken hl _ ha _ x hx
  refine eq_none_iff_forall_ne_some.mpr fun put hput => ?_
  obtain ⟨ttl, hev⟩ := setupPut_eq_some.mp hput
  obtain ⟨m₁, m₂, rfl⟩ := append_of_mem hx
  refine Bool.eq_false_iff.mp h (precedes_iff.mpr ⟨l₁ ++ a :: m₁, x, m₂ ++ b :: l₃, ?_, ?_, a, ?_, ?_⟩)
  · rw [hl]
    simp
  · rw [pendingSetups_takes.mpr hev]
    rfl
  · simp
  · rw [readsSetup, ha]

/-- What a `setup` call was answered with. -/
def setupOf (cfg : Snapshot) (tid : ℕ) : Option MfaSetupResult :=
  match cfg.pool tid with
  | .ret (.ok (.mfa (.setup result))) => some result
  | _ => none

theorem pool_of_setupOf {cfg : Snapshot} {tid : ℕ} {result : MfaSetupResult} (h : setupOf cfg tid = some result) :
    cfg.pool tid = .ret (.ok (.mfa (.setup result))) := by
  unfold setupOf at h
  split at h
  · next heq =>
    cases h
    exact heq
  · cases h

end Enrolment

namespace Demo

/-- One `verify_and_enable`, and any number of `setup`s. -/
def enrolments : Deployment :=
  { deployment [] with
    flows := fun tid =>
      if tid = 1 then .mfa (.verifyAndEnable "u1" "bb" (some "t1")) else .mfa (.setup "u1" (some "t1") (some "pw")) }

end Demo

open Demo

/-- A `setup` and a `verify_and_enable` after it. -/
theorem enrolment_enables_what_it_took_alone : ∃ cfg data l₁ take l₂, enrolments.Reaches cfg ∧ Unreplaced cfg.log ∧
    cfg.pool 1 = .ret (.ok (.mfa .done)) ∧ cfg.log = l₁ ++ take :: l₂ ∧ take.tid = 1 ∧
    Enables enrolments cfg 1 "u1" "bb" (some "t1") data l₁ take l₂ := by
  obtain ⟨cfg, h, hchanged, horder⟩ := reaches_of_run enrolments
    (draws 0 7 "bb" "bb" "r1" ++ draws 0 2 "" "r1" "" ++ draws 1 12 "l1" "" "")
    (fun cfg => isChanged cfg 1 ∧ precedes readsSetup (fun e => (pendingSetups.takes e.ev).isSome) cfg.log = false)
    (by decide +kernel)
  have hun := unreplaced_of_order horder
  have hdone := pool_of_isChanged hchanged
  obtain ⟨data, l₁, take, l₂, hl, ht, henables⟩ := enrolment_enables_what_it_took h hun rfl hdone
  exact ⟨cfg, data, l₁, take, l₂, h, hun, hdone, hl, ht, henables⟩

/-- An enrolment reads the pending record of the secret `bb` a second before it lapses, and accepts a code of that
secret. The record lapses, and a `setup` shows the secret `ccc` and the recovery code `r2`. The enrolment goes on, takes
the record of `ccc`, writes the one of `bb` with the recovery code `r1`, and returns. -/
theorem enrolment_enables_another : ∃ cfg result taken, enrolments.Reaches cfg ∧
    cfg.pool 1 = .ret (.ok (.mfa .done)) ∧ cfg.pool 2 = .ret (.ok (.mfa (.setup result))) ∧
    result.secret = "ccc" ∧ result.recoveryCodes = ["r2"] ∧
    ⟨.mfa (.takeSetup (env.setupKey (some "t1") "u1")), some taken⟩ ∈ localTrace 1 cfg.log ∧
    taken.encryptedSecret = "ccc" ∧ taken.hashedCodes = ["r2"] ∧
    cfg.st.record "u1" (some "t1") = some ⟨true, some "bb", some ["r1"]⟩ ∧
    env.mfa.decryptSecret "bb" = some "bb" ∧ env.mfa.decryptSecret "ccc" = some "ccc" := by
  obtain ⟨cfg, h, hdone, ⟨result, hresult, hsecret, hcodes⟩, ⟨e, he, ht, ⟨key, taken⟩, hfrees, rfl, htaken⟩, hrecord⟩ :=
    reaches_of_run enrolments
    (draws 0 7 "bb" "bb" "r1" ++ draws 0 2 "" "r1" "" ++ waits 599 ++ draws 1 4 "" "" "" ++
      waits 1 ++ draws 2 7 "ccc" "ccc" "r2" ++ draws 2 2 "" "r2" "" ++ draws 1 8 "l1" "" "")
    (fun cfg => isChanged cfg 1 ∧ (∃ result ∈ setupOf cfg 2, result.secret = "ccc" ∧ result.recoveryCodes = ["r2"]) ∧
      (∃ e ∈ cfg.log, e.tid = 1 ∧ ∃ taken ∈ pendingSetups.frees e.ev,
        taken.1 = env.setupKey (some "t1") "u1" ∧ taken.2.encryptedSecret = "ccc" ∧ taken.2.hashedCodes = ["r2"]) ∧
      cfg.st.record "u1" (some "t1") = some ⟨true, some "bb", some ["r1"]⟩) (by decide +kernel)
  have hev := pendingSetups_frees.mp hfrees
  exact ⟨cfg, result, taken, h, pool_of_isChanged hdone, pool_of_setupOf hresult, hsecret, hcodes,
    mem_localTrace.mpr ⟨e, he, ht, hev⟩, htaken.1, htaken.2, hrecord, rfl, rfl⟩

end BymaxAuth
