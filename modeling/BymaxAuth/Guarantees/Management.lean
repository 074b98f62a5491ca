import BymaxAuth.Guarantees.Totp
import BymaxAuth.History.Factor

/-!
# Acting on the factor that was verified

`disable`, `regenerate_recovery_codes` and the challenge check a code against the account they read first, and change
the record many commands later, from the copy they read under the transition's lock. In between the factor may have been
removed, and another one enrolled.

The challenge looks: what it writes is made of a record that still holds the secret it opened. `disable` does not look at
the record it replaces, and `regenerate_recovery_codes` looks only whether there is a factor.

## The model

`keepsFactor` are the calls that write a record and keep its secret.
-/

namespace BymaxAuth

open Redis Concurrency List Option

theorem factor_of_verified {env : Env} {code rawSecret : String} {view : AuthUser} {tr : Trace}
    (h : Verified env code view rawSecret tr) : env.factor (some view.mfaRecord) = some rawSecret := by
  show (if view.mfaEnabled then view.mfaSecret.bind env.mfa.decryptSecret else none) = _
  rw [h.enabled, if_pos rfl, h.secret]

/-- Whether a call writes a record and keeps its secret. -/
def keepsFactor : Flow → Bool
  | .mfa (.regenerateRecoveryCodes ..) | .mfa (.challenge ..) => true
  | _ => false

namespace Deployment

variable {D : Deployment} {cfg : Snapshot} {l₁ l₂ : List Event} {id : String} {tenantId : Option String} {tid : ℕ}
  {code : String}

namespace Reaches

variable (h : D.Reaches cfg)
include h

/-- A call with a code that writes a record is acting. -/
theorem acting_of_write {pre : Store} {data : MfaRecord} {u : Unit} {call : MfaCall}
    (hl : cfg.log = l₁ ++ ⟨tid, pre, .host (.updateMfa id tenantId data), u⟩ :: l₂) (hf : D.flows tid = .mfa call)
    (hcode : call.code = some code) : Acting D.env call code id tenantId data (localTrace tid l₁) := by
  obtain ⟨k, hpath⟩ := reach_path_at h hl
  rw [show ((D.flows tid).prog D.env) = ((Flow.mfa call).prog D.env) by rw [hf]] at hpath
  obtain ⟨k', hpath⟩ := Path.of_map (f := Answer.mfa) hpath
  refine call_writes hcode ?_ hpath
  intro id' tenant' user hmem
  obtain ⟨pre', he⟩ := exchange_mem.mp hmem
  obtain ⟨k₁, k₂, hk⟩ := append_of_mem (hl ▸ mem_append_left _ he)
  have hfound : _ = some user := h.found_of_read hk
  have hnames := List.find?_some hfound
  simp only [decide_eq_true_eq] at hnames
  exact hnames.1

/-- It read the account, verified its code against it, and has read the record it replaces. -/
theorem replaces (hh : HostLeaves D cfg id tenantId) (hlock : WithinLock cfg.log)
    {pre : Store} {data : MfaRecord} {u : Unit} {call : MfaCall}
    (hl : cfg.log = l₁ ++ ⟨tid, pre, .host (.updateMfa id tenantId data), u⟩ :: l₂) (hf : D.flows tid = .mfa call)
    (hcode : call.code = some code) :
    ∃ k₁ prer view k₂ rawSecret tr₁ current, l₁ = k₁ ++ ⟨tid, prer, .host (.findById id tenantId), some view⟩ :: k₂ ∧
      firstRead (localTrace tid k₁) = none ∧ tr₁ <+: localTrace tid k₂ ∧ Verified D.env code view rawSecret tr₁ ∧
      Makes D.env rawSecret tr₁ current call data ∧ pre.record id tenantId = some current.mfaRecord := by
  obtain ⟨tr₀, view, rawSecret, tr₁, token, current, htr, hfirst, hverified, hmakes⟩ := h.acting_of_write hl hf hcode
  have hread : localTrace tid l₁ = tr₀ ++ ⟨.host (.findById id tenantId), some view⟩ ::
      (tr₁ ++ lockedRead D.env id tenantId token current) := by
    rw [htr]
    simp
  obtain ⟨k₁, ⟨t, prer, op, r⟩, k₂, hk, rfl, hev, rfl, hk₂⟩ := localTrace_split hread
  cases hev
  refine ⟨k₁, prer, view, k₂, rawSecret, tr₁, current, hk, hfirst, hk₂ ▸ prefix_append _ _, hverified, hmakes, ?_⟩
  have hlocked : localTrace t l₁ = (localTrace t k₁ ++ ⟨.host (.findById id tenantId), some view⟩ :: tr₁ ++
      [⟨.host .generateLockToken, token⟩]) ++ ⟨.mfa (.acquireLock (D.env.mfaLockId tenantId id) token
        mfaTransitionLockTtlSeconds), true⟩ :: [⟨.host (.findById id tenantId), some current⟩] := by
    rw [htr]
    simp [lockedRead]
  obtain ⟨m₁, ⟨t', pre₁, op, r⟩, m, rfl, ht, hev, -, hm⟩ := localTrace_split hlocked
  cases hev
  cases ht
  rw [append_assoc, cons_append] at hl
  exact h.current_of_write hh hlock hl hm

/-- New recovery codes, and the writes of a challenge, replace a record that is on, and keep the secret. -/
theorem factor_kept (hh : HostLeaves D cfg id tenantId) (hlock : WithinLock cfg.log)
    {w : Event} (hl : cfg.log = l₁ ++ w :: l₂) (hw : writesRecord id tenantId w = true)
    (hkeeps : keepsFactor (D.flows w.tid) = true) :
    D.env.factor (recordAfter id tenantId w) = D.env.factor (w.pre.record id tenantId) ∧
      ∃ r, w.pre.record id tenantId = some r ∧ r.mfaEnabled = true := by
  obtain ⟨data, hop⟩ := writesRecord_iff.mp hw
  obtain ⟨tid, pre, op, u⟩ := w
  cases hop
  have hcode : ∃ call code, D.flows tid = .mfa call ∧ call.code = some code ∧ keepsFactor (.mfa call) = true := by
    change keepsFactor (D.flows tid) = true at hkeeps
    unfold keepsFactor at hkeeps
    split at hkeeps
    · next hf => exact ⟨_, _, hf, rfl, rfl⟩
    · next hf => exact ⟨_, _, hf, rfl, rfl⟩
    · cases hkeeps
  obtain ⟨call, code, hf, hcode, hcall⟩ := hcode
  obtain ⟨k₁, prer, view, k₂, rawSecret, tr₁, current, hk, -, htr₁, hverified, hmakes, hcurrent⟩ :=
    h.replaces hh hlock hl hf hcode
  rw [recordAfter_of_write]
  change D.env.factor ((pre.record id tenantId).map fun _ => data) = D.env.factor (pre.record id tenantId) ∧
    ∃ r, pre.record id tenantId = some r ∧ r.mfaEnabled = true
  rw [hcurrent, map_some]
  cases hmakes with
  | disable => cases hcall
  | regenerate _ hdata =>
    unfold regenerated at hdata
    split_ifs at hdata with hoff
    obtain ⟨secret, hsecret, rfl⟩ := map_eq_some_iff.mp hdata
    have hon : current.mfaEnabled = true := by simpa using hoff
    refine ⟨?_, _, rfl, hon⟩
    show (if true then (some secret).bind D.env.mfa.decryptSecret else none) =
      if current.mfaEnabled then current.mfaSecret.bind D.env.mfa.decryptSecret else none
    rw [hon, hsecret]
  | challenge hstored hdata =>
    obtain ⟨hholds, hon, hsecret⟩ := hdata.elim holds_of_spliced holds_of_rewritten
    refine ⟨?_, _, rfl, (Bool.and_eq_true_iff.mp hholds).1⟩
    rw [factor_of_holds hholds]
    show (if data.mfaEnabled then data.mfaSecret.bind D.env.mfa.decryptSecret else none) = _
    rw [hon, hsecret]
    rcases hstored with hstored | hdrawn
    · exact hstored
    · obtain ⟨e, he, ht, hev⟩ := mem_localTrace.mp (htr₁.subset hdrawn)
      have hmem : e ∈ cfg.log := hl ▸ mem_append_left _ (hk ▸ mem_append_right _ (mem_cons_of_mem _ he))
      exact h.decrypts (mem_localTrace.mpr ⟨e, hmem, ht, hev⟩)

/-- A removal that has returned, and new codes that were returned, have written the record. -/
theorem written_of_managed
    (hf : D.flows tid = .mfa (.disable id code tenantId) ∨ D.flows tid = .mfa (.regenerateRecoveryCodes id code tenantId))
    {a : Answer} (hp : cfg.pool tid = .ret (.ok a)) :
    ∃ e ∈ cfg.log, e.tid = tid ∧ writesRecord id tenantId e = true := by
  have htrace : ∃ data, ⟨.host (.updateMfa id tenantId data), ()⟩ ∈ localTrace tid cfg.log := by
    have hans := h.answered hp
    rcases hf with hf | hf <;> rw [hf] at hans
    · obtain ⟨_, -, -, tr₁, token, current, released, n, epoch, htr⟩ := hans
      exact ⟨cleared, by rw [htr]; simp [transitionTrace, written]⟩
    · obtain ⟨_, -, codes, tr₁, token, current, data, released, -, htr⟩ := hans
      exact ⟨data, by rw [htr]; simp [transitionTrace, written]⟩
  obtain ⟨data, hmem⟩ := htrace
  obtain ⟨e, he, ht, hev⟩ := mem_localTrace.mp hmem
  exact ⟨e, he, ht, writesRecord_iff.mpr ⟨data, congrArg Ev.op hev⟩⟩

end Reaches

end Deployment

/-- Since handler `tid` read the account, in the history `l`, its record was written by calls that keep the secret
only. -/
def FactorUntouched (D : Deployment) (id : String) (tenantId : Option String) (tid : ℕ) (l : List Event) : Prop :=
  ∀ k₁ r k₂, l = k₁ ++ r :: k₂ → r.tid = tid → r.op = .host (.findById id tenantId) →
    ∀ w ∈ k₂, writesRecord id tenantId w = true → keepsFactor (D.flows w.tid) = true

/-- **A call acts on the factor it verified.** `disable` and `regenerate_recovery_codes` have written the record when
they return. Whenever one of them or a challenge replaces the record of an account, the code was checked against the
account the call read first, and the record that is replaced is on and holds the secret the code was checked against —
for a challenge in every run in which no transition outlives its lock and only the library writes the record, for the
other two if since they read the account nothing but such calls as keep the secret has written the record. -/
theorem acts_on_verified_factor {D : Deployment} {cfg : Snapshot} (h : D.Reaches cfg) {id : String}
    {tenantId : Option String} (hh : HostLeaves D cfg id tenantId) (hlock : WithinLock cfg.log) :
    (∀ tid code a, D.flows tid = .mfa (.disable id code tenantId) ∨
        D.flows tid = .mfa (.regenerateRecoveryCodes id code tenantId) → cfg.pool tid = .ret (.ok a) →
      ∃ e ∈ cfg.log, e.tid = tid ∧ writesRecord id tenantId e = true) ∧
    ∀ l₁ e l₂ call code, cfg.log = l₁ ++ e :: l₂ → writesRecord id tenantId e = true → D.flows e.tid = .mfa call →
      call.code = some code →
      (∃ expected token ip userAgent, call = .challenge expected token code ip userAgent) ∨
        FactorUntouched D id tenantId e.tid l₁ →
      ∃ k₁ pre view k₂ rawSecret, l₁ = k₁ ++ ⟨e.tid, pre, .host (.findById id tenantId), some view⟩ :: k₂ ∧
        firstRead (localTrace e.tid k₁) = none ∧ Verified D.env code view rawSecret (localTrace e.tid k₂) ∧
        D.env.factor (e.pre.record id tenantId) = some rawSecret := by
  refine ⟨fun tid code a hf hp => h.written_of_managed hf hp, ?_⟩
  intro l₁ e l₂ call code hl hw hf hcode hcond
  obtain ⟨data, hop⟩ := writesRecord_iff.mp hw
  obtain ⟨tid, pre, op, u⟩ := e
  cases hop
  obtain ⟨k₁, prer, view, k₂, rawSecret, tr₁, current, rfl, hfirst, htr₁, hverified, hmakes, hcurrent⟩ :=
    h.replaces hh hlock hl hf hcode
  refine ⟨k₁, prer, view, k₂, rawSecret, rfl, hfirst,
    ⟨hverified.enabled, hverified.secret, hverified.checked.mono htr₁⟩, ?_⟩
  rcases hcond with ⟨expected, token, ip, userAgent, rfl⟩ | huntouched
  · -- What a challenge writes is made of a record that holds the secret it opened.
    cases hmakes with
    | challenge _ hdata =>
      change D.env.factor (pre.record id tenantId) = some rawSecret
      rw [hcurrent]
      exact factor_of_holds (hdata.elim holds_of_spliced holds_of_rewritten).1
  · -- The secret is the one that was read, and every write since keeps it.
    have hcut : cfg.log = k₁ ++ ⟨tid, prer, .host (.findById id tenantId), some view⟩ ::
        (k₂ ++ ⟨tid, pre, .host (.updateMfa id tenantId data), u⟩ :: l₂) := by
      rw [hl, append_assoc, cons_append]
    refine hh.since (Q := fun record => D.env.factor record = some rawSecret) hcut ?_ ?_
    · show D.env.factor (prer.record id tenantId) = some rawSecret
      rw [h.record_of_read hcut]
      exact factor_of_verified hverified
    · intro n₁ w n₂ hn hww hfactor
      have hlw : cfg.log = (k₁ ++ ⟨tid, prer, .host (.findById id tenantId), some view⟩ :: n₁) ++
          w :: (n₂ ++ ⟨tid, pre, .host (.updateMfa id tenantId data), u⟩ :: l₂) := by
        rw [hcut, hn]
        simp
      rw [(h.factor_kept hh hlock hlw hww (huntouched k₁ _ k₂ rfl rfl rfl w (by rw [hn]; simp) hww)).1]
      exact hfactor

open Demo

/-- A factor is removed by itself: the record that is replaced holds the secret the code was checked against. -/
theorem acts_on_verified_factor_removed :
    let D := guardedDeployment [.mfa (.disable "u1" "123456" (some "t1"))]
    ∃ cfg l₁ e l₂ k₁ pre view k₂ rawSecret, D.Reaches cfg ∧ cfg.log = l₁ ++ e :: l₂ ∧
      writesRecord "u1" (some "t1") e = true ∧
      l₁ = k₁ ++ ⟨e.tid, pre, .host (.findById "u1" (some "t1")), some view⟩ :: k₂ ∧
      Verified D.env "123456" view rawSecret (localTrace e.tid k₂) ∧
      D.env.factor (e.pre.record "u1" (some "t1")) = some rawSecret := by
  intro D
  obtain ⟨cfg, h, hkept, hnow, hcut⟩ := reaches_of_run D (draws 0 12 "l0" "" "")
    (fun cfg => recordKept D cfg "u1" (some "t1") ∧ (∀ e ∈ cfg.log, e.pre.now = 0) ∧
      cutAt 8 (fun l₁ e _ => decide (e.tid = 0) && writesRecord "u1" (some "t1") e &&
        l₁.all fun w => !writesRecord "u1" (some "t1") w) cfg.log) (by decide +kernel)
  obtain ⟨l₁, e, l₂, hl, hcut⟩ := exists_of_cutAt hcut
  simp only [Bool.and_eq_true, decide_eq_true_eq] at hcut
  obtain ⟨⟨htid, hw⟩, hnone⟩ := hcut
  have huntouched : FactorUntouched D "u1" (some "t1") e.tid l₁ := by
    rintro k₁ r k₂ rfl - - w hmem hww
    have hcheck := all_eq_true.mp hnone w (mem_append_right _ (mem_cons_of_mem _ hmem))
    rw [hww] at hcheck
    cases hcheck
  have hf : D.flows e.tid = .mfa (.disable "u1" "123456" (some "t1")) := by
    rw [htid]
    rfl
  obtain ⟨k₁, pre, view, k₂, rawSecret, hk, -, hverified, hfactor⟩ := (acts_on_verified_factor h
    (hostLeaves_of_recordKept hkept) (h.withinLock_of_frozen hnow)).2 l₁ e l₂ _ _ hl hw hf rfl (.inr huntouched)
  exact ⟨cfg, l₁, e, l₂, k₁, pre, view, k₂, rawSecret, h, hl, hw, hk, hverified, hfactor⟩

/-- A removal checks its code and pauses before it takes the lock. Another one removes the factor, and the account
enrols anew. The first one goes on, clears the record of the new factor, and returns. No time passes. -/
theorem acts_on_another_factor :
    let D := totpDeployment (fun secret step => [0, 0, 0, (16 * secret.length + step).toUInt8])
      [.mfa (.disable "u1" "000096" (some "t1")), .mfa (.disable "u1" "000097" (some "t1")),
        .mfa (.setup "u1" (some "t1") (some "pw")), .mfa (.verifyAndEnable "u1" "000032" (some "t1"))]
    ∃ cfg l₁ e l₂ view, D.Reaches cfg ∧ HostLeaves D cfg "u1" (some "t1") ∧ WithinLock cfg.log ∧
      (cfg.pool 0).answered.isSome = true ∧ cfg.log = l₁ ++ e :: l₂ ∧ e.tid = 0 ∧
      e.op = .host (.updateMfa "u1" (some "t1") cleared) ∧ firstRead (localTrace 0 l₁) = some view ∧
      D.env.factor (some view.mfaRecord) = some "123456" ∧
      D.env.factor (e.pre.record "u1" (some "t1")) = some "bb" := by
  intro D
  obtain ⟨cfg, h, hkept, hnow, hanswered, hcut⟩ := reaches_of_run D
    (draws 0 5 "" "" "" ++ draws 1 12 "l1" "" "" ++ enrols 2 "bb" "r2" ++ draws 0 7 "l0" "" "")
    (fun cfg => recordKept D cfg "u1" (some "t1") ∧ (∀ e ∈ cfg.log, e.pre.now = 0) ∧ (cfg.pool 0).answered.isSome ∧
      cutAt 41 (fun l₁ e _ => decide (e.tid = 0) && decide (recordAfter "u1" (some "t1") e = some cleared) &&
        writesRecord "u1" (some "t1") e && decide (D.env.factor (e.pre.record "u1" (some "t1")) = some "bb") &&
        (firstRead (localTrace 0 l₁)).any fun view => decide (D.env.factor (some view.mfaRecord) = some "123456"))
        cfg.log) (by decide +kernel)
  obtain ⟨l₁, e, l₂, hl, hcut⟩ := exists_of_cutAt hcut
  simp only [Bool.and_eq_true, decide_eq_true_eq, Option.any_eq_true] at hcut
  obtain ⟨⟨⟨⟨htid, hafter⟩, hw⟩, hfactor⟩, view, hview, hsecret⟩ := hcut
  have hop : e.op = .host (.updateMfa "u1" (some "t1") cleared) := by
    obtain ⟨data, hop⟩ := writesRecord_iff.mp hw
    obtain ⟨tid, pre, op, u⟩ := e
    cases hop
    rw [recordAfter_of_write, map_eq_some_iff] at hafter
    obtain ⟨_, -, rfl⟩ := hafter
    rfl
  exact ⟨cfg, l₁, e, l₂, view, h, hostLeaves_of_recordKept hkept, h.withinLock_of_frozen hnow, hanswered, hl, htid, hop,
    hview, hsecret, hfactor⟩

end BymaxAuth
