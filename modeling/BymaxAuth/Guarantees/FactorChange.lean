import BymaxAuth.Guarantees.SignOut
import BymaxAuth.History.Factor

/-!
# Changing the second factor

`verify_and_enable`, `disable` and `reset_mfa` write the account's record, sweep its sessions and bump its epoch:
three commands, with anything in between. A login and a challenge read the account, and store their session many
commands later. A reset may fail between any two of the three.

## The model

`ReadBefore` says that a handler read an account before a change wrote the record. `Retried` is the setting in which
a reset is retried: since a moment of the run only resets of the account write its record, and the account has a
second factor until one of them does.
-/

namespace BymaxAuth

open Redis Concurrency List

/-! ### A change in the history -/

variable {log : List Event} {tenantId : Option String} {userId : String} {tid : ℕ}

/-- A change that has returned has written the record, swept the sessions and bumped the epoch. -/
theorem swept_of_changed {env : Env} {id : String} {data : MfaRecord}
    (h : Changed env id tenantId data (localTrace tid log)) :
    ∃ l₁ pre₁ u l₂ pre₂ n l₃ pre₃ epoch l₄, log = l₁ ++ ⟨tid, pre₁, .host (.updateMfa id tenantId data), u⟩ ::
      (l₂ ++ ⟨tid, pre₂, .session (.invalidateUserSessions (env.subjectHash tenantId id)), n⟩ ::
        (l₃ ++ ⟨tid, pre₃, .account (.bumpEp (env.subjectHash tenantId id)), epoch⟩ :: l₄)) := by
  obtain ⟨tr₁, token, current, released, n, epoch, htr⟩ := h
  have hsplit : localTrace tid log = (tr₁ ++ lockedRead env id tenantId token current) ++
      ⟨.host (.updateMfa id tenantId data), ()⟩ ::
        ([⟨.mfa (.releaseLock (env.mfaLockId tenantId id) token), released⟩] ++
          ⟨.session (.invalidateUserSessions (env.subjectHash tenantId id)), n⟩ ::
            ([] ++ ⟨.account (.bumpEp (env.subjectHash tenantId id)), epoch⟩ :: [])) := by
    rw [htr]
    simp [transitionTrace, written]
  obtain ⟨l₁, ⟨t₁, pre₁, op₁, u⟩, rest₁, rfl, rfl, hev₁, -, hrest₁⟩ := localTrace_split hsplit
  cases hev₁
  obtain ⟨l₂, ⟨t₂, pre₂, op₂, r₂⟩, rest₂, rfl, ht₂, hev₂, -, hrest₂⟩ := localTrace_split hrest₁
  cases hev₂
  obtain ⟨l₃, ⟨t₃, pre₃, op₃, r₃⟩, l₄, rfl, ht₃, hev₃, -, -⟩ := localTrace_split hrest₂
  cases hev₃
  cases ht₂
  cases ht₃
  exact ⟨l₁, pre₁, _, l₂, pre₂, _, l₃, pre₃, _, l₄, rfl⟩

/-- The account whose second factor a call changes. -/
def MfaCall.changes : MfaCall → Option (String × Option String)
  | .verifyAndEnable userId _ tenantId => some (userId, tenantId)
  | .disable userId _ tenantId => some (userId, tenantId)
  | .resetMfa userId tenantId _ => some (userId, tenantId)
  | _ => none

/-- An entry that writes a record is none of a handler that has only looked the account up. -/
theorem not_written_of_read {found : Option AuthUser}
    (htr : localTrace tid log = [⟨.host (.findById userId tenantId), found⟩]) {e : Event} (he : e ∈ log)
    (ht : e.tid = tid) {id : String} {tenant : Option String} {data : MfaRecord} :
    e.op ≠ .host (.updateMfa id tenant data) := by
  intro hw
  have hmem : e.ev ∈ localTrace tid log := mem_localTrace.mpr ⟨e, he, ht, rfl⟩
  rw [htr, mem_singleton] at hmem
  have hop : e.op = .host (.findById userId tenantId) := congrArg Ev.op hmem
  rw [hw] at hop
  cases hop

namespace Deployment

variable {D : Deployment} {cfg : Snapshot}

/-- A reset that has returned has cleared the factor, or found none. -/
theorem Reaches.cleared_of_reset (h : D.Reaches cfg) {tid : ℕ} {faults : List Fault}
    (hf : D.flows tid = .mfa (.resetMfa userId tenantId faults)) {a : Answer} (hp : cfg.pool tid = .ret (.ok a)) :
    Changed D.env userId tenantId cleared (localTrace tid cfg.log) ∨ ∃ view, view.mfaEnabled = false ∧
      localTrace tid cfg.log = [⟨.host (.findById userId tenantId), some view⟩] := by
  have hans := h.answered hp
  rw [hf] at hans
  obtain ⟨_, -, -, view, rest, htr, ⟨hoff, rfl⟩ | hchanged⟩ := hans
  · exact .inr ⟨view, hoff, htr⟩
  · exact .inl hchanged

/-- A call that has returned, and has written a record, has changed the factor. -/
theorem Reaches.changed_of_write (h : D.Reaches cfg) {tid : ℕ} {call : MfaCall} (hf : D.flows tid = .mfa call)
    (hc : call.changes = some (userId, tenantId)) {a : Answer} (hp : cfg.pool tid = .ret (.ok a)) {e : Event}
    (he : e ∈ cfg.log) (ht : e.tid = tid) {id : String} {tenant : Option String} {record : MfaRecord}
    (hw : e.op = .host (.updateMfa id tenant record)) :
    ∃ data, Changed D.env userId tenantId data (localTrace tid cfg.log) := by
  have hans := h.answered hp
  rw [hf] at hans
  obtain ⟨_, -, hans⟩ := hans
  cases call with
  | verifyAndEnable userId' code tenantId' =>
    cases hc
    obtain ⟨-, data, hchanged⟩ := hans
    exact ⟨_, hchanged⟩
  | disable userId' code tenantId' =>
    cases hc
    exact ⟨_, hans.2⟩
  | resetMfa userId' tenantId' faults =>
    cases hc
    rcases h.cleared_of_reset hf hp with hchanged | ⟨view, -, htr⟩
    · exact ⟨_, hchanged⟩
    · exact absurd hw (not_written_of_read htr he ht)
  | setup _ _ _ | regenerateRecoveryCodes _ _ _ | challenge _ _ _ _ _ => cases hc

end Deployment

/-! ### What a change ends -/

/-- Whether a command reads an account. -/
def looksUpAccount : Op → Bool
  | .host (.findByEmail ..) | .host (.findAdminByEmail _) | .host (.findById ..) => true
  | _ => false

/-- Handler `tid` read an account before the change `change` wrote the record. -/
def ReadBefore (log : List Event) (tid change : ℕ) : Prop :=
  ∃ l₁ pre id tenantId data u l₂, log = l₁ ++ ⟨change, pre, .host (.updateMfa id tenantId data), u⟩ :: l₂ ∧
    ∃ e ∈ l₁, e.tid = tid ∧ looksUpAccount e.op = true

/-- Handler `tid` is a login or a challenge that was answered with a session. -/
def SignedIn (cfg : Snapshot) (tid : ℕ) (result : AuthResult) : Prop :=
  cfg.pool tid = .ret (.ok (.login (.success result))) ∨ cfg.pool tid = .ret (.ok (.mfa (.session result)))

/-- Refresh `tid` does not read the account's epoch after the bump of the change `change`, and the counter has not
lapsed. -/
structure StampedInTime (cfg : Snapshot) (subject : String) (tid change : ℕ) : Prop where
  /-- The epoch is read before the bump. -/
  stamped : ∀ l₁ pre n l₂, cfg.log = l₁ ++ ⟨change, pre, .account (.bumpEp subject), n⟩ :: l₂ →
    ∀ e ∈ l₂, e.tid = tid → e.op ≠ .account (.getEp subject)
  /-- The counter was there throughout. -/
  kept : ∀ e ∈ cfg.log, ¬ Lapsed e.pre subject
  /-- It still is. -/
  now : ¬ Lapsed cfg.st subject

namespace Deployment

variable {D : Deployment} {cfg : Snapshot}

/-- The session of a login or a challenge was issued. -/
theorem Reaches.issued_of_signedIn (h : D.Reaches cfg) {tid : ℕ} {result : AuthResult} (hp : SignedIn cfg tid result) :
    Issued D.env (localTrace tid cfg.log) result := by
  rcases hp with hp | hp
  · exact h.issued_of_login hp
  · have hans := h.answered hp
    cases hfl : D.flows tid with
    | mfa call =>
      rw [hfl] at hans
      obtain ⟨_, ⟨⟩, hans⟩ := hans
      cases call with
      | challenge expected token code ip userAgent =>
        obtain ⟨_, _, ⟨⟩, -, -, hissued⟩ := hans
        exact hissued
      | _ => simp [MfaCall.Answered] at hans
    | _ =>
      rw [hfl] at hans
      simp [Flow.Answered] at hans

/-- The access token of a refresh that read the epoch before a bump is refused. -/
theorem Reaches.refuses_stamped (h : D.Reaches cfg) {tid change : ℕ} {rotated : RotatedTokens}
    (hp : cfg.pool tid = .ret (.ok (.tokens rotated))) {subject : String}
    (hsub : D.env.subjectHash rotated.accessToken.tenantId rotated.accessToken.sub = subject) {pre : Store} {n : ℕ}
    (hbump : ⟨change, pre, .account (.bumpEp subject), n⟩ ∈ cfg.log)
    (hin : StampedInTime cfg subject tid change) : D.env.Refuses cfg.st rotated.accessToken := by
  have hsigned := h.signed_of_tokens hp
  rw [hsub] at hsigned
  obtain ⟨before, v, after, hst, hv⟩ := stampedAt_of_signed hsigned
  obtain ⟨pre', hl⟩ := hst.read
  have hafter : ∃ e ∈ after, e.op = .account (.bumpEp subject) := by
    rw [hl, mem_append, mem_cons] at hbump
    rcases hbump with hbump | hbump | hbump
    · obtain ⟨m₁, m₂, rfl⟩ := append_of_mem hbump
      rw [append_assoc, cons_append] at hl
      exact absurd rfl (hin.stamped m₁ pre n _ hl _ (mem_append_right _ mem_cons_self) rfl)
    · cases hbump
    · exact ⟨_, hbump, rfl⟩
  have hkept : EpochKept subject (v.getD 0) after := fun _ e he _ =>
    hin.kept e (hl ▸ mem_append_right _ (mem_cons_of_mem _ he))
  rw [refuses_iff, hsub, ← hv]
  exact .inr (h.epoch_lt hl hkept hafter hin.now)

end Deployment

/-- Once a change of the second factor has returned, no login and no challenge that read the account before the record
was written has a live session, refreshed or not, or an access token that is accepted — if all of them come in time
for the sweep and the bump, and no recovery straddles the sweep. An access token of a refresh is refused as well, if
the refresh read the epoch before the bump. -/
theorem factor_change_ends_sessions {D : Deployment} {cfg : Snapshot} (h : D.Reaches cfg) {change : ℕ} {call : MfaCall}
    {userId : String} {tenantId : Option String} (hf : D.flows change = .mfa call)
    (hc : call.changes = some (userId, tenantId)) {a : Answer} (hdone : cfg.pool change = .ret (.ok a))
    (hin : ∀ tid, ReadBefore cfg.log tid change → InTime cfg.log (D.env.subjectHash tenantId userId) tid change)
    (hno : NoStraddlingRecovery cfg.log) :
    (∀ tid pre s u, ⟨tid, pre, .session (.createSession s), u⟩ ∈ cfg.log →
      s.subject = D.env.subjectHash tenantId userId → ReadBefore cfg.log tid change →
      ∀ hash, Descends cfg.log s.hash hash → ¬ Live cfg.st hash) ∧
    (∀ tid result, SignedIn cfg tid result →
      D.env.subjectHash (D.env.tenantOf result.user) result.user.id = D.env.subjectHash tenantId userId →
      ReadBefore cfg.log tid change → ¬ Live cfg.st (D.env.redisHash result.refreshToken) ∧
        D.env.Refuses cfg.st result.accessToken) ∧
    (∀ tid rotated, cfg.pool tid = .ret (.ok (.tokens rotated)) →
      D.env.subjectHash rotated.accessToken.tenantId rotated.accessToken.sub = D.env.subjectHash tenantId userId →
      (∃ e ∈ cfg.log, e.tid = change ∧ ∃ id tenant data, e.op = .host (.updateMfa id tenant data)) →
      StampedInTime cfg (D.env.subjectHash tenantId userId) tid change →
      D.env.Refuses cfg.st rotated.accessToken) := by
  -- The write of the change leads to its sweep and its bump.
  have hswept : ∀ e ∈ cfg.log, e.tid = change → (∃ id tenant data, e.op = .host (.updateMfa id tenant data)) →
      ∃ l₁ pre n l₂ pre' epoch l₃, cfg.log = l₁ ++
        ⟨change, pre, .session (.invalidateUserSessions (D.env.subjectHash tenantId userId)), n⟩ ::
          (l₂ ++ ⟨change, pre', .account (.bumpEp (D.env.subjectHash tenantId userId)), epoch⟩ :: l₃) := by
    rintro e he ht ⟨id, tenant, record, hw⟩
    obtain ⟨data, hchanged⟩ := h.changed_of_write hf hc hdone he ht hw
    obtain ⟨l₁, pre₁, u, l₂, pre₂, n, l₃, pre₃, epoch, l₄, hl⟩ := swept_of_changed hchanged
    exact ⟨l₁ ++ ⟨change, pre₁, .host (.updateMfa userId tenantId data), u⟩ :: l₂, pre₂, n, l₃, pre₃, epoch, l₄,
      by rw [hl, append_assoc, cons_append]⟩
  have hread : ∀ tid, ReadBefore cfg.log tid change → ∃ l₁ pre n l₂ pre' epoch l₃, cfg.log = l₁ ++
      ⟨change, pre, .session (.invalidateUserSessions (D.env.subjectHash tenantId userId)), n⟩ ::
        (l₂ ++ ⟨change, pre', .account (.bumpEp (D.env.subjectHash tenantId userId)), epoch⟩ :: l₃) := by
    rintro tid ⟨l₁, pre, id, tenant, data, u, l₂, hl, -⟩
    exact hswept _ (hl ▸ mem_append_right _ mem_cons_self) rfl ⟨id, tenant, data, rfl⟩
  refine ⟨?_, ?_, ?_⟩
  · intro tid pre s u hs hsub hold hash hd
    obtain ⟨l₁, pre', n, l₂, pre'', epoch, l₃, hl⟩ := hread tid hold
    have hmem : ⟨tid, pre, .session (.createSession s), u⟩ ∈ l₁ := by
      have hmem := hs
      rw [hl, mem_append, mem_cons] at hmem
      rcases hmem with hmem | hmem | hmem
      · exact hmem
      · cases hmem
      · exact absurd rfl ((hin tid hold).stored l₁ pre' n _ hl _ hmem rfl s)
    exact h.dead_of_descends hno hl hmem (b := s.birth) .created hsub hd
  · intro tid result hp hsub hold
    obtain ⟨l₁, pre, n, l₂, pre', epoch, l₃, hl⟩ := hread tid hold
    exact h.issued_ends (h.issued_of_signedIn hp) hsub hl (hin tid hold)
  · rintro tid rotated hp hsub ⟨e, he, ht, hw⟩ hstamped
    obtain ⟨l₁, pre, n, l₂, pre', epoch, l₃, hl⟩ := hswept e he ht hw
    have hbump : ⟨change, pre', .account (.bumpEp (D.env.subjectHash tenantId userId)), epoch⟩ ∈ cfg.log := by
      rw [hl]
      simp
    exact h.refuses_stamped hp hsub hbump hstamped

/-- Whether a call of the second factor was answered with nothing to say. -/
def isChanged (cfg : Snapshot) (tid : ℕ) : Bool :=
  match cfg.pool tid with
  | .ret (.ok (.mfa .done)) => true
  | _ => false

theorem pool_of_isChanged {cfg : Snapshot} (h : isChanged cfg tid = true) :
    cfg.pool tid = .ret (.ok (.mfa .done)) := by
  unfold isChanged at h
  split at h
  · next heq => exact heq
  · cases h

theorem readBefore_of_precedes {change : ℕ} (h : precedes (fun e => e.tid = tid && looksUpAccount e.op)
      (fun e => e.tid = change && writesRecord userId tenantId e) log = true) : ReadBefore log tid change := by
  obtain ⟨l₁, ⟨t, pre, op, u⟩, l₂, hl, hwrite, x, hx, hread⟩ := precedes_iff.mp h
  simp only [Bool.and_eq_true, decide_eq_true_eq] at hwrite hread
  obtain ⟨rfl, hwrite⟩ := hwrite
  obtain ⟨data, rfl⟩ := writesRecord_iff.mp hwrite
  exact ⟨l₁, pre, userId, tenantId, data, u, l₂, hl, x, hx, hread⟩

open Demo

/-- A login has returned before an account enrols: the enrolment ends its session. -/
theorem factor_change_ends_sessions_enrolled : ∃ cfg result,
    (deployment [.login "a@example.com" "pw" "t1" "" "", .mfa (.setup "u1" (some "t1") (some "pw")),
      .mfa (.verifyAndEnable "u1" "123456" (some "t1"))]).Reaches cfg ∧
    cfg.pool 0 = .ret (.ok (.login (.success result))) ∧ cfg.pool 2 = .ret (.ok (.mfa .done)) ∧
    ReadBefore cfg.log 0 2 ∧ ¬ Live cfg.st (env.redisHash result.refreshToken) ∧
    env.Refuses cfg.st result.accessToken := by
  obtain ⟨cfg, h, hdone, hread, hstored, hzero, hkept, result, hres, hsub⟩ := reaches_of_run
    (deployment [.login "a@example.com" "pw" "t1" "" "", .mfa (.setup "u1" (some "t1") (some "pw")),
      .mfa (.verifyAndEnable "u1" "123456" (some "t1"))])
    (acts 0 3 "" [] ++ acts 0 9 (token 'a') ["", "", "", "", "j0", "", "f0"] ++ enrols 1 "123456" "rc")
    (fun cfg => isChanged cfg 2 ∧ precedes (fun e => e.tid = 0 && looksUpAccount e.op)
        (fun e => e.tid = 2 && writesRecord "u1" (some "t1") e) cfg.log ∧
      precedes (sweeps subject) storesLogin cfg.log = false ∧ cfg.log.all readsZero ∧
      (cfg.log.any (recoversWith true)) = false ∧ ∃ r ∈ loginOf cfg 0,
        env.subjectHash (env.tenantOf r.user) r.user.id = subject) (by decide +kernel)
  have hold := readBefore_of_precedes hread
  obtain ⟨-, hends, -⟩ := factor_change_ends_sessions h rfl rfl (pool_of_isChanged hdone)
    (fun tid _ => inTime_of_order hstored hzero tid 2) (noStraddling_of_refused h hkept)
  obtain ⟨hdead, hrefused⟩ := hends 0 result (.inl (pool_of_loginOf hres)) hsub hold
  exact ⟨cfg, result, h, pool_of_loginOf hres, pool_of_isChanged hdone, hold, hdead, hrefused⟩

/-- A login looks an account without a second factor up; the account enrols, which writes the record, sweeps and
bumps; and only then does the login, which asked for no code, read the epoch and store its session. -/
theorem factor_change_outlived : ∃ cfg result,
    (deployment [.login "a@example.com" "pw" "t1" "" "", .mfa (.setup "u1" (some "t1") (some "pw")),
      .mfa (.verifyAndEnable "u1" "123456" (some "t1"))]).Reaches cfg ∧ cfg.st.now = 0 ∧
    cfg.pool 0 = .ret (.ok (.login (.success result))) ∧ cfg.pool 2 = .ret (.ok (.mfa .done)) ∧
    ReadBefore cfg.log 0 2 ∧ result.user.id = "u1" ∧ result.user.tenantId = "t1" ∧
    Live cfg.st (env.redisHash result.refreshToken) ∧ ¬ env.Refuses cfg.st result.accessToken := by
  obtain ⟨cfg, h, hnow, hdone, hread, result, hres, hid, htenant, hlive, haccepts⟩ := reaches_of_run
    (deployment [.login "a@example.com" "pw" "t1" "" "", .mfa (.setup "u1" (some "t1") (some "pw")),
      .mfa (.verifyAndEnable "u1" "123456" (some "t1"))])
    (acts 0 3 "" [] ++ enrols 1 "123456" "rc" ++ acts 0 9 (token 'a') ["", "", "", "", "j0", "", "f0"])
    (fun cfg => cfg.st.now = 0 ∧ isChanged cfg 2 ∧ precedes (fun e => e.tid = 0 && looksUpAccount e.op)
        (fun e => e.tid = 2 && writesRecord "u1" (some "t1") e) cfg.log ∧
      ∃ r ∈ loginOf cfg 0, r.user.id = "u1" ∧ r.user.tenantId = "t1" ∧
        has cfg.st.keys.rt cfg.st.now (env.redisHash r.refreshToken) ∧
        env.accepts cfg.st r.accessToken) (by decide +kernel)
  exact ⟨cfg, result, h, hnow, pool_of_loginOf hres, pool_of_isChanged hdone, readBefore_of_precedes hread, hid,
    htenant, hlive, accepts_iff.mp haccepts⟩

/-! ### Retrying a reset -/

/-- In `l`, which is what has come after `l₀`, the reset of an account is retried, and there is no other operation on
its second factor. -/
structure Retried (D : Deployment) (userId : String) (tenantId : Option String) (l₀ l : List Event) : Prop where
  /-- The first reset comes after `l₀`. -/
  first : ∀ tid faults, D.flows tid = .mfa (.resetMfa userId tenantId faults) → localTrace tid l₀ = []
  /-- Only resets write the record. -/
  only : ∀ e ∈ l, writesRecord userId tenantId e = true →
    ∃ faults, D.flows e.tid = .mfa (.resetMfa userId tenantId faults)
  /-- The account has a second factor until one does. -/
  enabled : ∀ l₁ tid pre view l₂, l = l₁ ++ ⟨tid, pre, .host (.findById userId tenantId), some view⟩ :: l₂ →
    view.mfaEnabled = false → ∃ e ∈ l₁, writesRecord userId tenantId e = true

namespace Deployment

variable {D : Deployment} {cfg : Snapshot} {l₀ l : List Event}

/-- A reset that has cleared the factor after `l₀` has ended the sessions from before, and bumped the epoch. -/
theorem Reaches.complete_of_cleared (h : D.Reaches cfg) (hl : cfg.log = l₀ ++ l) {tid : ℕ}
    (hfirst : localTrace tid l₀ = []) (hc : Changed D.env userId tenantId cleared (localTrace tid cfg.log)) :
    (∀ e ∈ l₀, ∀ b, Bears e b → b.subject = D.env.subjectHash tenantId userId → ¬ Live cfg.st b.hash) ∧
    ∃ l₁ e l₂, cfg.log = l₁ ++ e :: l₂ ∧ e.op = .host (.updateMfa userId tenantId cleared) ∧
      ∃ x ∈ l₂, x.op = .account (.bumpEp (D.env.subjectHash tenantId userId)) := by
  obtain ⟨l₁, pre₁, u, l₂, pre₂, n, l₃, pre₃, epoch, l₄, hsplit⟩ := swept_of_changed hc
  refine ⟨?_, l₁, _, _, hsplit, rfl,
    ⟨tid, pre₃, .account (.bumpEp (D.env.subjectHash tenantId userId)), epoch⟩, by simp, rfl⟩
  intro e he b hb hsub
  have hsplit' : cfg.log = (l₁ ++ ⟨tid, pre₁, .host (.updateMfa userId tenantId cleared), u⟩ :: l₂) ++
      ⟨tid, pre₂, .session (.invalidateUserSessions (D.env.subjectHash tenantId userId)), n⟩ ::
        (l₃ ++ ⟨tid, pre₃, .account (.bumpEp (D.env.subjectHash tenantId userId)), epoch⟩ :: l₄) := by
    rw [hsplit, append_assoc, cons_append]
  refine h.dead_of_swept hsplit' ?_ hb hsub
  -- The sweep is none of the entries of `l₀`, so all of them come before it.
  rw [hl] at hsplit'
  rcases append_eq_append_iff.mp hsplit' with ⟨m, hm, -⟩ | ⟨m, hm, hrest⟩
  · rw [hm]
    exact mem_append_left _ he
  · cases m with
    | nil =>
      rw [append_nil] at hm
      exact hm ▸ he
    | cons x m =>
      rw [cons_append, List.cons.injEq] at hrest
      obtain ⟨rfl, -⟩ := hrest
      have hmem := mem_localTrace.mpr ⟨_, hm ▸ mem_append_right _ mem_cons_self, rfl, rfl⟩
      rw [hfirst] at hmem
      cases hmem

end Deployment

/-- **A reset that says so is complete**, however often it was retried and whatever failed before, if no reset failed
after it had written the record: the sessions of the account from before the first reset are dead, and its epoch was
bumped after the factor was cleared. -/
theorem resetMfa_complete {D : Deployment} {cfg : Snapshot} (h : D.Reaches cfg) {userId : String}
    {tenantId : Option String} {l₀ l : List Event} (hl : cfg.log = l₀ ++ l) (hr : Retried D userId tenantId l₀ l)
    (hclean : ∀ e ∈ l, writesRecord userId tenantId e = true → ∃ a, cfg.pool e.tid = .ret (.ok a)) {last : ℕ}
    {faults : List Fault} (hf : D.flows last = .mfa (.resetMfa userId tenantId faults)) {a : Answer}
    (hp : cfg.pool last = .ret (.ok a)) :
    (∀ e ∈ l₀, ∀ b, Bears e b → b.subject = D.env.subjectHash tenantId userId → ¬ Live cfg.st b.hash) ∧
    ∃ l₁ e l₂, cfg.log = l₁ ++ e :: l₂ ∧ e.op = .host (.updateMfa userId tenantId cleared) ∧
      ∃ x ∈ l₂, x.op = .account (.bumpEp (D.env.subjectHash tenantId userId)) := by
  rcases h.cleared_of_reset hf hp with hc | ⟨view, hoff, htr⟩
  · exact h.complete_of_cleared hl (hr.first last faults hf) hc
  · -- The last reset found the factor off, so an earlier one wrote the record, and it has returned.
    rw [hl, localTrace_append, hr.first last faults hf, nil_append] at htr
    obtain ⟨l₁, ⟨t, pre, op, r⟩, l₂, hsplit, -, hev, -, -⟩ :=
      localTrace_split (show localTrace last l = [] ++ _ :: [] from htr)
    cases hev
    obtain ⟨w, hw, hwrites⟩ := hr.enabled l₁ t pre view l₂ hsplit hoff
    have hwl : w ∈ l := hsplit ▸ mem_append_left _ hw
    have hwlog : w ∈ cfg.log := hl ▸ mem_append_right _ hwl
    obtain ⟨faults', hf'⟩ := hr.only w hwl hwrites
    obtain ⟨a', hp'⟩ := hclean w hwl hwrites
    obtain ⟨data, hop⟩ := writesRecord_iff.mp hwrites
    rcases h.cleared_of_reset hf' hp' with hc | ⟨view', -, htr'⟩
    · exact h.complete_of_cleared hl (hr.first w.tid faults' hf') hc
    · exact absurd hop (not_written_of_read htr' hwlog rfl)

/-- Whether a call is a reset of this account. -/
def resetsFactor (userId : String) (tenantId : Option String) : Flow → Bool
  | .mfa (.resetMfa id tenant _) => id = userId && tenant = tenantId
  | _ => false

theorem resetsFactor_iff {flow : Flow} :
    resetsFactor userId tenantId flow = true ↔ ∃ faults, flow = .mfa (.resetMfa userId tenantId faults) := by
  constructor
  · intro h
    unfold resetsFactor at h
    split at h
    · simp only [Bool.and_eq_true, decide_eq_true_eq] at h
      obtain ⟨rfl, rfl⟩ := h
      exact ⟨_, rfl⟩
    · cases h
  · rintro ⟨faults, rfl⟩
    simp [resetsFactor]

/-- The entry found the account without a second factor. -/
def findsOff (userId : String) (tenantId : Option String) (e : Event) : Bool :=
  match e with
  | ⟨_, _, .host (.findById id tenant), some view⟩ => id = userId && tenant = tenantId && !view.mfaEnabled
  | _ => false

/-- How to see that a reset was retried: handler 0 alone came before, and is none. -/
theorem retried_of_checks {D : Deployment} {l₀ l : List Event}
    (hzero : resetsFactor userId tenantId (D.flows 0) = false) (hfirst : (l₀.all fun e => e.tid = 0) = true)
    (honly : (l.all fun e => !writesRecord userId tenantId e || resetsFactor userId tenantId (D.flows e.tid)) = true)
    (henabled : everyCut (fun l₁ e _ => !findsOff userId tenantId e || l₁.any (writesRecord userId tenantId)) [] l =
      true) : Retried D userId tenantId l₀ l where
  first tid faults hf := by
    have htid : tid ≠ 0 := by
      rintro rfl
      rw [resetsFactor_iff.mpr ⟨faults, hf⟩] at hzero
      cases hzero
    refine map_eq_nil_iff.mpr (filter_eq_nil_iff.mpr fun e he ht => ?_)
    have h0 : e.tid = 0 := by simpa using all_eq_true.mp hfirst e he
    exact htid ((of_decide_eq_true ht).symm.trans h0)
  only e he hw := by
    have hcheck := all_eq_true.mp honly e he
    rw [hw] at hcheck
    exact resetsFactor_iff.mp hcheck
  enabled l₁ tid pre view l₂ hl hoff := by
    rw [hl] at henabled
    have hcheck := of_everyCut henabled
    simpa [findsOff, hoff] using hcheck

/-- A session is stored; a reset fails before it has the lock; a second one clears the factor, sweeps and bumps; a
third one finds no factor. The session is dead. -/
theorem resetMfa_complete_retried :
    let D := guardedDeployment [.issue guarded "" "" true, .mfa (.resetMfa "u1" (some "t1") [.answered, .lost]),
      .mfa (.resetMfa "u1" (some "t1") []), .mfa (.resetMfa "u1" (some "t1") [])]
    ∃ cfg l₀ l, D.Reaches cfg ∧ cfg.log = l₀ ++ l ∧ cfg.pool 1 = .ret (.error .internal) ∧
      cfg.pool 3 = .ret (.ok (.mfa .done)) ∧
      ∃ e ∈ l₀, ∃ b, Bears e b ∧ b.subject = subject ∧ ¬ Live cfg.st b.hash := by
  intro D
  obtain ⟨cfg, h, hfailed, hdone, hlast, hopens, hfirst, hwriter, henabled⟩ := reaches_of_run D
    (firstIssue ++ acts 1 2 (token 'b') [] ++ acts 2 8 "" [] ++ acts 3 1 "" [])
    (fun cfg => (cfg.pool 1).failed = some .internal ∧ isChanged cfg 2 ∧ isChanged cfg 3 ∧
      (∃ e ∈ cfg.log.take 8, opensFor subject (token 'a') e) ∧
      ((cfg.log.take 8).all fun e => e.tid = 0) ∧
      (∀ e ∈ cfg.log.drop 8, writesRecord "u1" (some "t1") e = true → e.tid = 2) ∧
      everyCut (fun l₁ e _ => !findsOff "u1" (some "t1") e || l₁.any (writesRecord "u1" (some "t1"))) []
        (cfg.log.drop 8)) (by decide +kernel)
  have hr : Retried D "u1" (some "t1") (cfg.log.take 8) (cfg.log.drop 8) := by
    refine retried_of_checks rfl hfirst (all_eq_true.mpr fun e he => ?_) henabled
    cases hw : writesRecord "u1" (some "t1") e with
    | false => rfl
    | true =>
      rw [hwriter e he hw]
      rfl
  obtain ⟨hdead, -⟩ := resetMfa_complete h (take_append_drop 8 cfg.log).symm hr
    (fun e he hw => by rw [hwriter e he hw]; exact ⟨_, pool_of_isChanged hdone⟩) rfl
    (pool_of_isChanged hlast)
  obtain ⟨e, he, hopen⟩ := hopens
  refine ⟨cfg, _, _, h, (take_append_drop 8 cfg.log).symm, Prog.failed_eq_some.mp hfailed,
    pool_of_isChanged hlast, e, he, ?_⟩
  obtain ⟨b, hb, -, hsub⟩ := bears_of_opensFor hopen
  exact ⟨b, hb, hsub, hdead e he b hb hsub⟩

/-- A session is stored; a reset clears the record, and its sweep fails; the retry finds no factor and returns. The
session is live, and the epoch was never bumped. -/
theorem resetMfa_incomplete :
    let D := guardedDeployment [.issue guarded "" "" true,
      .mfa (.resetMfa "u1" (some "t1") [.answered, .answered, .answered, .answered, .answered, .lost]),
      .mfa (.resetMfa "u1" (some "t1") [])]
    ∃ cfg l₀ l, D.Reaches cfg ∧ cfg.log = l₀ ++ l ∧ Retried D "u1" (some "t1") l₀ l ∧
      cfg.pool 1 = .ret (.error .internal) ∧ cfg.pool 2 = .ret (.ok (.mfa .done)) ∧
      (∃ e ∈ l₀, ∃ b, Bears e b ∧ b.subject = subject ∧ Live cfg.st b.hash) ∧
      ∀ e ∈ cfg.log, e.op ≠ .account (.bumpEp subject) := by
  intro D
  obtain ⟨cfg, h, hfailed, hdone, ⟨e, he, hopen⟩, hlive, hbump, hfirst, honly, henabled⟩ := reaches_of_run D
    (firstIssue ++ acts 1 6 (token 'b') [] ++ acts 2 1 "" [])
    (fun cfg => (cfg.pool 1).failed = some .internal ∧ isChanged cfg 2 ∧
      (∃ e ∈ cfg.log.take 8, opensFor subject (token 'a') e) ∧
      has cfg.st.keys.rt cfg.st.now (token 'a') ∧ (∀ e ∈ cfg.log, bumps subject e = false) ∧
      ((cfg.log.take 8).all fun e => e.tid = 0) ∧
      ((cfg.log.drop 8).all fun e => !writesRecord "u1" (some "t1") e || resetsFactor "u1" (some "t1") (D.flows e.tid)) ∧
      everyCut (fun l₁ e _ => !findsOff "u1" (some "t1") e || l₁.any (writesRecord "u1" (some "t1"))) []
        (cfg.log.drop 8)) (by decide +kernel)
  obtain ⟨b, hb, hhash, hsub⟩ := bears_of_opensFor hopen
  refine ⟨cfg, _, _, h, (take_append_drop 8 cfg.log).symm, retried_of_checks rfl hfirst honly henabled,
    Prog.failed_eq_some.mp hfailed, pool_of_isChanged hdone, ⟨e, he, b, hb, hsub, hhash ▸ hlive⟩, ?_⟩
  intro x hx hop
  exact absurd (bumps_iff.mpr hop) (Bool.eq_false_iff.mp (hbump x hx))

end BymaxAuth
