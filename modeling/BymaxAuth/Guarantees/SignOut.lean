import BymaxAuth.Guarantees.Sweep
import BymaxAuth.Guarantees.Epoch

/-!
# Signing out everywhere, and resetting a password

Both sweep the account's sessions in one script and bump its epoch in another. What they race with reads
and writes in several steps as well. A refresh rotates in one script and reads the epoch for its access
token in a later one; a login looks the password up, and stores its session many commands later.

## The model

`StampedAt` says where in the history the epoch of an access token was read: it is the last such read of
its handler before the token's id was drawn. `CheckedOldHash` says that a login looked the account up
before a reset wrote the new hash.
-/

namespace BymaxAuth

open Redis Concurrency List

/-! ### Stamps -/

/-- Handler `tid` stamped the token `jti`: after `before`, it read `v` as the account's epoch, and in
`after` it drew `jti`, with no epoch read of its own in between. -/
structure StampedAt (log : List Event) (tid : ℕ) (jti subject : String) (before : List Event)
    (v : Option ℕ) (after : List Event) : Prop where
  read : ∃ pre, log = before ++ ⟨tid, pre, .account (.getEp subject), v⟩ :: after
  /-- The draw. -/
  drawn : ∃ l₁ pre l₂, after = l₁ ++ ⟨tid, pre, .host .newUuid, jti⟩ :: l₂ ∧
    ∀ e ∈ l₁, e.tid = tid → ∀ s, e.op ≠ .account (.getEp s)

variable {log : List Event} {tid : ℕ} {subject : String} {cfg : Snapshot}

theorem stampedAt_of_signed {jti : String} {epoch : ℕ} (h : Signed (localTrace tid log) subject jti epoch) :
    ∃ before v after, StampedAt log tid jti subject before v after ∧ v.getD 0 = epoch := by
  obtain ⟨tr₁, v, tr₂, tr₃, htr, hno, hv⟩ := h
  obtain ⟨before, ⟨t, pre, op, res⟩, after, hlog, rfl, hev, -, hafter⟩ := localTrace_split htr
  cases hev
  obtain ⟨l₁, ⟨t', pre', op', res'⟩, l₂, hl, ht', hev', hl₁, -⟩ := localTrace_split hafter
  cases hev'
  subst ht'
  refine ⟨before, _, after, ⟨⟨pre, hlog⟩, l₁, pre', l₂, hl, ?_⟩, hv⟩
  intro e he ht s hop
  exact hno e.ev (hl₁ ▸ mem_localTrace.mpr ⟨e, he, ht, rfl⟩) s hop

/-- The tenant a rotated token names is the one its record names. -/
theorem claimTenant_of_names {env : Env} {b : Birth} {r : SessionRecord} (h : Names env b r) :
    env.claimTenant r = r.tenantId := by
  unfold Env.claimTenant
  cases hk : env.kind with
  | dashboard =>
    obtain ⟨tenant, ht⟩ := Option.isSome_iff_exists.mp (h.tenanted hk)
    simp [ht]
  | platform => exact (h.tenant hk).symm

namespace Deployment

variable {D : Deployment}

/-- Every access token a refresh returns was stamped for the account it names. -/
theorem Reaches.signed_of_tokens (h : D.Reaches cfg) {rotated : RotatedTokens}
    (hp : cfg.pool tid = .ret (.ok (.tokens rotated))) :
    Signed (localTrace tid cfg.log)
      (D.env.subjectHash rotated.accessToken.tenantId rotated.accessToken.sub) rotated.accessToken.jti
      rotated.accessToken.epoch := by
  have hans := h.answered hp
  cases hf : D.flows tid with
  | refresh rawRefresh ip userAgent =>
    rw [hf] at hans
    obtain ⟨_, r, ⟨⟩, href⟩ := hans
    rw [href.sub]
    rcases href.signed with ⟨ht, hs⟩ | ⟨tenantId, user, -, -, ht, hs⟩
    · obtain ⟨-, e, -, -, -, b, -, -, hb⟩ := h.begets_of_made href.made
      rw [ht, claimTenant_of_names hb]
      exact hs
    · rw [ht]
      exact hs
  | _ =>
    rw [hf] at hans
    simp [Flow.Answered] at hans

/-- A revoke-all that has returned has bumped the epoch. -/
theorem Reaches.bumped_of_revokeAll (h : D.Reaches cfg) {tenantId : Option String} {userId : String}
    (hf : D.flows tid = .revokeAll tenantId userId) {a : Answer} (hp : cfg.pool tid = .ret (.ok a)) :
    ∃ pre n, ⟨tid, pre, .account (.bumpEp (D.env.subjectHash tenantId userId)), n⟩ ∈ cfg.log := by
  have hans := h.answered hp
  rw [hf] at hans
  obtain ⟨-, n, epoch, htr⟩ := hans
  have hmem : (⟨.account (.bumpEp (D.env.subjectHash tenantId userId)), epoch⟩ : Exchange) ∈
      localTrace tid cfg.log := by
    rw [htr]
    exact mem_cons_of_mem _ mem_cons_self
  obtain ⟨pre, he⟩ := exchange_mem.mp hmem
  exact ⟨pre, _, he⟩

end Deployment

/-- A refresh's access token, in a run in which the account's epoch does not lapse, is revoked by every
revoke-all that has returned and whose bump does not come before the read that stamped the token. While no
bump comes after that read, the token is refused only once it is spent. -/
theorem signOut_revokes {D : Deployment} {cfg : Snapshot} (h : D.Reaches cfg) {tid : ℕ}
    {rotated : RotatedTokens} (hp : cfg.pool tid = .ret (.ok (.tokens rotated))) {subject : String}
    (hsub : D.env.subjectHash rotated.accessToken.tenantId rotated.accessToken.sub = subject)
    (hlog : ∀ e ∈ cfg.log, ¬ Lapsed e.pre subject) (hnow : ¬ Lapsed cfg.st subject) :
    ∃ before v after, StampedAt cfg.log tid rotated.accessToken.jti subject before v after ∧
      (∀ tid' tenantId userId a, D.flows tid' = .revokeAll tenantId userId →
        D.env.subjectHash tenantId userId = subject → cfg.pool tid' = .ret (.ok a) →
        (∀ e ∈ before, e.tid = tid' → e.op ≠ .account (.bumpEp subject)) →
        D.env.Refuses cfg.st rotated.accessToken) ∧
      ((∀ e ∈ after, e.op ≠ .account (.bumpEp subject)) →
        (D.env.Refuses cfg.st rotated.accessToken ↔ SpentAt cfg.st rotated.accessToken)) := by
  have hsigned := h.signed_of_tokens hp
  rw [hsub] at hsigned
  obtain ⟨before, v, after, hst, hv⟩ := stampedAt_of_signed hsigned
  obtain ⟨pre, hl⟩ := hst.read
  refine ⟨before, v, after, hst, ?_, fun hno => ?_⟩
  · intro tid' tenantId userId a hf hsub' hp' hbefore
    obtain ⟨pre', n, hbump⟩ := h.bumped_of_revokeAll hf hp'
    rw [hsub', hl, mem_append, mem_cons] at hbump
    have hafter : ∃ e ∈ after, e.op = .account (.bumpEp subject) := by
      rcases hbump with hbump | hbump | hbump
      · exact absurd rfl (hbefore _ hbump rfl)
      · cases hbump
      · exact ⟨_, hbump, rfl⟩
    have hkept : EpochKept subject (v.getD 0) after := fun _ e he _ =>
      hlog e (hl ▸ mem_append_right _ (mem_cons_of_mem _ he))
    rw [refuses_iff, hsub, ← hv]
    exact .inr (h.epoch_lt hl hkept hafter hnow)
  · have hle := h.epoch_le hl hno
    rw [refuses_iff, hsub, ← hv]
    exact or_iff_left (Nat.not_lt_of_le hle)

/-- Whether a handler was answered with nothing to say. -/
def isDone (cfg : Snapshot) (tid : ℕ) : Bool :=
  match cfg.pool tid with
  | .ret (.ok .done) => true
  | _ => false

theorem pool_of_isDone (h : isDone cfg tid = true) : cfg.pool tid = .ret (.ok .done) := by
  unfold isDone at h
  split at h
  · next heq => exact heq
  · cases h

/-- A counter that was never written has not lapsed, nor has one whose deadline is ahead. -/
def keptAt (subject : String) (st : Store) : Bool := (st.ep subject).all (·.live st.now)

theorem not_lapsed_of_keptAt {st : Store} (h : keptAt subject st = true) : ¬ Lapsed st subject := by
  rintro ⟨cell, hk, hdead⟩
  rw [keptAt, hk, Option.all_some, hdead] at h
  cases h

open Demo

/-- A refresh that has returned before a revoke-all starts: its access token is refused. -/
theorem signOut_revokes_refreshed : ∃ cfg rotated,
    (deployment [.issue alice "" "" false, .refresh (token 'a') "" "",
      .revokeAll (some "t1") "u1"]).Reaches cfg ∧
    cfg.pool 1 = .ret (.ok (.tokens rotated)) ∧ cfg.st.now < rotated.accessToken.exp ∧
    env.Refuses cfg.st rotated.accessToken := by
  obtain ⟨cfg, h, hdone, hlog, hnow, horder, rotated, htok, hexp, hsub⟩ := reaches_of_run
    (deployment [.issue alice "" "" false, .refresh (token 'a') "" "", .revokeAll (some "t1") "u1"])
    (firstIssue ++ acts 1 5 (token 'b') [] ++ acts 1 8 "" ["", "", "", "j1"] ++ acts 2 2 "" [])
    (fun cfg => isDone cfg 2 ∧ (∀ e ∈ cfg.log, keptAt subject e.pre) ∧ keptAt subject cfg.st ∧
      precedes (bumps subject) (fun e => e.tid = 1) cfg.log = false ∧
      ∃ r ∈ tokensOf cfg 1, cfg.st.now < r.accessToken.exp ∧
        env.subjectHash r.accessToken.tenantId r.accessToken.sub = subject) (by decide +kernel)
  obtain ⟨before, v, after, hst, hrevokes, -⟩ := signOut_revokes h (pool_of_tokensOf htok) hsub
    (fun e he => not_lapsed_of_keptAt (hlog e he)) (not_lapsed_of_keptAt hnow)
  refine ⟨cfg, rotated, h, pool_of_tokensOf htok, hexp,
    hrevokes 2 (some "t1") "u1" .done rfl rfl (pool_of_isDone hdone) ?_⟩
  -- The read that stamped the token is an entry of handler 1, and no bump is followed by one.
  obtain ⟨pre, hl⟩ := hst.read
  intro e he _ hop
  refine Bool.eq_false_iff.mp horder (precedes_iff.mpr ⟨before, _, after, hl, ?_, e, he, bumps_iff.mpr hop⟩)
  exact decide_eq_true rfl

/-- A refresh rotates; a revoke-all sweeps and bumps; and only then does the refresh read the epoch. The
session it stored is gone, but its access token is accepted. No time passes. -/
theorem signOut_outlived : ∃ cfg rotated l₁ pre n l₂,
    (deployment [.issue alice "" "" false, .refresh (token 'a') "" "",
      .revokeAll (some "t1") "u1"]).Reaches cfg ∧
    cfg.st.now = 0 ∧ cfg.pool 1 = .ret (.ok (.tokens rotated)) ∧ cfg.pool 2 = .ret (.ok .done) ∧
    env.subjectHash rotated.accessToken.tenantId rotated.accessToken.sub = env.subjectHash (some "t1") "u1" ∧
    cfg.log = l₁ ++ ⟨2, pre, .session (.invalidateUserSessions (env.subjectHash (some "t1") "u1")), n⟩ :: l₂ ∧
    (∃ e ∈ l₁, e.tid = 1 ∧ rotates (token 'a') e = true) ∧
    ¬ env.Refuses cfg.st rotated.accessToken := by
  obtain ⟨cfg, h, hnow, hdone, horder, rotated, htok, hsub, haccepts⟩ := reaches_of_run
    (deployment [.issue alice "" "" false, .refresh (token 'a') "" "", .revokeAll (some "t1") "u1"])
    (firstIssue ++ acts 1 5 (token 'b') [] ++ acts 2 2 "" [] ++ acts 1 8 "" ["", "", "", "j1"])
    (fun cfg => cfg.st.now = 0 ∧ isDone cfg 2 ∧ precedes (fun e => e.tid = 1 && rotates (token 'a') e)
        (fun e => e.tid = 2 && sweeps subject e) cfg.log ∧
      ∃ r ∈ tokensOf cfg 1, env.subjectHash r.accessToken.tenantId r.accessToken.sub = subject ∧
        env.accepts cfg.st r.accessToken) (by decide +kernel)
  obtain ⟨l₁, e, l₂, hl, hsweep, hrot⟩ := precedes_iff.mp horder
  simp only [Bool.and_eq_true, decide_eq_true_eq] at hsweep hrot
  obtain ⟨htid, hsweep⟩ := hsweep
  obtain ⟨tid, pre, n, rfl⟩ := sweeps_iff.mp hsweep
  cases htid
  exact ⟨cfg, rotated, l₁, pre, n, l₂, h, hnow, pool_of_tokensOf htok, pool_of_isDone hdone, hsub, hl, hrot,
    accepts_iff.mp haccepts⟩

/-! ### Resetting a password -/

/-- Login `login` looked its account up before the reset `reset` wrote the new hash, so it checked the
password against the hash from before. -/
def CheckedOldHash (log : List Event) (login reset : ℕ) : Prop :=
  ∃ l₁ pre id tenantId newHash u l₂, log = l₁ ++ ⟨reset, pre, .host (.updatePassword id tenantId newHash), u⟩ :: l₂ ∧
    ∃ e ∈ l₁, e.tid = login ∧ ∃ email t, e.op = .host (.findByEmail email t)

/-- The steps of login `login` come in time for the reset `reset`: it stores no session after the reset's
sweep, and from its epoch read to the reset's bump no bump finds the account's counter lapsed. -/
structure InTime (log : List Event) (subject : String) (login reset : ℕ) : Prop where
  /-- The session is stored before the sweep. -/
  stored : ∀ l₁ pre n l₂, log = l₁ ++ ⟨reset, pre, .session (.invalidateUserSessions subject), n⟩ :: l₂ →
    ∀ e ∈ l₂, e.tid = login → ∀ s, e.op ≠ .session (.createSession s)
  /-- The counter does not lapse between the stamp and the bump. -/
  kept : ∀ l₁ pre v l₂ pre' n l₃, log = l₁ ++ ⟨login, pre, .account (.getEp subject), v⟩ ::
      (l₂ ++ ⟨reset, pre', .account (.bumpEp subject), n⟩ :: l₃) →
    EpochKept subject (v.getD 0) (l₂ ++ [⟨reset, pre', .account (.bumpEp subject), n⟩])

/-- An access token does not outlast the thirty days of a counter that was bumped no earlier than the
token was issued. -/
theorem expiry_le {env : Env} {iat now : ℕ} (h : iat ≤ now) :
    expiry iat env.config.accessTtl ≤ now + tokenEpochRetentionSecs := by
  have := env.config.access_le
  unfold expiry
  omega

/-- The index of an account is the same whether its tenant is looked up on the plane or named. -/
theorem subjectHash_tenantOf (env : Env) (user : AuthUser) :
    env.subjectHash (env.tenantOf user) user.id = env.subjectHash (some user.tenantId) user.id := by
  unfold Env.subjectHash Env.tenantOf
  cases hk : env.kind <;> rfl

/-- Where a trace is cut, an exchange that the second part does not have is in the first. -/
theorem split_before {tr₁ tr₂ a b : Trace} {x : Exchange} (h : tr₁ ++ x :: tr₂ = a ++ b) (hx : x ∉ b) :
    ∃ rest, a = tr₁ ++ x :: rest := by
  rcases append_eq_append_iff.mp h with ⟨c, rfl, hc⟩ | ⟨c, rfl, rfl⟩
  · cases c with
    | nil =>
      rw [nil_append] at hc
      exact absurd (hc ▸ mem_cons_self) hx
    | cons y c =>
      rw [cons_append, List.cons.injEq] at hc
      exact ⟨c, by rw [hc.1]⟩
  · exact absurd (mem_append_right _ mem_cons_self) hx

/-- The session of a login that stores none after `l₁` is in `l₁`, with the epoch read and the clock before it. -/
theorem issued_before {env : Env} {l₁ l₂ : List Event} {result : AuthResult} (hi : Issued env (localTrace tid log) result)
    (hl : log = l₁ ++ l₂) (hno : ∀ e ∈ l₂, e.tid = tid → ∀ s, e.op ≠ .session (.createSession s)) :
    ∃ subject, subject = env.subjectHash (env.tenantOf result.user) result.user.id ∧
      (∃ e ∈ l₁, ∃ b, Bears e b ∧ b.hash = env.redisHash result.refreshToken ∧ b.subject = subject) ∧
      (∃ k₁ pre v k₂, l₁ = k₁ ++ ⟨tid, pre, .account (.getEp subject), v⟩ :: k₂ ∧
        v.getD 0 = result.accessToken.epoch) ∧
      ∃ pre, ⟨tid, pre, .host .nowUnix, result.accessToken.iat⟩ ∈ l₁ := by
  obtain ⟨tr₁, s, u, tr₂, htr, hhash, hsub, hsigned, hclock⟩ := hi.stored
  rw [hl, localTrace_append] at htr
  obtain ⟨rest, hrest⟩ := split_before htr.symm fun hmem => by
    obtain ⟨e, he, ht, hev⟩ := mem_localTrace.mp hmem
    exact hno e he ht s (congrArg Ev.op hev)
  refine ⟨s.subject, hsub, ?_, ?_, ?_⟩
  · have hmem : (⟨.session (.createSession s), u⟩ : Exchange) ∈ localTrace tid l₁ :=
      hrest ▸ mem_append_right _ mem_cons_self
    obtain ⟨pre, he⟩ := exchange_mem.mp hmem
    exact ⟨_, he, s.birth, .created, hhash, rfl⟩
  · obtain ⟨t₁, v, t₂, t₃, rfl, -, hv⟩ := hsigned
    rw [append_assoc, cons_append] at hrest
    obtain ⟨k₁, ⟨t, pre, op, res⟩, k₂, rfl, rfl, hev, -, -⟩ := localTrace_split hrest
    cases hev
    exact ⟨k₁, pre, _, k₂, rfl, hv⟩
  · obtain ⟨⟨t, pre, op, res⟩, he, rfl, hev⟩ :=
      mem_localTrace.mp (hrest ▸ mem_append_left _ hclock)
    cases hev
    exact ⟨pre, he⟩

namespace Deployment

variable {D : Deployment}

namespace Reaches

variable (h : D.Reaches cfg)
include h

/-- A reset that has returned has swept the sessions, and bumped the epoch after that. -/
theorem swept_of_reset {userId tenantId newPassword : String}
    (hf : D.flows tid = .resetPassword userId tenantId newPassword) {a : Answer} (hp : cfg.pool tid = .ret (.ok a)) :
    ∃ l₁ pre n l₂ pre' epoch l₃, cfg.log = l₁ ++
      ⟨tid, pre, .session (.invalidateUserSessions (D.env.subjectHash (some tenantId) userId)), n⟩ ::
        (l₂ ++ ⟨tid, pre', .account (.bumpEp (D.env.subjectHash (some tenantId) userId)), epoch⟩ :: l₃) := by
  have hans := h.answered hp
  rw [hf] at hans
  obtain ⟨-, newHash, u, n, epoch, htr⟩ := hans
  obtain ⟨l₁, ⟨t, pre, op, res⟩, rest, hl, rfl, hev, -, hrest⟩ := localTrace_split
    (show localTrace tid cfg.log = [_, _] ++ _ :: [_] from htr)
  cases hev
  obtain ⟨l₂, ⟨t', pre', op', res'⟩, l₃, rfl, ht', hev', -, -⟩ :=
    localTrace_split (show localTrace _ rest = [] ++ _ :: [] from hrest)
  cases hev'
  subst ht'
  exact ⟨l₁, pre, _, l₂, pre', _, l₃, hl⟩

theorem nowUnix_eq {pre : Store} {t : ℕ} (he : ⟨tid, pre, .host .nowUnix, t⟩ ∈ cfg.log) : t = pre.now := by
  obtain ⟨c, d, -, hm, -⟩ := h.at_mem he
  obtain ⟨i, hi⟩ := moment_host hm
  exact (congrArg Prod.fst hi).symm

theorem issued_of_login {result : AuthResult}
    (hp : cfg.pool tid = .ret (.ok (.login (.success result)))) : Issued D.env (localTrace tid cfg.log) result := by
  have hans := h.answered hp
  cases hfl : D.flows tid with
  | login | platformLogin =>
    rw [hfl] at hans
    obtain ⟨_, ⟨⟩, hi⟩ := hans
    exact hi
  | _ =>
    rw [hfl] at hans
    simp [Flow.Answered] at hans

/-- A session that was issued in time for a sweep and a bump of its account is dead, and its access token is
refused. -/
theorem issued_ends {change : ℕ} {result : AuthResult} (hi : Issued D.env (localTrace tid cfg.log) result)
    (hsub : D.env.subjectHash (D.env.tenantOf result.user) result.user.id = subject) {l₁ l₂ l₃ : List Event}
    {pre pre' : Store} {n epoch : ℕ}
    (hl : cfg.log = l₁ ++ ⟨change, pre, .session (.invalidateUserSessions subject), n⟩ ::
      (l₂ ++ ⟨change, pre', .account (.bumpEp subject), epoch⟩ :: l₃)) (hin : InTime cfg.log subject tid change) :
    ¬ Live cfg.st (D.env.redisHash result.refreshToken) ∧ D.env.Refuses cfg.st result.accessToken := by
  obtain ⟨owner, howner, ⟨e, he, b, hb, hbh, hbs⟩, ⟨k₁, prer, v, k₂, rfl, hv⟩, ⟨prec, hclock⟩⟩ :=
    issued_before hi hl fun e he ht s hop => by
      rcases mem_cons.mp he with rfl | he
      · cases hop
      · exact hin.stored l₁ pre n _ hl e he ht s hop
  obtain rfl : subject = owner := hsub.symm.trans howner.symm
  refine ⟨hbh ▸ h.dead_of_swept hl he hb hbs, ?_⟩
  -- The stamp, the sweep and the bump, in this order.
  have hl' : cfg.log = k₁ ++ ⟨tid, prer, .account (.getEp subject), v⟩ ::
      ((k₂ ++ ⟨change, pre, .session (.invalidateUserSessions subject), n⟩ :: l₂) ++
        ⟨change, pre', .account (.bumpEp subject), epoch⟩ :: l₃) := by
    rw [hl]
    simp
  have hiat : result.accessToken.iat ≤ pre'.now := by
    have hmem : ⟨tid, prec, .host .nowUnix, result.accessToken.iat⟩ ∈ cfg.log := by
      rw [hl]
      exact mem_append_left _ hclock
    rw [h.nowUnix_eq hmem]
    rw [← cons_append, ← append_assoc] at hl
    obtain ⟨c, d, hc, hm, -⟩ := h.at_entry hl
    have hst : c.st = pre' := hm.st₁
    rw [← hst]
    exact hc.pre_now_le (by rw [hm.log₁]; exact mem_append_left _ hclock)
  have hexp : result.accessToken.exp ≤ pre'.now + tokenEpochRetentionSecs := by
    rw [hi.exp]
    exact expiry_le hiat
  rw [refuses_iff, hi.tenantId, hi.sub, hsub, ← hv]
  by_cases hnow : result.accessToken.exp ≤ cfg.st.now
  · exact .inl (.inl hnow)
  · exact .inr (h.epoch_lt_after_bump hl' (hin.kept _ _ _ _ _ _ _ hl')
      (Nat.lt_of_lt_of_le (Nat.lt_of_not_le hnow) hexp))

end Reaches

end Deployment

/-- Once a password reset has returned, no login that checked the old hash has a live session or an access
token that is accepted — if all such logins come in time. -/
theorem reset_ends_old_logins {D : Deployment} {cfg : Snapshot} (h : D.Reaches cfg) {reset : ℕ}
    {userId tenantId newPassword : String} (hf : D.flows reset = .resetPassword userId tenantId newPassword)
    (hdone : cfg.pool reset = .ret (.ok .done))
    (hin : ∀ login, CheckedOldHash cfg.log login reset →
      InTime cfg.log (D.env.subjectHash (some tenantId) userId) login reset)
    {login : ℕ} {result : AuthResult} (hp : cfg.pool login = .ret (.ok (.login (.success result))))
    (hid : result.user.id = userId) (htenant : result.user.tenantId = tenantId)
    (hold : CheckedOldHash cfg.log login reset) :
    ¬ Live cfg.st (D.env.redisHash result.refreshToken) ∧ D.env.Refuses cfg.st result.accessToken := by
  obtain ⟨l₁, pre, n, l₂, pre', epoch, l₃, hl⟩ := h.swept_of_reset hf hdone
  refine h.issued_ends (h.issued_of_login hp) ?_ hl (hin login hold)
  rw [subjectHash_tenantOf, hid, htenant]

/-- The session a login was answered with. -/
def loginOf (cfg : Snapshot) (tid : ℕ) : Option AuthResult :=
  match cfg.pool tid with
  | .ret (.ok (.login (.success result))) => some result
  | _ => none

theorem pool_of_loginOf {result : AuthResult} (h : loginOf cfg tid = some result) :
    cfg.pool tid = .ret (.ok (.login (.success result))) := by
  unfold loginOf at h
  split at h
  · next heq =>
    cases h
    exact heq
  · cases h

/-- The entry is a lookup of an address by this handler. -/
def looksUp (tid : ℕ) (e : Event) : Bool :=
  match e with
  | ⟨t, _, .host (.findByEmail _ _), _⟩ => t = tid
  | _ => false

/-- The entry is a password write by this handler. -/
def writesHash (tid : ℕ) (e : Event) : Bool :=
  match e with
  | ⟨t, _, .host (.updatePassword _ _ _), _⟩ => t = tid
  | _ => false

theorem checkedOldHash_of_precedes {login reset : ℕ} (h : precedes (looksUp login) (writesHash reset) log = true) :
    CheckedOldHash log login reset := by
  obtain ⟨l₁, e, l₂, hl, hwrite, x, hx, hlook⟩ := precedes_iff.mp h
  unfold writesHash at hwrite
  split at hwrite
  · simp only [decide_eq_true_eq] at hwrite
    subst hwrite
    refine ⟨l₁, _, _, _, _, _, l₂, hl, x, hx, ?_⟩
    unfold looksUp at hlook
    split at hlook
    · exact ⟨by simpa using hlook, _, _, rfl⟩
    · cases hlook
  · cases hwrite

/-- The entry stores a login's session. -/
def storesLogin (e : Event) : Bool :=
  match e with
  | ⟨_, _, .session (.createSession _), _⟩ => true
  | _ => false

/-- The entry reads no epoch but zero. -/
def readsZero (e : Event) : Bool :=
  match e with
  | ⟨_, _, .account (.getEp _), v⟩ => v.getD 0 = 0
  | _ => true

theorem inTime_of_order (hstored : precedes (sweeps subject) storesLogin log = false)
    (hzero : log.all readsZero = true) (login reset : ℕ) : InTime log subject login reset := by
  constructor
  · intro l₁ pre n l₂ hl e he _ s hop
    obtain ⟨m₁, m₂, rfl⟩ := append_of_mem he
    rw [← cons_append, ← append_assoc] at hl
    refine Bool.eq_false_iff.mp hstored (precedes_iff.mpr ⟨_, e, m₂, hl, ?_, _,
      mem_append_right _ mem_cons_self, sweeps_iff.mpr ⟨_, _, _, rfl⟩⟩)
    obtain ⟨tid, pre', op, r⟩ := e
    cases hop
    rfl
  · intro l₁ pre v l₂ pre' n l₃ hl hne
    have hmem : readsZero ⟨login, pre, .account (.getEp subject), v⟩ = true :=
      all_eq_true.mp hzero _ (hl ▸ mem_append_right _ mem_cons_self)
    exact absurd (by simpa [readsZero] using hmem) hne

/-- A login has returned before the reset starts: the reset ends its session. -/
theorem reset_ends_old_logins_returned : ∃ cfg result,
    (deployment [.login "a@example.com" "pw" "t1" "" "", .resetPassword "u1" "t1" "next"]).Reaches cfg ∧
    cfg.pool 0 = .ret (.ok (.login (.success result))) ∧ cfg.pool 1 = .ret (.ok .done) ∧
    CheckedOldHash cfg.log 0 1 ∧ ¬ Live cfg.st (env.redisHash result.refreshToken) ∧
    env.Refuses cfg.st result.accessToken := by
  obtain ⟨cfg, h, hdone, hold, hstored, hzero, result, hres, hid, htenant⟩ := reaches_of_run
    (deployment [.login "a@example.com" "pw" "t1" "" "", .resetPassword "u1" "t1" "next"])
    (acts 0 3 "" [] ++ acts 0 9 (token 'a') ["", "", "", "", "j0", "", "f0"] ++ acts 1 4 "" [])
    (fun cfg => isDone cfg 1 ∧ precedes (looksUp 0) (writesHash 1) cfg.log ∧
      precedes (sweeps subject) storesLogin cfg.log = false ∧ cfg.log.all readsZero ∧
      ∃ r ∈ loginOf cfg 0, r.user.id = "u1" ∧ r.user.tenantId = "t1") (by decide +kernel)
  have hchecked := checkedOldHash_of_precedes hold
  obtain ⟨hdead, hrefused⟩ := reset_ends_old_logins h rfl (pool_of_isDone hdone)
    (fun login _ => inTime_of_order hstored hzero login 1) (pool_of_loginOf hres) hid htenant hchecked
  exact ⟨cfg, result, h, pool_of_loginOf hres, pool_of_isDone hdone, hchecked, hdead, hrefused⟩

/-- A login looks the account up; a reset writes the new hash, sweeps and bumps; and only then does the
login, whose password matched the old hash, read the epoch and store its session. -/
theorem reset_outlived : ∃ cfg result,
    (deployment [.login "a@example.com" "pw" "t1" "" "", .resetPassword "u1" "t1" "next"]).Reaches cfg ∧
    cfg.pool 0 = .ret (.ok (.login (.success result))) ∧ cfg.pool 1 = .ret (.ok .done) ∧
    CheckedOldHash cfg.log 0 1 ∧ result.user.id = "u1" ∧ result.user.tenantId = "t1" ∧
    Live cfg.st (env.redisHash result.refreshToken) ∧ ¬ env.Refuses cfg.st result.accessToken := by
  obtain ⟨cfg, h, hdone, hold, result, hres, hid, htenant, hlive, haccepts⟩ := reaches_of_run
    (deployment [.login "a@example.com" "pw" "t1" "" "", .resetPassword "u1" "t1" "next"])
    (acts 0 3 "" [] ++ acts 1 4 "" [] ++ acts 0 9 (token 'a') ["", "", "", "", "j0", "", "f0"])
    (fun cfg => isDone cfg 1 ∧ precedes (looksUp 0) (writesHash 1) cfg.log ∧
      ∃ r ∈ loginOf cfg 0, r.user.id = "u1" ∧ r.user.tenantId = "t1" ∧
        has cfg.st.keys.rt cfg.st.now (env.redisHash r.refreshToken) ∧
        env.accepts cfg.st r.accessToken) (by decide +kernel)
  exact ⟨cfg, result, h, pool_of_loginOf hres, pool_of_isDone hdone, checkedOldHash_of_precedes hold, hid,
    htenant, hlive, accepts_iff.mp haccepts⟩

end BymaxAuth
