import BymaxAuth.History.Run

/-!
# What a bump of the epoch revokes

A token carries the epoch of its account that was read when it was signed, and is refused when the stored
epoch is larger. The stored one is a counter with a TTL: a bump increments it and arms it for thirty days,
and a counter that is gone reads as zero and is bumped to one.

## The model

`Env.Refuses` is the verdict of `verify_access` at one moment, `Env.RefusesMfa` that of
`verify_mfa_temp_token`. `Lapsed st subject` says that the account's counter was there and is gone. What a
lapse does depends on what comes next: a counter that lapses between the read that stamped a token and a
bump restarts below the token.
-/

namespace BymaxAuth

open Redis Concurrency List

/-! ### Verdicts -/

/-- `verify_access` refuses the token at this moment. -/
def Env.Refuses (env : Env) (st : Store) (token : AccessClaims) : Prop :=
  ∀ i, ∃ error, (evalAt (machine env) i st (verifyAccess env token).run).1 = .error error

/-- `verify_mfa_temp_token` refuses the token at this moment. -/
def Env.RefusesMfa (env : Env) (st : Store) (token : MfaTempClaims) : Prop :=
  ∀ i, ∃ error, (evalAt (machine env) i st (verifyMfaTempToken env token).run).1 = .error error

/-- The account's epoch, as `current_epoch` reads it. -/
def epochAt (st : Store) (subject : String) : ℕ := (get st.ep st.now subject).getD 0

/-- Whether a token is refused for its own times, or because it was blacklisted. -/
def SpentAt (st : Store) (token : AccessClaims) : Prop :=
  token.exp ≤ st.now ∨ st.now < token.iat ∨ has st.rv st.now token.jti = true

section Verdicts

variable {env : Env} {st : Store}

/-- The verdict of `verify_access` when nothing happens while it runs. -/
theorem evalAt_verifyAccess (token : AccessClaims) (i : Input) :
    (evalAt (machine env) i st (verifyAccess env token).run).1 =
      if token.exp ≤ st.now then .error .tokenExpired
      else if st.now < token.iat then .error .tokenInvalid
      else if has st.rv st.now token.jti then .error .tokenRevoked
      else if token.epoch < epochAt st (env.subjectHash token.tenantId token.sub) then .error .tokenRevoked
      else .ok token := by
  show (evalAt (machine env) i st ((match validateTemporal st.now token.iat token.exp with
    | .error e => throw (mapJwtError e)
    | .ok _ => _ : Act AccessClaims)).run).1 = _
  unfold validateTemporal
  split_ifs with h₁ h₂ h₃ h₄
  · rfl
  · rfl
  · show (evalAt (machine env) i st (ExceptT.run (if has st.rv st.now token.jti = true then _ else _))).1 = _
    rw [if_pos h₃]
    rfl
  all_goals
    show (evalAt (machine env) i st (ExceptT.run (if has st.rv st.now token.jti = true then _ else _))).1 = _
    rw [if_neg h₃]
    show (evalAt (machine env) i st (ExceptT.run (if token.epoch < epochAt st _ then _ else _))).1 = _
  · rw [if_pos h₄]
    rfl
  · rw [if_neg h₄]
    rfl

/-- What an access token is refused for. -/
theorem refuses_iff {token : AccessClaims} : env.Refuses st token ↔
    SpentAt st token ∨ token.epoch < epochAt st (env.subjectHash token.tenantId token.sub) := by
  unfold Env.Refuses SpentAt
  simp only [evalAt_verifyAccess]
  constructor
  · intro h
    obtain ⟨error, he⟩ := h ⟨"", "", "", true, 0, 0, [], "", []⟩
    split_ifs at he with h₁ h₂ h₃ h₄
    · exact .inl (.inl h₁)
    · exact .inl (.inr (.inl h₂))
    · exact .inl (.inr (.inr h₃))
    · exact .inr h₄
  · intro h i
    split_ifs with h₁ h₂ h₃ h₄
    · exact ⟨_, rfl⟩
    · exact ⟨_, rfl⟩
    · exact ⟨_, rfl⟩
    · exact ⟨_, rfl⟩
    · rcases h with (h | h | h) | h <;> contradiction

/-- Whether an access token is accepted. -/
def Env.accepts (env : Env) (st : Store) (token : AccessClaims) : Bool :=
  decide (st.now < token.exp) && decide (token.iat ≤ st.now) && !has st.rv st.now token.jti &&
    decide (epochAt st (env.subjectHash token.tenantId token.sub) ≤ token.epoch)

theorem accepts_iff {token : AccessClaims} : env.accepts st token = true ↔ ¬ env.Refuses st token := by
  rw [refuses_iff, SpentAt, Env.accepts]
  simp only [Bool.and_eq_true, decide_eq_true_eq, Bool.not_eq_true', not_or, Bool.not_eq_true]
  constructor
  · rintro ⟨⟨⟨hexp, hiat⟩, hrv⟩, hepoch⟩
    exact ⟨⟨Nat.not_le_of_lt hexp, Nat.not_lt_of_le hiat, hrv⟩, Nat.not_lt_of_le hepoch⟩
  · rintro ⟨⟨hexp, hiat, hrv⟩, hepoch⟩
    exact ⟨⟨⟨Nat.lt_of_not_le hexp, Nat.le_of_not_lt hiat⟩, hrv⟩, Nat.le_of_not_lt hepoch⟩

/-- An MFA challenge token is refused, too, when the stored epoch is larger than its own. -/
theorem refusesMfa_of_epoch_lt {token : MfaTempClaims}
    (h : token.epoch < epochAt st (env.subjectHash token.tenantId token.sub)) : env.RefusesMfa st token := by
  intro i
  refine ⟨.mfaTempTokenInvalid, ?_⟩
  show (evalAt (machine env) i st ((match validateTemporal st.now token.iat token.exp with
    | .error e => throw .mfaTempTokenInvalid
    | .ok _ => _ : Act MfaTempClaims)).run).1 = _
  split
  · rfl
  · have hread : ∀ f : Option String → Act MfaTempClaims,
        evalAt (machine env) i st (Act.account (.getTemp (env.jtiHash token.jti)) >>= f).run =
          evalAt (machine env) i st (f (get st.mfa st.now (env.jtiHash token.jti))).run := fun _ => rfl
    rw [hread]
    split
    · rfl
    · next storedUser _ =>
      by_cases hu : storedUser = token.sub
      · rw [if_neg (not_not_intro hu)]
        show (evalAt (machine env) i st (ExceptT.run (if token.epoch < epochAt st _ then _ else _))).1 = _
        rw [if_pos h]
        rfl
      · rw [if_pos hu]
        rfl

theorem refusesMfa_of_expired {token : MfaTempClaims} (h : token.exp ≤ st.now) : env.RefusesMfa st token := by
  intro i
  refine ⟨.mfaTempTokenInvalid, ?_⟩
  show (evalAt (machine env) i st ((match validateTemporal st.now token.iat token.exp with
    | .error e => throw .mfaTempTokenInvalid
    | .ok _ => _ : Act MfaTempClaims)).run).1 = _
  rw [validateTemporal, if_pos h]
  rfl

end Verdicts

/-! ### The counter -/

/-- The account's counter was there, and is gone. -/
def Lapsed (st : Store) (subject : String) : Prop :=
  ∃ cell, st.ep subject = some cell ∧ cell.live st.now = false

variable {subject : String} {e : Event} {tid : ℕ}

theorem epochAt_of_not_lapsed {st : Store} (h : ¬ Lapsed st subject) {cell : Cell ℕ}
    (hk : st.ep subject = some cell) : epochAt st subject = cell.val := by
  have hlive : cell.live st.now = true := by
    rw [← Bool.not_eq_false]
    exact fun hdead => h ⟨cell, hk, hdead⟩
  have hget : get st.ep st.now subject = some cell.val := get_eq_some.mpr ⟨cell, hk, hlive, rfl⟩
  rw [epochAt, hget]
  rfl

/-- A step bumps the account's counter, or leaves it. -/
theorem ep_of_moment {env : Env} {l : List Event} {c d : Snapshot} (hm : Moment (machine env) l e c d)
    (subject : String) :
    (e.op = .account (.bumpEp subject) ∧ d.st.ep subject =
      some ⟨epochAt c.st subject + 1, some (c.st.now + tokenEpochRetentionSecs)⟩) ∨
    (e.op ≠ .account (.bumpEp subject) ∧ d.st.ep subject = c.st.ep subject) := by
  rw [hm.st₁]
  obtain ⟨tid, pre, op, r⟩ := e
  cases op with
  | session cmd => exact .inr ⟨nofun, by rw [(moment_session hm).2]⟩
  | host cmd =>
    obtain ⟨i, h⟩ := moment_host hm
    refine .inr ⟨nofun, ?_⟩
    cases cmd <;> exact (congrArg (fun p => p.2.ep subject) h).symm
  | mfa cmd =>
    have h := moment_mfa hm
    refine .inr ⟨nofun, ?_⟩
    cases cmd <;> exact (congrArg (fun p => p.2.ep subject) h).symm
  | account cmd =>
    have h := moment_account hm
    cases cmd with
    | bumpEp s =>
      have hep : expire (incr pre.ep pre.now s).2 pre.now s tokenEpochRetentionSecs = d.st.ep :=
        congrArg (fun p => p.2.ep) h
      rw [← hep]
      by_cases hs : s = subject
      · subst hs
        exact .inl ⟨rfl, expire_incr _ _ _ _⟩
      · refine .inr ⟨fun heq => hs ?_, ?_⟩
        · cases heq
          rfl
        · rw [expire_of_ne _ _ _ (Ne.symm hs), incr_of_ne _ _ (Ne.symm hs)]
    | _ => exact .inr ⟨nofun, (congrArg (fun p => p.2.ep subject) h).symm⟩

/-- No bump among these entries finds the account's counter lapsed. An epoch of zero is below any counter,
restarted or not. -/
def EpochKept (subject : String) (epoch : ℕ) (l : List Event) : Prop :=
  epoch ≠ 0 → ∀ e ∈ l, e.op = .account (.bumpEp subject) → ¬ Lapsed e.pre subject

namespace Deployment

variable {D : Deployment} {cfg : Snapshot} {l₁ l₂ : List Event} {pre : Store} {v : Option ℕ}

namespace Reaches

variable (h : D.Reaches cfg)
include h

section

variable (hl : cfg.log = l₁ ++ ⟨tid, pre, .account (.getEp subject), v⟩ :: l₂)
include hl

/-- What the counter is at least since it was read, and since it was bumped after that. -/
theorem counter_since_read (hkept : EpochKept subject (v.getD 0) l₂) :
    (v.getD 0 ≠ 0 → ∃ cell, cfg.st.ep subject = some cell ∧ v.getD 0 ≤ cell.val) ∧
    ((∃ e ∈ l₂, e.op = .account (.bumpEp subject)) → ∃ cell, cfg.st.ep subject = some cell ∧ v.getD 0 < cell.val) := by
  refine Reaches.since (fun st l => EpochKept subject (v.getD 0) l →
    (v.getD 0 ≠ 0 → ∃ cell, st.ep subject = some cell ∧ v.getD 0 ≤ cell.val) ∧
    ((∃ e ∈ l, e.op = .account (.bumpEp subject)) →
      ∃ cell, st.ep subject = some cell ∧ v.getD 0 < cell.val)) h hl ?_ ?_ ?_ hkept
  · -- Just after the read the counter is what was read.
    intro c d _ hm _
    refine ⟨fun hne => ?_, by simp⟩
    have hread := moment_account hm
    simp only [AccountCmd.exec, Prod.mk.injEq] at hread
    cases hv : v with
    | none => simp [hv] at hne
    | some n =>
      rw [hv] at hread
      obtain ⟨cell, hk, -, rfl⟩ := get_eq_some.mp hread.1
      exact ⟨cell, hread.2 ▸ hk, Nat.le_refl _⟩
  · intro c d e l _ _ ih hm hkept
    obtain ⟨hle, hlt⟩ := ih fun hne x hx => hkept hne x (mem_append_left _ hx)
    rcases ep_of_moment hm subject with ⟨hbump, hep⟩ | ⟨hno, hep⟩
    · -- The bump adds one to a counter that has not lapsed.
      have hcur : v.getD 0 ≤ epochAt c.st subject := by
        by_cases hz : v.getD 0 = 0
        · omega
        · obtain ⟨cell, hk, hcell⟩ := hle hz
          have hlive : ¬ Lapsed c.st subject := by
            rw [hm.st₁]
            exact hkept hz e (mem_append_right _ (mem_singleton_self _)) hbump
          rw [epochAt_of_not_lapsed hlive hk]
          exact hcell
      rw [hep]
      exact ⟨fun _ => ⟨_, rfl, Nat.le_succ_of_le hcur⟩, fun _ => ⟨_, rfl, Nat.lt_succ_of_le hcur⟩⟩
    · rw [hep]
      refine ⟨hle, ?_⟩
      rintro ⟨x, hx, hbump⟩
      rcases mem_append.mp hx with hx | hx
      · exact hlt ⟨x, hx, hbump⟩
      · rw [mem_singleton] at hx
        exact absurd (hx ▸ hbump) hno
  · exact fun _ _ _ ih => ih

/-- An epoch that was read before a bump is smaller than the stored one, as long as no bump since the read
has found the counter lapsed, and it is not lapsed now. -/
theorem epoch_lt (hkept : EpochKept subject (v.getD 0) l₂) (hbump : ∃ e ∈ l₂, e.op = .account (.bumpEp subject))
    (hnow : ¬ Lapsed cfg.st subject) : v.getD 0 < epochAt cfg.st subject := by
  obtain ⟨cell, hk, hlt⟩ := (h.counter_since_read hl hkept).2 hbump
  rw [epochAt_of_not_lapsed hnow hk]
  exact hlt

/-- An epoch that was read is the stored one, or that one has lapsed, as long as nobody bumps it. -/
theorem epoch_le (hno : ∀ e ∈ l₂, e.op ≠ .account (.bumpEp subject)) : epochAt cfg.st subject ≤ v.getD 0 := by
  obtain ⟨c, d, -, hm, -⟩ := h.at_entry hl
  have hread := moment_account hm
  simp only [AccountCmd.exec, Prod.mk.injEq] at hread
  have hep : cfg.st.ep subject = pre.ep subject := by
    refine Reaches.since (fun st l => (∀ e ∈ l, e.op ≠ .account (.bumpEp subject)) →
      st.ep subject = pre.ep subject) h hl ?_ ?_ ?_ hno
    · intro c' d' _ hm' _
      have hread' := moment_account hm'
      simp only [AccountCmd.exec, Prod.mk.injEq] at hread'
      rw [← hread'.2]
    · intro c' d' e l _ _ ih hm' hno
      rcases ep_of_moment hm' subject with ⟨hbump, -⟩ | ⟨-, hep⟩
      · exact absurd hbump (hno e (mem_append_right _ (mem_singleton_self _)))
      · rw [hep]
        exact ih fun x hx => hno x (mem_append_left _ hx)
    · exact fun _ _ _ ih => ih
  have hle : pre.now ≤ cfg.st.now := h.pre_now_le (hl ▸ mem_append_right _ mem_cons_self)
  unfold epochAt
  cases hget : get cfg.st.ep cfg.st.now subject with
  | none => exact Nat.zero_le _
  | some n =>
    obtain ⟨cell, hk, hlive, hn⟩ := get_eq_some.mp hget
    have hv : get pre.ep pre.now subject = some n :=
      get_eq_some.mpr ⟨cell, hep ▸ hk, Cell.live_of_le hlive hle, hn⟩
    rw [← hread.1, hv]

end

/-- A bump keeps the counter for thirty days. -/
theorem armed {n : ℕ} (hl : cfg.log = l₁ ++ ⟨tid, pre, .account (.bumpEp subject), n⟩ :: l₂)
    (hnow : cfg.st.now < pre.now + tokenEpochRetentionSecs) : ¬ Lapsed cfg.st subject := by
  have harmed : pre.now ≤ cfg.st.now ∧ ∃ cell t, cfg.st.ep subject = some cell ∧
      cell.expireAt = some t ∧ pre.now + tokenEpochRetentionSecs ≤ t := by
    refine Reaches.since (fun st _ => pre.now ≤ st.now ∧ ∃ cell t, st.ep subject = some cell ∧
      cell.expireAt = some t ∧ pre.now + tokenEpochRetentionSecs ≤ t) h hl ?_ ?_ ?_
    · intro c d _ hm
      have hst : c.st = pre := hm.st₁
      rcases ep_of_moment hm subject with ⟨-, hep⟩ | ⟨hno, -⟩
      · rw [hst] at hep
        rw [moment_now hm, hst]
        exact ⟨Nat.le_refl _, _, _, hep, rfl, Nat.le_refl _⟩
      · exact absurd rfl hno
    · rintro c d e l - - ⟨hle, cell, t, hk, ht, hret⟩ hm
      rw [moment_now hm]
      rcases ep_of_moment hm subject with ⟨-, hep⟩ | ⟨-, hep⟩
      · exact ⟨hle, _, _, hep, rfl, by omega⟩
      · exact ⟨hle, cell, t, hep.trans hk, ht, hret⟩
    · rintro st l i ⟨hle, hrest⟩
      exact ⟨Nat.le_trans hle (Nat.le_add_right _ _), hrest⟩
  obtain ⟨-, cell, t, hk, ht, hret⟩ := harmed
  rintro ⟨cell', hk', hdead⟩
  rw [hk, Option.some.injEq] at hk'
  subst hk'
  simp only [Cell.live, ht, decide_eq_false_iff_not] at hdead
  omega

/-- An epoch that was read before a bump is smaller than the stored one for thirty days after the bump, if
no bump from the read up to that one has found the counter lapsed. -/
theorem epoch_lt_after_bump {l₃ : List Event} {tid' n : ℕ} {pre' : Store}
    (hl : cfg.log = l₁ ++ ⟨tid, pre, .account (.getEp subject), v⟩ ::
      (l₂ ++ ⟨tid', pre', .account (.bumpEp subject), n⟩ :: l₃))
    (hkept : EpochKept subject (v.getD 0) (l₂ ++ [⟨tid', pre', .account (.bumpEp subject), n⟩]))
    (hnow : cfg.st.now < pre'.now + tokenEpochRetentionSecs) : v.getD 0 < epochAt cfg.st subject := by
  have hl' := hl
  rw [← cons_append, ← append_assoc] at hl'
  refine h.epoch_lt hl ?_ ⟨_, mem_append_right _ mem_cons_self, rfl⟩ (h.armed hl' hnow)
  intro hne e he hbump
  rw [append_cons, mem_append] at he
  rcases he with he | he
  · exact hkept hne e he hbump
  · -- A later bump finds the counter armed.
    obtain ⟨m₁, m₂, rfl⟩ := append_of_mem he
    have hle := h.pre_now_le (e := e) (by rw [hl']; simp)
    rw [← cons_append, ← append_assoc] at hl'
    obtain ⟨c, d, hc, hm, -⟩ := h.at_entry hl'
    have hst : c.st = e.pre := hm.st₁
    rw [← hst] at hle ⊢
    exact hc.armed hm.log₁ (Nat.lt_of_le_of_lt hle hnow)

end Reaches

end Deployment

/-- A bump revokes every token whose epoch was read before it, at every moment until the token expires: if
no bump from the read up to that one has found the counter lapsed, and the token does not outlast the thirty
days of the counter. -/
theorem bump_revokes {D : Deployment} {cfg : Snapshot} (h : D.Reaches cfg) {l₁ l₂ l₃ : List Event}
    {tid tid' n : ℕ} {pre pre' : Store} {subject : String} {v : Option ℕ}
    (hl : cfg.log = l₁ ++ ⟨tid, pre, .account (.getEp subject), v⟩ ::
      (l₂ ++ ⟨tid', pre', .account (.bumpEp subject), n⟩ :: l₃))
    (hkept : EpochKept subject (v.getD 0) (l₂ ++ [⟨tid', pre', .account (.bumpEp subject), n⟩])) :
    (∀ token : AccessClaims, D.env.subjectHash token.tenantId token.sub = subject →
      token.epoch = v.getD 0 → token.exp ≤ pre'.now + tokenEpochRetentionSecs →
      D.env.Refuses cfg.st token) ∧
    (∀ token : MfaTempClaims, D.env.subjectHash token.tenantId token.sub = subject →
      token.epoch = v.getD 0 → token.exp ≤ pre'.now + tokenEpochRetentionSecs →
      D.env.RefusesMfa cfg.st token) := by
  have hlt : ∀ exp, exp ≤ pre'.now + tokenEpochRetentionSecs → cfg.st.now < exp → v.getD 0 < epochAt cfg.st subject :=
    fun exp hexp hnow => h.epoch_lt_after_bump hl hkept (Nat.lt_of_lt_of_le hnow hexp)
  constructor
  · rintro token rfl hepoch hexp
    rw [refuses_iff, hepoch]
    by_cases hnow : token.exp ≤ cfg.st.now
    · exact .inl (.inl hnow)
    · exact .inr (hlt _ hexp (Nat.lt_of_not_le hnow))
  · rintro token rfl hepoch hexp
    by_cases hnow : token.exp ≤ cfg.st.now
    · exact refusesMfa_of_expired hnow
    · refine refusesMfa_of_epoch_lt ?_
      rw [hepoch]
      exact hlt _ hexp (Nat.lt_of_not_le hnow)

/-- The entry is a bump of this account's epoch. -/
def bumps (subject : String) (e : Event) : Bool :=
  match e with
  | ⟨_, _, .account (.bumpEp s), _⟩ => s = subject
  | _ => false

theorem bumps_iff : bumps subject e = true ↔ e.op = .account (.bumpEp subject) := by
  unfold bumps
  split
  · simp
  · next hne =>
    refine ⟨nofun, fun h => ?_⟩
    obtain ⟨tid, pre, op, r⟩ := e
    cases h
    exact absurd rfl (hne tid pre subject r)

/-- Whether handler `tid` read this epoch of the account at this entry. -/
def reads (tid : ℕ) (subject : String) (epoch : ℕ) (e : Event) : Bool :=
  match e with
  | ⟨t, _, .account (.getEp s), v⟩ => t = tid && s = subject && v.getD 0 = epoch
  | _ => false

theorem reads_iff {epoch : ℕ} : reads tid subject epoch e = true ↔
      ∃ pre v, e = ⟨tid, pre, .account (.getEp subject), v⟩ ∧ v.getD 0 = epoch := by
  constructor
  · intro h
    unfold reads at h
    split at h
    · simp only [Bool.and_eq_true, decide_eq_true_eq] at h
      obtain ⟨⟨rfl, rfl⟩, hv⟩ := h
      exact ⟨_, _, rfl, hv⟩
    · cases h
  · rintro ⟨pre, v, rfl, hv⟩
    simpa [reads] using hv

/-- A read of an epoch and a bump after it, in the history. -/
theorem split_of_precedes {epoch : ℕ} {log : List Event}
    (h : precedes (reads tid subject epoch) (bumps subject) log = true) :
    ∃ l₁ pre v l₂ tid' pre' n l₃, v.getD 0 = epoch ∧ log = l₁ ++ ⟨tid, pre, .account (.getEp subject), v⟩ ::
        (l₂ ++ ⟨tid', pre', .account (.bumpEp subject), n⟩ :: l₃) := by
  obtain ⟨l, ⟨tid', pre', op, n⟩, l₃, rfl, hbump, x, hx, hread⟩ := precedes_iff.mp h
  cases bumps_iff.mp hbump
  obtain ⟨pre, v, rfl, hv⟩ := reads_iff.mp hread
  obtain ⟨l₁, l₂, rfl⟩ := append_of_mem hx
  exact ⟨l₁, pre, v, l₂, tid', pre', n, l₃, hv, by simp⟩

/-- The session a handler was answered with. -/
def sessionOf (cfg : Snapshot) (tid : ℕ) : Option AuthResult :=
  match cfg.pool tid with
  | .ret (.ok (.session result)) => some result
  | _ => none

theorem pool_of_sessionOf {cfg : Snapshot} {result : AuthResult} (h : sessionOf cfg tid = some result) :
    cfg.pool tid = .ret (.ok (.session result)) := by
  unfold sessionOf at h
  split at h
  · next heq =>
    cases h
    exact heq
  · cases h

open Demo

/-- A login, and then a bump: the login's token is refused. -/
theorem bump_revokes_login : ∃ cfg result,
    (deployment [.issue alice "" "" false, .revokeAll (some "t1") "u1"]).Reaches cfg ∧
    cfg.pool 0 = .ret (.ok (.session result)) ∧ cfg.st.now < result.accessToken.exp ∧
    env.Refuses cfg.st result.accessToken := by
  obtain ⟨cfg, h, hread, result, hres, hsub, hepoch, hexp, hnow⟩ := reaches_of_run
    (deployment [.issue alice "" "" false, .revokeAll (some "t1") "u1"])
    (firstIssue ++ acts 1 2 "" [])
    (fun cfg => precedes (reads 0 subject 0) (bumps subject) cfg.log ∧ ∃ r ∈ sessionOf cfg 0,
      env.subjectHash r.accessToken.tenantId r.accessToken.sub = subject ∧ r.accessToken.epoch = 0 ∧
      r.accessToken.exp ≤ tokenEpochRetentionSecs ∧ cfg.st.now < r.accessToken.exp) (by decide +kernel)
  obtain ⟨l₁, pre, v, l₂, tid', pre', n, l₃, hv, hl⟩ := split_of_precedes hread
  have hkept : EpochKept subject (v.getD 0) (l₂ ++ [⟨tid', pre', .account (.bumpEp subject), n⟩]) :=
    fun hne => absurd hv hne
  exact ⟨cfg, result, h, pool_of_sessionOf hres, hnow, (bump_revokes h hl hkept).1 _ hsub (hepoch.trans hv.symm)
    (Nat.le_trans hexp (Nat.le_add_left _ _))⟩

/-- A first bump; a login near the end of the counter's thirty days, stamped with that epoch; the counter
lapses; a second bump restarts it at the epoch the token has, and the token is accepted. -/
theorem bump_after_lapse : ∃ cfg result l₁ pre v l₂ tid' pre' n l₃,
    (deployment [.revokeAll (some "t1") "u1", .issue alice "" "" false, .revokeAll (some "t1") "u1"]).Reaches cfg ∧
    cfg.pool 1 = .ret (.ok (.session result)) ∧ v.getD 0 = result.accessToken.epoch ∧
    cfg.log = l₁ ++ ⟨1, pre, .account (.getEp (env.subjectHash result.accessToken.tenantId
      result.accessToken.sub)), v⟩ :: (l₂ ++ ⟨tid', pre', .account (.bumpEp (env.subjectHash
        result.accessToken.tenantId result.accessToken.sub)), n⟩ :: l₃) ∧
    ¬ env.Refuses cfg.st result.accessToken := by
  obtain ⟨cfg, h, result, hres, hread, haccepts⟩ := reaches_of_run
    (deployment [.revokeAll (some "t1") "u1", .issue alice "" "" false, .revokeAll (some "t1") "u1"])
    (waits 10 ++ acts 0 2 "" [] ++ waits 2591990 ++
      acts 1 8 (token 'a') ["", "", "", "j0", "", "f0"] ++ waits 10 ++ acts 2 2 "" [])
    (fun cfg => ∃ r ∈ sessionOf cfg 1,
      precedes (reads 1 (env.subjectHash r.accessToken.tenantId r.accessToken.sub) r.accessToken.epoch)
        (bumps (env.subjectHash r.accessToken.tenantId r.accessToken.sub)) cfg.log ∧
      env.accepts cfg.st r.accessToken) (by decide +kernel)
  obtain ⟨l₁, pre, v, l₂, tid', pre', n, l₃, hv, hl⟩ := split_of_precedes hread
  exact ⟨cfg, result, l₁, pre, v, l₂, tid', pre', n, l₃, h, pool_of_sessionOf hres, hv, hl, accepts_iff.mp haccepts⟩

end BymaxAuth
