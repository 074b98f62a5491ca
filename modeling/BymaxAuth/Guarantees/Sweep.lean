import BymaxAuth.Guarantees.Coverage

/-!
# What a sweep of an account leaves

`invalidate_user_sessions` deletes every live session of an account in one script, but a grace recovery is
spread over three: the rotation script answers with a grace, the family is asked for, and only then does
`recover_grace` write. A recovery that was answered before the sweep writes after it. What stops it is
that the account's session index is gone — and a new login of the account brings the index back, while the
sweep leaves the family's index where it was.

## The model

`NotOutlived` says that no session is live that comes from a login before a sweep of its account.
`NoStraddlingRecovery` is about the steps of a run: a recovery that was answered before a sweep of its
account, and writes after it, finds one of its two indexes gone.
-/

namespace BymaxAuth

open Redis Concurrency List

namespace Deployment

variable {D : Deployment} {cfg : Snapshot} {l₁ l₂ : List Event} {tid : ℕ} {pre : Store} {subject : String} {n : ℕ}
  {e : Event} {b : Birth}

namespace Reaches

variable (h : D.Reaches cfg)
include h

/-- A session stored before a sweep of its account is dead after it. -/
theorem dead_of_swept
    (hl : cfg.log = l₁ ++ ⟨tid, pre, .session (.invalidateUserSessions subject), n⟩ :: l₂) (he : e ∈ l₁)
    (hb : Bears e b) (hs : b.subject = subject) : ¬ Live cfg.st b.hash := by
  refine h.dead_of_exec hl (fun _ _ => nofun) he hb fun hmember => ?_
  rw [hs] at hmember
  exact rt_invalidateUserSessions hmember

/-- A session that descends from another belongs to the same account. -/
theorem descends_subject {e' : Event} {b' : Birth} (he : e ∈ cfg.log) (hb : Bears e b)
    (he' : e' ∈ cfg.log) (hb' : Bears e' b') (hd : Descends cfg.log b.hash b'.hash) : b'.subject = b.subject := by
  obtain ⟨r, hr⟩ := h.names he hb
  obtain ⟨r', hr'⟩ := h.names he' hb'
  obtain ⟨r'', hr'', hid⟩ := h.descends_identity ⟨e, he, b, hb, rfl, hr⟩ hd
  rw [h.stored_unique hr'' ⟨e', he', b', hb', rfl, hr'⟩] at hid
  have htenant : r'.tenantId = r.tenantId := congrArg Identity.tenantId hid
  have huser : r'.userId = r.userId := congrArg Identity.userId hid
  rw [hr'.subject, hr.subject, Env.ownerIndex, Env.ownerIndex, htenant, huser]

/-- A rotation after a sweep does not consume a session that was stored before it. -/
theorem not_rotated_after_sweep
    (hl : cfg.log = l₁ ++ ⟨tid, pre, .session (.invalidateUserSessions subject), n⟩ :: l₂) (he : e ∈ l₁)
    (hb : Bears e b) (hs : b.subject = subject) {tid' : ℕ} {pre' : Store} {a : Rotation} {old : Json}
    (hmem : ⟨tid', pre', .session (.refreshRotate a), .rotated old⟩ ∈ l₂) : a.oldHash ≠ b.hash := by
  intro heq
  obtain ⟨m₁, m₂, rfl⟩ := append_of_mem hmem
  rw [← cons_append, ← append_assoc] at hl
  obtain ⟨hlive, -⟩ := h.rotated_live hl
  obtain ⟨c, d, hc, hm, -⟩ := h.at_entry hl
  have hst : c.st = pre' := hm.st₁
  rw [heq, ← hst] at hlive
  exact hc.dead_of_swept hm.log₁ he hb hs hlive

/-- What descends from a session of the account that was stored before a sweep was stored before it too,
if no recovery of the lineage that was answered before the sweep wrote after it. -/
theorem stored_before_sweep
    (hl : cfg.log = l₁ ++ ⟨tid, pre, .session (.invalidateUserSessions subject), n⟩ :: l₂) (he : e ∈ l₁)
    (hb : Bears e b) (hs : b.subject = subject)
    (hno : ∀ tid' pre₁ a json pre₂ s, ⟨tid', pre₁, .session (.refreshRotate a), .grace json⟩ ∈ l₁ →
      ⟨tid', pre₂, .session (.recoverGrace s), true⟩ ∈ l₂ → ¬ Descends cfg.log b.hash a.oldHash) {hash : String}
    (hd : Descends cfg.log b.hash hash) : ∃ e' ∈ l₁, ∃ b', Bears e' b' ∧ b'.hash = hash ∧ b'.subject = subject := by
  have hin : ∀ {x : Event}, x ∈ l₁ → x ∈ cfg.log := fun hx => hl ▸ mem_append_left _ hx
  have hsplit : ∀ {x : Event}, x ∈ cfg.log → (∀ s, x.op ≠ .session (.invalidateUserSessions s)) → x ∈ l₁ ∨ x ∈ l₂ := by
    intro x hx hne
    rw [hl, mem_append, mem_cons] at hx
    rcases hx with hx | rfl | hx
    · exact .inl hx
    · exact absurd rfl (hne subject)
    · exact .inr hx
  induction hd with
  | refl => exact ⟨e, he, b, hb, rfl, hs⟩
  | @tail p x hp hpx ih =>
    obtain ⟨e', he', b', hb', hbh, hs'⟩ := ih
    -- A child stored before the sweep belongs to the account.
    have hchild : ∀ {x : String} {e'' : Event} {b'' : Birth}, Begets cfg.log p x → e'' ∈ l₁ →
        Bears e'' b'' → b''.hash = x → ∃ e' ∈ l₁, ∃ b', Bears e' b' ∧ b'.hash = x ∧ b'.subject = subject := by
      rintro x e'' b'' hpx he'' hb'' rfl
      exact ⟨e'', he'', b'', hb'', rfl,
        (h.descends_subject (hin he') hb' (hin he'') hb'' (hbh ▸ .single hpx)).trans hs'⟩
    -- The token itself is dead after the sweep, so it was rotated before it.
    have hrot : ∀ {tid' : ℕ} {pre' : Store} {a : Rotation} {old : Json}, a.oldHash = p →
        ⟨tid', pre', .session (.refreshRotate a), .rotated old⟩ ∈ cfg.log →
        ⟨tid', pre', .session (.refreshRotate a), .rotated old⟩ ∈ l₁ := by
      intro tid' pre' a old ha hmem
      rcases hsplit hmem nofun with hmem | hmem
      · exact hmem
      · exact absurd (ha.trans hbh.symm) (h.not_rotated_after_sweep hl he' hb' hs' hmem)
    cases hpx with
    | @rotated tid' pre' a old hmem =>
      exact hchild (.rotated hmem) (hrot rfl hmem) .rotated rfl
    | @recovered tid' pre₁ pre₂ a json s hg hmem =>
      rcases hsplit hmem nofun with hmem' | hmem'
      · exact hchild (.recovered hg hmem) hmem' .recovered rfl
      · rcases hsplit hg nofun with hg' | hg'
        · exact absurd hp (hno _ _ _ _ _ _ hg' hmem')
        · -- A grace after the sweep needs the successor alive, and it was stored before the sweep.
          obtain ⟨m₁, m₂, rfl⟩ := append_of_mem hg'
          have hl' := hl
          rw [← cons_append, ← append_assoc] at hl'
          obtain ⟨tid₃, pre₃, a', old, hrotated, hold, -, hlive⟩ := h.grace_after_rotated hl'
          have hmem₃ := hrot hold (hl' ▸ mem_append_left _ hrotated)
          obtain ⟨e₃, he₃, b₃, hb₃, hbh₃, hs₃⟩ := hchild (hold ▸ .rotated (hin hmem₃)) hmem₃
            .rotated rfl
          obtain ⟨c, d, hc, hm, -⟩ := h.at_entry hl'
          have hst : c.st = pre₁ := hm.st₁
          rw [← hst, ← show b₃.hash = a'.newHash from hbh₃] at hlive
          exact absurd hlive (hc.dead_of_swept hm.log₁ he₃ hb₃ hs₃)

theorem live_of_recovered {c d : Snapshot} {s : NewSession}
    (hm : Moment (machine D.env) l₁ ⟨tid, pre, .session (.recoverGrace s), true⟩ c d)
    (hd : Reach (machine D.env) d cfg) : Live d.st s.hash := by
  obtain ⟨l₂, hl⟩ := hd.log_prefix
  rw [hm.log₂, append_assoc] at hl
  obtain ⟨pre', a, json, -, hcont⟩ := h.recovered_continues hl.symm
  obtain ⟨hr, hst⟩ := moment_session hm
  obtain ⟨-, -, hkeys⟩ := SessionCmd.exec_recovered hr.symm
  rw [hkeys] at hst
  refine live_iff.mpr ⟨⟨s.record, some (pre.now + s.ttl)⟩, ?_, ?_⟩
  · rw [hst]
    simp [SessionKeys.createSession, setEx]
  · have hpos := D.env.config.refreshTtl_pos
    have httl : s.ttl = D.env.config.refreshTtl := hcont.ttl
    rw [hst, live_some]
    show pre.now < pre.now + s.ttl
    omega

end Reaches

end Deployment

/-- No session is live that comes, directly or by rotations and recoveries, from a login that was stored
before a sweep of its account. -/
def NotOutlived (cfg : Snapshot) : Prop :=
  ∀ l₁ tid pre subject n l₂, cfg.log = l₁ ++ ⟨tid, pre, .session (.invalidateUserSessions subject), n⟩ :: l₂ →
    ∀ tid' pre' s r, ⟨tid', pre', .session (.createSession s), r⟩ ∈ l₁ → s.subject = subject →
      ∀ hash, Descends cfg.log s.hash hash → ¬ Live cfg.st hash

/-- A recovery whose grace reply came before a sweep of its account, and whose script runs after it, finds
the account's session index gone, or its family's. -/
def NoStraddlingRecovery (log : List Event) : Prop :=
  ∀ l₁ tid pre subject n l₂, log = l₁ ++ ⟨tid, pre, .session (.invalidateUserSessions subject), n⟩ :: l₂ →
    ∀ tid' pre₁ a json pre₂ s r, ⟨tid', pre₁, .session (.refreshRotate a), .grace json⟩ ∈ l₁ →
      ⟨tid', pre₂, .session (.recoverGrace s), r⟩ ∈ l₂ → s.subject = subject →
      has pre₂.keys.sess pre₂.now s.subject = false ∨ (s.family ≠ "" ∧ has pre₂.keys.fam pre₂.now s.family = false)

theorem NoStraddlingRecovery.of_prefix {l l' : List Event} (h : NoStraddlingRecovery l') (hl : l <+: l') :
    NoStraddlingRecovery l := by
  obtain ⟨rest, rfl⟩ := hl
  intro l₁ tid pre subject n l₂ hsplit tid' pre₁ a json pre₂ s r hg hmem
  refine h l₁ tid pre subject n (l₂ ++ rest) (by rw [hsplit]; simp) tid' pre₁ a json pre₂ s r hg ?_
  exact mem_append_left _ hmem

namespace Deployment

variable {D : Deployment} {cfg : Snapshot} {l₁ l₂ : List Event} {tid : ℕ} {pre : Store}

namespace Reaches

variable (h : D.Reaches cfg)
include h

/-- Whether a recovery writes is what it finds of its two indexes. -/
theorem recovered_iff {s : NewSession} {r : Bool} (he : ⟨tid, pre, .session (.recoverGrace s), r⟩ ∈ cfg.log) :
    r = false ↔ has pre.keys.sess pre.now s.subject = false ∨
      (s.family ≠ "" ∧ has pre.keys.fam pre.now s.family = false) := by
  obtain ⟨c, d, -, hm, -⟩ := h.at_mem he
  have hr : r = (SessionCmd.exec pre.now pre.keys (.recoverGrace s)).1 := (moment_session hm).1
  rcases SessionCmd.recoverGrace_cases pre.now pre.keys s with ⟨h₁, h₂, hx⟩ | ⟨hgone, hx⟩
  · rw [hr, hx, h₁]
    rcases h₂ with h₂ | h₂ <;> simp [h₂]
  · rw [hr, hx]
    exact ⟨fun _ => hgone, fun _ => rfl⟩

/-- If no recovery straddles a sweep, what descends from a session that was stored before it is dead. -/
theorem dead_of_descends (hno : NoStraddlingRecovery cfg.log) {subject : String} {n : ℕ}
    (hl : cfg.log = l₁ ++ ⟨tid, pre, .session (.invalidateUserSessions subject), n⟩ :: l₂) {e : Event} {b : Birth}
    (he : e ∈ l₁) (hb : Bears e b) (hsub : b.subject = subject) {hash : String}
    (hd : Descends cfg.log b.hash hash) : ¬ Live cfg.st hash := by
  have hin : ∀ {x : Event}, x ∈ l₁ → x ∈ cfg.log := fun hx => hl ▸ mem_append_left _ hx
  have hstraddle : ∀ tid' pre₁ a json pre₂ s', ⟨tid', pre₁, .session (.refreshRotate a), .grace json⟩ ∈ l₁ →
      ⟨tid', pre₂, .session (.recoverGrace s'), true⟩ ∈ l₂ → ¬ Descends cfg.log b.hash a.oldHash := by
    intro tid₁ pre₁ a json pre₂ s' hg hmem hdesc
    have hmem' : ⟨tid₁, pre₂, .session (.recoverGrace s'), true⟩ ∈ cfg.log :=
      hl ▸ mem_append_right _ (mem_cons_of_mem _ hmem)
    have hsub' : s'.subject = b.subject :=
      h.descends_subject (hin he) hb hmem' .recovered (hdesc.tail (.recovered (hin hg) hmem'))
    have hgone := hno l₁ tid pre subject n l₂ hl tid₁ pre₁ a json pre₂ s' true hg hmem (hsub'.trans hsub)
    cases (h.recovered_iff hmem').mpr hgone
  obtain ⟨e', he', b', hb', rfl, hs'⟩ := h.stored_before_sweep hl he hb hsub hstraddle hd
  exact h.dead_of_swept hl he' hb' hs'

/-- If no recovery straddles a sweep, nothing outlives one. -/
theorem not_outlived (hno : NoStraddlingRecovery cfg.log) : NotOutlived cfg :=
  fun _ _ _ _ _ _ hl _ _ s _ hs hsub _ hd => h.dead_of_descends hno hl hs (b := s.birth) .created hsub hd

/-- A recovery that straddles a sweep, and finds its indexes, outlives it. -/
theorem outlived {subject : String} {n : ℕ}
    (hl : cfg.log = l₁ ++ ⟨tid, pre, .session (.invalidateUserSessions subject), n⟩ :: l₂) {tid' : ℕ}
    {pre₁ pre₂ : Store} {a : Rotation} {json : Json} {s : NewSession}
    (hg : ⟨tid', pre₁, .session (.refreshRotate a), .grace json⟩ ∈ l₁)
    (hmem : ⟨tid', pre₂, .session (.recoverGrace s), true⟩ ∈ l₂) (hsub : s.subject = subject) :
    ∃ c, D.Reaches c ∧ Reach (machine D.env) c cfg ∧ ¬ NotOutlived c := by
  -- The token that was graced was stored before the sweep, and so was the login it comes from.
  obtain ⟨c₀, d₀, hc₀, hm₀, -⟩ := h.at_entry hl
  have hlog₀ : c₀.log = l₁ := hm₀.log₁
  rw [← hlog₀] at hg
  obtain ⟨k₁, k₂, hk⟩ := append_of_mem hg
  obtain ⟨tid₃, pre₃, a', old, hrot, hold, -, -⟩ := hc₀.grace_after_rotated hk
  obtain ⟨r, -, ⟨e, he, b, hb, hbh, -⟩, -⟩ := hc₀.rotated_identity (hk ▸ mem_append_left _ hrot)
  obtain ⟨p, ⟨tid₄, pre₄, s₀, u, hlogin, rfl⟩, hdesc⟩ := hc₀.root he hb
  rw [hbh, hold] at hdesc
  -- Just after the recovery its session is live.
  obtain ⟨m₁, m₂, rfl⟩ := append_of_mem hmem
  rw [← cons_append, ← append_assoc] at hl
  obtain ⟨c, d, hc, hm, hd⟩ := h.at_entry hl
  have hd' := hc.next hm
  have hlog : d.log = l₁ ++ ⟨tid, pre, .session (.invalidateUserSessions subject), n⟩ ::
      (m₁ ++ [⟨tid', pre₂, .session (.recoverGrace s), true⟩]) := by
    rw [hm.log₂]
    simp
  have hin : ∀ x ∈ c₀.log, x ∈ d.log := fun x hx => hlog ▸ mem_append_left _ (hlog₀ ▸ hx)
  have hrec : ⟨tid', pre₂, .session (.recoverGrace s), true⟩ ∈ d.log := by
    rw [hm.log₂]
    exact mem_append_right _ (mem_singleton_self _)
  have hdesc' : Descends d.log s₀.hash s.hash := (hdesc.mono hin).tail (.recovered (hin _ hg) hrec)
  refine ⟨d, hd', hd, fun hnot => ?_⟩
  refine hnot _ _ _ _ _ _ hlog tid₄ pre₄ s₀ u (hlog₀ ▸ hlogin) ?_ s.hash hdesc' (h.live_of_recovered hm hd)
  rw [← hsub]
  exact (hd'.descends_subject (hin _ hlogin) .created hrec .recovered hdesc').symm

end Reaches

end Deployment

/-- A run is never outlived by a session from before a sweep exactly if every recovery that straddles a
sweep finds one of its indexes gone. -/
theorem sweep_not_outlived_iff {D : Deployment} {cfg : Snapshot} (h : D.Reaches cfg) :
    (∀ c, D.Reaches c → Reach (machine D.env) c cfg → NotOutlived c) ↔ NoStraddlingRecovery cfg.log := by
  constructor
  · intro hall l₁ tid pre subject n l₂ hl tid' pre₁ a json pre₂ s r hg hmem hsub
    have hmem' : ⟨tid', pre₂, .session (.recoverGrace s), r⟩ ∈ cfg.log :=
      hl ▸ mem_append_right _ (mem_cons_of_mem _ hmem)
    rw [← h.recovered_iff hmem', ← Bool.not_eq_true]
    rintro rfl
    obtain ⟨c, hc, hreach, hnot⟩ := h.outlived hl hg hmem hsub
    exact hnot (hall c hc hreach)
  · intro hno c hc hreach
    exact hc.not_outlived (hno.of_prefix hreach.log_prefix)

/-- The entry is a recovery that was answered so. -/
def recoversWith (answer : Bool) (e : Event) : Bool :=
  match e with
  | ⟨_, _, .session (.recoverGrace _), r⟩ => r = answer
  | _ => false

/-- Where no recovery stores a session, every one has found an index gone. -/
theorem noStraddling_of_refused {D : Deployment} {cfg : Snapshot} (h : D.Reaches cfg)
    (hno : (cfg.log.any (recoversWith true)) = false) : NoStraddlingRecovery cfg.log := by
  intro l₁ tid pre subject n l₂ hl tid' pre₁ a json pre₂ s r _ hmem _
  have hmem' : ⟨tid', pre₂, .session (.recoverGrace s), r⟩ ∈ cfg.log :=
    hl ▸ mem_append_right _ (mem_cons_of_mem _ hmem)
  refine (h.recovered_iff hmem').mp ?_
  simpa [recoversWith] using any_eq_false.mp hno _ hmem'

open Demo

/-- The entry is a sweep of this account. -/
def sweeps (subject : String) (e : Event) : Bool :=
  match e with
  | ⟨_, _, .session (.invalidateUserSessions s), _⟩ => s = subject
  | _ => false

theorem sweeps_iff {subject : String} {e : Event} : sweeps subject e = true ↔
      ∃ tid pre n, e = ⟨tid, pre, .session (.invalidateUserSessions subject), n⟩ := by
  constructor
  · intro h
    unfold sweeps at h
    split at h
    · obtain rfl := of_decide_eq_true h
      exact ⟨_, _, _, rfl⟩
    · cases h
  · rintro ⟨tid, pre, n, rfl⟩
    exact decide_eq_true rfl

/-- The entry is a login of this account, stored under this hash. -/
def opensFor (subject hash : String) (e : Event) : Bool :=
  match e with
  | ⟨_, _, .session (.createSession s), _⟩ => s.hash = hash && s.subject = subject
  | _ => false

theorem bears_of_opensFor {subject hash : String} {e : Event} (h : opensFor subject hash e = true) :
    ∃ b, Bears e b ∧ b.hash = hash ∧ b.subject = subject := by
  unfold opensFor at h
  split at h
  · simp only [Bool.and_eq_true, decide_eq_true_eq] at h
    exact ⟨_, .created, h.1, h.2⟩
  · cases h

/-- Between the grace reply and the recovery the account is swept; the recovery finds its index gone, and then the
owner logs in anew. The new session is live, and nothing outlives the sweep. -/
theorem sweep_not_outlived_relogin : ∃ cfg, (deployment [.issue alice "" "" false, .refresh (token 'a') "" "",
      .refresh (token 'a') "" "", .revokeAll (some "t1") "u1",
      .issue alice "" "" false]).Reaches cfg ∧
    precedes (graces (token 'a')) (sweeps subject) cfg.log = true ∧
    precedes (sweeps subject) (recoversWith false) cfg.log = true ∧
    Live cfg.st (token 'e') ∧ NoStraddlingRecovery cfg.log ∧ NotOutlived cfg := by
  refine exists_reaches (firstIssue ++ acts 1 5 (token 'b') [] ++ acts 2 7 (token 'c') [] ++ acts 3 2 "" [] ++
      acts 2 3 (token 'd') [] ++ acts 4 8 (token 'e') ["", "", "", "j1", "", "f1"])
    (fun cfg => precedes (graces (token 'a')) (sweeps subject) cfg.log ∧
      precedes (sweeps subject) (recoversWith false) cfg.log ∧ has cfg.st.keys.rt cfg.st.now (token 'e') ∧
      (cfg.log.any (recoversWith true)) = false)
    (by decide +kernel) fun cfg h ⟨hgrace, hlate, hlive, hrefused⟩ => ?_
  have hno := noStraddling_of_refused h hrefused
  exact ⟨hgrace, hlate, hlive, hno, (sweep_not_outlived_iff h).mpr hno cfg h .refl⟩

/-- A token is rotated, and presented again inside its grace window. Between the grace reply and the
recovery, the account is swept and its owner logs in anew; the recovery finds the new session index, and
the family's, and stores a session that descends from the login before the sweep. -/
theorem sweep_outlived : ∃ cfg, (deployment [.issue alice "" "" false, .refresh (token 'a') "" "",
      .refresh (token 'a') "" "", .revokeAll (some "t1") "u1",
      .issue alice "" "" false]).Reaches cfg ∧ ¬ NotOutlived cfg := by
  refine exists_reaches (firstIssue ++ acts 1 5 (token 'b') [] ++ acts 2 7 (token 'c') [] ++ acts 3 2 "" [] ++
      acts 4 8 (token 'e') ["", "", "", "j1", "", "f1"] ++ acts 2 3 (token 'd') [])
    (fun cfg => precedes (opensFor subject (token 'a')) (sweeps subject) cfg.log ∧
      Begets cfg.log (token 'a') (token 'd') ∧ has cfg.st.keys.rt cfg.st.now (token 'd'))
    (by decide +kernel) fun cfg h ⟨horder, hbegets, hlive⟩ hnot => ?_
  obtain ⟨l₁, e', l₂, hl, hsweep, e, he, hopen⟩ := precedes_iff.mp horder
  obtain ⟨tid, pre, n, rfl⟩ := sweeps_iff.mp hsweep
  unfold opensFor at hopen
  split at hopen
  · simp only [Bool.and_eq_true, decide_eq_true_eq] at hopen
    refine hnot _ _ _ _ _ _ hl _ _ _ _ he hopen.2 (token 'd') ?_ hlive
    rw [hopen.1]
    exact .single hbegets
  · cases hopen

end BymaxAuth
