import BymaxAuth.History.Births

/-!
# The indexes cover every live session

The sweep of an account reads its session index, and the revocation of a family reads the family's. Both
find what they should only if every live session is in them, and if neither index lapses before the
session does: five key families with TTLs of their own, written in several atomic units.
-/

namespace BymaxAuth

open Redis Concurrency SessionCmd SessionRecord

/-- The session `hash`, which lapses at `d`, is in the indexes it was stored in, and they last as long. -/
def Indexed (k : SessionKeys) (b : Birth) (d : ℕ) : Prop :=
  Holds k.sess b.subject (.live b.hash) d ∧ (b.family ≠ "" → Holds k.fam b.family b.hash d)

namespace Deployment

variable {D : Deployment} {cfg : Snapshot}

/-- Every command that re-arms an index re-arms it with the refresh TTL. -/
theorem Reaches.ttl_of_obeys {env : Env} {tr : Trace} {c : SessionCmd} (h : Obeys env tr (.session c))
    {t : ℕ} (ht : c.ttl = some t) : t = env.config.refreshTtl := by
  cases c with
  | createSession s =>
    cases ht
    exact h.ttl
  | refreshRotate a =>
    cases ht
    exact h.ttl
  | recoverGrace s =>
    cases ht
    exact h.ttl
  | _ => cases ht

variable {hash : String} {cell : Cell Json} {e : Event} {b : Birth}

/-- A stored session lapses a refresh TTL after it was stored. -/
theorem Reaches.deadline_le (h : D.Reaches cfg) {d : ℕ} (hk : cfg.st.keys.rt hash = some cell)
    (hd : cell.expireAt = some d) : d ≤ cfg.st.now + D.env.config.refreshTtl := by
  obtain ⟨e, he, b, hb, -, rfl⟩ := h.born_of_rt hk
  obtain ⟨r, hr⟩ := h.names he hb
  cases hd
  rw [hr.ttl]
  have := h.pre_now_le he
  omega

theorem Reaches.indexed_step {c d : Snapshot} (hc : D.Reaches c) (hm : Moment (machine D.env) c.log e c d) {t : ℕ}
    (hk : c.st.keys.rt b.hash = some cell) (ht : cell.expireAt = some t) (hnow : c.st.now < t)
    (hi : Indexed c.st.keys b t) (hk' : d.st.keys.rt b.hash = some cell) : Indexed d.st.keys b t := by
  have hd := hc.next hm
  obtain ⟨tid, pre, op, r⟩ := e
  cases op with
  | session cmd =>
    have hobeys : Obeys D.env (localTrace tid c.log) (.session cmd) := hd.obeys hm.log₂
    have hst : c.st = pre := hm.st₁
    rw [(moment_session hm).2] at hk' ⊢
    rw [hst] at hk hnow hi
    have hle : ∀ t', cmd.ttl = some t' → t ≤ pre.now + t' := by
      intro t' ht'
      rw [Reaches.ttl_of_obeys hobeys ht', ← hst]
      exact hc.deadline_le (hst ▸ hk) ht
    refine ⟨holds_sess_of_exec hi.1 hnow hle ?_ ?_ hk', fun hf => ?_⟩
    · rintro s m rfl rfl
      obtain ⟨x, hx⟩ : ∃ x, Member.live b.hash = .grace x := hobeys
      cases hx
    · exact has_iff.mpr ⟨cell, hk, by simpa [Cell.live, ht] using hnow⟩
    · exact holds_fam_of_exec (hi.2 hf) hnow hle hk'
  | _ =>
    rw [moment_keys hm (by simp)]
    exact hi

namespace Reaches

variable (h : D.Reaches cfg)
include h

/-- Over every run the live sessions are in the indexes they were stored in. -/
theorem indexed {t : ℕ} (hk : cfg.st.keys.rt hash = some cell) (ht : cell.expireAt = some t) (hnow : cfg.st.now < t) :
    ∃ e ∈ cfg.log, ∃ b, Bears e b ∧ b.hash = hash ∧ b.record = cell.val ∧ Indexed cfg.st.keys b t := by
  refine Reaches.invariant (fun st log => ∀ hash cell t, st.keys.rt hash = some cell →
    cell.expireAt = some t → st.now < t →
      ∃ e ∈ log, ∃ b, Bears e b ∧ b.hash = hash ∧ b.record = cell.val ∧ Indexed st.keys b t)
    ?_ ?_ ?_ h hash cell t hk ht hnow
  · intro hash cell t hk
    cases hk
  · intro c d e hc ih hm hash cell t hk ht hnow
    rcases rt_of_moment hm hk with ⟨b, hb, rfl, rfl⟩ | hk'
    · refine ⟨e, by simp, b, hb, rfl, rfl, ?_⟩
      cases ht
      obtain ⟨hs⟩ := hb
      obtain ⟨rfl, hd⟩ := moment_session hm
      rw [hd]
      exact holds_of_stores hs
    · rw [moment_now hm] at hnow
      obtain ⟨e', he', b, hb, rfl, hrec, hi⟩ := ih hash cell t hk' ht hnow
      exact ⟨e', List.mem_append_left _ he', b, hb, rfl, hrec, hc.indexed_step hm hk' ht hnow hi hk⟩
  · intro st log i ih hash cell t hk ht hnow
    exact ih hash cell t hk ht (Nat.lt_of_le_of_lt (Nat.le_add_right _ _) hnow)

theorem listed (he : e ∈ cfg.log) (hb : Bears e b) (hlive : Live cfg.st b.hash) :
    Member.live b.hash ∈ smembers cfg.st.keys.sess cfg.st.now b.subject := by
  obtain ⟨cell, hk, hcell⟩ := live_iff.mp hlive
  obtain ⟨t, ht⟩ : ∃ t, cell.expireAt = some t := by
    obtain ⟨-, -, b', -, -, rfl⟩ := h.born_of_rt hk
    exact ⟨_, rfl⟩
  have hnow : cfg.st.now < t := by simpa [Cell.live, ht] using hcell
  obtain ⟨e', he', b', hb', hbh, -, hi⟩ := h.indexed hk ht hnow
  obtain ⟨-, rfl⟩ := h.birth_unique he' he hb' hb hbh
  exact hi.1.mem_smembers hnow

/-- A command that stores nothing, and deletes the session if it is a member of its index, leaves it dead:
a session that is no member was dead already. -/
theorem dead_of_exec {l₁ l₂ : List Event} {tid : ℕ} {pre : Store} {cmd : SessionCmd}
    {r : cmd.Reply} (hl : cfg.log = l₁ ++ ⟨tid, pre, .session cmd, r⟩ :: l₂) (hcmd : ∀ x b, ¬ cmd.Stores x b)
    (he : e ∈ l₁) (hb : Bears e b) (hgone : Member.live b.hash ∈ smembers pre.keys.sess pre.now b.subject →
      (cmd.exec pre.now pre.keys).2.rt b.hash = none) : ¬ Live cfg.st b.hash := by
  obtain ⟨c, d, hc, hm, hd⟩ := h.at_entry hl
  have hst : c.st = pre := hm.st₁
  have hmem : e ∈ c.log := by rw [hm.log₁]; exact he
  refine h.dead_of_reach hd (e := e) (by rw [hm.log₂]; exact List.mem_append_left _ he) hb fun hlive => ?_
  have hbefore : Live c.st b.hash := by
    rcases live_of_moment hm hlive with ⟨b', ⟨hs⟩, -⟩ | hbefore
    · exact absurd hs (hcmd _ b')
    · exact hbefore
  have hnone := hgone (hst ▸ hc.listed hmem hb hbefore)
  obtain ⟨cell, hk, -⟩ := live_iff.mp hlive
  rw [(moment_session hm).2] at hk
  cases (show none = some cell from hnone.symm.trans hk)

/-- A revoked session is dead, whatever the reply: one that is not found in the index is not live. -/
theorem dead_of_revoked {l₁ l₂ : List Event} {tid : ℕ} {pre : Store} {subject : String}
    {found : Bool} (hl : cfg.log = l₁ ++ ⟨tid, pre, .session (.sessionRevoke subject hash), found⟩ :: l₂)
    (he : e ∈ l₁) (hb : Bears e b) (hs : b.subject = subject) (hh : b.hash = hash) : ¬ Live cfg.st hash := by
  subst hs hh
  refine h.dead_of_exec hl (fun _ _ => nofun) he hb fun hmember => ?_
  have hin : sismember pre.keys.sess pre.now b.subject (.live b.hash) = true := by
    simpa [sismember] using hmember
  simp [exec, SessionKeys.sessionRevoke, hin]

end Reaches

end Deployment

/-- The session `hash`, stored as `cell`, is covered: its record `r` names an account and a family, the
account's index and the family's have it as a member, and neither lapses before the session does. -/
structure Covered (env : Env) (st : Store) (hash : String) (cell : Cell Json) (r : SessionRecord) :
    Prop where
  /-- The stored record. -/
  record : ofJson env.codec cell.val = some r
  /-- The owner's index exists and has the session. -/
  member : Member.live hash ∈ smembers st.keys.sess st.now (env.ownerIndex r)
  /-- It lapses no earlier than the session. -/
  sess : ∃ t, cell.expireAt = some t ∧ Holds st.keys.sess (env.ownerIndex r) (.live hash) t
  /-- There is a family. -/
  family : r.familyId ≠ ""
  /-- The family's index exists and has the session. -/
  kin : hash ∈ smembers st.keys.fam st.now r.familyId
  /-- It lapses no earlier than the session. -/
  fam : ∃ t, cell.expireAt = some t ∧ Holds st.keys.fam r.familyId hash t

namespace Deployment

variable {D : Deployment} {cfg : Snapshot} {hash : String} {cell : Cell Json}

theorem Reaches.covered (h : D.Reaches cfg) (hk : cfg.st.keys.rt hash = some cell)
    (hlive : cell.live cfg.st.now = true) : ∃ r, Covered D.env cfg.st hash cell r := by
  obtain ⟨t, ht⟩ : ∃ t, cell.expireAt = some t := by
    obtain ⟨e, -, b, -, -, hcell⟩ := h.born_of_rt hk
    exact ⟨_, by rw [hcell]⟩
  have hnow : cfg.st.now < t := by simpa [Cell.live, ht] using hlive
  obtain ⟨e, he, b, hb, rfl, hrec, hsess, hfam⟩ := h.indexed hk ht hnow
  obtain ⟨r, hr⟩ := h.names he hb
  rw [hr.subject] at hsess
  rw [hr.family] at hfam
  have hkin := hfam hr.family_ne
  exact ⟨r, hrec ▸ hr.ofJson, hsess.mem_smembers hnow, ⟨t, ht, hsess⟩, hr.family_ne,
    hkin.mem_smembers hnow, ⟨t, ht, hkin⟩⟩

/-- Every stored record, live or not, names an account. -/
theorem Reaches.userId_ne (h : D.Reaches cfg) (hk : cfg.st.keys.rt hash = some cell) :
    ∃ r, ofJson D.env.codec cell.val = some r ∧ r.userId ≠ "" := by
  obtain ⟨e, he, b, hb, -, rfl⟩ := h.born_of_rt hk
  obtain ⟨r, hr⟩ := h.names he hb
  exact ⟨r, hr.ofJson, hr.user⟩

/-- What is live after a command that stores nothing was covered before it. -/
theorem Reaches.covered_of_exec (h : D.Reaches cfg) {c : SessionCmd} (hc : ∀ x b, ¬ c.Stores x b)
    {r : SessionRecord} (hk : (c.exec cfg.st.now cfg.st.keys).2.rt hash = some cell)
    (hlive : cell.live cfg.st.now = true) (hr : ofJson D.env.codec cell.val = some r) :
    Covered D.env cfg.st hash cell r := by
  rcases rt_of_exec hk with ⟨b, hb, -⟩ | hk
  · exact absurd hb (hc _ b)
  · obtain ⟨r', hcov⟩ := h.covered hk hlive
    have hr' := hcov.record
    rw [hr, Option.some.injEq] at hr'
    exact hr' ▸ hcov

end Deployment

/-- The sweep of an account leaves no record it has in its index. -/
theorem rt_invalidateUserSessions {k : SessionKeys} {now : ℕ} {subject hash : String}
    (hm : Member.live hash ∈ smembers k.sess now subject) :
    (k.invalidateUserSessions now subject).2.rt hash = none := by
  have hf := (SessionKeys.foldl_deleteMember (smembers k.sess now subject) k).1 hash
  rw [if_pos hm] at hf
  exact hf

/-- The revocation of a family leaves no record it has in its index. -/
theorem rt_revokeFamily {k : SessionKeys} {now : ℕ} {family hash : String} (owner : Option String)
    (hm : hash ∈ smembers k.fam now family) : (k.revokeFamily now family owner).2.rt hash = none := by
  have hf := (SessionKeys.foldl_revokeMember now owner (smembers k.fam now family) k).1 hash
  rw [if_pos hm] at hf
  exact hf

/-- Over every run every live session is in the index of the account its record names and in its family's,
neither index lapses before it, and no stored record names the empty user. So whatever the moment, a sweep
of an account leaves no live session of the account, and a revocation of a family none of the family. -/
theorem index_coverage {D : Deployment} {cfg : Snapshot} (h : D.Reaches cfg) :
    (∀ hash cell, cfg.st.keys.rt hash = some cell → cell.live cfg.st.now = true →
      ∃ r, Covered D.env cfg.st hash cell r) ∧
    (∀ hash cell, cfg.st.keys.rt hash = some cell →
      ∃ r, ofJson D.env.codec cell.val = some r ∧ r.userId ≠ "") ∧
    (∀ subject hash cell r, (cfg.st.keys.invalidateUserSessions cfg.st.now subject).2.rt hash = some cell →
      cell.live cfg.st.now = true → ofJson D.env.codec cell.val = some r →
      D.env.ownerIndex r ≠ subject) ∧
    (∀ family owner hash cell r, (cfg.st.keys.revokeFamily cfg.st.now family owner).2.rt hash = some cell →
      cell.live cfg.st.now = true → ofJson D.env.codec cell.val = some r →
      r.familyId ≠ family) := by
  refine ⟨fun _ _ => h.covered, fun _ _ => h.userId_ne, ?_, ?_⟩
  · rintro subject hash cell r hk hlive hr rfl
    have hcov := h.covered_of_exec (c := .invalidateUserSessions _) (fun _ _ => nofun) hk hlive hr
    rw [rt_invalidateUserSessions hcov.member] at hk
    cases hk
  · rintro family owner hash cell r hk hlive hr rfl
    have hcov := h.covered_of_exec (c := .revokeFamily _ owner) (fun _ _ => nofun) hk hlive hr
    rw [rt_revokeFamily owner hcov.kin] at hk
    cases hk

open Demo

/-- A login and a rotation: the successor is live, and covered. -/
theorem index_coverage_rotated : ∃ cfg,
    (deployment [.issue alice "" "" false, .refresh (token 'a') "" ""]).Reaches cfg ∧
    ∃ cell, cfg.st.keys.rt (token 'b') = some cell ∧ cell.live cfg.st.now = true ∧
      ∃ r, Covered env cfg.st (token 'b') cell r := by
  refine exists_reaches (firstIssue ++ acts 1 5 (token 'b') [])
    (fun cfg => has cfg.st.keys.rt cfg.st.now (token 'b')) (by decide +kernel) fun cfg hr hp => ?_
  obtain ⟨cell, hk, hlive⟩ := has_iff.mp hp
  exact ⟨cell, hk, hlive, (index_coverage hr).1 _ cell hk hlive⟩

end BymaxAuth
