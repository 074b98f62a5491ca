import BymaxAuth.Guarantees.Coverage
import BymaxAuth.Guarantees.SingleUse

/-!
# Reuse detection ends the lineage, and nothing else

A consumed token that comes back when it can no longer be an innocent retry is a replay: the handler is
told the family, looks for its owner, and revokes the family. These are three commands of three atomic
units, and forks of the same lineage may rotate or recover between them.
-/

namespace BymaxAuth

open Redis Concurrency List SessionCmd

namespace Deployment

variable {D : Deployment} {cfg : Snapshot} {l₁ l₂ : List Event} {tid : ℕ} {pre : Store}

/-! ### Detection -/

namespace Reaches

variable (h : D.Reaches cfg)
include h

/-- The marker a rotation left for its token stays as it was written. -/
theorem cf_of_rotated {a : Rotation} {old : Json}
    (he : ⟨tid, pre, .session (.refreshRotate a), .rotated old⟩ ∈ cfg.log) (hf : a.family ≠ "") :
    cfg.st.keys.cf a.oldHash = some ⟨a.family, some (pre.now + a.refreshTtl)⟩ := by
  refine Reaches.invariant (fun st log => ∀ tid pre a old,
    ⟨tid, pre, .session (.refreshRotate a), .rotated old⟩ ∈ log → a.family ≠ "" →
      st.keys.cf a.oldHash = some ⟨a.family, some (pre.now + a.refreshTtl)⟩) ?_ ?_ ?_ h tid pre a old he hf
  · intro tid pre a old he
    cases he
  · intro c d e hc ih hm tid pre a old he hf
    rcases mem_append.mp he with hin | hnew
    · rcases cf_of_moment hm a.oldHash with ⟨tid', pre', a', old', rfl, hold, -⟩ | hcf
      · -- A second rotation of the token does not happen.
        have hfirst := (hc.next hm).rotated_first hm.log₂ hin
        rw [hold, rotates_iff.mpr ⟨_, _, _, _, rfl, rfl⟩] at hfirst
        cases hfirst
      · rw [hcf]
        exact ih tid pre a old hin hf
    · rw [mem_singleton] at hnew
      subst hnew
      obtain ⟨hr, hst⟩ := moment_session hm
      rw [hst, (exec_rotated hr.symm).2]
      simp [SessionKeys.rotateLive, hf]
  · exact fun _ _ _ ih => ih

/-- A token of a family that was rotated, and is presented again within the refresh TTL when no pointer to
a live successor is left for it, is answered with the family. -/
theorem reused_of_replay {a a' : Rotation} {r : RotateReply} {tid' : ℕ} {pre' : Store} {old : Json}
    (hl : cfg.log = l₁ ++ ⟨tid, pre, .session (.refreshRotate a), r⟩ :: l₂)
    (he : ⟨tid', pre', .session (.refreshRotate a'), .rotated old⟩ ∈ l₁) (hold : a'.oldHash = a.oldHash)
    (hf : a'.family ≠ "") (htime : pre.now < pre'.now + a'.refreshTtl)
    (hrp : ∀ successor json, get pre.keys.rp pre.now a.oldHash = some (successor, json) →
      ¬ Live pre successor) : r = .reused a'.family := by
  obtain ⟨c, d, hc, hm, -⟩ := h.at_entry hl
  have hst : c.st = pre := hm.st₁
  have he' := hm.log₁ ▸ he
  have hdead := hc.rotated_dead he'
  have hcf := hc.cf_of_rotated he' hf
  rw [hst, hold] at hdead hcf
  rw [(moment_session hm).1]
  refine exec_of_marker ?_ ?_ ?_
  · rw [Live, has_eq_isSome_get] at hdead
    simpa using hdead
  · intro successor json hp
    simpa [Live] using hrp successor json hp
  · exact get_eq_some.mpr ⟨_, hcf, live_some.mpr htime, rfl⟩

/-! ### The family's sessions -/

/-- The family of a stored session was opened by a login. -/
theorem opened {e : Event} {b : Birth} (he : e ∈ cfg.log) (hb : Bears e b) :
    ∃ x ∈ cfg.log, Exchange.opens x.ev = some b.family := by
  obtain ⟨r, hr⟩ := h.names he hb
  obtain ⟨p, ⟨tid, pre, s, u, hmem, rfl⟩, hdesc⟩ := h.root he hb
  obtain ⟨r₀, hr₀⟩ := h.names hmem .created
  obtain ⟨r', hr', hid⟩ := h.descends_identity ⟨_, hmem, _, .created, rfl, hr₀⟩ hdesc
  rw [h.stored_unique hr' ⟨e, he, b, hb, rfl, hr⟩] at hid
  refine ⟨_, hmem, ?_⟩
  rw [hr.family, show r.familyId = r₀.familyId from congrArg Identity.familyId hid, ← hr₀.family]
  rfl

theorem revoked_opened {family : String} {owner : Option String} {n : ℕ}
    (hl : cfg.log = l₁ ++ ⟨tid, pre, .session (.revokeFamily family owner), n⟩ :: l₂) :
    family ≠ "" ∧ ∃ x ∈ l₁, Exchange.opens x.ev = some family := by
  have hobeys : Obeys D.env (localTrace tid l₁) (.session (.revokeFamily family owner)) := h.obeys hl
  obtain ⟨hne, a, hreused⟩ := hobeys
  refine ⟨hne, ?_⟩
  obtain ⟨pre', he⟩ := exchange_mem.mp hreused
  obtain ⟨c, d, hc, hm, -⟩ := h.at_entry hl
  have hlog : c.log = l₁ := hm.log₁
  obtain ⟨m₁, m₂, hsplit⟩ := append_of_mem (hlog ▸ he)
  -- The reply came from a marker, the marker from a rotation, and the rotation stored a session.
  obtain ⟨c', d', hc', hm', -⟩ := hc.at_entry hsplit
  obtain ⟨cell, hk, -, hv⟩ := get_eq_some.mp (exec_reused (moment_session hm').1.symm)
  have hst : c'.st = pre' := hm'.st₁
  rw [← hst] at hk
  obtain ⟨tid'', pre'', a', old, hrot, -, rfl⟩ := hc'.rotated_of_cf hk
  obtain ⟨x, hx, hopen⟩ := hc'.opened hrot .rotated
  refine ⟨x, ?_, hv ▸ hopen⟩
  rw [← hlog, hsplit]
  exact mem_append_left _ (hm'.log₁ ▸ hx)

end Reaches

end Deployment

/-- No session of the family is live, and none can come: its index is gone and its id is used up. -/
structure Extinct (family : String) (st : Store) (log : List Event) : Prop where
  /-- A login opened the family. -/
  opened : ∃ x ∈ log, Exchange.opens x.ev = some family
  /-- The family's index is gone. -/
  index : st.keys.fam family = none
  /-- No session of the family is live. -/
  dead : ∀ e ∈ log, ∀ b, Bears e b → b.family = family → ¬ Live st b.hash

namespace Deployment

variable {D : Deployment} {c d cfg : Snapshot} {e : Event} {family : String}

/-- No command stores a session of an extinct family: its id was used by a login before, no live token of
it is left to rotate, and a recovery needs the index. -/
theorem Reaches.bears_of_extinct (hc : D.Reaches c) (hm : Moment (machine D.env) c.log e c d)
    (h : Extinct family c.st c.log) {b : Birth} (hb : Bears e b) : b.family ≠ family := by
  have hd := hc.next hm
  have hmem : e ∈ d.log := by rw [hm.log₂]; simp
  rintro rfl
  obtain ⟨r, hr⟩ := hd.names hmem hb
  obtain ⟨hs⟩ := hb
  cases hs with
  | created s =>
    obtain ⟨x, hx, hopen⟩ := h.opened
    have hf := hd.freshFamilies
    rw [hm.log₂] at hf
    exact hf.not_spent_again hx (mem_singleton_self _) hopen rfl
  | rotated a old =>
    obtain ⟨hlive, p, hp, b', hb', hbh, -⟩ := hd.rotated_live hm.log₂
    obtain ⟨r₁, r₂, hr₁, -, hn₂, hid⟩ := hd.rotated_identity hmem
    have hp' : p ∈ d.log := by rw [hm.log₂]; exact mem_append_left _ hp
    obtain ⟨r', hr'⟩ := hd.names hp' hb'
    have hr₁' := hd.stored_unique hr₁ ⟨p, hp', b', hb', hbh, hr'⟩
    subst hr₁'
    refine h.dead p hp b' hb' ?_ ?_
    · rw [hr'.family, hn₂.family]
      exact (congrArg Identity.familyId hid).symm
    · rw [hbh, hm.st₁]
      exact hlive
  | recovered s =>
    have hst := hm.st₁
    rcases (exec_recovered (moment_session hm).1.symm).2.1 with hne | hhas
    · exact hr.family_ne (hr.family.symm.trans hne)
    · obtain ⟨cell, hk, -⟩ := has_iff.mp hhas
      have hnone := h.index
      rw [hst] at hnone
      rw [show s.birth.family = s.family from rfl, hk] at hnone
      cases hnone

theorem Reaches.extinct_step (hc : D.Reaches c) (hm : Moment (machine D.env) c.log e c d)
    (h : Extinct family c.st c.log) : Extinct family d.st (c.log ++ [e]) := by
  have hno : ∀ b, Bears e b → b.family ≠ family := fun b => hc.bears_of_extinct hm h
  refine ⟨?_, ?_, ?_⟩
  · obtain ⟨x, hx, hopen⟩ := h.opened
    exact ⟨x, mem_append_left _ hx, hopen⟩
  · obtain ⟨tid, pre, op, r⟩ := e
    cases op with
    | session cmd =>
      have hindex := h.index
      rw [hm.st₁] at hindex
      obtain ⟨rfl, hst⟩ := moment_session hm
      rw [hst]
      exact fam_none_of_exec hindex fun b hb => hno b ⟨hb⟩
    | _ =>
      rw [moment_keys hm (by simp)]
      exact h.index
  · intro x hx b hb hf hlive
    rcases mem_append.mp hx with hin | hnew
    · rcases live_of_moment hm hlive with ⟨b', hb', heq⟩ | hlive
      · exact (hc.next hm).not_born_again hm.log₂ hin (mem_singleton_self _) hb hb' heq
      · exact h.dead x hin b hb hf hlive
    · rw [mem_singleton] at hnew
      subst hnew
      exact hno b hb hf

theorem Reaches.extinct_of_revoked (hc : D.Reaches c) {tid : ℕ} {pre : Store} {owner : Option String}
    {n : ℕ} (hm : Moment (machine D.env) c.log ⟨tid, pre, .session (.revokeFamily family owner), n⟩ c d) :
    Extinct family d.st d.log := by
  have hd := hc.next hm
  obtain ⟨hne, x, hx, hopen⟩ := hd.revoked_opened hm.log₂
  obtain ⟨-, hst⟩ := moment_session hm
  have hpre : c.st = pre := hm.st₁
  refine ⟨⟨x, by rw [hm.log₂]; exact mem_append_left _ hx, hopen⟩, ?_, ?_⟩
  · rw [hst]
    exact del_self _ _
  · intro e he b hb hf hlive
    obtain ⟨cell, hk, hcl⟩ := live_iff.mp hlive
    rw [moment_now hm] at hcl
    rw [hst, ← hpre] at hk
    obtain ⟨r, hr⟩ := hd.names he hb
    -- The session was covered by the family's index when the script read it.
    have hrec : SessionRecord.ofJson D.env.codec cell.val = some r := by
      have hk' : d.st.keys.rt b.hash = some cell := by rw [hst, ← hpre]; exact hk
      obtain ⟨e', he', b', hb', heq, rfl⟩ := hd.born_of_rt hk'
      obtain ⟨-, rfl⟩ := hd.birth_unique he he' hb hb' heq.symm
      exact hr.ofJson
    have hcov := hc.covered_of_exec (c := .revokeFamily family owner) (fun _ _ => nofun) hk hcl hrec
    have hkin := hcov.kin
    rw [← hr.family, hf] at hkin
    rw [show (exec c.st.now c.st.keys (.revokeFamily family owner)).2.rt b.hash = none from
      rt_revokeFamily owner hkin] at hk
    cases hk

/-- After the revocation of a family no session of it is live, however the run goes on. -/
theorem Reaches.extinct (h : D.Reaches cfg) {tid : ℕ} {pre : Store} {owner : Option String} {n : ℕ}
    (he : ⟨tid, pre, .session (.revokeFamily family owner), n⟩ ∈ cfg.log) :
    Extinct family cfg.st cfg.log := by
  obtain ⟨l₁, l₂, hl⟩ := append_of_mem he
  obtain ⟨c, d, hc, hm, hd⟩ := h.at_entry hl
  have hlog : c.log = l₁ := hm.log₁
  rw [← hlog] at hm
  refine Reaches.keeps (Extinct family) (hc.next hm) (hc.extinct_of_revoked hm) ?_ ?_ hd
  · exact fun x y e hx _ hext hmom => hx.extinct_step hmom hext
  · intro st log i hext
    refine ⟨hext.opened, hext.index, fun e he b hb hf hlive => hext.dead e he b hb hf ?_⟩
    obtain ⟨cell, hk, hcl⟩ := live_iff.mp hlive
    exact live_iff.mpr ⟨cell, hk, Cell.live_of_le hcl (Nat.le_add_right _ _)⟩

end Deployment

/-! ### What the revocation leaves alone -/

/-- Between `k` and `k'` nothing of the session `hash` was touched: not its record, not its detail, not
its place in an account's index. -/
structure Untouched (now : ℕ) (hash : String) (k k' : SessionKeys) : Prop where
  /-- The record. -/
  rt : k'.rt hash = k.rt hash
  /-- The detail. -/
  sd : k'.sd hash = k.sd hash
  /-- The index members. -/
  sess : ∀ subject, Member.live hash ∈ smembers k'.sess now subject ↔ Member.live hash ∈ smembers k.sess now subject

namespace Deployment

variable {D : Deployment} {cfg : Snapshot}

/-- A family's index has the family's sessions only. -/
theorem Reaches.kin_of_fam (h : D.Reaches cfg) {family hash : String} (hk : Mem cfg.st.keys.fam family hash) :
    ∃ e ∈ cfg.log, ∃ b, Bears e b ∧ b.hash = hash ∧ b.family = family := by
  refine reach_written (H := fun st => Mem st.keys.fam family hash) h hk (fun ⟨_, hk, _⟩ => nomatch hk) (fun _ _ => id) ?_
  intro c d e _ hm hk
  obtain ⟨tid, pre, op, r⟩ := e
  cases op with
  | session cmd =>
    obtain ⟨rfl, hst⟩ := moment_session hm
    rw [hst] at hk
    rcases fam_of_exec hk with ⟨b, hb, hbh, hbf, -⟩ | hk
    · exact .inl ⟨b, ⟨hb⟩, hbh, hbf⟩
    · exact .inr (by rwa [hm.st₁])
  | _ => exact .inr (moment_keys hm (by simp) ▸ hk)

/-- The revocation of a family touches no session outside it, and no other family's index. -/
theorem Reaches.familyRevoke_frame (h : D.Reaches cfg) {family hash : String} {r : SessionRecord}
    (hr : Stored D.env cfg.log hash r) (hne : r.familyId ≠ family) (owner : Option String) :
    Untouched cfg.st.now hash cfg.st.keys (cfg.st.keys.revokeFamily cfg.st.now family owner).2 := by
  have hout : hash ∉ smembers cfg.st.keys.fam cfg.st.now family := by
    intro hmem
    obtain ⟨e, he, b, hb, hbh, hbf⟩ := h.kin_of_fam (mem_of_mem_smembers hmem)
    obtain ⟨e', he', b', hb', hbh', hn⟩ := hr
    obtain ⟨-, rfl⟩ := h.birth_unique he he' hb hb' (hbh.trans hbh'.symm)
    exact hne (hn.family.symm.trans hbf)
  have hfold := SessionKeys.foldl_revokeMember cfg.st.now owner
    (smembers cfg.st.keys.fam cfg.st.now family) cfg.st.keys
  refine ⟨?_, ?_, fun subject => ?_⟩
  · have := hfold.1 hash
    rwa [if_neg hout] at this
  · have := hfold.2.1 hash
    rwa [if_neg hout] at this
  · refine SessionKeys.mem_smembers_foldl_revokeMember _ ?_
    rintro x hx ⟨⟩
    exact hout hx

end Deployment

/-- Over every run: a token whose session was of family `f`, rotated less than a refresh TTL ago and
presented again when no pointer to a live successor is left for it, is answered with `f`; once the
family's revocation has completed, no session of it is live; and the revocation touched nothing of a
session outside the family, and no other family's index. -/
theorem reuse_detection {D : Deployment} {cfg : Snapshot} (h : D.Reaches cfg) :
    (∀ l₁ l₂ tid pre a reply tid' pre' a' old r, cfg.log = l₁ ++ ⟨tid, pre, .session (.refreshRotate a), reply⟩ :: l₂ →
      ⟨tid', pre', .session (.refreshRotate a'), .rotated old⟩ ∈ l₁ → a'.oldHash = a.oldHash →
      Stored D.env l₁ a.oldHash r → pre.now < pre'.now + D.env.config.refreshTtl →
      (∀ successor json, get pre.keys.rp pre.now a.oldHash = some (successor, json) → ¬ Live pre successor) →
      reply = .reused r.familyId) ∧
    (∀ tid pre family owner n, ⟨tid, pre, .session (.revokeFamily family owner), n⟩ ∈ cfg.log →
      ∀ hash r, Stored D.env cfg.log hash r → r.familyId = family → ¬ Live cfg.st hash) ∧
    (∀ l₁ l₂ tid pre family owner n, cfg.log = l₁ ++ ⟨tid, pre, .session (.revokeFamily family owner), n⟩ :: l₂ →
      (∀ hash r, Stored D.env l₁ hash r → r.familyId ≠ family →
        Untouched pre.now hash pre.keys (pre.keys.revokeFamily pre.now family owner).2) ∧
      ∀ other, other ≠ family → (pre.keys.revokeFamily pre.now family owner).2.fam other = pre.keys.fam other) := by
  refine ⟨?_, ?_, ?_⟩
  · intro l₁ l₂ tid pre a reply tid' pre' a' old r hl he hold hr htime hrp
    have hsub : ∀ e ∈ l₁, e ∈ cfg.log := fun e he => hl ▸ mem_append_left _ he
    obtain ⟨r₁, r₂, hr₁, -, hn, hid⟩ := h.rotated_identity (hsub _ he)
    rw [hold] at hr₁
    have hrr := h.stored_unique hr₁ (hr.mono hsub)
    subst hrr
    have hfam : a'.family = r₁.familyId := hn.family.trans (congrArg Identity.familyId hid)
    rw [← hfam]
    refine h.reused_of_replay hl he hold ?_ ?_ hrp
    · rw [show a'.family = r₂.familyId from hn.family]
      exact hn.family_ne
    · rw [show a'.refreshTtl = D.env.config.refreshTtl from hn.ttl]
      exact htime
  · rintro tid pre family owner n he hash r ⟨e, he', b, hb, rfl, hn⟩ hf
    exact (h.extinct he).dead e he' b hb (hn.family.trans hf)
  · intro l₁ l₂ tid pre family owner n hl
    obtain ⟨c, d, hc, hm, -⟩ := h.at_entry hl
    have hst : c.st = pre := hm.st₁
    have hlog : c.log = l₁ := hm.log₁
    subst hst hlog
    refine ⟨fun hash r hr hne => hc.familyRevoke_frame hr hne owner, fun other hother => ?_⟩
    have hfam := (SessionKeys.foldl_revokeMember c.st.now owner
      (smembers c.st.keys.fam c.st.now family) c.st.keys).2.2.2.2
    simp only [SessionKeys.revokeFamily, hfam]
    exact del_of_ne _ hother

/-- The entry is the revocation of this family. -/
def revokes (family : String) (e : Event) : Bool :=
  match e with
  | ⟨_, _, .session (.revokeFamily f _), _⟩ => f = family
  | _ => false

open Demo

/-- A token rotated, retried in its grace window, and presented a third time: the family is revoked, and
with it the successor and the recovered session. -/
theorem reuse_detection_replayed : ∃ cfg, (deployment [.issue alice "" "" false, .refresh (token 'a') "" "",
      .refresh (token 'a') "" "", .refresh (token 'a') "" ""]).Reaches cfg ∧
    cfg.log.any (revokes "f0") = true ∧
    ∀ hash r, Stored env cfg.log hash r → r.familyId = "f0" → ¬ Live cfg.st hash := by
  refine exists_reaches (firstIssue ++ acts 1 5 (token 'b') [] ++ acts 2 7 (token 'c') [] ++ acts 2 3 (token 'd') [] ++
      acts 3 9 (token 'e') [])
    (fun cfg => cfg.log.any (revokes "f0")) (by decide +kernel) fun cfg hr hp => ⟨hp, ?_⟩
  obtain ⟨e, he, hrev⟩ := any_eq_true.mp hp
  unfold revokes at hrev
  split at hrev
  · simp only [decide_eq_true_eq] at hrev
    subst hrev
    exact (reuse_detection hr).2.1 _ _ _ _ _ he
  · cases hrev

end BymaxAuth
