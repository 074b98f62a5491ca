import BymaxAuth.History.Births

/-!
# A refresh token is used once, and retried once

Any number of handlers may present the same refresh token, in any order and between any other commands.
What each of them gets depends on three keys with lifetimes of their own (`rt`, `rp`, `cf`) and on whether
another session is still live.
-/

namespace BymaxAuth

open Redis Concurrency List Option SessionCmd

namespace Deployment

variable {D : Deployment} {cfg : Snapshot} {l₁ l₂ : List Event} {tid : ℕ} {pre : Store} {a : Rotation} {e : Event}

namespace Reaches

variable (h : D.Reaches cfg)
include h

theorem rotated_dead {old : Json}
    (he : ⟨tid, pre, .session (.refreshRotate a), .rotated old⟩ ∈ cfg.log) : ¬ Live cfg.st a.oldHash := by
  obtain ⟨l₁, l₂, hl⟩ := append_of_mem he
  obtain ⟨-, p, hp, b, hb, hbh, -⟩ := h.rotated_live hl
  obtain ⟨c, d, -, hm, hd⟩ := h.at_entry hl
  rw [← hbh]
  refine h.dead_of_reach hd (e := p) ?_ hb ?_
  · rw [hm.log₂]
    exact mem_append_left _ hp
  · obtain ⟨hr, hst⟩ := moment_session hm
    rw [hst, (exec_rotated hr.symm).2, hbh]
    intro hlive
    obtain ⟨cell, hk, -⟩ := live_iff.mp hlive
    exact (del_eq_some hk).1 rfl

theorem rotated_first {old : Json}
    (hl : cfg.log = l₁ ++ ⟨tid, pre, .session (.refreshRotate a), .rotated old⟩ :: l₂) (he : e ∈ l₁) :
    rotates a.oldHash e = false := by
  rw [Bool.eq_false_iff]
  intro hrot
  obtain ⟨tid', pre', a', old', rfl, hold⟩ := rotates_iff.mp hrot
  obtain ⟨c, d, hc, hm, -⟩ := h.at_entry hl
  have hdead := hc.rotated_dead (hm.log₁ ▸ he)
  rw [hold, hm.st₁] at hdead
  exact hdead (h.rotated_live hl).1

/-- A grace pointer that was consumed does not come back. -/
theorem grace_consumed {json : Json}
    (he : ⟨tid, pre, .session (.refreshRotate a), .grace json⟩ ∈ cfg.log) : cfg.st.keys.rp a.oldHash = none := by
  refine Reaches.invariant (fun st log => ∀ tid pre a json,
    ⟨tid, pre, .session (.refreshRotate a), .grace json⟩ ∈ log → st.keys.rp a.oldHash = none)
    ?_ ?_ ?_ h tid pre a json he
  · intro tid pre a json he
    cases he
  · intro c d e hc ih hm tid pre a json he
    have hd := hc.next hm
    rcases mem_append.mp he with hin | hnew
    · rw [eq_none_iff_forall_ne_some]
      intro cell hk
      -- A pointer planted after the grace would need a second rotation of the token.
      rcases rp_of_moment hm hk with ⟨tid', pre', a', old', rfl, hold, -⟩ | hk
      · obtain ⟨m₁, m₂, hsplit⟩ := append_of_mem hin
        obtain ⟨tid₀, pre₀, a₀, old₀, hrot, hold₀, -, -⟩ := hc.grace_after_rotated hsplit
        have hfirst := hd.rotated_first hm.log₂ (hsplit ▸ mem_append_left _ hrot)
        rw [hold] at hfirst
        rw [rotates_iff.mpr ⟨_, _, _, _, rfl, hold₀⟩] at hfirst
        cases hfirst
      · rw [ih tid pre a json hin] at hk
        cases hk
    · rw [mem_singleton] at hnew
      subst hnew
      obtain ⟨hr, hst⟩ := moment_session hm
      rw [hst, (exec_grace hr.symm).2.2]
      exact del_self _ _
  · exact fun _ _ _ ih => ih

theorem grace_first {json : Json}
    (hl : cfg.log = l₁ ++ ⟨tid, pre, .session (.refreshRotate a), .grace json⟩ :: l₂) (he : e ∈ l₁) :
    graces a.oldHash e = false := by
  rw [Bool.eq_false_iff]
  intro hg
  obtain ⟨tid', pre', a', json', rfl, hold⟩ := graces_iff.mp hg
  obtain ⟨c, d, hc, hm, -⟩ := h.at_entry hl
  have hnone := hc.grace_consumed (hm.log₁ ▸ he)
  obtain ⟨-, ⟨successor, hget, -⟩, -⟩ := exec_grace (moment_session hm).1.symm
  rw [hold, hm.st₁] at hnone
  rw [get_of_eq_none hnone] at hget
  cases hget

theorem grace_unique {hash : String} {e' : Event} (he : e ∈ cfg.log)
    (he' : e' ∈ cfg.log) (hg : graces hash e = true) (hg' : graces hash e' = true) : e = e' := by
  have key : ∀ {x y : Event} {l₁ l₂ : List Event}, cfg.log = l₁ ++ x :: l₂ → y ∈ l₁ →
      graces hash x = true → graces hash y = true → False := by
    intro x y l₁ l₂ hl hy hx hgy
    obtain ⟨tid, pre, a, json, rfl, rfl⟩ := graces_iff.mp hx
    rw [h.grace_first hl hy] at hgy
    cases hgy
  rcases eq_or_before he he' with heq | ⟨m₁, m₂, hl, hmem⟩ | ⟨m₁, m₂, hl, hmem⟩
  · exact heq
  · exact absurd hg' fun hg' => key hl hmem hg hg'
  · exact absurd hg fun hg => key hl hmem hg' hg

/-- A handler recovers where no handler recovered from the same token before. -/
theorem recovers_first {hash : String} {e' : Event} (hl : cfg.log = l₁ ++ e :: l₂)
    (hr : recovers cfg.log hash e = true) (he' : e' ∈ l₁) : recovers cfg.log hash e' = false := by
  rw [Bool.eq_false_iff]
  intro hr'
  obtain ⟨tid, pre, s, rfl, g, hg, htid, hgr⟩ := recovers_iff.mp hr
  obtain ⟨tid', pre', s', rfl, g', hg', htid', hgr'⟩ := recovers_iff.mp hr'
  have hgg := h.grace_unique hg hg' hgr hgr'
  subst hgg
  subst htid
  subst htid'
  have hobeys : Recovers D.env (localTrace g.tid l₁) s := h.obeys hl
  exact hobeys.once _ (mem_localTrace.mpr ⟨_, he', rfl, rfl⟩) s' rfl

/-- A hash under which nothing was ever stored is invalid. -/
theorem invalid_of_never_stored {r : RotateReply}
    (hl : cfg.log = l₁ ++ ⟨tid, pre, .session (.refreshRotate a), r⟩ :: l₂)
    (hn : ∀ e ∈ l₁, ∀ b, Bears e b → b.hash ≠ a.oldHash) : r = .invalid := by
  obtain ⟨c, d, hc, hm, -⟩ := h.at_entry hl
  have hst : c.st = pre := hm.st₁
  have hlog : c.log = l₁ := hm.log₁
  -- Whatever key of the token is there, a rotation of it came before, and so did its birth.
  have hrot : ∀ tid' pre' a' old, ⟨tid', pre', .session (.refreshRotate a'), .rotated old⟩ ∈ c.log →
      a'.oldHash ≠ a.oldHash := by
    intro tid' pre' a' old he heq
    obtain ⟨m₁, m₂, hsplit⟩ := append_of_mem he
    obtain ⟨-, p, hp, b, hb, hbh, -⟩ := hc.rotated_live hsplit
    refine hn p ?_ b hb (hbh.trans heq)
    rw [← hlog, hsplit]
    exact mem_append_left _ hp
  have hrt : get pre.keys.rt pre.now a.oldHash = none := by
    refine get_of_eq_none ?_ _
    rw [eq_none_iff_forall_ne_some]
    intro cell hk
    obtain ⟨e, he, b, hb, hbh, -⟩ := hc.born_of_rt (hst ▸ hk)
    exact hn e (hlog ▸ he) b hb hbh
  have hrp : get pre.keys.rp pre.now a.oldHash = none := by
    refine get_of_eq_none ?_ _
    rw [eq_none_iff_forall_ne_some]
    intro cell hk
    obtain ⟨tid', pre', a', old, he, hold, -⟩ := hc.rotated_of_rp (hst ▸ hk)
    exact hrot tid' pre' a' old he hold
  have hcf : get pre.keys.cf pre.now a.oldHash = none := by
    refine get_of_eq_none ?_ _
    rw [eq_none_iff_forall_ne_some]
    intro cell hk
    obtain ⟨tid', pre', a', old, he, hold, -⟩ := hc.rotated_of_cf (hst ▸ hk)
    exact hrot tid' pre' a' old he hold
  rw [(moment_session hm).1]
  simp only [exec, SessionKeys.refreshRotate, hrt, hrp, SessionKeys.reuseReply, hcf]

end Reaches

end Deployment

/-- Over every run a refresh token is rotated at most once and graced at most once, graced only after it
was rotated and while the successor that rotation stored is live, and so makes at most two sessions; and a
hash under which nothing was stored is answered with invalid. -/
theorem single_use {D : Deployment} {cfg : Snapshot} (h : D.Reaches cfg) (hash : String) :
    cfg.log.countP (rotates hash) ≤ 1 ∧ cfg.log.countP (graces hash) ≤ 1 ∧
    (∀ l₁ e l₂, cfg.log = l₁ ++ e :: l₂ → graces hash e = true →
      ∃ tid pre a old, ⟨tid, pre, .session (.refreshRotate a), .rotated old⟩ ∈ l₁ ∧ a.oldHash = hash ∧
        Live e.pre a.newHash) ∧
    cfg.log.countP (fun e => rotates hash e || recovers cfg.log hash e) ≤ 2 ∧
    (∀ l₁ tid pre a r l₂, cfg.log = l₁ ++ ⟨tid, pre, .session (.refreshRotate a), r⟩ :: l₂ →
      a.oldHash = hash → (∀ e ∈ l₁, ∀ b, Bears e b → b.hash ≠ hash) → r = .invalid) := by
  have hrot : cfg.log.countP (rotates hash) ≤ 1 := by
    refine countP_le_one fun l₁ e l₂ hl he e' he' => ?_
    obtain ⟨tid, pre, a, old, rfl, rfl⟩ := rotates_iff.mp he
    exact h.rotated_first hl he'
  have hgrace : cfg.log.countP (graces hash) ≤ 1 := by
    refine countP_le_one fun l₁ e l₂ hl he e' he' => ?_
    obtain ⟨tid, pre, a, json, rfl, rfl⟩ := graces_iff.mp he
    exact h.grace_first hl he'
  have hrec : cfg.log.countP (recovers cfg.log hash) ≤ 1 :=
    countP_le_one fun l₁ e l₂ hl he e' he' => h.recovers_first hl he he'
  refine ⟨hrot, hgrace, ?_, ?_, ?_⟩
  · intro l₁ e l₂ hl he
    obtain ⟨tid, pre, a, json, rfl, rfl⟩ := graces_iff.mp he
    obtain ⟨tid', pre', a', old, hmem, hold, -, hlive⟩ := h.grace_after_rotated hl
    exact ⟨tid', pre', a', old, hmem, hold, hlive⟩
  · exact Nat.le_trans (countP_or_le _ _ _) (Nat.add_le_add hrot hrec)
  · rintro l₁ tid pre a r l₂ hl rfl hn
    exact h.invalid_of_never_stored hl hn

open Demo

/-- One token, presented by two handlers: the first rotates it, the second is graced and recovers. -/
theorem single_use_graced : ∃ cfg, (deployment [.issue alice "" "" false, .refresh (token 'a') "" "",
      .refresh (token 'a') "" ""]).Reaches cfg ∧
    cfg.log.countP (rotates (token 'a')) = 1 ∧ cfg.log.countP (graces (token 'a')) = 1 ∧
    cfg.log.countP (fun e => rotates (token 'a') e || recovers cfg.log (token 'a') e) = 2 ∧
    cfg.log.countP (fun e => rotates (token 'a') e || recovers cfg.log (token 'a') e) ≤ 2 := by
  exact exists_reaches (firstIssue ++ acts 1 5 (token 'b') [] ++ acts 2 7 (token 'c') [] ++ acts 2 3 (token 'd') [])
    (fun cfg => cfg.log.countP (rotates (token 'a')) = 1 ∧ cfg.log.countP (graces (token 'a')) = 1 ∧
      cfg.log.countP (fun e => rotates (token 'a') e || recovers cfg.log (token 'a') e) = 2)
    (by decide +kernel) fun cfg hr ⟨h₁, h₂, h₃⟩ => ⟨h₁, h₂, h₃, (single_use hr (token 'a')).2.2.2.1⟩

end BymaxAuth
