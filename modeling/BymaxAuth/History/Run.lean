import BymaxAuth.Engine.Calls

/-!
# Runs of a deployment

A deployment is one plane, the second and the accounts it starts with, and the calls that are made of it,
as many as one likes. Its runs are the interleavings of the calls' handlers, command by command, with the
clock and the host moving in between.
-/

namespace BymaxAuth

open Redis Concurrency List Bool Exchange

/-- A moment of a run: the store, the history, and what is left of every handler. -/
abbrev Snapshot := Concurrency.Config Store Op.Reply (Except AuthError Answer)

/-- One plane, what it starts with, and the calls that are made of it. -/
structure Deployment where
  /-- The plane. -/
  env : Env
  /-- The second at which it starts. -/
  now : ℕ
  /-- The accounts it starts with. -/
  users : List AuthUser
  /-- The calls. -/
  flows : ℕ → Flow

namespace Deployment

/-- Nothing was stored, no call was served. -/
def start (D : Deployment) : Snapshot :=
  Concurrency.start (Store.initial D.now D.users) fun tid => (D.flows tid).prog D.env

/-- A run can come to this moment. -/
def Reaches (D : Deployment) (cfg : Snapshot) : Prop := Reach (machine D.env) D.start cfg

end Deployment

/-- The session of this hash is live. -/
def Live (st : Store) (hash : String) : Prop := has st.keys.rt st.now hash = true

/-- An entry of the history that stored a session. -/
inductive Bears : Event → Birth → Prop where
  /-- The entry's command stored it. -/
  | mk {tid : ℕ} {pre : Store} {c : SessionCmd} {r : c.Reply} {b : Birth} :
      SessionCmd.Stores c r b → Bears ⟨tid, pre, .session c, r⟩ b

variable {tid : ℕ} {pre : Store} {e : Event} {b : Birth}

theorem Bears.created {s : NewSession} {r : Unit} :
    Bears ⟨tid, pre, .session (.createSession s), r⟩ s.birth := ⟨.created s⟩

theorem Bears.rotated {a : Rotation} {old : Json} :
    Bears ⟨tid, pre, .session (.refreshRotate a), .rotated old⟩ a.birth := ⟨.rotated a old⟩

theorem Bears.recovered {s : NewSession} : Bears ⟨tid, pre, .session (.recoverGrace s), true⟩ s.birth := ⟨.recovered s⟩

theorem Bears.spends (h : Bears e b) : spends e.ev = some b.hash := by
  obtain ⟨hs⟩ := h
  cases hs <;> rfl

theorem Bears.stores (h : Bears e b) : stores e.ev = some b.hash := by
  obtain ⟨hs⟩ := h
  cases hs <;> rfl

theorem Bears.unique {b' : Birth} (h : Bears e b) (h' : Bears e b') : b = b' := by
  obtain ⟨hs⟩ := h
  obtain ⟨hs'⟩ := h'
  cases hs <;> cases hs' <;> rfl

/-- What the history calls a stored session is one. -/
theorem bears_of_stores {hash : String} (h : stores e.ev = some hash) : ∃ b, Bears e b ∧ b.hash = hash := by
  obtain ⟨tid, pre, op, res⟩ := e
  unfold stores Entry.ev at h
  split at h
  · next s r heq =>
    cases heq
    cases h
    exact ⟨_, .created, rfl⟩
  · next a old heq =>
    cases heq
    cases h
    exact ⟨_, .rotated, rfl⟩
  · next s heq =>
    cases heq
    cases h
    exact ⟨_, .recovered, rfl⟩
  · cases h

/-! ### One step -/

section Step

variable {env : Env} {l : List Event} {c d : Snapshot} {h : String}

theorem moment_session {cmd : SessionCmd} {r : cmd.Reply}
    (hm : Moment (machine env) l ⟨tid, pre, .session cmd, r⟩ c d) :
    r = (cmd.exec pre.now pre.keys).1 ∧ d.st = { pre with keys := (cmd.exec pre.now pre.keys).2 } := by
  obtain ⟨i, hi⟩ := hm.exec
  simp only [machine, Prod.mk.injEq] at hi
  exact ⟨hi.1.symm, hi.2.symm⟩

theorem moment_account {cmd : AccountCmd} {r : cmd.Reply}
    (hm : Moment (machine env) l ⟨tid, pre, .account cmd, r⟩ c d) : cmd.exec pre = (r, d.st) := by
  obtain ⟨i, hi⟩ := hm.exec
  exact hi

theorem moment_host {cmd : HostCmd} {r : cmd.Reply} (hm : Moment (machine env) l ⟨tid, pre, .host cmd, r⟩ c d) :
    ∃ i, cmd.exec pre i = (r, d.st) := hm.exec

theorem moment_mfa {cmd : MfaCmd} {r : cmd.Reply} (hm : Moment (machine env) l ⟨tid, pre, .mfa cmd, r⟩ c d) :
    cmd.exec pre = (r, d.st) := by
  obtain ⟨i, hi⟩ := hm.exec
  exact hi

theorem moment_now (hm : Moment (machine env) l e c d) : d.st.now = c.st.now := by
  obtain ⟨i, hi⟩ := hm.exec
  rw [hm.st₁, ← machine_now env e.pre e.op i, hi]

/-- Only the session commands touch the session keys. -/
theorem moment_keys (hm : Moment (machine env) l e c d) (he : ∀ cmd, e.op ≠ .session cmd) : d.st.keys = c.st.keys := by
  rw [hm.st₁]
  obtain ⟨tid, pre, op, r⟩ := e
  cases op with
  | session cmd => exact absurd rfl (he cmd)
  | account cmd =>
    have h := moment_account hm
    cases cmd <;> exact (congrArg (fun p => p.2.keys) h).symm
  | host cmd =>
    obtain ⟨i, h⟩ := moment_host hm
    cases cmd <;> exact (congrArg (fun p => p.2.keys) h).symm
  | mfa cmd =>
    have h := moment_mfa hm
    cases cmd <;> exact (congrArg (fun p => p.2.keys) h).symm

/-- A record that is there after a step was stored by it, or was there before. -/
theorem rt_of_moment (hm : Moment (machine env) l e c d) {cell : Cell Json} (hk : d.st.keys.rt h = some cell) :
    (∃ b, Bears e b ∧ b.hash = h ∧ cell = ⟨b.record, some (e.pre.now + b.ttl)⟩) ∨ c.st.keys.rt h = some cell := by
  obtain ⟨tid, pre, op, r⟩ := e
  cases op with
  | session cmd =>
    obtain ⟨rfl, hd⟩ := moment_session hm
    rw [hd] at hk
    rcases SessionCmd.rt_of_exec hk with ⟨b, hb, rfl, rfl⟩ | hk
    · exact .inl ⟨b, ⟨hb⟩, rfl, rfl⟩
    · rw [hm.st₁]
      exact .inr hk
  | _ => exact .inr (moment_keys hm (by simp) ▸ hk)

theorem live_iff {st : Store} : Live st h ↔ ∃ cell, st.keys.rt h = some cell ∧ cell.live st.now = true := has_iff

/-- A session that is live after a step was stored by it, or was live before. -/
theorem live_of_moment (hm : Moment (machine env) l e c d) (hl : Live d.st h) :
    (∃ b, Bears e b ∧ b.hash = h) ∨ Live c.st h := by
  obtain ⟨cell, hk, hc⟩ := live_iff.mp hl
  rcases rt_of_moment hm hk with ⟨b, hb, rfl, -⟩ | hk
  · exact .inl ⟨b, hb, rfl⟩
  · exact .inr (live_iff.mpr ⟨cell, hk, moment_now hm ▸ hc⟩)

end Step

/-! ### Many steps -/

section Steps

variable {env : Env} {c d : Snapshot}

theorem now_le_of_reach (h : Reach (machine env) c d) : c.st.now ≤ d.st.now := by
  induction h with
  | refl => exact Nat.le_refl _
  | tail _ hs ih =>
    cases hs with
    | pass i => exact Nat.le_trans ih (Nat.le_add_right _ _)
    | «by» tid hs =>
      obtain ⟨e, -, hm⟩ := hs.moment
      rw [moment_now hm]
      exact ih

/-- A session that is live was live before, or was stored in between. -/
theorem live_of_reach (h : Reach (machine env) c d) {hash : String} (hl : Live d.st hash) :
    Live c.st hash ∨ ∃ l, d.log = c.log ++ l ∧ ∃ e ∈ l, ∃ b, Bears e b ∧ b.hash = hash := by
  induction h with
  | refl => exact .inl hl
  | @tail x y _ hs ih =>
    cases hs with
    | pass i =>
      refine ih ?_
      obtain ⟨cell, hk, hc⟩ := live_iff.mp hl
      exact live_iff.mpr ⟨cell, hk, Cell.live_of_le hc (Nat.le_add_right _ _)⟩
    | «by» tid hs =>
      obtain ⟨e, -, hm⟩ := hs.moment
      rcases live_of_moment hm hl with ⟨b, hb, hbh⟩ | hx
      · obtain ⟨l, hlog⟩ := Reach.log_prefix ‹Reach (machine env) c x›
        exact .inr ⟨l ++ [e], by rw [hm.log₂, ← hlog, append_assoc], e, by simp, b, hb, hbh⟩
      · rcases ih hx with hc | ⟨l, hlog, e', he', b, hb, hbh⟩
        · exact .inl hc
        · exact .inr ⟨l ++ [e], by rw [hm.log₂, hlog, append_assoc], e', mem_append_left _ he', b, hb, hbh⟩

end Steps

/-! ### The history of a run -/

namespace Deployment

variable {D : Deployment} {cfg d : Snapshot} {e' : Event} {l₁ l₂ : List Event} {hash : String}
  (Inv : Store → List Event → Prop)

/-- The induction over the runs of a deployment. -/
theorem Reaches.invariant (h₀ : Inv (Store.initial D.now D.users) [])
    (hop : ∀ (c d : Snapshot) (e : Event), D.Reaches c → Inv c.st c.log →
      Moment (machine D.env) c.log e c d → Inv d.st (c.log ++ [e]))
    (hpass : ∀ st log i, Inv st log → Inv ((machine D.env).pass st i) log) (h : D.Reaches cfg) :
    Inv cfg.st cfg.log := reach_invariant Inv h₀ hop hpass h

/-- The induction over the rest of a run, from a moment `d` of it on. -/
theorem Reaches.keeps (hd : D.Reaches d) (h₀ : Inv d.st d.log)
    (hop : ∀ (c c' : Snapshot) (e : Event), D.Reaches c → Reach (machine D.env) d c →
      Inv c.st c.log → Moment (machine D.env) c.log e c c' → Inv c'.st (c.log ++ [e]))
    (hpass : ∀ st log i, Inv st log → Inv ((machine D.env).pass st i) log) (h : Reach (machine D.env) d cfg) :
    Inv cfg.st cfg.log := reach_keeps Inv hd h₀ hop hpass h

/-- The induction over what has come since a moment `d`. -/
theorem Reaches.after (hd : D.Reaches d) (h₀ : Inv d.st [])
    (hop : ∀ (c c' : Snapshot) (x : Event) (l : List Event), D.Reaches c → c.log = d.log ++ l →
      Inv c.st l → Moment (machine D.env) c.log x c c' → Inv c'.st (l ++ [x]))
    (hpass : ∀ st l i, Inv st l → Inv ((machine D.env).pass st i) l) (h : Reach (machine D.env) d cfg)
    {l : List Event} (hl : cfg.log = d.log ++ l) : Inv cfg.st l := reach_after Inv hd h₀ hop hpass h hl

/-- The induction over what has come since an entry. -/
theorem Reaches.since (h : D.Reaches cfg) (hl : cfg.log = l₁ ++ e :: l₂)
    (h₀ : ∀ c d : Snapshot, D.Reaches c → Moment (machine D.env) l₁ e c d → Inv d.st [])
    (hop : ∀ (c d : Snapshot) (x : Event) (l : List Event), D.Reaches c → c.log = l₁ ++ e :: l →
      Inv c.st l → Moment (machine D.env) c.log x c d → Inv d.st (l ++ [x]))
    (hpass : ∀ st l i, Inv st l → Inv ((machine D.env).pass st i) l) : Inv cfg.st l₂ :=
  reach_since Inv h hl h₀ hop hpass

theorem Reaches.at_entry (h : D.Reaches cfg) (hl : cfg.log = l₁ ++ e :: l₂) :
    ∃ c d, D.Reaches c ∧ Moment (machine D.env) l₁ e c d ∧ Reach (machine D.env) d cfg :=
  Reach.at_entry h hl

theorem Reaches.at_mem (h : D.Reaches cfg) (he : e ∈ cfg.log) :
    ∃ c d, D.Reaches c ∧ Moment (machine D.env) c.log e c d ∧ Reach (machine D.env) d cfg :=
  Reach.at_mem h he

/-- The moment after an entry is one of the run. -/
theorem Reaches.next {c : Snapshot} (h : D.Reaches c) {l : List Event} (hm : Moment (machine D.env) l e c d) :
    D.Reaches d := Relation.ReflTransGen.tail h (.by _ hm.step)

namespace Reaches

variable (h : D.Reaches cfg)
include h

theorem pre_now_le (he : e ∈ cfg.log) : e.pre.now ≤ cfg.st.now := by
  obtain ⟨c, d, -, hm, hd⟩ := h.at_mem he
  have hle := now_le_of_reach hd
  rw [moment_now hm, hm.st₁] at hle
  exact hle

/-- Every entry is a command its handler was allowed to issue. -/
theorem obeys (hl : cfg.log = l₁ ++ e :: l₂) : Obeys D.env (localTrace e.tid l₁) e.op :=
  reach_issues (I := fun _ => Obeys D.env) (Q := fun _ _ _ => True) (fun _ => flow_obeys _) h hl

/-- What a call's answer says about its handler's exchanges is so of its part of the history. -/
theorem answered {a : Answer} (hp : cfg.pool tid = .ret (.ok a)) :
    (D.flows tid).Answered D.env (localTrace tid cfg.log) a := by
  have hpath := reach_path h tid
  rw [hp] at hpath
  exact Wp.ends (act_returns (D.flows tid)) hpath a rfl

/-- A refresh token's hash is used for one session at most, and was minted before. -/
theorem freshHashes : FreshLog (mints D.env) spends cfg.log := by
  refine reach_freshLog (I := fun _ => Obeys D.env) (Q := fun _ _ _ => True) ?_ ?_
    (fun _ => flow_obeys _) h
  · intro log e v ha hv
    obtain ⟨tid, pre, op, r⟩ := e
    unfold mints Entry.ev at hv
    split at hv
    · next raw heq =>
      cases heq
      cases hv
      simp only [machine, admits, and_eq_true, not_eq_true', contains_eq_mem, decide_eq_false_iff_not] at ha
      exact ha.1.2
    · cases hv
  · intro tid tr c r v hI hv
    unfold spends at hv
    split at hv
    · next s _ heq =>
      cases heq
      cases hv
      exact hI.hash
    · next a _ heq =>
      cases heq
      cases hv
      exact hI.hash
    · next s _ heq =>
      cases heq
      cases hv
      exact hI.hash
    · cases hv

/-- A family id is used for one login at most. -/
theorem freshFamilies : FreshLog draws opens cfg.log := by
  refine reach_freshLog (I := fun _ => Obeys D.env) (Q := fun _ _ _ => True) ?_ ?_
    (fun _ => flow_obeys _) h
  · intro log e v ha hv
    obtain ⟨tid, pre, op, r⟩ := e
    unfold draws Entry.ev at hv
    split at hv
    · next uuid heq =>
      cases heq
      cases hv
      simp only [machine, admits, and_eq_true, not_eq_true', contains_eq_mem, decide_eq_false_iff_not] at ha
      exact ha.2
    · cases hv
  · intro tid tr c r v hI hv
    unfold opens at hv
    split at hv
    · next s _ heq =>
      cases heq
      cases hv
      exact hI.family
    · cases hv

/-- What is stored under a hash is what the command that stored it put there. -/
theorem born_of_rt {cell : Cell Json} (hk : cfg.st.keys.rt hash = some cell) :
    ∃ e ∈ cfg.log, ∃ b, Bears e b ∧ b.hash = hash ∧ cell = ⟨b.record, some (e.pre.now + b.ttl)⟩ := by
  exact reach_written (H := fun st => st.keys.rt hash = some cell) h hk nofun (fun _ _ => id) fun _ _ _ _ hm =>
    rt_of_moment hm

theorem birth_unique {b' : Birth} (he : e ∈ cfg.log) (he' : e' ∈ cfg.log)
    (hb : Bears e b) (hb' : Bears e' b') (heq : b.hash = b'.hash) : e = e' ∧ b = b' := by
  have hee : e = e' := h.freshHashes.eq_of_spend he he' hb.spends (heq ▸ hb'.spends)
  subst hee
  exact ⟨rfl, hb.unique hb'⟩

theorem not_born_again (hl : cfg.log = l₁ ++ l₂) {b' : Birth} (he : e ∈ l₁)
    (he' : e' ∈ l₂) (hb : Bears e b) (hb' : Bears e' b') : b'.hash ≠ b.hash := by
  intro heq
  have hf := h.freshHashes
  rw [hl] at hf
  exact hf.not_spent_again he he' hb.spends (heq ▸ hb'.spends)

/-- A session that was stored and is not live is not live later. -/
theorem dead_of_reach {c : Snapshot} (hc : Reach (machine D.env) c cfg) (he : e ∈ c.log)
    (hb : Bears e b) (hdead : ¬ Live c.st b.hash) : ¬ Live cfg.st b.hash := by
  intro hl
  rcases live_of_reach hc hl with hl | ⟨l, hlog, e', he', b', hb', heq⟩
  · exact hdead hl
  · exact h.not_born_again hlog he he' hb hb' heq

/-- A token is minted only while its hash is new to the clients as well. -/
theorem not_presented (hl : cfg.log = l₁ ++ e :: l₂)
    (hmint : mints D.env e.ev = some hash) (he' : e' ∈ l₁) : presents e'.ev ≠ some hash := by
  intro hp
  obtain ⟨c, d, -, hm, -⟩ := h.at_entry hl
  have ha := hm.admits
  obtain ⟨tid, pre, op, r⟩ := e
  unfold mints Entry.ev at hmint
  split at hmint
  · next raw heq =>
    cases heq
    cases hmint
    simp only [machine, admits, and_eq_true, not_eq_true', contains_eq_mem, decide_eq_false_iff_not] at ha
    exact ha.2 (mem_filterMap.mpr ⟨e', he', hp⟩)
  · cases hmint

/-- A token that is presented is one that was stored before, or one that is never stored. -/
theorem presented (hl : cfg.log = l₁ ++ e :: l₂) (hp : presents e.ev = some hash) :
    (∃ e' ∈ l₁, ∃ b, Bears e' b ∧ b.hash = hash) ∨ ∀ e' ∈ cfg.log, ∀ b, Bears e' b → b.hash ≠ hash := by
  obtain ⟨c, d, -, hm, -⟩ := h.at_entry hl
  have ha := hm.admits
  obtain ⟨tid, pre, op, r⟩ := e
  unfold presents Entry.ev at hp
  split at hp
  · next x r' heq =>
    cases heq
    cases hp
    simp only [machine, admits, or_eq_true, not_eq_true', contains_eq_mem,
      decide_eq_true_eq, decide_eq_false_iff_not] at ha
    rcases ha with ha | ha
    · obtain ⟨e', he', hs⟩ := mem_filterMap.mp ha
      obtain ⟨b, hb, hbh⟩ := bears_of_stores hs
      exact .inl ⟨e', he', b, hb, hbh⟩
    · refine .inr fun e' he' b hb hbh => ?_
      -- A stored hash was minted: not before the presentation, not by it, and not after it either.
      have hmint := h.freshHashes.spent_minted _ (mem_filterMap.mpr ⟨e', he', hb.spends⟩)
      obtain ⟨m, hmlog, hmm⟩ := mem_filterMap.mp hmint
      rw [hbh] at hmm
      rw [hl, mem_append, mem_cons] at hmlog
      rcases hmlog with hm₁ | rfl | hm₂
      · exact ha (mem_filterMap.mpr ⟨m, hm₁, hmm⟩)
      · cases hmm
      · obtain ⟨m₁, m₂, rfl⟩ := append_of_mem hm₂
        rw [← cons_append, ← append_assoc] at hl
        exact h.not_presented hl hmm (mem_append_right l₁ mem_cons_self) rfl
  · cases hp

theorem born_of_live (hl : Live cfg.st hash) : ∃ e ∈ cfg.log, ∃ b, Bears e b ∧ b.hash = hash := by
  obtain ⟨cell, hk, -⟩ := live_iff.mp hl
  obtain ⟨e, he, b, hb, hbh, -⟩ := h.born_of_rt hk
  exact ⟨e, he, b, hb, hbh⟩

/-- A session that was stored, and under whose hash nothing was found, is dead for good. -/
theorem dead_of_unread {pre : Store}
    (hl : cfg.log = l₁ ++ ⟨tid, pre, .session (.getRt b.hash), none⟩ :: l₂) (he : e ∈ l₁) (hb : Bears e b) :
    ¬ Live cfg.st b.hash := by
  obtain ⟨c, d, -, hm, hd⟩ := h.at_entry hl
  obtain ⟨hr, hst⟩ := moment_session hm
  refine h.dead_of_reach hd (by rw [hm.log₂]; exact mem_append_left _ he) hb ?_
  rw [hst]
  intro hlv
  have hsome := has_eq_isSome_get pre.keys.rt pre.now b.hash
  rw [show has pre.keys.rt pre.now b.hash = true from hlv] at hsome
  rw [← show none = get pre.keys.rt pre.now b.hash from hr] at hsome
  cases hsome

/-- A token that was presented, and under whose hash nothing was found, is dead for good. -/
theorem dead_of_missed {pre : Store}
    (hl : cfg.log = l₁ ++ ⟨tid, pre, .session (.getRt hash), none⟩ :: l₂) (he : e ∈ l₁)
    (hp : presents e.ev = some hash) : ¬ Live cfg.st hash := by
  intro hlive
  obtain ⟨m₁, m₂, rfl⟩ := append_of_mem he
  have hl' := hl
  rw [append_assoc, cons_append] at hl'
  rcases h.presented hl' hp with ⟨e', he', b, hb, rfl⟩ | hnever
  · exact h.dead_of_unread hl (mem_append_left _ he') hb hlive
  · obtain ⟨e', he', b, hb, hbh⟩ := h.born_of_live hlive
    exact hnever e' he' b hb hbh

end Reaches

end Deployment

/-! ### Executing a run -/

/-- A schedule that can be executed to a moment with the property `p` is a run to such a moment. -/
theorem reaches_of_run (D : Deployment) (moves : List (Move Input)) (p : Snapshot → Prop) [DecidablePred p]
    (h : (run (machine D.env) D.start moves).any (fun cfg => p cfg) = true) : ∃ cfg, D.Reaches cfg ∧ p cfg :=
  exists_reach h fun _ _ => id

theorem exists_reaches {D : Deployment} {P : Snapshot → Prop} (moves : List (Move Input)) (p : Snapshot → Prop)
    [DecidablePred p] (h : (run (machine D.env) D.start moves).any (fun cfg => p cfg) = true)
    (hP : ∀ cfg, D.Reaches cfg → p cfg → P cfg) : ∃ cfg, D.Reaches cfg ∧ P cfg :=
  exists_reach h hP

/-- The tokens a handler was answered with. -/
def tokensOf (cfg : Snapshot) (tid : ℕ) : Option RotatedTokens :=
  match cfg.pool tid with
  | .ret (.ok (.tokens rotated)) => some rotated
  | _ => none

theorem pool_of_tokensOf {cfg : Snapshot} {tid : ℕ} {rotated : RotatedTokens} (h : tokensOf cfg tid = some rotated) :
    cfg.pool tid = .ret (.ok (.tokens rotated)) := by
  unfold tokensOf at h
  split at h
  · next heq =>
    cases h
    exact heq
  · cases h

/-! A small deployment on which schedules can be executed: one dashboard plane, one account, hashes that
are the texts themselves, and a table of the few instants the schedules need. -/

namespace Demo

/-- Three instants: the start, ten seconds later, and thirty days later. -/
def instants : List (ℤ × String) :=
  [(0, "1970-01-01T00:00:00Z"), (10000000000, "1970-01-01T00:00:10Z"), (2592000000000000, "1970-01-31T00:00:00Z")]

/-- A seven-day refresh lifetime with the default grace window, and no cap. -/
def config : Config where
  accessTtl := 900
  refreshDays := 7
  graceTtl := 30
  absoluteLifetimeSecs := 0
  emailVerificationRequired := true
  blockedStatuses := ["BANNED"]
  maxAttempts := 5
  lockoutWindow := 900
  sessionsEnabled := false
  defaultMaxSessions := 5
  refresh_pos := by decide
  grace_lt := by decide
  grace_le := by decide
  access_le := by decide

/-- Secrets and ciphertexts that are the texts themselves under the one key; a secret is its own code. -/
def mfaSettings : MfaSettings where
  encryptionKey := "k1"
  previousEncryptionKeys := []
  aeadDecrypt := fun wire key => if key = "k1" then some wire else none
  encodeSecretBase32 := id
  decodeSecretBase32 := some
  decode_encode := fun _ => rfl
  codesToJson := fun codes => codes.headD ""
  codesOfJson := fun json => some [json]
  provisioningUri := fun secret email => secret ++ email
  totpVerify := fun secret code _ _ => code = secret
  totpWindow := 1
  recoveryCodeCount := 1
  previousIdentifierHmacs := []

/-- The dashboard plane of the deployment. -/
def env : Env where
  kind := .dashboard
  config := config
  codec := Rfc3339.ofTable instants (by decide)
  redisHash := id
  identifierHmac := id
  jtiHash := id
  normalizeSessionMetadata := fun userAgent ip => (userAgent, ip)
  normalizeEmail := id
  verifyPassword := fun password phc => password = phc
  maxSessionsResolver := none
  mfa := mfaSettings

/-- The account. -/
def alice : AuthUser :=
  { id := "u1", tenantId := "t1", email := "a@example.com", passwordHash := some "pw",
    role := "MEMBER", status := "active", emailVerified := true, mfaEnabled := false,
    id_ne := by decide }

/-- The account's index. -/
def subject : String := env.subjectHash (some "t1") "u1"

/-- A raw token: 64 times the same digit. -/
def token (c : Char) : String := String.ofList (List.replicate 64 c)

/-- An input at the start of a second, with this token and this UUID. -/
def input (raw uuid : String) : Input :=
  { raw, uuid, phc := "new-pw", accepts := true, nanos := 0, secs := 0, users := [alice] }

/-- The deployment with these calls. -/
def deployment (flows : List Flow) : Deployment :=
  { env, now := 0, users := [alice], flows := fun tid => flows.getD tid (.list "" "") }

/-- The account with a second factor: its secret, and the digest of one recovery code. -/
def guarded : AuthUser :=
  { alice with mfaEnabled := true, mfaSecret := some "123456", mfaRecoveryCodes := some ["rc"] }

/-- The deployment with these calls, whose account has a second factor. -/
def guardedDeployment (flows : List Flow) : Deployment := { deployment flows with users := [guarded] }

/-- The challenge token a login of the account gets, if it draws this id. -/
def challengeToken (jti : String) : MfaTempClaims :=
  { sub := "u1", jti, context := .dashboard, tenantId := some "t1", epoch := 0, iat := 0, exp := 300 }

/-- The next `n` commands of handler `tid`. It draws one token, and the UUIDs it needs, by position. -/
def acts (tid n : ℕ) (raw : String) (uuids : List String) : List (Move Input) :=
  (List.range n).map fun i => .act tid (input raw (uuids.getD i ""))

/-- Handler 0 issues a session: its token, the id of its access token and its family. -/
def firstIssue : List (Move Input) := acts 0 8 (token 'a') ["", "", "", "j0", "", "f0"]

/-- So many seconds pass. -/
def waits (secs : ℕ) : List (Move Input) := [.wait { input "" "" with secs }]

end Demo

end BymaxAuth
