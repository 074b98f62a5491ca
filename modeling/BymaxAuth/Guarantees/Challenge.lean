import BymaxAuth.Mfa.Challenge
import BymaxAuth.History.Run

/-!
# One challenge token, one session

A challenge token is a marker under the hash of its id, stored by the login that issued it. Any number of
challenges may present it, with any codes. Two different ways of consuming it compete for the one marker: the
fused script that marks a TOTP code and deletes the marker, and the deletion that follows the claim of a
recovery code.

## The model

An id is drawn once, and its hash names the marker. That no two ids that were drawn have one hash is asked of
the run (`CollisionFree`).
-/

namespace BymaxAuth

open Redis Concurrency List Bool

/-- No two ids that were drawn have one hash. -/
def CollisionFree (env : Env) (log : List Event) : Prop := (minted (Exchange.names env) log).Nodup
deriving Decidable

theorem CollisionFree.left {env : Env} {l l' : List Event} (h : CollisionFree env (l ++ l')) :
    CollisionFree env l := by
  unfold CollisionFree minted at h
  rw [filterMap_append, nodup_append] at h
  exact h.1

/-! ### One step -/

/-- What an entry can do to the marker of a hash; `after` is the store it leaves. -/
inductive MarkerStep (hash : String) (e : Event) (after : Store) : Prop where
  /-- A login stores it. -/
  | planted {user : String} {ttl : ℕ} : e.op = .account (.putTemp hash user ttl) →
      after.mfa hash = some ⟨user, some (e.pre.now + ttl)⟩ → MarkerStep hash e after
  /-- A challenge consumes it. -/
  | consumed : consumesMarker hash e.ev = true → has e.pre.mfa e.pre.now hash = true →
      after.mfa hash = none → MarkerStep hash e after
  /-- One that has expired is deleted. -/
  | dropped : consumesMarker hash e.ev = false → has e.pre.mfa e.pre.now hash = false →
      after.mfa hash = none → MarkerStep hash e after
  /-- It stays as it is. -/
  | kept : consumesMarker hash e.ev = false → after.mfa hash = e.pre.mfa hash → MarkerStep hash e after

section Step

variable {env : Env} {l : List Event} {c d : Snapshot} {hash : String}

theorem marker_of_moment (hash : String) {e : Event} (hm : Moment (machine env) l e c d) : MarkerStep hash e d.st := by
  obtain ⟨tid, pre, op, r⟩ := e
  cases op with
  | session cmd => exact .kept rfl (by rw [(moment_session hm).2])
  | host cmd =>
    obtain ⟨i, h⟩ := moment_host hm
    refine .kept rfl ?_
    cases cmd <;> exact congrArg (fun p => p.2.mfa hash) h.symm
  | account cmd =>
    have h := congrArg (fun p => p.2.mfa hash) (moment_account hm)
    cases cmd with
    | putTemp hash' user ttl =>
      by_cases hh : hash' = hash
      · subst hh
        exact .planted rfl (h.symm.trans (setEx_self _ _ _ _ _))
      · exact .kept rfl (h.symm.trans (setEx_of_ne _ _ _ _ (Ne.symm hh)))
    | _ => exact .kept rfl h.symm
  | mfa cmd =>
    have h := moment_mfa hm
    have hmfa := congrArg (fun p => p.2.mfa hash) h
    cases cmd with
    | challengeConsume replayId jtiHash ttl =>
      have hr : (mfaChallenge pre.now pre.mfaKeys.tu pre.mfa replayId jtiHash ttl).1 = r := congrArg Prod.fst h
      have hd : (mfaChallenge pre.now pre.mfaKeys.tu pre.mfa replayId jtiHash ttl).2.2 hash = d.st.mfa hash := hmfa
      obtain ⟨-, hhas, heq⟩ | ⟨-, -, heq⟩ | ⟨-, heq⟩ :=
        mfaChallenge_cases pre.now pre.mfaKeys.tu pre.mfa replayId jtiHash ttl
      · rw [heq] at hr hd
        subst hr
        by_cases hh : jtiHash = hash
        · subst hh
          exact .consumed (decide_eq_true rfl) hhas (hd.symm.trans (del_self _ _))
        · exact .kept (decide_eq_false hh) (hd.symm.trans (del_of_ne _ (Ne.symm hh)))
      · rw [heq] at hr hd
        subst hr
        exact .kept rfl hd.symm
      · rw [heq] at hr hd
        subst hr
        exact .kept rfl hd.symm
    | delTemp jtiHash =>
      have hr : has pre.mfa pre.now jtiHash = r := congrArg Prod.fst h
      subst hr
      by_cases hh : jtiHash = hash
      · subst hh
        have hnone : d.st.mfa jtiHash = none := hmfa.symm.trans (del_self _ _)
        cases hhas : has pre.mfa pre.now jtiHash with
        | true => exact .consumed (decide_eq_true rfl) hhas hnone
        | false => exact .dropped rfl hhas hnone
      · refine .kept ?_ (hmfa.symm.trans (del_of_ne _ (Ne.symm hh)))
        cases has pre.mfa pre.now jtiHash with
        | true => exact decide_eq_false hh
        | false => rfl
    | _ => exact .kept rfl hmfa.symm

/-- A challenge consumes a marker that is there. -/
theorem consumed_of_moment {e : Event} (hm : Moment (machine env) l e c d) (he : consumesMarker hash e.ev = true) :
    has c.st.mfa c.st.now hash = true ∧ d.st.mfa hash = none := by
  cases marker_of_moment hash hm with
  | planted hop _ =>
    obtain ⟨tid, pre, op, r⟩ := e
    cases hop
    cases he
  | consumed _ hhas hafter =>
    rw [hm.st₁]
    exact ⟨hhas, hafter⟩
  | dropped hno _ _ | kept hno _ =>
    rw [hno] at he
    cases he

/-- Whether an exchange marked a code as used. -/
def marksUsed (replayId : String) (ev : Exchange) : Bool :=
  match ev with
  | ⟨.mfa (.markTotpUsed id _), true⟩ => id = replayId
  | ⟨.mfa (.challengeConsume id _ _), true⟩ => id = replayId
  | _ => false

/-- A code that is not marked is marked by an entry that says so. -/
theorem unmarked_of_moment {e : Event} {replayId : String} (hm : Moment (machine env) l e c d)
    (he : marksUsed replayId e.ev = false) (hc : c.st.mfaKeys.tu replayId = none) :
    d.st.mfaKeys.tu replayId = none := by
  rw [hm.st₁] at hc
  obtain ⟨tid, pre, op, r⟩ := e
  cases op with
  | session cmd => rwa [(moment_session hm).2]
  | host cmd =>
    obtain ⟨i, h⟩ := moment_host hm
    cases cmd <;> exact (congrArg (fun p => p.2.mfaKeys.tu replayId) h.symm).trans hc
  | account cmd =>
    have h := moment_account hm
    cases cmd <;> exact (congrArg (fun p => p.2.mfaKeys.tu replayId) h.symm).trans hc
  | mfa cmd =>
    have h := moment_mfa hm
    have htu := congrArg (fun p => p.2.mfaKeys.tu replayId) h
    cases cmd with
    | markTotpUsed id ttl =>
      have hr : (setNx pre.mfaKeys.tu pre.now id () ttl).1 = r := congrArg Prod.fst h
      have hd : (setNx pre.mfaKeys.tu pre.now id () ttl).2 replayId = d.st.mfaKeys.tu replayId := htu
      cases hhas : has pre.mfaKeys.tu pre.now id with
      | true =>
        rw [setNx_of_has hhas] at hd
        exact hd.symm.trans hc
      | false =>
        rw [setNx_of_not_has hhas] at hr hd
        subst hr
        have hne : id ≠ replayId := of_decide_eq_false he
        exact hd.symm.trans ((setEx_of_ne _ _ _ _ hne.symm).trans hc)
    | challengeConsume id jtiHash ttl =>
      have hr : (mfaChallenge pre.now pre.mfaKeys.tu pre.mfa id jtiHash ttl).1 = r := congrArg Prod.fst h
      have hd : (mfaChallenge pre.now pre.mfaKeys.tu pre.mfa id jtiHash ttl).2.1 replayId =
        d.st.mfaKeys.tu replayId := htu
      obtain ⟨-, -, heq⟩ | ⟨-, -, heq⟩ | ⟨-, heq⟩ :=
        mfaChallenge_cases pre.now pre.mfaKeys.tu pre.mfa id jtiHash ttl
      · rw [heq] at hr hd
        subst hr
        have hne : id ≠ replayId := of_decide_eq_false he
        exact hd.symm.trans ((setEx_of_ne _ _ _ _ hne.symm).trans hc)
      · rw [heq] at hd
        by_cases hid : replayId = id
        · rw [hid] at hd ⊢
          exact hd.symm.trans (del_self _ _)
        · exact hd.symm.trans ((del_of_ne _ hid).trans ((setEx_of_ne _ _ _ _ hid).trans hc))
      · rw [heq] at hd
        exact hd.symm.trans hc
    | _ => exact htu.symm.trans hc

end Step

/-! ### Markers along a run -/

theorem plants_of_put {e : Event} {hash user : String} {ttl : ℕ} (h : e.op = .account (.putTemp hash user ttl)) :
    Exchange.plants e.ev = some hash := by
  obtain ⟨tid, pre, op, r⟩ := e
  cases h
  rfl

namespace Deployment

variable {D : Deployment} {cfg : Snapshot} {l₁ l₂ : List Event} {hash : String}

namespace Reaches

variable (h : D.Reaches cfg)
include h

theorem freshMarkers (hn : CollisionFree D.env cfg.log) : FreshLog (Exchange.names D.env) Exchange.plants cfg.log := by
  refine reach_freshLog_of_nodup (I := fun _ => Obeys D.env) (Q := fun _ _ _ => True) ?_
    (fun _ => flow_obeys _) h hn
  intro tid tr c r v hI hv
  unfold Exchange.plants at hv
  split at hv
  · next hash user ttl _ heq =>
    cases heq
    cases hv
    exact hI.1
  · cases hv

/-- A marker is the one a login stored, for five minutes. -/
theorem planted_of_marker {cell : Cell String} (hk : cfg.st.mfa hash = some cell) :
    ∃ p ∈ cfg.log, p.op = .account (.putTemp hash cell.val mfaTempTokenTtlSeconds) ∧
      cell.expireAt = some (p.pre.now + mfaTempTokenTtlSeconds) := by
  refine reach_written (H := fun st => st.mfa hash = some cell) h hk nofun (fun _ _ => id) ?_
  intro c d e hc hm hk
  cases marker_of_moment hash hm with
  | planted hop hafter =>
    rw [hafter] at hk
    cases hk
    have hobeys := (Reaches.next hc hm).obeys hm.log₂
    rw [hop] at hobeys
    obtain rfl := hobeys.2
    exact .inl ⟨hop, rfl⟩
  | consumed _ _ hafter | dropped _ _ hafter =>
    rw [hafter] at hk
    cases hk
  | kept _ hafter => exact .inr (by rw [hm.st₁, ← hafter, hk])

/-- A marker that was consumed does not come back: its hash is used for one. -/
theorem consumed_gone (hn : CollisionFree D.env cfg.log) {e : Event}
    (hl : cfg.log = l₁ ++ e :: l₂) (he : consumesMarker hash e.ev = true) : cfg.st.mfa hash = none := by
  obtain ⟨c₀, d₀, hc₀, hm₀, -⟩ := h.at_entry hl
  obtain ⟨cell, hk, -⟩ := has_iff.mp (consumed_of_moment hm₀ he).1
  obtain ⟨p, hp, hput, -⟩ := hc₀.planted_of_marker hk
  rw [hm₀.log₁] at hp
  refine h.since (fun st l => CollisionFree D.env (l₁ ++ e :: l) → st.mfa hash = none) hl ?_ ?_
    (fun _ _ _ ih => ih) (hl ▸ hn)
  · exact fun c d _ hm _ => (consumed_of_moment hm he).2
  · intro c d x l hc hlog ih hm hfree
    rw [← cons_append, ← append_assoc, ← hlog] at hfree
    cases marker_of_moment hash hm with
    | planted hop _ =>
      have hfresh := (hc.next hm).freshMarkers (hm.log₂ ▸ hfree)
      rw [hm.log₂, hlog] at hfresh
      have hx : Exchange.plants x.ev ≠ some hash :=
        hfresh.not_spent_again (e := p) (mem_append_left _ hp) mem_cons_self (plants_of_put hput)
      exact absurd (plants_of_put hop) hx
    | consumed _ _ hafter | dropped _ _ hafter => exact hafter
    | kept _ hafter =>
      rw [hafter, ← hm.st₁]
      exact ih (hlog ▸ hfree.left)

/-- A marker is consumed where it was not consumed before. -/
theorem consumed_first (hn : CollisionFree D.env cfg.log) {e e' : Event}
    (hl : cfg.log = l₁ ++ e :: l₂) (he : consumesMarker hash e.ev = true) (he' : e' ∈ l₁) :
    consumesMarker hash e'.ev = false := by
  by_contra hcon
  obtain ⟨c, d, hc, hm, -⟩ := h.at_entry hl
  obtain ⟨m₁, m₂, hl₁⟩ := append_of_mem he'
  rw [hl] at hn
  have hgone := hc.consumed_gone (hm.log₁ ▸ hn.left) (hm.log₁.trans hl₁) (by simpa using hcon)
  obtain ⟨cell, hk, -⟩ := has_iff.mp (consumed_of_moment hm he).1
  rw [hgone] at hk
  cases hk

theorem consumed_unique (hn : CollisionFree D.env cfg.log) {e e' : Event}
    (he : e ∈ cfg.log) (he' : e' ∈ cfg.log) (hc : consumesMarker hash e.ev = true)
    (hc' : consumesMarker hash e'.ev = true) : e = e' := by
  rcases eq_or_before he he' with heq | ⟨l₁, l₂, hl, hbefore⟩ | ⟨l₁, l₂, hl, hbefore⟩
  · exact heq
  · rw [h.consumed_first hn hl hc hbefore] at hc'
    cases hc'
  · rw [h.consumed_first hn hl hc' hbefore] at hc
    cases hc

end Reaches

/-- A marker that nobody consumes stays until it expires. -/
theorem Reaches.marker_stays {c : Snapshot} (hc : D.Reaches c) (hreach : Reach (machine D.env) c cfg)
    (hn : CollisionFree D.env cfg.log) {l : List Event} (hl : cfg.log = c.log ++ l) {cell : Cell String}
    (hk : c.st.mfa hash = some cell) (hnone : ∀ x ∈ l, consumesMarker hash x.ev = false)
    (hlive : cell.live cfg.st.now = true) : cfg.st.mfa hash = some cell := by
  obtain ⟨p, hp, hput, -⟩ := hc.planted_of_marker hk
  refine hc.after (fun st l => CollisionFree D.env (c.log ++ l) → (∀ x ∈ l, consumesMarker hash x.ev = false) →
    cell.live st.now = true → st.mfa hash = some cell) (fun _ _ _ => hk) ?_ ?_ hreach hl (hl ▸ hn) hnone hlive
  · intro c₁ d₁ x l hc₁ hlog ih hm hfree hnone hlive
    rw [← append_assoc, ← hlog] at hfree
    rw [moment_now hm] at hlive
    have hstays : x.pre.mfa hash = some cell := by
      rw [← hm.st₁]
      exact ih (hlog ▸ hfree.left) (fun y hy => hnone y (mem_append_left _ hy)) hlive
    cases marker_of_moment hash hm with
    | planted hop _ =>
      have hfresh := (hc₁.next hm).freshMarkers (hm.log₂ ▸ hfree)
      rw [hm.log₂, hlog] at hfresh
      have hx : Exchange.plants x.ev ≠ some hash :=
        hfresh.not_spent_again (e := p) (mem_append_left _ hp) mem_cons_self (plants_of_put hput)
      exact absurd (plants_of_put hop) hx
    | consumed hyes _ _ =>
      rw [hnone x (by simp)] at hyes
      cases hyes
    | dropped _ hhas _ =>
      rw [has_iff.mpr ⟨cell, hstays, hm.st₁ ▸ hlive⟩] at hhas
      cases hhas
    | kept _ hafter => exact hafter.trans hstays
  · intro st l i ih hfree hnone hlive
    exact ih hfree hnone (Cell.live_of_le hlive (Nat.le_add_right _ _))

/-- A code whose challenge found the marker gone is left unmarked, and stays so until it is marked. -/
theorem Reaches.unmarked_stays (h : D.Reaches cfg) {tid : ℕ} {pre : Store} {replayId jtiHash : String} {ttl : ℕ}
    (hl : cfg.log = l₁ ++ ⟨tid, pre, .mfa (.challengeConsume replayId jtiHash ttl), false⟩ :: l₂)
    (hunused : has pre.mfaKeys.tu pre.now replayId = false)
    (hnone : ∀ x ∈ l₂, marksUsed replayId x.ev = false) : cfg.st.mfaKeys.tu replayId = none := by
  refine h.since (fun st l => (∀ x ∈ l, marksUsed replayId x.ev = false) → st.mfaKeys.tu replayId = none) hl
    ?_ ?_ (fun _ _ _ ih => ih) hnone
  · intro c d _ hm _
    have h := moment_mfa hm
    have hr : (mfaChallenge pre.now pre.mfaKeys.tu pre.mfa replayId jtiHash ttl).1 = false := congrArg Prod.fst h
    have hd : (mfaChallenge pre.now pre.mfaKeys.tu pre.mfa replayId jtiHash ttl).2.1 replayId =
      d.st.mfaKeys.tu replayId := congrArg (fun p => p.2.mfaKeys.tu replayId) h
    obtain ⟨-, -, heq⟩ | ⟨-, -, heq⟩ | ⟨hused, -⟩ :=
      mfaChallenge_cases pre.now pre.mfaKeys.tu pre.mfa replayId jtiHash ttl
    · rw [heq] at hr
      cases hr
    · rw [heq] at hd
      exact hd.symm.trans (del_self _ _)
    · rw [hunused] at hused
      cases hused
  · intro c d x l _ _ ih hm hnone
    exact unmarked_of_moment hm (hnone x (by simp)) (ih fun y hy => hnone y (mem_append_left _ hy))

end Deployment

/-! ### Sessions for a token -/

/-- Whether a call presents the challenge token of this id. -/
def Flow.presentsChallenge (jti : String) : Flow → Bool
  | .mfa (.challenge _ token _ _ _) => token.jti = jti
  | _ => false

/-- A challenge token is redeemable: its marker is there, and names its account. -/
def Redeemable (env : Env) (st : Store) (token : MfaTempClaims) : Prop :=
  get st.mfa st.now (env.jtiHash token.jti) = some token.sub

/-- Whether an entry is a session stored by a call that presents the challenge token of this id. -/
def Deployment.sessionFor (D : Deployment) (jti : String) (e : Event) : Bool :=
  creates e.op && (D.flows e.tid).presentsChallenge jti

namespace Deployment

variable {D : Deployment} {cfg : Snapshot} {l₁ l₂ : List Event}

namespace Reaches

variable (h : D.Reaches cfg) {expected : Option SessionKind}
include h

/-- A challenge that stores a session has passed before, and stored none before. -/
theorem passed_of_created {e : Event} (hl : cfg.log = l₁ ++ e :: l₂)
    (he : creates e.op = true) {token : MfaTempClaims} {code ip userAgent : String}
    (hflow : D.flows e.tid = .mfa (.challenge expected token code ip userAgent)) :
    (∃ tr₁ user, tr₁ <+: localTrace e.tid l₁ ∧ Passed D.env token code user tr₁) ∧
      Uncreated (localTrace e.tid l₁) := by
  obtain ⟨k, hpath⟩ := reach_path_at h hl
  obtain ⟨tid, pre, op, r⟩ := e
  change D.flows tid = _ at hflow
  change creates op = true at he
  unfold creates at he
  split at he
  · rw [show (D.flows tid).prog D.env = (Flow.mfa (.challenge expected token code ip userAgent)).prog D.env by
      rw [hflow]] at hpath
    obtain ⟨k₁, hpath⟩ := Path.of_map (f := Answer.mfa) hpath
    obtain ⟨k₂, hpath⟩ := Path.of_map (f := MfaAnswer.session) hpath
    obtain ⟨tr₁, user, tr₂, htr, hpassed, hun⟩ := challenge_creates hpath
    exact ⟨⟨tr₁, user, ⟨tr₂, htr.symm⟩, hpassed⟩, hun⟩
  · cases he

/-- Whoever stores a session for a token has consumed its marker, and stored none before. -/
theorem consumed_of_session {jti : String} {e : Event} (hl : cfg.log = l₁ ++ e :: l₂)
    (he : D.sessionFor jti e = true) :
    (∃ x ∈ l₁, x.tid = e.tid ∧ consumesMarker (D.env.jtiHash jti) x.ev = true) ∧ Uncreated (localTrace e.tid l₁) := by
  unfold sessionFor at he
  rw [and_eq_true] at he
  obtain ⟨hcreates, hpresents⟩ := he
  unfold Flow.presentsChallenge at hpresents
  split at hpresents
  · next hflow =>
    obtain ⟨⟨tr₁, user, hpre, hpassed⟩, hun⟩ := h.passed_of_created hl hcreates hflow
    obtain ⟨ev, hev, hconsumes⟩ := hpassed.consumed
    obtain ⟨x, hx, hxt, rfl⟩ := mem_localTrace.mp (hpre.subset hev)
    rw [of_decide_eq_true hpresents] at hconsumes
    exact ⟨⟨x, hx, hxt, hconsumes⟩, hun⟩
  · cases hpresents

theorem session_once (hn : CollisionFree D.env cfg.log) (jti : String) : cfg.log.countP (D.sessionFor jti) ≤ 1 := by
  refine countP_le_one fun l₁ e l₂ hl he e' he' => ?_
  by_contra hcon
  obtain ⟨m₁, m₂, rfl⟩ := append_of_mem he'
  have hl' : cfg.log = m₁ ++ e' :: (m₂ ++ e :: l₂) := by rw [hl, append_assoc, cons_append]
  obtain ⟨⟨x, hx, hxt, hxc⟩, hun⟩ := h.consumed_of_session hl he
  obtain ⟨⟨x', hx', hxt', hxc'⟩, -⟩ := h.consumed_of_session hl' (by simpa using hcon)
  have heq : x = x' := by
    refine h.consumed_unique hn ?_ ?_ hxc hxc'
    · rw [hl]
      exact mem_append_left _ hx
    · rw [hl']
      exact mem_append_left _ hx'
  -- The two sessions are one handler's, which stores one.
  have htid : e'.tid = e.tid := by rw [← hxt', ← heq, hxt]
  have hnot := hun e'.ev (mem_localTrace.mpr ⟨e', he', htid, rfl⟩)
  have hcreates : creates e'.op = true := by
    unfold sessionFor at hcon
    simp only [not_eq_false, and_eq_true] at hcon
    exact hcon.1
  rw [show creates e'.op = false from hnot] at hcreates
  cases hcreates

/-- A call that is answered with an invalid code leaves the token as it is. -/
theorem redeemable_of_invalid (hn : CollisionFree D.env cfg.log) {tid : ℕ} {token : MfaTempClaims}
    {code ip userAgent : String}
    (hflow : D.flows tid = .mfa (.challenge expected token code ip userAgent))
    (hp : cfg.pool tid = .ret (.error .mfaInvalidCode)) :
    ∃ p ∈ cfg.log, p.op = .account (.putTemp (D.env.jtiHash token.jti) token.sub mfaTempTokenTtlSeconds) ∧
      (cfg.st.now < p.pre.now + mfaTempTokenTtlSeconds →
        (∃ x ∈ cfg.log, x.tid ≠ tid ∧ consumesMarker (D.env.jtiHash token.jti) x.ev = true) ∨
          Redeemable D.env cfg.st token) := by
  have hpath := reach_path h tid
  rw [hp, hflow] at hpath
  obtain ⟨hget, hun⟩ := challenge_invalid
    (Path.failed_of_map (f := MfaAnswer.session) (Path.failed_of_map (f := Answer.mfa) hpath))
  obtain ⟨e, he, -, hev⟩ := mem_localTrace.mp hget
  obtain ⟨l₁, l₂, hl⟩ := append_of_mem he
  obtain ⟨c, d, hc, hm, hd⟩ := h.at_entry hl
  obtain ⟨tid', pre, op, r⟩ := e
  cases hev
  have hread : get c.st.mfa c.st.now (D.env.jtiHash token.jti) = some token.sub := by
    rw [hm.st₁]
    exact congrArg Prod.fst (moment_account hm)
  obtain ⟨cell, hk, -, hval⟩ := get_eq_some.mp hread
  obtain ⟨p, hpmem, hput, hexp⟩ := hc.planted_of_marker hk
  rw [hval] at hput
  have hlog := hl
  rw [← hm.log₁] at hlog
  refine ⟨p, hlog ▸ mem_append_left _ hpmem, hput, fun hnow => ?_⟩
  have hlive : cell.live cfg.st.now = true := by
    rw [Cell.live, hexp]
    exact decide_eq_true hnow
  by_cases hother : ∃ x ∈ cfg.log, x.tid ≠ tid ∧ consumesMarker (D.env.jtiHash token.jti) x.ev = true
  · exact .inl hother
  · refine .inr (get_eq_some.mpr ⟨cell, ?_, hlive, hval⟩)
    refine hc.marker_stays (.trans (.single (.by _ hm.step)) hd) hn hlog hk (fun x hx => ?_) hlive
    have hxlog : x ∈ cfg.log := hlog ▸ mem_append_right _ hx
    by_cases ht : x.tid = tid
    · exact hun x.ev (mem_localTrace.mpr ⟨x, hxlog, ht, rfl⟩) _
    · exact eq_false_iff.mpr fun hyes => hother ⟨x, hxlog, ht, hyes⟩

end Reaches

end Deployment

/-- **One challenge token, one session**, whatever the calls that present it, their codes and their order are. A
call that is answered with an invalid code leaves the token redeemable until it expires, unless another call
consumed it. A TOTP code that lost because the token was gone, and not because it had been used, is not marked:
it stays unmarked until another call marks it. -/
theorem challenge_once {D : Deployment} {cfg : Snapshot} (h : D.Reaches cfg) (hn : CollisionFree D.env cfg.log) :
    (∀ jti, cfg.log.countP (D.sessionFor jti) ≤ 1) ∧
    (∀ tid expected token code ip userAgent, D.flows tid = .mfa (.challenge expected token code ip userAgent) →
      cfg.pool tid = .ret (.error .mfaInvalidCode) →
      ∃ p ∈ cfg.log, p.op = .account (.putTemp (D.env.jtiHash token.jti) token.sub mfaTempTokenTtlSeconds) ∧
        (cfg.st.now < p.pre.now + mfaTempTokenTtlSeconds →
          (∃ x ∈ cfg.log, x.tid ≠ tid ∧ consumesMarker (D.env.jtiHash token.jti) x.ev = true) ∨
            Redeemable D.env cfg.st token)) ∧
    (∀ l₁ l₂ tid pre replayId jtiHash ttl,
      cfg.log = l₁ ++ ⟨tid, pre, .mfa (.challengeConsume replayId jtiHash ttl), false⟩ :: l₂ →
      has pre.mfaKeys.tu pre.now replayId = false →
      (∃ x ∈ l₂, marksUsed replayId x.ev = true) ∨ has cfg.st.mfaKeys.tu cfg.st.now replayId = false) := by
  refine ⟨h.session_once hn, ?_, ?_⟩
  · intro tid expected token code ip userAgent hflow hp
    exact h.redeemable_of_invalid hn hflow hp
  · intro l₁ l₂ tid pre replayId jtiHash ttl hl hunused
    by_cases hmarked : ∃ x ∈ l₂, marksUsed replayId x.ev = true
    · exact .inl hmarked
    · have hgone := h.unmarked_stays hl hunused fun x hx =>
        eq_false_iff.mpr fun hyes => hmarked ⟨x, hx, hyes⟩
      refine .inr (eq_false_iff.mpr fun hyes => ?_)
      obtain ⟨cell, hk, -⟩ := has_iff.mp hyes
      rw [hgone] at hk
      cases hk

open Demo

/-- A login, a challenge with a wrong code and one with the right code: the first is answered with an invalid code,
the second stores the one session. -/
theorem challenge_once_retried :
    let D := guardedDeployment [.login "a@example.com" "pw" "t1" "" "",
      .mfa (.challenge none (challengeToken "j0") "000000" "" ""),
      .mfa (.challenge none (challengeToken "j0") "123456" "" "")]
    ∃ cfg, D.Reaches cfg ∧ CollisionFree D.env cfg.log ∧ cfg.pool 1 = .ret (.error .mfaInvalidCode) ∧
      cfg.log.countP (D.sessionFor "j0") = 1 := by
  intro D
  refine exists_reaches (acts 0 8 "" ["", "", "", "", "", "", "j0"] ++ acts 1 7 "" [] ++
    acts 2 8 "" [] ++ acts 2 8 (token 'a') ["", "", "", "j1", "", "f1"])
    (fun cfg => CollisionFree D.env cfg.log ∧ (cfg.pool 1).failed = some .mfaInvalidCode ∧
      1 ≤ cfg.log.countP (D.sessionFor "j0")) (by decide +kernel) fun cfg h ⟨hn, hfailed, hone⟩ => ?_
  exact ⟨hn, Prog.failed_eq_some.mp hfailed, Nat.le_antisymm ((challenge_once h hn).1 "j0") hone⟩

end BymaxAuth
