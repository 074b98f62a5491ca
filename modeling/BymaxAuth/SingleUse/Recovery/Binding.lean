import BymaxAuth.SingleUse.Recovery.Discipline
import BymaxAuth.History.Run

/-!
# Reset proofs and the password they were issued against

Does a reset proof die with the password it was issued against? Over any interleaving of the recovery flows
and of password changes, under the assumptions one would make: digests do not collide, a derived hash is like
no other, and an account's password is the one the engine wrote last (`Passwords`).

A stored proof that carries a fingerprint does. The handler that consumes it looks the account up afterwards
and finds the hash of a later write, and no later write can have the hash of an earlier one.

Two kinds of proof carry no fingerprint. A link or verified token issued for an account that has no password
has the empty one, which `assert_proof_still_bound` lets pass; and a code has none at all. Both survive a
completed reset, or a completed change of the password.
-/

namespace BymaxAuth.SingleUse.Recovery

open Redis Concurrency List Option Function

/-! ### The history of a run -/

variable {e : Event} {kind : ProofKind} {hash : String}

/-- A stored proof that is there after a step was put by it, or was there before. -/
theorem proof_of_moment {env : Env} {l : List Event} {c d : Snapshot} (hm : Moment (machine env) l e c d)
    {cell : Cell ResetContext} (hk : d.st.2.proofs kind hash = some cell) :
    (∃ ttl, e.op = .inr (.putProof kind hash cell.val ttl)) ∨ c.st.2.proofs kind hash = some cell := by
  rw [hm.st₁]
  obtain ⟨tid, pre, op, r⟩ := e
  cases op with
  | inl cmd =>
    rw [(moment_left hm).2] at hk
    exact .inr hk
  | inr cmd =>
    obtain ⟨i, hi⟩ := moment_right hm
    rw [← show (Cmd.exec pre cmd i).2 = d.st from congrArg Prod.snd hi] at hk
    -- Only the three commands on the proofs touch them, and each touches one kind.
    have hupdate : ∀ kind' keys, update pre.2.proofs kind' keys kind hash = some cell →
        (kind' = kind ∧ keys hash = some cell) ∨ pre.2.proofs kind hash = some cell := by
      intro kind' keys hk
      by_cases hkind : kind = kind'
      · subst hkind
        rw [update_self] at hk
        exact .inl ⟨rfl, hk⟩
      · rw [update_of_ne hkind] at hk
        exact .inr hk
    cases cmd with
    | putProof kind' hash' context ttl =>
      rcases hupdate kind' (setEx (pre.2.proofs kind') pre.1.now hash' context ttl) hk with ⟨rfl, hk'⟩ | hk
      · rcases setEx_eq_some hk' with ⟨rfl, rfl⟩ | ⟨-, hk⟩
        · exact .inl ⟨ttl, rfl⟩
        · exact .inr hk
      · exact .inr hk
    | consumeProof kind' hash' =>
      rcases hupdate kind' (del (pre.2.proofs kind') hash') hk with ⟨rfl, hk'⟩ | hk
      · exact .inr (del_eq_some hk').2
      · exact .inr hk
    | deleteToken hash' =>
      rcases hupdate .token (del (pre.2.proofs .token) hash') hk with ⟨rfl, hk'⟩ | hk
      · exact .inr (del_eq_some hk').2
      · exact .inr hk
    | claimInvitationIndex | tryBeginResend =>
      rw [Cmd.exec] at hk
      split_ifs at hk <;> exact .inr hk
    | _ => exact .inr hk

theorem puts_of_op {context : ResetContext} {ttl : ℕ} (h : e.op = .inr (.putProof kind hash context ttl)) :
    puts e.ev = some hash := by
  obtain ⟨tid, pre, op, r⟩ := e
  cases h
  rfl

namespace Deployment

variable {D : Deployment} {cfg : Snapshot}

namespace Reaches

variable (h : D.Reaches cfg)
include h

/-- Every entry is a command its handler was allowed to issue. -/
theorem obeys {l₁ l₂ : List Event} {e : Event} (hl : cfg.log = l₁ ++ e :: l₂) :
    Obeys D.env ((D.calls e.tid).presents D.env) (localTrace e.tid l₁) e.op :=
  reach_issues (I := fun tid => Obeys D.env ((D.calls tid).presents D.env))
    (fun tid => call_obeys D.env (D.calls tid)) h hl

/-- A handler that has ended with an answer has proved what its call had to. -/
theorem proved {tid : ℕ} {a : Answer} (hp : cfg.pool tid = .ret (.ok a)) :
    Proved D.env ((D.calls tid).presents D.env) (localTrace tid cfg.log) :=
  reach_ends (I := fun tid => Obeys D.env ((D.calls tid).presents D.env))
    (fun tid => call_obeys D.env (D.calls tid)) h hp

/-- A hash is used for one proof. -/
theorem freshPuts : FreshLog (mints D.env) puts cfg.log := by
  refine reach_freshLog (I := fun tid => Obeys D.env ((D.calls tid).presents D.env))
    (fun _ _ _ ha hv => (mint_new ha hv).2) ?_ (fun tid => call_obeys D.env (D.calls tid)) h
  intro tid tr c r v hI hv
  unfold puts at hv
  split at hv
  · next heq =>
    cases heq
    cases hv
    exact hI.1
  · cases hv

/-- A derived hash is written once. -/
theorem freshWrites : FreshLog derives writes cfg.log := by
  refine reach_freshLog (I := fun tid => Obeys D.env ((D.calls tid).presents D.env))
    (fun _ _ _ ha hv => derive_new ha hv) ?_ (fun tid => call_obeys D.env (D.calls tid)) h
  intro tid tr c r v hI hv
  unfold writes at hv
  split at hv
  · next heq =>
    cases heq
    cases hv
    exact hI.1
  · cases hv

/-- A proof that is there was put. -/
theorem put_of_proof {kind : ProofKind} {hash : String} {cell : Cell ResetContext}
    (hk : cfg.st.2.proofs kind hash = some cell) :
    ∃ e ∈ cfg.log, ∃ ttl, e.op = .inr (.putProof kind hash cell.val ttl) := by
  exact reach_written (H := fun st => st.2.proofs kind hash = some cell) h hk nofun (fun _ _ => id) fun _ _ _ _ hm =>
    proof_of_moment hm

/-- What is consumed under a hash is what was put there. -/
theorem context_of_put {g put : Event} (hg : g ∈ cfg.log) (hput : put ∈ cfg.log)
    {kind kind' : ProofKind} {hash : String} {found context : ResetContext} {ttl : ℕ}
    (hev : g.ev = ⟨.inr (.consumeProof kind' hash), some found⟩)
    (hop : put.op = .inr (.putProof kind hash context ttl)) : found = context := by
  obtain ⟨l₁, l₂, hl⟩ := append_of_mem hg
  obtain ⟨c, d, hc, hm, -⟩ := Reach.at_entry h hl
  obtain ⟨tid, pre, op, r⟩ := g
  cases hev
  obtain ⟨i, hi⟩ := moment_right hm
  obtain ⟨cell, hk, -, rfl⟩ := get_eq_some.mp (congrArg Prod.fst hi)
  rw [show pre = c.st from hm.st₁.symm] at hk
  obtain ⟨put', hput', ttl', hop'⟩ := Reaches.put_of_proof hc hk
  have hmem : put' ∈ cfg.log := by
    rw [hl, ← hm.log₁]
    exact mem_append_left _ hput'
  have heq : put' = put := h.freshPuts.eq_of_spend hmem hput (puts_of_op hop') (puts_of_op hop)
  subst heq
  rw [hop] at hop'
  cases hop'
  rfl

end Reaches

end Deployment

/-! ### The password of an account -/

/-- The account an exchange was shown. -/
def shows (ev : Exchange) : Option AuthUser :=
  match ev with
  | ⟨.inl (.host (.findById ..)), found⟩ => found
  | ⟨.inl (.host (.findByEmail ..)), found⟩ => found
  | _ => none

/-- The password hash an entry wrote for this account. -/
def written (userId tenantId : String) (e : Event) : Option String :=
  match e.op with
  | .inl (.host (.updatePassword id tenant hash)) =>
    if id = userId ∧ tenant = tenantId then some hash else none
  | _ => none

/-- The password hash a history wrote last for this account. -/
def lastWritten (userId tenantId : String) (log : List Event) : Option String :=
  log.reverse.findSome? (written userId tenantId)

/-- An account's password is the one the engine wrote last, or the one it had before the engine wrote any
(`initial`), and no hash the engine derives is like those. -/
structure Passwords (initial : String → String → Option String) (log : List Event) : Prop where
  /-- A lookup shows the last write. -/
  kept : ∀ n (hn : n < log.length), ∀ u ∈ shows log[n].ev,
    u.passwordHash = (lastWritten u.id u.tenantId (log.take n)).or (initial u.id u.tenantId)
  /-- A derived hash is new. -/
  new : ∀ e ∈ log, ∀ phc ∈ derives e.ev, ∀ u ∈ log.filterMap fun e => shows e.ev, initial u.id u.tenantId ≠ some phc

instance (initial : String → String → Option String) (log : List Event) : Decidable (Passwords initial log) :=
  decidable_of_iff (_ ∧ _) ⟨fun h => ⟨h.1, h.2⟩, fun h => ⟨h.kept, h.new⟩⟩

section Passwords

variable {userId tenantId phc : String} {l l' : List Event}

theorem writes_of_written (h : written userId tenantId e = some phc) : writes e.ev = some phc := by
  obtain ⟨tid, pre, op, r⟩ := e
  unfold written at h
  split at h
  · next heq =>
    cases heq
    split_ifs at h
    exact h
  · cases h

theorem lastWritten_append :
    lastWritten userId tenantId (l ++ l') = (lastWritten userId tenantId l').or (lastWritten userId tenantId l) := by
  rw [lastWritten, reverse_append, List.findSome?_append]
  rfl

/-- What a history wrote last, some entry of it wrote. -/
theorem exists_of_lastWritten (h : lastWritten userId tenantId l = some phc) : ∃ e ∈ l, writes e.ev = some phc := by
  obtain ⟨e, he, hw⟩ := exists_of_findSome?_eq_some h
  exact ⟨e, mem_reverse.mp he, writes_of_written hw⟩

/-- After a write there is a last one. -/
theorem lastWritten_of_mem (he : e ∈ l) (hw : written userId tenantId e = some phc) :
    ∃ phc', lastWritten userId tenantId l = some phc' := by
  refine ne_none_iff_exists'.mp fun hnone => ?_
  have := List.findSome?_eq_none_iff.mp hnone e (mem_reverse.mpr he)
  rw [hw] at this
  cases this

variable {initial : String → String → Option String} {log : List Event}

theorem Passwords.shown (h : Passwords initial log) {l₁ l₂ : List Event} (hlog : log = l₁ ++ e :: l₂)
    {u : AuthUser} (hu : shows e.ev = some u) :
    u.passwordHash = (lastWritten u.id u.tenantId l₁).or (initial u.id u.tenantId) := by
  subst hlog
  have := h.kept l₁.length (by simp) u
  simpa [hu] using this

theorem Passwords.ne_initial (h : Passwords initial log) {x : Event} (he : e ∈ log) (hx : x ∈ log)
    (hphc : derives x.ev = some phc) {u : AuthUser} (hu : shows e.ev = some u) :
    initial u.id u.tenantId ≠ some phc :=
  h.new x hx phc hphc u (mem_filterMap.mpr ⟨e, he, hu⟩)

end Passwords

/-- The fingerprint of an account that has one is that of its password. -/
theorem passwordFingerprint_ne {env : Env} {u : AuthUser} (h : passwordFingerprint env u ≠ "") :
    ∃ phc, u.passwordHash = some phc ∧ passwordFingerprint env u = env.sha256 phc := by
  unfold passwordFingerprint at h ⊢
  cases hphc : u.passwordHash with
  | none =>
    rw [hphc] at h
    exact absurd rfl h
  | some phc => exact ⟨phc, rfl, rfl⟩

section Binding

variable {D : Deployment} {cfg : Snapshot} {initial : String → String → Option String} {l₁ l : List Event}
  {u : AuthUser}

/-- What a lookup shows before a write of the password, no lookup shows after it. -/
theorem Deployment.Reaches.password_changed (h : D.Reaches cfg) (hpw : Passwords initial cfg.log) {l₂ : List Event}
    {w : Event} (hlog : cfg.log = l₁ ++ w :: l₂) {read check : Event} (hread : read ∈ l₁) (hcheck : check ∈ l₂)
    {u' : AuthUser} (hu : shows read.ev = some u) (hu' : shows check.ev = some u') {newHash : String}
    (hw : written u.id u.tenantId w = some newHash) (hid : u'.id = u.id) (htenant : u'.tenantId = u.tenantId)
    {phc : String} (hphc : u.passwordHash = some phc) : u'.passwordHash ≠ some phc := by
  intro hphc'
  obtain ⟨a, b, rfl⟩ := append_of_mem hread
  obtain ⟨a', b', rfl⟩ := append_of_mem hcheck
  have hbefore : u.passwordHash = (lastWritten u.id u.tenantId a).or (initial u.id u.tenantId) :=
    hpw.shown (by rw [hlog, append_assoc, cons_append]) hu
  have hafter : u'.passwordHash =
      (lastWritten u.id u.tenantId (a ++ read :: b ++ w :: a')).or (initial u.id u.tenantId) := by
    rw [← hid, ← htenant]
    exact hpw.shown (by rw [hlog, append_assoc _ (w :: a'), cons_append]) hu'
  -- The lookup after the write shows what the write, or one after it, has written.
  obtain ⟨last, hlast⟩ := lastWritten_of_mem (mem_cons_self (l := a')) hw
  rw [lastWritten_append, hlast, some_or, some_or, hphc', Option.some.injEq] at hafter
  subst hafter
  obtain ⟨x, hx, hxw⟩ := exists_of_lastWritten hlast
  have hfresh := h.freshWrites
  have hcut : cfg.log = a ++ read :: b ++ (w :: a' ++ check :: b') := hlog
  have hxmem : x ∈ w :: a' ++ check :: b' := mem_append_left _ hx
  rw [hphc] at hbefore
  rcases or_eq_some_iff.mp hbefore.symm with hwritten | ⟨-, hinitial⟩
  · -- The lookup before it shows an earlier write, and no hash is written twice.
    obtain ⟨y, hy, hyw⟩ := exists_of_lastWritten hwritten
    rw [hcut] at hfresh
    exact hfresh.not_spent_again (mem_append_left _ hy) hxmem hyw hxw
  · -- Or it shows the initial hash, and what is written was derived.
    have hspent : phc ∈ spent writes cfg.log :=
      mem_filterMap.mpr ⟨x, by rw [hcut]; exact mem_append_right _ hxmem, hxw⟩
    obtain ⟨z, hz, hzd⟩ := mem_filterMap.mp (hfresh.spent_minted phc hspent)
    have hreadmem : read ∈ cfg.log := by
      rw [hcut]
      exact mem_append_left _ (mem_append_right _ mem_cons_self)
    exact hpw.ne_initial hreadmem hz hzd hu hinitial

/-- The account a lookup by id shows has that id. -/
theorem found_of_moment {env : Env} {α : Type} {e : Event} {c d : Concurrency.Config World Reply α}
    (hm : Moment (machine env) l e c d) {userId tenantId : String}
    (hev : e.ev = ⟨.inl (.host (.findById userId (some tenantId))), some u⟩) :
    u.id = userId ∧ u.tenantId = tenantId := by
  obtain ⟨tid, pre, op, r⟩ := e
  cases hev
  obtain ⟨⟨i, hi⟩, -⟩ := moment_left hm
  have hfind : pre.1.findById userId (some tenantId) = some u := congrArg Prod.fst hi
  have := List.find?_some hfind
  simp only [reduceCtorEq, Option.some.injEq, false_or, decide_eq_true_eq] at this
  exact ⟨this.1, this.2.symm⟩

theorem Deployment.Reaches.shown_of_findById (h : D.Reaches cfg) {e : Event} (he : e ∈ cfg.log)
    {userId tenantId : String} (hev : e.ev = ⟨.inl (.host (.findById userId (some tenantId))), some u⟩) :
    u.id = userId ∧ u.tenantId = tenantId := by
  obtain ⟨c, d, -, hm, -⟩ := Reach.at_mem h he
  exact found_of_moment hm hev

/-- Where the context of a proof comes from: its handler was shown the account. -/
theorem Deployment.Reaches.read_of_put (h : D.Reaches cfg) {put : Event} (hput : put ∈ cfg.log)
    {kind : ProofKind} {hash : String} {context : ResetContext} {ttl : ℕ}
    (hop : put.op = .inr (.putProof kind hash context ttl)) :
    ∃ read ∈ cfg.log, read.tid = put.tid ∧ ∃ u, shows read.ev = some u ∧ u.id = context.userId ∧
      u.tenantId = context.tenantId ∧ context.passwordFingerprint = passwordFingerprint D.env u := by
  obtain ⟨m₁, m₂, hl⟩ := append_of_mem hput
  have hobeys := h.obeys hl
  rw [hop] at hobeys
  obtain ⟨-, u, email, hmem, htenant, hcontext⟩ := hobeys
  obtain ⟨read, hread, htid, hev⟩ := mem_localTrace.mp hmem
  refine ⟨read, by rw [hl]; exact mem_append_left _ hread, htid, u, by rw [hev]; rfl, ?_, htenant, ?_⟩
  · rw [hcontext]
    rfl
  · rw [hcontext]
    rfl

/-- In a history cut at the write, a handler that had consumed nothing by then consumes later, and compares
later still. -/
theorem mem_of_late {tid : ℕ} {m₁ m₂ : List Event} {g : Event} (hlate : Unspent (localTrace tid l₁))
    (hg : g.tid = tid) (hconsumes : consumes g.ev = true) (hcut : l₁ ++ l = m₁ ++ g :: m₂) : ∀ e ∈ m₂, e ∈ l := by
  intro e he
  rcases append_eq_append_iff.mp hcut with ⟨m, -, rfl⟩ | ⟨m, rfl, hm⟩
  · exact mem_append_right _ (mem_cons_of_mem _ he)
  · cases m with
    | nil =>
      cases hm
      exact mem_cons_of_mem _ he
    | cons x m =>
      cases hm
      have := hlate g.ev (mem_localTrace.mpr ⟨g, mem_append_right _ mem_cons_self, hg, rfl⟩)
      rw [hconsumes] at this
      cases this

/-- A handler that had consumed nothing when the password was written, and then proved a proof issued before,
was given one with no fingerprint. -/
theorem Deployment.Reaches.unbound_of_proved (h : D.Reaches cfg) (hpw : Passwords initial cfg.log)
    (hsha : Injective D.env.sha256) {l' : List Event} {w : Event} (hlog : cfg.log = l₁ ++ w :: (l ++ l'))
    {put : Event} (hput : put ∈ cfg.log) {kind : ProofKind} {hash : String} {context : ResetContext} {ttl : ℕ}
    (hop : put.op = .inr (.putProof kind hash context ttl))
    (hread : ∀ e ∈ l ++ l', e.tid = put.tid → shows e.ev = none) {newHash : String}
    (hw : w.op = .inl (.host (.updatePassword context.userId context.tenantId newHash))) {tid : ℕ}
    (hlate : Unspent (localTrace tid l₁))
    (hproved : Proved D.env (some (kind, hash)) (localTrace tid (l₁ ++ w :: l))) :
    context.passwordFingerprint = "" := by
  have hwritten : written context.userId context.tenantId w = some newHash := by simp [written, hw]
  -- The proof was consumed after the write, and it was this one.
  obtain ⟨consumed, hconsumed⟩ := hproved.consumed kind hash rfl
  obtain ⟨tr₁, tr₂, htr⟩ := append_of_mem hconsumed
  obtain ⟨context', rfl, hbound⟩ := hproved.compared tr₁ tr₂ kind hash consumed htr
  obtain ⟨m₁, g, m₂, hcut, hg, hgev, -, rfl⟩ := localTrace_split htr
  have hmem : ∀ e ∈ l₁ ++ w :: l, e ∈ cfg.log := by
    intro e he
    rw [hlog, ← cons_append, ← append_assoc]
    exact mem_append_left _ he
  have hgmem : g ∈ cfg.log := hmem g (by rw [hcut]; exact mem_append_right _ mem_cons_self)
  obtain rfl := h.context_of_put hgmem hput hgev hop
  rcases hbound with hempty | ⟨found, hfound, heq⟩
  · exact hempty
  obtain ⟨check, hcheck, -, hcheckev⟩ := mem_localTrace.mp hfound
  -- The issuing handler was shown the account before the write, this one after it.
  obtain ⟨read, hreadmem, hreadtid, u, hu, hid, htenant, hfp⟩ := h.read_of_put hput hop
  have hbefore : read ∈ l₁ := by
    rw [hlog, mem_append, mem_cons] at hreadmem
    rcases hreadmem with hreadmem | rfl | hreadmem
    · exact hreadmem
    · obtain ⟨_, _, op, _⟩ := read
      cases hw
      cases hu
    · rw [hread read hreadmem hreadtid] at hu
      cases hu
  have hafter : check ∈ w :: l := mem_of_late hlate hg (by rw [hgev]; rfl) hcut check hcheck
  have heq : found.elim "" (passwordFingerprint D.env) = context'.passwordFingerprint :=
    hsha (of_decide_eq_true heq)
  by_contra hne
  cases found with
  | none => exact hne heq.symm
  | some u' =>
    obtain ⟨phc, hphc, hphcfp⟩ := passwordFingerprint_ne (hfp ▸ hne)
    have hne' : passwordFingerprint D.env u' ≠ "" := by
      rw [show passwordFingerprint D.env u' = _ from heq]
      exact hne
    obtain ⟨phc', hphc', hphcfp'⟩ := passwordFingerprint_ne hne'
    have hsame : phc' = phc := hsha (by rw [← hphcfp, ← hphcfp', ← hfp]; exact heq)
    have hcheckmem : check ∈ l ++ l' := by
      rcases mem_cons.mp hafter with rfl | hafter
      · obtain ⟨_, _, op, _⟩ := check
        cases hw
        cases hcheckev
      · exact mem_append_left _ hafter
    obtain ⟨hid', htenant'⟩ :=
      h.shown_of_findById (hmem check (mem_append_right _ hafter)) hcheckev
    rw [← hid, ← htenant] at hwritten
    exact h.password_changed hpw hlog hbefore hcheckmem hu (by rw [hcheckev]; rfl) hwritten
      (hid'.trans hid.symm) (htenant'.trans htenant.symm) hphc (hsame ▸ hphc')

/-- A proof with a fingerprint dies with the password it was issued against: when the password has been
written after the issuing call read the account, a call that presents the proof and had not consumed it by
then does not succeed, and writes no password. -/
theorem bound_proof_refused (h : D.Reaches cfg) (hpw : Passwords initial cfg.log)
    (hsha : Injective D.env.sha256) {l₁ l₂ : List Event} {w : Event} (hlog : cfg.log = l₁ ++ w :: l₂)
    {put : Event} (hput : put ∈ cfg.log) {kind : ProofKind} {hash : String} {context : ResetContext} {ttl : ℕ}
    (hop : put.op = .inr (.putProof kind hash context ttl)) (hbound : context.passwordFingerprint ≠ "")
    (hread : ∀ e ∈ l₂, e.tid = put.tid → shows e.ev = none) {newHash : String}
    (hw : w.op = .inl (.host (.updatePassword context.userId context.tenantId newHash))) {tid : ℕ}
    (hpresents : (D.calls tid).presents D.env = some (kind, hash)) (hlate : Unspent (localTrace tid l₁)) :
    (∀ a, cfg.pool tid ≠ .ret (.ok a)) ∧ ∀ e ∈ l₂, e.tid = tid → writes e.ev = none := by
  constructor
  · intro a ha
    have hproved := h.proved ha
    rw [hpresents, hlog] at hproved
    rw [← append_nil l₂] at hlog hread
    exact hbound (h.unbound_of_proved hpw hsha hlog hput hop hread hw hlate hproved)
  · intro e he htid
    obtain ⟨l, l', rfl⟩ := append_of_mem he
    have hobeys : Obeys D.env ((D.calls e.tid).presents D.env) (localTrace e.tid (l₁ ++ w :: l)) e.op :=
      h.obeys (by rw [hlog, append_assoc, cons_append])
    rw [htid, hpresents] at hobeys
    obtain ⟨_, _, op, _⟩ := e
    unfold writes
    split
    · next heq =>
      cases heq
      exact absurd (h.unbound_of_proved hpw hsha hlog hput hop hread hw hlate hobeys.2) hbound
    · rfl

end Binding

/-! ### Runs -/

namespace Demo

/-- The surroundings of the session flows, with ten minutes for a proof. -/
def env (resetMethod : ResetMethod) : Env :=
  { BymaxAuth.Demo.env with
    sha256 := id, hierarchy := [], invitationTtl := 604800, minLength := 4, resetMethod, resetTokenTtl := 600,
    otpLength := 6, otpTtl := 600, emailChangeTtl := 3600 }

/-- The deployment with this account and these calls. -/
def deployment (resetMethod : ResetMethod) (user : AuthUser) (calls : List Call) : Deployment :=
  { env := env resetMethod, now := 0, users := [user], calls := fun tid => calls.getD tid (.initiateReset "" "") }

/-- An account that signs in with a provider. -/
def passwordless : AuthUser := { BymaxAuth.Demo.alice with passwordHash := none }

/-- The next `n` commands of handler `tid`, which draws this token or code and derives this hash. -/
def acts (tid n : ℕ) (raw phc : String) : List (Move Input) :=
  List.replicate n (.act tid { BymaxAuth.Demo.input raw "" with phc })

/-- The hash the account of this deployment has at first. -/
def initial (user : AuthUser) (_ _ : String) : Option String := user.passwordHash

/-- A reset with this proof. -/
def reset (token otp verifiedToken : Option String) : Call :=
  .resetPassword "a@example.com" "t1" "other" token otp verifiedToken

end Demo

/-- The context an entry stored as this proof. -/
def putContext (kind : ProofKind) (hash : String) (e : Event) : Option ResetContext :=
  match e.op with
  | .inr (.putProof kind' hash' context _) => if kind' = kind ∧ hash' = hash then some context else none
  | _ => none

theorem op_of_putContext {context : ResetContext} (h : putContext kind hash e = some context) :
    ∃ ttl, e.op = .inr (.putProof kind hash context ttl) := by
  unfold putContext at h
  split at h
  · next kind' hash' context' ttl heq =>
    split_ifs at h with hkey
    cases h
    obtain ⟨rfl, rfl⟩ := hkey
    exact ⟨ttl, heq⟩
  · cases h

theorem op_of_written {userId tenantId phc : String} (h : written userId tenantId e = some phc) :
    e.op = .inl (.host (.updatePassword userId tenantId phc)) := by
  unfold written at h
  split at h
  · next heq =>
    split_ifs at h with hkey
    cases h
    obtain ⟨rfl, rfl⟩ := hkey
    exact heq
  · cases h

/-- A schedule that can be executed to a moment with the property `p` is a run to such a moment. -/
theorem exists_reaches {D : Deployment} {P : Snapshot → Prop} (moves : List (Move Input)) (p : Snapshot → Prop)
    [DecidablePred p] (h : (run (machine D.env) D.start moves).any (fun cfg => p cfg) = true)
    (hP : ∀ cfg, D.Reaches cfg → p cfg → P cfg) : ∃ cfg, D.Reaches cfg ∧ P cfg :=
  exists_reach h hP

open Recovery.Demo
open BymaxAuth.Demo (alice input)

/-- A link is sent, the password is changed, and the link is refused. -/
theorem bound_proof_refused_link : ∃ cfg, (deployment .token alice [.initiateReset "a@example.com" "t1",
      .changePassword "t1" "u1" "pw" "next" none, reset (some "r1") none none]).Reaches cfg ∧
    cfg.pool 1 = .ret (.ok .done) ∧ ∀ a, cfg.pool 2 ≠ .ret (.ok a) := by
  refine exists_reaches (acts 0 5 "r1" "" ++ acts 1 8 "" "h1" ++ acts 2 3 "" "")
    (fun cfg => Passwords (initial alice) cfg.log ∧ (cfg.pool 1).answered = some .done ∧
      cutAt 10 (fun l₁ w l₂ => ((localTrace 2 l₁).all fun ev => !consumes ev) &&
        l₁.any fun put => (putContext .token "r1" put).any fun context =>
          decide (context.passwordFingerprint ≠ "") && (written context.userId context.tenantId w).isSome &&
          l₂.all fun e => decide (e.tid = put.tid → (shows e.ev).isNone = true)) cfg.log)
    (by decide +kernel) ?_
  rintro cfg h ⟨hpw, hchanged, hcut⟩
  obtain ⟨l₁, w, l₂, hlog, hcut⟩ := exists_of_cutAt hcut
  simp only [Bool.and_eq_true, List.any_eq_true, Option.any_eq_true, List.all_eq_true, decide_eq_true_eq,
    Bool.not_eq_true', Option.isNone_iff_eq_none] at hcut
  obtain ⟨hlate, put, hput, context, hcontext, ⟨hbound, hwritten⟩, hread⟩ := hcut
  obtain ⟨ttl, hop⟩ := op_of_putContext hcontext
  obtain ⟨newHash, hw⟩ := Option.isSome_iff_exists.mp hwritten
  have hput : put ∈ cfg.log := by
    rw [hlog]
    exact mem_append_left _ hput
  exact ⟨Prog.answered_eq_some.mp hchanged, (bound_proof_refused h hpw injective_id hlog hput hop
    hbound hread (op_of_written hw) rfl hlate).1⟩

/-- The first `n` calls were made one after the other, and succeeded. -/
def OneByOne (n : ℕ) (cfg : Snapshot) : Prop :=
  (cfg.log.map Entry.tid).Pairwise (· ≤ ·) ∧ ∀ tid < n, ∃ a, cfg.pool tid = .ret (.ok a)

/-- The same, as a test. -/
def isOneByOne (n : ℕ) (cfg : Snapshot) : Bool :=
  decide ((cfg.log.map Entry.tid).Pairwise (· ≤ ·)) && (List.range n).all fun tid => (cfg.pool tid).answered.isSome

theorem oneByOne_of_test {n : ℕ} {cfg : Snapshot} (h : isOneByOne n cfg = true) : OneByOne n cfg := by
  simp only [isOneByOne, Bool.and_eq_true, decide_eq_true_eq, List.all_eq_true, List.mem_range] at h
  refine ⟨h.1, fun tid ht => ?_⟩
  obtain ⟨a, ha⟩ := Option.isSome_iff_exists.mp (h.2 tid ht)
  exact ⟨a, Prog.answered_eq_some.mp ha⟩

/-- Proofs that are accepted after a completed reset or change. An account without a password is sent two
links; the second is spent, and then the first. A code is sent, the password is changed, and the code is
spent. Or the code is then exchanged for a verified token, and that is spent. -/
theorem unbound_proof_accepted :
    (∃ cfg, (deployment .token passwordless [.initiateReset "a@example.com" "t1",
        .initiateReset "a@example.com" "t1", reset (some "r2") none none,
        reset (some "r1") none none]).Reaches cfg ∧
      Passwords (initial passwordless) cfg.log ∧ OneByOne 4 cfg) ∧
    (∃ cfg, (deployment .otp alice [.initiateReset "a@example.com" "t1",
        .changePassword "t1" "u1" "pw" "next" none, reset none (some "123456") none]).Reaches cfg ∧
      Passwords (initial alice) cfg.log ∧ OneByOne 3 cfg) ∧
    ∃ cfg, (deployment .otp alice [.initiateReset "a@example.com" "t1",
        .changePassword "t1" "u1" "pw" "next" none, .verifyResetOtp "a@example.com" "t1" "123456",
        reset none none (some "r1")]).Reaches cfg ∧
      Passwords (initial alice) cfg.log ∧ OneByOne 4 cfg := by
  refine ⟨?_, ?_, ?_⟩
  · exact exists_reaches (acts 0 5 "r1" "" ++ [.wait { input "" "" with secs := 60, users := [passwordless] }] ++
        acts 1 5 "r2" "" ++ acts 2 6 "" "h1" ++ acts 3 6 "" "h2")
      (fun cfg => Passwords (initial passwordless) cfg.log ∧ isOneByOne 4 cfg) (by decide +kernel)
      fun _ _ hp => ⟨hp.1, oneByOne_of_test hp.2⟩
  · exact exists_reaches (acts 0 4 "123456" "" ++ acts 1 8 "" "h1" ++ acts 2 7 "" "h2")
      (fun cfg => Passwords (initial alice) cfg.log ∧ isOneByOne 3 cfg) (by decide +kernel)
      fun _ _ hp => ⟨hp.1, oneByOne_of_test hp.2⟩
  · exact exists_reaches
      (acts 0 4 "123456" "" ++ acts 1 8 "" "h1" ++ acts 2 4 "r1" "" ++ acts 3 7 "" "h2")
      (fun cfg => Passwords (initial alice) cfg.log ∧ isOneByOne 4 cfg) (by decide +kernel)
      fun _ _ hp => ⟨hp.1, oneByOne_of_test hp.2⟩

end BymaxAuth.SingleUse.Recovery
