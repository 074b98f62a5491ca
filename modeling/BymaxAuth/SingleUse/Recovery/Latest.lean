import BymaxAuth.SingleUse.Recovery.Address

/-!
# Address changes that are outstanding together

Does a new request to move an account end the ones before it, and does a completed move? `request_email_change`
stores its token under a key of its own and touches no other; `confirm_email_change` consumes the token it is
given, compares the password's fingerprint, the account's standing and the address, and nothing else. So a
token goes on working after the account was asked to move elsewhere, and after it has moved elsewhere.

What does end a token is its own use, and its lifetime. If no request is made while an earlier token of the
account can still be used (`OneAtATime`), only the latest one can.
-/

namespace BymaxAuth.SingleUse.Recovery

open Redis Concurrency List

/-! ### What the handlers do -/

/-- The hash under which an exchange stored an address change. -/
def plants (ev : Exchange) : Option String :=
  match ev with
  | ⟨.inr (.putEmailChange hash ..), _⟩ => some hash
  | _ => none

/-- The token a call confirms, by its hash. -/
def Call.confirms (env : Env) : Call → Option String
  | confirmEmailChange token => some (env.sha256 token)
  | _ => none

/-- The handler has consumed the token it was given, if it was given one. -/
def Taken (given : Option String) (tr : Trace) : Prop :=
  ∀ hash, given = some hash → ∃ context, ⟨.inr (.consumeEmailChange hash), some context⟩ ∈ tr

/-- What the handler of a call that confirms this token may issue next. -/
def Changes (env : Env) (given : Option String) (tr : Trace) : Op ⊕ Cmd → Prop
  | .inr (.putEmailChange hash ..) => pending (mints env) plants tr = some hash
  | .inr (.updateEmail id tenantId email) => ∃ hash context, given = some hash ∧
      ⟨.inr (.consumeEmailChange hash), some context⟩ ∈ tr ∧ context.userId = id ∧ context.tenantId = tenantId ∧
      context.newEmail = email
  | _ => True

/-- A command that neither stores an address change nor moves an account. -/
def OffChange : Op ⊕ Cmd → Prop
  | .inr (.putEmailChange ..) => False
  | .inr (.updateEmail ..) => False
  | _ => True

section Specs

variable {env : Env} {tr : Trace} {given : Option String}

theorem changes_of_offChange {c : Op ⊕ Cmd} (h : OffChange c) : Changes env given tr c := by
  unfold Changes
  split
  · exact absurd h id
  · exact absurd h id
  · trivial

theorem offChange_of_idle (c : Op ⊕ Cmd) (hc : Idle c) : OffChange c := by
  unfold OffChange
  split
  · exact hc
  · exact hc
  · trivial

/-- A call whose handler stays off address changes. -/
theorem changes_of_only {α : Type} {x : Act α} (hx : Only OffChange x) (hnone : given = none) :
    Triple (Changes env given) (fun tr _ => Taken given tr) (fun _ => True) tr x := by
  refine .of_only hx (fun _ _ => changes_of_offChange) (fun _ _ hash hgiven => ?_) fun _ => trivial
  rw [hnone] at hgiven
  cases hgiven

/-- A request stores its token under a hash it has just drawn. -/
theorem requestEmailChange_changes (tenantId userId newEmail currentPassword : String) :
    Triple (Changes env none) (fun _ _ => True) (fun _ => True) []
      (requestEmailChange env tenantId userId newEmail currentPassword) := by
  have hoff : ∀ {α : Type} {x : Act α} {tr : Trace}, Only OffChange x →
      Triple (Changes env none) (fun _ _ => True) (fun _ => True) tr x :=
    fun hx => .of_only hx (fun _ _ => changes_of_offChange) (fun _ _ => trivial) fun _ => trivial
  refine .step trivial fun found => ?_
  cases found with
  | none => exact .throw trivial
  | some user =>
    dsimp only
    split
    · exact .throw trivial
    · refine .bind (hoff (only_assertUserNotBlocked user)) fun tr _ _ => ?_
      refine .bind (hoff (only_lift offChange_of_idle (onStores_assertNotLocked _))) fun tr _ _ => ?_
      refine .ite (fun _ => .discard trivial fun _ => .throw_bind trivial) fun _ => .step trivial fun _ => ?_
      refine .bind (hoff (only_assertAddressIsFree offChange_of_idle user _)) fun tr _ _ => .step trivial fun raw => ?_
      refine .step ?_ fun _ => .step trivial fun _ => .ite (fun _ => .throw trivial) fun _ => .pure trivial
      show pending (mints env) plants _ = _
      rw [pending_snoc]
      rfl

/-- A confirmation moves the account its token names, and has consumed the token by then. -/
theorem confirmEmailChange_changes (token : String) :
    Triple (Changes env (some (env.sha256 token))) (fun tr _ => Taken (some (env.sha256 token)) tr) (fun _ => True) []
      (confirmEmailChange env token) := by
  refine .step trivial fun consumed => ?_
  cases consumed with
  | none => exact .throw trivial
  | some context =>
    refine .step trivial fun found => ?_
    cases found with
    | none => exact .throw trivial
    | some user =>
      -- From here on the consumption is part of the trace.
      have hmem : (⟨.inr (.consumeEmailChange (env.sha256 token)), some context⟩ : Exchange) ∈
          [] ++ [⟨.inr (.consumeEmailChange (env.sha256 token)), some context⟩] ++
            [⟨.inl (.host (.findById context.userId (some context.tenantId))), some user⟩] := by simp
      generalize ([] ++ [⟨.inr (.consumeEmailChange (env.sha256 token)), some context⟩] ++
        [⟨.inl (.host (.findById context.userId (some context.tenantId))), some user⟩] : Trace) = tr at hmem
      have hkeep : ∀ {x : Act Unit} {tr : Trace} {ev : Exchange}, Only OffChange x → ev ∈ tr →
          Triple (Changes env (some (env.sha256 token))) (fun tr _ => ev ∈ tr) (fun _ => True) tr x :=
        fun hx hmem => .frame hx (fun _ _ => changes_of_offChange) (fun _ _ h => h.subset hmem) fun _ _ => trivial
      refine .bind (hkeep (.ite (.pure _) (.ite (.pure _) (.throw _))) hmem) fun tr _ hmem => ?_
      refine .bind (hkeep (only_assertUserNotBlocked user) hmem) fun tr _ hmem => ?_
      refine .bind (hkeep (only_assertAddressIsFree offChange_of_idle user _) hmem) fun tr _ hmem => ?_
      refine .step ⟨_, context, rfl, hmem, rfl, rfl, rfl⟩ fun updated => ?_
      refine .ite (fun _ => .throw trivial) fun _ => .pure fun hash hgiven => ?_
      cases hgiven
      exact ⟨context, mem_append_left _ hmem⟩

/-- Every handler does so, and one that confirmed a change has consumed its token. -/
theorem call_changes (env : Env) (call : Call) :
    Triple (Changes env (call.confirms env)) (fun tr _ => Taken (call.confirms env) tr) (fun _ => True) []
      (call.act env) := by
  cases call with
  | initiateReset email tenantId =>
    exact changes_of_only (.bind (only_initiateReset offChange_of_idle (fun _ => trivial) (fun _ _ => trivial)
      (fun _ _ _ _ => trivial) (fun _ => trivial) _ _) fun _ => .pure _) rfl
  | resendResetOtp email tenantId =>
    exact changes_of_only (.bind (only_resendResetOtp offChange_of_idle (fun _ => trivial)
      (fun _ _ => trivial) _ _) fun _ => .pure _) rfl
  | verifyResetOtp email tenantId otp =>
    exact changes_of_only (.bind (only_verifyResetOtp offChange_of_idle (fun _ _ => trivial)
      (fun _ _ _ _ => trivial) _ _ _) fun _ => .pure _) rfl
  | resetPassword email tenantId newPassword token otp verifiedToken =>
    exact changes_of_only (.bind (only_resetPassword offChange_of_idle (fun _ _ => trivial) (fun _ _ => trivial)
      trivial (fun _ _ _ => trivial) _ _ _ _ _) fun _ => .pure _) rfl
  | changePassword tenantId userId currentPassword newPassword currentRefresh =>
    exact changes_of_only (.bind (only_changePassword offChange_of_idle trivial (fun _ _ _ => trivial) _ _ _ _)
      fun _ => .pure _) rfl
  | requestEmailChange tenantId userId newEmail currentPassword =>
    exact .map ((requestEmailChange_changes tenantId userId newEmail currentPassword).mono (fun _ _ _ _ h => nomatch h)
      fun _ h => h)
  | confirmEmailChange token => exact .map (confirmEmailChange_changes token)

end Specs

/-! ### Along a run -/

/-- The address change an entry stored, under which hash. -/
def planted (e : Event) : Option (String × EmailChangeContext) :=
  match e.op with
  | .inr (.putEmailChange hash context _) => some (hash, context)
  | _ => none

variable {e : Event}

theorem plants_of_planted {hash : String} {context : EmailChangeContext} (h : planted e = some (hash, context)) :
    plants e.ev = some hash := by
  obtain ⟨tid, pre, op, r⟩ := e
  unfold planted at h
  split at h
  · next heq =>
    cases heq
    cases h
    rfl
  · cases h

/-- The two changes are of one account. -/
def SameAccount (a b : EmailChangeContext) : Prop := a.userId = b.userId ∧ a.tenantId = b.tenantId
deriving Decidable

/-- What can be read under this hash in this state. -/
def pendingChange (w : World) (hash : String) : Option EmailChangeContext := get w.2.ec w.1.now hash

/-- When an address change is stored, no earlier one of the account can be used any more. -/
def OneAtATime (log : List Event) : Prop :=
  ∀ l₁ e l₂, log = l₁ ++ e :: l₂ → ∀ hash context, planted e = some (hash, context) →
    ∀ x ∈ l₁, ∀ hash' context', planted x = some (hash', context') → SameAccount context' context →
      pendingChange e.pre hash' = none

theorem OneAtATime.of_append {l l' : List Event} (h : OneAtATime (l ++ l')) : OneAtATime l :=
  fun l₁ e l₂ hl => h l₁ e (l₂ ++ l') (by rw [hl]; simp)

/-- An address change that is there after a step was stored by it, or was there before and is not consumed by it. -/
theorem change_of_moment {env : Env} {l : List Event} {c d : Snapshot} (hm : Moment (machine env) l e c d)
    {hash : String} {cell : Cell EmailChangeContext} (hk : d.st.2.ec hash = some cell) :
    planted e = some (hash, cell.val) ∨
      (c.st.2.ec hash = some cell ∧ ∀ r, e.ev ≠ ⟨.inr (.consumeEmailChange hash), r⟩) := by
  rw [hm.st₁]
  obtain ⟨tid, pre, op, r⟩ := e
  cases op with
  | inl cmd =>
    rw [(moment_left hm).2] at hk
    exact .inr ⟨hk, fun _ h => by cases h⟩
  | inr cmd =>
    obtain ⟨i, hi⟩ := moment_right hm
    rw [← show (Cmd.exec pre cmd i).2 = d.st from congrArg Prod.snd hi] at hk
    cases cmd with
    | putEmailChange hash' context ttl =>
      rcases setEx_eq_some hk with ⟨rfl, rfl⟩ | ⟨-, hk⟩
      · exact .inl rfl
      · exact .inr ⟨hk, fun _ h => by cases h⟩
    | consumeEmailChange hash' =>
      obtain ⟨hne, hk⟩ := del_eq_some hk
      refine .inr ⟨hk, ?_⟩
      rintro r ⟨⟩
      exact hne rfl
    | claimInvitationIndex | tryBeginResend =>
      rw [Cmd.exec] at hk
      split_ifs at hk <;> exact .inr ⟨hk, fun _ h => by cases h⟩
    | _ => exact .inr ⟨hk, fun _ h => by cases h⟩

namespace Deployment

variable {D : Deployment} {cfg : Snapshot}

/-- Every entry is a command its handler was allowed to issue. -/
theorem Reaches.changes (h : D.Reaches cfg) {l₁ l₂ : List Event} {e : Event} (hl : cfg.log = l₁ ++ e :: l₂) :
    Changes D.env ((D.calls e.tid).confirms D.env) (localTrace e.tid l₁) e.op :=
  reach_issues (I := fun tid => Changes D.env ((D.calls tid).confirms D.env))
    (fun tid => call_changes D.env (D.calls tid)) h hl

/-- A hash is used for one address change. -/
theorem Reaches.freshChanges (h : D.Reaches cfg) : FreshLog (mints D.env) plants cfg.log := by
  refine reach_freshLog (I := fun tid => Changes D.env ((D.calls tid).confirms D.env))
    (fun _ _ _ ha hv => (mint_new ha hv).2) ?_ (fun tid => call_changes D.env (D.calls tid)) h
  intro tid tr c r v hI hv
  unfold plants at hv
  split at hv
  · next heq =>
    cases heq
    cases hv
    exact hI
  · cases hv

variable {hash : String} {context : EmailChangeContext}

/-- An address change that is there was stored. -/
theorem Reaches.planted_of_change (h : D.Reaches cfg) {cell : Cell EmailChangeContext}
    (hk : cfg.st.2.ec hash = some cell) : ∃ e ∈ cfg.log, planted e = some (hash, cell.val) := by
  exact reach_written (H := fun st => st.2.ec hash = some cell) h hk nofun (fun _ _ => id) fun _ _ _ _ hm hk =>
    (change_of_moment hm hk).imp_right And.left

/-- An address change that can be used, and was not stored since some entry, could be used at that entry, and
that entry did not consume it. -/
theorem Reaches.kept_back (h : D.Reaches cfg) {l₁ l₂ : List Event} {w : Event} (hl : cfg.log = l₁ ++ w :: l₂)
    (hno : ∀ x ∈ w :: l₂, ∀ context, planted x ≠ some (hash, context))
    (hlive : pendingChange cfg.st hash = some context) :
    pendingChange w.pre hash = some context ∧ ∀ r, w.ev ≠ ⟨.inr (.consumeEmailChange hash), r⟩ := by
  have key : w.pre.1.now ≤ cfg.st.1.now ∧ ∀ cell, cfg.st.2.ec hash = some cell → w.pre.2.ec hash = some cell ∧
      ∀ r, w.ev ≠ ⟨.inr (.consumeEmailChange hash), r⟩ := by
    refine reach_since (fun st l => (∀ x ∈ l, ∀ context, planted x ≠ some (hash, context)) →
      w.pre.1.now ≤ st.1.now ∧ ∀ cell, st.2.ec hash = some cell → w.pre.2.ec hash = some cell ∧
        ∀ r, w.ev ≠ ⟨.inr (.consumeEmailChange hash), r⟩) h hl ?_ ?_ ?_ (fun x hx => hno x (mem_cons_of_mem _ hx))
    · intro c d _ hm _
      rw [moment_now hm, ← hm.st₁]
      refine ⟨Nat.le_refl _, fun cell hk => ?_⟩
      rcases change_of_moment hm hk with hp | hk
      · exact absurd hp (hno w mem_cons_self _)
      · exact hk
    · intro c d x l _ _ ih hm hno
      obtain ⟨hnow, hkeep⟩ := ih fun y hy => hno y (mem_append_left _ hy)
      rw [moment_now hm]
      refine ⟨hnow, fun cell hk => ?_⟩
      rcases change_of_moment hm hk with hp | ⟨hk, -⟩
      · exact absurd hp (hno x (by simp) _)
      · exact hkeep cell hk
    · intro st l i ih hno
      obtain ⟨hnow, hkeep⟩ := ih hno
      exact ⟨hnow.trans (Nat.le_add_right _ _), hkeep⟩
  obtain ⟨cell, hk, hcell, rfl⟩ := get_eq_some.mp hlive
  obtain ⟨hk', hnot⟩ := key.2 cell hk
  exact ⟨get_eq_some.mpr ⟨cell, hk', Cell.live_of_le hcell key.1, rfl⟩, hnot⟩

/-- Once a hash was used for an address change, it is used for no other. -/
theorem Reaches.not_planted_again (h : D.Reaches cfg) {l l' : List Event} (hl : cfg.log = l ++ l') {x : Event}
    (hx : x ∈ l) (hp : planted x = some (hash, context)) :
    ∀ y ∈ l', ∀ context', planted y ≠ some (hash, context') := by
  intro y hy context' hp'
  have hfresh := h.freshChanges
  rw [hl] at hfresh
  exact hfresh.not_spent_again hx hy (plants_of_planted hp) (plants_of_planted hp')

end Deployment

/-- The confirmation of this handler is refused, and has moved no account. -/
def RefusedChange (cfg : Snapshot) (tid : ℕ) : Prop :=
  (∀ a, cfg.pool tid ≠ .ret (.ok a)) ∧ ∀ e ∈ cfg.log, e.tid = tid → move e = none

/-- The entry ends the change of this context: it stores another one of the account, or moves the account in the
course of a confirmation that began after `l`. -/
def Ends (l : List Event) (context : EmailChangeContext) (w : Event) : Prop :=
  (∃ hash' context', planted w = some (hash', context') ∧ SameAccount context context') ∨
    (∃ email, moved context.userId context.tenantId w = some email) ∧ localTrace w.tid l = []

theorem op_of_moved {userId tenantId email : String} (h : moved userId tenantId e = some email) :
    e.op = .inr (.updateEmail userId tenantId email) := by
  have := move_of_moved h
  obtain ⟨tid, pre, op, r⟩ := e
  unfold move at this
  split at this
  · next heq =>
    cases heq
    cases this
    rfl
  · cases this

section Runs

variable {D : Deployment} {cfg : Snapshot} {tid : ℕ} {context : EmailChangeContext}

/-- A confirmation that has not found its token is refused. -/
theorem Deployment.Reaches.refused_of_unconsumed (h : D.Reaches cfg) {token : String}
    (hcall : D.calls tid = .confirmEmailChange token)
    (hno : ∀ g ∈ cfg.log, g.tid = tid → ∀ context,
      g.ev ≠ ⟨.inr (.consumeEmailChange (D.env.sha256 token)), some context⟩) : RefusedChange cfg tid := by
  constructor
  · intro a ha
    have htaken : Taken ((D.calls tid).confirms D.env) (localTrace tid cfg.log) :=
      reach_ends (I := fun tid => Changes D.env ((D.calls tid).confirms D.env))
        (fun tid => call_changes D.env (D.calls tid)) h ha
    obtain ⟨context, hmem⟩ := htaken (D.env.sha256 token) (by rw [hcall]; rfl)
    obtain ⟨g, hg, hgt, hev⟩ := mem_localTrace.mp hmem
    exact hno g hg hgt context hev
  · rintro e he rfl
    by_contra hmove
    obtain ⟨l₁, l₂, hl⟩ := append_of_mem he
    have hchanges := h.changes hl
    obtain ⟨t, pre, op, r⟩ := e
    unfold move at hmove
    split at hmove
    · next heq =>
      cases heq
      obtain ⟨hash, context, hgiven, hmem, -⟩ := hchanges
      rw [hcall] at hgiven
      cases hgiven
      obtain ⟨g, hg, hgt, hev⟩ := mem_localTrace.mp hmem
      exact hno g (hl ▸ mem_append_left _ hg) hgt context hev
    · exact hmove rfl

/-- The moment at which a token was found. -/
theorem Deployment.Reaches.at_consumption (h : D.Reaches cfg) {l₁ l₂ : List Event} {g : Event}
    (hl : cfg.log = l₁ ++ g :: l₂) {hash : String}
    (hev : g.ev = ⟨.inr (.consumeEmailChange hash), some context⟩) :
    ∃ c, D.Reaches c ∧ c.log = l₁ ∧ pendingChange c.st hash = some context := by
  obtain ⟨c, d, hc, hm, -⟩ := Reach.at_entry h hl
  obtain ⟨t, pre, op, r⟩ := g
  cases hev
  obtain ⟨i, hi⟩ := moment_right hm
  refine ⟨c, hc, hm.log₁, ?_⟩
  rw [hm.st₁]
  exact congrArg Prod.fst hi

/-- Where no two changes of an account are outstanding together, one that was ended cannot be used. -/
theorem Deployment.Reaches.ended_change (h : D.Reaches cfg) (hone : OneAtATime cfg.log) {l₁ m₁ m₂ : List Event}
    {a w : Event} (hlog : cfg.log = l₁ ++ a :: m₁ ++ w :: m₂) {hash : String}
    (ha : planted a = some (hash, context)) (hends : Ends (l₁ ++ [a]) context w) :
    pendingChange cfg.st hash = none := by
  rw [Option.eq_none_iff_forall_ne_some]
  intro found hfound
  -- It could be used at every entry since it was stored, and none of them consumed it.
  have hback : ∀ {k₁ x k₂}, cfg.log = k₁ ++ x :: k₂ → a ∈ k₁ →
      pendingChange x.pre hash = some found ∧ ∀ r, x.ev ≠ ⟨.inr (.consumeEmailChange hash), r⟩ :=
    fun hcut hmem => h.kept_back hcut (h.not_planted_again hcut hmem ha) hfound
  rcases hends with ⟨hash', context', hw, hsame⟩ | ⟨⟨email, hw⟩, hlate⟩
  · have hnone := hone (l₁ ++ a :: m₁) w m₂ hlog hash' context' hw a (by simp) hash context ha hsame
    rw [(hback hlog (by simp)).1] at hnone
    cases hnone
  · -- The handler that moved the account has consumed a token of it, after this one was stored.
    have hchanges := h.changes hlog
    rw [op_of_moved hw] at hchanges
    obtain ⟨hash', context', -, hmem, huser, htenant, -⟩ := hchanges
    rw [← singleton_append, ← append_assoc, localTrace_append, hlate, List.nil_append] at hmem
    obtain ⟨g, hg, -, hgev⟩ := mem_localTrace.mp hmem
    obtain ⟨n₁, n₂, rfl⟩ := append_of_mem hg
    have hcut : cfg.log = l₁ ++ a :: n₁ ++ g :: (n₂ ++ w :: m₂) := by rw [hlog]; simp
    have hne : hash' ≠ hash := by
      rintro rfl
      exact (hback hcut (by simp)).2 _ hgev
    obtain ⟨c, hc, hclog, hfound'⟩ := h.at_consumption hcut hgev
    obtain ⟨cell, hk, -, rfl⟩ := get_eq_some.mp hfound'
    obtain ⟨x, hx, hp⟩ := hc.planted_of_change hk
    rw [hclog, mem_append, mem_cons] at hx
    rcases hx with hx | rfl | hx
    · -- That token was outstanding when this one was stored.
      have hnone := hone l₁ a (n₁ ++ g :: n₂ ++ w :: m₂) (by rw [hlog]; simp) hash context ha x hx hash' cell.val hp
        ⟨huser, htenant⟩
      rw [(hc.kept_back hclog (hc.not_planted_again hclog hx hp) hfound').1] at hnone
      cases hnone
    · rw [ha] at hp
      cases hp
      exact hne rfl
    · -- Or this one was, when that token was.
      obtain ⟨o₁, o₂, rfl⟩ := append_of_mem hx
      have hnone := hone (l₁ ++ a :: o₁) x (o₂ ++ g :: n₂ ++ w :: m₂) (by rw [hlog]; simp) hash' cell.val hp a
        (by simp) hash context ha ⟨huser.symm, htenant.symm⟩
      have hxcut : cfg.log = l₁ ++ a :: o₁ ++ x :: (o₂ ++ g :: n₂ ++ w :: m₂) := by rw [hlog]; simp
      rw [(hback hxcut (by simp)).1] at hnone
      cases hnone

/-- Where no two address changes of an account are outstanding together, only the latest can take effect: a
confirmation that begins after its token was ended, by another request or by a completed change, is refused. -/
theorem latest_change_only (h : D.Reaches cfg) (hone : OneAtATime cfg.log) {l₁ m₁ m₂ : List Event} {a w : Event}
    (hlog : cfg.log = l₁ ++ a :: m₁ ++ w :: m₂) {token : String} {context : EmailChangeContext}
    (ha : planted a = some (D.env.sha256 token, context)) (hends : Ends (l₁ ++ [a]) context w)
    (hcall : D.calls tid = .confirmEmailChange token) (hlate : localTrace tid (l₁ ++ a :: m₁ ++ [w]) = []) :
    RefusedChange cfg tid := by
  refine h.refused_of_unconsumed hcall fun g hg hgt found hgev => ?_
  -- The consumption comes after the end of the change.
  have hafter : g ∈ m₂ := by
    rw [hlog, show l₁ ++ a :: m₁ ++ w :: m₂ = (l₁ ++ a :: m₁ ++ [w]) ++ m₂ by simp, mem_append] at hg
    rcases hg with hg | hg
    · have hmem := mem_localTrace.mpr ⟨g, hg, hgt, rfl⟩
      rw [hlate] at hmem
      cases hmem
    · exact hg
  obtain ⟨m, m', hm⟩ := append_of_mem hafter
  have hcut : cfg.log = (l₁ ++ a :: m₁ ++ w :: m) ++ g :: m' := by rw [hlog, hm]; simp
  obtain ⟨c, hc, hclog, hfound⟩ := h.at_consumption hcut hgev
  rw [hcut, ← hclog] at hone
  rw [hc.ended_change hone.of_append hclog ha hends] at hfound
  cases hfound

end Runs

/-! ### Runs -/

/-- `OneAtATime`, as a test. -/
def isOneAtATime (log : List Event) : Bool :=
  everyCut (fun l₁ e _ => (planted e).all fun p => l₁.all fun x => (planted x).all fun q =>
    decide (SameAccount q.2 p.2 → pendingChange e.pre q.1 = none)) [] log

theorem oneAtATime_of_test {log : List Event} (h : isOneAtATime log = true) : OneAtATime log := by
  rintro l₁ e l₂ rfl hash context hp x hx hash' context' hp' hsame
  have := of_everyCut h
  simp only [hp, Option.all_some, List.nil_append, List.all_eq_true] at this
  have := this x hx
  rw [hp', Option.all_some, decide_eq_true_eq] at this
  exact this hsame

open BymaxAuth.Demo (alice input)

namespace Demo

/-- A request to move the account somewhere else. -/
def secondRequest : Call := .requestEmailChange "t1" "u1" "c@example.com" "pw"

/-- An hour passes. -/
def hour : Move Input := .wait { input "" "" with secs := 3600, users := [alice] }

end Demo

open Recovery.Demo

/-- A second request is made when the first token has lapsed, and the first token is refused. -/
theorem latest_change_only_lapsed : ∃ cfg, (deployment .token alice [moveRequest, secondRequest,
      .confirmEmailChange "r1"]).Reaches cfg ∧ OneAtATime cfg.log ∧
    cfg.pool 1 = .ret (.ok .done) ∧ RefusedChange cfg 2 := by
  refine exists_reaches (acts 0 7 "r1" "" ++ [hour] ++ acts 1 7 "r2" "" ++ acts 2 1 "" "")
    (fun cfg => isOneAtATime cfg.log ∧ (cfg.pool 1).answered = some .done ∧
      cutAt 12 (fun l w _ => cutAt 5 (fun _ a _ => (planted a).any fun p => (planted w).any fun q =>
        decide (p.1 = "r1" ∧ SameAccount p.2 q.2)) l &&
          (l ++ [w]).all fun e => decide (e.tid ≠ 2)) cfg.log) (by decide +kernel) ?_
  rintro cfg h ⟨hone, hdone, hcut⟩
  have hone := oneAtATime_of_test hone
  obtain ⟨l, w, m₂, hlog, hcut⟩ := exists_of_cutAt hcut
  rw [Bool.and_eq_true] at hcut
  obtain ⟨l₁, a, m₁, rfl, hplanted⟩ := exists_of_cutAt hcut.1
  simp only [Option.any_eq_true, decide_eq_true_eq] at hplanted
  obtain ⟨⟨_, context⟩, ha, ⟨hash', context'⟩, hw, rfl, hsame⟩ := hplanted
  have hlate : localTrace 2 (l₁ ++ a :: m₁ ++ [w]) = [] := by
    refine map_eq_nil_iff.mpr (filter_eq_nil_iff.mpr fun e he htid => ?_)
    exact of_decide_eq_true (List.all_eq_true.mp hcut.2 e he) (of_decide_eq_true htid)
  exact ⟨hone, Prog.answered_eq_some.mp hdone,
    latest_change_only h hone hlog ha (.inl ⟨hash', context', hw, hsame⟩) rfl hlate⟩

/-- The account is asked to move to one address, then to another, and moves to the second; then the token of the
first request moves it to the first. All four calls succeed, one after the other, and the password is not
touched. -/
theorem superseded_change_accepted : ∃ cfg,
    (deployment .token alice [moveRequest, secondRequest, .confirmEmailChange "r2",
      .confirmEmailChange "r1"]).Reaches cfg ∧ OneByOne 4 cfg ∧
    (∀ e ∈ cfg.log, writes e.ev = none) ∧ lastAddress "u1" "t1" cfg.log = some "b@example.com" := by
  exact exists_reaches
    (acts 0 7 "r1" "" ++ acts 1 7 "r2" "" ++ acts 2 4 "" "" ++ acts 3 4 "" "")
    (fun cfg => isOneByOne 4 cfg ∧ (∀ e ∈ cfg.log, writes e.ev = none) ∧
      lastAddress "u1" "t1" cfg.log = some "b@example.com") (by decide +kernel)
    fun _ _ hp => ⟨oneByOne_of_test hp.1, hp.2⟩

end BymaxAuth.SingleUse.Recovery
