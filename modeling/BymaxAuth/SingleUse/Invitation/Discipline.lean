import BymaxAuth.SingleUse.Invitation.Flows

/-!
# What the invitation flows may do

What holds of the invitation keys holds because of what the flows pass to the commands, and because of what
they still do before they end. This module says both of every flow's own exchanges.

`Obeys env call tr c` — a handler of `call` whose exchanges so far are `tr` may issue `c`. A record is
written, and the index claimed, only for the token the handler drew itself and for the address of its call;
what is displaced, taken or deleted was read first, together with the record it names, and the caller's role
reaches as far as the record read, if there was one.

`ledger tr` is what such a handler owes: the hashes whose records it has to delete before it ends. It owes
what it displaced or took out of the index, and its own record from the write until the confirmation.
-/

namespace BymaxAuth.SingleUse.Invitation

open Concurrency List

/-- The hash under which an exchange stored a record. -/
def puts (ev : Exchange) : Option String :=
  match ev with
  | ⟨.inr (.putInvitation hash ..), _⟩ => some hash
  | _ => none

/-! ### What a handler owes -/

/-- The index entry a handler read last, and the hashes whose records it has to delete. -/
structure Ledger where
  /-- The entry read last. -/
  read : Option String
  /-- The hashes. -/
  owed : List String

/-- What is owed after one more exchange. -/
def Ledger.step (l : Ledger) (ev : Exchange) : Ledger :=
  match ev with
  | ⟨.inr (.readInvitationIndex _), entry⟩ => { l with read := entry }
  | ⟨.inr (.claimInvitationIndex _ hash _ expected), true⟩ =>
    if expected = some hash then { l with owed := l.owed.filter (· ≠ hash) }
    else { l with owed := expected.toList ++ l.owed }
  | ⟨.inr (.takeInvitationIndex _), _⟩ => { l with owed := l.read.toList ++ l.owed }
  | ⟨.inr (.putInvitation hash ..), _⟩ => { l with owed := hash :: l.owed }
  | ⟨.inr (.deleteInvitationByHash hash), _⟩ => { l with owed := l.owed.filter (· ≠ hash) }
  | _ => l

open Ledger

/-- What a handler with these exchanges owes. -/
def ledger (tr : Trace) : Ledger := tr.foldl step ⟨none, []⟩

@[simp] theorem ledger_nil : ledger [] = ⟨none, []⟩ := rfl

theorem ledger_snoc (tr : Trace) (ev : Exchange) : ledger (tr ++ [ev]) = (ledger tr).step ev := by
  simp [ledger]

/-- What is owed stays owed, until the record is deleted or its invitation confirmed. -/
theorem owed_step {l : Ledger} {hash : String} (h : hash ∈ l.owed) (ev : Exchange) :
    hash ∈ (l.step ev).owed ∨ ev.op = .inr (.deleteInvitationByHash hash) ∨
      ∃ key ttl, ev = ⟨.inr (.claimInvitationIndex key hash ttl (some hash)), true⟩ := by
  unfold step
  split
  · exact .inl h
  · next key hash' ttl expected =>
    split_ifs with hown
    · by_cases hh : hash = hash'
      · subst hh hown
        exact .inr (.inr ⟨key, ttl, rfl⟩)
      · exact .inl (mem_filter.mpr ⟨h, by simpa using hh⟩)
    · exact .inl (mem_append_right _ h)
  · exact .inl (mem_append_right _ h)
  · exact .inl (mem_cons_of_mem _ h)
  · next hash' removed =>
    by_cases hh : hash = hash'
    · subst hh
      exact .inr (.inl rfl)
    · exact .inl (mem_filter.mpr ⟨h, by simpa using hh⟩)
  · exact .inl h

/-- The engine's other commands leave the ledger alone. -/
theorem ledger_append {tr tr' : Trace} (h : ∀ ev ∈ tr', ∃ c, ev.op = .inl c) : ledger (tr ++ tr') = ledger tr := by
  induction tr' using List.reverseRecOn with
  | nil => rw [append_nil]
  | append_singleton tr' ev ih =>
    rw [← append_assoc, ledger_snoc, ih fun ev hev => h ev (mem_append_left _ hev)]
    obtain ⟨op, r⟩ := ev
    obtain ⟨c, rfl⟩ := h _ (mem_append_right _ (mem_singleton_self _))
    rfl

/-! ### What a handler may issue -/

/-- Who makes a call on an invitation, and in which tenant. -/
def Call.caller : Call → Option (String × String)
  | invite inviterUserId _ _ tenantId => some (inviterUserId, tenantId)
  | revoke revokerUserId _ tenantId => some (revokerUserId, tenantId)
  | _ => none

/-- The role a call invites to. -/
def Call.role : Call → Option String
  | invite _ _ role _ => some role
  | _ => none

variable (env : Env) (call : Call)

/-- The index key of the address a call names. -/
def Call.key : Call → Option (String × String)
  | invite _ email _ tenantId => some (indexKey env tenantId (env.normalizeEmail email))
  | revoke _ email tenantId => some (indexKey env tenantId (env.normalizeEmail email))
  | _ => none

/-- The account the handler found for its caller. -/
def Caller (tr : Trace) (u : AuthUser) : Prop :=
  ∃ id tenantId, call.caller = some (id, tenantId) ∧ ⟨.inl (.host (.findById id (some tenantId))), some u⟩ ∈ tr

/-- The token of this hash is one the handler drew. -/
def Mine (tr : Trace) (hash : String) : Prop :=
  ∃ raw, ⟨.inr .generateSecureToken, raw⟩ ∈ tr ∧ env.sha256 raw = hash

/-- The handler has looked at the record of this hash, and its caller's role reaches as far. -/
def Cleared (tr : Trace) (hash : String) : Prop :=
  ∃ u found, Caller call tr u ∧ ⟨.inr (.readInvitationByHash hash), found⟩ ∈ tr ∧
    ∀ invitation, found = some invitation → hasRole u.role invitation.role env.hierarchy = true

/-- The caller's role reaches as far as the role the call invites to. -/
def Authorised (tr : Trace) : Prop :=
  ∃ u role, Caller call tr u ∧ call.role = some role ∧ hasRole u.role role env.hierarchy = true

/-- What a handler with these exchanges may issue next. -/
def Obeys (tr : Trace) : Op ⊕ Cmd → Prop
  | .inr (.putInvitation hash invitation _) =>
    pending (mints env) puts tr = some hash ∧ Mine env tr hash ∧
      call.key env = some (indexKey env invitation.tenantId invitation.email) ∧
      call.role = some invitation.role
  | .inr (.claimInvitationIndex key hash ttl expected) =>
    Mine env tr hash ∧ call.key env = some key ∧ ttl = env.invitationTtl ∧
      ∀ h, expected = some h → h = hash ∨ Cleared env call tr h
  | .inr (.takeInvitationIndex _) =>
    call.caller = none ∨ ∃ hash, (ledger tr).read = some hash ∧ Cleared env call tr hash
  | .inr (.deleteInvitationByHash hash) => Mine env tr hash ∧ Authorised env call tr ∨ Cleared env call tr hash
  | _ => True

section Growth

variable {env call} {tr : Trace} {hash : String} {u : AuthUser}

theorem Caller.append (h : Caller call tr u) (tr' : Trace) : Caller call (tr ++ tr') u := by
  obtain ⟨id, tenantId, hc, hu⟩ := h
  exact ⟨id, tenantId, hc, mem_append_left _ hu⟩

theorem Mine.append (h : Mine env tr hash) (tr' : Trace) : Mine env (tr ++ tr') hash := by
  obtain ⟨raw, hraw, hh⟩ := h
  exact ⟨raw, mem_append_left _ hraw, hh⟩

theorem Cleared.append (h : Cleared env call tr hash) (tr' : Trace) : Cleared env call (tr ++ tr') hash := by
  obtain ⟨u, found, hu, hfound, hrank⟩ := h
  exact ⟨u, found, hu.append tr', mem_append_left _ hfound, hrank⟩

end Growth

/-! ### The flows obey -/

/-- What is known of an invitation's handler between the draw of its token and the write of its record. -/
structure Ready (u : AuthUser) (hash : String) (tr : Trace) : Prop where
  /-- The inviter was read. -/
  caller : Caller call tr u
  /-- The token is the handler's own. -/
  mine : Mine env tr hash
  /-- No record was written for it. -/
  pending : pending (mints env) puts tr = some hash

/-- The handler owes nothing. -/
def Clear (tr : Trace) : Prop := (ledger tr).owed = []

section Specs

variable {env call} {tr : Trace} {hash : String} {u : AuthUser} {key : String × String}

theorem Ready.snoc (h : Ready env call u hash tr) (ev : Exchange) (hm : mints env ev = none)
    (hp : puts ev = none) : Ready env call u hash (tr ++ [ev]) where
  caller := h.caller.append [ev]
  mine := h.mine.append [ev]
  pending := by rw [pending_snoc, pendingStep, hm, hp, h.pending]; rfl

theorem Clear.snoc (h : Clear tr) (ev : Exchange) (hev : ∀ l : Ledger, (l.step ev).owed = l.owed) :
    Clear (tr ++ [ev]) := by
  rw [Clear, ledger_snoc, hev]
  exact h

/-- Whoever owes at most one hash owes nothing after deleting its record. -/
theorem clear_delete (h : ∀ x ∈ (ledger tr).owed, x = hash) (removed : Bool) :
    Clear (tr ++ [⟨.inr (.deleteInvitationByHash hash), removed⟩]) := by
  rw [Clear, ledger_snoc]
  exact filter_eq_nil_iff.mpr fun x hx => by simp [h x hx]

theorem spec_approveSupersede (hr : Ready env call u hash tr) (hc : Clear tr) :
    Triple (Obeys env call) (fun tr approved => Ready env call u hash tr ∧ Clear tr ∧
      ∀ h, approved = some h → Cleared env call tr h) Clear tr (approveSupersede env u.role key) := by
  refine .step trivial fun entry => ?_
  have hr := hr.snoc ⟨.inr (.readInvitationIndex key), entry⟩ rfl rfl
  have hc := hc.snoc ⟨.inr (.readInvitationIndex key), entry⟩ fun _ => rfl
  cases entry with
  | none => exact .pure ⟨hr, hc, nofun⟩
  | some pendingHash =>
    refine .step trivial fun found => ?_
    have hr := hr.snoc ⟨.inr (.readInvitationByHash pendingHash), found⟩ rfl rfl
    have hc := hc.snoc ⟨.inr (.readInvitationByHash pendingHash), found⟩ fun _ => rfl
    cases found with
    | none =>
      refine .pure ⟨hr, hc, ?_⟩
      rintro h ⟨⟩
      exact ⟨u, none, hr.caller, mem_concat_self, nofun⟩
    | some pending =>
      refine .ite (fun _ => .throw_bind hc) fun hrank => .pure ⟨hr, hc, ?_⟩
      rintro h ⟨⟩
      refine ⟨u, some pending, hr.caller, mem_concat_self, ?_⟩
      rintro invitation ⟨⟩
      simpa using hrank

/-- The claim leaves the handler owing what it displaced, and nothing else. -/
theorem spec_claimAttempts (hkey : call.key env = some key) (attempts : ℕ) (hr : Ready env call u hash tr)
    (hc : Clear tr) :
    Triple (Obeys env call) (fun tr approved => Ready env call u hash tr ∧
      (∀ x ∈ (ledger tr).owed, approved = some x) ∧ ∀ h, approved = some h → Cleared env call tr h)
      Clear tr (claimAttempts env u.role key hash attempts) := by
  induction attempts generalizing tr with
  | zero => exact .throw hc
  | succ attempts ih =>
    refine .bind (spec_approveSupersede hr hc) ?_
    rintro tr approved ⟨hr, hc, hcleared⟩
    refine .step ⟨hr.mine, hkey, rfl, fun h hh => .inr (hcleared h hh)⟩ fun claimed => ?_
    have hr := hr.snoc ⟨.inr (.claimInvitationIndex key hash env.invitationTtl approved), claimed⟩ rfl rfl
    cases claimed with
    | false => exact ih hr (hc.snoc _ fun _ => rfl)
    | true =>
      refine .pure ⟨hr, fun x hx => ?_, fun h hh => (hcleared h hh).append _⟩
      rw [ledger_snoc, step] at hx
      split_ifs at hx
      · simp [show (ledger tr).owed = [] from hc] at hx
      · simpa [show (ledger tr).owed = [] from hc] using hx

theorem spec_supersede {approved : Option String} (hr : Ready env call u hash tr)
    (ho : ∀ x ∈ (ledger tr).owed, approved = some x) (hcleared : ∀ h, approved = some h → Cleared env call tr h) :
    Triple (Obeys env call) (fun tr _ => Ready env call u hash tr ∧ Clear tr) Clear tr
      (supersede approved) := by
  cases approved with
  | none => exact .pure ⟨hr, eq_nil_iff_forall_not_mem.mpr fun x hx => nomatch ho x hx⟩
  | some previous =>
    refine .map (.issue (.inr (hcleared previous rfl)) fun removed => ?_)
    exact ⟨hr.snoc _ rfl rfl, clear_delete (fun x hx => (Option.some.inj (ho x hx)).symm) removed⟩

theorem spec_confirmInvitationClaim (hkey : call.key env = some key) (hm : Mine env tr hash)
    (ha : Authorised env call tr) (ho : ∀ x ∈ (ledger tr).owed, x = hash) :
    Triple (Obeys env call) (fun tr _ => Clear tr) Clear tr (confirmInvitationClaim env key hash) := by
  refine .step ⟨hm, hkey, rfl, fun h hh => .inl (Option.some.inj hh).symm⟩ fun confirmed => ?_
  cases confirmed with
  | true =>
    refine .pure ?_
    rw [Clear, ledger_snoc, step, if_pos rfl]
    exact filter_eq_nil_iff.mpr fun x hx => by simp [ho x hx]
  | false =>
    obtain ⟨u, role, hu, hrole, hrank⟩ := ha
    refine .discard (.inl ⟨hm.append _, u, role, hu.append _, hrole, hrank⟩) fun removed => .throw ?_
    refine clear_delete (fun x hx => ?_) removed
    rw [ledger_snoc] at hx
    exact ho x hx

theorem spec_issueInvitation {inviterUserId email role tenantId : String}
    (hkey : call.key env = some (indexKey env tenantId email)) (hrole : call.role = some role)
    (hu : Caller call tr u) (hrank : hasRole u.role role env.hierarchy = true) (hc : Clear tr) :
    Triple (Obeys env call) (fun tr _ => Clear tr) Clear tr
      (issueInvitation env u inviterUserId email role tenantId) := by
  refine .step trivial fun raw => .step trivial fun createdAt => ?_
  have hr : Ready env call u (env.sha256 raw) (tr ++ [⟨.inr .generateSecureToken, raw⟩]) :=
    ⟨hu.append _, ⟨raw, mem_concat_self, rfl⟩, by rw [pending_snoc]; rfl⟩
  have hr := hr.snoc ⟨.inl (.host .nowOffset), createdAt⟩ rfl rfl
  have hc := (hc.snoc ⟨.inr .generateSecureToken, raw⟩ fun _ => rfl).snoc ⟨.inl (.host .nowOffset), createdAt⟩
    fun _ => rfl
  refine .bind (spec_claimAttempts hkey supersedeAttempts hr hc) ?_
  rintro tr approved ⟨hr, ho, hcleared⟩
  refine .bind (spec_supersede hr ho hcleared) ?_
  rintro tr - ⟨hr, hc⟩
  refine .step ⟨hr.pending, hr.mine, hkey, hrole⟩ fun _ => ?_
  refine spec_confirmInvitationClaim hkey (hr.mine.append _) ⟨u, role, hr.caller.append _, hrole, hrank⟩ ?_
  intro x hx
  rw [ledger_snoc, step, show (ledger tr).owed = [] from hc] at hx
  exact mem_singleton.mp hx

theorem spec_invite (inviterUserId email role tenantId : String) :
    Triple (Obeys env (.invite inviterUserId email role tenantId)) (fun tr _ => Clear tr) Clear []
      (invite env inviterUserId email role tenantId) := by
  refine .ite (fun _ => .throw_bind rfl) fun _ => .step trivial fun inviter => ?_
  have hc : Clear ([] ++ [⟨.inl (.host (.findById inviterUserId (some tenantId))), inviter⟩]) := rfl
  cases inviter with
  | none => exact .throw hc
  | some inviter =>
    refine .ite (fun _ => .throw_bind hc) fun _ => .ite (fun _ => .throw_bind hc) fun hrank => ?_
    exact spec_issueInvitation rfl rfl ⟨inviterUserId, tenantId, rfl, mem_concat_self⟩
      (by simpa using hrank) hc

theorem spec_withdraw (hu : Caller call tr u) (hc : Clear tr) :
    Triple (Obeys env call) (fun tr _ => Clear tr) Clear tr (withdraw env u key) := by
  refine .step trivial fun entry => ?_
  have hc := hc.snoc ⟨.inr (.readInvitationIndex key), entry⟩ fun _ => rfl
  have hu := hu.append [⟨.inr (.readInvitationIndex key), entry⟩]
  cases entry with
  | none => exact .pure hc
  | some hash =>
    refine .step trivial fun found => ?_
    have hc' := hc.snoc ⟨.inr (.readInvitationByHash hash), found⟩ fun _ => rfl
    refine .ite (fun _ => .pure hc') fun hrank => ?_
    have hcleared : Cleared env call (tr ++ [⟨.inr (.readInvitationIndex key), some hash⟩] ++
        [⟨.inr (.readInvitationByHash hash), found⟩]) hash := by
      refine ⟨u, found, hu.append _, mem_concat_self, ?_⟩
      rintro invitation rfl
      simpa using hrank
    have hread : (ledger (tr ++ [⟨.inr (.readInvitationIndex key), some hash⟩] ++
        [⟨.inr (.readInvitationByHash hash), found⟩])).read = some hash := by
      rw [ledger_snoc, ledger_snoc]
      rfl
    refine .discard (.inr ⟨hash, hread, hcleared⟩) fun taken => ?_
    refine .issue (.inr (hcleared.append _)) fun removed => clear_delete (fun x hx => ?_) removed
    rw [ledger_snoc, step, hread, show (ledger _).owed = [] from hc'] at hx
    exact mem_singleton.mp hx

theorem spec_revokeInvitation (revokerUserId email tenantId : String) :
    Triple (Obeys env (.revoke revokerUserId email tenantId)) (fun tr _ => Clear tr) Clear []
      (revokeInvitation env revokerUserId email tenantId) := by
  refine .step trivial fun revoker => ?_
  have hc : Clear ([] ++ [⟨.inl (.host (.findById revokerUserId (some tenantId))), revoker⟩]) := rfl
  cases revoker with
  | none => exact .throw hc
  | some revoker =>
    refine .ite (fun _ => .throw_bind hc) fun _ => ?_
    split
    · exact .throw hc
    · exact spec_withdraw ⟨revokerUserId, tenantId, rfl, mem_concat_self⟩ hc

/-- A part that issues none of the commands the ledger counts leaves a clear handler clear. -/
theorem spec_lift {α : Type} (x : BymaxAuth.Act α) (hc : Clear tr) :
    Triple (Obeys env call) (fun tr _ => Clear tr) Clear tr (lift x) := by
  refine .lift (.any x) fun tr' htr => ?_
  have hc' : Clear (tr ++ tr') := by
    rw [Clear, ledger_append fun ev hev => (htr ev hev).imp fun _ h => h.2]
    exact hc
  exact ⟨fun _ _ => trivial, fun _ => hc', hc'⟩

theorem spec_provision {invitation : StoredInvitation} {password ip userAgent : String} (hc : Clear tr) :
    Triple (Obeys env call) (fun tr _ => Clear tr) Clear tr
      (provision env invitation password ip userAgent) := by
  have hauth : Triple (Obeys env call) (fun tr _ => Clear tr) Clear tr
      (assertInviterStillAuthorised env invitation) := by
    refine .step trivial fun inviter => ?_
    have hc := hc.snoc ⟨.inl (.host (.findById invitation.inviterUserId (some invitation.tenantId))), inviter⟩
      fun _ => rfl
    exact .ite (fun _ => .throw hc) fun _ => .pure hc
  refine .bind hauth fun tr _ hc => .step trivial fun existing => ?_
  have hc := hc.snoc ⟨.inl (.host (.findByEmail invitation.email invitation.tenantId)), existing⟩ fun _ => rfl
  cases existing with
  | some user => exact .throw hc
  | none =>
    refine .step trivial fun passwordHash => .step trivial fun created => ?_
    have hc := (hc.snoc ⟨.inl (.host (.hashPassword password)), passwordHash⟩ fun _ => rfl).snoc
      ⟨.inr (.createUser ⟨invitation.email, some passwordHash, invitation.role, invitation.tenantId, true⟩),
        created⟩ fun _ => rfl
    cases created with
    | none => exact .throw hc
    | some user => exact spec_lift _ hc

theorem spec_acceptInvitation (token password ip userAgent : String) :
    Triple (Obeys env (.accept token password ip userAgent)) (fun tr _ => Clear tr) Clear []
      (acceptInvitation env token password ip userAgent) := by
  -- The index is not read here, so what is taken out of it is not owed.
  have hacceptable : Triple (Obeys env (.accept token password ip userAgent))
      (fun tr _ => ledger tr = ⟨none, []⟩) Clear [] (assertAcceptable env password "password") := by
    refine .ite (fun _ => .throw_bind rfl) fun _ => .step trivial fun breached => ?_
    cases breached with
    | true => exact .throw rfl
    | false => exact .pure rfl
  refine .bind hacceptable fun tr _ hl => .step trivial fun found => ?_
  have hl : ledger (tr ++ [⟨.inr (.consumeInvitation (env.sha256 token)), found⟩]) = ⟨none, []⟩ := by
    rw [ledger_snoc, hl]
    rfl
  have hc : Clear (tr ++ [⟨.inr (.consumeInvitation (env.sha256 token)), found⟩]) := by rw [Clear, hl]
  cases found with
  | none => exact .throw hc
  | some invitation =>
    refine .ite (fun _ => .throw_bind hc) fun _ => .discard (.inl rfl) fun taken => spec_provision ?_
    rw [Clear, ledger_snoc, hl]
    rfl

/-- Every handler obeys, and owes nothing when it ends. -/
theorem call_obeys (call : Call) : Wp (Obeys env call) (fun tr _ => Clear tr) [] (call.act env).run := by
  have key : Triple (Obeys env call) (fun tr _ => Clear tr) Clear [] (call.act env) := by
    cases call with
    | invite inviterUserId email role tenantId =>
      exact .bind (spec_invite inviterUserId email role tenantId) fun _ _ hc => .pure hc
    | accept token password ip userAgent =>
      exact .bind (spec_acceptInvitation token password ip userAgent) fun _ _ hc => .pure hc
    | revoke revokerUserId email tenantId =>
      exact .bind (spec_revokeInvitation revokerUserId email tenantId) fun _ _ hc => .pure hc
    | other flow => exact .bind (spec_lift _ rfl) fun _ _ hc => .pure hc
  refine Wp.mono key (fun _ _ h => h) fun tr r hr => ?_
  cases r <;> exact hr

end Specs

end BymaxAuth.SingleUse.Invitation
