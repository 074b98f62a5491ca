import BymaxAuth.SingleUse.Recovery.Binding

/-!
# Reset proofs and the address they were issued to

Does a reset proof die with the address it was issued to? `confirm_email_change` moves the account to the
address that has proved itself, and touches nothing else.

A code does, mostly: it is looked up by address when it is used, and there is no account there any more. It
lives on if another account of the tenant takes the address, for that account.

A stored proof does not. It names the account by its id, and compares the address it was issued to with the one
in the request, which the old mailbox knows. What ends it is what ends every stored proof: a new password, if
the proof carries a fingerprint.

## The model

The repository is exact on addresses (`Addresses`): an account has the one `update_email` wrote last. `Severed` says
what has to have happened besides the move for the proof of a reset to be refused.
-/

namespace BymaxAuth.SingleUse.Recovery

open Redis Concurrency List Option Function

/-! ### The address of an account -/

/-- The account an entry moved, its tenant, and the address it moved it to. -/
def move (e : Event) : Option (String × String × String) :=
  match e with
  | ⟨_, _, .inr (.updateEmail id tenant email), true⟩ => some (id, tenant, email)
  | _ => none

/-- The address an entry moved this account to. -/
def moved (userId tenantId : String) (e : Event) : Option String :=
  (move e).bind fun m => if m.1 = userId ∧ m.2.1 = tenantId then some m.2.2 else none

/-- The address a history moved this account to last. -/
def lastAddress (userId tenantId : String) (log : List Event) : Option String :=
  log.reverse.findSome? (moved userId tenantId)

/-- An account has the address the engine moved it to last, or the one it had before (`initial`). -/
def Addresses (initial : String → String → String) (log : List Event) : Prop :=
  ∀ n (hn : n < log.length), ∀ u ∈ shows log[n].ev,
    u.email = (lastAddress u.id u.tenantId (log.take n)).getD (initial u.id u.tenantId)

instance (initial : String → String → String) (log : List Event) : Decidable (Addresses initial log) :=
  inferInstanceAs (Decidable (∀ _ _, _))

theorem Addresses.shown {initial : String → String → String} {log l₁ l₂ : List Event} {e : Event}
    (h : Addresses initial log) (hlog : log = l₁ ++ e :: l₂) {u : AuthUser} (hu : shows e.ev = some u) :
    u.email = (lastAddress u.id u.tenantId l₁).getD (initial u.id u.tenantId) := by
  subst hlog
  have := h l₁.length (by simp) u
  simpa [hu] using this

/-- After a move the last address is that of a move. -/
theorem exists_of_moved {userId tenantId newEmail : String} (l₁ l₂ : List Event) {w : Event}
    (hw : moved userId tenantId w = some newEmail) :
    ∃ e ∈ w :: l₂, lastAddress userId tenantId (l₁ ++ w :: l₂) = moved userId tenantId e ∧
      (moved userId tenantId e).isSome = true := by
  unfold lastAddress
  rw [reverse_append, List.findSome?_append]
  cases hlast : (w :: l₂).reverse.findSome? (moved userId tenantId) with
  | none =>
    have := List.findSome?_eq_none_iff.mp hlast w (by simp)
    rw [hw] at this
    cases this
  | some email =>
    obtain ⟨e, he, hmoved⟩ := exists_of_findSome?_eq_some hlast
    exact ⟨e, mem_reverse.mp he, hmoved.symm, by rw [hmoved]; rfl⟩

/-! ### What the handlers do -/

/-- The handler has found an account of the tenant under this address. -/
def Found (email tenantId : String) (tr : Trace) : Prop :=
  ∃ u, ⟨.inl (.host (.findByEmail email tenantId)), some u⟩ ∈ tr ∧ u.tenantId = tenantId

/-- A password is written only then. -/
def FindsFirst (email tenantId : String) (tr : Trace) : Op ⊕ Cmd → Prop
  | .inl (.host (.updatePassword ..)) => Found email tenantId tr
  | _ => True

section Specs

variable {env : Env} {tr : Trace} {email tenantId : String}

theorem findsFirst_of_idle (c : Op ⊕ Cmd) (h : Idle c) (tr : Trace) : FindsFirst email tenantId tr c := by
  unfold FindsFirst
  split
  · exact absurd h id
  · trivial

theorem Found.append (h : Found email tenantId tr) (tr' : Trace) : Found email tenantId (tr ++ tr') := by
  obtain ⟨u, hu, ht⟩ := h
  exact ⟨u, mem_append_left _ hu, ht⟩

/-- A reset with a code finds the account first. -/
theorem resetWithOtp_finds (otp newPassword : String) :
    Triple (FindsFirst email tenantId) (fun tr _ => Found email tenantId tr) (fun _ => True) tr
      (resetWithOtp env otp tenantId email newPassword) := by
  refine .bind (Q := fun _ _ => True) (.of_only (only_verifyOtp (fun _ _ _ => trivial) _ _ _)
    (fun tr c (hc : ∀ tr, FindsFirst email tenantId tr c) => hc tr) (fun _ _ => trivial) fun _ => trivial)
    fun tr _ _ => ?_
  refine .bind (Q := fun tr user => Found email tenantId tr) ?_ fun tr user h => ?_
  · refine .step trivial fun found => ?_
    split
    · next user hscoped =>
      obtain ⟨rfl, ht⟩ := filter_eq_some_iff.mp hscoped
      exact .pure ⟨user, mem_concat_self, of_decide_eq_true ht⟩
    · exact .throw trivial
  · refine ⟨trivial, fun newHash => ⟨h.append _, fun _ => ?_⟩⟩
    refine Triple.lift (onStores_revokeAllSessions (some tenantId) user.id) fun tr' _ =>
      ⟨fun c hc => ?_, fun _ => ?_, trivial⟩
    · cases c with
      | host c => exact absurd hc id
      | session c => trivial
      | account c => trivial
      | mfa c => trivial
    · exact ((h.append _).append _).append _

/-- An address change that was confirmed has moved an account. -/
theorem confirmEmailChange_returns (token : String) :
    Returns (fun tr _ => ∃ id tenant email, ⟨.inr (.updateEmail id tenant email), true⟩ ∈ tr) []
      (confirmEmailChange env token) := by
  refine (Returns.grows _ _).bind fun tr consumed _ => ?_
  cases consumed with
  | none => exact .throw _
  | some context =>
    refine (Returns.grows _ _).bind fun tr found _ => ?_
    cases found with
    | none => exact .throw _
    | some user =>
      refine (Returns.grows _ _).bind fun tr _ _ => ?_
      refine (Returns.grows _ _).bind fun tr _ _ => ?_
      refine (Returns.grows _ _).bind fun tr _ _ => ?_
      refine .bind (P := fun tr updated =>
        ⟨.inr (.updateEmail context.userId context.tenantId context.newEmail), updated⟩ ∈ tr)
        (.issue fun _ => mem_concat_self) fun tr updated hmem => ?_
      cases updated with
      | true => exact .pure ⟨_, _, _, hmem⟩
      | false => exact .throw _

end Specs

/-! ### Along a run -/

/-- What has to have happened for the proof of a reset, beside the move of the account: a code finds no other
account under the address, and a stored proof carries a fingerprint and the password was written after the
issuing call looked the account up, and before the reset consumed the proof. -/
def Severed (env : Env) (log : List Event) (userId tenantId : String) (tid : ℕ) : Option Dispatch → Prop
  | none => True
  | some (.otp _) => ∀ e ∈ log, e.tid = tid → ∀ u, shows e.ev = some u → u.tenantId = tenantId → u.id = userId
  | some (.stored kind raw) => ∀ put ∈ log, ∀ context ttl,
    put.op = .inr (.putProof kind (env.sha256 raw) context ttl) →
      context.passwordFingerprint ≠ "" ∧ ∃ l₁ w l₂ newHash, log = l₁ ++ w :: l₂ ∧
        w.op = .inl (.host (.updatePassword context.userId context.tenantId newHash)) ∧
        (∀ e ∈ l₂, e.tid = put.tid → shows e.ev = none) ∧ Unspent (localTrace tid l₁)

section Runs

variable {D : Deployment} {cfg : Snapshot} {tid : ℕ} {l l' : List Event} {tenantId email : String}
  {token otp verifiedToken : Option String}

/-- What a proof that was proved was put as. -/
theorem Deployment.Reaches.put_of_proved (h : D.Reaches cfg) (hlog : cfg.log = l ++ l') {kind : ProofKind}
    {hash : String} (hproved : Proved D.env (some (kind, hash)) (localTrace tid l)) :
    ∃ put ∈ cfg.log, ∃ context ttl, put.op = .inr (.putProof kind hash context ttl) := by
  obtain ⟨consumed, hconsumed⟩ := hproved.consumed kind hash rfl
  obtain ⟨tr₁, tr₂, htr⟩ := append_of_mem hconsumed
  obtain ⟨context, rfl, -⟩ := hproved.compared tr₁ tr₂ kind hash consumed htr
  obtain ⟨m₁, ⟨t, pre, op, r⟩, m₂, rfl, -, hev, -, -⟩ := localTrace_split htr
  cases hev
  rw [append_assoc, cons_append] at hlog
  obtain ⟨c, d, hc, hm, -⟩ := Reach.at_entry h hlog
  obtain ⟨i, hi⟩ := moment_right hm
  obtain ⟨cell, hk, -, -⟩ := get_eq_some.mp (congrArg Prod.fst hi)
  rw [show pre = c.st from hm.st₁.symm] at hk
  obtain ⟨put, hput, ttl, hop⟩ := Deployment.Reaches.put_of_proof hc hk
  rw [hm.log₁] at hput
  exact ⟨put, hlog ▸ mem_append_left _ hput, cell.val, ttl, hop⟩

/-- A handler that presents a severed stored proof proves nothing. -/
theorem Deployment.Reaches.not_proved (h : D.Reaches cfg) {initial : String → String → Option String}
    (hpw : Passwords initial cfg.log) (hsha : Injective D.env.sha256) (hlog : cfg.log = l ++ l')
    {userId raw : String} {kind : ProofKind}
    (hsevered : Severed D.env cfg.log userId tenantId tid (some (.stored kind raw))) :
    ¬ Proved D.env (some (kind, D.env.sha256 raw)) (localTrace tid l) := by
  intro hproved
  obtain ⟨put, hput, context, ttl, hop⟩ := h.put_of_proved hlog hproved
  obtain ⟨hbound, l₁, w, l₂, newHash, hcut, hw, hread, hlate⟩ := hsevered put hput context ttl hop
  -- The handler has consumed the proof, so it is past the write.
  obtain ⟨consumed, hconsumed⟩ := hproved.consumed kind _ rfl
  rcases append_eq_append_iff.mp (hlog.symm.trans hcut) with ⟨m, rfl, -⟩ | ⟨m, rfl, hm⟩
  · have := hlate _ (by rw [localTrace_append]; exact mem_append_left _ hconsumed)
    cases this
  · cases m with
    | nil =>
      rw [append_nil] at hconsumed
      have := hlate _ hconsumed
      cases this
    | cons x m =>
      cases hm
      exact hbound (h.unbound_of_proved hpw hsha hcut hput hop hread hw hlate hproved)

/-- A reset with a code that has written a password, or has returned, has found an account under the address. -/
theorem Deployment.Reaches.found_of_otp (h : D.Reaches cfg) {newPassword code : String}
    (hcall : D.calls tid = .resetPassword email tenantId newPassword token otp verifiedToken)
    (hdispatch : dispatch D.env.resetMethod token otp verifiedToken = some (.otp code)) :
    (∀ a, cfg.pool tid = .ret (.ok a) → Found (D.env.normalizeEmail email) tenantId (localTrace tid cfg.log)) ∧
      ∀ l₁ e l₂, cfg.log = l₁ ++ e :: l₂ → e.tid = tid → writes e.ev ≠ none →
        Found (D.env.normalizeEmail email) tenantId (localTrace tid l₁) := by
  have hact : Triple (FindsFirst (D.env.normalizeEmail email) tenantId)
      (fun tr _ => Found (D.env.normalizeEmail email) tenantId tr) (fun _ => True) []
      ((D.calls tid).act D.env) := by
    rw [hcall]
    refine .map ?_
    unfold resetPassword
    rw [hdispatch]
    exact .bind (Q := fun _ _ => True) (.of_only (only_assertAcceptable findsFirst_of_idle _ _)
      (fun tr _ hc => hc tr) (fun _ _ => trivial) fun _ => trivial) fun _ _ _ => resetWithOtp_finds _ _
  constructor
  · intro a ha
    have hpath := reach_path h tid
    rw [ha] at hpath
    exact Wp.ends hact hpath
  · rintro l₁ e l₂ hlog rfl hwrites
    obtain ⟨k, hpath⟩ := reach_path_at h hlog
    have hissued := Wp.issues hact hpath
    obtain ⟨t, pre, op, r⟩ := e
    unfold writes at hwrites
    split at hwrites
    · next heq =>
      cases heq
      exact hissued
    · exact absurd rfl hwrites

/-- The account a lookup by address shows has that address. -/
theorem email_of_moment {env : Env} {α : Type} {e : Event} {c d : Concurrency.Config World Reply α}
    (hm : Moment (machine env) l e c d) {u : AuthUser}
    (hev : e.ev = ⟨.inl (.host (.findByEmail email tenantId)), some u⟩) : u.email = email := by
  obtain ⟨tid, pre, op, r⟩ := e
  cases hev
  obtain ⟨⟨i, hi⟩, -⟩ := moment_left hm
  have hfind : pre.1.findByEmail email tenantId = some u := congrArg Prod.fst hi
  have := List.find?_some hfind
  simp only [decide_eq_true_eq] at this
  exact this.1

/-- A reset with a severed code, for an address the account was moved away from before the reset began, finds no
account. -/
theorem Deployment.Reaches.not_found (h : D.Reaches cfg) {initial : String → String → String}
    (haddr : Addresses initial cfg.log) {userId newEmail old code : String} {l₁ l₂ : List Event} {w : Event}
    (hlog : cfg.log = l₁ ++ w :: l₂) (hw : moved userId tenantId w = some newEmail)
    (hold : ∀ e ∈ w :: l₂, moved userId tenantId e ≠ some old) (hlate : localTrace tid l₁ = []) (htid : w.tid ≠ tid)
    (hsevered : Severed D.env cfg.log userId tenantId tid (some (.otp code))) (hcut : cfg.log = l ++ l') :
    ¬ Found old tenantId (localTrace tid l) := by
  rintro ⟨u, hu, htenant⟩
  obtain ⟨tr₁, tr₂, htr⟩ := append_of_mem hu
  obtain ⟨m₁, e, m₂, rfl, he, hev, -, -⟩ := localTrace_split htr
  have hcut' : cfg.log = m₁ ++ e :: (m₂ ++ l') := by rw [hcut]; simp
  have hshows : shows e.ev = some u := by rw [hev]; rfl
  obtain rfl := hsevered e (by rw [hcut']; simp) he u hshows htenant
  obtain ⟨c, d, -, hm, -⟩ := Reach.at_entry h hcut'
  have hemail := email_of_moment hm hev
  -- The lookup comes after the move, so the account has an address it was moved to.
  rcases append_eq_append_iff.mp (hlog.symm.trans hcut') with ⟨m, rfl, hs⟩ | ⟨m, rfl, hs⟩
  · cases m with
    | nil =>
      cases hs
      exact htid he
    | cons x m =>
      cases hs
      obtain ⟨x, hx, hlast, hsome⟩ := exists_of_moved l₁ m hw
      obtain ⟨address, haddress⟩ := isSome_iff_exists.mp hsome
      have hshown := haddr.shown hcut' hshows
      rw [htenant, hlast, haddress, getD_some, hemail] at hshown
      refine hold x ?_ (hshown ▸ haddress)
      rcases mem_cons.mp hx with rfl | hx
      · exact mem_cons_self
      · exact mem_cons_of_mem _ (mem_append_left _ hx)
  · cases m with
    | nil =>
      cases hs
      exact htid he
    | cons x m =>
      rw [cons_append, List.cons.injEq] at hs
      rw [← hs.1, localTrace_append, ← he, localTrace_cons_self] at hlate
      simp at hlate

/-- What a confirmed address change did, in the history. -/
theorem Deployment.Reaches.moved_of_confirmed (h : D.Reaches cfg) {token : String}
    (hcall : D.calls tid = .confirmEmailChange token) {a : Answer} (hok : cfg.pool tid = .ret (.ok a)) :
    ∃ l₁ w l₂ userId tenantId newEmail, cfg.log = l₁ ++ w :: l₂ ∧ w.tid = tid ∧
      moved userId tenantId w = some newEmail := by
  have hpath := reach_path h tid
  rw [hok, hcall] at hpath
  obtain ⟨tr, _, _, htr, hconfirm, ⟨⟩⟩ := Path.answered hpath
  obtain ⟨id, tenant, email, hmem⟩ := (confirmEmailChange_returns token).of_path hconfirm
  rw [append_nil] at htr
  obtain ⟨pre, hw⟩ := exchange_mem.mp (htr ▸ hmem)
  obtain ⟨l₁, l₂, hlog⟩ := append_of_mem hw
  exact ⟨l₁, _, l₂, id, tenant, email, hlog, rfl, by simp [moved, move]⟩

/-- The reset of this handler is refused, and has written no password. -/
def Refused (cfg : Snapshot) (tid : ℕ) : Prop :=
  (∀ a, cfg.pool tid ≠ .ret (.ok a)) ∧ ∀ e ∈ cfg.log, e.tid = tid → writes e.ev = none

/-- A request that carries no proof, or not one of the configured kind, ends before its first command. -/
theorem Deployment.Reaches.refused_of_malformed (h : D.Reaches cfg) {newPassword : String}
    (hcall : D.calls tid = .resetPassword email tenantId newPassword token otp verifiedToken)
    (hdispatch : dispatch D.env.resetMethod token otp verifiedToken = none) : Refused cfg tid := by
  have hrun : ((D.calls tid).act D.env).run = .ret (.error .passwordResetTokenInvalid) := by
    rw [hcall]
    simp only [Call.act, resetPassword, hdispatch]
    rfl
  have hpath := reach_path h tid
  rw [hrun] at hpath
  generalize htr : localTrace tid cfg.log = tr at hpath
  generalize hq : cfg.pool tid = q at hpath
  cases hpath with
  | nil =>
    refine ⟨fun a ha => ?_, fun e he htid => ?_⟩
    · rw [hq] at ha
      cases ha
    · have := mem_localTrace.mpr ⟨e, he, htid, rfl⟩
      rw [htr] at this
      cases this

/-- Once an address change is confirmed, a reset that begins after it with a proof for an address the account has
not been moved to since is refused, if its proof is severed. -/
theorem previous_address_refused (h : D.Reaches cfg) {initial : String → String → Option String}
    {initialAddress : String → String → String} (hpw : Passwords initial cfg.log)
    (haddr : Addresses initialAddress cfg.log) (hsha : Injective D.env.sha256) {confirm : ℕ}
    {changeToken : String} (hconfirm : D.calls confirm = .confirmEmailChange changeToken)
    (hok : cfg.pool confirm = .ret (.ok .done)) :
    ∃ l₁ w l₂ userId tenantId newEmail, cfg.log = l₁ ++ w :: l₂ ∧ w.tid = confirm ∧
      moved userId tenantId w = some newEmail ∧
      ∀ old, (∀ e ∈ w :: l₂, moved userId tenantId e ≠ some old) →
      ∀ tid email newPassword token otp verifiedToken,
        D.calls tid = .resetPassword email tenantId newPassword token otp verifiedToken →
        D.env.normalizeEmail email = old → localTrace tid l₁ = [] →
        Severed D.env cfg.log userId tenantId tid (dispatch D.env.resetMethod token otp verifiedToken) →
        Refused cfg tid := by
  obtain ⟨l₁, w, l₂, userId, tenantId, newEmail, hlog, hw, hmoved⟩ := h.moved_of_confirmed hconfirm hok
  refine ⟨l₁, w, l₂, userId, tenantId, newEmail, hlog, hw, hmoved, ?_⟩
  rintro old hold tid email newPassword token otp verifiedToken hcall rfl hlate hsevered
  have htid : w.tid ≠ tid := by
    rintro rfl
    rw [hw, hconfirm] at hcall
    cases hcall
  cases hdispatch : dispatch D.env.resetMethod token otp verifiedToken with
  | none =>
    exact h.refused_of_malformed hcall hdispatch
  | some how =>
    rw [hdispatch] at hsevered
    cases how with
    | otp code =>
      obtain ⟨hreturned, hwrote⟩ := h.found_of_otp hcall hdispatch
      constructor
      · intro a ha
        refine h.not_found haddr hlog hmoved hold hlate htid hsevered (append_nil _).symm (hreturned a ha)
      · intro e he hetid
        by_contra hwrites
        obtain ⟨m₁, m₂, hcut⟩ := append_of_mem he
        exact h.not_found haddr hlog hmoved hold hlate htid hsevered hcut (hwrote m₁ e m₂ hcut hetid hwrites)
    | stored kind raw =>
      have hpresents : (D.calls tid).presents D.env = some (kind, D.env.sha256 raw) := by
        rw [hcall]
        show presentedBy D.env token otp verifiedToken = _
        rw [presentedBy, hdispatch]
      constructor
      · intro a ha
        have hproved := h.proved ha
        rw [hpresents] at hproved
        exact h.not_proved hpw hsha (append_nil _).symm hsevered hproved
      · intro e he hetid
        obtain ⟨m₁, m₂, hcut⟩ := append_of_mem he
        have hobeys := h.obeys hcut
        rw [hetid, hpresents] at hobeys
        obtain ⟨t, pre, op, r⟩ := e
        unfold writes
        split
        · next heq =>
          cases heq
          exact absurd hobeys.2 (h.not_proved hpw hsha hcut hsevered)
        · rfl

end Runs

/-! ### Runs -/

theorem move_of_moved {userId tenantId email : String} {e : Event} (h : moved userId tenantId e = some email) :
    move e = some (userId, tenantId, email) := by
  obtain ⟨⟨id, tenant, address⟩, hm, hkey⟩ := bind_eq_some_iff.mp h
  split_ifs at hkey with hsame
  obtain ⟨rfl, rfl⟩ := hsame
  cases hkey
  exact hm

/-- What began after a call that was made before it has nothing before the entries of that call. -/
theorem OneByOne.late {n : ℕ} {cfg : Snapshot} (h : OneByOne n cfg) {l₁ l₂ : List Event} {w : Event}
    (hlog : cfg.log = l₁ ++ w :: l₂) {tid : ℕ} (htid : w.tid < tid) : localTrace tid l₁ = [] := by
  refine map_eq_nil_iff.mpr (filter_eq_nil_iff.mpr fun e he => ?_)
  have hsorted := h.1
  rw [hlog, map_append, map_cons, pairwise_append] at hsorted
  have hle := hsorted.2.2 e.tid (mem_map_of_mem he) w.tid mem_cons_self
  simp only [decide_eq_true_eq]
  omega

namespace Demo

/-- The address an account of this deployment has at first. -/
def address (_ _ : String) : String := "a@example.com"

/-- A request to move the account. -/
def moveRequest : Call := .requestEmailChange "t1" "u1" "b@example.com" "pw"

end Demo

open Recovery.Demo

open BymaxAuth.Demo (alice)

/-- A code is sent, the account moves, and the code is refused. -/
theorem previous_address_refused_code : ∃ cfg,
    (deployment .otp alice [.initiateReset "a@example.com" "t1", moveRequest,
      .confirmEmailChange "r2", reset none (some "123456") none]).Reaches cfg ∧
    cfg.pool 2 = .ret (.ok .done) ∧ Refused cfg 3 := by
  refine exists_reaches
    (acts 0 4 "123456" "" ++ acts 1 7 "r2" "" ++ acts 2 4 "" "" ++ acts 3 3 "" "")
    (fun cfg => Passwords (initial alice) cfg.log ∧ Addresses address cfg.log ∧
      (cfg.pool 2).answered = some .done ∧ isOneByOne 3 cfg ∧
      (∀ e ∈ cfg.log, ∀ m ∈ move e, m = ("u1", "t1", "b@example.com")) ∧
      ∀ e ∈ cfg.log, e.tid = 3 → shows e.ev = none) (by decide +kernel) ?_
  rintro cfg h ⟨hpw, haddr, hdone, hone, hmoves, hnone⟩
  have hdone := Prog.answered_eq_some.mp hdone
  obtain ⟨l₁, w, l₂, userId, tenantId, newEmail, hlog, hw, hmoved, hrefused⟩ :=
    previous_address_refused h hpw haddr injective_id rfl hdone
  have hmove : ∀ {u t email e}, e ∈ cfg.log → moved u t e = some email →
      (u, t, email) = ("u1", "t1", "b@example.com") := by
    intro u t email e he hm
    exact hmoves e he _ (move_of_moved hm)
  have hmem : ∀ {e}, e ∈ w :: l₂ → e ∈ cfg.log := fun he => hlog ▸ mem_append_right _ he
  cases hmove (hmem mem_cons_self) hmoved
  refine ⟨hdone, hrefused "a@example.com" (fun e he hm => ?_) 3 "a@example.com" "other" none (some "123456")
    none rfl rfl ((oneByOne_of_test hone).late hlog (by rw [hw]; decide)) ?_⟩
  · exact absurd (congrArg (·.2.2) (hmove (hmem he) hm)) (by decide)
  · intro e he htid u hu
    rw [hnone e he htid] at hu
    cases hu

/-- Proofs of the old address that are accepted after the account has moved, with no other account and no other
change: a link, and a verified token. -/
theorem previous_address_accepted :
    (∃ cfg, (deployment .token alice [.initiateReset "a@example.com" "t1", moveRequest,
        .confirmEmailChange "r2", reset (some "r1") none none]).Reaches cfg ∧
      Passwords (initial alice) cfg.log ∧ Addresses address cfg.log ∧ OneByOne 4 cfg) ∧
    ∃ cfg, (deployment .otp alice [.initiateReset "a@example.com" "t1",
        .verifyResetOtp "a@example.com" "t1" "123456", moveRequest, .confirmEmailChange "r2",
        reset none none (some "r1")]).Reaches cfg ∧
      Passwords (initial alice) cfg.log ∧ Addresses address cfg.log ∧ OneByOne 5 cfg := by
  constructor
  · exact exists_reaches
      (acts 0 5 "r1" "" ++ acts 1 7 "r2" "" ++ acts 2 4 "" "" ++ acts 3 7 "" "h1")
      (fun cfg => Passwords (initial alice) cfg.log ∧ Addresses address cfg.log ∧
        isOneByOne 4 cfg) (by decide +kernel) fun _ _ hp => ⟨hp.1, hp.2.1, oneByOne_of_test hp.2.2⟩
  · exact exists_reaches (acts 0 4 "123456" "" ++ acts 1 4 "r1" "" ++ acts 2 7 "r2" "" ++
        acts 3 4 "" "" ++ acts 4 7 "" "h1")
      (fun cfg => Passwords (initial alice) cfg.log ∧ Addresses address cfg.log ∧
        isOneByOne 5 cfg) (by decide +kernel) fun _ _ hp => ⟨hp.1, hp.2.1, oneByOne_of_test hp.2.2⟩

end BymaxAuth.SingleUse.Recovery
