import BymaxAuth.Engine.Kit
import BymaxAuth.SingleUse.Recovery.Flows

/-!
# What the recovery flows may do

`Obeys env presented tr c` — the handler of a call that presents this stored proof, if any, may issue `c` after
the exchanges `tr`.

A proof is stored under the hash of a token just drawn, with the fingerprint of the account the handler has
looked up. A password is written with the hash just derived; and if the call presents a stored proof, the
handler has consumed it, and found it bound to nothing, or to the password of the account as it was
afterwards.
-/

namespace BymaxAuth.SingleUse.Recovery

open Concurrency List

/-! ### Parts that ask nothing of the host -/

/-- A command on the session or the account keys. -/
def OnStores : Op → Prop
  | .host _ => False
  | _ => True

section OnStores

variable {env : Env}

theorem onStores_of_plain (c : Op) (h : Plain c) : OnStores c := by
  cases c with
  | host c => exact absurd h id
  | _ => trivial

theorem onStores_revokeAllSessions (tenantId : Option String) (userId : String) :
    Only OnStores (revokeAllSessions env.toEnv tenantId userId) := kit_revokeAllSessions .only onStores_of_plain _ _

theorem onStores_assertNotLocked (identifier : String) : Only OnStores (assertNotLocked env.toEnv identifier) :=
  kit_assertNotLocked .only (fun c hc => onStores_of_plain c hc.plain) _

theorem onStores_keptSession (tenantId userId : String) (currentRefresh : Option String) :
    Only OnStores (keptSession env tenantId userId currentRefresh) := by
  cases currentRefresh with
  | none => exact .pure _
  | some raw =>
    exact .bind (.ite (.throw_bind _ _) (kit_resolveLiveSession .only onStores_of_plain _ _ _)) fun _ => .pure _

theorem onStores_endOtherSessions (tenantId userId : String) (kept : Option String) :
    Only OnStores (endOtherSessions env tenantId userId kept) := by
  cases kept with
  | none => exact onStores_revokeAllSessions _ _
  | some kept =>
    refine .bind (.tryCatch ?_ fun e => .ite (.pure _) (.throw _)) fun ended => ?_
    · exact .bind (kit_revokeAllExceptCurrent .only onStores_of_plain _ _ _) fun _ => .pure _
    · exact .ite (.pure _) (onStores_revokeAllSessions _ _)

end OnStores

/-! ### Parts of the handlers -/

/-- A command that looks an account up, draws a secret, asks the corpus or sends a mail, or works on the
engine's own stores: it writes no account and no single-use key. -/
def Idle : Op ⊕ Cmd → Prop
  | .inl (.host (.findById ..)) | .inl (.host (.findByEmail ..)) => True
  | .inl (.host _) => False
  | .inl _ => True
  | .inr .generateSecureToken | .inr (.generateOtp _) | .inr (.isBreached _) => True
  | .inr (.sendPasswordResetToken ..) | .inr (.sendEmailChangeVerification ..) => True
  | .inr _ => False

section Parts

variable {env : Env} {P : Op ⊕ Cmd → Prop}

theorem only_assertUserNotBlocked (user : AuthUser) : Only P (assertUserNotBlocked env user) := by
  unfold assertUserNotBlocked
  split
  · exact .throw _
  · exact .pure _

theorem only_assertStillBound (context : EmailChangeContext) (user : AuthUser) :
    Only P (assertStillBound env context user) := .ite (.pure _) (.ite (.pure _) (.throw _))

theorem only_verifyOtp (hverify : ∀ key code, P (.inr (.verifyOtp key code maxAttempts))) (tenantId email otp : String) :
    Only P (verifyOtp env tenantId email otp) := by
  refine .bind (.issue (hverify _ _)) fun reply => ?_
  cases reply with
  | expired => exact .throw _
  | max => exact .throw _
  | present stored => exact .ite (.pure _) (.throw _)

variable (hidle : ∀ c, Idle c → P c)
include hidle

theorem only_lift {α : Type} {x : BymaxAuth.Act α} (hx : Only OnStores x) : Only P (lift x : Act α) := by
  refine .lift hx fun c hc => hidle _ ?_
  cases c with
  | host c => exact absurd hc id
  | session c => trivial
  | account c => trivial
  | mfa c => trivial

theorem only_sendResetOtp (hput : ∀ key code, P (.inr (.putOtp key code env.otpTtl))) (tenantId email : String) :
    Only P (sendResetOtp env tenantId email) :=
  .bind (.issue (hidle _ trivial)) fun _ => .issue (hput _ _)

theorem only_sendResetToken (hput : ∀ kind hash context ttl, P (.inr (.putProof kind hash context ttl)))
    (hdel : ∀ hash, P (.inr (.deleteToken hash))) (user : AuthUser) (email tenantId : String) :
    Only P (sendResetToken env user email tenantId) :=
  .bind (.issue (hidle _ trivial)) fun _ => .bind (.issue (hput _ _ _ _)) fun _ =>
    .bind (.issue (hidle _ trivial)) fun _ => .ite (.issue (hdel _)) (.pure _)

section

variable (hbegin : ∀ key, P (.inr (.tryBeginResend key resendCooldownSecs)))
include hbegin

theorem only_issueProof {send : AuthUser → Act Unit} (hsend : ∀ user, Only P (send user)) (email tenantId : String) :
    Only P (issueProof env send email tenantId) := by
  refine .bind (.issue (hbegin _)) fun _ => .ite (.pure _) (.bind (.issue (hidle _ trivial)) fun _ => ?_)
  split
  · exact .pure _
  · split
    · exact .pure _
    · exact hsend _

theorem only_initiateReset (hcode : ∀ key code, P (.inr (.putOtp key code env.otpTtl)))
    (hput : ∀ kind hash context ttl, P (.inr (.putProof kind hash context ttl)))
    (hdel : ∀ hash, P (.inr (.deleteToken hash))) (email tenantId : String) :
    Only P (initiateReset env email tenantId) := by
  refine only_issueProof hidle hbegin (fun user => ?_) _ _
  cases env.resetMethod with
  | otp => exact only_sendResetOtp hidle hcode _ _
  | token => exact only_sendResetToken hidle hput hdel _ _ _

theorem only_resendResetOtp (hcode : ∀ key code, P (.inr (.putOtp key code env.otpTtl))) (email tenantId : String) :
    Only P (resendResetOtp env email tenantId) :=
  only_issueProof hidle hbegin (fun _ => only_sendResetOtp hidle hcode _ _) _ _

end

theorem only_verifiedAccount (tenantId email : String) : Only P (verifiedAccount tenantId email) := by
  refine .bind (.issue (hidle _ trivial)) fun _ => ?_
  split
  · exact .pure _
  · exact .throw _

theorem only_verifyResetOtp (hverify : ∀ key code, P (.inr (.verifyOtp key code maxAttempts)))
    (hput : ∀ kind hash context ttl, P (.inr (.putProof kind hash context ttl))) (email tenantId otp : String) :
    Only P (verifyResetOtp env email tenantId otp) :=
  .bind (only_verifyOtp hverify _ _ _) fun _ => .bind (only_verifiedAccount hidle _ _) fun _ =>
    .bind (.issue (hidle _ trivial)) fun _ => .bind (.issue (hput _ _ _ _)) fun _ => .pure _

theorem only_assertAcceptable (newPassword field : String) : Only P (assertAcceptable env newPassword field) :=
  .ite (.throw_bind _ _) (.bind (.issue (hidle _ trivial)) fun _ => .ite (.throw _) (.pure _))

theorem only_assertProofStillBound (context : ResetContext) : Only P (assertProofStillBound env context) :=
  .ite (.pure _) (.bind (.issue (hidle _ trivial)) fun _ => .ite (.pure _) (.throw _))

variable {newPassword : String}

theorem only_applyPasswordReset (hhash : P (.inl (.host (.hashPassword newPassword))))
    (hwrite : ∀ id tenantId phc, P (.inl (.host (.updatePassword id tenantId phc)))) (userId tenantId : String) :
    Only P (lift (applyPasswordReset env.toEnv userId tenantId newPassword) : Act Unit) :=
  fun _ => ⟨hhash, fun _ => ⟨hwrite _ _ _, fun _ =>
    only_lift hidle (onStores_revokeAllSessions (some tenantId) userId) _⟩⟩

theorem only_resetPassword (hverify : ∀ key code, P (.inr (.verifyOtp key code maxAttempts)))
    (hconsume : ∀ kind hash, P (.inr (.consumeProof kind hash)))
    (hhash : P (.inl (.host (.hashPassword newPassword))))
    (hwrite : ∀ id tenantId phc, P (.inl (.host (.updatePassword id tenantId phc)))) (email tenantId : String)
    (token otp verifiedToken : Option String) :
    Only P (resetPassword env email tenantId newPassword token otp verifiedToken) := by
  unfold resetPassword
  cases dispatch env.resetMethod token otp verifiedToken with
  | none => exact .throw _
  | some dispatch =>
    refine .bind (only_assertAcceptable hidle _ _) fun _ => ?_
    cases dispatch with
    | stored kind raw =>
      refine .bind (.issue (hconsume _ _)) fun consumed => ?_
      cases consumed with
      | none => exact .throw _
      | some context =>
        refine .ite (.throw_bind _ _) (.bind (only_assertProofStillBound hidle _) fun _ => ?_)
        exact only_applyPasswordReset hidle hhash hwrite _ _
    | otp code =>
      refine .bind (only_verifyOtp hverify _ _ _) fun _ => .bind (only_verifiedAccount hidle _ _) fun _ => ?_
      exact only_applyPasswordReset hidle hhash hwrite _ _

theorem only_changePassword (hhash : P (.inl (.host (.hashPassword newPassword))))
    (hwrite : ∀ id tenantId phc, P (.inl (.host (.updatePassword id tenantId phc))))
    (tenantId userId currentPassword : String) (currentRefresh : Option String) :
    Only P (changePassword env tenantId userId currentPassword newPassword currentRefresh) := by
  refine .bind (.issue (hidle _ trivial)) fun found => ?_
  split
  · exact .throw _
  · refine .bind (only_lift hidle (onStores_assertNotLocked _)) fun _ => .ite ?_ ?_
    · exact .bind (.bind (.issue (hidle _ trivial)) fun _ => .pure _) fun _ => .throw_bind _ _
    · refine .bind (.issue (hidle _ trivial)) fun _ => ?_
      refine .bind (only_lift hidle (onStores_keptSession _ _ _)) fun _ => ?_
      refine .bind (only_assertAcceptable hidle _ _) fun _ => .bind (.issue hhash) fun _ => ?_
      exact .bind (.issue (hwrite _ _ _)) fun _ => only_lift hidle (onStores_endOtherSessions _ _ _)

theorem only_assertAddressIsFree (user : AuthUser) (newEmail : String) :
    Only P (assertAddressIsFree env user newEmail) :=
  .ite (.throw_bind _ _) (.bind (.issue (hidle _ trivial)) fun _ => .ite (.throw _) (.pure _))

theorem only_requestEmailChange (hput : ∀ hash context ttl, P (.inr (.putEmailChange hash context ttl)))
    (tenantId userId newEmail currentPassword : String) :
    Only P (requestEmailChange env tenantId userId newEmail currentPassword) := by
  refine .bind (.issue (hidle _ trivial)) fun found => ?_
  cases found with
  | none => exact .throw _
  | some user =>
    dsimp only
    split
    · exact .throw _
    · refine .bind (only_assertUserNotBlocked _) fun _ => ?_
      refine .bind (only_lift hidle (onStores_assertNotLocked _)) fun _ => ?_
      refine .ite ?_ (.bind (.issue (hidle _ trivial)) fun _ => ?_)
      · exact .bind (.bind (.issue (hidle _ trivial)) fun _ => .pure _) fun _ => .throw_bind _ _
      · refine .bind (only_assertAddressIsFree hidle _ _) fun _ => .bind (.issue (hidle _ trivial)) fun _ => ?_
        exact .bind (.issue (hput _ _ _)) fun _ => .bind (.issue (hidle _ trivial)) fun _ => .ite (.throw _) (.pure _)

theorem only_confirmEmailChange (hconsume : ∀ hash, P (.inr (.consumeEmailChange hash)))
    (hmove : ∀ id tenantId email, P (.inr (.updateEmail id tenantId email))) (token : String) :
    Only P (confirmEmailChange env token) := by
  refine .bind (.issue (hconsume _)) fun consumed => ?_
  cases consumed with
  | none => exact .throw _
  | some context =>
    refine .bind (.issue (hidle _ trivial)) fun found => ?_
    cases found with
    | none => exact .throw _
    | some user =>
      refine .bind (only_assertStillBound _ _) fun _ => .bind (only_assertUserNotBlocked _) fun _ => ?_
      refine .bind (only_assertAddressIsFree hidle _ _) fun _ => ?_
      exact .bind (.issue (hmove _ _ _)) fun _ => .ite (.throw _) (.pure _)

end Parts

/-! ### What a handler may issue -/

/-- The hash under which an exchange stored a proof. -/
def puts (ev : Exchange) : Option String :=
  match ev with
  | ⟨.inr (.putProof _ hash ..), _⟩ => some hash
  | _ => none

/-- The password hash an exchange wrote. -/
def writes (ev : Exchange) : Option String :=
  match ev with
  | ⟨.inl (.host (.updatePassword _ _ hash)), _⟩ => some hash
  | _ => none

variable (env : Env)

/-- The handler has looked up the account the context is of. -/
def LookedUp (tr : Trace) (context : ResetContext) : Prop :=
  ∃ u email, ⟨.inl (.host (.findByEmail email context.tenantId)), some u⟩ ∈ tr ∧
    u.tenantId = context.tenantId ∧ context = contextOf env u email context.tenantId

/-- The context is bound to nothing, or an account lookup of this trace showed what it is bound to. -/
def StillBound (tr : Trace) (context : ResetContext) : Prop :=
  context.passwordFingerprint = "" ∨
    ∃ found, ⟨.inl (.host (.findById context.userId (some context.tenantId))), found⟩ ∈ tr ∧
      digestEq env (found.elim "" (passwordFingerprint env)) context.passwordFingerprint = true

/-- What the handler has consumed was there, and was compared with the account afterwards. -/
def Compared (tr : Trace) : Prop :=
  ∀ tr₁ tr₂ kind hash consumed, tr = tr₁ ++ ⟨.inr (.consumeProof kind hash), consumed⟩ :: tr₂ →
    ∃ context, consumed = some context ∧ StillBound env tr₂ context

/-- The handler has asked for this proof. -/
def Consumed (tr : Trace) (kind : ProofKind) (hash : String) : Prop :=
  ∃ consumed, ⟨.inr (.consumeProof kind hash), consumed⟩ ∈ tr

/-- The stored proof among the proofs of a request, if that is what they are dispatched to. -/
def presentedBy (token otp verifiedToken : Option String) : Option (ProofKind × String) :=
  match dispatch env.resetMethod token otp verifiedToken with
  | some (.stored kind raw) => some (kind, env.sha256 raw)
  | _ => none

/-- The stored proof a call presents. -/
def Call.presents : Call → Option (ProofKind × String)
  | resetPassword _ _ _ token otp verifiedToken => presentedBy env token otp verifiedToken
  | _ => none

/-- The handler has asked for the proof it was given, if any, and compared what it consumed. -/
structure Proved (presented : Option (ProofKind × String)) (tr : Trace) : Prop where
  /-- What was consumed was compared. -/
  compared : Compared env tr
  /-- What was given was consumed. -/
  consumed : ∀ kind hash, presented = some (kind, hash) → Consumed tr kind hash

/-- What the handler of a call that presents this proof may issue next. -/
def Obeys (presented : Option (ProofKind × String)) (tr : Trace) : Op ⊕ Cmd → Prop
  | .inr (.putProof _ hash context _) => pending (mints env) puts tr = some hash ∧ LookedUp env tr context
  | .inl (.host (.updatePassword _ _ hash)) =>
    pending derives writes tr = some hash ∧ Proved env presented tr
  | _ => True

/-! ### The flows obey -/

section Specs

variable {env} {tr : Trace} {presented : Option (ProofKind × String)}

/-- The exchange consumed a proof. -/
def consumes (ev : Exchange) : Bool :=
  match ev with
  | ⟨.inr (.consumeProof ..), _⟩ => true
  | _ => false

/-- A handler that has consumed nothing has nothing to compare. -/
def Unspent (tr : Trace) : Prop := ∀ ev ∈ tr, consumes ev = false

/-- A part that obeys and consumes nothing. -/
abbrev Spares {α : Type} (env : Env) (presented : Option (ProofKind × String)) (tr : Trace) (x : Act α) : Prop :=
  Triple (Obeys env presented) (fun tr _ => Unspent tr) (fun _ => True) tr x

theorem Unspent.nil : Unspent [] := fun _ h => absurd h not_mem_nil

theorem Unspent.compared (h : Unspent tr) : Compared env tr := by
  rintro tr₁ tr₂ kind hash consumed rfl
  exact absurd (h _ (mem_append_right _ mem_cons_self)) (by simp [consumes])

theorem Unspent.snoc (h : Unspent tr) (ev : Exchange) (hev : consumes ev = false) : Unspent (tr ++ [ev]) := by
  intro x hx
  rcases mem_append.mp hx with hx | hx
  · exact h x hx
  · rw [mem_singleton.mp hx]
    exact hev

/-- What was compared stays so, if nothing else is consumed. -/
theorem Compared.append (h : Compared env tr) {tr' : Trace} (h' : Unspent tr') : Compared env (tr ++ tr') := by
  intro tr₁ tr₂ kind hash consumed heq
  rw [append_eq_append_iff] at heq
  rcases heq with ⟨m, rfl, hm⟩ | ⟨m, rfl, hm⟩
  · -- Consumed later than `tr`: excluded.
    rw [hm] at h'
    exact absurd (h' _ (mem_append_right _ mem_cons_self)) (by simp [consumes])
  · cases m with
    | nil =>
      rw [nil_append] at hm
      rw [← hm] at h'
      exact absurd (h' _ mem_cons_self) (by simp [consumes])
    | cons x m =>
      rw [cons_append, List.cons.injEq] at hm
      obtain ⟨rfl, rfl⟩ := hm
      obtain ⟨context, rfl, hempty | ⟨found, hfound, heq⟩⟩ := h tr₁ m kind hash consumed rfl
      · exact ⟨context, rfl, .inl hempty⟩
      · exact ⟨context, rfl, .inr ⟨found, mem_append_left _ hfound, heq⟩⟩

/-- A part on the stores keeps what was compared. -/
theorem spec_lift {α : Type} {x : BymaxAuth.Act α} (hx : Only OnStores x) {P : Trace → Prop} (hP : P tr)
    (hgrow : ∀ tr ev, P tr → consumes ev = false → P (tr ++ [ev])) :
    Triple (Obeys env presented) (fun tr _ => P tr) (fun _ => True) tr (lift x) := by
  refine .lift hx fun tr' htr => ⟨fun c hc => ?_, fun _ => ?_, trivial⟩
  · cases c with
    | host c => exact absurd hc id
    | session c => trivial
    | account c => trivial
    | mfa c => trivial
  · induction tr' using List.reverseRecOn with
    | nil => rwa [append_nil]
    | append_singleton tr' ev ih =>
      rw [← append_assoc]
      refine hgrow _ _ (ih fun ev hev => htr ev (mem_append_left _ hev)) ?_
      obtain ⟨c, -, hop⟩ := htr ev (mem_append_right _ (mem_singleton_self _))
      obtain ⟨op, r⟩ := ev
      cases hop
      rfl

/-- A handler that has consumed one proof, and compared it. -/
theorem Unspent.compared_consume (h : Unspent tr) {kind : ProofKind} {hash : String} {context : ResetContext}
    {tr' : Trace} (hbound : StillBound env tr' context) (h' : Unspent tr') :
    Compared env (tr ++ ⟨.inr (.consumeProof kind hash), some context⟩ :: tr') := by
  intro tr₁ tr₂ kind₂ hash₂ consumed heq
  rw [append_eq_append_iff] at heq
  rcases heq with ⟨m, rfl, hm⟩ | ⟨m, rfl, hm⟩ <;> cases m
  · cases hm
    exact ⟨context, rfl, hbound⟩
  · -- A second consumption, after the one there was.
    cases hm
    exact absurd (h' _ (mem_append_right _ mem_cons_self)) (by simp [consumes])
  · cases hm
    exact ⟨context, rfl, hbound⟩
  · -- A second consumption, before the one there was.
    cases hm
    exact absurd (h _ (mem_append_right _ mem_cons_self)) (by simp [consumes])

theorem Unspent.proved (h : Unspent tr) (hnone : presented = none) : Proved env presented tr where
  compared := h.compared
  consumed := by
    rintro kind hash rfl
    cases hnone

theorem Proved.snoc (h : Proved env presented tr) (ev : Exchange) (hev : consumes ev = false) :
    Proved env presented (tr ++ [ev]) where
  compared := h.compared.append fun x hx => by rw [mem_singleton.mp hx]; exact hev
  consumed kind hash heq := (h.consumed kind hash heq).imp fun _ hmem => mem_append_left _ hmem

/-- The write of a password: a hash is derived, and written. -/
theorem spec_applyPasswordReset (h : Proved env presented tr) (userId tenantId newPassword : String) :
    Triple (Obeys env presented) (fun tr _ => Proved env presented tr) (fun _ => True) tr
      (lift (applyPasswordReset env.toEnv userId tenantId newPassword)) := by
  refine ⟨trivial, fun newHash => ⟨⟨?_, h.snoc _ rfl⟩, fun _ => ?_⟩⟩
  · rw [pending_snoc]
    rfl
  · exact spec_lift (onStores_revokeAllSessions (some tenantId) userId)
      ((h.snoc _ rfl).snoc _ rfl) fun _ ev h hev => h.snoc ev hev

theorem spec_assertAcceptable (password field : String) {P : Trace → Prop} (hP : P tr)
    (hgrow : ∀ tr ev, P tr → consumes ev = false → P (tr ++ [ev])) :
    Triple (Obeys env presented) (fun tr _ => P tr) (fun _ => True) tr (assertAcceptable env password field) := by
  refine .ite (fun _ => .throw_bind trivial) fun _ => .step trivial fun breached => ?_
  cases breached with
  | true => exact .throw trivial
  | false => exact .pure (hgrow _ _ hP rfl)

theorem spec_sendResetOtp (h : Unspent tr) (tenantId email : String) :
    Spares env presented tr (sendResetOtp env tenantId email) :=
  .step trivial fun _ => .issue trivial fun _ => (h.snoc _ rfl).snoc _ rfl

theorem spec_sendResetToken (h : Unspent tr) {user : AuthUser} {email tenantId : String}
    (hu : ⟨.inl (.host (.findByEmail email tenantId)), some user⟩ ∈ tr) (ht : user.tenantId = tenantId) :
    Spares env presented tr (sendResetToken env user email tenantId) := by
  refine .step trivial fun raw => .step ⟨?_, user, email, mem_append_left _ hu, ht, rfl⟩ fun _ =>
    .step trivial fun delivered => ?_
  · rw [pending_snoc]
    rfl
  · have h := ((h.snoc ⟨.inr .generateSecureToken, raw⟩ rfl).snoc
      ⟨.inr (.putProof .token (env.sha256 raw) (contextOf env user email tenantId) env.resetTokenTtl), ()⟩
      rfl).snoc ⟨.inr (.sendPasswordResetToken tenantId email raw), delivered⟩ rfl
    exact .ite (fun _ => .issue trivial fun _ => h.snoc _ rfl) fun _ => .pure h

open Unspent

theorem spec_issueProof {send : AuthUser → Act Unit} {email tenantId : String}
    (hsend : ∀ tr user, Unspent tr → ⟨.inl (.host (.findByEmail email tenantId)), some user⟩ ∈ tr →
      user.tenantId = tenantId →
      Spares env presented tr (send user)) :
    Spares env presented [] (issueProof env send email tenantId) := by
  refine .step trivial fun begun => ?_
  have h := nil.snoc ⟨.inr (.tryBeginResend (otpKey env tenantId email) resendCooldownSecs), begun⟩ rfl
  refine .ite (fun _ => .pure h) fun _ => .step trivial fun found => ?_
  have h := h.snoc ⟨.inl (.host (.findByEmail email tenantId)), found⟩ rfl
  split
  · exact .pure h
  · next user hscoped =>
    obtain ⟨rfl, ht⟩ := Option.filter_eq_some_iff.mp hscoped
    split
    · exact .pure h
    · exact hsend _ user h mem_concat_self (of_decide_eq_true ht)

theorem spec_verifyOtp (h : Unspent tr) (tenantId email otp : String) :
    Spares env presented tr (verifyOtp env tenantId email otp) := by
  refine .step trivial fun reply => ?_
  cases reply with
  | expired => exact .throw trivial
  | max => exact .throw trivial
  | present stored => exact .ite (fun _ => .pure (h.snoc _ rfl)) fun _ => .throw trivial

theorem spec_verifiedAccount (h : Unspent tr) (tenantId email : String) :
    Triple (Obeys env presented) (fun tr user => Unspent tr ∧
      ⟨.inl (.host (.findByEmail email tenantId)), some user⟩ ∈ tr ∧ user.tenantId = tenantId)
      (fun _ => True) tr (verifiedAccount tenantId email) := by
  refine .step trivial fun found => ?_
  split
  · next user hscoped =>
    obtain ⟨rfl, ht⟩ := Option.filter_eq_some_iff.mp hscoped
    exact .pure ⟨h.snoc _ rfl, mem_concat_self, of_decide_eq_true ht⟩
  · exact .throw trivial

theorem spec_verifyResetOtp (email tenantId otp : String) :
    Spares env presented [] (verifyResetOtp env email tenantId otp) := by
  refine .bind (spec_verifyOtp .nil tenantId (env.normalizeEmail email) otp) fun tr _ h => ?_
  refine .bind (spec_verifiedAccount h tenantId (env.normalizeEmail email)) ?_
  rintro tr user ⟨h, hu, ht⟩
  refine .step trivial fun raw => .step ⟨?_, user, env.normalizeEmail email, mem_append_left _ hu, ht, rfl⟩
    fun _ => .pure ((h.snoc _ rfl).snoc _ rfl)
  rw [pending_snoc]
  rfl

theorem spec_assertProofStillBound (h : Unspent tr) (kind : ProofKind) (hash : String) (context : ResetContext) :
    Triple (Obeys env (some (kind, hash))) (fun tr _ => Proved env (some (kind, hash)) tr) (fun _ => True)
      (tr ++ [⟨.inr (.consumeProof kind hash), some context⟩]) (assertProofStillBound env context) := by
  have hproved : ∀ tr', StillBound env tr' context → Unspent tr' → Proved env (some (kind, hash))
      (tr ++ [⟨.inr (.consumeProof kind hash), some context⟩] ++ tr') := by
    intro tr' hbound h'
    rw [append_assoc]
    refine ⟨h.compared_consume hbound h', fun kind hash heq => ?_⟩
    cases heq
    exact ⟨_, mem_append_right _ mem_cons_self⟩
  refine .ite (fun hempty => .pure ?_) fun _ => .step trivial fun found => .ite (fun heq => .pure ?_)
    fun _ => .throw trivial
  · rw [← append_nil (tr ++ _)]
    exact hproved [] (.inl hempty) .nil
  · exact hproved _ (.inr ⟨found, mem_cons_self, heq⟩) (nil.snoc _ rfl)

theorem spec_resetWithStoredProof (h : Unspent tr) (kind : ProofKind) (raw tenantId email newPassword : String) :
    Triple (Obeys env (some (kind, env.sha256 raw)))
      (fun tr _ => Proved env (some (kind, env.sha256 raw)) tr) (fun _ => True) tr
      (resetWithStoredProof env kind raw tenantId email newPassword) := by
  refine .step trivial fun consumed => ?_
  cases consumed with
  | none => exact .throw trivial
  | some context =>
    refine .ite (fun _ => .throw_bind trivial) fun _ => ?_
    exact .bind (spec_assertProofStillBound h kind _ context) fun tr _ h => spec_applyPasswordReset h _ _ _

theorem spec_resetWithOtp (h : Unspent tr) (otp tenantId email newPassword : String) :
    Triple (Obeys env none) (fun tr _ => Proved env none tr) (fun _ => True) tr
      (resetWithOtp env otp tenantId email newPassword) := by
  refine .bind (spec_verifyOtp h tenantId email otp) fun tr _ h => ?_
  refine .bind (spec_verifiedAccount h tenantId email) ?_
  rintro tr user ⟨h, -, -⟩
  exact spec_applyPasswordReset (h.proved rfl) _ _ _

theorem spec_resetPassword (email tenantId newPassword : String) (token otp verifiedToken : Option String) :
    Triple (Obeys env (presentedBy env token otp verifiedToken))
      (fun tr _ => Proved env (presentedBy env token otp verifiedToken) tr) (fun _ => True) []
      (resetPassword env email tenantId newPassword token otp verifiedToken) := by
  unfold resetPassword presentedBy
  cases dispatch env.resetMethod token otp verifiedToken with
  | none => exact .throw trivial
  | some dispatch =>
    refine .bind (spec_assertAcceptable newPassword "newPassword" nil fun _ ev h => h.snoc ev)
      fun tr _ h => ?_
    cases dispatch with
    | stored kind raw => exact spec_resetWithStoredProof h kind raw tenantId _ newPassword
    | otp code => exact spec_resetWithOtp h code tenantId _ newPassword

theorem spec_changeTo (h : Unspent tr) (tenantId userId phc currentPassword newPassword : String)
    (currentRefresh : Option String) :
    Triple (Obeys env none) (fun tr _ => Unspent tr) (fun _ => True) tr
      (changeTo env tenantId userId phc currentPassword newPassword currentRefresh) := by
  have hgrow : ∀ tr ev, Unspent tr → consumes ev = false → Unspent (tr ++ [ev]) := fun _ ev h => h.snoc ev
  refine .bind (spec_lift (onStores_assertNotLocked _) h hgrow) fun tr _ h => ?_
  refine .ite (fun _ => .discard trivial fun _ => .throw_bind trivial) fun _ => .step trivial fun _ => ?_
  refine .bind (spec_lift (onStores_keptSession _ _ _) (h.snoc _ rfl) hgrow) fun tr kept h => ?_
  refine .bind (spec_assertAcceptable newPassword "newPassword" h hgrow) fun tr _ h => ?_
  refine .step trivial fun newHash => .step ⟨?_, (h.snoc _ rfl).proved rfl⟩ fun _ => ?_
  · rw [pending_snoc]
    rfl
  · exact spec_lift (onStores_endOtherSessions _ _ _) ((h.snoc _ rfl).snoc _ rfl) hgrow

theorem spec_assertUserNotBlocked (h : Unspent tr) (user : AuthUser) :
    Spares env presented tr (assertUserNotBlocked env user) := by
  unfold assertUserNotBlocked
  split
  · exact .throw trivial
  · exact .pure h

theorem spec_assertAddressIsFree (h : Unspent tr) (user : AuthUser) (newEmail : String) :
    Spares env presented tr (assertAddressIsFree env user newEmail) :=
  .ite (fun _ => .throw_bind trivial) fun _ => .step trivial fun _ =>
    .ite (fun _ => .throw trivial) fun _ => .pure (h.snoc _ rfl)

theorem spec_requestFor (h : Unspent tr) (userId newEmail currentPassword : String) (user : AuthUser) (phc : String) :
    Spares env presented tr (requestFor env userId newEmail currentPassword user phc) := by
  refine .bind (spec_assertUserNotBlocked h user) fun tr _ h => ?_
  refine .bind (spec_lift (onStores_assertNotLocked _) h fun _ ev h => h.snoc ev) fun tr _ h => ?_
  refine .ite (fun _ => .discard trivial fun _ => .throw_bind trivial) fun _ => .step trivial fun _ => ?_
  refine .bind (spec_assertAddressIsFree (h.snoc _ rfl) user newEmail) fun tr _ h => ?_
  refine .step trivial fun _ => .step trivial fun _ => .step trivial fun _ => ?_
  exact .ite (fun _ => .throw trivial) fun _ => .pure (((h.snoc _ rfl).snoc _ rfl).snoc _ rfl)

theorem spec_requestEmailChange (tenantId userId newEmail currentPassword : String) :
    Spares env presented [] (requestEmailChange env tenantId userId newEmail currentPassword) := by
  refine .step trivial fun found => ?_
  cases found with
  | none => exact .throw trivial
  | some user =>
    dsimp only
    split
    · exact .throw trivial
    · exact spec_requestFor (nil.snoc _ rfl) _ _ _ _ _

theorem spec_assertStillBound (h : Unspent tr) (context : EmailChangeContext) (user : AuthUser) :
    Spares env presented tr (assertStillBound env context user) :=
  .ite (fun _ => .pure h) fun _ => .ite (fun _ => .pure h) fun _ => .throw trivial

theorem spec_confirmEmailChange (token : String) : Spares env presented [] (confirmEmailChange env token) := by
  refine .step trivial fun consumed => ?_
  cases consumed with
  | none => exact .throw trivial
  | some context =>
    refine .step trivial fun found => ?_
    cases found with
    | none => exact .throw trivial
    | some user =>
      have h := (nil.snoc ⟨.inr (.consumeEmailChange (env.sha256 token)), some context⟩ rfl).snoc
        ⟨.inl (.host (.findById context.userId (some context.tenantId))), some user⟩ rfl
      refine .bind (spec_assertStillBound h context user) fun tr _ h => ?_
      refine .bind (spec_assertUserNotBlocked h user) fun tr _ h => ?_
      refine .bind (spec_assertAddressIsFree h user context.newEmail) fun tr _ h => .step trivial fun _ => ?_
      exact .ite (fun _ => .throw trivial) fun _ => .pure (h.snoc _ rfl)

/-- Every handler obeys, and one that ended with an answer has proved what its call had to. -/
theorem call_obeys (env : Env) (call : Call) :
    Triple (Obeys env (call.presents env)) (fun tr _ => Proved env (call.presents env) tr) (fun _ => True) []
      (call.act env) := by
  cases call with
  | initiateReset email tenantId =>
    refine .map ((spec_issueProof fun tr user h hu ht => ?_).mono (fun _ _ h => h.proved rfl) fun _ _ => trivial)
    cases env.resetMethod with
    | otp => exact spec_sendResetOtp h tenantId _
    | token => exact spec_sendResetToken h hu ht
  | resendResetOtp email tenantId =>
    exact .map ((spec_issueProof fun tr user h _ _ => spec_sendResetOtp h tenantId _).mono
      (fun _ _ h => h.proved rfl) fun _ _ => trivial)
  | verifyResetOtp email tenantId otp =>
    exact .map ((spec_verifyResetOtp email tenantId otp).mono (fun _ _ h => h.proved rfl) fun _ _ => trivial)
  | resetPassword email tenantId newPassword token otp verifiedToken =>
    exact .map (spec_resetPassword email tenantId newPassword token otp verifiedToken)
  | changePassword tenantId userId currentPassword newPassword currentRefresh =>
    refine .map (.step trivial fun found => ?_)
    split
    · exact .throw trivial
    · exact (spec_changeTo (nil.snoc _ rfl) tenantId userId _ currentPassword newPassword
        currentRefresh).mono (fun _ _ h => h.proved rfl) fun _ _ => trivial
  | requestEmailChange tenantId userId newEmail currentPassword =>
    exact .map ((spec_requestEmailChange tenantId userId newEmail currentPassword).mono
      (fun _ _ h => h.proved rfl) fun _ _ => trivial)
  | confirmEmailChange token =>
    exact .map ((spec_confirmEmailChange token).mono (fun _ _ h => h.proved rfl) fun _ _ => trivial)

end Specs

end BymaxAuth.SingleUse.Recovery
