import BymaxAuth.Engine.Calls

/-!
# What a refused refresh has done

`refresh` rotates first and asks the account gates after that, because the owner is known only then. What
a gate that refuses leaves behind is what it does about the session the rotation has just stored.

## The model

`Refusal env claims tr`: behind the rotation and its own check of the new access token, a handler has ended
at a gate, with the exchanges `tr`. An account that is gone or blocked is swept and its epoch bumped; an
unproven address is refused and nothing is undone.
-/

namespace BymaxAuth

open Concurrency List

/-- What a refresh of the token `hash` issues before its gates: it presents no other token to the rotation
script, and reads no account. -/
def BeforeGates (hash : String) : Op → Prop
  | .session (.refreshRotate a) => a.oldHash = hash
  | .host (.findById _ _) => False
  | _ => True

/-- What it issues at all. -/
def Presenting (hash : String) (c : Op) : Prop := ∀ a, c = .session (.refreshRotate a) → a.oldHash = hash

theorem BeforeGates.presenting {hash : String} {c : Op} (h : BeforeGates hash c) : Presenting hash c := by
  rintro a rfl
  exact h

variable {env : Env} {hash : String}

/-! ### Before the gates -/

theorem beforeGates_of_timed (c : Op) (h : Timed c) : BeforeGates hash c := by
  cases c with
  | session c | host c => cases c <;> first | exact absurd h id | trivial
  | _ => trivial

theorem only_reissueTokens (rawRefresh ip userAgent : String) :
    Only (BeforeGates (env.redisHash rawRefresh)) (reissueTokens env rawRefresh ip userAgent) :=
  kit_reissueTokens .only beforeGates_of_timed (fun _ h => h) (fun _ => trivial) (fun _ _ => trivial) _ _

theorem only_verifyAccess (hash : String) (token : AccessClaims) :
    Only (BeforeGates hash) (verifyAccess env token) := kit_verifyAccess .only beforeGates_of_timed _

/-! ### The gates -/

/-- An account that the address gate of the plane refuses. -/
def Env.Unverified (env : Env) (user : AuthUser) : Prop :=
  env.kind = .dashboard ∧ assertNotBlocked user.status env.config.blockedStatuses = none ∧
    env.config.emailVerificationRequired = true ∧ user.emailVerified = false

/-- A handler has ended at an account gate, with these exchanges. -/
inductive Refusal (env : Env) (claims : AccessClaims) : Trace → Prop where
  /-- The account is gone. -/
  | gone {tenantId : Option String} {n epoch : ℕ} : Refusal env claims [⟨.host (.findById claims.sub tenantId), none⟩,
        ⟨.session (.invalidateUserSessions (env.subjectHash claims.tenantId claims.sub)), n⟩,
        ⟨.account (.bumpEp (env.subjectHash claims.tenantId claims.sub)), epoch⟩]
  /-- The account is blocked. -/
  | blocked {user : AuthUser} {n epoch : ℕ} : env.kind = .dashboard →
      Refusal env claims [⟨.host (.findById claims.sub claims.tenantId), some user⟩,
        ⟨.session (.invalidateUserSessions (env.subjectHash (some user.tenantId) claims.sub)), n⟩,
        ⟨.account (.bumpEp (env.subjectHash (some user.tenantId) claims.sub)), epoch⟩]
  /-- The platform account is blocked. -/
  | blockedAdmin {admin : AuthUser} {n epoch : ℕ} : env.kind = .platform →
      Refusal env claims [⟨.host (.findById claims.sub none), some admin⟩,
        ⟨.session (.invalidateUserSessions (env.subjectHash none admin.id)), n⟩,
        ⟨.account (.bumpEp (env.subjectHash none admin.id)), epoch⟩]
  /-- The address is not verified. -/
  | unverified {user : AuthUser} : env.Unverified user →
      Refusal env claims [⟨.host (.findById claims.sub claims.tenantId), some user⟩]

theorem restamp_fails {tr : Trace} (rotated : RotatedTokens) (claims : AccessClaims) (user : AuthUser) :
    Fails (fun _ => False) tr (restamp env rotated claims user) := by
  unfold restamp
  split
  · exact nofun
  · exact ⟨trivial, fun _ => ⟨trivial, fun _ => ⟨trivial, fun _ => nofun⟩⟩⟩

theorem accountGates_fails (hk : env.kind = .dashboard) (rotated : RotatedTokens) (claims : AccessClaims) :
    Fails (Refusal env claims) [] (accountGates env rotated claims) := by
  refine ⟨trivial, fun found => ?_⟩
  cases found with
  | none =>
    refine ⟨trivial, fun n => ⟨trivial, fun epoch => ?_⟩⟩
    rintro e ⟨⟩
    exact .gone
  | some user =>
    dsimp only [Prog.bind, Function.comp_apply, ExceptT.bindCont]
    split
    · refine ⟨trivial, fun n => ⟨trivial, fun epoch => ?_⟩⟩
      rintro e ⟨⟩
      exact .blocked hk
    · next hb =>
      refine Fails.ite (fun hv => ?_) fun _ => (restamp_fails _ _ _).mono fun _ => False.elim
      rintro e ⟨⟩
      rw [Bool.and_eq_true, Bool.not_eq_true'] at hv
      exact .unverified ⟨hk, hb, hv.1, hv.2⟩

theorem platformGates_fails (hk : env.kind = .platform) (rotated : RotatedTokens) (claims : AccessClaims) :
    Fails (Refusal env claims) [] (platformGates env rotated claims) := by
  -- The index of a platform account does not depend on a tenant.
  have hindex : env.subjectHash none claims.sub = env.subjectHash claims.tenantId claims.sub := by
    simp [Env.subjectHash, userSubject, hk]
  refine ⟨trivial, fun found => ?_⟩
  cases found with
  | none =>
    refine ⟨trivial, fun n => ⟨trivial, fun epoch => ?_⟩⟩
    rintro e ⟨⟩
    rw [hindex]
    exact .gone
  | some admin =>
    dsimp only [Prog.bind, Function.comp_apply, ExceptT.bindCont]
    split
    · refine ⟨trivial, fun n => ⟨trivial, fun epoch => ?_⟩⟩
      rintro e ⟨⟩
      exact .blockedAdmin hk
    · exact (restamp_fails _ _ _).mono fun _ => False.elim

/-! ### A refresh -/

variable (env) in
/-- The gates of a plane. -/
def refreshGates (rotated : RotatedTokens) (claims : AccessClaims) : Act RotatedTokens :=
  match env.kind with
  | .dashboard => accountGates env rotated claims
  | .platform => platformGates env rotated claims

/-- A refresh rotates, checks what it signed, and asks the gates of its plane. -/
theorem act_refresh (rawRefresh ip userAgent : String) :
    (Flow.refresh rawRefresh ip userAgent).act env = do
      let result ← (do
        let rotated ← reissueTokens env rawRefresh ip userAgent
        let claims ← verifyAccess env rotated.accessToken
        refreshGates env rotated claims)
      return .tokens result := by
  dsimp only [Flow.act, refreshGates]
  cases env.kind <;> rfl

theorem refreshGates_fails (rotated : RotatedTokens) (claims : AccessClaims) :
    Fails (Refusal env claims) [] (refreshGates env rotated claims) := by
  unfold refreshGates
  split
  · next hk => exact accountGates_fails hk rotated claims
  · next hk => exact platformGates_fails hk rotated claims

/-- Every token a refresh presents to the rotation script is the one it was called with. -/
theorem only_refresh (rawRefresh ip userAgent : String) :
    Only (Presenting (env.redisHash rawRefresh)) ((Flow.refresh rawRefresh ip userAgent).act env) := by
  rw [act_refresh]
  refine .bind (.bind ((only_reissueTokens _ _ _).mono fun _ => BeforeGates.presenting) fun rotated => ?_)
    fun _ => .pure _
  refine .bind ((only_verifyAccess _ _).mono fun _ => BeforeGates.presenting) fun claims => ?_
  have htimed (c : Op) (h : Timed c) : Presenting (env.redisHash rawRefresh) c := (beforeGates_of_timed c h).presenting
  unfold refreshGates
  split
  · exact kit_accountGates .only htimed (fun _ _ => nofun) _ _
  · exact kit_platformGates .only htimed (fun _ _ => nofun) _ _

/-- A refresh that has read the account and failed has stored a session, and ended at a gate. -/
theorem refresh_refused {rawRefresh ip userAgent : String} {tr : Trace} {e : AuthError}
    (h : Path ((Flow.refresh rawRefresh ip userAgent).prog env) tr (.ret (.error e))) {userId : String}
    {tenantId : Option String} {found : Option AuthUser}
    (hread : ⟨.host (.findById userId tenantId), found⟩ ∈ tr) :
    ∃ tr₁ tr₂ rotated r, tr = tr₁ ++ tr₂ ∧ Reissued env (env.redisHash rawRefresh) tr₁ r rotated ∧
      Refusal env rotated.accessToken tr₂ ∧ ⟨.host (.findById userId tenantId), found⟩ ∈ tr₂ := by
  -- The account is read neither by the rotation nor by the check of the new token.
  have hrotation : ∀ {tr : Trace} {q : Prog Op.Reply (Except AuthError RotatedTokens)},
      Path (reissueTokens env rawRefresh ip userAgent).run tr q →
      ⟨.host (.findById userId tenantId), found⟩ ∉ tr :=
    fun hp hm => (only_reissueTokens rawRefresh ip userAgent).of_path hp _ hm
  have hcheck : ∀ {token : AccessClaims} {tr : Trace} {q : Prog Op.Reply (Except AuthError AccessClaims)},
      Path (verifyAccess env token).run tr q → ⟨.host (.findById userId tenantId), found⟩ ∉ tr :=
    fun hp hm => (only_verifyAccess "" _).of_path hp _ hm
  rw [Flow.prog, act_refresh] at h
  rcases h.failed with h | ⟨_, _, _, -, -, h⟩
  · rcases h.failed with h | ⟨tr₁, rotated, tr₂, rfl, hre, h⟩
    · exact absurd hread (hrotation h)
    have hread := (mem_append.mp hread).resolve_left (hrotation hre)
    rcases h.failed with h | ⟨tr₂, claims, tr₃, rfl, hver, h⟩
    · exact absurd hread (hcheck h)
    have hread := (mem_append.mp hread).resolve_left (hcheck hver)
    obtain ⟨r, hre⟩ := (reissueTokens_returns rawRefresh ip userAgent).of_path hre
    obtain ⟨-, rfl⟩ := (verifyAccess_returns rotated.accessToken).of_path hver
    refine ⟨tr₁ ++ tr₂, tr₃, rotated, r, (append_assoc _ _ _).symm, hre.mono (prefix_append _ _), ?_, hread⟩
    exact (refreshGates_fails rotated _).of_path h
  · cases h

end BymaxAuth
