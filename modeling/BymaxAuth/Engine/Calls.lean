import BymaxAuth.Mfa.Discipline

/-!
# The calls of the engine

`Flow` names the calls a client or the host can make, and `Flow.prog` the handler that serves each.
-/

namespace BymaxAuth

open Concurrency

variable (env : Env)

/-! ### Calls -/

/-- A call of the engine. -/
inductive Flow where
  | login (email password tenantId ip userAgent : String)
  /-- Any other way to a new session: registration, OAuth, impersonation. -/
  | issue (user : AuthUser) (ip userAgent : String) (mfaVerified : Bool)
  | refresh (rawRefresh ip userAgent : String)
  /-- `revoke_all_sessions` -/
  | revokeAll (tenantId : Option String) (userId : String)
  /-- `apply_password_reset` -/
  | resetPassword (userId tenantId newPassword : String)
  /-- A listing of an account's sessions. -/
  | list (tenantId userId : String)
  /-- `revoke_session` -/
  | revoke (tenantId userId sessionHash : String)
  /-- `revoke_all_except_current` -/
  | revokeOthers (tenantId userId currentHash : String)
  | logout (access : Option AccessClaims) (rawRefresh : String)
  /-- `PlatformAuthService::login` -/
  | platformLogin (email password ip userAgent : String)
  /-- A call of the second factor's service. -/
  | mfa (call : MfaCall)

/-- What a call is answered with. -/
inductive Answer where
  /-- Nothing to say. -/
  | done
  /-- A login's result. -/
  | login (result : LoginResult)
  /-- A new session. -/
  | session (result : AuthResult)
  /-- A rotated pair. -/
  | tokens (rotated : RotatedTokens)
  /-- An account's sessions. -/
  | entries (sessions : List SessionEntry)
  /-- What a call of the second factor's service is answered with. -/
  | mfa (answer : MfaAnswer)

/-- The handler of a call. -/
def Flow.act : Flow → Act Answer
  | login email password tenantId ip userAgent =>
    return .login (← BymaxAuth.login env email password tenantId ip userAgent)
  | issue user ip userAgent mfaVerified =>
    return .session (← issueSession env user ip userAgent mfaVerified)
  | refresh rawRefresh ip userAgent =>
    return .tokens (← match env.kind with
      | .dashboard => BymaxAuth.refresh env rawRefresh ip userAgent
      | .platform => platformRefresh env rawRefresh ip userAgent)
  | revokeAll tenantId userId => do
    revokeAllSessions env tenantId userId
    return .done
  | resetPassword userId tenantId newPassword => do
    applyPasswordReset env userId tenantId newPassword
    return .done
  | list tenantId userId => return .entries (← listSessionEntries (env.subjectHash (some tenantId) userId))
  | revoke tenantId userId sessionHash => do
    revokeSessionOf env tenantId userId sessionHash
    return .done
  | revokeOthers tenantId userId currentHash => do
    revokeAllExceptCurrent env tenantId userId currentHash
    return .done
  | logout access rawRefresh => do
    BymaxAuth.logout env access rawRefresh
    return .done
  | platformLogin email password ip userAgent =>
    return .login (← BymaxAuth.platformLogin env email password ip userAgent)
  | mfa call => return .mfa (← call.act env)

/-- The program of a call. -/
def Flow.prog (f : Flow) : Prog Op.Reply (Except AuthError Answer) := (f.act env).run

/-! ### What they do -/

/-- What a call's answer says about the exchanges of its handler. -/
def Flow.Answered : Flow → Trace → Answer → Prop
  | login .., tr, a => ∃ result, a = .login result ∧ result.Shown env tr
  | issue user _ _ _, tr, a => ∃ result, a = .session result ∧ result.user = user ∧ Issued env tr result
  | refresh rawRefresh _ _, tr, a =>
    ∃ rotated r, a = .tokens rotated ∧ Refreshed env (env.redisHash rawRefresh) tr r rotated
  | revokeAll tenantId userId, tr, a => a = .done ∧ ∃ n epoch,
      tr = [⟨.session (.invalidateUserSessions (env.subjectHash tenantId userId)), n⟩,
        ⟨.account (.bumpEp (env.subjectHash tenantId userId)), epoch⟩]
  | resetPassword userId tenantId newPassword, tr, a => a = .done ∧ ∃ newHash u n epoch,
      tr = [⟨.host (.hashPassword newPassword), newHash⟩, ⟨.host (.updatePassword userId tenantId newHash), u⟩,
        ⟨.session (.invalidateUserSessions (env.subjectHash (some tenantId) userId)), n⟩,
        ⟨.account (.bumpEp (env.subjectHash (some tenantId) userId)), epoch⟩]
  | list _ _, _, a => ∃ sessions, a = .entries sessions
  | revoke _ _ _, _, a => a = .done
  | revokeOthers _ _ _, _, a => a = .done
  | logout _ _, _, a => a = .done
  | platformLogin .., tr, a => ∃ result, a = .login result ∧ result.Shown env tr
  | mfa call, tr, a => ∃ answer, a = .mfa answer ∧ call.Answered env tr answer

variable {env}

/-- Every handler obeys. -/
theorem flow_obeys (f : Flow) : Wp (Obeys env) (fun _ _ => True) [] (f.prog env) := by
  cases f with
  | login e p t ip ua => exact (calm_login e p t ip ua).map.wp _
  | issue u ip ua m => exact (calm_issueSession u ip ua m).map.wp _
  | refresh r ip ua =>
    simp only [Flow.prog, Flow.act]
    split
    · exact wp_bind_calm (refresh_obeys r ip ua) fun _ => .pure _
    · exact wp_bind_calm (platformRefresh_obeys r ip ua) fun _ => .pure _
  | revokeAll t u => exact (calm_revokeAllSessions t u).map.wp _
  | resetPassword u t p => exact (calm_applyPasswordReset u t p).map.wp _
  | list t u => exact (kit_listSessionEntries Kit.calm free_of_plain _).map.wp _
  | revoke t u h => exact (kit_revokeSessionOf Kit.calm free_of_plain t u h).map.wp _
  | revokeOthers t u h => exact (kit_revokeAllExceptCurrent Kit.calm free_of_plain t u h).map.wp _
  | logout a r => exact (kit_logout Kit.calm free_of_timed a r).map.wp _
  | platformLogin e p ip ua => exact (calm_platformLogin e p ip ua).map.wp _
  | mfa call => exact wp_bind_calm (Wp.mono (mfaCall_spec call) (fun _ _ h => h) fun _ _ _ => trivial) fun _ => .pure _

/-- What a call's answer says is so. -/
theorem act_returns (f : Flow) : Returns (f.Answered env) [] (f.act env) := by
  cases f with
  | login email password tenantId ip userAgent =>
    exact .map ((login_returns email password tenantId ip userAgent).mono fun _ r h => ⟨r, rfl, h⟩)
  | issue user ip userAgent mfaVerified =>
    exact .map ((issueSession_returns user ip userAgent mfaVerified).mono fun _ r h => ⟨r, rfl, h.2⟩)
  | refresh rawRefresh ip userAgent =>
    dsimp only [Flow.act]
    split
    · next hk =>
      refine .bind (refresh_returns rawRefresh ip userAgent) ?_
      rintro tr rotated ⟨r, h⟩
      exact .pure ⟨rotated, r, rfl, h⟩
    · next hk =>
      refine .bind (platformRefresh_returns hk rawRefresh ip userAgent) ?_
      rintro tr rotated ⟨r, h⟩
      exact .pure ⟨rotated, r, rfl, h⟩
  | revokeAll tenantId userId =>
    refine ⟨trivial, fun n => ⟨trivial, fun epoch => ?_⟩⟩
    rintro a ⟨⟩
    exact ⟨rfl, n, epoch, rfl⟩
  | resetPassword userId tenantId newPassword =>
    refine ⟨trivial, fun newHash => ⟨trivial, fun u => ⟨trivial, fun n => ⟨trivial, fun epoch => ?_⟩⟩⟩⟩
    rintro a ⟨⟩
    exact ⟨rfl, newHash, u, n, epoch, rfl⟩
  | list tenantId userId => exact .map (.any _ fun _ sessions _ => ⟨sessions, rfl⟩)
  | revoke | revokeOthers | logout => exact (Returns.grows _ _).bind fun _ _ _ => .pure rfl
  | platformLogin email password ip userAgent =>
    exact .map ((platformLogin_returns email password ip userAgent).mono fun _ r h => ⟨r, rfl, h⟩)
  | mfa call => exact .map ((mfaCall_spec call).returns.mono fun _ answer h => ⟨answer, rfl, h⟩)

end BymaxAuth
