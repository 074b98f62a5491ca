import BymaxAuth.Engine.Discipline

/-!
# What an answer says

What a handler's answer says about the exchanges it had: a pair of tokens was returned because a session
was stored under the refresh token's hash, and the access token carries the epoch of the read that came
last before its id was drawn.

`Signed tr subject jti epoch` names that read. Every token of the engine is signed this way: the epoch of
its account is read, then its id is drawn, with no other epoch read in between.
-/

namespace BymaxAuth

open Concurrency List Returns

/-- The token `jti` was stamped with `epoch`, from the last read of `subject`'s epoch before `jti` was
drawn. -/
def Signed (tr : Trace) (subject jti : String) (epoch : ℕ) : Prop :=
  ∃ tr₁ v tr₂ tr₃, tr = tr₁ ++ ⟨.account (.getEp subject), v⟩ :: (tr₂ ++ ⟨.host .newUuid, jti⟩ :: tr₃) ∧
    (∀ ev ∈ tr₂, ∀ s, ev.op ≠ .account (.getEp s)) ∧ v.getD 0 = epoch

variable {tr' : Trace} {oldHash : String} {r : SessionRecord}

theorem Signed.mono {tr : Trace} {subject jti : String} {epoch : ℕ} (h : Signed tr subject jti epoch)
    (htr : tr <+: tr') : Signed tr' subject jti epoch := by
  obtain ⟨tr₁, v, tr₂, tr₃, rfl, hno, hv⟩ := h
  obtain ⟨rest, rfl⟩ := htr
  exact ⟨tr₁, v, tr₂, tr₃ ++ rest, by simp, hno, hv⟩

/-- The raw token `raw` was stored as the successor of `oldHash`, with the record `r`. -/
inductive MadeFrom (env : Env) (oldHash : String) (tr : Trace) (raw : String) (r : SessionRecord) :
    Prop where
  /-- By the rotation of a live token. -/
  | rotated {a : Rotation} {old : Json} : ⟨.session (.refreshRotate a), .rotated old⟩ ∈ tr →
      a.oldHash = oldHash → a.newHash = env.redisHash raw → r.toJson env.codec = some a.newJson →
      MadeFrom env oldHash tr raw r
  /-- By a recovery, after a grace reply. -/
  | recovered {a : Rotation} {json : Json} {s : NewSession} :
      ⟨.session (.refreshRotate a), .grace json⟩ ∈ tr → a.oldHash = oldHash →
      ⟨.session (.recoverGrace s), true⟩ ∈ tr → s.hash = env.redisHash raw →
      r.toJson env.codec = some s.record → MadeFrom env oldHash tr raw r

theorem MadeFrom.mono {env : Env} {raw : String} {tr : Trace} (h : MadeFrom env oldHash tr raw r) (htr : tr <+: tr') :
    MadeFrom env oldHash tr' raw r := by
  cases h with
  | rotated he h₁ h₂ h₃ => exact .rotated (htr.subset he) h₁ h₂ h₃
  | recovered hg h₁ he h₂ h₃ => exact .recovered (htr.subset hg) h₁ (htr.subset he) h₂ h₃

variable (env : Env)

/-- The tenant a rotated token's claims name. -/
def Env.claimTenant (r : SessionRecord) : Option String :=
  match env.kind with
  | .dashboard => some (r.tenantId.getD "")
  | .platform => none

/-- A rotated pair: the refresh token is stored, the access token names its owner and is stamped with the
owner's epoch. -/
structure Reissued (oldHash : String) (tr : Trace) (r : SessionRecord) (rotated : RotatedTokens) :
    Prop where
  /-- The refresh token. -/
  made : MadeFrom env oldHash tr rotated.refreshToken r
  /-- The user the access token names. -/
  sub : rotated.accessToken.sub = r.userId
  /-- The tenant it names. -/
  tenantId : rotated.accessToken.tenantId = env.claimTenant r
  /-- Its stamp. -/
  signed : Signed tr (env.ownerIndex r) rotated.accessToken.jti rotated.accessToken.epoch

variable {env} {tr : Trace}

theorem Reissued.mono {rotated : RotatedTokens} (h : Reissued env oldHash tr r rotated) (htr : tr <+: tr') :
    Reissued env oldHash tr' r rotated :=
  ⟨h.made.mono htr, h.sub, h.tenantId, h.signed.mono htr⟩

/-! ### Rotating -/

theorem encode_returns (r : SessionRecord) :
    Returns (fun tr' json => tr' = tr ∧ r.toJson env.codec = some json) tr (encode env r) := by
  unfold encode
  split
  · next json hj => exact .pure ⟨rfl, hj⟩
  · exact .throw _

theorem decode_returns (json : Json) :
    Returns (fun tr' r => tr' = tr ∧ SessionRecord.ofJson env.codec json = some r) tr (decode env json) := by
  unfold decode
  split
  · next r hr => exact .pure ⟨rfl, hr⟩
  · exact .throw _

theorem createSession_returns (subject hash : String) (r : SessionRecord) (ttl : ℕ) :
    Returns (fun tr' u => ∃ json, r.toJson env.codec = some json ∧
      tr' = tr ++ [⟨.session (.createSession (newSession subject hash r json ttl)), u⟩]) tr
      (createSession env subject hash r ttl) := by
  refine .bind (encode_returns r) ?_
  rintro tr' json ⟨rfl, hj⟩
  exact .issue fun u => ⟨json, hj, rfl⟩

theorem createRecoveredSession_returns (subject hash : String) (r : SessionRecord) (ttl : ℕ) :
    Returns (fun tr' b => ∃ json, r.toJson env.codec = some json ∧
      tr' = tr ++ [⟨.session (.recoverGrace (newSession subject hash r json ttl)), b⟩]) tr
      (createRecoveredSession env subject hash r ttl) := by
  refine .bind (encode_returns r) ?_
  rintro tr' json ⟨rfl, hj⟩
  exact .issue fun b => ⟨json, hj, rfl⟩

/-- What an outcome of a rotation says about the exchanges. -/
def RotateOutcome.Shown (env : Env) (rotation : SessionRotation) (tr : Trace) : RotateOutcome → Prop
  | .rotated _ => ∃ json old, rotation.newRecord.toJson env.codec = some json ∧
      ⟨.session (.refreshRotate (rotation.command json)), .rotated old⟩ ∈ tr
  | .grace _ => ∃ json old, ⟨.session (.refreshRotate (rotation.command json)), .grace old⟩ ∈ tr
  | _ => True

theorem rotate_returns (rotation : SessionRotation) :
    Returns (fun tr' outcome => tr <+: tr' ∧ outcome.Shown env rotation tr') tr
      (rotate env rotation) := by
  refine .bind (encode_returns _) ?_
  rintro tr' json ⟨rfl, hj⟩
  refine ⟨trivial, fun reply => ?_⟩
  have hlast : ∀ tr'', tr' ++ [⟨.session (.refreshRotate (rotation.command json)), reply⟩] <+: tr'' →
      tr' <+: tr'' ∧ ⟨.session (.refreshRotate (rotation.command json)), reply⟩ ∈ tr'' := fun tr'' h =>
    ⟨(prefix_append _ _).trans h, h.subset (mem_append_right _ (mem_singleton_self _))⟩
  have hself := hlast _ (prefix_refl _)
  cases reply with
  | invalid => exact pure ⟨hself.1, trivial⟩
  | reused family => exact pure ⟨hself.1, trivial⟩
  | rotated old =>
    refine bind (decode_returns old) ?_
    rintro tr₁ r ⟨rfl, -⟩
    refine (grows _ _).bind fun tr₂ _ h₂ => .pure ⟨(hlast tr₂ h₂).1, json, old, hj, (hlast tr₂ h₂).2⟩
  | grace old =>
    refine bind (decode_returns old) ?_
    rintro tr₁ r ⟨rfl, -⟩
    refine (grows _ _).bind fun tr₂ alive h₂ => .ite (fun _ => ?_) fun _ => ?_
    · exact .pure ⟨(hlast tr₂ h₂).1, json, old, (hlast tr₂ h₂).2⟩
    · exact .pure ⟨(hlast tr₂ h₂).1, trivial⟩

theorem signRotated_returns {refresh : String} (hmade : MadeFrom env oldHash tr refresh r) :
    Returns (fun tr' rotated => tr <+: tr' ∧ Reissued env oldHash tr' r rotated) tr
      (signRotated env (env.ownerIndex r) r refresh) := by
  refine ⟨trivial, fun epoch => ⟨trivial, fun now => ⟨trivial, fun jti => ?_⟩⟩⟩
  rintro rotated ⟨⟩
  have hpre : tr <+: tr ++ [⟨.account (.getEp (env.ownerIndex r)), epoch⟩] ++ [⟨.host .nowUnix, now⟩] ++
      [⟨.host .newUuid, jti⟩] := by simp [append_assoc]
  refine ⟨hpre, hmade.mono hpre, rfl, rfl, tr, epoch, [⟨.host .nowUnix, now⟩], [], ?_, ?_, rfl⟩
  · simp
  · intro ev hev s
    rw [mem_singleton] at hev
    rw [hev]
    exact nofun

theorem recoverSession_returns {a : Rotation} {json : Json} (recovered : SessionRecord)
    (ip userAgent : String) (hg : ⟨.session (.refreshRotate a), .grace json⟩ ∈ tr) :
    Returns (fun tr' rotated => ∃ r, tr <+: tr' ∧ Reissued env a.oldHash tr' r rotated) tr
      (recoverSession env recovered ip userAgent) := by
  refine (grows _ tr).bind fun tr₁ _ h₁ => .guard fun _ => ?_
  refine ⟨trivial, fun fresh => ⟨trivial, fun now => ?_⟩⟩
  refine bind (createRecoveredSession_returns _ _ _ _) ?_
  rintro tr₂ wrote ⟨json', hj, rfl⟩
  cases wrote with
  | false => exact .bind (.throw _) fun _ _ h => h
  | true =>
    have hpre : ∀ ev, tr <+: tr₁ ++ [⟨.host .generateToken, fresh⟩] ++ [⟨.host .nowOffset, now⟩] ++ [ev] := by
      intro ev
      simp only [append_assoc]
      exact h₁.trans (prefix_append _ _)
    refine (signRotated_returns (.recovered ((hpre _).subset hg) rfl
      (mem_append_right _ (mem_singleton_self _)) rfl hj)).mono ?_
    rintro tr₃ rotated ⟨h₃, hre⟩
    exact ⟨_, (hpre _).trans h₃, hre⟩

theorem rotateSeed_returns (oldHash new : String) (seed : SessionRecord) (ip userAgent : String) :
    Returns (fun tr' rotated => ∃ r, Reissued env oldHash tr' r rotated) tr
      (rotateSeed env oldHash new seed ip userAgent) := by
  refine (grows _ tr).bind fun tr₁ _ h₁ => ?_
  refine ⟨trivial, fun now => ?_⟩
  refine bind (rotate_returns _) ?_
  rintro tr₂ outcome ⟨h₂, hshown⟩
  cases outcome with
  | rotated old =>
    obtain ⟨json, old', hj, hmem⟩ := hshown
    refine (signRotated_returns (.rotated hmem rfl rfl hj)).mono ?_
    rintro tr₃ rotated ⟨-, hre⟩
    exact ⟨_, hre⟩
  | grace recovered =>
    obtain ⟨json, old', hmem⟩ := hshown
    refine (recoverSession_returns recovered ip userAgent hmem).mono ?_
    rintro tr₃ rotated ⟨r, -, hre⟩
    exact ⟨r, hre⟩
  | reused family =>
    exact (grows _ _).bind fun _ _ _ => .bind_throw _
  | invalid => exact .throw _

/-- A refresh that gets tokens from its rotation. -/
theorem reissueTokens_returns (rawRefresh ip userAgent : String) :
    Returns (fun tr' rotated => ∃ r, Reissued env (env.redisHash rawRefresh) tr' r rotated) tr
      (reissueTokens env rawRefresh ip userAgent) := by
  refine .guard fun _ => ?_
  refine ⟨trivial, fun _ => ⟨trivial, fun new => ?_⟩⟩
  refine (grows (findSession env _) _).bind fun tr₁ found _ => ?_
  cases found with
  | some live => exact .guard fun _ => rotateSeed_returns _ _ _ _ _
  | none => exact (grows _ _).bind fun _ _ _ => rotateSeed_returns _ _ _ _ _

/-! ### Refreshing -/

variable (env)

/-- A refresh's answer. The access token is the one the rotation signed, or one signed again for the
account that was read after it. -/
structure Refreshed (oldHash : String) (tr : Trace) (r : SessionRecord) (rotated : RotatedTokens) :
    Prop where
  /-- The refresh token. -/
  made : MadeFrom env oldHash tr rotated.refreshToken r
  /-- The user the access token names. -/
  sub : rotated.accessToken.sub = r.userId
  /-- The tenant it names, and its stamp. -/
  signed : (rotated.accessToken.tenantId = env.claimTenant r ∧
      Signed tr (env.ownerIndex r) rotated.accessToken.jti rotated.accessToken.epoch) ∨
    ∃ tenantId user, ⟨.host (.findById r.userId tenantId), some user⟩ ∈ tr ∧
      (env.kind = .dashboard → tenantId = env.claimTenant r) ∧
      rotated.accessToken.tenantId = env.tenantOf user ∧
      Signed tr (env.subjectHash (env.tenantOf user) r.userId) rotated.accessToken.jti
        rotated.accessToken.epoch

variable {env}

theorem verifyAccess_returns (token : AccessClaims) :
    Returns (fun tr' claims => tr <+: tr' ∧ claims = token) tr (verifyAccess env token) := by
  refine ⟨trivial, fun now => ?_⟩
  dsimp only [Prog.bind, Function.comp_apply, ExceptT.bindCont]
  split
  · exact Returns.throw _
  · refine (grows _ _).bind fun tr₁ listed h₁ => .guard fun _ => ?_
    refine (grows _ _).bind fun tr₂ epoch h₂ => .guard fun _ => ?_
    exact .pure ⟨(prefix_append tr _).trans (h₁.trans h₂), rfl⟩

theorem restamp_returns {rotated : RotatedTokens} {user : AuthUser} {tr₁ : Trace} {tenantId : Option String}
    (hre : Reissued env oldHash tr₁ r rotated) (h₁ : tr₁ <+: tr)
    (huser : ⟨.host (.findById rotated.accessToken.sub tenantId), some user⟩ ∈ tr)
    (ht : env.kind = .dashboard → tenantId = env.claimTenant r) :
    Returns (fun tr' rotated => ∃ r, Refreshed env oldHash tr' r rotated) tr
      (restamp env rotated rotated.accessToken user) := by
  replace hre := hre.mono h₁
  rw [hre.sub] at huser
  refine .ite (fun _ => .pure ⟨r, hre.made, hre.sub, .inl ⟨hre.tenantId, hre.signed⟩⟩) fun _ => ?_
  refine ⟨trivial, fun now => ⟨trivial, fun epoch => ⟨trivial, fun jti => ?_⟩⟩⟩
  rintro rotated' ⟨⟩
  have hpre : ∀ a b c : Exchange, tr <+: tr ++ [a] ++ [b] ++ [c] := by
    intro a b c
    simp only [append_assoc]
    exact prefix_append _ _
  refine ⟨r, hre.made.mono (hpre _ _ _), hre.sub, .inr ⟨tenantId, user, (hpre _ _ _).subset huser, ht, rfl, ?_⟩⟩
  refine ⟨tr ++ [⟨.host .nowUnix, now⟩], epoch, [], [], ?_, forall_mem_nil _, rfl⟩
  rw [hre.sub]
  simp

/-- `refresh`. -/
theorem refresh_returns (rawRefresh ip userAgent : String) :
    Returns (fun tr' rotated => ∃ r, Refreshed env (env.redisHash rawRefresh) tr' r rotated) tr
      (refresh env rawRefresh ip userAgent) := by
  refine .bind (reissueTokens_returns rawRefresh ip userAgent) ?_
  rintro tr₁ rotated ⟨r, hre⟩
  refine .bind (verifyAccess_returns _) ?_
  rintro tr₂ claims ⟨h₂, rfl⟩
  refine ⟨trivial, fun found => ?_⟩
  cases found with
  | none => exact bind_throw _
  | some user =>
    dsimp only [Prog.bind, Function.comp_apply, ExceptT.bindCont]
    split
    · exact Returns.bind_throw _
    · refine Returns.guard fun _ => ?_
      exact restamp_returns hre (h₂.trans (prefix_append _ _)) mem_concat_self fun _ => hre.tenantId

/-- `PlatformAuthService::refresh`. -/
theorem platformRefresh_returns (hk : env.kind = .platform) (rawRefresh ip userAgent : String) :
    Returns (fun tr' rotated => ∃ r, Refreshed env (env.redisHash rawRefresh) tr' r rotated) tr
      (platformRefresh env rawRefresh ip userAgent) := by
  refine .bind (reissueTokens_returns rawRefresh ip userAgent) ?_
  rintro tr₁ rotated ⟨r, hre⟩
  refine .bind (verifyAccess_returns _) ?_
  rintro tr₂ claims ⟨h₂, rfl⟩
  refine ⟨trivial, fun found => ?_⟩
  cases found with
  | none => exact bind_throw _
  | some admin =>
    dsimp only [Prog.bind, Function.comp_apply, ExceptT.bindCont]
    split
    · exact Returns.bind_throw _
    · refine restamp_returns hre (h₂.trans (prefix_append _ _)) mem_concat_self fun hd => ?_
      rw [hk] at hd
      cases hd

/-! ### Logging in -/

variable (env)

/-- A new session: it is stored under its account, and the access token was stamped before that. -/
structure Issued (tr : Trace) (result : AuthResult) : Prop where
  /-- The session, and the stamp and the clock before it. -/
  stored : ∃ tr₁ s u tr₂, tr = tr₁ ++ ⟨.session (.createSession s), u⟩ :: tr₂ ∧
    s.hash = env.redisHash result.refreshToken ∧
    s.subject = env.subjectHash (env.tenantOf result.user) result.user.id ∧
    Signed tr₁ s.subject result.accessToken.jti result.accessToken.epoch ∧
    ⟨.host .nowUnix, result.accessToken.iat⟩ ∈ tr₁
  /-- The user the access token names. -/
  sub : result.accessToken.sub = result.user.id
  /-- The tenant it names. -/
  tenantId : result.accessToken.tenantId = env.tenantOf result.user
  /-- When it expires. -/
  exp : result.accessToken.exp = expiry result.accessToken.iat env.config.accessTtl

variable {env}

theorem Issued.mono {result : AuthResult} (h : Issued env tr result) (htr : tr <+: tr') : Issued env tr' result := by
  obtain ⟨⟨tr₁, s, u, tr₂, rfl, hrest⟩, hsub, ht, hexp⟩ := h
  obtain ⟨rest, rfl⟩ := htr
  exact ⟨⟨tr₁, s, u, tr₂ ++ rest, by simp, hrest⟩, hsub, ht, hexp⟩

theorem issueTokens_returns (user : AuthUser) (ip userAgent : String) (mfaVerified : Bool) :
    Returns (fun tr' result => tr <+: tr' ∧ result.user = user ∧ Issued env tr' result) tr
      (issueTokens env user ip userAgent mfaVerified) := by
  refine ⟨trivial, fun refresh => ⟨trivial, fun now => ⟨trivial, fun epoch => ⟨trivial, fun jti =>
    ⟨trivial, fun createdAt => ⟨trivial, fun familyId => ⟨trivial, fun familyCreatedAt => ?_⟩⟩⟩⟩⟩⟩⟩
  refine bind (createSession_returns _ _ _ _) ?_
  rintro tr₁ u ⟨json, hj, rfl⟩
  refine .pure ⟨?_, rfl, ⟨⟨_, _, u, [], rfl, rfl, rfl, ?_, by simp⟩, rfl, rfl, rfl⟩⟩
  · simp only [append_assoc]
    exact prefix_append _ _
  · refine ⟨tr ++ [⟨.host .generateToken, refresh⟩] ++ [⟨.host .nowUnix, now⟩], epoch, [],
      [⟨.host .nowOffset, createdAt⟩, ⟨.host .newUuid, familyId⟩, ⟨.host .nowOffset, familyCreatedAt⟩],
      ?_, forall_mem_nil _, rfl⟩
    simp only [append_assoc]
    rfl

theorem issueSession_returns (user : AuthUser) (ip userAgent : String) (mfaVerified : Bool) :
    Returns (fun tr' result => tr <+: tr' ∧ result.user = user ∧ Issued env tr' result) tr
      (issueSession env user ip userAgent mfaVerified) := by
  refine .bind (issueTokens_returns user ip userAgent mfaVerified) ?_
  rintro tr₁ result ⟨h₁, hu, hi⟩
  refine .ite (fun _ => ?_) fun _ => .pure ⟨h₁, hu, hi⟩
  exact (grows _ _).bind fun tr₂ _ h₂ => .pure ⟨h₁.trans h₂, hu, hi.mono h₂⟩

/-- What a login's answer says: a full session is stored. -/
def LoginResult.Shown (env : Env) (tr : Trace) : LoginResult → Prop
  | .success result => Issued env tr result
  | .mfaChallenge _ => True

theorem recordFailureAndReject_returns {P : Trace → LoginResult → Prop} (identifier : String) :
    Returns P tr (recordFailureAndReject env identifier) :=
  (grows _ _).bind fun _ _ _ => .throw _

theorem admitUser_returns (identifier : String) (user : AuthUser) (ip userAgent : String) :
    Returns (LoginResult.Shown env) tr (admitUser env identifier user ip userAgent) := by
  unfold admitUser
  split
  · exact .throw _
  · refine .guard fun _ => (grows _ _).bind fun _ _ _ => .ite (fun _ => ?_) fun _ => ?_
    · exact (grows _ _).bind fun _ _ _ => .pure trivial
    · exact (issueSession_returns _ _ _ _).bind fun _ _ h => .pure h.2.2

/-- `login`. -/
theorem login_returns (email password tenantId ip userAgent : String) :
    Returns (LoginResult.Shown env) tr (login env email password tenantId ip userAgent) := by
  refine (grows _ _).bind fun _ _ _ => (grows _ _).bind fun _ _ _ => .guard fun _ => ⟨trivial, fun found => ?_⟩
  cases found with
  | none => exact recordFailureAndReject_returns _
  | some user =>
    refine ite (fun _ => recordFailureAndReject_returns _) fun _ => ?_
    split
    · exact recordFailureAndReject_returns _
    · exact .ite (fun _ => admitUser_returns _ _ _ _) fun _ => recordFailureAndReject_returns _

theorem admitAdmin_returns (identifier : String) (admin : AuthUser) (ip userAgent : String) :
    Returns (LoginResult.Shown env) tr (admitAdmin env identifier admin ip userAgent) := by
  unfold admitAdmin
  split
  · exact .throw _
  · refine (grows _ _).bind fun _ _ _ => .ite (fun _ => ?_) fun _ => ?_
    · exact (grows _ _).bind fun _ _ _ => .pure trivial
    · exact (issueSession_returns _ _ _ _).bind fun _ _ h => .pure h.2.2

/-- `PlatformAuthService::login`. -/
theorem platformLogin_returns (email password ip userAgent : String) :
    Returns (LoginResult.Shown env) tr (platformLogin env email password ip userAgent) := by
  refine (grows _ _).bind fun _ _ _ => ⟨trivial, fun found => ?_⟩
  cases found with
  | none => exact recordFailureAndReject_returns _
  | some admin =>
    dsimp only [Prog.bind, Function.comp_apply, ExceptT.bindCont]
    split
    · exact recordFailureAndReject_returns _
    · exact Returns.ite (fun _ => admitAdmin_returns _ _ _ _) fun _ => recordFailureAndReject_returns _

end BymaxAuth
