import BymaxAuth.Guarantees.SignOut

/-!
# Logout

`logout` (`services/auth/session_ops.rs`, and its twin in `services/platform.rs`) is given a refresh token. It
reads the session the token names, revokes it under the owner that record names, and deletes the token's
grace pointer. A session that is not there is no failure: it may have ended already.

It may also have been rotated. Then the session goes on under another hash, which the logout does not look
for: it deletes the pointer that leads there, returns, and leaves the successor live.
-/

namespace BymaxAuth

open Redis Concurrency Relation List SessionRecord

/-! ### What a logout does -/

/-- The logout has read the session of this hash, and revoked it under the owner it read, if any. -/
def LoggedOut (env : Env) (hash : String) (tr : Trace) : Prop :=
  ∃ tr₁ found tr₂ subject ok tr₃,
    tr = tr₁ ++ ⟨.session (.getRt hash), found⟩ :: (tr₂ ++ ⟨.session (.sessionRevoke subject hash), ok⟩ :: tr₃) ∧
      ∀ json ∈ found, ∃ r, ofJson env.codec json = some r ∧ subject = env.ownerIndex r

section Logout

variable {env : Env} {tr : Trace}

theorem findSession_returns (hash : String) :
    Returns (fun tr' owner => ∃ found, tr' = tr ++ [⟨.session (.getRt hash), found⟩] ∧
      ∀ json ∈ found, ∃ r, owner = some r ∧ ofJson env.codec json = some r) tr
      (findSession env hash) := by
  refine Returns.bind (P := fun tr' found => tr' = tr ++ [⟨.session (.getRt hash), found⟩])
    (.issue fun _ => rfl) ?_
  rintro _ found rfl
  cases found with
  | none => exact .pure ⟨none, rfl, fun _ => nofun⟩
  | some json =>
    refine .map ?_
    unfold decode
    cases hjson : ofJson env.codec json with
    | none => exact .throw _
    | some r =>
      refine .pure ⟨some json, rfl, ?_⟩
      rintro _ ⟨⟩
      exact ⟨r, rfl, hjson⟩

/-- A logout that has returned has read the session of the token, and revoked it. -/
theorem logout_returns (access : Option AccessClaims) {rawRefresh : String} (hshape : isHexShape rawRefresh = true) :
    Returns (fun tr _ => LoggedOut env (env.redisHash rawRefresh) tr) [] (logout env access rawRefresh) := by
  unfold logout
  rw [if_pos hshape]
  refine (findSession_returns _).bind ?_
  rintro tr owner ⟨found, rfl, hfound⟩
  refine (Returns.grows (revokeLogoutAccess access) _).bind ?_
  rintro _ ⟨⟩ ⟨tr₂, rfl⟩
  refine Returns.bind (P := fun tr _ => LoggedOut env (env.redisHash rawRefresh) tr)
    (.map (.issue fun ok => ⟨[], found, tr₂, _, ok, [], by simp, fun json hjson => ?_⟩)) ?_
  · obtain ⟨r, rfl, hr⟩ := hfound json hjson
    exact ⟨r, hr, rfl⟩
  · rintro tr _ ⟨tr₁, found, tr₂, subject, ok, tr₃, rfl, hrevoked⟩
    refine .any _ ?_
    rintro _ _ ⟨tr₄, rfl⟩
    exact ⟨tr₁, found, tr₂, subject, ok, tr₃ ++ tr₄, by simp, hrevoked⟩

end Logout

/-! ### Along a run -/

namespace Deployment

variable {D : Deployment} {cfg : Snapshot} {tid : ℕ}

/-- The token of this hash was issued before handler `tid` began. -/
def IssuedBefore (log : List Event) (tid : ℕ) (hash : String) : Prop :=
  ∀ l₁ e l₂, log = l₁ ++ e :: l₂ → e.tid = tid → ∃ e' ∈ l₁, ∃ b, Bears e' b ∧ b.hash = hash

/-- The token of this hash was not rotated before handler `tid` revoked its session. -/
def UnrotatedBefore (log : List Event) (tid : ℕ) (hash : String) : Prop :=
  ∀ l₁ e l₂ subject, log = l₁ ++ e :: l₂ → e.tid = tid → e.op = .session (.sessionRevoke subject hash) →
    ∀ e' ∈ l₁, rotates hash e' = false

/-- A session that was issued before a logout read it is dead once that has revoked it. -/
theorem Reaches.dead_of_logout (h : D.Reaches cfg) {hash subject : String} {found : Option Json} {ok : Bool}
    {m₁ m₂ m₃ : List Event} {pre pre' : Store}
    (hlog : cfg.log = m₁ ++ ⟨tid, pre, .session (.getRt hash), found⟩ ::
      (m₂ ++ ⟨tid, pre', .session (.sessionRevoke subject hash), ok⟩ :: m₃))
    (hrevoked : ∀ json ∈ found, ∃ r, ofJson D.env.codec json = some r ∧ subject = D.env.ownerIndex r)
    {e : Event} {b : Birth} (he : e ∈ m₁) (hb : Bears e b) (hbh : b.hash = hash) : ¬ Live cfg.st hash := by
  subst hbh
  cases found with
  | none =>
    -- There was nothing to read: the session had ended.
    exact h.dead_of_unread hlog he hb
  | some json =>
    obtain ⟨e', he', b', hb', hbh, rfl⟩ := h.getRt_some hlog
    have hmem : ∀ {x}, x ∈ m₁ → x ∈ cfg.log := fun hx => hlog ▸ mem_append_left _ hx
    obtain ⟨rfl, rfl⟩ := h.birth_unique (hmem he') (hmem he) hb' hb hbh
    obtain ⟨r, hr, rfl⟩ := hrevoked _ rfl
    obtain ⟨r', hnames⟩ := h.names (hmem he) hb
    rw [hnames.ofJson, Option.some.injEq] at hr
    subst hr
    have hcut : cfg.log = (m₁ ++ ⟨tid, pre, .session (.getRt b'.hash), some b'.record⟩ :: m₂) ++
        ⟨tid, pre', .session (.sessionRevoke (D.env.ownerIndex r') b'.hash), ok⟩ :: m₃ := by
      rw [hlog]
      simp
    exact h.dead_of_revoked hcut (mem_append_left _ he) hb hnames.subject rfl

/-- What a logout that has returned did, in the history. -/
theorem Reaches.logged_out (h : D.Reaches cfg) {access : Option AccessClaims} {rawRefresh : String}
    (hflow : D.flows tid = .logout access rawRefresh) (hshape : isHexShape rawRefresh = true) {a : Answer}
    (hok : cfg.pool tid = .ret (.ok a)) :
    ∃ m₁ pre found m₂ pre' subject ok m₃,
      cfg.log = m₁ ++ ⟨tid, pre, .session (.getRt (D.env.redisHash rawRefresh)), found⟩ ::
        (m₂ ++ ⟨tid, pre', .session (.sessionRevoke subject (D.env.redisHash rawRefresh)), ok⟩ :: m₃) ∧
      ∀ json ∈ found, ∃ r, ofJson D.env.codec json = some r ∧ subject = D.env.ownerIndex r := by
  have hpath : Path ((D.flows tid).prog D.env) (localTrace tid cfg.log) (cfg.pool tid) := reach_path h tid
  rw [hok, hflow] at hpath
  obtain ⟨tr, _, _, htr, hlogout, ⟨⟩⟩ := Path.answered hpath
  obtain ⟨tr₁, found, tr₂, subject, ok, tr₃, rfl, hrevoked⟩ := (logout_returns access hshape).of_path hlogout
  rw [append_nil] at htr
  obtain ⟨m₁, ⟨t, pre, op, r⟩, m', hlog, ht, hev, -, htr'⟩ := localTrace_split htr
  obtain ⟨m₂, ⟨t', pre', op', r'⟩, m₃, rfl, ht', hev', -, -⟩ := localTrace_split htr'
  cases hev
  cases hev'
  cases ht
  cases ht'
  exact ⟨m₁, pre, r, m₂, pre', subject, r', m₃, hlog, hrevoked⟩

end Deployment

/-- A logout ends the session it was given, and all that came of it, if the token had not been rotated before
the logout's revocation: once it has returned, nothing that descends from the token is live, and the token has
no grace pointer. -/
theorem logout_ends_lineage {D : Deployment} {cfg : Snapshot} (h : D.Reaches cfg) {tid : ℕ}
    {access : Option AccessClaims} {rawRefresh : String} (hflow : D.flows tid = .logout access rawRefresh)
    (hshape : isHexShape rawRefresh = true) (hok : cfg.pool tid = .ret (.ok .done))
    (hissued : Deployment.IssuedBefore cfg.log tid (D.env.redisHash rawRefresh))
    (hunrotated : Deployment.UnrotatedBefore cfg.log tid (D.env.redisHash rawRefresh)) :
    (∀ hash, Descends cfg.log (D.env.redisHash rawRefresh) hash → ¬ Live cfg.st hash) ∧
      cfg.st.keys.rp (D.env.redisHash rawRefresh) = none := by
  obtain ⟨m₁, pre, found, m₂, pre', subject, ok, m₃, hlog, hrevoked⟩ := h.logged_out hflow hshape hok
  generalize D.env.redisHash rawRefresh = R at hissued hunrotated hlog ⊢
  obtain ⟨e, he, b, hb, hbh⟩ := hissued _ _ _ hlog rfl
  have hcut : cfg.log = (m₁ ++ ⟨tid, pre, .session (.getRt R), found⟩ :: m₂) ++
      ⟨tid, pre', .session (.sessionRevoke subject R), ok⟩ :: m₃ := by
    rw [hlog]
    simp
  -- The token is not rotated before the revocation, and is dead after it.
  have hnever : ∀ x ∈ cfg.log, rotates R x = false := by
    intro x hx
    rw [hcut, mem_append, mem_cons] at hx
    rcases hx with hx | rfl | hx
    · exact hunrotated _ _ _ subject hcut rfl rfl x hx
    · rfl
    · rw [Bool.eq_false_iff]
      intro hrot
      obtain ⟨tid', pre'', a, old, rfl, hold⟩ := rotates_iff.mp hrot
      obtain ⟨n₁, n₂, rfl⟩ := append_of_mem hx
      have hx' : cfg.log = (m₁ ++ ⟨tid, pre, .session (.getRt R), found⟩ ::
          (m₂ ++ ⟨tid, pre', .session (.sessionRevoke subject R), ok⟩ :: n₁)) ++
            ⟨tid', pre'', .session (.refreshRotate a), .rotated old⟩ :: n₂ := by
        rw [hlog]
        simp
      obtain ⟨c, d, hc, hm, -⟩ := h.at_entry hx'
      have hdead := hc.dead_of_logout hm.log₁ hrevoked he hb hbh
      rw [hm.st₁, ← hold] at hdead
      exact hdead (h.rotated_live hx').1
  have hrotates : ∀ {tid' pre'' a old}, ⟨tid', pre'', .session (.refreshRotate a), .rotated old⟩ ∈ cfg.log →
      a.oldHash ≠ R := by
    intro tid' pre'' a old hmem hold
    have := hnever _ hmem
    rw [rotates_iff.mpr ⟨tid', pre'', a, old, rfl, hold⟩] at this
    cases this
  constructor
  · intro hash hd
    rcases ReflTransGen.cases_head hd with rfl | ⟨x, hx, -⟩
    · exact h.dead_of_logout hlog hrevoked he hb hbh
    · -- Nothing was made from the token.
      exfalso
      cases hx with
      | rotated hmem => exact hrotates hmem rfl
      | recovered hmem _ =>
        obtain ⟨n₁, n₂, hn⟩ := append_of_mem hmem
        obtain ⟨tid', pre'', a', old, hmem', hold, -⟩ := h.grace_after_rotated hn
        exact hrotates (hn ▸ mem_append_left _ hmem') hold
  · cases hk : cfg.st.keys.rp R with
    | none => rfl
    | some cell =>
      obtain ⟨tid', pre'', a, old, hmem, hold, -⟩ := h.rotated_of_rp hk
      exact absurd hold (hrotates hmem)

/-- Whether the token of this hash was issued before handler `tid` began. -/
def issuedBefore (log : List Event) (tid : ℕ) (hash : String) : Bool :=
  everyCut (fun l₁ e _ => e.tid = tid → (l₁.any fun e' => Exchange.stores e'.ev = some hash) = true) [] log

theorem issuedBefore_of_test {log : List Event} {tid : ℕ} {hash : String} (h : issuedBefore log tid hash = true) :
    Deployment.IssuedBefore log tid hash := by
  rintro l₁ e l₂ rfl htid
  obtain ⟨e', he', hstores⟩ := any_eq_true.mp (of_decide_eq_true (of_everyCut h) htid)
  exact ⟨e', he', bears_of_stores (of_decide_eq_true hstores)⟩

open Demo

/-- A logout with the token of a login, and a refresh that presents it afterwards and is refused: nothing is
left. -/
theorem logout_ends_lineage_refused : ∃ cfg, (deployment [.issue alice "" "" false, .logout none (token 'a'),
      .refresh (token 'a') "" ""]).Reaches cfg ∧
    (∃ e, cfg.pool 2 = .ret (.error e)) ∧
    (∀ hash, Descends cfg.log (token 'a') hash → ¬ Live cfg.st hash) ∧
    cfg.st.keys.rp (token 'a') = none := by
  refine exists_reaches (firstIssue ++ acts 1 3 "" [] ++ acts 2 6 (token 'b') [])
    (fun cfg => isDone cfg 1 ∧ (cfg.pool 2).failed.isSome ∧ issuedBefore cfg.log 1 (token 'a') ∧
      ∀ e ∈ cfg.log, rotates (token 'a') e = false) (by decide +kernel)
    fun cfg h ⟨hdone, hfailed, hissued, hunrotated⟩ => ?_
  obtain ⟨e, he⟩ := Option.isSome_iff_exists.mp hfailed
  refine ⟨⟨e, Prog.failed_eq_some.mp he⟩,
    logout_ends_lineage h rfl (by decide +kernel) (pool_of_isDone hdone) (issuedBefore_of_test hissued) ?_⟩
  intro l₁ e l₂ subject hlog _ _ e' he'
  exact hunrotated e' (hlog ▸ mem_append_left _ he')

/-- A login's token is rotated, and then given to a logout. The logout returns, nothing has failed and no time
has passed; the successor is live. -/
theorem logout_outlived : ∃ cfg, (deployment [.issue alice "" "" false, .refresh (token 'a') "" "",
      .logout none (token 'a')]).Reaches cfg ∧
    (∃ rotated, cfg.pool 1 = .ret (.ok (.tokens rotated)) ∧ rotated.refreshToken = token 'b') ∧
    cfg.pool 2 = .ret (.ok .done) ∧ (∀ e ∈ cfg.log, e.pre.now = cfg.st.now) ∧
    Deployment.IssuedBefore cfg.log 2 (token 'a') ∧
    Descends cfg.log (token 'a') (token 'b') ∧ Live cfg.st (token 'b') := by
  exact exists_reaches (firstIssue ++ acts 1 5 (token 'b') [] ++ acts 1 8 "" ["", "", "", "j1"] ++ acts 2 3 "" [])
    (fun cfg => (∃ rotated ∈ tokensOf cfg 1, rotated.refreshToken = token 'b') ∧ isDone cfg 2 ∧
      (∀ e ∈ cfg.log, e.pre.now = cfg.st.now) ∧ issuedBefore cfg.log 2 (token 'a') ∧
      begets cfg.log (token 'a') (token 'b') ∧ has cfg.st.keys.rt cfg.st.now (token 'b'))
    (by decide +kernel) fun cfg h ⟨⟨rotated, htok, hraw⟩, hdone, htime, hissued, hbegets, hlive⟩ =>
      ⟨⟨rotated, pool_of_tokensOf htok, hraw⟩, pool_of_isDone hdone, htime, issuedBefore_of_test hissued,
        .single (begets_iff.mp hbegets), hlive⟩

end BymaxAuth
