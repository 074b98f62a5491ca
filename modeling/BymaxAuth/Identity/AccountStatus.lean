import BymaxAuth.Identity.Subject
import BymaxAuth.Lib.Fault

/-!
# The account-status gate

A token outlives the account state it was signed under, so every authenticated request asks again whether the account is
usable (`services/account_status.rs`). The answer comes from two keys of a cache, `us:` and `uev:`, if they are there,
and from the repository otherwise, which fills them for `user_status_cache_ttl` seconds; `invalidate_account_status`
drops them (`stores/user_status.rs`). Checks, invalidations and the host's own writes interleave, and any command of a
check or an invalidation may fail (`Concurrency.Faulty`).

What a check judges was read from the repository by some call, and if that was another one it was written to a key that
nobody has deleted since (`Reaches.read`). So **`verdict_fresh`**: no verdict rests on what the repository held longer
ago than the TTL and the time of two calls. And **`verdict_invalidated`**: after an invalidation that follows a change,
it rests on what was read since the change, if no call that read before the change was still running. The same is true of
the facts themselves that a check judges (**`memory_bounded`**), but for an account with a blank id or tenant, which is
cached and never dropped (`blank_kept`).
-/

namespace BymaxAuth.AccountStatus

open Concurrency Redis List Function

/-! ### The gate -/

/-- What the gate is built over. -/
structure Gate where
  /-- The engine's dashboard plane. -/
  env : Env
  /-- Whether the host configured a cache. -/
  cached : Bool
  /-- `user_status_cache_ttl`, in seconds. -/
  userStatusCacheTtl : ℕ
  /-- The characters that `str::trim` removes. -/
  isWhitespace : Char → Bool

/-- The two kinds of keys. -/
inductive Prefix where
  /-- `us:`, the status. -/
  | us
  /-- `uev:`, whether the address is verified. -/
  | uev
  deriving DecidableEq

/-- What a key of an account holds. -/
def fact : Prefix → AuthUser → String
  | .us, user => user.status
  | .uev, user => if user.emailVerified then "1" else "0"

/-- The commands, one for each access to a key or to the repository. -/
inductive Cmd where
  /-- `GET` -/
  | readKey (key : Prefix × String)
  /-- `SET … EX` -/
  | writeKey (key : Prefix × String) (value : String) (ttl : ℕ)
  /-- `DEL` -/
  | deleteKey (key : Prefix × String)
  /-- `find_by_id`, in a tenant. -/
  | findById (id tenantId : String)
  /-- The host writes or removes an account. -/
  | change (id tenantId : String) (user : Option AuthUser)

/-- The reply to a command. -/
def Cmd.Reply : Cmd → Type
  | readKey _ => Option String
  | findById .. => Option AuthUser
  | _ => Unit

/-- The cache and the repository. -/
structure World where
  /-- Unix seconds. -/
  now : ℕ
  /-- The keys of the cache. -/
  keys : Keys (Prefix × String) String
  /-- The accounts, by id and tenant. -/
  users : String → String → Option AuthUser

/-- A command's reply and effect. -/
def exec (w : World) : (c : Cmd) → c.Reply × World
  | .readKey key => (get w.keys w.now key, w)
  | .writeKey key value ttl => ((), { w with keys := setEx w.keys w.now key value ttl })
  | .deleteKey key => ((), { w with keys := del w.keys key })
  | .findById id tenantId => (w.users id tenantId, w)
  | .change id tenantId user => ((), { w with users := update w.users id (update (w.users id) tenantId user) })

/-- Between two commands, seconds pass. -/
def machine : Machine World ℕ Cmd.Reply where
  exec w c _ := exec w c
  pass w secs := { w with now := w.now + secs }
  admits _ _ := true

/-- A handler. -/
abbrev Act (α : Type) : Type := Faulty Cmd.Reply AuthError α

/-- One command; a failure of the cache or of the repository is an internal error. -/
def Cmd.act (c : Cmd) : Act c.Reply := Faulty.call .internal c

/-- What the gate needs to know about an account. -/
structure AccountFacts where
  status : String
  /-- Whether the address is verified, where that is known. -/
  verified : Option Bool

namespace Gate

variable (G : Gate) (sub tenantId : String)

/-- `session_subject`, of a dashboard account. -/
def subject : String := G.env.identifierHmac (userSubject .dashboard (some tenantId) sub)

/-- `status_cache`: the TTL, if there is a cache and the TTL is not zero. -/
def statusCache : Option ℕ := if G.cached && 0 < G.userStatusCacheTtl then some G.userStatusCacheTtl else none

/-- The facts that are cached; any value but `"0"` reads as verified. -/
def cachedFacts (wantVerified : Bool) : Act (Option String × Option Bool) :=
  match G.statusCache with
  | none => return (none, none)
  | some _ => do
    let status ← (Cmd.readKey (.us, G.subject sub tenantId)).act
    if wantVerified then
      let raw ← (Cmd.readKey (.uev, G.subject sub tenantId)).act
      return (status, raw.map (· != "0"))
    else return (status, none)

/-- What was read is cached; the verified flag where it is required. -/
def remember (user : AuthUser) : Act Unit :=
  match G.statusCache with
  | none => return ()
  | some ttl => do
    (Cmd.writeKey (.us, G.subject sub tenantId) (fact .us user) ttl).act
    if G.env.config.emailVerificationRequired then
      (Cmd.writeKey (.uev, G.subject sub tenantId) (fact .uev user) ttl).act

/-- The repository read of `account_facts`. -/
def readAccount : Act AccountFacts := do
  match ← (Cmd.findById sub tenantId).act with
  | none => throw .tokenInvalid
  | some user => do
    G.remember sub tenantId user
    return ⟨user.status, some user.emailVerified⟩

/-- `account_facts`: from the cache if it holds every fact asked for. -/
def accountFacts (wantVerified : Bool) : Act AccountFacts := do
  match ← G.cachedFacts sub tenantId wantVerified with
  | (some status, verified) =>
    if !wantVerified || verified.isSome then return ⟨status, verified⟩ else G.readAccount sub tenantId
  | (none, _) => G.readAccount sub tenantId

/-- Whether the verified flag counts. -/
def requires (checkVerified : Bool) : Bool := checkVerified && G.env.config.emailVerificationRequired

/-- `assert_user_not_blocked`: the error a blocked status is refused with. -/
def assertUserNotBlocked (status : String) : Option AuthError := assertNotBlocked status G.env.config.blockedStatuses

/-- `assert_account_usable`: a blocked status is refused first. -/
def assertAccountUsable (checkVerified : Bool) : Act Unit := do
  let facts ← G.accountFacts sub tenantId (G.requires checkVerified)
  match G.assertUserNotBlocked facts.status with
  | some e => throw e
  | none => if G.requires checkVerified && facts.verified == some false then throw .emailNotVerified else return ()

/-- What `assert_account_usable` answers when it knows the facts. -/
def judge (checkVerified : Bool) (facts : AccountFacts) : Except AuthError Unit :=
  match G.assertUserNotBlocked facts.status with
  | some e => .error e
  | none => if G.requires checkVerified && facts.verified == some false then .error .emailNotVerified else .ok ()

/-- `invalidate_account_status`: the verified flag goes first. A blank id or tenant is nobody's. -/
def invalidateAccountStatus : Act Unit :=
  match G.statusCache with
  | none => return ()
  | some _ =>
    if sub.toList.all G.isWhitespace || tenantId.toList.all G.isWhitespace then return ()
    else do
      (Cmd.deleteKey (.uev, G.subject sub tenantId)).act
      (Cmd.deleteKey (.us, G.subject sub tenantId)).act

end Gate

/-- The calls, each with what becomes of its commands. -/
inductive Call where
  /-- A request is let through, or not. -/
  | check (sub tenantId : String) (checkVerified : Bool) (faults : List Fault)
  /-- The host drops what is cached about an account. -/
  | invalidate (userId tenantId : String) (faults : List Fault)
  /-- The host changes an account. -/
  | change (id tenantId : String) (user : Option AuthUser)

/-- The handler of a call. -/
def Call.act (G : Gate) : Call → ExceptT AuthError (Prog Cmd.Reply) Unit
  | check sub tenantId checkVerified faults => (G.assertAccountUsable sub tenantId checkVerified).under faults
  | invalidate userId tenantId faults => (G.invalidateAccountStatus userId tenantId).under faults
  | change id tenantId user => issue (Cmd.change id tenantId user)

/-- A gate, the accounts there are, and the calls. -/
structure Deployment where
  gate : Gate
  /-- The accounts at the start. -/
  users : String → String → Option AuthUser
  /-- The calls, made in any order and all at once. -/
  calls : ℕ → Call

/-- An entry of the history. -/
abbrev Event := Entry World Cmd.Reply

/-- A moment of a run. -/
abbrev Snapshot := Concurrency.Config World Cmd.Reply (Except AuthError Unit)

/-- The snapshots of a run that begins with an empty cache. -/
def Deployment.Reaches (D : Deployment) : Snapshot → Prop :=
  Reach machine (start ⟨0, fun _ => none, D.users⟩ fun tid => ((D.calls tid).act D.gate).run)

/-! ### One call -/

/-- The answer `r` of a check follows from an absent account, a status or a verified flag, or a command failed. -/
def Verdict (G : Gate) (checkVerified : Bool) (absent : Prop) (status : String → Prop) (verified : Bool → Prop) :
    Except AuthError Unit → Prop
  | .ok _ => (∃ s, status s ∧ G.assertUserNotBlocked s = none) ∧ (G.requires checkVerified = true → verified true)
  | .error e => (e = .internal ∨ absent ∧ e = .tokenInvalid) ∨ (∃ s, status s ∧ G.assertUserNotBlocked s = some e) ∨
      (∃ s, status s ∧ G.assertUserNotBlocked s = none) ∧ verified false ∧ e = .emailNotVerified

section Handlers

variable (G : Gate) (sub tenantId : String)

/-- The trace says what a key of this account holds, from the key itself or from the repository. -/
def Heard (tr : List (Ev Cmd.Reply)) (p : Prefix) (value : String) : Prop :=
  ⟨.readKey (p, G.subject sub tenantId), some value⟩ ∈ tr ∨
    ∃ user, ⟨.findById sub tenantId, some user⟩ ∈ tr ∧ fact p user = value

/-- A handler writes what it read, for as long as the cache keeps it. -/
def Writes (tr : List (Ev Cmd.Reply)) : Cmd → Prop
  | .writeKey key value ttl => ∃ sub tenantId p user, key = (p, G.subject sub tenantId) ∧
      ⟨.findById sub tenantId, some user⟩ ∈ tr ∧ fact p user = value ∧ G.statusCache = some ttl
  | _ => True

/-- The facts are heard. -/
def Told (wantVerified : Bool) (tr : List (Ev Cmd.Reply)) (facts : AccountFacts) : Prop :=
  Heard G sub tenantId tr .us facts.status ∧
    (wantVerified = true → ∃ value, Heard G sub tenantId tr .uev value ∧ facts.verified = some (value != "0"))

/-- A command failed, or nobody is there. -/
def Untold (tr : List (Ev Cmd.Reply)) (e : AuthError) : Prop :=
  e = .internal ∨ ⟨.findById sub tenantId, none⟩ ∈ tr ∧ e = .tokenInvalid

/-- What a call has done when it ends. -/
def Done (call : Call) (tr : List (Ev Cmd.Reply)) (r : Except AuthError Unit) : Prop :=
  match call with
  | .check sub tenantId checkVerified _ => (∃ e, r = .error e ∧ Untold sub tenantId tr e) ∨
      ∃ facts, Told G sub tenantId (G.requires checkVerified) tr facts ∧ r = G.judge checkVerified facts
  | .invalidate userId tenantId _ => r = .ok () → G.statusCache = none ∨
      (userId.toList.all G.isWhitespace || tenantId.toList.all G.isWhitespace) = true ∨
      ∀ p, ⟨.deleteKey (p, G.subject userId tenantId), ()⟩ ∈ tr
  | .change .. => True

variable {G sub tenantId} {tr : List (Ev Cmd.Reply)}

theorem fact_uev_bne (user : AuthUser) : (fact .uev user != "0") = user.emailVerified := by
  cases h : user.emailVerified <;> simp [fact, h]

theorem remember_writes {user : AuthUser} (h : ⟨.findById sub tenantId, some user⟩ ∈ tr) :
    Robust (Writes G) (fun tr _ => ⟨.findById sub tenantId, some user⟩ ∈ tr) (Untold sub tenantId) tr
      (G.remember sub tenantId user) := by
  unfold Gate.remember
  cases hc : G.statusCache with
  | none => exact .pure h
  | some ttl =>
    refine .call ⟨sub, tenantId, .us, user, rfl, h, rfl, hc⟩ (.inl rfl) (fun _ => .inl rfl) fun _ => ?_
    have h' := mem_append_left [⟨.writeKey (.us, G.subject sub tenantId) (fact .us user) ttl, ()⟩] h
    refine .ite (fun _ => ?_) fun _ => .pure h'
    exact Robust.issue (c := Cmd.writeKey (.uev, G.subject sub tenantId) (fact .uev user) ttl)
      ⟨sub, tenantId, .uev, user, rfl, h', rfl, hc⟩ (.inl rfl) (fun _ => .inl rfl) fun _ => mem_append_left _ h'

theorem readAccount_told (want : Bool) :
    Robust (Writes G) (Told G sub tenantId want) (Untold sub tenantId) tr (G.readAccount sub tenantId) := by
  refine .call trivial (.inl rfl) (fun _ => .inl rfl) fun found => ?_
  cases found with
  | none => exact .throw (.inr ⟨mem_append_right _ (mem_singleton_self _), rfl⟩)
  | some user =>
    refine .bind (remember_writes (mem_append_right _ (mem_singleton_self _))) fun l _ h => .pure ?_
    exact ⟨.inr ⟨user, h, rfl⟩, fun _ => ⟨_, .inr ⟨user, h, rfl⟩, congrArg some (fact_uev_bne user).symm⟩⟩

theorem cachedFacts_heard (want : Bool) :
    Robust (Writes G) (fun tr facts => (∀ s, facts.1 = some s → Heard G sub tenantId tr .us s) ∧
      ∀ b, facts.2 = some b → ∃ value, Heard G sub tenantId tr .uev value ∧ (value != "0") = b) (Untold sub tenantId) tr
      (G.cachedFacts sub tenantId want) := by
  unfold Gate.cachedFacts
  cases G.statusCache with
  | none => exact .pure ⟨by simp, by simp⟩
  | some _ =>
    refine .call trivial (.inl rfl) (fun _ => .inl rfl) fun status => .ite (fun _ => ?_) fun _ => ?_
    · refine .call trivial (.inl rfl) (fun _ => .inl rfl) fun raw => .pure ⟨fun s hs => .inl ?_, fun b hb => ?_⟩
      · simp [← hs]
      · obtain ⟨value, rfl, rfl⟩ := Option.map_eq_some_iff.mp hb
        exact ⟨value, .inl (by simp), rfl⟩
    · exact .pure ⟨fun s hs => .inl (by simp [← hs]), by simp⟩

theorem accountFacts_told (want : Bool) :
    Robust (Writes G) (Told G sub tenantId want) (Untold sub tenantId) tr (G.accountFacts sub tenantId want) := by
  refine .bind (cachedFacts_heard want) fun l facts h => ?_
  obtain ⟨status | status, verified⟩ := facts
  · exact readAccount_told want
  · refine .ite (fun hknown => .pure ⟨h.1 _ rfl, fun hwant => ?_⟩) fun _ => readAccount_told want
    obtain ⟨b, rfl⟩ := Option.isSome_iff_exists.mp (show verified.isSome = true by simpa [hwant] using hknown)
    obtain ⟨value, hheard, rfl⟩ := h.2 b rfl
    exact ⟨value, hheard, rfl⟩

theorem assertAccountUsable_done (checkVerified : Bool) (faults : List Fault) :
    Robust (Writes G) (fun tr a => Done G (.check sub tenantId checkVerified faults) tr (.ok a))
      (fun tr e => Done G (.check sub tenantId checkVerified faults) tr (.error e)) tr
      (G.assertAccountUsable sub tenantId checkVerified) := by
  refine .bind ((accountFacts_told _).mono (fun _ _ h => h) (fun _ _ h => h) fun _ e h => .inl ⟨e, rfl, h⟩) ?_
  intro l facts htold
  split
  · next hblocked => exact .throw (.inr ⟨facts, htold, by rw [Gate.judge, hblocked]⟩)
  · next hfree =>
    refine .ite (fun h => .throw ?_) fun h => .pure ?_
    all_goals exact .inr ⟨facts, htold, by simp [Gate.judge, hfree, h]⟩

theorem invalidateAccountStatus_done (faults : List Fault) :
    Robust (Writes G) (fun tr a => Done G (.invalidate sub tenantId faults) tr (.ok a))
      (fun tr e => Done G (.invalidate sub tenantId faults) tr (.error e)) []
      (G.invalidateAccountStatus sub tenantId) := by
  unfold Gate.invalidateAccountStatus
  split
  · next hc => exact .pure fun _ => .inl hc
  · refine .ite (fun hblank => .pure fun _ => .inr (.inl hblank)) fun _ => ?_
    refine .call trivial (by simp [Done]) (by simp [Done]) fun _ => ?_
    refine Robust.issue (c := Cmd.deleteKey (.us, G.subject sub tenantId)) trivial (by simp [Done]) (by simp [Done]) ?_
    refine fun _ _ => .inr (.inr fun p => ?_)
    cases p with
    | us => exact mem_append_right _ (mem_singleton_self _)
    | uev => exact mem_append_left _ (mem_singleton_self _)

theorem act_done (call : Call) : Wp (Writes G) (Done G call) [] (call.act G).run := by
  cases call with
  | check sub tenantId checkVerified faults =>
    refine ((assertAccountUsable_done checkVerified faults).under faults).mono (fun _ _ h => h) fun _ r h => ?_
    cases r <;> exact h
  | invalidate userId tenantId faults =>
    refine ((invalidateAccountStatus_done faults).under faults).mono (fun _ _ h => h) fun _ r h => ?_
    cases r <;> exact h
  | change id tenantId user => exact ⟨trivial, fun _ => trivial⟩

end Handlers

/-! ### A run -/

/-- An entry wrote this cell to the key, and nobody has deleted it since. -/
def Written (log : List Event) (key : Prefix × String) (cell : Cell String) : Prop :=
  ∃ l₁ w l₂ ttl, log = l₁ ++ w :: l₂ ∧ w.op = .writeKey key cell.val ttl ∧
    cell.expireAt = some (w.pre.now + ttl) ∧ ∀ x ∈ l₂, x.op ≠ .deleteKey key

theorem Written.snoc {log : List Event} {key : Prefix × String} {cell : Cell String} (h : Written log key cell)
    {e : Event} (he : e.op ≠ .deleteKey key) : Written (log ++ [e]) key cell := by
  obtain ⟨l₁, w, l₂, ttl, rfl, hw, hexp, hdel⟩ := h
  refine ⟨l₁, w, l₂ ++ [e], ttl, by simp, hw, hexp, fun x hx => ?_⟩
  rcases mem_append.mp hx with hx | hx
  · exact hdel x hx
  · rwa [mem_singleton.mp hx]

namespace Deployment

variable {D : Deployment} {cfg : Snapshot} {sub tenantId : String}

/-- What a key holds was written there. -/
theorem Reaches.written (h : D.Reaches cfg) : ∀ key cell, cfg.st.keys key = some cell → Written cfg.log key cell := by
  refine reach_invariant (fun (w : World) log => ∀ key cell, w.keys key = some cell → Written log key cell)
    (fun _ _ h => by cases h) ?_ (fun _ _ _ h => h) h
  intro c d e _ ih hm key cell hcell
  obtain ⟨i, hi⟩ := hm.exec
  rw [← show (exec e.pre e.op).2 = d.st from congrArg Prod.snd hi] at hcell
  rw [hm.st₁] at ih
  obtain ⟨tid, pre, op, r⟩ := e
  cases op with
  | writeKey key' value ttl =>
    rcases setEx_eq_some hcell with ⟨rfl, rfl⟩ | ⟨-, hcell⟩
    · exact ⟨c.log, _, [], ttl, rfl, rfl, rfl, forall_mem_nil _⟩
    · exact (ih key cell hcell).snoc nofun
  | deleteKey key' =>
    obtain ⟨hne, hcell⟩ := del_eq_some hcell
    refine (ih key cell hcell).snoc ?_
    rintro ⟨⟩
    exact hne rfl
  | _ => exact (ih key cell hcell).snoc nofun

variable (D) in
/-- What was heard about an account is what the repository held when `e` read it: for the call itself, or for one that
wrote it to a key where the call found it. -/
def Read (log : List Event) (tid : ℕ) (sub tenantId : String) (p : Prefix) (e : Event) : Prop :=
  e ∈ log ∧ e.op = .findById sub tenantId ∧ (e.tid = tid ∨ ∃ m₁ w m₂ g m₃ ttl, log = m₁ ++ w :: m₂ ++ g :: m₃ ∧
    w.tid = e.tid ∧ g.tid = tid ∧ D.gate.statusCache = some ttl ∧ g.pre.now < w.pre.now + ttl ∧
    ∀ x ∈ m₂, x.op ≠ .deleteKey (p, D.gate.subject sub tenantId))

/-- The reply of a read is what the repository holds. -/
theorem Reaches.found (h : D.Reaches cfg) {found : Option AuthUser} {tid : ℕ}
    (hf : ⟨.findById sub tenantId, found⟩ ∈ localTrace tid cfg.log) :
    ∃ e ∈ cfg.log, e.tid = tid ∧ e.op = .findById sub tenantId ∧ e.pre.users sub tenantId = found := by
  obtain ⟨⟨_, pre, _, _⟩, he, rfl, hev⟩ := mem_localTrace.mp hf
  obtain ⟨c, d, -, hm, -⟩ := Reach.at_mem h he
  obtain ⟨i, hi⟩ := hm.exec
  cases hev
  exact ⟨_, he, rfl, rfl, congrArg Prod.fst hi⟩

theorem subject_inj (hmac : Injective D.gate.env.identifierHmac) {sub' tenantId' : String}
    (h : D.gate.subject sub tenantId = D.gate.subject sub' tenantId') : sub = sub' ∧ tenantId = tenantId' := by
  have := Account.subject_inj (a := .dashboard tenantId sub) (b := .dashboard tenantId' sub') (hmac h)
  cases this
  exact ⟨rfl, rfl⟩

theorem Reaches.read (h : D.Reaches cfg) (hmac : Injective D.gate.env.identifierHmac) {tid : ℕ} {p : Prefix}
    {value : String} (hheard : Heard D.gate sub tenantId (localTrace tid cfg.log) p value) :
    ∃ e user, D.Read cfg.log tid sub tenantId p e ∧ e.pre.users sub tenantId = some user ∧ fact p user = value := by
  rcases hheard with hread | ⟨user, hfound, hfact⟩
  · obtain ⟨pre, hg⟩ := exchange_mem.mp hread
    obtain ⟨m, m₃, hl⟩ := append_of_mem hg
    obtain ⟨c, d, hc, hm, -⟩ := Reach.at_entry h hl
    obtain ⟨i, hi⟩ := hm.exec
    obtain ⟨cell, hcell, hlive, hval⟩ := get_eq_some.mp (congrArg Prod.fst hi)
    rw [← hm.st₁] at hcell
    obtain ⟨m₁, w, m₂, ttl, hw, hop, hexp, hdel⟩ := Reaches.written hc _ _ hcell
    rw [hm.log₁] at hw
    subst hw
    -- What was written there, its writer had read.
    have hwl : cfg.log = m₁ ++ w :: (m₂ ++ ⟨tid, pre, .readKey (p, D.gate.subject sub tenantId), some value⟩ :: m₃) := by
      rw [hl, append_assoc, cons_append]
    have hwrites := reach_issues (fun tid => act_done (D.calls tid)) h hwl
    rw [hop] at hwrites
    obtain ⟨sub', tenantId', p', user, hkey, hfound, hfact, httl⟩ := hwrites
    obtain ⟨rfl, hsubject⟩ := Prod.mk.inj hkey
    obtain ⟨rfl, rfl⟩ := subject_inj hmac hsubject
    rw [Cell.live, hexp] at hlive
    have hfound' : ⟨.findById sub tenantId, some user⟩ ∈ localTrace w.tid cfg.log := by
      rw [hwl, localTrace_append]
      exact mem_append_left _ hfound
    obtain ⟨e, he, htid, hop', husers⟩ := h.found hfound'
    exact ⟨e, user, ⟨he, hop', .inr ⟨m₁, w, m₂, _, m₃, ttl, hl, htid.symm, rfl, httl, of_decide_eq_true hlive, hdel⟩⟩,
      husers, hfact.trans hval⟩
  · obtain ⟨e, he, htid, hop, husers⟩ := h.found hfound
    exact ⟨e, user, ⟨he, hop, .inl htid⟩, husers, hfact⟩

variable (D) in
/-- The answer `r` to a check follows from what the repository held at some of the entries `P`. -/
def Rests (sub tenantId : String) (checkVerified : Bool) (P : Event → Prop) (r : Except AuthError Unit) : Prop :=
  Verdict D.gate checkVerified (∃ e, P e ∧ e.pre.users sub tenantId = none)
    (fun s => ∃ e user, P e ∧ e.pre.users sub tenantId = some user ∧ user.status = s)
    (fun b => ∃ e user, P e ∧ e.pre.users sub tenantId = some user ∧ user.emailVerified = b) r

variable (D) in
/-- The facts are what the repository held at some of the entries `P`; the verified flag where it counts. -/
def Held (sub tenantId : String) (checkVerified : Bool) (P : Event → Prop) (facts : AccountFacts) : Prop :=
  (∃ e user, P e ∧ e.pre.users sub tenantId = some user ∧ user.status = facts.status) ∧
    (D.gate.requires checkVerified = true →
      ∃ e user, P e ∧ e.pre.users sub tenantId = some user ∧ facts.verified = some user.emailVerified)

/-- What a check answers follows from the facts. -/
theorem Held.rests {checkVerified : Bool} {P : Event → Prop} {facts : AccountFacts}
    (h : D.Held sub tenantId checkVerified P facts) :
    D.Rests sub tenantId checkVerified P (D.gate.judge checkVerified facts) := by
  obtain ⟨hstatus, hverified⟩ := h
  unfold Gate.judge
  split
  · next hblocked => exact .inr (.inl ⟨_, hstatus, hblocked⟩)
  · next hfree =>
    split_ifs with hrefused
    · rw [Bool.and_eq_true, beq_iff_eq] at hrefused
      obtain ⟨e, user, hP, husers, hv⟩ := hverified hrefused.1
      rw [hrefused.2] at hv
      exact .inr (.inr ⟨⟨_, hstatus, hfree⟩, ⟨e, user, hP, husers, (Option.some.inj hv).symm⟩, rfl⟩)
    · refine ⟨⟨_, hstatus, hfree⟩, fun hreq => ?_⟩
      obtain ⟨e, user, hP, husers, hv⟩ := hverified hreq
      exact ⟨e, user, hP, husers, by simpa [hreq, hv] using hrefused⟩

section

variable (h : D.Reaches cfg) (hmac : Injective D.gate.env.identifierHmac) {tid : ℕ} {checkVerified : Bool}
  {P : Event → Prop} (hP : ∀ p e, D.Read cfg.log tid sub tenantId p e → P e)
include h hmac hP

theorem Reaches.held {facts : AccountFacts}
    (htold : Told D.gate sub tenantId (D.gate.requires checkVerified) (localTrace tid cfg.log) facts) :
    D.Held sub tenantId checkVerified P facts := by
  refine ⟨?_, fun hreq => ?_⟩
  · obtain ⟨e, user, hread, husers, hfact⟩ := h.read hmac htold.1
    exact ⟨e, user, hP _ e hread, husers, hfact⟩
  · obtain ⟨value, hheard, hvalue⟩ := htold.2 hreq
    obtain ⟨e, user, hread, husers, rfl⟩ := h.read hmac hheard
    exact ⟨e, user, hP _ e hread, husers, by rw [hvalue, fact_uev_bne]⟩

theorem Reaches.rests {faults : List Fault} {r : Except AuthError Unit}
    (hcall : D.calls tid = .check sub tenantId checkVerified faults) (hr : cfg.pool tid = .ret r) :
    D.Rests sub tenantId checkVerified P r := by
  have hdone := reach_ends (fun tid => act_done (D.calls tid)) h hr
  rw [hcall] at hdone
  obtain ⟨_, rfl, rfl | ⟨hgone, rfl⟩⟩ | ⟨facts, htold, rfl⟩ := hdone
  · exact .inl (.inl rfl)
  · obtain ⟨e, he, htid, hop, husers⟩ := h.found hgone
    exact .inl (.inr ⟨⟨e, hP .us e ⟨he, hop, .inl htid⟩, husers⟩, rfl⟩)
  · exact (h.held hmac hP htold).rests

end

/-- Where no call takes longer than `d` seconds, what was heard was read at most the TTL and `2 * d` seconds before. -/
theorem Read.fresh {tid d : ℕ} {p : Prefix} {e : Event}
    (hbrief : ∀ x ∈ cfg.log, ∀ y ∈ cfg.log, x.tid = y.tid → y.pre.now ≤ x.pre.now + d)
    (hread : D.Read cfg.log tid sub tenantId p e) :
    e ∈ cfg.log ∧ ∀ y ∈ cfg.log, y.tid = tid → y.pre.now ≤ e.pre.now + (D.gate.userStatusCacheTtl + 2 * d) := by
  obtain ⟨he, -, hown | ⟨m₁, w, m₂, g, m₃, ttl, hl, hwt, hgt, httl, hlt, -⟩⟩ := hread
  · refine ⟨he, fun y hy htid => ?_⟩
    have := hbrief e he y hy (hown.trans htid.symm)
    omega
  · refine ⟨he, fun y hy htid => ?_⟩
    have hwritten := hbrief e he w (by simp [hl]) hwt.symm
    have hjudged := hbrief g (by simp [hl]) y hy (hgt.trans htid.symm)
    have : ttl = D.gate.userStatusCacheTtl := by
      rw [Gate.statusCache] at httl
      split_ifs at httl
      exact (Option.some.inj httl).symm
    omega

/-- An invalidation of the account runs in `l₂` and returns, no call that read the account in `l₀` runs on beside it, and
`tid` begins later. -/
structure Invalidates (D : Deployment) (cfg : Snapshot) (sub tenantId : String) (tid : ℕ) (l₀ l₁ l₂ l₃ : List Event) :
    Prop where
  log : cfg.log = l₀ ++ l₁ ++ l₂ ++ l₃
  call : ∃ i faults, D.calls i = .invalidate sub tenantId faults ∧ cfg.pool i = .ret (.ok ()) ∧
    ∀ x ∈ l₀ ++ l₁ ++ l₃, x.tid ≠ i
  ended : ∀ e ∈ l₀, e.op = .findById sub tenantId → ∀ x ∈ l₂ ++ l₃, x.tid ≠ e.tid
  begins : ∀ x ∈ l₀ ++ l₁ ++ l₂, x.tid ≠ tid

/-- What was heard after it was read since `l₀`. -/
theorem Invalidates.later {tid : ℕ} {p : Prefix} {e : Event} {l₀ l₁ l₂ l₃ : List Event}
    (hinv : D.Invalidates cfg sub tenantId tid l₀ l₁ l₂ l₃) (h : D.Reaches cfg)
    (hnamed : (sub.toList.all D.gate.isWhitespace || tenantId.toList.all D.gate.isWhitespace) = false)
    (hread : D.Read cfg.log tid sub tenantId p e) : e ∈ l₁ ++ l₂ ++ l₃ := by
  obtain ⟨hlog, ⟨i, faults, hcall, hret, hwithin⟩, hended, hnew⟩ := hinv
  obtain ⟨he, hop, hown⟩ := hread
  by_contra hbefore
  replace hbefore : e ∈ l₀ := by
    rw [hlog] at he
    simp only [mem_append, not_or] at he hbefore
    tauto
  rcases hown with hown | ⟨m₁, w, m₂, g, m₃, ttl, hl, hwt, hgt, httl, -, hdel⟩
  · exact hnew e (by simp [hbefore]) hown
  -- The invalidation deleted the key, so the cell that the check found was written later.
  have hdone := reach_ends (fun tid => act_done (D.calls tid)) h hret
  rw [hcall, Done, httl] at hdone
  simp only [reduceCtorEq, hnamed, Bool.false_eq_true, false_or, forall_const] at hdone
  obtain ⟨z, hz, hzt, hzev⟩ := mem_localTrace.mp (hdone p)
  have hz₂ : z ∈ l₂ := by
    have := hwithin z
    rw [hlog] at hz
    simp only [mem_append] at hz this
    tauto
  obtain ⟨z₁, z₂, rfl⟩ := append_of_mem hz₂
  have hcut : m₁ ++ w :: (m₂ ++ g :: m₃) = l₀ ++ l₁ ++ z₁ ++ z :: (z₂ ++ l₃) := by simpa using hl.symm.trans hlog
  have hwriter : w ∉ z :: (z₂ ++ l₃) := fun hw => hended e hbefore hop w (by simp at hw ⊢; tauto) hwt
  rcases cut_cases hcut with ⟨-, rfl, -⟩ | ⟨m, hm, hrest⟩ | ⟨m, -, hrest⟩
  · exact hwriter mem_cons_self
  · rcases cut_cases hrest with ⟨-, rfl, -⟩ | ⟨m', rfl, -⟩ | ⟨m', rfl, -⟩
    · exact hnew g (by simp) hgt
    · refine hnew g ?_ hgt
      rw [← append_assoc, hm]
      simp
    · exact hdel z (by simp) (congrArg Ev.op hzev)
  · exact hwriter (mem_cons_of_mem _ (by simp [hrest]))

end Deployment

variable {D : Deployment} {cfg : Snapshot} {tid : ℕ} {sub tenantId : String} {checkVerified : Bool}
  {faults : List Fault} {r : Except AuthError Unit}

/-- If no call takes longer than `d` seconds, every answer of a check follows from what the repository held at most the
TTL and `2 * d` seconds before any command of the check. -/
theorem verdict_fresh (h : D.Reaches cfg) (hmac : Injective D.gate.env.identifierHmac) {d : ℕ}
    (hbrief : ∀ x ∈ cfg.log, ∀ y ∈ cfg.log, x.tid = y.tid → y.pre.now ≤ x.pre.now + d)
    (hcall : D.calls tid = .check sub tenantId checkVerified faults) (hr : cfg.pool tid = .ret r) :
    D.Rests sub tenantId checkVerified (fun e => e ∈ cfg.log ∧ ∀ y ∈ cfg.log, y.tid = tid →
      y.pre.now ≤ e.pre.now + (D.gate.userStatusCacheTtl + 2 * d)) r :=
  h.rests hmac (fun _ _ => Deployment.Read.fresh hbrief) hcall hr

/-- A change of the account ends `l₀`, and an invalidation runs in `l₂`. If no call that read the account before the
change runs on beside the invalidation, the checks that begin later answer by what the repository held after the
change. -/
theorem verdict_invalidated (h : D.Reaches cfg) (hmac : Injective D.gate.env.identifierHmac) {l₀ l₁ l₂ l₃ : List Event}
    (hlog : cfg.log = l₀ ++ l₁ ++ l₂ ++ l₃) {i : ℕ} {faults' : List Fault}
    (hinv : D.calls i = .invalidate sub tenantId faults')
    (hnamed : (sub.toList.all D.gate.isWhitespace || tenantId.toList.all D.gate.isWhitespace) = false)
    (hret : cfg.pool i = .ret (.ok ())) (hwithin : ∀ x ∈ l₀ ++ l₁ ++ l₃, x.tid ≠ i)
    (hended : ∀ e ∈ l₀, e.op = .findById sub tenantId → ∀ x ∈ l₂ ++ l₃, x.tid ≠ e.tid)
    (hcall : D.calls tid = .check sub tenantId checkVerified faults) (hnew : ∀ x ∈ l₀ ++ l₁ ++ l₂, x.tid ≠ tid)
    (hr : cfg.pool tid = .ret r) : D.Rests sub tenantId checkVerified (· ∈ l₁ ++ l₂ ++ l₃) r :=
  have hlater : D.Invalidates cfg sub tenantId tid l₀ l₁ l₂ l₃ :=
    ⟨hlog, ⟨i, faults', hinv, hret, hwithin⟩, hended, hnew⟩
  h.rests hmac (fun _ _ => hlater.later h hnamed) hcall hr

namespace Demo

/-- An account is checked, banned, checked again, dropped from a cache of a minute, and checked once more. -/
def deployment (tenantId : String) : Deployment where
  gate := ⟨BymaxAuth.Demo.env, true, 60, Char.isWhitespace⟩
  users id tenant := if id = "u1" ∧ tenant = tenantId then some BymaxAuth.Demo.alice else none
  calls tid := [.check "u1" tenantId true [],
    .change "u1" tenantId (some { BymaxAuth.Demo.alice with status := "BANNED" }),
    .check "u1" tenantId true [], .invalidate "u1" tenantId []].getD tid (.check "u1" tenantId true [])

/-- One after the other, with most of a minute before the second check. -/
def moves : List (Move ℕ) :=
  replicate 5 (.act 0 0) ++ [.act 1 0, .wait 59, .act 2 0, .act 2 0, .act 3 0, .act 3 0] ++ replicate 5 (.act 4 0)

/-- The second check is let through, the third one is refused. -/
theorem ran : ∃ cfg, (deployment "t1").Reaches cfg ∧ cfg.pool 2 = .ret (.ok ()) ∧
    cfg.pool 4 = .ret (.error .accountBanned) ∧
    (∀ x ∈ cfg.log, ∀ y ∈ cfg.log, x.tid = y.tid → y.pre.now ≤ x.pre.now + 0) ∧
    (deployment "t1").Invalidates cfg "u1" "t1" 4 (cfg.log.take 6) ((cfg.log.drop 6).take 2) ((cfg.log.drop 8).take 2)
      (cfg.log.drop 10) := by
  refine exists_reach (p := fun cfg => (cfg.pool 2).answered = some () ∧ (cfg.pool 4).failed = some .accountBanned ∧
      (∀ x ∈ cfg.log, ∀ y ∈ cfg.log, x.tid = y.tid → y.pre.now ≤ x.pre.now + 0) ∧ (cfg.pool 3).answered = some () ∧
      (∀ x ∈ cfg.log.take 6 ++ (cfg.log.drop 6).take 2 ++ cfg.log.drop 10, x.tid ≠ 3) ∧
      (∀ e ∈ cfg.log.take 6, ∀ x ∈ (cfg.log.drop 8).take 2 ++ cfg.log.drop 10, x.tid ≠ e.tid) ∧
      ∀ x ∈ cfg.log.take 6 ++ (cfg.log.drop 6).take 2 ++ (cfg.log.drop 8).take 2, x.tid ≠ 4)
    (show (run _ _ moves).any _ = true by decide +kernel) ?_
  rintro cfg - ⟨hok, hbanned, hbrief, hret, hwithin, hended, hnew⟩
  refine ⟨Prog.answered_eq_some.mp hok, Prog.failed_eq_some.mp hbanned, hbrief, ?_,
    ⟨3, [], rfl, Prog.answered_eq_some.mp hret, hwithin⟩, fun e he _ => hended e he, hnew⟩
  rw [← take_add, ← take_add, take_append_drop]

end Demo

open AccountStatus.Demo

/-- The second check is let through on what the repository held 59 seconds ago. -/
theorem verdict_fresh_cached : ∃ cfg, (deployment "t1").Reaches cfg ∧ cfg.pool 2 = .ret (.ok ()) ∧
    (deployment "t1").Rests "u1" "t1" true (fun e => e ∈ cfg.log ∧ ∀ y ∈ cfg.log, y.tid = 2 →
      y.pre.now ≤ e.pre.now + (60 + 2 * 0)) (.ok ()) := by
  obtain ⟨cfg, h, hr, -, hbrief, -⟩ := ran
  exact ⟨cfg, h, hr, verdict_fresh h injective_id hbrief rfl hr⟩

/-- The third one is refused. -/
theorem verdict_invalidated_banned : ∃ cfg, (deployment "t1").Reaches cfg ∧
    cfg.pool 4 = .ret (.error .accountBanned) ∧ (deployment "t1").Rests "u1" "t1" true
      (· ∈ (cfg.log.drop 6).take 2 ++ (cfg.log.drop 8).take 2 ++ cfg.log.drop 10) (.error .accountBanned) := by
  obtain ⟨cfg, h, -, hr, -, hlog, ⟨i, faults, hinv, hret, hwithin⟩, hended, hnew⟩ := ran
  exact ⟨cfg, h, hr, verdict_invalidated h injective_id hlog hinv (by decide) hret hwithin hended rfl hnew hr⟩

end BymaxAuth.AccountStatus
