import BymaxAuth.Guarantees.SignOut
import BymaxAuth.Engine.Refusals
import Mathlib.Data.List.Chain

/-!
# What a refused refresh leaves

The account gates of `refresh` run when the presented token is consumed and its successor stored. A client
that is refused there holds the consumed token only. For an account that is gone or blocked everything the
account has is swept, so no session is left that nobody holds; for an address that is not verified the
successor stays. In both cases the consumed token's marker stays too: whoever presents the token again
looks like a thief.

## The model

`Client` is one honest client: its calls are made one after the other, each presents the last token the
client was given, and nobody else presents a token of its lineage. `RefusedAtGate` is a call that has read
the account and failed. `NoRetry` is about what the client does next: it does not present a token again
that a failed call has consumed, before the refresh lifetime is over.
-/

namespace BymaxAuth

open Redis Concurrency List

/-- No entry of call `c'` comes before an entry of call `c`. -/
def Before (log : List Event) (c c' : ℕ) : Prop :=
  ∀ l₁ e l₂, log = l₁ ++ e :: l₂ → e.tid = c → ∀ x ∈ l₁, x.tid ≠ c'

/-- After call `c` has been answered, the token (by its hash) that the client presents in call `c'` is the
one it was given, or, if it was given an error, the one it had. -/
inductive Follows (D : Deployment) (cfg : Snapshot) (token : ℕ → String) (c c' : ℕ) : Prop where
  /-- The call was answered with an error. -/
  | error {e : AuthError} : cfg.pool c = .ret (.error e) → token c' = token c → Follows D cfg token c c'
  /-- The call was answered with a pair. -/
  | tokens {rotated : RotatedTokens} : cfg.pool c = .ret (.ok (.tokens rotated)) →
      token c' = D.env.redisHash rotated.refreshToken → Follows D cfg token c c'

/-- The calls of one honest client, all of whose responses are delivered. -/
structure Client (D : Deployment) (cfg : Snapshot) (token : ℕ → String) (calls : List ℕ) : Prop where
  /-- They are refreshes. -/
  refreshes : ∀ c ∈ calls, ∃ raw ip userAgent, D.flows c = .refresh raw ip userAgent ∧ token c = D.env.redisHash raw
  /-- One is made after the other. -/
  oneByOne : calls.Pairwise (Before cfg.log)
  /-- Each presents the last token the client was given. -/
  honest : calls.IsChain (Follows D cfg token)
  /-- Nobody else presents a token of the client's lineage. -/
  alone : ∀ c ∈ calls, ∀ tid pre a r, ⟨tid, pre, .session (.refreshRotate a), r⟩ ∈ cfg.log →
    Descends cfg.log (token c) a.oldHash → tid ∈ calls

/-- The call has read the account, and was refused. -/
def RefusedAtGate (cfg : Snapshot) (c : ℕ) (found : Option AuthUser) : Prop :=
  (∃ e, cfg.pool c = .ret (.error e)) ∧
    ∃ pre userId tenantId, ⟨c, pre, .host (.findById userId tenantId), found⟩ ∈ cfg.log

/-- A token that a call consumed before it failed is presented again only when the refresh lifetime is
over. -/
def NoRetry (D : Deployment) (cfg : Snapshot) (calls : List ℕ) : Prop :=
  calls.Pairwise fun c c' => ∀ e, cfg.pool c = .ret (.error e) → ∀ pre a old pre' a' r,
    ⟨c, pre, .session (.refreshRotate a), .rotated old⟩ ∈ cfg.log →
    ⟨c', pre', .session (.refreshRotate a'), r⟩ ∈ cfg.log → a'.oldHash = a.oldHash →
    pre.now + D.env.config.refreshTtl ≤ pre'.now

/-- Of two members of a list, one comes before the other. -/
theorem either_of_pairwise {α : Type} {R : α → α → Prop} {l : List α} (h : l.Pairwise R) {a b : α}
    (ha : a ∈ l) (hb : b ∈ l) (hne : a ≠ b) : R a b ∨ R b a := by
  have hsymm : Std.Symm fun a b => R a b ∨ R b a := ⟨fun _ _ => Or.symm⟩
  have hboth : l.Pairwise fun a b => R a b ∨ R b a := h.imp Or.inl
  exact hboth.forall ha hb hne

namespace Deployment

variable {D : Deployment} {cfg : Snapshot} {l₁ l₂ : List Event} {tid c : ℕ} {pre : Store} {raw ip userAgent : String}
  {found : Option AuthUser} {token : ℕ → String} {calls : List ℕ}

/-! ### What a refusal has done -/

/-- An account that was found has the id it was looked up by, and the tenant, if one was named. -/
theorem Reaches.found_by_id (h : D.Reaches cfg) {userId : String} {tenantId : Option String} {user : AuthUser}
    (he : ⟨tid, pre, .host (.findById userId tenantId), some user⟩ ∈ cfg.log) :
    user.id = userId ∧ (tenantId = none ∨ tenantId = some user.tenantId) := by
  obtain ⟨c, d, -, hm, -⟩ := h.at_mem he
  obtain ⟨i, hi⟩ := moment_host hm
  have hfound : pre.users.find? (fun u => u.id = userId ∧ (tenantId = none ∨ tenantId = some u.tenantId)) =
      some user := congrArg Prod.fst hi
  simpa using List.find?_some hfound

namespace Reaches

variable (h : D.Reaches cfg)
include h

/-- The call's exchanges, when it was refused at a gate. -/
theorem refused_trace (hf : D.flows c = .refresh raw ip userAgent) (href : RefusedAtGate cfg c found) :
    ∃ tr₁ tr₂ rotated r userId tenantId, localTrace c cfg.log = tr₁ ++ tr₂ ∧
      Reissued D.env (D.env.redisHash raw) tr₁ r rotated ∧ Refusal D.env rotated.accessToken tr₂ ∧
      ⟨.host (.findById userId tenantId), found⟩ ∈ tr₂ := by
  obtain ⟨⟨e, hp⟩, pre, userId, tenantId, he⟩ := href
  have hpath : Path ((D.flows c).prog D.env) (localTrace c cfg.log) (cfg.pool c) := reach_path h c
  rw [hp, hf] at hpath
  obtain ⟨tr₁, tr₂, rotated, r, htr, hrest⟩ := refresh_refused hpath (mem_localTrace.mpr ⟨_, he, rfl, rfl⟩)
  exact ⟨tr₁, tr₂, rotated, r, userId, tenantId, htr, hrest⟩

/-- A refusal that sweeps, sweeps the account of the token that was presented. -/
theorem refusal_subject {claims : AccessClaims} {tr : Trace} {b : Birth}
    {r : SessionRecord} (hn : Names D.env b r) (hsub : claims.sub = r.userId)
    (htenant : claims.tenantId = D.env.claimTenant r) (href : Refusal D.env claims tr)
    (htr : ∀ ev ∈ tr, ev ∈ localTrace c cfg.log) :
    (∃ read n epoch, tr = [read, ⟨.session (.invalidateUserSessions (D.env.ownerIndex r)), n⟩,
      ⟨.account (.bumpEp (D.env.ownerIndex r)), epoch⟩]) ∨
    ∃ user userId tenantId, D.env.Unverified user ∧ tr = [⟨.host (.findById userId tenantId), some user⟩] := by
  rw [claimTenant_of_names hn] at htenant
  have hfound : ∀ {userId : String} {tenantId : Option String} {user : AuthUser},
      ⟨.host (.findById userId tenantId), some user⟩ ∈ tr →
      user.id = userId ∧ (tenantId = none ∨ tenantId = some user.tenantId) := by
    intro userId tenantId user hev
    obtain ⟨pre, he⟩ := exchange_mem.mp (htr _ hev)
    exact h.found_by_id he
  have hindex : ∀ {tenantId : Option String} {userId : String}, tenantId = r.tenantId → userId = r.userId →
      D.env.subjectHash tenantId userId = D.env.ownerIndex r := by
    rintro _ _ rfl rfl
    rfl
  cases href with
  | gone => exact .inl ⟨_, _, _, by rw [hindex htenant hsub]⟩
  | @blocked user n epoch hk =>
    have hscope : some user.tenantId = r.tenantId := by
      rcases (hfound mem_cons_self).2 with hnone | hsome
      · have hsome := hn.tenanted hk
        rw [← htenant, hnone] at hsome
        cases hsome
      · rw [← hsome, htenant]
    exact .inl ⟨_, n, epoch, by rw [hindex hscope hsub]⟩
  | @blockedAdmin admin n epoch hk =>
    have hid : admin.id = r.userId := (hfound mem_cons_self).1.trans hsub
    exact .inl ⟨_, n, epoch, by rw [hindex (hn.tenant hk).symm hid]⟩
  | unverified hu => exact .inr ⟨_, _, _, hu, rfl⟩

/-- A refusal of an account that is gone or blocked has swept the account of the presented token, and the
call stores nothing after that. -/
theorem swept_of_refused (hf : D.flows c = .refresh raw ip userAgent)
    (href : RefusedAtGate cfg c found) (hver : ∀ user, found = some user → ¬ D.env.Unverified user) :
    ∃ subject l₁ pre n l₂, cfg.log = l₁ ++ ⟨c, pre, .session (.invalidateUserSessions subject), n⟩ :: l₂ ∧
      (∃ e ∈ l₁, ∃ b, Bears e b ∧ b.hash = D.env.redisHash raw ∧ b.subject = subject) ∧
      ∀ e ∈ l₂, e.tid = c → ∀ s, e.op ≠ .session (.recoverGrace s) := by
  obtain ⟨tr₁, tr₂, rotated, r, userId, tenantId, htr, hre, hrefusal, hread⟩ := h.refused_trace hf href
  have hmade : MadeFrom D.env (D.env.redisHash raw) (localTrace c cfg.log) rotated.refreshToken r :=
    hre.made.mono ⟨tr₂, htr.symm⟩
  obtain ⟨-, e, he, -, -, b, hb, -, hn⟩ := h.begets_of_made hmade
  rcases h.refusal_subject hn hre.sub hre.tenantId hrefusal (c := c)
      fun ev hev => htr ▸ mem_append_right _ hev with
    ⟨read, n, epoch, rfl⟩ | ⟨user, _, _, hu, rfl⟩
  · rw [append_cons] at htr
    obtain ⟨l₁, ⟨_, pre, op, res⟩, l₂, hl, rfl, hev, htr₁, htr₂⟩ := localTrace_split htr
    cases hev
    refine ⟨_, l₁, pre, _, l₂, hl, ?_, ?_⟩
    · obtain ⟨c₀, d₀, hc₀, hm, -⟩ := h.at_entry hl
      have hlog : c₀.log = l₁ := hm.log₁
      rw [← hlog] at htr₁ ⊢
      obtain ⟨hbegets, e', he', -, -, b', hb', hbh', hn'⟩ :=
        hc₀.begets_of_made (htr₁ ▸ hre.made.mono (prefix_append _ _))
      obtain ⟨r₀, -, ⟨e₀, he₀, b₀, hb₀, hbh₀, -⟩, -⟩ := hc₀.begets_identity hbegets
      refine ⟨e₀, he₀, b₀, hb₀, hbh₀, ?_⟩
      rw [← hn'.subject]
      exact (hc₀.descends_subject he₀ hb₀ he' hb' (hbh₀ ▸ hbh' ▸ .single hbegets)).symm
    · intro x hx ht s hop
      have hmem := mem_localTrace.mpr ⟨x, hx, ht, rfl⟩
      rw [htr₂, mem_singleton] at hmem
      obtain ⟨_, _, op, _⟩ := x
      cases hop
      cases hmem
  · rw [mem_singleton] at hread
    cases hread
    exact absurd hu (hver user rfl)

/-! ### The tokens of a client -/

theorem begets_of_tokens (hf : D.flows c = .refresh raw ip userAgent)
    {rotated : RotatedTokens} (hp : cfg.pool c = .ret (.ok (.tokens rotated))) :
    Begets cfg.log (D.env.redisHash raw) (D.env.redisHash rotated.refreshToken) := by
  have hans := h.answered hp
  rw [hf] at hans
  obtain ⟨_, r, ⟨⟩, href⟩ := hans
  exact (h.begets_of_made href.made).1

theorem presented_eq (hf : D.flows c = .refresh raw ip userAgent) {a : Rotation}
    {r : RotateReply} (he : ⟨c, pre, .session (.refreshRotate a), r⟩ ∈ cfg.log) : a.oldHash = D.env.redisHash raw := by
  have hpath : Path ((D.flows c).prog D.env) (localTrace c cfg.log) (cfg.pool c) := reach_path h c
  rw [hf] at hpath
  exact (only_refresh raw ip userAgent).of_path hpath _ (mem_localTrace.mpr ⟨_, he, rfl, rfl⟩) a rfl

/-- The tokens a client presents descend from the first of them. -/
theorem descends_of_chain (hrefresh : ∀ x ∈ c :: calls, ∃ raw ip userAgent, D.flows x = .refresh raw ip userAgent ∧
      token x = D.env.redisHash raw) (hchain : (c :: calls).IsChain (Follows D cfg token)) :
    ∀ c' ∈ c :: calls, Descends cfg.log (token c) (token c') := by
  induction calls generalizing c with
  | nil =>
    intro c' hc'
    rw [mem_singleton] at hc'
    rw [hc']
    exact .refl
  | cons c₁ rest ih =>
    rw [isChain_cons_cons] at hchain
    intro c' hc'
    rcases mem_cons.mp hc' with rfl | hc'
    · exact .refl
    have hrest := ih (fun x hx => hrefresh x (mem_cons_of_mem _ hx)) hchain.2 c' hc'
    cases hchain.1 with
    | error _ ht =>
      rw [ht] at hrest
      exact hrest
    | tokens hp ht =>
      obtain ⟨raw, ip, userAgent, hf, hraw⟩ := hrefresh c mem_cons_self
      refine .head ?_ hrest
      rw [hraw, ht]
      exact h.begets_of_tokens hf hp

/-- A call of the client was answered with an error, or with a token that all it presents later descends
from. -/
theorem given (hrefresh : ∀ x ∈ calls, ∃ raw ip userAgent, D.flows x = .refresh raw ip userAgent ∧
      token x = D.env.redisHash raw)
    (hchain : calls.IsChain (Follows D cfg token)) :
    calls.Pairwise fun c c' => (∃ e, cfg.pool c = .ret (.error e)) ∨
      ∃ rotated, cfg.pool c = .ret (.ok (.tokens rotated)) ∧
        Descends cfg.log (D.env.redisHash rotated.refreshToken) (token c') := by
  induction calls with
  | nil => exact .nil
  | cons c rest ih =>
    have hrefresh' := fun x hx => hrefresh x (mem_cons_of_mem _ hx)
    refine .cons (fun c' hc' => ?_) (ih hrefresh' hchain.tail)
    cases rest with
    | nil => cases hc'
    | cons c₁ rest =>
      rw [isChain_cons_cons] at hchain
      cases hchain.1 with
      | error hp _ => exact .inl ⟨_, hp⟩
      | tokens hp ht => exact .inr ⟨_, hp, ht ▸ h.descends_of_chain hrefresh' hchain.2 c' hc'⟩

/-! ### What the client finds -/

/-- Nothing that descends from a token is live, once it was refused for an account that is gone or
blocked. -/
theorem nothing_stranded (hclient : Client D cfg token calls) (hc : c ∈ calls)
    (href : RefusedAtGate cfg c found) (hver : ∀ user, found = some user → ¬ D.env.Unverified user) {hash : String}
    (hd : Descends cfg.log (token c) hash) : ¬ Live cfg.st hash := by
  obtain ⟨raw, ip, userAgent, hf, hraw⟩ := hclient.refreshes c hc
  obtain ⟨subject, l₁, pre, n, l₂, hl, ⟨e, he, b, hb, hbh, hs⟩, hafter⟩ := h.swept_of_refused hf href hver
  rw [← hraw] at hbh
  -- A recovery of the lineage is a call of the client, so it does not overlap this one.
  have hstraddle : ∀ tid' pre₁ a json pre₂ s, ⟨tid', pre₁, .session (.refreshRotate a), .grace json⟩ ∈ l₁ →
      ⟨tid', pre₂, .session (.recoverGrace s), true⟩ ∈ l₂ → ¬ Descends cfg.log b.hash a.oldHash := by
    intro tid' pre₁ a json pre₂ s hg hr hdesc
    have hmem : tid' ∈ calls :=
      hclient.alone c hc _ _ a _ (hl ▸ mem_append_left _ hg) (hbh ▸ hdesc)
    by_cases ht : tid' = c
    · exact hafter _ hr ht s rfl
    · rcases either_of_pairwise hclient.oneByOne hmem hc ht with hbefore | hbefore
      · obtain ⟨m₁, m₂, rfl⟩ := append_of_mem hr
        rw [← cons_append, ← append_assoc] at hl
        exact hbefore _ _ _ hl rfl _ (mem_append_right _ mem_cons_self) rfl
      · exact hbefore _ _ _ hl rfl _ hg rfl
  obtain ⟨e', he', b', hb', rfl, hs'⟩ := h.stored_before_sweep hl he hb hs hstraddle (hbh ▸ hd)
  exact h.dead_of_swept hl he' hb' hs'

/-- A client that does not retry what a failed call consumed is not answered with a reuse. -/
theorem no_alarm (hclient : Client D cfg token calls) (hretry : NoRetry D cfg calls)
    (hc : c ∈ calls) {a : Rotation} {family : String} :
    ⟨c, pre, .session (.refreshRotate a), .reused family⟩ ∉ cfg.log := by
  intro he
  obtain ⟨raw, ip, userAgent, hf, hraw⟩ := hclient.refreshes c hc
  have hold : a.oldHash = token c := (h.presented_eq hf he).trans hraw.symm
  -- The marker was left by a rotation of the same token, by an earlier call of the client.
  obtain ⟨l₁, l₂, hl⟩ := append_of_mem he
  obtain ⟨c', d', hc', hm, -⟩ := h.at_entry hl
  obtain ⟨cell, hk, hlive, -⟩ := get_eq_some.mp (SessionCmd.exec_reused (moment_session hm).1.symm)
  have hst : c'.st = pre := hm.st₁
  rw [← hst] at hk hlive
  obtain ⟨c₀, pre₀, a₀, old, he₀, hold₀, rfl⟩ := hc'.rotated_of_cf hk
  rw [hm.log₁] at he₀
  have he₀' : ⟨c₀, pre₀, .session (.refreshRotate a₀), .rotated old⟩ ∈ cfg.log :=
    hl ▸ mem_append_left _ he₀
  have hc₀ : c₀ ∈ calls := hclient.alone c hc _ _ a₀ _ he₀' (by rw [hold₀, hold]; exact .refl)
  have hne : c₀ ≠ c := by
    rintro rfl
    cases h.rotates_once he he₀'
  obtain ⟨raw₀, ip₀, userAgent₀, hf₀, hraw₀⟩ := hclient.refreshes c₀ hc₀
  have hpairs := hclient.oneByOne.and ((h.given hclient.refreshes hclient.honest).and hretry)
  rcases either_of_pairwise hpairs hc₀ hc hne with ⟨-, hgiven, hretry⟩ | ⟨hbefore, -⟩
  · rcases hgiven with ⟨err, hp⟩ | ⟨rotated, hp, hdesc⟩
    · -- It failed, so the marker has lapsed by now.
      obtain ⟨k₁, k₂, hk₁⟩ := append_of_mem he₀'
      have hobeys : Rotates D.env (localTrace c₀ k₁) a₀ := h.obeys hk₁
      have hwait := hretry err hp _ _ _ _ _ _ he₀' he (hold₀.symm)
      rw [live_some, hst, hobeys.ttl] at hlive
      omega
    · -- It returned a token, and what the client presents since then descends from that.
      have hmade := h.begets_of_tokens hf₀ hp
      rw [← h.presented_eq hf₀ he₀', hold₀, hold] at hmade
      exact h.acyclic hmade hdesc
  · exact hbefore _ _ _ hl rfl _ he₀ rfl

end Reaches

end Deployment

/-- For one honest client: a refresh that is refused for an account that is gone or blocked leaves nothing
live that descends from the token it was presented, then or later; and if the client does not retry what a
failed call has consumed, it is never answered with a reuse. -/
theorem refused_strands_nothing {D : Deployment} {cfg : Snapshot} (h : D.Reaches cfg) {token : ℕ → String}
    {calls : List ℕ} (hclient : Client D cfg token calls) :
    (∀ c ∈ calls, ∀ found, RefusedAtGate cfg c found → (∀ user, found = some user → ¬ D.env.Unverified user) →
      ∀ hash, Descends cfg.log (token c) hash → ¬ Live cfg.st hash) ∧
    (NoRetry D cfg calls → ∀ c ∈ calls, ∀ pre a family,
      ⟨c, pre, .session (.refreshRotate a), .reused family⟩ ∉ cfg.log) :=
  ⟨fun _ hc _ href hver _ hd => h.nothing_stranded hclient hc href hver hd,
    fun hretry _ hc _ _ _ => h.no_alarm hclient hretry hc⟩

/-! ### Runs -/

/-- The host has changed its accounts. -/
def Demo.changes (users : List AuthUser) : List (Move Input) := [.wait { Demo.input "" "" with users }]

/-- The account, blocked. -/
def Demo.banned : AuthUser := { Demo.alice with status := "BANNED" }

/-- The account, with an address that is not verified. -/
def Demo.newcomer : AuthUser := { Demo.alice with emailVerified := false }

/-- The call was answered with an error. -/
def isFailed (cfg : Snapshot) (tid : ℕ) : Bool :=
  match cfg.pool tid with
  | .ret (.error _) => true
  | _ => false

variable {tid : ℕ} {log : List Event}

theorem pool_of_isFailed {cfg : Snapshot} (h : isFailed cfg tid = true) : ∃ e, cfg.pool tid = .ret (.error e) := by
  unfold isFailed at h
  split at h
  · next e heq => exact ⟨e, heq⟩
  · cases h

/-- The entry is handler `tid`'s read of an account, which found one of this status and verification. -/
def readsAccount (tid : ℕ) (status : String) (verified : Bool) (e : Event) : Bool :=
  match e with
  | ⟨t, _, .host (.findById _ _), some user⟩ => t = tid && user.status = status && user.emailVerified = verified
  | _ => false

theorem refusedAtGate_of_reads {cfg : Snapshot} {status : String} {verified : Bool}
    (hfail : isFailed cfg tid = true) (hread : cfg.log.any (readsAccount tid status verified) = true) :
    ∃ user, RefusedAtGate cfg tid (some user) ∧ user.status = status ∧ user.emailVerified = verified := by
  obtain ⟨e, he, hr⟩ := any_eq_true.mp hread
  unfold readsAccount at hr
  split at hr
  · next t pre userId tenantId user =>
    simp only [Bool.and_eq_true, decide_eq_true_eq] at hr
    obtain ⟨⟨rfl, hs⟩, hv⟩ := hr
    exact ⟨user, ⟨pool_of_isFailed hfail, pre, userId, tenantId, he⟩, hs, hv⟩
  · cases hr

theorem before_of_precedes {c c' : ℕ} (h : precedes (fun e => e.tid = c') (fun e => e.tid = c) log = false) :
    Before log c c' := by
  intro l₁ e l₂ hl he x hx hx'
  refine Bool.eq_false_iff.mp h (precedes_iff.mpr ⟨l₁, e, l₂, hl, ?_, x, hx, ?_⟩)
  · simpa using he
  · simpa using hx'

/-- Whether the entry presents a refresh token to the rotation script. -/
def presentsToken (e : Event) : Bool :=
  match e with
  | ⟨_, _, .session (.refreshRotate _), _⟩ => true
  | _ => false

theorem alone_of_all {calls : List ℕ} (h : (log.all fun e => !presentsToken e || calls.contains e.tid) = true)
    {pre : Store} {a : Rotation} {r : RotateReply} (he : ⟨tid, pre, .session (.refreshRotate a), r⟩ ∈ log) :
    tid ∈ calls := by
  have hall := all_eq_true.mp h _ he
  simpa [presentsToken] using hall

/-- The call's rotation was answered as a reuse, as a test. -/
def isReused (tid : ℕ) : Event → Bool
  | ⟨t, _, .session (.refreshRotate _), .reused _⟩ => t = tid
  | _ => false

theorem mem_of_isReused (h : log.any (isReused tid) = true) :
    ∃ pre a family, ⟨tid, pre, .session (.refreshRotate a), .reused family⟩ ∈ log := by
  obtain ⟨e, he, hr⟩ := any_eq_true.mp h
  unfold isReused at hr
  split at hr
  · obtain rfl := of_decide_eq_true hr
    exact ⟨_, _, _, he⟩
  · cases hr

open Demo

/-- A refresh is answered, then the account is blocked, and the next refresh is refused. -/
theorem refused_strands_nothing_blocked : ∃ cfg user,
    (deployment [.issue alice "" "" false, .refresh (token 'a') "" "", .refresh (token 'b') "" ""]).Reaches cfg ∧
    Client (deployment [.issue alice "" "" false, .refresh (token 'a') "" "",
      .refresh (token 'b') "" ""]) cfg (fun c => token (if c = 1 then 'a' else 'b')) [1, 2] ∧
    RefusedAtGate cfg 2 (some user) ∧ user.status = "BANNED" ∧
    (∀ hash, Descends cfg.log (token 'b') hash → ¬ Live cfg.st hash) ∧
    ∀ pre a family, ⟨2, pre, .session (.refreshRotate a), .reused family⟩ ∉ cfg.log := by
  obtain ⟨cfg, h, hfail, hread, horder, halone, rotated, htok, hb⟩ := reaches_of_run
    (deployment [.issue alice "" "" false, .refresh (token 'a') "" "", .refresh (token 'b') "" ""])
    (firstIssue ++ acts 1 5 (token 'b') [] ++
      acts 1 8 "" ["", "", "", "j1"] ++ changes [banned] ++ acts 2 5 (token 'c') [] ++
      acts 2 10 "" ["", "", "", "j2"])
    (fun cfg => isFailed cfg 2 ∧ cfg.log.any (readsAccount 2 "BANNED" true) ∧
      precedes (fun e => e.tid = 2) (fun e => e.tid = 1) cfg.log = false ∧
      (cfg.log.all fun e => !presentsToken e || [1, 2].contains e.tid) ∧
      ∃ r ∈ tokensOf cfg 1, r.refreshToken = token 'b') (by decide +kernel)
  have hanswer := pool_of_tokensOf htok
  have hclient : Client (deployment [.issue alice "" "" false, .refresh (token 'a') "" "",
      .refresh (token 'b') "" ""]) cfg (fun c => token (if c = 1 then 'a' else 'b')) [1, 2] := by
    constructor
    · simp only [mem_cons, not_mem_nil, or_false]
      rintro c (rfl | rfl)
      · exact ⟨_, _, _, rfl, rfl⟩
      · exact ⟨_, _, _, rfl, rfl⟩
    · exact pairwise_pair.mpr (before_of_precedes horder)
    · exact isChain_pair.mpr (.tokens hanswer hb.symm)
    · exact fun _ _ _ _ _ _ he _ => alone_of_all halone he
  obtain ⟨user, href, hstatus, hverified⟩ := refusedAtGate_of_reads hfail hread
  obtain ⟨hstranded, halarm⟩ := refused_strands_nothing h hclient
  refine ⟨cfg, user, h, hclient, href, hstatus, hstranded 2 (by simp) _ href ?_,
    halarm (pairwise_pair.mpr ?_) 2 (by simp)⟩
  · rintro _ ⟨⟩ ⟨-, -, -, hunverified⟩
    rw [hverified] at hunverified
    cases hunverified
  · intro e hp
    rw [hanswer] at hp
    cases hp

/-- A refresh of an account whose address is not verified consumes its token, stores a successor and is
refused: the successor is live, and nobody holds it. And a refresh of a blocked account consumes its token
and is refused; when the client presents the token it holds once more, it is answered with a reuse. -/
theorem refused_strands : (∃ cfg user, (deployment [.issue newcomer "" "" false,
        .refresh (token 'a') "" ""]).Reaches cfg ∧
      Client (deployment [.issue newcomer "" "" false, .refresh (token 'a') "" ""]) cfg
        (fun _ => token 'a') [1] ∧
      RefusedAtGate cfg 1 (some user) ∧ ¬ Live cfg.st (token 'a') ∧
      Descends cfg.log (token 'a') (token 'b') ∧ Live cfg.st (token 'b')) ∧
    ∃ cfg user, (deployment [.issue alice "" "" false, .refresh (token 'a') "" "",
        .refresh (token 'a') "" ""]).Reaches cfg ∧
      Client (deployment [.issue alice "" "" false, .refresh (token 'a') "" "",
        .refresh (token 'a') "" ""]) cfg (fun _ => token 'a') [1, 2] ∧
      RefusedAtGate cfg 1 (some user) ∧ user.status = "BANNED" ∧
      ∃ pre a family, ⟨2, pre, .session (.refreshRotate a), .reused family⟩ ∈ cfg.log := by
  constructor
  · obtain ⟨cfg, h, hfail, hread, halone, hbegets, hdead, hlive⟩ := reaches_of_run
      (deployment [.issue newcomer "" "" false, .refresh (token 'a') "" ""])
      (firstIssue ++ changes [newcomer] ++ acts 1 5 (token 'b') [] ++ acts 1 8 "" ["", "", "", "j1"])
      (fun cfg => isFailed cfg 1 ∧ cfg.log.any (readsAccount 1 "active" false) ∧
        (cfg.log.all fun e => !presentsToken e || [1].contains e.tid) ∧
        Begets cfg.log (token 'a') (token 'b') ∧ has cfg.st.keys.rt cfg.st.now (token 'a') = false ∧
        has cfg.st.keys.rt cfg.st.now (token 'b')) (by decide +kernel)
    obtain ⟨user, href, -, -⟩ := refusedAtGate_of_reads hfail hread
    refine ⟨cfg, user, h, ⟨?_, pairwise_singleton _ _, .singleton _, ?_⟩, href, by simp [Live, hdead],
      .single hbegets, hlive⟩
    · simp only [mem_singleton]
      rintro c rfl
      exact ⟨_, _, _, rfl, rfl⟩
    · exact fun _ _ _ _ _ _ he _ => alone_of_all halone he
  · obtain ⟨cfg, h, hfail, hread, horder, halone, hreused⟩ := reaches_of_run
      (deployment [.issue alice "" "" false, .refresh (token 'a') "" "", .refresh (token 'a') "" ""])
      (firstIssue ++ changes [banned] ++ acts 1 5 (token 'b') [] ++ acts 1 10 "" ["", "", "", "j1"] ++
        acts 2 6 (token 'c') [])
      (fun cfg => isFailed cfg 1 ∧ cfg.log.any (readsAccount 1 "BANNED" true) ∧
        precedes (fun e => e.tid = 2) (fun e => e.tid = 1) cfg.log = false ∧
        (cfg.log.all fun e => !presentsToken e || [1, 2].contains e.tid) ∧ cfg.log.any (isReused 2))
      (by decide +kernel)
    obtain ⟨user, href, hstatus, -⟩ := refusedAtGate_of_reads hfail hread
    obtain ⟨e, hpool⟩ := href.1
    refine ⟨cfg, user, h, ⟨?_, pairwise_pair.mpr (before_of_precedes horder),
      isChain_pair.mpr (.error hpool rfl), ?_⟩, href, hstatus, mem_of_isReused hreused⟩
    · simp only [mem_cons, not_mem_nil, or_false]
      rintro c (rfl | rfl)
      · exact ⟨_, _, _, rfl, rfl⟩
      · exact ⟨_, _, _, rfl, rfl⟩
    · exact fun _ _ _ _ _ _ he _ => alone_of_all halone he

end BymaxAuth
