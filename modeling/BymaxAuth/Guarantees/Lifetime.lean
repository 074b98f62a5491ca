import BymaxAuth.History.Births

/-!
# The lineage of a login, and its absolute lifetime

A login opens a lineage; rotations and recoveries carry it on, each through the JSON form of the record
before it. The cap on the lineage's age is checked before the rotation script, against a seed that may be
the placeholder, and again on the grace arm, against the record the reply carried. It is not checked when the
session is stored: a handler that is slow between the two stores it late (`lineage_stored_late`).
-/

namespace BymaxAuth

open Redis Concurrency List

theorem wholeSeconds_cases (age : ℤ) : (0 ≤ age ∧ wholeSeconds age = age / 1000000000) ∨
    (age ≤ 0 ∧ wholeSeconds age = -(-age / 1000000000)) := by
  rcases Int.le_total 0 age with h | h
  · exact .inl ⟨h, Int.tdiv_eq_ediv_of_nonneg h⟩
  · refine .inr ⟨h, ?_⟩
    rw [wholeSeconds, ← Int.neg_neg age, Int.neg_tdiv, Int.tdiv_eq_ediv_of_nonneg (by omega), Int.neg_neg]

/-- What is at most `d` seconds more is at most `d` whole seconds more. -/
theorem wholeSeconds_le_add {a b : ℤ} {d : ℕ} (h : a ≤ b + d * 1000000000) : wholeSeconds a ≤ wholeSeconds b + d := by
  have ha := wholeSeconds_cases a
  have hb := wholeSeconds_cases b
  omega

/-- A lineage that passes the check is at most the cap old, in whole seconds. -/
theorem wholeSeconds_le_of_withinLifetime {env : Env} {now bornAt : ℤ} (h : env.withinLifetime now bornAt = true) :
    wholeSeconds (now - bornAt) ≤ env.config.absoluteLifetimeSecs := by
  unfold Env.withinLifetime at h
  simp only [Bool.not_eq_true', Bool.and_eq_false_iff, decide_eq_false_iff_not] at h
  have hage := wholeSeconds_cases (now - bornAt)
  omega

namespace Deployment

variable {D : Deployment} {cfg : Snapshot} {l₁ l₂ : List Event} {e : Event} {b : Birth}

namespace Reaches

variable (h : D.Reaches cfg)
include h

/-- A session that was not stored by a login carries on the record of one that was stored before. -/
theorem carries_on (hl : cfg.log = l₁ ++ e :: l₂) (hb : Bears e b) (hne : ∀ s, e.op ≠ .session (.createSession s)) :
    ∃ b' r', Names D.env b' r' ∧ CarriesOn D.env (localTrace e.tid l₁) b'.record b := by
  obtain ⟨hs⟩ := hb
  cases hs with
  | created s => exact absurd rfl (hne s)
  | rotated a old =>
    obtain ⟨-, p, hp, b', hb', -, rfl⟩ := h.rotated_live hl
    obtain ⟨r', hr'⟩ := h.names (hl ▸ mem_append_left _ hp) hb'
    exact ⟨b', r', hr', h.rotated_continues hl⟩
  | recovered s =>
    obtain ⟨pre', a, json, hg, hcont⟩ := h.recovered_continues hl
    obtain ⟨m₁, m₂, rfl⟩ := append_of_mem hg
    rw [append_assoc, cons_append] at hl
    obtain ⟨tid', pre'', a', old, hrot, -, rfl, -⟩ := h.grace_after_rotated hl
    obtain ⟨r', hr'⟩ := h.names (hl ▸ mem_append_left _ hrot) .rotated
    exact ⟨a'.birth, r', hr', hcont⟩

/-- Whichever arm stored a session, its handler had read the clock before, and found the lineage inside
the cap. -/
theorem cap_checked (hl : cfg.log = l₁ ++ e :: l₂) (hb : Bears e b)
    (hne : ∀ s, e.op ≠ .session (.createSession s)) (hcap : D.env.config.absoluteLifetimeSecs ≠ 0)
    {r : SessionRecord} (hr : Names D.env b r) {bornAt : ℤ} (hborn : r.familyCreatedAt = some bornAt) :
    ∃ pre t, ⟨e.tid, pre, .host .nowOffset, t⟩ ∈ l₁ ∧
      wholeSeconds (t - bornAt) ≤ D.env.config.absoluteLifetimeSecs := by
  obtain ⟨b', r', hr', hcont⟩ := h.carries_on hl hb hne
  obtain ⟨r₁, hr₁, hid⟩ := hcont.names hr'
  obtain ⟨seed, r₂, hseed, hcheck, -⟩ := hcont.record
  rw [hr'.ofJson, Option.some.injEq] at hseed
  subst hseed
  rw [hr₁.unique hr] at hid
  have hborn' : r'.familyCreatedAt = some bornAt :=
    (congrArg Identity.familyCreatedAt hid).symm.trans hborn
  rcases hcheck with hzero | hnone | ⟨born, t, ht, hread, hin⟩
  · exact absurd hzero hcap
  · rw [hborn'] at hnone
    cases hnone
  · rw [hborn', Option.some.injEq] at ht
    subst ht
    obtain ⟨pre, hx⟩ := exchange_mem.mp hread
    exact ⟨pre, _, hx, wholeSeconds_le_of_withinLifetime hin⟩

theorem nowOffset_second {tid : ℕ} {pre : Store} {t : ℤ}
    (he : ⟨tid, pre, .host .nowOffset, t⟩ ∈ cfg.log) : (pre.now : ℤ) * 1000000000 ≤ t := by
  obtain ⟨c, d, -, hm, -⟩ := h.at_mem he
  obtain ⟨i, hi⟩ := moment_host hm
  have ht : (pre.now : ℤ) * 1000000000 + (i.nanos % 1000000000 : ℕ) = t := congrArg Prod.fst hi
  omega

/-- A refresh that returns tokens has stored a session under the refresh token's hash. -/
theorem stored_of_tokens {tid : ℕ} {rotated : RotatedTokens} (hp : cfg.pool tid = .ret (.ok (.tokens rotated))) :
    ∃ e ∈ cfg.log, e.tid = tid ∧ (∀ s, e.op ≠ .session (.createSession s)) ∧
      ∃ b, Bears e b ∧ b.hash = D.env.redisHash rotated.refreshToken := by
  have hans := h.answered hp
  cases hf : D.flows tid with
  | refresh rawRefresh ip userAgent =>
    rw [hf] at hans
    obtain ⟨_, r, ⟨⟩, href⟩ := hans
    obtain ⟨-, e, he, htid, hne, b, hb, hbh, -⟩ := h.begets_of_made href.made
    exact ⟨e, he, htid, hne, b, hb, hbh⟩
  | _ =>
    rw [hf] at hans
    simp [Flow.Answered] at hans

end Reaches

end Deployment

/-- A session that rotation or recovery stored after its handler had read the clock and found the lineage inside the
cap, at most the cap after `bornAt`. So it is stored at most the cap, and what the handler took from there, after
`bornAt`. -/
def CheckedInTime (env : Env) (bornAt : ℤ) (before : List Event) (e : Event) : Prop :=
  ∃ pre t, ⟨e.tid, pre, .host .nowOffset, t⟩ ∈ before ∧ wholeSeconds (t - bornAt) ≤ env.config.absoluteLifetimeSecs ∧
    wholeSeconds ((e.pre.now : ℤ) * 1000000000 - bornAt) ≤
      env.config.absoluteLifetimeSecs + (e.pre.now - pre.now : ℕ)

/-- Every record of a lineage has the identity of the record it descends from, a login's or any later
one's, which on the platform plane names no tenant. With a cap, whichever arm stored a session of the
lineage or returned tokens for it, its handler had found the lineage inside the cap; and a refresh returns tokens only
for a session it stored. -/
theorem lineage_kept {D : Deployment} {cfg : Snapshot} (h : D.Reaches cfg) {login : String}
    {r : SessionRecord} (hr : Stored D.env cfg.log login r) :
    (∀ hash, Descends cfg.log login hash → ∃ r', Stored D.env cfg.log hash r' ∧ r'.identity = r.identity) ∧
    (D.env.kind = .platform → r.tenantId = none) ∧
    (D.env.config.absoluteLifetimeSecs ≠ 0 → ∃ bornAt, r.familyCreatedAt = some bornAt ∧
      (∀ l₁ e l₂ b, cfg.log = l₁ ++ e :: l₂ → Bears e b → (∀ s, e.op ≠ .session (.createSession s)) →
        Descends cfg.log login b.hash → CheckedInTime D.env bornAt l₁ e) ∧
      ∀ tid rotated, cfg.pool tid = .ret (.ok (.tokens rotated)) →
        Descends cfg.log login (D.env.redisHash rotated.refreshToken) →
        ∃ l₁ e l₂, cfg.log = l₁ ++ e :: l₂ ∧ e.tid = tid ∧ CheckedInTime D.env bornAt l₁ e) ∧
    (∀ tid rotated, cfg.pool tid = .ret (.ok (.tokens rotated)) →
      ∃ e ∈ cfg.log, e.tid = tid ∧ (∀ s, e.op ≠ .session (.createSession s)) ∧
        ∃ b, Bears e b ∧ b.hash = D.env.redisHash rotated.refreshToken) := by
  obtain ⟨-, -, b₀, -, -, hn₀⟩ := id hr
  refine ⟨fun hash hd => h.descends_identity hr hd, hn₀.tenant, fun hcap => ?_, fun _ _ => h.stored_of_tokens⟩
  obtain ⟨bornAt, hborn⟩ := Option.isSome_iff_exists.mp hn₀.born
  have hchecked : ∀ l₁ e l₂ b, cfg.log = l₁ ++ e :: l₂ → Bears e b → (∀ s, e.op ≠ .session (.createSession s)) →
      Descends cfg.log login b.hash → CheckedInTime D.env bornAt l₁ e := by
    intro l₁ e l₂ b hl hb hne hd
    have he : e ∈ cfg.log := hl ▸ mem_append_right _ mem_cons_self
    obtain ⟨r', hr', hid⟩ := h.descends_identity hr hd
    obtain ⟨r'', hn''⟩ := h.names he hb
    rw [← h.stored_unique ⟨e, he, b, hb, rfl, hn''⟩ hr'] at hid
    have hborn'' : r''.familyCreatedAt = some bornAt :=
      (congrArg Identity.familyCreatedAt hid).trans hborn
    obtain ⟨pre, t, hread, hle⟩ := h.cap_checked hl hb hne hcap hn'' hborn''
    have hsecond := h.nowOffset_second (hl ▸ mem_append_left _ hread)
    have hlate : wholeSeconds ((e.pre.now : ℤ) * 1000000000 - bornAt) ≤
        wholeSeconds (t - bornAt) + (e.pre.now - pre.now : ℕ) := wholeSeconds_le_add (by omega)
    exact ⟨pre, t, hread, hle, by omega⟩
  refine ⟨bornAt, hborn, hchecked, fun tid rotated hp hd => ?_⟩
  obtain ⟨e, he, htid, hne, b, hb, hbh⟩ := h.stored_of_tokens hp
  obtain ⟨l₁, l₂, hl⟩ := append_of_mem he
  exact ⟨l₁, e, l₂, hl, htid, hchecked l₁ e l₂ b hl hb hne (hbh ▸ hd)⟩

/-- The small deployment with a cap of five seconds. -/
def Demo.capped (flows : List Flow) : Deployment :=
  { Demo.deployment flows with
    env := { Demo.env with config := { Demo.config with absoluteLifetimeSecs := 5 } } }

open Demo

/-- A login and a rotation inside the cap. -/
theorem lineage_kept_rotated : ∃ cfg r, (capped [.issue alice "" "" false, .refresh (token 'a') "" ""]).Reaches cfg ∧
    LoggedIn cfg.log (token 'a') ∧ Live cfg.st (token 'b') ∧
    Stored (capped []).env cfg.log (token 'a') r ∧
    (∃ r', Stored (capped []).env cfg.log (token 'b') r' ∧ r'.identity = r.identity) ∧
    ∃ bornAt, r.familyCreatedAt = some bornAt ∧ ∃ l₁ e l₂, cfg.log = l₁ ++ e :: l₂ ∧
      rotates (token 'a') e = true ∧ CheckedInTime (capped []).env bornAt l₁ e := by
  obtain ⟨cfg, h, hlogin, hbegets, hlive, e, he, hrot, hstores⟩ := reaches_of_run
    (capped [.issue alice "" "" false, .refresh (token 'a') "" ""])
    (firstIssue ++ acts 1 6 (token 'b') [])
    (fun cfg => LoggedIn cfg.log (token 'a') ∧ Begets cfg.log (token 'a') (token 'b') ∧
      has cfg.st.keys.rt cfg.st.now (token 'b') ∧
      ∃ e ∈ cfg.log, rotates (token 'a') e ∧ Exchange.stores e.ev = some (token 'b'))
    (by decide +kernel)
  obtain ⟨tid, pre, s, u, hmem, hs⟩ := id hlogin
  obtain ⟨r, hr⟩ := h.names hmem .created
  have hstored : Stored (capped []).env cfg.log (token 'a') r := ⟨_, hmem, _, .created, hs, hr⟩
  obtain ⟨hid, -, hcap, -⟩ := lineage_kept h hstored
  obtain ⟨bornAt, hborn, htime, -⟩ := hcap (by decide)
  obtain ⟨l₁, l₂, hl⟩ := append_of_mem he
  obtain ⟨b, hb, hbh⟩ := bears_of_stores hstores
  refine ⟨cfg, r, h, hlogin, hlive, hstored, hid _ (.single hbegets), bornAt, hborn, l₁, e, l₂, hl, hrot, ?_⟩
  refine htime l₁ e l₂ b hl hb ?_ (hbh ▸ .single hbegets)
  obtain ⟨tid', pre', a, old, rfl, -⟩ := rotates_iff.mp hrot
  exact nofun

/-- When the family was born whose first session a login stored. -/
def Demo.birthOf (e : Event) : Option ℤ :=
  match e.op with
  | .session (.createSession s) => (SessionRecord.ofJson env.codec s.record).bind (·.familyCreatedAt)
  | _ => none

/-- The rotation script runs ten seconds after the cap of five seconds was checked: it stores the session, and the
tokens are returned. -/
theorem lineage_stored_late : ∃ cfg r rotated bornAt,
    (capped [.issue alice "" "" false, .refresh (token 'a') "" ""]).Reaches cfg ∧
    LoggedIn cfg.log (token 'a') ∧ Stored (capped []).env cfg.log (token 'a') r ∧ r.familyCreatedAt = some bornAt ∧
    cfg.pool 1 = .ret (.ok (.tokens rotated)) ∧ ∃ e ∈ cfg.log, rotates (token 'a') e = true ∧
      (capped []).env.config.absoluteLifetimeSecs < wholeSeconds ((e.pre.now : ℤ) * 1000000000 - bornAt) := by
  obtain ⟨cfg, h, hlogin, hbirths, hlate, rotated, hp, -⟩ := reaches_of_run
    (capped [.issue alice "" "" false, .refresh (token 'a') "" ""])
    (firstIssue ++ acts 1 5 (token 'b') [] ++ waits 10 ++ acts 1 9 "" ["", "", "", "", "j1"])
    (fun cfg => LoggedIn cfg.log (token 'a') ∧ (∀ e ∈ cfg.log, (birthOf e).all (· = 0)) ∧
      (∃ e ∈ cfg.log, rotates (token 'a') e ∧ (5 : ℤ) < wholeSeconds ((e.pre.now : ℤ) * 1000000000 - 0)) ∧
      ∃ r ∈ tokensOf cfg 1, True)
    (by decide +kernel)
  obtain ⟨tid, pre, s, u, hmem, hs⟩ := id hlogin
  obtain ⟨r, hr⟩ := h.names hmem .created
  have hborn : r.familyCreatedAt = some 0 := by
    obtain ⟨bornAt, hborn⟩ := Option.isSome_iff_exists.mp hr.born
    have hbirth := hbirths _ hmem
    have hread : SessionRecord.ofJson env.codec s.record = some r := hr.ofJson
    simp only [birthOf, hread, Option.bind_some, hborn, Option.all_some, decide_eq_true_eq] at hbirth
    rw [hborn, hbirth]
  exact ⟨cfg, r, rotated, 0, h, hlogin, ⟨_, hmem, _, .created, hs, hr⟩, hborn, pool_of_tokensOf hp, hlate⟩

/-- Every stored session descends from exactly one login, and has the identity that login stored. -/
theorem one_login {D : Deployment} {cfg : Snapshot} (h : D.Reaches cfg) {hash : String} {r : SessionRecord}
    (hr : Stored D.env cfg.log hash r) :
    ∃! login, LoggedIn cfg.log login ∧ Descends cfg.log login hash ∧
      ∃ r₀, Stored D.env cfg.log login r₀ ∧ r.identity = r₀.identity := by
  obtain ⟨e, he, b, hb, rfl, -⟩ := id hr
  obtain ⟨login, hlogin, hd⟩ := h.root he hb
  refine ⟨login, ⟨hlogin, hd, ?_⟩, ?_⟩
  · obtain ⟨tid, pre, s, u, hmem, hs⟩ := hlogin
    obtain ⟨r₀, hr₀⟩ := h.names hmem .created
    have hstored : Stored D.env cfg.log login r₀ := ⟨_, hmem, _, .created, hs, hr₀⟩
    obtain ⟨r', hr', hid⟩ := h.descends_identity hstored hd
    exact ⟨r₀, hstored, h.stored_unique hr' hr ▸ hid⟩
  -- Going back, every session has one parent, so of two ancestors one is the other's; and a login's session has none.
  · rintro other ⟨hother, hd', -⟩
    have hroot : ∀ p q, LoggedIn cfg.log q → Descends cfg.log p q → p = q := by
      rintro p q ⟨tid, pre, s, u, hmem, hs⟩ hpq
      rcases hpq.cases_tail with rfl | ⟨m, -, hm⟩
      · rfl
      · exact absurd hs.symm (h.not_begotten hmem hm)
    have hparent : Relator.RightUnique (Function.swap (Begets cfg.log)) := fun _ _ _ hp hq => h.begets_unique hp hq rfl
    rcases Relation.ReflTransGen.total_of_right_unique hparent (Relation.reflTransGen_swap.mpr hd)
      (Relation.reflTransGen_swap.mpr hd') with hpq | hqp
    · exact hroot _ _ hlogin (Relation.reflTransGen_swap.mp hpq)
    · exact (hroot _ _ hother (Relation.reflTransGen_swap.mp hqp)).symm

/-- The session that a rotation stored, and its one login. -/
theorem one_login_rotated : ∃ cfg r, (capped [.issue alice "" "" false, .refresh (token 'a') "" ""]).Reaches cfg ∧
    Begets cfg.log (token 'a') (token 'b') ∧ Stored (capped []).env cfg.log (token 'b') r ∧
    ∃! login, LoggedIn cfg.log login ∧ Descends cfg.log login (token 'b') ∧
      ∃ r₀, Stored (capped []).env cfg.log login r₀ ∧ r.identity = r₀.identity := by
  obtain ⟨cfg, h, hbegets⟩ := reaches_of_run (capped [.issue alice "" "" false, .refresh (token 'a') "" ""])
    (firstIssue ++ acts 1 6 (token 'b') []) (fun cfg => Begets cfg.log (token 'a') (token 'b')) (by decide +kernel)
  obtain ⟨-, r, -, hr, -⟩ := h.begets_identity hbegets
  exact ⟨cfg, r, h, hbegets, hr, one_login h hr⟩

end BymaxAuth
