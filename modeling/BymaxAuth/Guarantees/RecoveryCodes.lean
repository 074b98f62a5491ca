import BymaxAuth.Guarantees.Challenge
import BymaxAuth.Guarantees.Management
import BymaxAuth.History.Codes

/-!
# A recovery code is worth one session

A challenge with a recovery code finds the code's digest in the account it reads, claims the code for five minutes, and
takes the digest out of the record in a transition before it issues a session. Two challenges with one code compete for
the claim; two with different codes take their digests out one after the other, each from the record as it is under the
lock.

The claim lapses. A challenge that read the account before another one took the digest out, and claims the code after
that one's claim has lapsed, is issued a second session. And an enrolment that takes another pending record than the one
it read writes a record that was written before, with digests that were replaced or spent since.

## The model

`redeems` says that a handler is a challenge that found this digest. `WithinClaim` says that no challenge outlives its
claim, `ReadSinceLapse` that no claim of a code lapses between a challenge's read of the account and its own claim.
-/

namespace BymaxAuth

open Redis Concurrency List Option Bool

/-- The code a challenge presents. -/
def challengeCode : Flow → Option String
  | .mfa (.challenge _ _ code _ _) => some code
  | _ => none

theorem flow_of_challengeCode {flow : Flow} {code : String} (h : challengeCode flow = some code) :
    ∃ expected token ip userAgent, flow = .mfa (.challenge expected token code ip userAgent) := by
  unfold challengeCode at h
  split at h
  · cases h
    exact ⟨_, _, _, _, rfl⟩
  · cases h

/-- Whether a handler is a challenge of this account with a recovery code, whose digest it found in the account it
read. -/
def redeems (D : Deployment) (log : List Event) (id : String) (tenantId : Option String) (digest : String) (tid : ℕ) :
    Bool :=
  (challengeCode (D.flows tid)).any fun code => !isTotpCode code && (firstRead (localTrace tid log)).any fun user =>
    decide (user.id = id) && decide (D.env.tenantOf user = tenantId) &&
      (verifyRecoveryCode (user.mfaRecoveryCodes.getD []) (D.env.recoveryCodeCandidates code)).any fun index =>
        decide ((user.mfaRecoveryCodes.getD [])[index]? = some digest)

/-- The account a challenge read, with the digest it found. -/
structure Redeems (D : Deployment) (log : List Event) (id : String) (tenantId : Option String) (digest : String) (tid : ℕ)
    (code : String) (user : AuthUser) (index : ℕ) : Prop where
  /-- The code. -/
  call : challengeCode (D.flows tid) = some code
  /-- It is a recovery code. -/
  recovery : isTotpCode code = false
  /-- The account that was read. -/
  read : firstRead (localTrace tid log) = some user
  account : user.id = id
  /-- It is one of this tenant. -/
  tenant : D.env.tenantOf user = tenantId
  /-- Where the digest stands. -/
  found : verifyRecoveryCode (user.mfaRecoveryCodes.getD []) (D.env.recoveryCodeCandidates code) = some index
  digest : (user.mfaRecoveryCodes.getD [])[index]? = some digest

variable {log : List Event} {digest : String} {D : Deployment} {rawSecret storedSecret : String}

theorem redeems_iff {id : String} {tenantId : Option String} {tid : ℕ} : redeems D log id tenantId digest tid = true ↔
      ∃ code user index, Redeems D log id tenantId digest tid code user index := by
  simp only [redeems, Option.any_eq_true, and_eq_true, not_eq_true', decide_eq_true_eq]
  constructor
  · rintro ⟨code, hcall, hrecovery, user, hread, ⟨haccount, htenant⟩, index, hfound, hdigest⟩
    exact ⟨code, user, index, hcall, hrecovery, hread, haccount, htenant, hfound, hdigest⟩
  · rintro ⟨code, user, index, hcall, hrecovery, hread, haccount, htenant, hfound, hdigest⟩
    exact ⟨code, hcall, hrecovery, user, hread, ⟨haccount, htenant⟩, index, hfound, hdigest⟩

theorem Redeems.candidate {id : String} {tenantId : Option String} {tid : ℕ} {code : String} {user : AuthUser}
    {index : ℕ} (h : Redeems D log id tenantId digest tid code user index) :
    digest ∈ D.env.recoveryCodeCandidates code := by
  obtain ⟨hlt, hmem, -⟩ := List.findIdx?_eq_some_iff_getElem.mp h.found
  have hdigest := h.digest
  rw [List.getElem?_eq_getElem hlt, Option.some.injEq] at hdigest
  rw [← hdigest]
  simpa using hmem

/-- Whether a record is on. -/
def isOn (record : Option MfaRecord) : Bool := record.any (·.mfaEnabled)

/-- The claims of recovery codes. -/
def recoveryClaims : Lease Store Op.Reply String Unit where
  keys st := st.mfaKeys.rcu
  clock st := st.now
  takes ev :=
    match ev with
    | ⟨.mfa (.claimRecoveryCode claimId ttl), true⟩ => some (claimId, (), ttl)
    | _ => none
  frees _ := none

/-- The commands of the engine do nothing else to the claims. -/
theorem recoveryClaims_kept (env : Env) : recoveryClaims.Kept (machine env) where
  clock := machine_now env
  pass _ _ := rfl
  later _ _ := Nat.le_add_right _ _
  step st tid c i k := by
    cases c with
    | session cmd => exact .kept nofun rfl
    | account cmd | host cmd => cases cmd <;> exact .kept nofun rfl
    | mfa cmd =>
      cases cmd with
      | claimRecoveryCode claimId ttl =>
        refine Lease.Step.of_setNx (k := claimId) (t := ()) rfl ?_
        show recoveryClaims.takes ⟨.mfa (.claimRecoveryCode claimId ttl),
            (setNx st.mfaKeys.rcu st.now claimId () ttl).1⟩ =
          if (setNx st.mfaKeys.rcu st.now claimId () ttl).1 then some (claimId, (), ttl) else none
        cases (setNx st.mfaKeys.rcu st.now claimId () ttl).1 <;> rfl
      | _ => exact .kept nofun rfl

/-- An entry claimed a recovery code. -/
def Claims (claimId : String) (ttl : ℕ) (e : Event) : Prop := e.ev = ⟨.mfa (.claimRecoveryCode claimId ttl), true⟩

/-- No challenge outlives its claim. -/
def WithinClaim (log : List Event) : Prop :=
  ∀ l₁ c l₂ claimId ttl, log = l₁ ++ c :: l₂ → Claims claimId ttl c →
    ∀ e ∈ l₂, e.tid = c.tid → e.pre.now < c.pre.now + ttl

/-- No claim of a code lapses between a challenge's read of the account and its own claim. -/
def ReadSinceLapse (log : List Event) : Prop :=
  ∀ l₁ c l₂ c' l₃ claimId ttl ttl', log = l₁ ++ c :: (l₂ ++ c' :: l₃) → Claims claimId ttl c → Claims claimId ttl' c' →
    c.pre.now + ttl ≤ c'.pre.now → ∀ r ∈ l₁ ++ c :: l₂, r.tid = c'.tid →
      (∃ id tenantId, r.op = .host (.findById id tenantId)) → c.pre.now + ttl ≤ r.pre.now

/-- Codes that are presented and have a digest in common are one. -/
def CodesApart (D : Deployment) : Prop :=
  ∀ tid tid' code code', challengeCode (D.flows tid) = some code → challengeCode (D.flows tid') = some code' →
    ∀ digest ∈ D.env.recoveryCodeCandidates code, digest ∈ D.env.recoveryCodeCandidates code' → code = code'

/-- A digest that was spent is not in what the splice leaves. -/
theorem not_mem_spliced {env : Env} {current : AuthUser} {data : MfaRecord}
    (hnodup : (digestsOf (some current.mfaRecord)).Nodup)
    (h : env.spliced rawSecret storedSecret (some digest) current = some data) : digest ∉ digestsOf (some data) := by
  unfold Env.spliced at h
  split_ifs at h
  obtain ⟨live, hlive, rfl⟩ := map_eq_some_iff.mp h
  have hidx : (digestsOf (some current.mfaRecord)).idxOf? digest = some live := hlive
  have herase := erase_eq_eraseIdx (digestsOf (some current.mfaRecord)) digest
  rw [hidx] at herase
  have hgone := hnodup.not_mem_erase (a := digest)
  rw [herase] at hgone
  exact hgone

/-- What the splice leaves as it is has no such digest, or another secret. -/
theorem not_mem_of_not_spliced {env : Env} {current : AuthUser}
    (h : env.spliced rawSecret storedSecret (some digest) current = none) :
    digest ∉ digestsOf (some current.mfaRecord) ∨ env.factor (some current.mfaRecord) ≠ some rawSecret := by
  unfold Env.spliced at h
  split_ifs at h with hholds
  · refine .inr fun hfactor => ?_
    rw [Env.holdsChallengedSecret] at hholds
    change (if current.mfaEnabled then current.mfaSecret.bind env.mfa.decryptSecret else none) = _ at hfactor
    split_ifs at hfactor with hon
    rw [hon, hfactor] at hholds
    simp at hholds
  · rw [map_eq_none_iff] at h
    refine .inl fun hmem => ?_
    have hnone := List.findIdx?_eq_none_iff.mp h digest hmem
    simp at hnone

namespace Deployment

variable {cfg : Snapshot} {l₁ l₂ : List Event} {id : String} {tenantId : Option String} {tid : ℕ}

/-- A challenge that has read the account with a digest, claimed the code, and left a record without the digest. -/
structure Redeemed (D : Deployment) (cfg : Snapshot) (id : String) (tenantId : Option String) (digest code : String)
    (tid : ℕ) : Prop where
  /-- The read, the claim, and the last entry of the transition that counts. -/
  entries : ∃ k₁ r k₂ c k₃ x k₄, cfg.log = k₁ ++ r :: (k₂ ++ c :: (k₃ ++ x :: k₄)) ∧
    r.tid = tid ∧ c.tid = tid ∧ x.tid = tid ∧ r.op = .host (.findById id tenantId) ∧
    Claims (D.env.replayId tenantId id code) recoveryCodeClaimTtlSeconds c ∧
    digest ∈ digestsOf (r.pre.record id tenantId) ∧ digest ∉ digestsOf (recordAfter id tenantId x)

variable {code : String} {user : AuthUser} {index : ℕ}

/-- The exchanges of a challenge with a recovery code that has passed: the account was read, the code claimed, and the
record read again and written if there was something to take out. -/
theorem Redeems.exchanges {user' : AuthUser} {token : MfaTempClaims} {tr : Trace}
    (hr : Redeems D log id tenantId digest tid code user index) (hpre : tr <+: localTrace tid log)
    (hp : Passed D.env token code user' tr) :
    ∃ tr₀ sub mid rawSecret storedSecret current rest, localTrace tid log =
        tr₀ ++ ⟨.host (.findById sub tenantId), some user⟩ ::
          (⟨.mfa (.claimRecoveryCode (D.env.replayId tenantId id code) recoveryCodeClaimTtlSeconds), true⟩ ::
            (mid ++ ⟨.host (.findById id tenantId), some current⟩ ::
              (written id tenantId (D.env.spliced rawSecret storedSecret (some digest) current) ++ rest))) ∧
      D.env.factor (some user.mfaRecord) = some rawSecret := by
  obtain ⟨tr₁, rawSecret, index', l, u, tr₂, hopened, haccepted, htr, htrans⟩ := hp.passed
  obtain ⟨tr₀, rfl, hfirst⟩ := hopened.read
  obtain rfl : user' = user := by
    have hread : firstRead tr = some user' := by
      rw [htr]
      simp only [append_assoc]
      rw [firstRead_append, hfirst]
      rfl
    exact Option.some.inj ((firstRead_of_pre hread hpre).symm.trans hr.read)
  obtain ⟨rest, hrest⟩ := hpre
  cases haccepted with
  | totp htotp _ => cases htotp.symm.trans hr.recovery
  | @recovery i _ hfound =>
    obtain rfl : i = index := Option.some.inj (hfound.symm.trans hr.found)
    obtain ⟨l', storedSecret, lockToken, current, released, rfl⟩ := htrans i rfl
    have htenant : token.tenantId = tenantId := hopened.tenant.symm.trans hr.tenant
    refine ⟨tr₀, token.sub, ⟨.mfa (.delTemp (D.env.jtiHash token.jti)), true⟩ ::
      ⟨.account (.delLf (D.env.challengeBfId token.tenantId token.sub)), u⟩ ::
        (l' ++ [⟨.host .generateLockToken, lockToken⟩, ⟨.mfa (.acquireLock (D.env.mfaLockId tenantId id) lockToken
          mfaTransitionLockTtlSeconds), true⟩]), rawSecret, storedSecret, current,
      ⟨.mfa (.releaseLock (D.env.mfaLockId tenantId id) lockToken), released⟩ :: rest, ?_, ?_⟩
    · rw [← hrest, htr, hr.digest, hr.account, hr.tenant, ← htenant]
      simp [transitionTrace, lockedRead]
    · show (if user'.mfaEnabled then user'.mfaSecret.bind D.env.mfa.decryptSecret else none) = _
      rw [hopened.enabled, if_pos rfl, hopened.secret]

/-- A challenge with a recovery code that has passed has claimed the code and left a record without the digest. -/
theorem Reaches.redeemed (h : D.Reaches cfg) (ho : Orderly D cfg id tenantId) {user' : AuthUser}
    {token : MfaTempClaims} {tr : Trace} (hr : Redeems D cfg.log id tenantId digest tid code user index)
    (hpre : tr <+: localTrace tid cfg.log) (hp : Passed D.env token code user' tr) :
    Redeemed D cfg id tenantId digest code tid := by
  obtain ⟨tr₀, sub, mid, rawSecret, storedSecret, current, rest, htr, hfactor⟩ := Redeems.exchanges hr hpre hp
  obtain ⟨k₁, ⟨tidr, prer, op, res⟩, n, hlog, hrt, hev, -, hn⟩ := localTrace_split htr
  cases hev
  obtain rfl : tid = tidr := hrt.symm
  obtain ⟨k₂, c, n', rfl, hct, hc, -, hn'⟩ := localTrace_split (show localTrace tid n = [] ++ _ :: _ from hn)
  obtain ⟨k₃, ⟨tidf, pref, op, res⟩, n'', rfl, hft, hev, -, hn''⟩ := localTrace_split hn'
  cases hev
  obtain rfl : tid = tidf := hft.symm
  obtain rfl : sub = id := by
    have hfound : _ = some user := h.found_of_read hlog
    have hnames := List.find?_some hfound
    simp only [decide_eq_true_eq] at hnames
    exact hnames.1.symm.trans hr.account
  have hread : prer.record sub tenantId = some user.mfaRecord := h.record_of_read hlog
  have hd : digest ∈ digestsOf (prer.record sub tenantId) := by
    rw [hread]
    exact mem_of_getElem? hr.digest
  -- The read under the lock.
  have hlogf : cfg.log = (k₁ ++ ⟨tid, prer, .host (.findById sub tenantId), some user⟩ :: (k₂ ++ c :: k₃)) ++
      ⟨tid, pref, .host (.findById sub tenantId), some current⟩ :: n'' := by
    rw [hlog]
    simp
  have hcurrent : pref.record sub tenantId = some current.mfaRecord := h.record_of_read hlogf
  cases hspliced : D.env.spliced rawSecret storedSecret (some digest) current with
  | none =>
    refine ⟨k₁, _, k₂, c, k₃, _, n'', hlog, rfl, hct, rfl, rfl, hc, hd, fun hin => ?_⟩
    rw [recordAfter_of_not_write rfl] at hin
    have hcut : cfg.log = k₁ ++ ⟨tid, prer, .host (.findById sub tenantId), some user⟩ :: ((k₂ ++ c :: k₃) ++
        ⟨tid, pref, .host (.findById sub tenantId), some current⟩ :: n'') := by
      rw [hlog]
      simp
    have hsame := h.factor_with_code ho hcut rfl hd hin
    rcases not_mem_of_not_spliced hspliced with hno | hno
    · rw [← hcurrent] at hno
      exact hno hin
    · rw [← hcurrent] at hno
      exact hno (hsame.trans (by rw [← hfactor, ← hread]))
  | some data =>
    rw [hspliced] at hn''
    obtain ⟨k₄, ⟨tidw, prew, op, res⟩, n₃, rfl, hwt, hev, -, -⟩ :=
      localTrace_split (show localTrace tid n'' = [] ++ _ :: rest from hn'')
    cases hev
    obtain rfl : tid = tidw := hwt.symm
    refine ⟨k₁, ⟨tid, prer, .host (.findById sub tenantId), some user⟩, k₂, c,
      k₃ ++ ⟨tid, pref, .host (.findById sub tenantId), some current⟩ :: k₄,
      ⟨tid, prew, .host (.updateMfa sub tenantId data), res⟩, n₃, ?_, rfl, hct, rfl, rfl, hc, hd, ?_⟩
    · rw [hlog]
      simp
    · rw [recordAfter_of_write]
      have hnodup := h.codes_nodup ho hlogf
      change (digestsOf (pref.record sub tenantId)).Nodup at hnodup
      rw [hcurrent] at hnodup
      have hgone := not_mem_spliced hnodup hspliced
      cases prew.record sub tenantId with
      | none => exact not_mem_nil
      | some _ => exact hgone

variable {ttl : ℕ}

namespace Reaches

variable (h : D.Reaches cfg)
include h

/-- A code is claimed again only once its claim has lapsed. -/
theorem claimed_again {l₃ : List Event} {c c' : Event} {claimId : String} {ttl' : ℕ}
    (hl : cfg.log = l₁ ++ c :: (l₂ ++ c' :: l₃)) (hc : Claims claimId ttl c) (hc' : Claims claimId ttl' c') :
    c.pre.now + ttl ≤ c'.pre.now := by
  have hcut : cfg.log = l₁ ++ c :: l₂ ++ c' :: l₃ := by
    rw [hl]
    simp
  have htakes : recoveryClaims.takes c.ev = some (claimId, (), ttl) := by
    rw [hc]
    rfl
  have htakes' : recoveryClaims.takes c'.ev = some (claimId, (), ttl') := by
    rw [hc']
    rfl
  exact Lease.excluded (recoveryClaims_kept D.env) h hcut htakes htakes' fun _ _ => nofun

section

variable (ho : Orderly D cfg id tenantId)
include ho

/-- Whoever claims a code second does not find its digest. -/
theorem not_redeemed_second
    (hclaim : WithinClaim cfg.log) (hlapse : ReadSinceLapse cfg.log) {claimId : String} {ttl' : ℕ}
    {k₁ k₂ k₃ k₄ m j₁ j₂ j₃ : List Event} {r c x r' c' : Event}
    (hlog : cfg.log = k₁ ++ r :: (k₂ ++ c :: (k₃ ++ x :: k₄))) (hlog' : cfg.log = j₁ ++ r' :: (j₂ ++ c' :: j₃))
    (hm : j₁ ++ r' :: j₂ = k₁ ++ r :: k₂ ++ c :: m) (hc : Claims claimId ttl c) (hc' : Claims claimId ttl' c')
    (hxt : x.tid = c.tid) (hrt' : r'.tid = c'.tid) (hne : c.tid ≠ c'.tid)
    (hrop : r'.op = .host (.findById id tenantId)) (hd : digest ∈ digestsOf (r.pre.record id tenantId))
    (hgone : digest ∉ digestsOf (recordAfter id tenantId x)) : digest ∉ digestsOf (r'.pre.record id tenantId) := by
  have hclaims : cfg.log = (k₁ ++ r :: k₂) ++ c :: (m ++ c' :: j₃) := by
    calc cfg.log = (j₁ ++ r' :: j₂) ++ c' :: j₃ := by rw [hlog']; simp
      _ = (k₁ ++ r :: k₂ ++ c :: m) ++ c' :: j₃ := by rw [hm]
      _ = (k₁ ++ r :: k₂) ++ c :: (m ++ c' :: j₃) := by simp
  -- The second challenge reads once the first one's claim has lapsed, and the first one is done by then.
  have hread : c.pre.now + ttl ≤ r'.pre.now := by
    refine hlapse _ c m c' j₃ claimId ttl ttl' hclaims hc hc' (h.claimed_again hclaims hc hc') r' ?_ hrt' ⟨_, _, hrop⟩
    rw [← hm]
    simp
  have hdone : x.pre.now < c.pre.now + ttl := by
    refine hclaim (k₁ ++ r :: k₂) c (k₃ ++ x :: k₄) claimId ttl ?_ hc x (by simp) hxt
    rw [hlog]
    simp
  have hx : cfg.log = (k₁ ++ r :: (k₂ ++ c :: k₃)) ++ x :: k₄ := by
    rw [hlog]
    simp
  rcases cut_cases (hx.symm.trans hlog') with ⟨-, rfl, -⟩ | ⟨n, -, hn⟩ | ⟨n, hn, -⟩
  · exact absurd (hxt.symm.trans hrt') hne
  · exact (h.gone_for_good ho hlog hd hx (prefix_append _ _) hgone).1 r' (by rw [hn]; simp)
  · have hle : r'.pre.now ≤ x.pre.now := h.now_le (by rw [hn]; simp) hx
    omega

theorem redeemed_once (hclaim : WithinClaim cfg.log) (hlapse : ReadSinceLapse cfg.log) {tid' : ℕ} (hne : tid ≠ tid')
    (hr : Redeemed D cfg id tenantId digest code tid) : ¬ Redeemed D cfg id tenantId digest code tid' := by
  rintro ⟨j₁, r', j₂, c', j₃, x', j₄, hlog', hrt', hct', hxt', hrop', hc', hd', hgone'⟩
  obtain ⟨k₁, r, k₂, c, k₃, x, k₄, hlog, hrt, hct, hxt, hrop, hc, hd, hgone⟩ := hr
  have hcut : (k₁ ++ r :: k₂) ++ c :: (k₃ ++ x :: k₄) = (j₁ ++ r' :: j₂) ++ c' :: (j₃ ++ x' :: j₄) := by
    rw [append_assoc, cons_append, ← hlog, hlog']
    simp
  have hcc : c.tid ≠ c'.tid := fun heq => hne (hct.symm.trans (heq.trans hct'))
  rcases cut_cases hcut with ⟨-, rfl, -⟩ | ⟨m, hm, -⟩ | ⟨m, hm, -⟩
  · exact hcc rfl
  · exact h.not_redeemed_second ho hclaim hlapse hlog hlog' hm hc hc' (hxt.trans hct.symm) (hrt'.trans hct'.symm) hcc
      hrop' hd hgone hd'
  · exact h.not_redeemed_second ho hclaim hlapse hlog' hlog hm hc' hc (hxt'.trans hct'.symm) (hrt.trans hct.symm)
      hcc.symm hrop hd' hgone' hd

theorem redeemed_of_answered
    (hr : Redeems D cfg.log id tenantId digest tid code user index) {a : Answer} (hp : cfg.pool tid = .ret (.ok a)) :
    Redeemed D cfg id tenantId digest code tid := by
  obtain ⟨expected, token, ip, userAgent, hf⟩ := flow_of_challengeCode hr.call
  have hans := h.answered hp
  rw [hf] at hans
  obtain ⟨_, -, result, tr₁, -, hpre, hpassed, -⟩ := hans
  exact h.redeemed ho hr hpre hpassed

theorem redeemed_of_created {s : Event}
    (hr : Redeems D cfg.log id tenantId digest s.tid code user index) (hl : cfg.log = l₁ ++ s :: l₂)
    (hs : creates s.op = true) :
    Redeemed D cfg id tenantId digest code s.tid ∧ Uncreated (localTrace s.tid l₁) := by
  obtain ⟨expected, token, ip, userAgent, hf⟩ := flow_of_challengeCode hr.call
  obtain ⟨⟨tr₁, user', hpre, hpassed⟩, hun⟩ := h.passed_of_created hl hs hf
  refine ⟨h.redeemed ho hr (hpre.trans ?_) hpassed, hun⟩
  rw [hl, localTrace_append]
  exact prefix_append _ _

/-- A digest admits one session. -/
theorem session_of_code_once (hclaim : WithinClaim cfg.log)
    (hlapse : ReadSinceLapse cfg.log) (hapart : CodesApart D) (digest : String) :
    cfg.log.countP (fun e => creates e.op && redeems D cfg.log id tenantId digest e.tid) ≤ 1 := by
  refine countP_le_one fun l₁ s l₂ hl hs s' hs' => eq_false_iff.mpr fun hcon => ?_
  rw [and_eq_true] at hs hcon
  obtain ⟨code, user, index, hr⟩ := redeems_iff.mp hs.2
  obtain ⟨code', user', index', hr'⟩ := redeems_iff.mp hcon.2
  obtain rfl : code = code' := hapart _ _ _ _ hr.call hr'.call digest hr.candidate hr'.candidate
  obtain ⟨hred, hun⟩ := h.redeemed_of_created ho hr hl hs.1
  obtain ⟨m₁, m₂, hm⟩ := append_of_mem hs'
  have hl' : cfg.log = m₁ ++ s' :: (m₂ ++ s :: l₂) := by
    rw [hl, hm]
    simp
  obtain ⟨hred', -⟩ := h.redeemed_of_created ho hr' hl' hcon.1
  by_cases ht : s'.tid = s.tid
  · have hno := hun s'.ev (mem_localTrace.mpr ⟨s', hs', ht, rfl⟩)
    rw [show creates s'.ev.op = true from hcon.1] at hno
    cases hno
  · exact h.redeemed_once ho hclaim hlapse ht hred' hred

theorem gone_of_redeemed
    (hr : Redeemed D cfg id tenantId digest code tid) : digest ∉ digestsOf (cfg.st.record id tenantId) := by
  obtain ⟨k₁, r, k₂, c, k₃, x, k₄, hlog, -, -, -, -, -, hd, hgone⟩ := hr
  have hx : cfg.log = (k₁ ++ r :: (k₂ ++ c :: k₃)) ++ x :: k₄ := by
    rw [hlog]
    simp
  exact (h.gone_for_good ho hlog hd hx (prefix_append _ _) hgone).2

/-- New codes replace all digests. -/
theorem replaced_of_regenerated {w : Event} {userId : String} {tenant : Option String} (hl : cfg.log = l₁ ++ w :: l₂)
    (hw : writesRecord id tenantId w = true)
    (hf : D.flows w.tid = .mfa (.regenerateRecoveryCodes userId code tenant))
    (hd : digest ∈ digestsOf (w.pre.record id tenantId)) :
    (∀ z ∈ l₂, digest ∉ digestsOf (z.pre.record id tenantId)) ∧ digest ∉ digestsOf (cfg.st.record id tenantId) := by
  refine h.gone_for_good ho hl hd hl (prefix_refl _) fun hafter => ?_
  refine h.not_brought_again ho hl hd hl (prefix_refl _) hw ?_
  obtain ⟨data, hop⟩ := writesRecord_iff.mp hw
  obtain ⟨tid, pre, op, u⟩ := w
  cases hop
  obtain ⟨k₁, prer, view, k₂, rawSecret, tr₁, current, rfl, -, htr₁, -, hmakes, hcurrent⟩ :=
    h.replaces ho.host ho.lock hl hf rfl
  rw [recordAfter_of_write, hcurrent] at hafter
  cases hmakes with
  | regenerate hdraw hdata =>
    rw [map_some, digestsOf_regenerated hdata] at hafter
    obtain ⟨g, hg, ht, hgev⟩ := mem_localTrace.mp (htr₁.subset hdraw)
    have hmem : g ∈ cfg.log := by
      rw [hl]
      exact mem_append_left _ (mem_append_right _ (mem_cons_of_mem _ hg))
    exact .drew ⟨g.ev, mem_localTrace.mpr ⟨g, hmem, ht, rfl⟩, by rw [hgev]; exact hafter⟩

/-- A record that was cleared is on again only once a call has written it that is neither a challenge nor one for new
codes. -/
theorem enrolled_since {l₃ : List Event} {w e : Event}
    (hl : cfg.log = l₁ ++ w :: (l₂ ++ e :: l₃)) (hw : w.op = .host (.updateMfa id tenantId cleared))
    (he : isOn (e.pre.record id tenantId) = true) :
    ∃ x ∈ l₂, writesRecord id tenantId x = true ∧ keepsFactor (D.flows x.tid) = false ∧
      isOn (recordAfter id tenantId x) = true := by
  by_contra hno
  have hoff : isOn (e.pre.record id tenantId) = false := by
    refine ho.host.since (Q := fun record => isOn record = false) hl ?_ ?_
    · obtain ⟨tid, pre, op, u⟩ := w
      cases hw
      rw [recordAfter_of_write]
      cases pre.record id tenantId <;> rfl
    · intro k₁ x k₂ hk hx hbefore
      refine eq_false_iff.mpr fun hafter => hno ⟨x, by rw [hk]; simp, hx, ?_, hafter⟩
      refine eq_false_iff.mpr fun hkeeps => ?_
      have hlx : cfg.log = (l₁ ++ w :: k₁) ++ x :: (k₂ ++ e :: l₃) := by
        rw [hl, hk]
        simp
      obtain ⟨-, r, hr, hon⟩ := h.factor_kept ho.host ho.lock hlx hx hkeeps
      rw [hr] at hbefore
      cases hbefore.symm.trans hon
  cases hoff.symm.trans he

end

theorem release_leaves {pre : Store} {lockId token token' : String} {r : Bool}
    {a : Event} (hl : cfg.log = l₁ ++ ⟨tid, pre, .mfa (.releaseLock lockId token), r⟩ :: l₂) (ha : a ∈ l₁)
    (hop : a.ev = ⟨.mfa (.acquireLock lockId token' ttl), true⟩) (hne : a.tid ≠ tid)
    (hheld : get pre.mfaKeys.lock pre.now lockId = some token') :
    ((MfaCmd.releaseLock lockId token).exec pre).2.mfaKeys.lock = pre.mfaKeys.lock := by
  have htoken : token' ≠ token := by
    rintro rfl
    have hmem : a ∈ cfg.log := hl ▸ mem_append_left _ ha
    exact hne (h.released_own (x := ⟨tid, pre, .mfa (.releaseLock lockId token'), r⟩) hmem (by rw [hl]; simp) hop
      rfl).symm
  show (releaseLock pre.now pre.mfaKeys.lock lockId token).2 = pre.mfaKeys.lock
  rw [releaseLock_of_ne (by rw [hheld]; exact fun heq => htoken (Option.some.inj heq))]

end Reaches

end Deployment

/-- **A recovery code is worth one session.** In every run in which only the library writes the account's record, no
transition outlives its lock, no challenge outlives its claim, no claim of a code lapses between a challenge's read and
its own claim, an enrolment takes the pending record it read, and digests are told apart:

* one session at most is stored by the challenges that found a digest;
* the digest a challenge found is not in the record once the challenge has answered;
* a digest that new codes replaced is not in the record at any time after;
* a challenge that writes the record after it was cleared finds it on because some other call has enrolled a factor since;
* a release leaves a lock that another handler holds. -/
theorem recovery_code_once {D : Deployment} {cfg : Snapshot} (h : D.Reaches cfg) {id : String}
    {tenantId : Option String} (ho : Orderly D cfg id tenantId) (hclaim : WithinClaim cfg.log)
    (hlapse : ReadSinceLapse cfg.log) (hapart : CodesApart D) :
    (∀ digest, cfg.log.countP (fun e => creates e.op && redeems D cfg.log id tenantId digest e.tid) ≤ 1) ∧
    (∀ digest tid a, redeems D cfg.log id tenantId digest tid = true → cfg.pool tid = .ret (.ok a) →
      digest ∉ digestsOf (cfg.st.record id tenantId)) ∧
    (∀ digest l₁ w l₂ userId code tenant, cfg.log = l₁ ++ w :: l₂ → writesRecord id tenantId w = true →
      D.flows w.tid = .mfa (.regenerateRecoveryCodes userId code tenant) →
      digest ∈ digestsOf (w.pre.record id tenantId) →
      (∀ z ∈ l₂, digest ∉ digestsOf (z.pre.record id tenantId)) ∧ digest ∉ digestsOf (cfg.st.record id tenantId)) ∧
    (∀ l₁ w l₂ e l₃, cfg.log = l₁ ++ w :: (l₂ ++ e :: l₃) → w.op = .host (.updateMfa id tenantId cleared) →
      writesRecord id tenantId e = true → (challengeCode (D.flows e.tid)).isSome = true →
      ∃ x ∈ l₂, writesRecord id tenantId x = true ∧ keepsFactor (D.flows x.tid) = false ∧
        isOn (recordAfter id tenantId x) = true) ∧
    (∀ l₁ tid pre lockId token r l₂ a token' ttl,
      cfg.log = l₁ ++ ⟨tid, pre, .mfa (.releaseLock lockId token), r⟩ :: l₂ → a ∈ l₁ →
      a.ev = ⟨.mfa (.acquireLock lockId token' ttl), true⟩ → a.tid ≠ tid →
      get pre.mfaKeys.lock pre.now lockId = some token' →
      ((MfaCmd.releaseLock lockId token).exec pre).2.mfaKeys.lock = pre.mfaKeys.lock) := by
  refine ⟨h.session_of_code_once ho hclaim hlapse hapart, ?_, ?_, ?_, ?_⟩
  · intro digest tid a hr hp
    obtain ⟨code, user, index, hr⟩ := redeems_iff.mp hr
    exact h.gone_of_redeemed ho (h.redeemed_of_answered ho hr hp)
  · intro digest l₁ w l₂ userId code tenant hl hw hf hd
    exact h.replaced_of_regenerated ho hl hw hf hd
  · intro l₁ w l₂ e l₃ hl hw he hchallenge
    refine h.enrolled_since ho hl hw ?_
    obtain ⟨code, hcode⟩ := isSome_iff_exists.mp hchallenge
    obtain ⟨expected, token, ip, userAgent, hf⟩ := flow_of_challengeCode hcode
    have hle : cfg.log = (l₁ ++ w :: l₂) ++ e :: l₃ := by
      rw [hl]
      simp
    obtain ⟨-, r, hr, hon⟩ := h.factor_kept ho.host ho.lock hle he (by rw [hf]; rfl)
    rw [hr]
    exact hon
  · intro l₁ tid pre lockId token r l₂ a token' ttl hl ha hop hne hheld
    exact h.release_leaves hl ha hop hne hheld

/-! ### Runs -/

/-- Whether every handler is done with what it took, by an exchange of this kind, before that lapses. -/
def withinTtl (ttlOf : Exchange → Option ℕ) (log : List Event) : Bool :=
  everyCut (fun _ a rest => (ttlOf a.ev).all fun ttl => rest.all fun e =>
    decide (e.tid = a.tid → e.pre.now < a.pre.now + ttl)) [] log

theorem of_withinTtl {ttlOf : Exchange → Option ℕ} {l₁ l₂ : List Event} {a e : Event} {ttl : ℕ}
    (h : withinTtl ttlOf log = true) (hl : log = l₁ ++ a :: l₂) (ha : ttlOf a.ev = some ttl) (he : e ∈ l₂)
    (ht : e.tid = a.tid) : e.pre.now < a.pre.now + ttl := by
  rw [hl] at h
  have hcut := of_everyCut h
  rw [ha, Option.all_some, List.all_eq_true] at hcut
  exact of_decide_eq_true (hcut e he) ht

theorem withinLock_of_withinTtl (h : withinTtl (fun ev => (transitionLocks.takes ev).map (·.2.2)) log = true) :
    WithinLock log := by
  intro l₁ tid pre lockId token ttl l₂ pre' id tenantId data u l₃ hl
  exact of_withinTtl (e := ⟨tid, pre', .host (.updateMfa id tenantId data), u⟩) h hl rfl (by simp) rfl

theorem withinClaim_of_withinTtl (h : withinTtl (fun ev => (recoveryClaims.takes ev).map (·.2.2)) log = true) :
    WithinClaim log := by
  intro l₁ c l₂ claimId ttl hl hc e he ht
  refine of_withinTtl h hl ?_ he ht
  rw [hc]
  rfl

/-- Where nothing was taken, an enrolment takes what it read. -/
theorem takesWhatItRead_of_untaken (h : (log.all fun e => (pendingSetups.frees e.ev).isNone) = true) :
    TakesWhatItRead log := by
  intro tid key data taken _ htake
  obtain ⟨e, he, -, hev⟩ := mem_localTrace.mp htake
  have hnone := List.all_eq_true.mp h e he
  rw [hev] at hnone
  cases hnone

/-- Where no time passes, no claim lapses. -/
theorem Deployment.Reaches.readSinceLapse_of_frozen {cfg : Snapshot} (h : D.Reaches cfg) {second : ℕ}
    (hn : ∀ e ∈ cfg.log, e.pre.now = second) : ReadSinceLapse cfg.log := by
  intro l₁ c l₂ c' l₃ claimId ttl ttl' hl hc _ hle
  have hnow : c.pre.now = second := hn c (by rw [hl]; simp)
  have hnow' : c'.pre.now = second := hn c' (by rw [hl]; simp)
  have hobeys := h.obeys hl
  rw [show c.op = .mfa (.claimRecoveryCode claimId ttl) from congrArg Ev.op hc] at hobeys
  obtain rfl : ttl = recoveryCodeClaimTtlSeconds := hobeys
  rw [hnow, hnow'] at hle
  exact absurd hle (Nat.not_le_of_gt (Nat.lt_add_of_pos_right (by decide)))

open Demo

/-- Two challenges with one recovery code: one session, and the digest is gone. -/
theorem recovery_code_once_spent :
    let D := guardedDeployment [.login "a@example.com" "pw" "t1" "" "",
      .mfa (.challenge none (challengeToken "j0") "rc" "" ""), .login "a@example.com" "pw" "t1" "" "",
      .mfa (.challenge none (challengeToken "j2") "rc" "" "")]
    ∃ cfg, D.Reaches cfg ∧ Orderly D cfg "u1" (some "t1") ∧ (cfg.pool 3).failed = some .mfaInvalidCode ∧
      cfg.log.countP (fun e => creates e.op && redeems D cfg.log "u1" (some "t1") "rc" e.tid) = 1 ∧
      "rc" ∉ digestsOf (cfg.st.record "u1" (some "t1")) := by
  intro D
  refine exists_reaches (acts 0 8 "" ["", "", "", "", "", "", "j0"] ++ acts 1 13 "l1" [] ++
      acts 1 8 (token 'a') ["", "", "", "i1", "", "f1"] ++
      acts 2 8 "" ["", "", "", "", "", "", "j2"] ++ acts 3 6 "" [])
    (fun cfg => recordKept D cfg "u1" (some "t1") ∧ (∀ e ∈ cfg.log, e.pre.now = 0) ∧
      withinTtl (fun ev => (recoveryClaims.takes ev).map (·.2.2)) cfg.log ∧
      (cfg.log.all fun e => (pendingSetups.frees e.ev).isNone) ∧
      (∀ e ∈ cfg.log, "rc" ∉ Exchange.digests D.env e.ev) ∧ (cfg.pool 1).answered.isSome ∧
      (cfg.pool 3).failed = some .mfaInvalidCode ∧ redeems D cfg.log "u1" (some "t1") "rc" 1 ∧
      1 ≤ cfg.log.countP (fun e => creates e.op && redeems D cfg.log "u1" (some "t1") "rc" e.tid))
    (by decide +kernel)
    fun cfg h ⟨hkept, hnow, hclaims, huntaken, hundrawn, hanswered, hfailed, hredeems, hone⟩ => ?_
  have ho : Orderly D cfg "u1" (some "t1") :=
    { host := hostLeaves_of_recordKept hkept
      lock := h.withinLock_of_frozen hnow
      takes := takesWhatItRead_of_untaken huntaken
      nodup := by decide
      undrawn := fun digest hd e he => by
        rw [mem_singleton.mp (show digest ∈ ["rc"] from hd)]
        exact hundrawn e he }
  have hapart : CodesApart D := fun _ _ code code' _ _ digest hd hd' =>
    (mem_singleton.mp (show digest ∈ [code] from hd)).symm.trans
      (mem_singleton.mp (show digest ∈ [code'] from hd'))
  obtain ⟨hsessions, hgone, -⟩ := recovery_code_once h ho (withinClaim_of_withinTtl hclaims)
    (h.readSinceLapse_of_frozen hnow) hapart
  obtain ⟨a, ha⟩ := isSome_iff_exists.mp hanswered
  exact ⟨ho, hfailed, Nat.le_antisymm (hsessions "rc") hone, hgone "rc" 1 a hredeems (Prog.answered_eq_some.mp ha)⟩

namespace Demo

/-- Time passes, and this account is what the host has. -/
def waitsWith (secs : ℕ) (user : AuthUser) : List (Move Input) := [.wait { input "" "" with secs, users := [user] }]

/-- Two enrolments, new codes and a removal, at a time at which five codes of a secret are acceptable. -/
def reenrolment : Deployment :=
  { deployment [.mfa (.setup "u1" (some "t1") (some "pw")), .mfa (.verifyAndEnable "u1" "000032" (some "t1")),
      .mfa (.verifyAndEnable "u1" "000033" (some "t1")), .mfa (.regenerateRecoveryCodes "u1" "000034" (some "t1")),
      .mfa (.disable "u1" "000035" (some "t1")), .mfa (.setup "u1" (some "t1") (some "pw"))] with
    now := 60
    env := { env with
      mfa := { mfaSettings with
        totpVerify := Totp.verify fun secret step => [0, 0, 0, (16 * secret.length + step).toUInt8]
        totpWindow := 2 } } }

/-- Two logins, a second apart, and for each a challenge with the one recovery code of the account. -/
def rivals : Deployment :=
  { guardedDeployment [.login "a@example.com" "pw" "t1" "" "", .mfa (.challenge none (challengeToken "j0") "rc" "" ""),
      .login "a@example.com" "pw" "t1" "" "",
      .mfa (.challenge none { challengeToken "j1" with iat := 1, exp := 301 } "rc" "" "")] with
    env := { env with
      codec := Rfc3339.ofTable [(1000000000, "1970-01-01T00:00:01Z"), (300000000000, "1970-01-01T00:05:00Z")]
        (by decide) } }

end Demo

/-- An enrolment reads the pending record, checks its code and pauses. Another one takes that record and writes it, new
codes replace its digests, the factor is removed, and a second enrolment is begun. The first one goes on, takes the
second pending record, and writes what it read: the digests that were replaced. No time passes.

And a challenge claims a recovery code and pauses; a second later another one reads the account; the first one takes the
digest out and is issued a session. As soon as its claim has lapsed the second one claims the code, finds nothing to take
out, and is issued a session. -/
theorem recovery_code_undone : (∃ cfg l₁ w l₂, reenrolment.Reaches cfg ∧ HostLeaves reenrolment cfg "u1" (some "t1") ∧
      WithinLock cfg.log ∧ WithinClaim cfg.log ∧ cfg.log = l₁ ++ w :: l₂ ∧ writesRecord "u1" (some "t1") w = true ∧
      reenrolment.flows w.tid = .mfa (.regenerateRecoveryCodes "u1" "000034" (some "t1")) ∧
      (cfg.pool w.tid).answered.isSome = true ∧ "r1" ∈ digestsOf (w.pre.record "u1" (some "t1")) ∧
      "r1" ∉ digestsOf (recordAfter "u1" (some "t1") w) ∧ "r1" ∈ digestsOf (cfg.st.record "u1" (some "t1"))) ∧
    ∃ cfg, rivals.Reaches cfg ∧ HostLeaves rivals cfg "u1" (some "t1") ∧ WithinLock cfg.log ∧ WithinClaim cfg.log ∧
      cfg.log.countP (fun e => creates e.op && redeems rivals cfg.log "u1" (some "t1") "rc" e.tid) = 2 := by
  constructor
  · obtain ⟨cfg, h, hkept, hlock, hclaim, hanswered, hback, hcut⟩ := reaches_of_run reenrolment
      (draws 0 7 "bb" "bb" "r1" ++ draws 0 2 "" "r1" "" ++ draws 1 4 "" "" "" ++
        draws 2 12 "l2" "" "" ++ draws 3 11 "l3" "" "r3" ++ draws 4 12 "l4" "" "" ++
        draws 5 7 "ccc" "ccc" "r5" ++ draws 5 2 "" "r5" "" ++ draws 1 8 "l1" "" "")
      (fun cfg => recordKept reenrolment cfg "u1" (some "t1") ∧
        withinTtl (fun ev => (transitionLocks.takes ev).map (·.2.2)) cfg.log ∧
        withinTtl (fun ev => (recoveryClaims.takes ev).map (·.2.2)) cfg.log ∧ (cfg.pool 3).answered.isSome ∧
        "r1" ∈ digestsOf (cfg.st.record "u1" (some "t1")) ∧
        cutAt 34 (fun _ w _ => decide (w.tid = 3) && writesRecord "u1" (some "t1") w &&
          decide ("r1" ∈ digestsOf (w.pre.record "u1" (some "t1"))) &&
          decide ("r1" ∉ digestsOf (recordAfter "u1" (some "t1") w))) cfg.log) (by decide +kernel)
    obtain ⟨l₁, w, l₂, hl, hcut⟩ := exists_of_cutAt hcut
    simp only [and_eq_true, decide_eq_true_eq] at hcut
    obtain ⟨⟨⟨htid, hw⟩, hin⟩, hout⟩ := hcut
    rw [← htid] at hanswered
    exact ⟨cfg, l₁, w, l₂, h, hostLeaves_of_recordKept hkept, withinLock_of_withinTtl hlock,
      withinClaim_of_withinTtl hclaim, hl, hw, by rw [htid]; rfl, hanswered, hin, hout, hback⟩
  · exact exists_reaches (acts 0 8 "" ["", "", "", "", "", "", "j0"] ++ acts 1 6 "" [] ++
        waitsWith 1 guarded ++ acts 2 8 "" ["", "", "", "", "", "", "j1"] ++ acts 3 5 "" [] ++
        acts 1 7 "l1" [] ++ acts 1 8 (token 'a') ["", "", "", "i1", "", "f1"] ++
        waitsWith 299 { guarded with mfaRecoveryCodes := some [] } ++ acts 3 7 "l3" [] ++
        acts 3 8 (token 'b') ["", "", "", "i3", "", "f3"])
      (fun cfg => recordKept rivals cfg "u1" (some "t1") ∧
        withinTtl (fun ev => (transitionLocks.takes ev).map (·.2.2)) cfg.log ∧
        withinTtl (fun ev => (recoveryClaims.takes ev).map (·.2.2)) cfg.log ∧
        cfg.log.countP (fun e => creates e.op && redeems rivals cfg.log "u1" (some "t1") "rc" e.tid) = 2)
      (by decide +kernel) fun cfg h ⟨hkept, hlock, hclaim, htwo⟩ =>
        ⟨hostLeaves_of_recordKept hkept, withinLock_of_withinTtl hlock, withinClaim_of_withinTtl hclaim, htwo⟩

end BymaxAuth
