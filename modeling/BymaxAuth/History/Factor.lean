import BymaxAuth.History.Run
import BymaxAuth.Lib.Lease
import BymaxAuth.Mfa.Writes

/-!
# The record of a second factor along a run

Every write of an account's record ends a transition: its handler took the account's lock, read the account again and
issued nothing in between. The lock lapses ten seconds after it was taken, and a holder that is late still writes.

## The model

`HostLeaves` says that nothing but the library's writes of the record changes it: from one entry of the history to the
next the record is what the first one left. `WithinLock` says that no transition outlives its lock. `Env.factor` is the
secret of a record that is on.
-/

namespace BymaxAuth

open Redis Concurrency List Bool Store

/-! ### The lock -/

/-- The transition locks. -/
def transitionLocks : Lease Store Op.Reply String String where
  keys st := st.mfaKeys.lock
  clock st := st.now
  takes ev :=
    match ev with
    | ⟨.mfa (.acquireLock lockId token ttl), true⟩ => some (lockId, token, ttl)
    | _ => none
  frees ev :=
    match ev with
    | ⟨.mfa (.releaseLock lockId token), true⟩ => some (lockId, token)
    | _ => none

/-- The commands of the engine do nothing else to the locks. -/
theorem transitionLocks_kept (env : Env) : transitionLocks.Kept (machine env) where
  clock := machine_now env
  pass _ _ := rfl
  later _ _ := Nat.le_add_right _ _
  step st tid c i k := by
    cases c with
    | session cmd => exact .pass rfl rfl
    | account cmd | host cmd => cases cmd <;> exact .pass rfl rfl
    | mfa cmd =>
      cases cmd with
      | acquireLock lockId token ttl =>
        refine Lease.Step.of_setNx (k := lockId) (t := token) rfl ?_
        show transitionLocks.takes ⟨.mfa (.acquireLock lockId token ttl),
            (setNx st.mfaKeys.lock st.now lockId token ttl).1⟩ =
          if (setNx st.mfaKeys.lock st.now lockId token ttl).1 then some (lockId, token, ttl) else none
        cases (setNx st.mfaKeys.lock st.now lockId token ttl).1 <;> rfl
      | releaseLock lockId token =>
        show transitionLocks.Step k ⟨tid, st, .mfa (.releaseLock lockId token),
            (releaseLock st.now st.mfaKeys.lock lockId token).1⟩
          { st with mfaKeys := { st.mfaKeys with lock := (releaseLock st.now st.mfaKeys.lock lockId token).2 } }
        by_cases hheld : get st.mfaKeys.lock st.now lockId = some token
        · rw [releaseLock, if_pos hheld]
          by_cases hk : k = lockId
          · subst hk
            exact .freed (fun _ _ h => by cases h) rfl hheld (del_self _ _)
          · exact .pass rfl (del_of_ne _ hk)
        · rw [releaseLock_of_ne hheld]
          exact .pass rfl rfl
      | _ => exact .pass rfl rfl

/-- No transition outlives its lock: a handler writes a record before the lock it took lapses. -/
def WithinLock (log : List Event) : Prop :=
  ∀ l₁ tid pre lockId token ttl l₂ pre' id tenantId data u l₃,
    log = l₁ ++ ⟨tid, pre, .mfa (.acquireLock lockId token ttl), true⟩ ::
      (l₂ ++ ⟨tid, pre', .host (.updateMfa id tenantId data), u⟩ :: l₃) → pre'.now < pre.now + ttl

/-- The entry writes this account's record. -/
def writesRecord (id : String) (tenantId : Option String) (e : Event) : Bool :=
  match e with
  | ⟨_, _, .host (.updateMfa id' tenant _), _⟩ => id' = id && tenant = tenantId
  | _ => false

variable {id rawSecret : String} {tenantId : Option String} {data : MfaRecord} {current : AuthUser}

theorem writesRecord_iff {e : Event} :
    writesRecord id tenantId e = true ↔ ∃ data, e.op = .host (.updateMfa id tenantId data) := by
  obtain ⟨tid, pre, op, r⟩ := e
  constructor
  · intro h
    unfold writesRecord at h
    split at h
    · next heq =>
      cases heq
      simp only [and_eq_true, decide_eq_true_eq] at h
      obtain ⟨rfl, rfl⟩ := h
      exact ⟨_, rfl⟩
    · cases h
  · rintro ⟨data, ⟨⟩⟩
    simp [writesRecord]

namespace Deployment

variable {D : Deployment} {cfg : Snapshot} {l₁ l₂ : List Event}

namespace Reaches

variable (h : D.Reaches cfg)
include h

/-- A lock token is used for one lock. -/
theorem freshLocks : FreshLog Exchange.drawsLock Exchange.locks cfg.log := by
  refine reach_freshLog (I := fun _ => Obeys D.env) (Q := fun _ _ _ => True) ?_ ?_ (fun _ => flow_obeys _) h
  · intro log e v ha hv
    obtain ⟨tid, pre, op, r⟩ := e
    unfold Exchange.drawsLock Entry.ev at hv
    split at hv
    · next token heq =>
      cases heq
      cases hv
      simpa only [machine, admits, not_eq_true', contains_eq_mem, decide_eq_false_iff_not] using ha
    · cases hv
  · intro tid tr c r v hI hv
    unfold Exchange.locks at hv
    split at hv
    · next lockId token ttl _ heq =>
      cases heq
      cases hv
      exact hI.1
    · cases hv

/-- Whoever releases a lock by a token has taken one with it. -/
theorem released_own {a x : Event} (ha : a ∈ cfg.log) (hx : x ∈ cfg.log)
    {lockId lockId' token : String} {ttl : ℕ} {r : Bool} (hop : a.ev = ⟨.mfa (.acquireLock lockId token ttl), r⟩)
    (hrel : x.op = .mfa (.releaseLock lockId' token)) : x.tid = a.tid := by
  obtain ⟨l₁, l₂, hl⟩ := append_of_mem hx
  have ho := h.obeys hl
  rw [hrel] at ho
  obtain ⟨a', ha', ht, hev⟩ := mem_localTrace.mp ho
  have heq : a' = a := h.freshLocks.eq_of_spend (hl ▸ mem_append_left _ ha') ha (v := token)
    (by rw [hev]; rfl) (by rw [hop]; rfl)
  rw [← ht, heq]

/-- The transition of a write: its handler took the lock, read the account and wrote, and nothing else in between. -/
theorem transition_of_write {tid : ℕ} {pre : Store} {u : Unit}
    (hl : cfg.log = l₁ ++ ⟨tid, pre, .host (.updateMfa id tenantId data), u⟩ :: l₂) :
    ∃ m₁ pre₁ token m current, l₁ = m₁ ++ ⟨tid, pre₁, .mfa (.acquireLock (D.env.mfaLockId tenantId id) token
        mfaTransitionLockTtlSeconds), true⟩ :: m ∧
      localTrace tid m = [⟨.host (.findById id tenantId), some current⟩] ∧
      Mutates D.env (localTrace tid m₁) current data := by
  obtain ⟨tr₁, token, current, htr, hmut⟩ := (h.obeys hl : Transits D.env _ id tenantId data).locked
  obtain ⟨m₁, ⟨t₁, pre₁, op₁, r₁⟩, m, rfl, rfl, hev₁, rfl, hm⟩ := localTrace_split htr
  cases hev₁
  exact ⟨m₁, pre₁, token, m, current, rfl, hm, hmut⟩

theorem now_le {e e' : Event} (he : e ∈ l₁) (hl : cfg.log = l₁ ++ e' :: l₂) : e.pre.now ≤ e'.pre.now := by
  obtain ⟨c, d, hc, hm, -⟩ := h.at_entry hl
  rw [← hm.st₁]
  exact hc.pre_now_le (hm.log₁ ▸ he)

end Reaches

section Transition

variable {tid : ℕ} {pre₁ : Store} {token : String} {ttl : ℕ} {found : Option AuthUser} {m₁ m : List Event}

/-- A lock is not released while its holder has only read the account. -/
theorem Reaches.held_until_write (h : D.Reaches cfg) {lockId : String}
    (hl : cfg.log = m₁ ++ ⟨tid, pre₁, .mfa (.acquireLock lockId token ttl), true⟩ :: (m ++ l₂))
    (hm : localTrace tid m = [⟨.host (.findById id tenantId), found⟩]) {x : Event} (hx : x ∈ m) :
    transitionLocks.frees x.ev ≠ some (lockId, token) := by
  intro hfree
  have hlog : x ∈ cfg.log := by
    rw [hl]
    exact mem_append_right _ (mem_cons_of_mem _ (mem_append_left _ hx))
  obtain ⟨t, pre, op, r⟩ := x
  unfold transitionLocks Entry.ev at hfree
  dsimp only at hfree
  split at hfree
  · next heq =>
    cases heq
    cases hfree
    have htid : t = tid := h.released_own (a := ⟨tid, pre₁, .mfa (.acquireLock lockId token ttl), true⟩)
      (by rw [hl]; simp) hlog rfl rfl
    have hmem := mem_localTrace.mpr ⟨_, hx, htid, rfl⟩
    rw [hm, mem_singleton] at hmem
    cases hmem
  · cases hfree

/-- Who takes a lock while its holder has only read the account takes one that has lapsed. -/
theorem Reaches.lapsed_of_second (h : D.Reaches cfg) {lockId : String}
    (hl : cfg.log = m₁ ++ ⟨tid, pre₁, .mfa (.acquireLock lockId token ttl), true⟩ :: (m ++ l₂))
    (hm : localTrace tid m = [⟨.host (.findById id tenantId), found⟩]) {t : ℕ} {pre : Store} {token' : String} {ttl' : ℕ}
    (hsecond : ⟨t, pre, .mfa (.acquireLock lockId token' ttl'), true⟩ ∈ m) : pre₁.now + ttl ≤ pre.now := by
  have hheld := fun x hx => h.held_until_write (x := x) hl hm hx
  obtain ⟨x, y, rfl⟩ := append_of_mem hsecond
  have hcut : cfg.log = m₁ ++ ⟨tid, pre₁, .mfa (.acquireLock lockId token ttl), true⟩ :: x ++
      ⟨t, pre, .mfa (.acquireLock lockId token' ttl'), true⟩ :: (y ++ l₂) := by
    rw [hl]
    simp
  exact Lease.excluded (transitionLocks_kept D.env) h hcut rfl rfl fun z hz => hheld z (mem_append_left _ hz)

/-- While a transition is under way that does not outlive its lock, nobody else writes the record. -/
theorem Reaches.unwritten_under_lock (h : D.Reaches cfg) (hlock : WithinLock cfg.log) {pre : Store} {u : Unit}
    (hl : cfg.log = m₁ ++ ⟨tid, pre₁, .mfa (.acquireLock (D.env.mfaLockId tenantId id) token ttl), true⟩ ::
      (m ++ ⟨tid, pre, .host (.updateMfa id tenantId data), u⟩ :: l₂))
    (hm : localTrace tid m = [⟨.host (.findById id tenantId), found⟩]) {w : Event} (hw : w ∈ m) :
    writesRecord id tenantId w = false := by
  refine eq_false_iff.mpr fun hwrites => ?_
  obtain ⟨data', hop⟩ := writesRecord_iff.mp hwrites
  obtain ⟨t, prew, op, r⟩ := w
  cases hop
  have htid : t ≠ tid := by
    intro ht
    have hmem := mem_localTrace.mpr ⟨_, hw, ht, rfl⟩
    rw [hm, mem_singleton] at hmem
    cases hmem
  have hin : pre.now < pre₁.now + ttl := hlock _ _ _ _ _ _ _ _ _ _ _ _ _ hl
  have hlast : prew.now ≤ pre.now := by
    have hcut := hl
    rw [← cons_append, ← append_assoc] at hcut
    exact h.now_le (mem_append_right _ (mem_cons_of_mem _ hw)) hcut
  obtain ⟨n₁, n₂, hn⟩ := append_of_mem hw
  have hlw : cfg.log = (m₁ ++ ⟨tid, pre₁, .mfa (.acquireLock (D.env.mfaLockId tenantId id) token ttl), true⟩ :: n₁) ++
      ⟨t, prew, .host (.updateMfa id tenantId data'), r⟩ ::
        (n₂ ++ ⟨tid, pre, .host (.updateMfa id tenantId data), u⟩ :: l₂) := by
    rw [hl, hn]
    simp
  have hbefore : pre₁.now ≤ prew.now := h.now_le (mem_append_right _ mem_cons_self) hlw
  obtain ⟨k₁, prek, token', k, current, hk, hktr, -⟩ := h.transition_of_write hlw
  rw [hk, append_assoc, cons_append] at hlw
  have hin' : prew.now < prek.now + mfaTransitionLockTtlSeconds := hlock _ _ _ _ _ _ _ _ _ _ _ _ _ hlw
  have hbefore' : prek.now ≤ prew.now := by
    rw [← cons_append, ← append_assoc] at hlw
    exact h.now_le (mem_append_right _ mem_cons_self) hlw
  -- Whoever of the two took the lock second, the first one's had lapsed.
  rcases cut_cases hk with ⟨-, heq, -⟩ | ⟨x, -, rfl⟩ | ⟨x, -, rfl⟩
  · cases heq
    exact htid rfl
  · rw [hn] at hl hm
    have hlapsed := h.lapsed_of_second hl hm
      (mem_append_left _ (mem_append_right x mem_cons_self))
    omega
  · have hlapsed := h.lapsed_of_second hlw hktr (mem_append_right x mem_cons_self)
    omega

end Transition

end Deployment

/-! ### The record -/

/-- The record of an account. -/
def Store.record (st : Store) (id : String) (tenantId : Option String) : Option MfaRecord :=
  (st.findById id tenantId).map AuthUser.mfaRecord

/-- The record of an account after an entry: an entry that writes it replaces it. -/
def recordAfter (id : String) (tenantId : Option String) (e : Event) : Option MfaRecord :=
  match e with
  | ⟨_, pre, .host (.updateMfa id' tenant data), _⟩ =>
    if id' = id ∧ tenant = tenantId then (pre.updateMfa id tenantId data).record id tenantId else pre.record id tenantId
  | _ => e.pre.record id tenantId

/-- A write replaces the record of an account that is there. -/
theorem record_updateMfa (st : Store) (id : String) (tenantId : Option String) (data : MfaRecord) :
    (st.updateMfa id tenantId data).record id tenantId = (st.record id tenantId).map fun _ => data := by
  unfold record findById updateMfa
  have hnames : ((fun u : AuthUser => decide (u.id = id ∧ (tenantId = none ∨ tenantId = some u.tenantId))) ∘
      fun u => if u.id = id ∧ (tenantId = none ∨ tenantId = some u.tenantId) then
        { u with
          mfaEnabled := data.mfaEnabled, mfaSecret := data.mfaSecret, mfaRecoveryCodes := data.mfaRecoveryCodes }
        else u) = fun u => decide (u.id = id ∧ (tenantId = none ∨ tenantId = some u.tenantId)) := by
    funext u
    simp only [Function.comp]
    split_ifs <;> rfl
  rw [List.find?_map, hnames]
  cases hfind : st.users.find? fun u => decide (u.id = id ∧ (tenantId = none ∨ tenantId = some u.tenantId)) with
  | none => rfl
  | some u =>
    have hu : u.id = id ∧ (tenantId = none ∨ tenantId = some u.tenantId) := by simpa using List.find?_some hfind
    simp only [Option.map_some, if_pos hu]
    rfl

theorem recordAfter_of_write {tid : ℕ} {pre : Store} {u : Unit} :
    recordAfter id tenantId ⟨tid, pre, .host (.updateMfa id tenantId data), u⟩ =
      (pre.record id tenantId).map fun _ => data := by
  rw [← record_updateMfa]
  simp [recordAfter]

theorem recordAfter_of_not_write {e : Event} (h : writesRecord id tenantId e = false) :
    recordAfter id tenantId e = e.pre.record id tenantId := by
  unfold recordAfter
  split
  · refine if_neg ?_
    rintro ⟨rfl, rfl⟩
    simp [writesRecord] at h
  · rfl

/-- The secret of a record that is on. -/
def Env.factor (env : Env) (record : Option MfaRecord) : Option String :=
  record.bind fun r => if r.mfaEnabled then r.mfaSecret.bind env.mfa.decryptSecret else none

variable {env : Env}

/-- A record that holds the secret a challenge opened. -/
theorem factor_of_holds (h : env.holdsChallengedSecret current rawSecret = true) :
    env.factor (some current.mfaRecord) = some rawSecret := by
  rw [Env.holdsChallengedSecret, and_eq_true, beq_iff_eq] at h
  show (if current.mfaEnabled then current.mfaSecret.bind env.mfa.decryptSecret else none) = _
  rw [h.1, if_pos rfl, h.2]

theorem holds_of_spliced {storedSecret : String} {spent : Option String}
    (h : env.spliced rawSecret storedSecret spent current = some data) :
    env.holdsChallengedSecret current rawSecret = true ∧ data.mfaEnabled = true ∧ data.mfaSecret = some storedSecret := by
  unfold Env.spliced at h
  split_ifs at h with hholds
  obtain ⟨live, -, rfl⟩ := Option.map_eq_some_iff.mp h
  exact ⟨by simpa using hholds, rfl, rfl⟩

theorem holds_of_rewritten {storedSecret : String} (h : env.rewritten rawSecret storedSecret current = some data) :
    env.holdsChallengedSecret current rawSecret = true ∧ data.mfaEnabled = true ∧ data.mfaSecret = some storedSecret := by
  unfold Env.rewritten at h
  split_ifs at h with hholds
  cases h
  exact ⟨by simpa using hholds, rfl, rfl⟩

/-- Nothing but the library's writes of the record changes it: it is what it was at the start, and at each entry what
the last one left. -/
structure HostLeaves (D : Deployment) (cfg : Snapshot) (id : String) (tenantId : Option String) : Prop where
  /-- At the first entry it is what it was at the start. -/
  start : ∀ e l, cfg.log = e :: l → e.pre.record id tenantId = (initial D.now D.users).record id tenantId
  /-- From one entry to the next. -/
  next : ∀ l₁ a b l₂, cfg.log = l₁ ++ a :: b :: l₂ → b.pre.record id tenantId = recordAfter id tenantId a
  /-- Since the last entry. -/
  last : ∀ l a, cfg.log = l ++ [a] → cfg.st.record id tenantId = recordAfter id tenantId a

namespace HostLeaves

variable {D : Deployment} {cfg : Snapshot} {Q : Option MfaRecord → Prop}

/-- The induction over the record's history: `P l record` says what the record is once `l` has happened. -/
theorem along (hh : HostLeaves D cfg id tenantId) (P : List Event → Option MfaRecord → Prop)
    (h₀ : P [] ((initial D.now D.users).record id tenantId))
    (hstep : ∀ l e rest, cfg.log = l ++ e :: rest → P l (e.pre.record id tenantId) →
      P (l ++ [e]) (recordAfter id tenantId e)) :
    (∀ l e rest, cfg.log = l ++ e :: rest → P l (e.pre.record id tenantId)) ∧
      (cfg.log ≠ [] → P cfg.log (cfg.st.record id tenantId)) := by
  have hall : ∀ l e rest, cfg.log = l ++ e :: rest → P l (e.pre.record id tenantId) := by
    intro l
    induction l using List.reverseRecOn with
    | nil =>
      intro e rest hl
      rw [hh.start e rest hl]
      exact h₀
    | append_singleton l a ih =>
      intro e rest hl
      rw [append_assoc, singleton_append] at hl
      rw [hh.next l a e rest hl]
      exact hstep l a (e :: rest) hl (ih a (e :: rest) hl)
  refine ⟨hall, fun hne => ?_⟩
  obtain ⟨l, a, hl⟩ := (eq_nil_or_concat cfg.log).resolve_left hne
  rw [concat_eq_append] at hl
  rw [hh.last l a hl, hl]
  exact hstep l a [] hl (hall l a [] hl)

/-- What holds of the record after an entry holds at a later one, if the writes in between keep it. -/
theorem since (hh : HostLeaves D cfg id tenantId) {l₁ l₂ l₃ : List Event} {a b : Event}
    (hl : cfg.log = l₁ ++ a :: (l₂ ++ b :: l₃)) (ha : Q (recordAfter id tenantId a))
    (hstep : ∀ k₁ w k₂, l₂ = k₁ ++ w :: k₂ → writesRecord id tenantId w = true → Q (w.pre.record id tenantId) →
      Q (recordAfter id tenantId w)) : Q (b.pre.record id tenantId) := by
  induction l₂ generalizing l₁ a with
  | nil =>
    rw [hh.next l₁ a b l₃ hl]
    exact ha
  | cons x l₂ ih =>
    have hx : Q (x.pre.record id tenantId) := by
      rw [hh.next l₁ a x _ hl]
      exact ha
    have hcut : cfg.log = (l₁ ++ [a]) ++ x :: (l₂ ++ b :: l₃) := by
      rw [hl]
      simp
    refine ih hcut ?_ fun k₁ w k₂ hk => hstep (x :: k₁) w k₂ (by rw [hk]; rfl)
    cases hw : writesRecord id tenantId x with
    | true => exact hstep [] x l₂ rfl hw hx
    | false =>
      rw [recordAfter_of_not_write hw]
      exact hx

/-- What holds of the record after an entry holds from then on, if every later write keeps it. -/
theorem ever_after (hh : HostLeaves D cfg id tenantId) {l₁ l₂ : List Event} {a : Event}
    (hl : cfg.log = l₁ ++ a :: l₂) (ha : Q (recordAfter id tenantId a))
    (hstep : ∀ k₁ w k₂, l₂ = k₁ ++ w :: k₂ → writesRecord id tenantId w = true → Q (w.pre.record id tenantId) →
      Q (recordAfter id tenantId w)) :
    (∀ b ∈ l₂, Q (b.pre.record id tenantId)) ∧ Q (cfg.st.record id tenantId) := by
  have hall : ∀ k₁ b k₂, l₂ = k₁ ++ b :: k₂ → Q (b.pre.record id tenantId) := by
    rintro k₁ b k₂ rfl
    refine hh.since hl ha fun n₁ w n₂ hn => hstep n₁ w (n₂ ++ b :: k₂) ?_
    rw [hn]
    simp
  refine ⟨fun b hb => ?_, ?_⟩
  · obtain ⟨k₁, k₂, hk⟩ := append_of_mem hb
    exact hall k₁ b k₂ hk
  · rcases eq_nil_or_concat l₂ with rfl | ⟨k, b, rfl⟩
    · rw [hh.last l₁ a hl]
      exact ha
    · rw [concat_eq_append] at hl hall hstep
      rw [hh.last (l₁ ++ a :: k) b (by rw [hl]; simp)]
      cases hw : writesRecord id tenantId b with
      | true => exact hstep k b [] rfl hw (hall k b [] rfl)
      | false =>
        rw [recordAfter_of_not_write hw]
        exact hall k b [] rfl

end HostLeaves

namespace Deployment

variable {D : Deployment} {cfg : Snapshot} {l₁ l₂ : List Event} {tid : ℕ} {pre : Store}

namespace Reaches

variable (h : D.Reaches cfg)
include h

theorem found_of_read {found : Option AuthUser}
    (hl : cfg.log = l₁ ++ ⟨tid, pre, .host (.findById id tenantId), found⟩ :: l₂) :
    pre.findById id tenantId = found := by
  obtain ⟨c, d, -, hm, -⟩ := h.at_entry hl
  obtain ⟨i, hi⟩ := moment_host hm
  exact congrArg Prod.fst hi

theorem record_of_read {found : AuthUser}
    (hl : cfg.log = l₁ ++ ⟨tid, pre, .host (.findById id tenantId), some found⟩ :: l₂) :
    pre.record id tenantId = some found.mfaRecord := by
  rw [record, h.found_of_read hl]
  rfl

theorem opens {plaintext wire : String} (he : ⟨.host (.encrypt plaintext), wire⟩ ∈ localTrace tid cfg.log) :
    D.env.mfa.decryptWithRotation wire = some (plaintext, false) := by
  obtain ⟨pre, hmem⟩ := exchange_mem.mp he
  obtain ⟨c, d, -, hm, -⟩ := h.at_mem hmem
  have hopens : D.env.mfa.aeadDecrypt wire D.env.mfa.encryptionKey = some plaintext := by
    simpa only [machine, admits, decide_eq_true_eq] using hm.admits
  rw [MfaSettings.decryptWithRotation, hopens]

theorem decrypts {wire : String}
    (he : ⟨.host (.encrypt (D.env.mfa.encodeSecretBase32 rawSecret)), wire⟩ ∈ localTrace tid cfg.log) :
    D.env.mfa.decryptSecret wire = some rawSecret := by
  simp [MfaSettings.decryptSecret, MfaSettings.decryptSecretWithRotation, h.opens he, D.env.mfa.decode_encode]

/-- What `mutate` was given is the record that is replaced. -/
theorem current_of_write (hh : HostLeaves D cfg id tenantId)
    (hlock : WithinLock cfg.log) {pre₁ : Store} {token : String} {ttl : ℕ} {u : Unit} {m₁ m : List Event}
    (hl : cfg.log = m₁ ++ ⟨tid, pre₁, .mfa (.acquireLock (D.env.mfaLockId tenantId id) token ttl), true⟩ ::
      (m ++ ⟨tid, pre, .host (.updateMfa id tenantId data), u⟩ :: l₂))
    (hm : localTrace tid m = [⟨.host (.findById id tenantId), some current⟩]) :
    pre.record id tenantId = some current.mfaRecord := by
  obtain ⟨k₁, ⟨t, prec, op, r⟩, k₂, rfl, rfl, hev, -, -⟩ :=
    localTrace_split (show localTrace tid m = [] ++ _ :: [] from hm)
  cases hev
  have hcut : cfg.log = (m₁ ++ ⟨t, pre₁, .mfa (.acquireLock (D.env.mfaLockId tenantId id) token ttl), true⟩ :: k₁) ++
      ⟨t, prec, .host (.findById id tenantId), some current⟩ ::
        (k₂ ++ ⟨t, pre, .host (.updateMfa id tenantId data), u⟩ :: l₂) := by
    rw [hl]
    simp
  refine hh.since (Q := (· = some current.mfaRecord)) hcut ?_ fun n₁ w n₂ hn hw => ?_
  · exact h.record_of_read hcut
  · have hno := h.unwritten_under_lock hlock hl hm (w := w) (by rw [hn]; simp)
    rw [hno] at hw
    cases hw

theorem withinLock_of_frozen {second : ℕ} (hn : ∀ e ∈ cfg.log, e.pre.now = second) : WithinLock cfg.log := by
  intro l₁ tid pre lockId token ttl l₂ pre' id tenantId data u l₃ hl
  have hpre : pre.now = second := hn ⟨tid, pre, .mfa (.acquireLock lockId token ttl), true⟩ (by rw [hl]; simp)
  have hpre' : pre'.now = second := hn ⟨tid, pre', .host (.updateMfa id tenantId data), u⟩ (by rw [hl]; simp)
  obtain ⟨-, rfl⟩ : pendingLock _ = some token ∧ ttl = mfaTransitionLockTtlSeconds := h.obeys hl
  rw [hpre, hpre']
  exact Nat.lt_add_of_pos_right (by decide)

end Reaches

end Deployment

/-- Whether nothing but the library's writes changed the record. -/
def recordKept (D : Deployment) (cfg : Snapshot) (id : String) (tenantId : Option String) : Bool :=
  (cfg.log.head?.all fun e => e.pre.record id tenantId = (initial D.now D.users).record id tenantId) &&
    everyCut (fun _ a rest => ((rest.head?.map Entry.pre).getD cfg.st).record id tenantId = recordAfter id tenantId a) []
      cfg.log

theorem hostLeaves_of_recordKept {D : Deployment} {cfg : Snapshot} (h : recordKept D cfg id tenantId = true) :
    HostLeaves D cfg id tenantId := by
  rw [recordKept, and_eq_true] at h
  constructor
  · intro e l hl
    simpa [hl] using h.1
  · intro l₁ a b l₂ hl
    have hcut := h.2
    rw [hl] at hcut
    exact of_decide_eq_true (of_everyCut hcut)
  · intro l a hl
    have hcut := h.2
    rw [hl] at hcut
    exact of_decide_eq_true (of_everyCut hcut)

namespace Demo

/-- The next `n` commands of handler `tid`, which draw this secret or lock token, this ciphertext and this recovery
code. -/
def draws (tid n : ℕ) (raw wire code : String) : List (Move Input) :=
  (List.range n).map fun _ => .act tid { input raw "" with wire, codes := [code] }

/-- The commands of an enrolment: `setup` by handler `tid` and `verify_and_enable` by the next one. -/
def enrols (tid : ℕ) (secret code : String) : List (Move Input) :=
  draws tid 7 secret secret code ++ draws tid 2 "" code "" ++ draws (tid + 1) 12 secret "" ""

end Demo

end BymaxAuth
