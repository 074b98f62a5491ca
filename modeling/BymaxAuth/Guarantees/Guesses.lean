import BymaxAuth.History.Run
import BymaxAuth.Mfa.Challenge

/-!
# The guess budget of the login lockout

A login reads the failure counter of the address, then looks the account up and compares the password with the stored
hash, and counts a failure when that is over. The three steps are separate, so the attempts that have read the counter
before it crosses the threshold all come to compare.

## The model

`compared`, `checks` and `counts` pick the three steps out of a history. A part of a history is `Unbroken` if the
counter stands from its first failure to its end: nothing resets it and its window does not end. It is `Serialized` if
between two comparisons the failure of the one is counted, and after that the counter is checked for the other.
-/

namespace BymaxAuth

open Redis Concurrency List Option Bool

/-! ### One attempt -/

/-- Whether the password is compared with the account's hash, and is not the one. -/
def wrongPassword (env : Env) (password tenantId : String) (user : AuthUser) : Bool :=
  user.tenantId = tenantId && user.passwordHash.any fun phc => !env.verifyPassword password phc

/-- A login looks the account up as its third step, behind a check that found the counter below the threshold; and it
counts its failure in the configured window. -/
def Guesses (env : Env) (identifier : String) (tr : Trace) : Op → Prop
  | .host (.findByEmail email tenantId) => ∃ n accepts,
      tr = [⟨.account (.getLf identifier), n⟩, ⟨.host (.beforeLogin email tenantId), accepts⟩] ∧
        n.getD 0 < env.config.maxAttempts
  | .account (.incrLf _ window) => window = env.config.lockoutWindow
  | _ => True

section Attempt

variable {env : Env} {identifier : String} {α : Type}

theorem guesses_of_granting {tr : Trace} {c : Op} (h : guesses c = false) : Guesses env identifier tr c := by
  unfold guesses at h
  split at h
  · cases h
  · cases h
  · next hfind hincr =>
    unfold Guesses
    split
    · exact absurd rfl (hfind _ _)
    · exact absurd rfl (hincr _ _)
    · trivial

/-- A part of a login that neither looks an account up nor counts a failure. -/
theorem triple_of_only {x : Act α} (hx : Only (guesses · = false) x) (tr : Trace) :
    Triple (Guesses env identifier) (fun _ _ => True) (fun _ => True) tr x := by
  refine (hx tr).mono (fun _ _ h => guesses_of_granting h) fun _ r _ => ?_
  cases r <;> trivial

theorem only_admitUser (user : AuthUser) (ip userAgent : String) :
    Only (guesses · = false) (admitUser env identifier user ip userAgent) := by
  have htimed (c : Op) (h : Timed c) : guesses c = false := (granting_of_timed c h).2
  refine kit_admitUser .only htimed (kit_issueMfaTempToken .only htimed (fun _ _ => rfl) _ _) ?_ _
  exact (within_issueSession user ip userAgent false).only.mono fun _ h => h.2

theorem guesses_recordFailureAndReject (tr : Trace) :
    Triple (Guesses env identifier) (fun _ _ => True) (fun _ => True) tr
      (recordFailureAndReject env identifier : Act α) :=
  .discard rfl fun _ => .throw trivial

theorem guesses_assertNotLocked : Triple (Guesses env identifier)
      (fun tr _ => ∃ n : Option ℕ, tr = [⟨.account (.getLf identifier), n⟩] ∧ n.getD 0 < env.config.maxAttempts)
      (fun _ => True) [] (assertNotLocked env identifier) := by
  refine .step trivial fun n => .ite (fun _ => .step trivial fun _ => .throw trivial) fun hn => .pure ⟨n, rfl, ?_⟩
  omega

/-- A login compares once, after a check that found the counter below the threshold. -/
theorem login_guesses (email password tenantId ip userAgent : String) :
    Triple (Guesses env (lockoutIdentifier env tenantId (env.normalizeEmail email))) (fun _ _ => True)
      (fun _ => True) [] (login env email password tenantId ip userAgent) := by
  refine .bind guesses_assertNotLocked ?_
  rintro tr - ⟨n, rfl, hn⟩
  refine .step trivial fun accepts => .ite (fun _ => .throw_bind trivial) fun _ => ?_
  refine .step ⟨n, _, rfl, hn⟩ fun found => ?_
  split
  · exact guesses_recordFailureAndReject _
  · refine .ite (fun _ => guesses_recordFailureAndReject _) fun _ => ?_
    split
    · exact guesses_recordFailureAndReject _
    · exact .ite (fun _ => triple_of_only (only_admitUser _ _ _) _) fun _ => guesses_recordFailureAndReject _

end Attempt

/-! ### The counter -/

/-- An entry that checks the counter. -/
def checks (identifier : String) (e : Event) : Bool :=
  match e.op with
  | .account (.getLf i) => i = identifier
  | _ => false

/-- An entry that counts a failure. -/
def counts (identifier : String) (e : Event) : Bool :=
  match e.op with
  | .account (.incrLf i _) => i = identifier
  | _ => false

/-- An entry that resets the counter. -/
def resets (identifier : String) (e : Event) : Bool :=
  match e.op with
  | .account (.delLf i) => i = identifier
  | _ => false

/-- An entry that counts the first failure of a window. -/
def opensWindow (identifier : String) (e : Event) : Bool :=
  match e.ev with
  | ⟨.account (.incrLf i _), n⟩ => i = identifier && n = 1
  | _ => false

/-- What a reader of the counter finds. -/
def failures (identifier : String) (st : Store) : ℕ := (get st.lf st.now identifier).getD 0

/-- What an entry makes of the counter. -/
inductive CounterStep (identifier : String) (e : Event) (cell : Option (Cell ℕ)) : Prop where
  /-- It counts a failure. The first one opens the window, and the others leave its end where it is. -/
  | counted (window : ℕ) (isCount : e.op = .account (.incrLf identifier window))
      (next : cell = some ⟨failures identifier e.pre + 1,
        if failures identifier e.pre = 0 then some (e.pre.now + window)
        else (find e.pre.lf e.pre.now identifier).bind (·.expireAt)⟩)
  /-- It deletes it. -/
  | reset (isReset : resets identifier e = true) (gone : cell = none)
  /-- It leaves it alone. -/
  | kept (notCount : counts identifier e = false) (same : cell = e.pre.lf identifier)

theorem counterStep_of_moment {env : Env} {l : List Event} {c d : Snapshot} {e : Event}
    (hm : Moment (machine env) l e c d) (identifier : String) :
    CounterStep identifier e (d.st.lf identifier) := by
  obtain ⟨tid, pre, op, r⟩ := e
  cases op with
  | session cmd => exact .kept rfl (by rw [(moment_session hm).2])
  | host cmd =>
    obtain ⟨i, h⟩ := moment_host hm
    exact .kept rfl (by cases cmd <;> exact (congrArg (fun p => p.2.lf identifier) h).symm)
  | mfa cmd =>
    have h := moment_mfa hm
    exact .kept rfl (by cases cmd <;> exact (congrArg (fun p => p.2.lf identifier) h).symm)
  | account cmd =>
    have h := moment_account hm
    cases cmd with
    | incrLf i window =>
      have hlf : (if (incr pre.lf pre.now i).1 = 1 then expire (incr pre.lf pre.now i).2 pre.now i window
          else (incr pre.lf pre.now i).2) identifier = d.st.lf identifier := congrArg (fun p => p.2.lf identifier) h
      rw [← hlf]
      by_cases hi : i = identifier
      · subst hi
        refine .counted window rfl ?_
        obtain ⟨hreply, hincr⟩ := incr_self pre.lf pre.now i
        have hexpire := expire_incr pre.lf pre.now i window
        change (incr pre.lf pre.now i).1 = failures i pre + 1 at hreply
        by_cases hn : failures i pre = 0
        · rw [if_pos (by omega), hexpire, if_pos hn]
          rfl
        · rw [if_neg (by omega), hincr, if_neg hn]
          rfl
      · refine .kept (by simp [counts, hi]) ?_
        split
        · exact (expire_of_ne _ _ _ (Ne.symm hi)).trans (incr_of_ne _ _ (Ne.symm hi))
        · exact incr_of_ne _ _ (Ne.symm hi)
    | delLf i =>
      have hlf : del pre.lf i identifier = d.st.lf identifier := congrArg (fun p => p.2.lf identifier) h
      by_cases hi : i = identifier
      · subst hi
        exact .reset (by simp [resets]) (by rw [← hlf, del_self])
      · exact .kept rfl (by rw [← hlf, del_of_ne _ (Ne.symm hi)])
    | _ => exact .kept rfl (congrArg (fun p => p.2.lf identifier) h).symm

variable {identifier : String}

theorem failures_of_has {st : Store} (h : has st.lf st.now identifier = true) :
    ∃ cell, st.lf identifier = some cell ∧ cell.live st.now = true ∧ failures identifier st = cell.val := by
  obtain ⟨cell, hcell, hlive⟩ := has_iff.mp h
  refine ⟨cell, hcell, hlive, ?_⟩
  rw [failures, get_eq_some.mpr ⟨cell, hcell, hlive, rfl⟩, getD_some]

theorem not_counts_of_resets {e : Event} (h : resets identifier e = true) : counts identifier e = false := by
  unfold resets at h
  unfold counts
  split at h
  · next hop => rw [hop]
  · cases h

/-! ### A part of a history -/

/-- An entry at which a login against this counter gets the account and compares a wrong password with its hash. -/
def compared (D : Deployment) (identifier : String) (e : Event) : Bool :=
  match D.flows e.tid with
  | .login email password tenantId _ _ =>
    lockoutIdentifier D.env tenantId (D.env.normalizeEmail email) = identifier &&
      match e.ev with
      | ⟨.host (.findByEmail ..), some user⟩ => wrongPassword D.env password tenantId user
      | _ => false
  | _ => false

/-- From the first failure that is counted in it on, the counter stands: nothing resets it and its window does not
end. -/
def Unbroken (identifier : String) (seg : List Event) : Prop :=
  ∀ s₁ c s₂, seg = s₁ ++ c :: s₂ → counts identifier c = true → ∀ x ∈ s₂, has x.pre.lf x.pre.now identifier = true

/-- Whether handler `tid` serves a login against this counter. -/
def attempts (D : Deployment) (identifier : String) (tid : ℕ) : Bool :=
  match D.flows tid with
  | .login email _ tenantId _ _ => lockoutIdentifier D.env tenantId (D.env.normalizeEmail email) = identifier
  | _ => false

/-- Between two comparisons the failure of the one is counted, and after that the counter is checked for the other. -/
def Serialized (D : Deployment) (identifier : String) (seg : List Event) : Prop :=
  ∀ l₁ a l₂ b l₃, seg = l₁ ++ a :: l₂ ++ b :: l₃ → compared D identifier a = true → compared D identifier b = true →
    precedes (fun c => c.tid = a.tid && counts identifier c) (fun k => k.tid = b.tid && checks identifier k) l₂ = true

/-- So the comparisons that come before one have been counted. -/
theorem Serialized.compared_le {D : Deployment} {seg p q : List Event} {b : Event} (h : Serialized D identifier seg)
    (hseg : seg = p ++ b :: q) (hb : compared D identifier b = true) :
    p.countP (compared D identifier) ≤ p.countP (counts identifier) := by
  induction hn : p.length using Nat.strong_induction_on generalizing p b q with
  | _ n ih =>
    rcases none_or_last (compared D identifier) p with hnone | ⟨p₁, a, l₂, rfl, ha, hnone⟩
    · rw [countP_eq_zero.mpr (by simpa using hnone)]
      exact Nat.zero_le _
    · have hle := ih p₁.length (by simp [← hn]) (p := p₁) (b := a) (q := l₂ ++ b :: q) (by rw [hseg]; simp) ha rfl
      obtain ⟨m, k, m', hl₂, -, c, hc, hcount⟩ := precedes_iff.mp (h p₁ a l₂ b q hseg ha hb)
      have hpos : 0 < l₂.countP (counts identifier) :=
        countP_pos_iff.mpr ⟨c, by simp [hl₂, hc], (and_eq_true _ _ ▸ hcount).2⟩
      have hzero : l₂.countP (compared D identifier) = 0 := countP_eq_zero.mpr (by simpa using hnone)
      rw [countP_append, countP_append, countP_cons, countP_cons, hzero, if_pos ha]
      omega

namespace Deployment

variable {D : Deployment} {cfg : Snapshot} {identifier : String} {l l₀ l₁ l₂ seg s₁ s₂ : List Event} {e x : Event}

namespace Reaches

variable (h : D.Reaches cfg)
include h

/-- Until the next entry the counter is what the last one has made of it. -/
theorem counterStep (hl : cfg.log = l ++ [e]) (identifier : String) :
    CounterStep identifier e (cfg.st.lf identifier) := by
  refine h.since (fun st l => l = [] → CounterStep identifier e (st.lf identifier)) hl ?_ ?_ (fun _ _ _ ih => ih) rfl
  · exact fun _ _ _ hm _ => counterStep_of_moment hm identifier
  · intro c d x l _ _ _ _ hnil
    simp at hnil

/-- In an unbroken part of a history the counter is at least the number of failures counted in it. -/
theorem counted_le (hl : cfg.log = l₀ ++ seg ++ l₂) (hu : Unbroken identifier seg)
    (hseg : seg = s₁ ++ x :: s₂) : s₁.countP (counts identifier) ≤ failures identifier x.pre := by
  induction s₁ using List.reverseRecOn generalizing x s₂ with
  | nil => exact Nat.zero_le _
  | append_singleton s y ih =>
    have hy : seg = s ++ y :: (x :: s₂) := by rw [hseg, append_assoc, singleton_append]
    have hle := ih hy
    have hx : cfg.log = (l₀ ++ s ++ [y]) ++ x :: (s₂ ++ l₂) := by
      rw [hl, hseg]
      simp
    obtain ⟨c, d, hc, hm, -⟩ := h.at_entry hx
    have hstep := hc.counterStep hm.log₁ identifier
    have hnow : y.pre.now ≤ x.pre.now := hm.st₁ ▸ hc.pre_now_le (by rw [hm.log₁]; simp)
    rw [hm.st₁] at hstep
    -- Once a failure has been counted, `x` finds the counter.
    have hstands : 0 < s.countP (counts identifier) → has x.pre.lf x.pre.now identifier = true := by
      intro hpos
      obtain ⟨z, hz, hcount⟩ := countP_pos_iff.mp hpos
      obtain ⟨z₁, z₂, rfl⟩ := append_of_mem hz
      exact hu z₁ z (z₂ ++ y :: x :: s₂) (by rw [hy]; simp) hcount x (by simp)
    rw [countP_append, countP_singleton]
    cases hstep with
    | counted window isCount next =>
      have hcount : counts identifier y = true := by simp [counts, isCount]
      obtain ⟨cell, hcell, -, hval⟩ := failures_of_has (hu s y _ hy hcount x mem_cons_self)
      rw [hcell, Option.some.injEq] at next
      rw [hval, next, if_pos hcount]
      exact Nat.succ_le_succ hle
    | reset isReset gone =>
      rw [if_neg (by simp [not_counts_of_resets isReset]), Nat.add_zero]
      by_contra hlt
      obtain ⟨cell, hcell, -⟩ := has_iff.mp (hstands (by omega))
      rw [gone] at hcell
      cases hcell
    | kept notCount same =>
      rw [if_neg (by simp [notCount]), Nat.add_zero]
      rcases Nat.eq_zero_or_pos (s.countP (counts identifier)) with hzero | hpos
      · omega
      · obtain ⟨cell, hcell, hlive, hval⟩ := failures_of_has (hstands hpos)
        have hread : failures identifier y.pre = cell.val := by
          rw [failures, get_eq_some.mpr ⟨cell, same ▸ hcell, Cell.live_of_le hlive hnow, rfl⟩, getD_some]
        rw [hval, ← hread]
        exact hle

/-- A comparison comes after its handler's check, which found the counter below the threshold. -/
theorem checked (hl : cfg.log = l₁ ++ e :: l₂) (he : compared D identifier e = true) :
    0 < D.env.config.maxAttempts ∧ ∀ k ∈ l₁, k.tid = e.tid → checks identifier k = true →
      failures identifier k.pre < D.env.config.maxAttempts := by
  unfold compared at he
  split at he
  · next email password tenantId ip userAgent hflow =>
    rw [and_eq_true, decide_eq_true_eq] at he
    obtain ⟨rfl, he⟩ := he
    split at he
    · next email' tenantId' user hev =>
      obtain ⟨tid, pre, op, res⟩ := e
      cases hev
      obtain ⟨cont, hpath⟩ := reach_path_at h hl
      rw [hflow] at hpath
      obtain ⟨cont', hpath'⟩ := Path.of_map (f := Answer.login) hpath
      obtain ⟨n, accepts, htrace, hn⟩ := Wp.issues (login_guesses email password tenantId ip userAgent) hpath'
      refine ⟨by omega, fun k hk htid hcheck => ?_⟩
      have hmem : k.ev ∈ localTrace tid l₁ := mem_localTrace.mpr ⟨k, hk, htid, rfl⟩
      obtain ⟨ktid, kpre, kop, kres⟩ := k
      rw [htrace, mem_cons, mem_singleton] at hmem
      rcases hmem with hev | hev
      · cases hev
        obtain ⟨k₁, k₂, rfl⟩ := append_of_mem hk
        rw [append_assoc, cons_append] at hl
        obtain ⟨c, d, -, hm, -⟩ := h.at_entry hl
        have hread : get kpre.lf kpre.now _ = kres := congrArg Prod.fst (moment_account hm)
        rw [failures, hread]
        exact hn
      · cases hev
        cases hcheck
    · cases he
  · cases he

/-- The window a first failure opens stays as it is, whatever failures are counted in it. -/
theorem window_fixed {window : ℕ} (hl : cfg.log = l₁ ++ e :: l₂)
    (hop : e.op = .account (.incrLf identifier window)) (he : opensWindow identifier e = true)
    (hreset : ∀ x ∈ l₂, resets identifier x = false)
    (hin : ∀ x ∈ l₂, counts identifier x = true → x.pre.now < e.pre.now + window) :
    cfg.st.lf identifier = some ⟨l₂.countP (counts identifier) + 1, some (e.pre.now + window)⟩ := by
  refine h.since (fun st l => (∀ x ∈ l, resets identifier x = false) →
    (∀ x ∈ l, counts identifier x = true → x.pre.now < e.pre.now + window) →
    st.lf identifier = some ⟨l.countP (counts identifier) + 1, some (e.pre.now + window)⟩) hl ?_ ?_
    (fun _ _ _ ih => ih) hreset hin
  · intro c d _ hm _ _
    obtain ⟨tid, pre, op, res⟩ := e
    cases hop
    have hres : res = 1 := (by simpa [opensWindow, Entry.ev] using he)
    have hreply : (incr pre.lf pre.now identifier).1 = 1 := hres ▸ congrArg Prod.fst (moment_account hm)
    rw [(incr_self pre.lf pre.now identifier).1] at hreply
    have hfirst : failures identifier pre = 0 := Nat.succ.inj hreply
    cases counterStep_of_moment hm identifier with
    | counted window' isCount next =>
      cases isCount
      rw [next, hfirst, if_pos rfl]
      rfl
    | reset isReset => cases isReset
    | kept notCount => simp [counts] at notCount
  · intro c d x l _ _ ih hm hreset hin
    have hcell := ih (fun y hy => hreset y (by simp [hy])) fun y hy => hin y (by simp [hy])
    rw [hm.st₁] at hcell
    rw [countP_append, countP_singleton]
    cases counterStep_of_moment hm identifier with
    | counted window' isCount next =>
      have hcount : counts identifier x = true := by simp [counts, isCount]
      have hlive : (Cell.mk (l.countP (counts identifier) + 1) (some (e.pre.now + window))).live x.pre.now = true :=
        live_some.mpr (hin x (by simp) hcount)
      have hfind := find_eq_some.mpr ⟨hcell, hlive⟩
      have hread : failures identifier x.pre = l.countP (counts identifier) + 1 := by
        rw [failures, get_eq_some.mpr ⟨_, hcell, hlive, rfl⟩, getD_some]
      rw [next, hread, hfind, if_neg (Nat.succ_ne_zero _), if_pos hcount]
      rfl
    | reset isReset =>
      rw [hreset x (by simp)] at isReset
      cases isReset
    | kept notCount same =>
      rw [same, hcell, if_neg (by simp [notCount]), Nat.add_zero]

theorem window_eq (hl : cfg.log = l₁ ++ e :: l₂)
    (ha : attempts D identifier e.tid = true) (he : opensWindow identifier e = true) :
    e.op = .account (.incrLf identifier D.env.config.lockoutWindow) := by
  unfold attempts at ha
  split at ha
  · next email password tenantId ip userAgent hflow =>
    obtain ⟨cont, hpath⟩ := reach_path_at h hl
    rw [hflow] at hpath
    obtain ⟨cont', hpath'⟩ := Path.of_map (f := Answer.login) hpath
    have hguess := Wp.issues (login_guesses email password tenantId ip userAgent) hpath'
    obtain ⟨tid, pre, op, res⟩ := e
    unfold opensWindow at he
    split at he
    · next i window n hev =>
      cases hev
      rw [and_eq_true, decide_eq_true_eq] at he
      rw [he.1, show window = D.env.config.lockoutWindow from hguess]
    · cases he
  · cases ha

/-- What an unbroken and serialized part compares before a comparison is less than the budget. -/
theorem compared_lt (hl : cfg.log = l₀ ++ seg ++ l₂) (hu : Unbroken identifier seg)
    (hs : Serialized D identifier seg) (hseg : seg = s₁ ++ x :: s₂) (hx : compared D identifier x = true) :
    s₁.countP (compared D identifier) < D.env.config.maxAttempts := by
  have hlx : cfg.log = (l₀ ++ s₁) ++ x :: (s₂ ++ l₂) := by
    rw [hl, hseg]
    simp
  obtain ⟨hpos, hchecked⟩ := h.checked hlx hx
  rcases none_or_last (compared D identifier) s₁ with hnone | ⟨t₁, a, l, rfl, ha, hnone⟩
  · rw [countP_eq_zero.mpr (by simpa using hnone)]
    exact hpos
  · obtain ⟨m, k, m', rfl, hk, c, hc, hcount⟩ := precedes_iff.mp (hs t₁ a l x s₂ hseg ha hx)
    rw [and_eq_true, decide_eq_true_eq] at hk
    have hbelow := hchecked k (by simp) hk.1 hk.2
    have hk' : seg = (t₁ ++ a :: m) ++ k :: (m' ++ x :: s₂) := by
      rw [hseg]
      simp
    have hcounted := h.counted_le hl hu hk'
    have hle := hs.compared_le (p := t₁) (b := a) (q := m ++ k :: m' ++ x :: s₂) (by rw [hseg]; simp) ha
    have hmark : 0 < m.countP (counts identifier) :=
      countP_pos_iff.mpr ⟨c, hc, (and_eq_true _ _ ▸ hcount).2⟩
    have hzero : (m ++ k :: m').countP (compared D identifier) = 0 := countP_eq_zero.mpr (by simpa using hnone)
    rw [countP_append, countP_cons] at hcounted
    rw [countP_append, countP_cons, hzero, if_pos ha]
    omega

end Reaches

end Deployment

/-- **The guess budget.** In every run: a part of the history in which the counter stands from its first failure on
compares at most `max_attempts` wrong passwords, if between two comparisons the first is counted and then the counter
is checked again for the second. And the window a login opens ends `window` seconds later, whatever failures are
counted in it. -/
theorem guesses_within_budget {D : Deployment} {cfg : Snapshot} (h : D.Reaches cfg) (identifier : String) :
    (∀ l₁ seg l₂, cfg.log = l₁ ++ seg ++ l₂ → Unbroken identifier seg → Serialized D identifier seg →
      seg.countP (compared D identifier) ≤ D.env.config.maxAttempts) ∧
    (∀ l₁ e l₂, cfg.log = l₁ ++ e :: l₂ → attempts D identifier e.tid = true → opensWindow identifier e = true →
      (∀ x ∈ l₂, resets identifier x = false) →
      (∀ x ∈ l₂, counts identifier x = true → x.pre.now < e.pre.now + D.env.config.lockoutWindow) →
      cfg.st.lf identifier =
        some ⟨l₂.countP (counts identifier) + 1, some (e.pre.now + D.env.config.lockoutWindow)⟩) := by
  refine ⟨?_, ?_⟩
  · intro l₁ seg l₂ hl hu hs
    rcases none_or_last (compared D identifier) seg with hnone | ⟨s₁, x, s₂, hseg, hx, hnone⟩
    · rw [countP_eq_zero.mpr (by simpa using hnone)]
      exact Nat.zero_le _
    · have hlt := h.compared_lt hl hu hs hseg hx
      have hzero : s₂.countP (compared D identifier) = 0 := countP_eq_zero.mpr (by simpa using hnone)
      rw [hseg, countP_append, countP_cons, hzero, if_pos hx]
      omega
  · intro l₁ e l₂ hl ha he hreset hin
    exact h.window_fixed hl (h.window_eq hl ha he) he hreset hin

namespace Demo

/-- A login of the account with a wrong password. -/
def guess : Flow := .login "a@example.com" "bad" "t1" "ip" "ua"

/-- The counter of the account's address. -/
def counter : String := lockoutIdentifier env "t1" "a@example.com"

/-- Whether the counter stands from the first failure on. -/
def unbroken (log : List Event) : Bool :=
  everyCut (fun _ c s₂ => !counts counter c || s₂.all fun x => has x.pre.lf x.pre.now counter) [] log

theorem unbroken_of {log : List Event} (h : unbroken log = true) : Unbroken counter log := by
  rintro s₁ c s₂ rfl hc x hx
  have hcut := of_everyCut h
  rw [hc] at hcut
  exact List.all_eq_true.mp hcut x hx

/-- Whether every comparison comes after the one before it was counted and the counter checked again. -/
def serialized (D : Deployment) (log : List Event) : Bool :=
  everyCut (fun s b _ => !compared D counter b || everyCut (fun _ a l₂ => !compared D counter a ||
    precedes (fun c => c.tid = a.tid && counts counter c) (fun k => k.tid = b.tid && checks counter k) l₂) [] s) [] log

theorem serialized_of {D : Deployment} {log : List Event} (h : serialized D log = true) : Serialized D counter log := by
  rintro l₁ a l₂ b l₃ rfl ha hb
  have hcut := of_everyCut h
  rw [hb] at hcut
  have hcut' := of_everyCut (show everyCut _ [] (l₁ ++ a :: l₂) = true from hcut)
  rw [ha] at hcut'
  exact hcut'

end Demo

open Demo

/-- Two attempts, one after the other: both are compared, and the counter stands at two until the end of the window
the first has opened. -/
theorem guesses_within_budget_twice :
    let D := deployment [guess, guess]
    ∃ cfg, D.Reaches cfg ∧ cfg.log.countP (compared D counter) = 2 ∧
      cfg.log.countP (compared D counter) ≤ D.env.config.maxAttempts ∧
      ∃ l₁ e l₂, cfg.log = l₁ ++ e :: l₂ ∧ cfg.st.lf counter =
        some ⟨l₂.countP (counts counter) + 1, some (e.pre.now + D.env.config.lockoutWindow)⟩ := by
  intro D
  refine exists_reaches (acts 0 4 "" [] ++ acts 1 4 "" [])
    (fun cfg => unbroken cfg.log ∧ serialized D cfg.log ∧ cfg.log.countP (compared D counter) = 2 ∧
      cutAt 3 (fun _ e l₂ => attempts D counter e.tid && opensWindow counter e &&
        l₂.all fun x => !resets counter x && decide (x.pre.now < e.pre.now + 900)) cfg.log)
    (by decide +kernel) fun cfg h ⟨hu, hs, hcount, hcut⟩ => ?_
  obtain ⟨l₁, e, l₂, hl, hopens⟩ := exists_of_cutAt hcut
  simp only [and_eq_true, List.all_eq_true, not_eq_true', decide_eq_true_eq] at hopens
  have hbudget := guesses_within_budget h counter
  refine ⟨hcount, ?_, l₁, e, l₂, hl, ?_⟩
  · exact hbudget.1 [] cfg.log [] (by simp) (unbroken_of hu) (serialized_of hs)
  · exact hbudget.2 l₁ e l₂ hl hopens.1.1 hopens.1.2 (fun x hx => (hopens.2 x hx).1) fun x hx _ => (hopens.2 x hx).2

/-- Six attempts check the counter before any of them has counted its failure: all six are compared, with a budget of
five, while nothing resets the counter and its window does not end. -/
theorem guesses_over_budget :
    let D := deployment (List.replicate 6 guess)
    ∃ cfg, D.Reaches cfg ∧ (∀ e ∈ cfg.log, resets counter e = false) ∧ Unbroken counter cfg.log ∧
      D.env.config.maxAttempts = 5 ∧ cfg.log.countP (compared D counter) = 6 := by
  intro D
  exact exists_reaches (((List.range 6).map fun tid => acts tid 3 "" []).flatten ++
      ((List.range 6).map fun tid => acts tid 1 "" []).flatten)
    (fun cfg => unbroken cfg.log ∧ (∀ e ∈ cfg.log, resets counter e = false) ∧
      cfg.log.countP (compared D counter) = 6) (by decide +kernel)
    fun cfg h ⟨hu, hresets, hsix⟩ => ⟨hresets, unbroken_of hu, rfl, hsix⟩

end BymaxAuth
