import BymaxAuth.SingleUse.Recovery.Binding

/-!
# Hash upgrades beside password changes

A login that finds the stored hash below the configured parameters schedules `run_rehash_password`
(`services/auth/detached.rs`): a detached task that derives a new hash of the password the login has just
verified, looks the account up again, and writes the new hash if the stored one is still the one that was
verified. The lookup and the write are two steps, and a reset or a change of the password may write between
them: then the task puts the old password back.

## The model

A `Workload` runs any number of such tasks beside any number of calls of the recovery flows. A task carries a
password and the hash that password has verified (`Workload.Verified`). The repository is the one of `Passwords`:
a lookup shows the hash that was written last. A derived hash verifies the password it was derived from, and
no other (`Kdf`).
-/

namespace BymaxAuth.SingleUse.Recovery

open Redis Concurrency List Option

/-! ### The task -/

/-- `run_rehash_password` -/
def runRehashPassword (password tenantId userId verifiedHash : String) : Act Unit := do
  let newHash ← host (.hashPassword password)
  let current ← host (.findById userId (some tenantId))
  if current.bind (·.passwordHash) ≠ some verifiedHash then pure ()
  else host (.updatePassword userId tenantId newHash)

/-- What runs. -/
inductive Task where
  /-- A call of the recovery flows. -/
  | flow (call : Call)
  /-- The upgrade a login has scheduled, which verified this password against this hash. -/
  | rehash (password tenantId userId verifiedHash : String)

/-- The handler of a task. -/
def Task.act (env : Env) : Task → Act Answer
  | flow call => call.act env
  | rehash password tenantId userId verifiedHash => do
    runRehashPassword password tenantId userId verifiedHash
    return .done

/-- A deployment, and what runs on it. -/
structure Workload where
  /-- The surroundings. -/
  env : Env
  /-- The second at which it starts. -/
  now : ℕ
  /-- The accounts it starts with. -/
  users : List AuthUser
  /-- The calls and the upgrades. -/
  tasks : ℕ → Task

/-- The password a call is to set. -/
def Call.newPassword : Call → Option String
  | resetPassword _ _ newPassword .. => some newPassword
  | changePassword _ _ _ newPassword _ => some newPassword
  | _ => none

/-- The password an exchange derived a hash of, and the hash. -/
def derivation (ev : Exchange) : Option (String × String) :=
  match ev with
  | ⟨.inl (.host (.hashPassword password)), phc⟩ => some (password, phc)
  | _ => none

/-- A derived hash verifies the password it was derived from, and no other. -/
def Kdf (env : Env) (log : List Event) : Prop :=
  ∀ e ∈ log, ∀ d ∈ derivation e.ev, ∀ password, env.verifyPassword password d.2 = true ↔ password = d.1

namespace Workload

/-- Nothing was stored, nothing has run. -/
def start (W : Workload) : Snapshot :=
  Concurrency.start (Store.initial W.now W.users, ProofKeys.empty) fun tid => ((W.tasks tid).act W.env).run

/-- A run can come to this moment. -/
def Reaches (W : Workload) (cfg : Snapshot) : Prop := Reach (machine W.env) W.start cfg

/-- An upgrade was scheduled by a login that verified its password. -/
def Verified (W : Workload) : Prop :=
  ∀ tid password tenantId userId verifiedHash, W.tasks tid = .rehash password tenantId userId verifiedHash →
    W.env.verifyPassword password verifiedHash = true

variable (W : Workload) (userId tenantId : String)

/-- The password a reset or a change set for this account by this entry. -/
def setPassword (e : Event) : Option String :=
  match W.tasks e.tid with
  | .flow call => if (written userId tenantId e).isSome then call.newPassword else none
  | .rehash .. => none

/-- The entry is the write of an upgrade for this account. -/
def upgrades (e : Event) : Bool :=
  match W.tasks e.tid with
  | .flow _ => false
  | .rehash .. => (written userId tenantId e).isSome

/-- No reset or change of this account writes between the lookup of an upgrade and its write. -/
def Undisturbed (log : List Event) : Prop :=
  ∀ l₁ w l₂, log = l₁ ++ w :: l₂ → W.upgrades userId tenantId w = true →
    precedes (fun r => r.tid = w.tid && (shows r.ev).isSome) (fun x => (W.setPassword userId tenantId x).isSome)
      l₁ = false

end Workload

/-! ### Which password a hash is of -/

/-- A hash is derived of this password only. -/
def HashesOnly (password : Option String) : Op ⊕ Cmd → Prop
  | .inl (.host (.hashPassword p)) => password = some p
  | _ => True

section HashesOnly

variable {password : Option String}

theorem hashesOnly_of_idle (c : Op ⊕ Cmd) (hc : Idle c) : HashesOnly password c := by
  unfold HashesOnly
  split
  · exact absurd hc id
  · trivial

/-- A call derives hashes of the password it is to set, and of no other. -/
theorem call_hashesOnly (env : Env) (call : Call) : Only (HashesOnly call.newPassword) (call.act env) := by
  cases call with
  | initiateReset email tenantId =>
    exact .bind (only_initiateReset hashesOnly_of_idle (fun _ => trivial) (fun _ _ => trivial)
      (fun _ _ _ _ => trivial) (fun _ => trivial) _ _) fun _ => .pure _
  | resendResetOtp email tenantId =>
    exact .bind (only_resendResetOtp hashesOnly_of_idle (fun _ => trivial) (fun _ _ => trivial) _ _) fun _ =>
      .pure _
  | verifyResetOtp email tenantId otp =>
    exact .bind (only_verifyResetOtp hashesOnly_of_idle (fun _ _ => trivial) (fun _ _ _ _ => trivial) _ _ _)
      fun _ => .pure _
  | resetPassword email tenantId newPassword token otp verifiedToken =>
    exact .bind (only_resetPassword hashesOnly_of_idle (fun _ _ => trivial) (fun _ _ => trivial) rfl
      (fun _ _ _ => trivial) _ _ _ _ _) fun _ => .pure _
  | changePassword tenantId userId currentPassword newPassword currentRefresh =>
    exact .bind (only_changePassword hashesOnly_of_idle rfl (fun _ _ _ => trivial) _ _ _ _) fun _ => .pure _
  | requestEmailChange tenantId userId newEmail currentPassword =>
    exact .bind (only_requestEmailChange hashesOnly_of_idle (fun _ _ _ => trivial) _ _ _ _) fun _ => .pure _
  | confirmEmailChange token =>
    exact .bind (only_confirmEmailChange hashesOnly_of_idle (fun _ => trivial) (fun _ _ _ => trivial) _) fun _ =>
      .pure _

end HashesOnly

theorem derivation_of_derives {ev : Exchange} {phc : String} (h : derives ev = some phc) :
    ∃ password, ev = ⟨.inl (.host (.hashPassword password)), phc⟩ := by
  unfold derives at h
  split at h
  · next password phc' =>
    cases h
    exact ⟨password, rfl⟩
  · cases h

/-- What an upgrade has done when it writes: it has derived the hash, and looked the account up. -/
theorem rehash_issued {password tenantId userId verifiedHash id tenant hash : String} {tr : Trace}
    {k : Unit → Prog Reply (Except AuthError Unit)}
    (h : Path (runRehashPassword password tenantId userId verifiedHash).run tr
      (.op (.inl (.host (.updatePassword id tenant hash))) k)) :
    id = userId ∧ tenant = tenantId ∧ ∃ u : AuthUser, u.passwordHash = some verifiedHash ∧
      tr = [⟨.inl (.host (.hashPassword password)), hash⟩,
        ⟨.inl (.host (.findById userId (some tenantId))), some u⟩] := by
  obtain ⟨newHash, tr₁, rfl, h₁⟩ := Path.stepped h (by simp)
  obtain ⟨current, tr₂, rfl, h₂⟩ := Path.stepped h₁ (by simp)
  split at h₂
  · cases h₂
  · next hsame =>
    obtain ⟨u, rfl, hu⟩ := bind_eq_some_iff.mp (not_not.mp hsame)
    cases h₂ with
    | nil => exact ⟨rfl, rfl, u, hu, rfl⟩
    | cons h₃ => cases h₃

/-! ### Along a run -/

open Workload

section Runs

variable {W : Workload} {cfg : Snapshot} {userId tenantId : String} {initial : String → String → Option String}
  {e : Event} {phc password : String} {tenant id verifiedHash : String}

/-- What a call writes is a hash it has derived of the password it is to set. -/
theorem Workload.Reaches.derived_of_call (h : W.Reaches cfg) {l₁ l₂ : List Event} (hl : cfg.log = l₁ ++ e :: l₂)
    {call : Call} (htask : W.tasks e.tid = .flow call) (hw : written userId tenantId e = some phc) :
    ∃ password, call.newPassword = some password ∧ ∃ x ∈ l₁, derivation x.ev = some (password, phc) := by
  obtain ⟨k, hpath⟩ := reach_path_at h hl
  rw [htask] at hpath
  have hobeys : Obeys W.env (call.presents W.env) (localTrace e.tid l₁) e.op :=
    Wp.issues (call_obeys W.env call) hpath
  rw [op_of_written hw] at hobeys
  obtain ⟨ev, hev, hphc⟩ := mem_of_pending _ _ hobeys.1
  obtain ⟨password, rfl⟩ := derivation_of_derives hphc
  obtain ⟨x, hx, -, hxev⟩ := mem_localTrace.mp hev
  exact ⟨password, (call_hashesOnly W.env call).of_path hpath _ hev, x, hx, by rw [hxev]; rfl⟩

/-- What an upgrade writes is a hash of its password, and after its lookup found the hash that was verified. -/
theorem Workload.Reaches.looked_up (h : W.Reaches cfg) {l₁ l₂ : List Event} (hl : cfg.log = l₁ ++ e :: l₂)
    (htask : W.tasks e.tid = .rehash password tenant id verifiedHash)
    (hw : written userId tenantId e = some phc) :
    (∃ x ∈ l₁, derivation x.ev = some (password, phc)) ∧ ∃ a r b, l₁ = a ++ r :: b ∧ r.tid = e.tid ∧
      ∃ u, shows r.ev = some u ∧ u.id = userId ∧ u.tenantId = tenantId ∧ u.passwordHash = some verifiedHash := by
  obtain ⟨k, hpath⟩ := reach_path_at h hl
  obtain ⟨tid, pre, op, reply⟩ := e
  have hop : op = .inl (.host (.updatePassword userId tenantId phc)) := op_of_written hw
  subst hop
  rw [htask] at hpath
  obtain ⟨k', hpath⟩ := Path.of_map (f := fun _ => Answer.done) hpath
  obtain ⟨rfl, rfl, u, hu, htr⟩ := rehash_issued hpath
  constructor
  · obtain ⟨x, hx, -, hxev⟩ := mem_localTrace.mp (htr ▸ mem_cons_self)
    exact ⟨x, hx, by rw [hxev]; rfl⟩
  · have hsplit : localTrace tid l₁ = [⟨.inl (.host (.hashPassword password)), phc⟩] ++
        ⟨.inl (.host (.findById userId (some tenantId))), some u⟩ :: [] := htr
    obtain ⟨a, r, b, rfl, hr, hrev, -, -⟩ := localTrace_split hsplit
    rw [append_assoc, cons_append] at hl
    obtain ⟨c, d, -, hm, -⟩ := Reach.at_entry h hl
    obtain ⟨hid, htenant⟩ := found_of_moment hm hrev
    exact ⟨a, r, b, rfl, hr, u, by rw [hrev]; rfl, hid, htenant, hu⟩

variable {l₁ l₂ : List Event} {w : Event}

theorem Workload.written_of_setPassword (h : W.setPassword userId tenantId w = some password) :
    ∃ call phc, W.tasks w.tid = .flow call ∧ call.newPassword = some password ∧
      written userId tenantId w = some phc := by
  unfold setPassword at h
  split at h
  · next call htask =>
    split_ifs at h with hw
    obtain ⟨phc, hphc⟩ := isSome_iff_exists.mp hw
    exact ⟨call, phc, htask, h, hphc⟩
  · cases h

/-- What writes the account's password and is no reset or change is an upgrade. -/
theorem Workload.Reaches.rehash_of_written (h : W.Reaches cfg) (hl : cfg.log = l₁ ++ w :: l₂)
    (hw : written userId tenantId w = some phc) (hset : W.setPassword userId tenantId w = none) :
    W.upgrades userId tenantId w = true ∧
      ∃ password tenant id verifiedHash, W.tasks w.tid = .rehash password tenant id verifiedHash := by
  cases htask : W.tasks w.tid with
  | flow call =>
    obtain ⟨password, hnew, -⟩ := h.derived_of_call hl htask hw
    simp [setPassword, htask, hw, hnew] at hset
  | rehash password tenant id verifiedHash =>
    exact ⟨by simp [upgrades, htask, hw], password, tenant, id, verifiedHash, rfl⟩

theorem lastWritten_snoc_of_some {l : List Event} (h : written userId tenantId e = some phc) :
    lastWritten userId tenantId (l ++ [e]) = some phc := by
  simp [lastWritten, h]

theorem lastWritten_snoc_of_none {l : List Event} (h : written userId tenantId e = none) :
    lastWritten userId tenantId (l ++ [e]) = lastWritten userId tenantId l := by
  simp [lastWritten, h]

/-- As long as no upgrade is disturbed, the hash written last is one of the password that was set last. -/
theorem Workload.Reaches.derived (h : W.Reaches cfg) (hpw : Passwords initial cfg.log) (hkdf : Kdf W.env cfg.log)
    (hverified : W.Verified) (hund : W.Undisturbed userId tenantId cfg.log) {m m' : List Event}
    (hlog : cfg.log = l₁ ++ w :: (m ++ m')) (hset : W.setPassword userId tenantId w = some password)
    (hm : ∀ x ∈ m, W.setPassword userId tenantId x = none) :
    ∃ phc, lastWritten userId tenantId (l₁ ++ w :: m) = some phc ∧
      ∃ e ∈ cfg.log, derivation e.ev = some (password, phc) := by
  induction hn : m.length using Nat.strong_induction_on generalizing m m' with
  | _ n ih =>
    have hgrow : ∀ {l l' : List Event}, cfg.log = l ++ l' → ∀ {x}, x ∈ l → x ∈ cfg.log :=
      fun hcut x hx => hcut ▸ mem_append_left _ hx
    rcases eq_nil_or_concat m with rfl | ⟨m, x, rfl⟩
    · -- Nothing has come since the password was set.
      obtain ⟨call, phc, htask, hnew, hw⟩ := written_of_setPassword hset
      obtain ⟨password', hnew', e, he, hd⟩ := h.derived_of_call hlog htask hw
      rw [hnew, Option.some.injEq] at hnew'
      subst hnew'
      exact ⟨phc, lastWritten_snoc_of_some hw, e, hgrow hlog he, hd⟩
    · rw [concat_eq_append] at hm hlog hn ⊢
      rw [length_append, length_singleton] at hn
      have hm' : ∀ x ∈ m, W.setPassword userId tenantId x = none := fun y hy => hm y (mem_append_left _ hy)
      have hcut : cfg.log = (l₁ ++ w :: m) ++ x :: m' := by rw [hlog]; simp
      rw [show l₁ ++ w :: (m ++ [x]) = (l₁ ++ w :: m) ++ [x] by simp]
      cases hw : written userId tenantId x with
      | none =>
        rw [lastWritten_snoc_of_none hw]
        have hlog' : cfg.log = l₁ ++ w :: (m ++ x :: m') := by rw [hlog]; simp
        exact ih m.length (by omega) hlog' hm' rfl
      | some phc =>
        -- An upgrade. Its lookup came after the password was set, and showed a hash of it.
        obtain ⟨hup, password', tenant, id, verifiedHash, htask⟩ :=
          h.rehash_of_written hcut hw (hm x (mem_append_right _ (mem_singleton_self x)))
        obtain ⟨⟨e, he, hd⟩, a, r, b, hab, hr, u, hu, rfl, rfl, hphc⟩ := h.looked_up hcut htask hw
        have hwr : w ≠ r := by
          rintro rfl
          obtain ⟨_, phc', -, -, hw'⟩ := written_of_setPassword hset
          obtain ⟨_, _, op, _⟩ := w
          cases (show op = _ from op_of_written hw')
          cases hu
        refine ⟨phc, lastWritten_snoc_of_some hw, e, hgrow hcut he, ?_⟩
        rcases append_eq_append_iff.mp hab with ⟨s, rfl, hs⟩ | ⟨s, rfl, hs⟩ <;>
          rcases s with - | ⟨y, s⟩ <;> cases hs
        · exact absurd rfl hwr
        · have hlog' : cfg.log = l₁ ++ w :: (s ++ r :: (b ++ x :: m')) := by rw [hlog]; simp
          have hread : cfg.log = (l₁ ++ w :: s) ++ r :: (b ++ x :: m') := by rw [hlog']; simp
          have hn : (s ++ r :: b).length + 1 = n := hn
          rw [length_append, length_cons] at hn
          obtain ⟨phc₀, hlast, e₀, he₀, hd₀⟩ := ih s.length (by omega) hlog'
            (fun y hy => hm' y (mem_append_left _ hy)) rfl
          have hshown := hpw.shown hread hu
          rw [hlast, some_or, hphc, Option.some.injEq] at hshown
          subst hshown
          have hsame : password' = password :=
            (hkdf e₀ he₀ _ hd₀ password').mp (hverified _ _ _ _ _ htask)
          rw [hd, hsame]
        · exact absurd rfl hwr
        · -- The lookup came before the password was set.
          have hdisturbed := hund _ _ _ hcut hup
          rw [Bool.eq_false_iff] at hdisturbed
          refine absurd (precedes_iff.mpr ⟨a ++ r :: s, w, m, rfl, ?_, r, ?_, ?_⟩) hdisturbed
          · rw [hset]
            rfl
          · exact mem_append_right _ mem_cons_self
          · simp [hr, hu]

/-- An upgrade replaces the hash its login verified, or one that another upgrade has written since. -/
theorem Workload.Reaches.replaced (h : W.Reaches cfg) (hpw : Passwords initial cfg.log)
    (hund : W.Undisturbed userId tenantId cfg.log) (hlog : cfg.log = l₁ ++ w :: l₂)
    (hup : W.upgrades userId tenantId w = true)
    (htask : W.tasks w.tid = .rehash password tenant id verifiedHash) :
    (lastWritten userId tenantId l₁).or (initial userId tenantId) = some verifiedHash ∨
      ∃ x ∈ l₁, W.upgrades userId tenantId x = true ∧ lastWritten userId tenantId l₁ = written userId tenantId x := by
  have hw : (written userId tenantId w).isSome = true := by simpa [upgrades, htask] using hup
  obtain ⟨phc, hw⟩ := isSome_iff_exists.mp hw
  obtain ⟨-, a, r, b, rfl, hr, u, hu, rfl, rfl, hphc⟩ := h.looked_up hlog htask hw
  have hread : cfg.log = a ++ r :: (b ++ w :: l₂) := by rw [hlog]; simp
  have hshown := hpw.shown hread hu
  have hnone : written u.id u.tenantId r = none := by
    obtain ⟨_, _, op, _⟩ := r
    unfold written
    split
    · next heq =>
      cases heq
      cases hu
    · rfl
  rw [show a ++ r :: b = a ++ [r] ++ b by simp, lastWritten_append, lastWritten_snoc_of_none hnone]
  cases hb : lastWritten u.id u.tenantId b with
  | none =>
    left
    rw [none_or, ← hshown, hphc]
  | some phc' =>
    -- Something has written since the lookup, and it was no reset and no change.
    right
    obtain ⟨x, hx, hxw⟩ := exists_of_findSome?_eq_some hb
    have hx : x ∈ b := mem_reverse.mp hx
    obtain ⟨b₁, b₂, rfl⟩ := append_of_mem hx
    have hset : W.setPassword u.id u.tenantId x = none := by
      by_contra hset
      have hdisturbed := hund _ _ _ hlog hup
      rw [Bool.eq_false_iff] at hdisturbed
      refine hdisturbed (precedes_iff.mpr ⟨a ++ r :: b₁, x, b₂, by simp, ?_, r, ?_, ?_⟩)
      · exact isSome_iff_ne_none.mpr hset
      · exact mem_append_right _ mem_cons_self
      · simp [hr, hu]
    have hcut : cfg.log = (a ++ r :: b₁) ++ x :: (b₂ ++ w :: l₂) := by rw [hlog]; simp
    refine ⟨x, by simp, (h.rehash_of_written hcut hxw hset).1, ?_⟩
    rw [some_or, hxw]

/-- A hash upgrade undoes no password change, in a run in which no reset or change of the account writes
between an upgrade's lookup and its write: the hash written last verifies the password that was set last, and
an upgrade replaces only the hash its login verified, or another upgrade. -/
theorem rehash_keeps_last_password (h : W.Reaches cfg) (hpw : Passwords initial cfg.log)
    (hkdf : Kdf W.env cfg.log) (hverified : W.Verified) (hund : W.Undisturbed userId tenantId cfg.log) :
    (∀ l₁ w l₂ password, cfg.log = l₁ ++ w :: l₂ → W.setPassword userId tenantId w = some password →
      (∀ x ∈ l₂, W.setPassword userId tenantId x = none) →
      ∃ phc, lastWritten userId tenantId cfg.log = some phc ∧ W.env.verifyPassword password phc = true) ∧
    ∀ l₁ w l₂ password tenant id verifiedHash, cfg.log = l₁ ++ w :: l₂ →
      W.upgrades userId tenantId w = true → W.tasks w.tid = .rehash password tenant id verifiedHash →
      (lastWritten userId tenantId l₁).or (initial userId tenantId) = some verifiedHash ∨
        ∃ x ∈ l₁, W.upgrades userId tenantId x = true ∧
          lastWritten userId tenantId l₁ = written userId tenantId x := by
  constructor
  · intro l₁ w l₂ password hlog hset hlater
    rw [← append_nil l₂] at hlog
    obtain ⟨phc, hlast, e, he, hd⟩ := h.derived hpw hkdf hverified hund hlog hset hlater
    rw [append_nil] at hlog
    rw [← hlog] at hlast
    exact ⟨phc, hlast, (hkdf e he _ hd password).mpr rfl⟩
  · intro l₁ w l₂ password tenant id verifiedHash hlog hup htask
    exact h.replaced hpw hund hlog hup htask

end Runs

/-! ### Runs of two tasks -/

/-- A schedule that can be executed to a moment with the property `p` is a run to such a moment. -/
theorem Workload.exists_reaches {W : Workload} {P : Snapshot → Prop} (moves : List (Move Input))
    (p : Snapshot → Prop) [DecidablePred p]
    (h : (run (machine W.env) W.start moves).any (fun cfg => p cfg) = true)
    (hP : ∀ cfg, W.Reaches cfg → p cfg → P cfg) : ∃ cfg, W.Reaches cfg ∧ P cfg :=
  exists_reach h hP

namespace Demo

/-- A hash shows its password, up to the salt. -/
def saltedEnv : Env :=
  { env .token with verifyPassword := fun password phc => password = String.ofList (phc.toList.takeWhile (· ≠ '#')) }

/-- The account, with a salted hash. -/
def salted : AuthUser := { BymaxAuth.Demo.alice with passwordHash := some "pw#0" }

/-- An upgrade of the account's hash, and a change of its password. -/
def workload : Workload :=
  { env := saltedEnv, now := 0, users := [salted], tasks := fun tid =>
      if tid = 0 then .rehash "pw" "t1" "u1" "pw#0"
      else if tid = 1 then .flow (.changePassword "t1" "u1" "pw" "next" none) else .flow (.initiateReset "" "") }

theorem workload_verified : workload.Verified := by
  intro tid password tenantId userId verifiedHash htask
  simp only [workload] at htask
  split_ifs at htask
  cases htask
  rfl

/-- Each hash of the history shows its password. -/
def isSalted (log : List Event) : Bool :=
  log.all fun e => (derivation e.ev).all fun d => d.1 = String.ofList (d.2.toList.takeWhile (· ≠ '#'))

theorem kdf_of_test {log : List Event} (h : isSalted log = true) : Kdf saltedEnv log := by
  intro e he d hd password
  have hsalted := List.all_eq_true.mp h e he
  rw [hd, all_some, decide_eq_true_eq] at hsalted
  show decide (password = _) = true ↔ _
  rw [decide_eq_true_eq, hsalted]

/-- No reset or change of the account writes between an upgrade's lookup and its write. -/
def isUndisturbed (log : List Event) : Bool :=
  everyCut (fun l₁ w _ => workload.upgrades "u1" "t1" w → precedes (fun r => r.tid = w.tid && (shows r.ev).isSome)
    (fun x => (workload.setPassword "u1" "t1" x).isSome) l₁ = false) [] log

theorem undisturbed_of_test {log : List Event} (h : isUndisturbed log = true) :
    workload.Undisturbed "u1" "t1" log := by
  rintro l₁ w l₂ rfl
  exact of_decide_eq_true (of_everyCut h)

end Demo

open Recovery.Demo

/-- The hash is upgraded, and then the password is changed: the new one is in force. -/
theorem rehash_keeps_last_password_changed : ∃ cfg, workload.Reaches cfg ∧
    ∃ phc, lastWritten "u1" "t1" cfg.log = some phc ∧ saltedEnv.verifyPassword "next" phc = true := by
  refine Workload.exists_reaches (acts 0 3 "" "pw#1" ++ acts 1 8 "" "next#2")
    (fun cfg => Passwords (initial salted) cfg.log ∧ isSalted cfg.log ∧ isUndisturbed cfg.log ∧ cutAt 8 (fun _ w l₂ =>
        decide (workload.setPassword "u1" "t1" w = some "next") &&
        l₂.all fun x => (workload.setPassword "u1" "t1" x).isNone) cfg.log) (by decide +kernel) ?_
  rintro cfg h ⟨hpw, hsalted, hund, hcut⟩
  obtain ⟨l₁, w, l₂, hlog, hcut⟩ := exists_of_cutAt hcut
  simp only [Bool.and_eq_true, decide_eq_true_eq, List.all_eq_true, Option.isNone_iff_eq_none] at hcut
  exact (rehash_keeps_last_password h hpw (kdf_of_test hsalted) workload_verified
    (undisturbed_of_test hund)).1 l₁ w l₂ "next" hlog hcut.1 hcut.2

/-- An upgrade whose lookup comes before a change and whose write comes after it: both end well, the change has
set the password, and the hash written last verifies the old one and not the new. -/
theorem rehash_undoes_change : ∃ cfg, workload.Reaches cfg ∧
    Passwords (initial salted) cfg.log ∧ Kdf saltedEnv cfg.log ∧ workload.Verified ∧
    cfg.pool 0 = .ret (.ok .done) ∧ cfg.pool 1 = .ret (.ok .done) ∧
    (∃ w ∈ cfg.log, workload.setPassword "u1" "t1" w = some "next") ∧
    ∃ phc, lastWritten "u1" "t1" cfg.log = some phc ∧ saltedEnv.verifyPassword "next" phc = false ∧
      saltedEnv.verifyPassword "pw" phc = true := by
  refine Workload.exists_reaches
    (acts 0 2 "" "pw#1" ++ acts 1 8 "" "next#2" ++ acts 0 1 "" "")
    (fun cfg => Passwords (initial salted) cfg.log ∧ isSalted cfg.log ∧
      (cfg.pool 0).answered = some .done ∧ (cfg.pool 1).answered = some .done ∧
      (∃ w ∈ cfg.log, workload.setPassword "u1" "t1" w = some "next") ∧
      (lastWritten "u1" "t1" cfg.log).any fun phc => !saltedEnv.verifyPassword "next" phc &&
        saltedEnv.verifyPassword "pw" phc) (by decide +kernel) ?_
  rintro cfg h ⟨hpw, hsalted, h0, h1, hset, hlast⟩
  simp only [Prog.answered_eq_some, Option.any_eq_true, Bool.and_eq_true, Bool.not_eq_true'] at h0 h1 hlast
  exact ⟨hpw, kdf_of_test hsalted, workload_verified, h0, h1, hset, hlast⟩

end BymaxAuth.SingleUse.Recovery
