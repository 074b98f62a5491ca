import BymaxAuth.SingleUse.Recovery.Address
import BymaxAuth.Lib.Lease

/-!
# The guesses a reset code stands

A code is short, so what protects it is how often it may be guessed. `otp_verify.lua` compares, counts and
consumes in one step and refuses at five wrong guesses; but a new code starts the count again, and two routes
write one (`initiate_reset`, `resend_reset_otp`). What bounds the guesses over time is the cooldown the two
routes share: `SET resend:… NX EX 60`.

## The model

For one key, an entry of the history may write its record (`stores`), compare a guess with it (`compares`),
accept one (`accepts`), end it (`closes`: a guess was accepted, or the ceiling was reached), or pass the
cooldown (`begins`). `CodeStep` says what one entry does to the record. The cooldown is a lease that nobody frees
(`cooldowns`).
-/

namespace BymaxAuth.SingleUse.Recovery

open Redis Concurrency List Option

/-! ### What happens to a code -/

variable (key : OtpPurpose × String)

/-- The entry wrote the record. -/
def stores (e : Event) : Bool :=
  match e.op with
  | .inr (.putOtp k ..) => k = key
  | _ => false

/-- The entry passed the cooldown. -/
def begins (e : Event) : Bool :=
  match e.ev with
  | ⟨.inr (.tryBeginResend k _), true⟩ => k = key
  | _ => false

/-- The entry compared a guess with the stored code. -/
def compares (e : Event) : Bool :=
  match e.ev with
  | ⟨.inr (.verifyOtp k ..), .present _⟩ => k = key
  | _ => false

/-- The guess was the stored code. -/
def accepts (e : Event) : Bool :=
  match e.ev with
  | ⟨.inr (.verifyOtp k code _), .present stored⟩ => decide (k = key ∧ code = stored)
  | _ => false

/-- The entry ended the record: the guess was accepted, or the ceiling was reached. -/
def closes (e : Event) : Bool :=
  accepts key e ||
    match e.ev with
    | ⟨.inr (.verifyOtp k ..), .max⟩ => k = key
    | _ => false

/-- What an entry does to the record of a key. -/
inductive CodeStep (key : OtpPurpose × String) (e : Event) (before after : Option (Cell OtpRecord)) : Prop where
  /-- It is written, with no guesses yet. -/
  | stored {code : String} {ttl : ℕ} : e.op = .inr (.putOtp key code ttl) →
      after = some ⟨⟨code, 0⟩, some (e.pre.1.now + ttl)⟩ → CodeStep key e before after
  /-- A guess was wrong, and is counted; the expiry stays. -/
  | wrong {code : String} {n : ℕ} {cell : Cell OtpRecord} :
      e.ev = ⟨.inr (.verifyOtp key code n), .present cell.val.code⟩ → before = some cell → cell.val.attempts < n →
      code ≠ cell.val.code → after = some { cell with val := { cell.val with attempts := cell.val.attempts + 1 } } →
      CodeStep key e before after
  /-- A guess was right, and the record is consumed. -/
  | accepted {code : String} {n : ℕ} {cell : Cell OtpRecord} :
      e.ev = ⟨.inr (.verifyOtp key code n), .present code⟩ → before = some cell → cell.val.attempts < n →
      after = none → CodeStep key e before after
  /-- The ceiling was reached, and the record is consumed. -/
  | exhausted {code : String} {n : ℕ} : e.ev = ⟨.inr (.verifyOtp key code n), .max⟩ → after = none →
      CodeStep key e before after
  /-- It stays as it is, and nothing is compared with it. -/
  | kept : stores key e = false → compares key e = false → closes key e = false → after = before →
      CodeStep key e before after

/-- A handler writes a record having passed the cooldown of its key, and once; the ceiling, the cooldown and the
time to live are the configured ones. -/
def Codes (env : Env) (tr : Trace) : Op ⊕ Cmd → Prop
  | .inr (.putOtp key _ ttl) => ttl = env.otpTtl ∧ ⟨.inr (.tryBeginResend key resendCooldownSecs), true⟩ ∈ tr ∧
      ∀ ev ∈ tr, ∀ key' code' ttl', ev.op ≠ .inr (.putOtp key' code' ttl')
  | .inr (.verifyOtp _ _ n) => n = maxAttempts
  | .inr (.tryBeginResend _ cooldown) => cooldown = resendCooldownSecs
  | _ => True

section Specs

variable {env : Env}

theorem codes_of_idle (c : Op ⊕ Cmd) (hc : Idle c) (tr : Trace) : Codes env tr c := by
  unfold Codes
  split
  · exact absurd hc id
  · exact absurd hc id
  · exact absurd hc id
  · trivial

theorem codes_of_only {α : Type} {x : Act α} (hx : Only (fun c => ∀ tr, Codes env tr c) x) (tr : Trace) :
    Triple (Codes env) (fun _ _ => True) (fun _ => True) tr x :=
  .of_only hx (fun tr _ hc => hc tr) (fun _ _ => trivial) fun _ => trivial

/-- The common part of the two routes, with what it sends a code by. -/
theorem issueProof_codes {send : AuthUser → Act Unit} {email tenantId : String}
    (hsend : ∀ tr user, ⟨.inr (.tryBeginResend (otpKey env tenantId email) resendCooldownSecs), true⟩ ∈ tr →
      (∀ ev ∈ tr, ∀ key code ttl, ev.op ≠ .inr (.putOtp key code ttl)) →
      Triple (Codes env) (fun _ _ => True) (fun _ => True) tr (send user)) :
    Triple (Codes env) (fun _ _ => True) (fun _ => True) [] (issueProof env send email tenantId) := by
  refine .step rfl fun begun => ?_
  cases begun with
  | false => exact .pure trivial
  | true =>
    refine .step trivial fun found => ?_
    split
    · exact .pure trivial
    · split
      · exact .pure trivial
      · refine hsend _ _ (by simp) fun ev hev => ?_
        simp only [nil_append, mem_append, mem_singleton] at hev
        rcases hev with rfl | rfl <;> exact nofun

theorem sendResetOtp_codes {tr : Trace} {tenantId email : String}
    (hbegun : ⟨.inr (.tryBeginResend (otpKey env tenantId email) resendCooldownSecs), true⟩ ∈ tr)
    (hnone : ∀ ev ∈ tr, ∀ key code ttl, ev.op ≠ .inr (.putOtp key code ttl)) :
    Triple (Codes env) (fun _ _ => True) (fun _ => True) tr (sendResetOtp env tenantId email) := by
  refine .step trivial fun otp => .issue ⟨rfl, mem_append_left _ hbegun, fun ev hev => ?_⟩ fun _ => trivial
  rcases mem_append.mp hev with hev | hev
  · exact hnone ev hev
  · rw [mem_singleton.mp hev]
    exact nofun

/-- Every handler does so. -/
theorem call_codes (env : Env) (call : Call) :
    Triple (Codes env) (fun _ _ => True) (fun _ => True) [] (call.act env) := by
  cases call with
  | initiateReset email tenantId =>
    refine .map (issueProof_codes fun tr user hbegun hnone => ?_)
    cases env.resetMethod with
    | otp => exact sendResetOtp_codes hbegun hnone
    | token =>
      exact codes_of_only (only_sendResetToken codes_of_idle (fun _ _ _ _ _ => trivial) (fun _ _ => trivial) _ _ _) tr
  | resendResetOtp email tenantId =>
    exact .map (issueProof_codes fun tr user hbegun hnone => sendResetOtp_codes hbegun hnone)
  | verifyResetOtp email tenantId otp =>
    exact .map (codes_of_only (only_verifyResetOtp codes_of_idle (fun _ _ _ => rfl) (fun _ _ _ _ _ => trivial)
      _ _ _) [])
  | resetPassword email tenantId newPassword token otp verifiedToken =>
    exact .map (codes_of_only (only_resetPassword codes_of_idle (fun _ _ _ => rfl) (fun _ _ _ => trivial)
      (fun _ => trivial) (fun _ _ _ _ => trivial) _ _ _ _ _) [])
  | changePassword tenantId userId currentPassword newPassword currentRefresh =>
    exact .map (codes_of_only (only_changePassword codes_of_idle (fun _ => trivial) (fun _ _ _ _ => trivial)
      _ _ _ _) [])
  | requestEmailChange tenantId userId newEmail currentPassword =>
    exact .map (codes_of_only (only_requestEmailChange codes_of_idle (fun _ _ _ _ => trivial) _ _ _ _) [])
  | confirmEmailChange token =>
    exact .map (codes_of_only (only_confirmEmailChange codes_of_idle (fun _ _ => trivial) (fun _ _ _ _ => trivial)
      _) [])

end Specs

section Step

variable {key : OtpPurpose × String} {e : Event} {before after : Option (Cell OtpRecord)}

/-- Where there is no record nothing is compared, and there is none until one is written. -/
theorem CodeStep.none (h : CodeStep key e none after) (hno : stores key e = false) :
    after = none ∧ compares key e = false := by
  cases h with
  | stored hop _ => simp [stores, hop] at hno
  | wrong _ hbefore _ _ _ => cases hbefore
  | accepted _ hbefore _ _ => cases hbefore
  | exhausted hev hafter => exact ⟨hafter, by simp [compares, hev]⟩
  | kept _ hcompares _ hafter => exact ⟨hafter, hcompares⟩

/-- A record that is there was just written, or was there before with the same expiry. -/
theorem CodeStep.expiry (h : CodeStep key e before after) {cell : Cell OtpRecord} (hcell : after = some cell) :
    (∃ code ttl, e.op = .inr (.putOtp key code ttl) ∧ cell.expireAt = some (e.pre.1.now + ttl)) ∨
      stores key e = false ∧ ∃ old, before = some old ∧ old.expireAt = cell.expireAt := by
  cases h with
  | stored hop hafter =>
    cases hafter.symm.trans hcell
    exact .inl ⟨_, _, hop, rfl⟩
  | @wrong code n old hev hbefore _ _ hafter =>
    cases hafter.symm.trans hcell
    exact .inr ⟨by simp [stores, show e.op = _ from congrArg Ev.op hev], old, hbefore, rfl⟩
  | accepted _ _ _ hafter | exhausted _ hafter => cases hafter.symm.trans hcell
  | kept hno _ _ hafter => exact .inr ⟨hno, cell, hafter.symm.trans hcell, rfl⟩

end Step

/-! ### Along a run -/

section Runs

variable {D : Deployment} {cfg : Snapshot} {key : OtpPurpose × String} {l₁ l₂ : List Event}

section

variable (h : D.Reaches cfg)
include h

/-- Every entry is a command its handler was allowed to issue. -/
theorem Deployment.Reaches.codes {e : Event} (hl : cfg.log = l₁ ++ e :: l₂) : Codes D.env (localTrace e.tid l₁) e.op :=
  reach_issues (I := fun _ => Codes D.env) (fun tid => call_codes D.env (D.calls tid)) h hl

end

end Runs

open BymaxAuth.Demo (alice input)

namespace Demo

/-- A wrong guess. -/
def guess : Call := .verifyResetOtp "a@example.com" "t1" "000000"

end Demo

open Recovery.Demo

end BymaxAuth.SingleUse.Recovery
