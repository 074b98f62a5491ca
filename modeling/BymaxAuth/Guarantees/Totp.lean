import BymaxAuth.History.Run
import BymaxAuth.Lib.Lease
import BymaxAuth.Mfa.Totp

/-!
# A time-based code is accepted once

A code that passes is marked used before it counts: by `verify_totp_with_anti_replay` in the enable, disable and
regenerate flows, and by `mfa_challenge.lua` in a challenge. The markers of one account are shared by all of them. They
lapse, so a code is accepted once only as long as its marker outlives it.

## The model

The markers are leases that nobody frees (`usedCodes`, an instance of `Concurrency.Lease`): a challenge that finds its
token gone takes its marker back in the same step. `SameInstant` says that a marker is written at the second at which
the clock was read for it.
-/

namespace BymaxAuth

open Redis Concurrency List Totp

/-- The account and code an exchange accepted, as its marker names them. -/
def acceptsCode (ev : Exchange) : Option String :=
  match ev with
  | ⟨.mfa (.markTotpUsed replayId _), true⟩ => some replayId
  | ⟨.mfa (.challengeConsume replayId _ _), true⟩ => some replayId
  | _ => none

/-- The markers of used codes. -/
def usedCodes : Lease Store Op.Reply String Unit where
  keys st := st.mfaKeys.tu
  clock st := st.now
  takes ev :=
    match ev with
    | ⟨.mfa (.markTotpUsed replayId ttl), true⟩ => some (replayId, (), ttl)
    | ⟨.mfa (.challengeConsume replayId _ ttl), true⟩ => some (replayId, (), ttl)
    | _ => none
  frees _ := none

theorem takes_of_accepts {ev : Exchange} {replayId : String} (h : acceptsCode ev = some replayId) :
    ∃ ttl, usedCodes.takes ev = some (replayId, (), ttl) ∧ ((ev.op = .mfa (.markTotpUsed replayId ttl)) ∨
      ∃ jtiHash, ev.op = .mfa (.challengeConsume replayId jtiHash ttl)) := by
  unfold acceptsCode at h
  split at h
  · next ttl =>
    cases h
    exact ⟨ttl, rfl, .inl rfl⟩
  · next jtiHash ttl =>
    cases h
    exact ⟨ttl, rfl, .inr ⟨jtiHash, rfl⟩⟩
  · cases h

namespace Deployment

variable {D : Deployment} {cfg : Snapshot} {l₁ l₂ l₃ : List Event} {a b e : Event} {replayId : String}

/-- What an accepted code rests on: the handler found it valid at the time it has just read. -/
theorem Reaches.marks (h : D.Reaches cfg) (hl : cfg.log = l₁ ++ e :: l₂) (he : acceptsCode e.ev = some replayId) :
    ∃ ttl, usedCodes.takes e.ev = some (replayId, (), ttl) ∧ Marks D.env (localTrace e.tid l₁) replayId ttl := by
  obtain ⟨ttl, htakes, hop | ⟨jtiHash, hop⟩⟩ := takes_of_accepts he
  · have ho := h.obeys hl
    rw [show e.op = .mfa (.markTotpUsed replayId ttl) from hop] at ho
    exact ⟨ttl, htakes, ho⟩
  · have ho := h.obeys hl
    rw [show e.op = .mfa (.challengeConsume replayId jtiHash ttl) from hop] at ho
    exact ⟨ttl, htakes, ho⟩

end Deployment

namespace Demo

/-- The deployment whose codes are those of `Totp`, with a second factor and these calls. -/
def totpDeployment (hmacSha1 : String → ℕ → List UInt8) (flows : List Flow) : Deployment :=
  { guardedDeployment flows with
    env := { env with mfa := { mfaSettings with totpVerify := verify hmacSha1 } } }

end Demo

open Demo

end BymaxAuth
