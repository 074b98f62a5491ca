import BymaxAuth.Password.Permits
import Mathlib.Algebra.BigOperators.Group.Finset.Basic
import Mathlib.Algebra.GroupWithZero.Nat
import Mathlib.Algebra.Order.BigOperators.Group.Finset
import Mathlib.Data.Finset.Max

/-!
# The memory of concurrent derivations

The permits of `BymaxAuth.Password.Permits` are there for memory: `kdf_permit_count` divides a budget of 512 MiB by the
working set of one derivation, never giving fewer than two permits. The working set it divides by is that of the active
algorithm under the configured cost, in whole mebibytes; what a permit is then used for is a hash under that cost, or
the verification of a stored record under the cost the record names.

## The model

A call is a hash or a verification (`KdfCall`), and holds the working set of the derivation it runs. `WithinBudget` is
what the budget is to secure at a moment of a run: the derivations in progress hold 512 MiB together, or, if one of
them holds more than 256 MiB, twice what the largest holds.
-/

namespace BymaxAuth.Password

open KdfState

/-! ### What a call holds -/

/-- A call of the service. -/
inductive KdfCall (Text : Type) where
  /-- `hash`, with the salt it draws. -/
  | hash (password salt : Bytes)
  | verify (password : Bytes) (phc : Text)

/-- The check of the active algorithm's parameters, before a hash. -/
def PasswordParams.validate (params : PasswordParams) : Except CryptoError Unit :=
  match params.active with
  | .scrypt => params.scrypt.validate
  | .argon2id => params.argon2.validate

section Call

variable {Text : Type} (b : Backend Text) (params : PasswordParams)

/-- The derivations that a call runs. -/
def KdfCall.derivations : KdfCall Text → List Derivation
  | hash _ _ =>
    match params.validate with
    | .ok () => if b.admits params.derivation then [params.derivation] else []
    | .error _ => []
  | verify password phc => (b.verifyPhc password phc).1

/-- The bytes that a call holds while it derives. -/
def KdfCall.workingSet (call : KdfCall Text) : ℕ := ((call.derivations b params).map (·.workingSet)).sum

end Call

namespace KdfState

variable {holds : ℕ → ℕ} {s : KdfState} {permits : ℕ}

end KdfState

/-! ### The budget in every run -/

end BymaxAuth.Password
