import BymaxAuth.Mfa.Flows

/-!
# Time-based codes

`bymax-auth-crypto/src/totp.rs`: the code of a secret for a step of thirty seconds, and its verification at a time,
which tolerates a drift of some steps. The drift is clamped, and a step before the epoch is skipped.

HMAC-SHA-1 is given by its twenty bytes; the truncation is the source's.
-/

namespace BymaxAuth.Totp

open List

/-- `TOTP_DIGITS` -/
def totpDigits : ℕ := 6

section Codes

variable (hmacSha1 : String → ℕ → List UInt8)

/-- `hotp` -/
def hotp (secret : String) (counter digits : ℕ) : ℕ :=
  let hash := fun i => ((hmacSha1 secret counter).getD i 0).toNat
  let offset := hash 19 % 16
  let binary := hash offset % 128 * 2 ^ 24 + hash (offset + 1) * 2 ^ 16 + hash (offset + 2) * 2 ^ 8 + hash (offset + 3)
  let modulus := if digits < 10 then 10 ^ digits else 1000000
  binary % modulus

/-- The six digits of a step. -/
def candidate (secret : String) (counter : ℕ) : String :=
  let digits := toString (hotp hmacSha1 secret counter totpDigits)
  String.ofList (List.replicate (totpDigits - digits.length) '0') ++ digits

/-- `-window..=window` -/
def deltas (window : ℕ) : List ℤ := (List.range (2 * window + 1)).map fun (i : ℕ) => (i : ℤ) - window

/-- `checked_add_signed`: no step lies before the epoch. -/
def checkedAddSigned (step : ℕ) (delta : ℤ) : Option ℕ := if 0 ≤ step + delta then some (step + delta).toNat else none

/-- The steps a verification looks at. -/
def counters (unixTime window : ℕ) : List ℕ :=
  (deltas (min window maxVerifyWindow)).filterMap (checkedAddSigned (unixTime / totpStepSeconds))

/-- `verify` -/
def verify (secret code : String) (unixTime window : ℕ) : Bool :=
  -- No early return: every step is compared.
  (counters unixTime window).foldl (fun found counter => found || candidate hmacSha1 secret counter == code) false

/-! ### What is accepted -/

end Codes

end BymaxAuth.Totp
