import Mathlib.Algebra.Group.Nat.Defs
import Mathlib.Data.List.Basic

/-!
# Stored password hashes

`bymax-auth-crypto/src/password` (`mod.rs`, `phc.rs`, `scrypt.rs`, `argon2.rs`), `validate_password` of
`config/validate.rs` and `PasswordService::new` of `services/password.rs`, with both hashers compiled in.

A stored hash names its algorithm and its cost, and is verified under the cost it names. So the writer and
the reader meet in a text: what the configuration lets the writer put there, the reader has to be willing
to derive; and what anybody else has put there must not make the process derive more than it can hold.

## The model

The text form and the key derivation functions are third-party code (`Backend`). A text either is no PHC
string or parses to an identifier, its decimal parameters, a salt and an output. A derivation is a function
of its parameters, the password and the salt; which parameters a library accepts is its own business.
`Verifier` is what a verifier takes from a record: the derivation it runs for it, if it accepts the record's
identifier. `verifyPhc` answers with the derivations that were run as well as with its verdict.

Arithmetic is the source's: `u32` parameters, widened to `u64` before they are multiplied.
-/

namespace BymaxAuth.Password

open List Option UInt32

/-! ### Records and derivations -/

/-- Bytes. -/
abbrev Bytes := List UInt8

/-- The three variants of Argon2. -/
inductive Argon2Variant where
  | argon2d
  | argon2i
  | argon2id
  deriving DecidableEq

/-- A key derivation with its cost parameters. -/
inductive Derivation where
  /-- scrypt with `N = 2 ^ ln`. -/
  | scrypt (ln r p : UInt32)
  /-- Argon2 with `m` KiB, `t` passes and `p` lanes. -/
  | argon2 (variant : Argon2Variant) (m t p : UInt32)
  deriving DecidableEq

/-- The bytes a derivation holds while it runs. -/
def Derivation.workingSet : Derivation → ℕ
  | scrypt ln r _ => 128 * 2 ^ ln.toNat * r.toNat
  | argon2 _ m _ _ => m.toNat * 1024

/-- A parsed PHC string. -/
structure PasswordHash where
  /-- The algorithm identifier. -/
  algorithm : String
  /-- The parameters that have a decimal value. -/
  decimals : List (String × UInt32)
  /-- The salt, if there is one. -/
  salt : Option Bytes
  /-- The output, if there is one. -/
  output : Option Bytes

/-- `decimal_param` -/
def decimalParam (hash : PasswordHash) (name : String) : Option UInt32 := hash.decimals.lookup name

/-- The record a writer makes of a derivation. -/
def Derivation.record (salt output : Bytes) : Derivation → PasswordHash
  | scrypt ln r p =>
    { algorithm := "scrypt", decimals := [("ln", ln), ("r", r), ("p", p)], salt := some salt, output := some output }
  | argon2 variant m t p =>
    { algorithm := match variant with
        | .argon2d => "argon2d"
        | .argon2i => "argon2i"
        | .argon2id => "argon2id",
      decimals := [("m", m), ("t", t), ("p", p)], salt := some salt, output := some output }

/-- The third-party code: the text form of a record, and the derivations. -/
structure Backend (Text : Type) where
  /-- `PasswordHash::new` -/
  parse : Text → Option PasswordHash
  /-- `PasswordHash::to_string` -/
  print : PasswordHash → Text
  /-- Whether the library's parameter constructor accepts the parameters. -/
  admits : Derivation → Bool
  /-- The key, if the library derives one. -/
  derive : Derivation → Bytes → Bytes → Option Bytes
  /-- What a writer printed parses back. -/
  parse_print : ∀ (d : Derivation) (salt output : Bytes),
    parse (print (d.record salt output)) = some (d.record salt output)

/-! ### What a stored record may cost -/

/-- `MAX_KDF_BYTES_PER_DERIVATION`: 512 MiB. -/
def maxKdfBytesPerDerivation : UInt64 := 512 * 1024 * 1024

/-- `MAX_SCRYPT_PARAMETER` -/
def maxScryptParameter : UInt32 := 255

/-- `MAX_ADMISSIBLE_LN` -/
def maxAdmissibleLn : UInt32 := ofNat (maxKdfBytesPerDerivation / 128).toNat.log2

/-- The product of `scrypt_cost_is_admissible`. -/
def scryptBytes (ln r : UInt32) : UInt64 := 128 * ((1 : UInt64) <<< ln.toUInt64) * r.toUInt64

/-- The product of `argon2_cost_is_admissible`. -/
def argon2Bytes (memoryKib : UInt32) : UInt64 := memoryKib.toUInt64 * 1024

/-- The guard of `scrypt_cost_is_admissible`, before the product. -/
def scryptInRange (ln r p : UInt32) : Bool :=
  !(ln = 0 || ln > maxAdmissibleLn || !(1 ≤ r && r ≤ maxScryptParameter) || !(1 ≤ p && p ≤ maxScryptParameter))

/-- `scrypt_cost_is_admissible` -/
def scryptCostIsAdmissible (hash : PasswordHash) : Bool :=
  match decimalParam hash "ln", decimalParam hash "r", decimalParam hash "p" with
  | some ln, some r, some p =>
    if !scryptInRange ln r p then false else scryptBytes ln r ≤ maxKdfBytesPerDerivation
  | _, _, _ => false

/-- `argon2_cost_is_admissible` -/
def argon2CostIsAdmissible (hash : PasswordHash) : Bool :=
  match decimalParam hash "m" with
  | some memoryKib => argon2Bytes memoryKib ≤ maxKdfBytesPerDerivation
  | none => false

/-- `cost_is_admissible`: an identifier that is neither of the two passes. -/
def costIsAdmissible (hash : PasswordHash) : Bool :=
  if hash.algorithm = "scrypt" then scryptCostIsAdmissible hash
  else if hash.algorithm = "argon2id" then argon2CostIsAdmissible hash
  else true

/-! ### Verifying -/

/-- What a verifier takes from a record: the derivation it runs, if it accepts the identifier. -/
abbrev Verifier := PasswordHash → Option Derivation

/-- `Scrypt`, with the library's defaults for parameters that are not given. -/
def scryptVerifier : Verifier := fun hash =>
  if hash.algorithm = "scrypt" then
    some (.scrypt ((decimalParam hash "ln").getD 17) ((decimalParam hash "r").getD 8)
      ((decimalParam hash "p").getD 1))
  else none

/-- The variant an identifier names. -/
def Argon2Variant.ofIdent (ident : String) : Option Argon2Variant :=
  if ident = "argon2d" then some .argon2d
  else if ident = "argon2i" then some .argon2i
  else if ident = "argon2id" then some .argon2id
  else none

/-- `Argon2::default()`, which runs the variant the record names. -/
def argon2Verifier : Verifier := fun hash =>
  (Argon2Variant.ofIdent hash.algorithm).map fun variant =>
    .argon2 variant ((decimalParam hash "m").getD 19456) ((decimalParam hash "t").getD 2)
      ((decimalParam hash "p").getD 1)

open Backend

section Verify

variable {Text : Type} (b : Backend Text)

/-- `PasswordVerifier::verify_password`: the derivations that are run, and the verdict. -/
def Backend.runVerifier (password : Bytes) (hash : PasswordHash) (verifier : Verifier) : List Derivation × Bool :=
  match verifier hash, hash.salt, hash.output with
  | some d, some salt, some expected =>
    if b.admits d then ([d], b.derive d password salt = some expected) else ([], false)
  | _, _, _ => ([], false)

/-- `PasswordHash::verify_password`: one verifier after the other, until one accepts. -/
def Backend.verifyPassword (password : Bytes) (hash : PasswordHash) : List Verifier → List Derivation × Bool
  | [] => ([], false)
  | verifier :: rest =>
    let first := b.runVerifier password hash verifier
    if first.2 then first
    else
      let later := verifyPassword password hash rest
      (first.1 ++ later.1, later.2)

/-- `verify_phc` -/
def Backend.verifyPhc (password : Bytes) (phc : Text) : List Derivation × Bool :=
  match b.parse phc with
  | none => ([], false)
  | some hash =>
    if !costIsAdmissible hash then ([], false)
    else b.verifyPassword password hash [scryptVerifier, argon2Verifier]

/-- `verify` -/
def Backend.verify (password : Bytes) (phc : Text) : Bool := (b.verifyPhc password phc).2

end Verify

/-! ### Writing -/

/-- `PasswordAlgorithm` -/
inductive PasswordAlgorithm where
  | scrypt
  | argon2id
  deriving DecidableEq

/-- `ScryptParams` -/
structure ScryptParams where
  /-- `N` -/
  costFactor : UInt32
  /-- `r` -/
  blockSize : UInt32
  /-- `p` -/
  parallelization : UInt32

/-- `Argon2Params` -/
structure Argon2Params where
  /-- `m`, in KiB. -/
  memoryKib : UInt32
  /-- `t` -/
  iterations : UInt32
  /-- `p` -/
  parallelism : UInt32

/-- `PasswordParams` -/
structure PasswordParams where
  /-- The algorithm new passwords are hashed with. -/
  active : PasswordAlgorithm
  /-- The cost of scrypt. -/
  scrypt : ScryptParams
  /-- The cost of Argon2id. -/
  argon2 : Argon2Params

/-- `CryptoError` -/
inductive CryptoError where
  /-- Parameters below the floor, or refused by the library. -/
  | invalidParams
  /-- The derivation failed. -/
  | hash
  deriving DecidableEq

/-- `u32::is_power_of_two` -/
def isPowerOfTwo (n : UInt32) : Bool := (List.range 32).any fun k => n.toNat = 2 ^ k

/-- `u32::trailing_zeros` -/
def trailingZeros (n : UInt32) : UInt32 :=
  ofNat (((List.range 32).find? fun k => n.toNat.testBit k).getD 32)

/-- `ScryptParams::validate` -/
def ScryptParams.validate (params : ScryptParams) : Except CryptoError Unit :=
  if params.costFactor < (1 : UInt32) <<< 14 || !isPowerOfTwo params.costFactor then .error .invalidParams else .ok ()

/-- `Argon2Params::validate` -/
def Argon2Params.validate (params : Argon2Params) : Except CryptoError Unit :=
  if params.memoryKib < 19456 || params.iterations < 2 || params.parallelism = 0 then .error .invalidParams
  else .ok ()

section Write

variable {Text : Type} (b : Backend Text)

/-- The end of both hashers: the library accepts the parameters, derives the key and prints the record. -/
def Backend.write (d : Derivation) (password salt : Bytes) : Except CryptoError Text :=
  if !b.admits d then .error .invalidParams
  else match b.derive d password salt with
    | some output => .ok (b.print (d.record salt output))
    | none => .error .hash

/-- `scrypt::hash`, with the salt it draws. -/
def Backend.hashScrypt (password salt : Bytes) (params : ScryptParams) : Except CryptoError Text := do
  params.validate
  b.write (.scrypt (trailingZeros params.costFactor) params.blockSize params.parallelization) password salt

/-- `argon2::hash`, with the salt it draws. -/
def Backend.hashArgon2 (password salt : Bytes) (params : Argon2Params) : Except CryptoError Text := do
  params.validate
  b.write (.argon2 .argon2id params.memoryKib params.iterations params.parallelism) password salt

/-- `hash` -/
def Backend.hash (password salt : Bytes) (params : PasswordParams) : Except CryptoError Text :=
  match params.active with
  | .scrypt => b.hashScrypt password salt params.scrypt
  | .argon2id => b.hashArgon2 password salt params.argon2

/-- `scrypt_is_stale` -/
def scryptIsStale (hash : PasswordHash) (ident : String) (current : ScryptParams) : Bool :=
  if ident ≠ "scrypt" then true
  else match decimalParam hash "ln", decimalParam hash "r", decimalParam hash "p" with
    | some ln, some r, some p =>
      ln < trailingZeros current.costFactor || r < current.blockSize || p < current.parallelization
    | _, _, _ => true

/-- `argon2_is_stale` -/
def argon2IsStale (hash : PasswordHash) (ident : String) (current : Argon2Params) : Bool :=
  if ident ≠ "argon2id" then true
  else match decimalParam hash "m", decimalParam hash "t", decimalParam hash "p" with
    | some m, some t, some p => m < current.memoryKib || t < current.iterations || p < current.parallelism
    | _, _, _ => true

/-- `needs_rehash` -/
def Backend.needsRehash (phc : Text) (current : PasswordParams) : Bool :=
  match b.parse phc with
  | none => true
  | some hash =>
    match current.active with
    | .scrypt => scryptIsStale hash hash.algorithm current.scrypt
    | .argon2id => argon2IsStale hash hash.algorithm current.argon2

end Write

/-! ### The configuration -/

/-- `ConfigError`, as far as a password configuration can cause it. -/
inductive ConfigError where
  | scryptCostFactor (got : UInt32)
  | scryptBlockSize (got : UInt32)
  | scryptParallelization (got : UInt32)
  | argon2Memory (got : UInt32)
  | argon2Iterations (got : UInt32)
  | argon2Parallelism (got : UInt32)
  | passwordMinLengthRange (got : UInt32)
  | sentinelHashFailed
  deriving DecidableEq

/-- `PasswordConfig` -/
structure PasswordConfig extends PasswordParams where
  /-- The shortest password that may be set. -/
  minLength : UInt32

/-- `validate_password` -/
def validatePassword (config : PasswordConfig) : Except ConfigError Unit :=
  if !isPowerOfTwo config.scrypt.costFactor || config.scrypt.costFactor < 16384 then
    .error (.scryptCostFactor config.scrypt.costFactor)
  else if config.scrypt.blockSize < 8 then .error (.scryptBlockSize config.scrypt.blockSize)
  else if config.scrypt.parallelization < 1 then
    .error (.scryptParallelization config.scrypt.parallelization)
  else if config.argon2.memoryKib < 19456 then .error (.argon2Memory config.argon2.memoryKib)
  else if config.argon2.iterations < 2 then .error (.argon2Iterations config.argon2.iterations)
  else if config.argon2.parallelism < 1 then .error (.argon2Parallelism config.argon2.parallelism)
  else .ok ()

/-- `SENTINEL_PLAINTEXT` -/
def sentinelPlaintext : Bytes := "bymax-auth::anti-enumeration-sentinel::v1".toUTF8.toList

/-- The part of `PasswordService` that hashing and verifying read. -/
structure PasswordService (Text : Type) where
  /-- The parameters passwords are hashed with. -/
  params : PasswordParams
  /-- The hash an absent user's login is verified against. -/
  sentinel : Text

/-- `PasswordService::new`, with the salt the sentinel's hash draws. -/
def PasswordService.new {Text : Type} (b : Backend Text) (config : PasswordConfig) (salt : Bytes) :
    Except ConfigError (PasswordService Text) :=
  if !(8 ≤ config.minLength && config.minLength ≤ 128) then
    .error (.passwordMinLengthRange config.minLength)
  else match b.hash sentinelPlaintext salt config.toPasswordParams with
    | .ok sentinel => .ok { params := config.toPasswordParams, sentinel }
    | .error _ => .error .sentinelHashFailed

/-! ### What is derived -/

theorem maxKdfBytesPerDerivation_toNat : maxKdfBytesPerDerivation.toNat = 536870912 := by decide

theorem scryptInRange_iff {ln r p : UInt32} : scryptInRange ln r p = true ↔
    0 < ln.toNat ∧ ln.toNat ≤ 22 ∧ 0 < r.toNat ∧ r.toNat ≤ 255 ∧ 0 < p.toNat ∧ p.toNat ≤ 255 := by
  have hln : maxAdmissibleLn.toNat = 22 := by decide
  have hmax : maxScryptParameter.toNat = 255 := by decide
  simp only [scryptInRange, Bool.not_eq_true', Bool.or_eq_false_iff, Bool.not_eq_false', Bool.and_eq_true,
    decide_eq_true_eq, decide_eq_false_iff_not, UInt32.le_iff_toNat_le, gt_iff_lt, UInt32.lt_iff_toNat_lt,
    ← UInt32.toNat_inj, hln, hmax]
  simp
  omega

/-- The three products of the scrypt check are exact, wherever they are computed. -/
theorem scryptBytes_toNat {ln r p : UInt32} (h : scryptInRange ln r p = true) :
    ((1 : UInt64) <<< ln.toUInt64).toNat = 2 ^ ln.toNat ∧
      (128 * ((1 : UInt64) <<< ln.toUInt64)).toNat = 128 * 2 ^ ln.toNat ∧
      (scryptBytes ln r).toNat = 128 * 2 ^ ln.toNat * r.toNat := by
  obtain ⟨-, hln, -, hr, -, -⟩ := scryptInRange_iff.mp h
  have hpow : 2 ^ ln.toNat ≤ 4194304 := Nat.pow_le_pow_right (by decide) hln
  have hshift : ((1 : UInt64) <<< ln.toUInt64).toNat = 2 ^ ln.toNat := by
    rw [UInt64.toNat_shiftLeft, toNat_toUInt64, Nat.mod_eq_of_lt (by omega : ln.toNat < 64),
      UInt64.toNat_one, Nat.one_shiftLeft, Nat.mod_eq_of_lt (by omega)]
  have hfirst : (128 * ((1 : UInt64) <<< ln.toUInt64)).toNat = 128 * 2 ^ ln.toNat := by
    rw [UInt64.toNat_mul, hshift]
    exact Nat.mod_eq_of_lt (by show 128 * 2 ^ ln.toNat < 18446744073709551616; omega)
  refine ⟨hshift, hfirst, ?_⟩
  have hprod : 128 * 2 ^ ln.toNat * r.toNat ≤ 128 * 4194304 * 255 :=
    Nat.mul_le_mul (Nat.mul_le_mul_left _ hpow) hr
  rw [scryptBytes, UInt64.toNat_mul, hfirst, toNat_toUInt64]
  exact Nat.mod_eq_of_lt (by omega)

/-- The product of the Argon2 check is exact. -/
theorem argon2Bytes_toNat (m : UInt32) : (argon2Bytes m).toNat = m.toNat * 1024 := by
  have hm := m.toNat_lt
  rw [argon2Bytes, UInt64.toNat_mul, toNat_toUInt64]
  exact Nat.mod_eq_of_lt (by show m.toNat * 1024 < 18446744073709551616; omega)

/-- A scrypt record that is admissible has its three parameters, and they are below the ceiling. -/
theorem scryptCostIsAdmissible_iff {hash : PasswordHash} : scryptCostIsAdmissible hash = true ↔
    ∃ ln r p, decimalParam hash "ln" = some ln ∧ decimalParam hash "r" = some r ∧
      decimalParam hash "p" = some p ∧ scryptInRange ln r p = true ∧
      128 * 2 ^ ln.toNat * r.toNat ≤ maxKdfBytesPerDerivation.toNat := by
  unfold scryptCostIsAdmissible
  split
  · next ln r p hln hr hp =>
    simp only [hln, hr, hp, Option.some.injEq]
    by_cases hrange : scryptInRange ln r p = true
    · simp [hrange, UInt64.le_iff_toNat_le, (scryptBytes_toNat hrange).2.2]
    · simp [hrange]
  · next hnone =>
    refine ⟨nofun, ?_⟩
    rintro ⟨ln, r, p, hln, hr, hp, -⟩
    exact absurd hp (hnone ln r p hln hr)

theorem argon2CostIsAdmissible_iff {hash : PasswordHash} : argon2CostIsAdmissible hash = true ↔
    ∃ m, decimalParam hash "m" = some m ∧ m.toNat * 1024 ≤ maxKdfBytesPerDerivation.toNat := by
  unfold argon2CostIsAdmissible
  cases decimalParam hash "m" with
  | none => simp
  | some m => simp [UInt64.le_iff_toNat_le, argon2Bytes_toNat]

section Derived

variable {Text : Type} {b : Backend Text} {password : Bytes} {hash : PasswordHash} {d : Derivation}

theorem mem_runVerifier {verifier : Verifier} (h : d ∈ (b.runVerifier password hash verifier).1) :
    verifier hash = some d := by
  unfold runVerifier at h
  split at h
  · next d' salt expected hd _ _ =>
    split at h
    · rw [mem_singleton.mp h]
      exact hd
    · cases h
  · cases h

/-- What is derived for a record is what one of the verifiers takes from it. -/
theorem mem_verifyPassword {verifiers : List Verifier}
    (h : d ∈ (b.verifyPassword password hash verifiers).1) : ∃ v ∈ verifiers, v hash = some d := by
  induction verifiers with
  | nil => cases h
  | cons v rest ih =>
    have hcases : d ∈ (b.runVerifier password hash v).1 ∨ d ∈ (b.verifyPassword password hash rest).1 := by
      rw [verifyPassword] at h
      split at h
      · exact .inl h
      · exact mem_append.mp h
    rcases hcases with h | h
    · exact ⟨v, mem_cons_self, mem_runVerifier h⟩
    · obtain ⟨v', hv', hd⟩ := ih h
      exact ⟨v', mem_cons_of_mem v hv', hd⟩

theorem scryptVerifier_eq_some (h : scryptVerifier hash = some d) : hash.algorithm = "scrypt" ∧
    d = .scrypt ((decimalParam hash "ln").getD 17) ((decimalParam hash "r").getD 8)
      ((decimalParam hash "p").getD 1) := by
  unfold scryptVerifier at h
  split at h
  · next halg => exact ⟨halg, (Option.some.inj h).symm⟩
  · cases h

theorem argon2Verifier_eq_some (h : argon2Verifier hash = some d) :
    (hash.algorithm = "argon2d" ∨ hash.algorithm = "argon2i" ∨ hash.algorithm = "argon2id") ∧
      d.workingSet = ((decimalParam hash "m").getD 19456).toNat * 1024 := by
  obtain ⟨variant, hv, rfl⟩ := map_eq_some_iff.mp h
  refine ⟨?_, rfl⟩
  unfold Argon2Variant.ofIdent at hv
  split_ifs at hv with h₁ h₂ h₃
  · exact .inl h₁
  · exact .inr (.inl h₂)
  · exact .inr (.inr h₃)

end Derived

open Password.Derivation

/-- A derivation that a stored text makes the process run stays below the ceiling exactly if the text is not
a record of `argon2d` or `argon2i` that asks for more. No product of the check overflows. -/
theorem derived_le_ceiling_iff {Text : Type} (b : Backend Text) (password : Bytes) {phc : Text}
    {hash : PasswordHash} (hp : b.parse phc = some hash) {d : Derivation}
    (hd : d ∈ (b.verifyPhc password phc).1) :
    (d.workingSet ≤ maxKdfBytesPerDerivation.toNat ↔ ¬ ((hash.algorithm = "argon2d" ∨ hash.algorithm = "argon2i") ∧
        maxKdfBytesPerDerivation.toNat < ((decimalParam hash "m").getD 19456).toNat * 1024)) ∧
    (∀ ln r p, scryptInRange ln r p = true → ((1 : UInt64) <<< ln.toUInt64).toNat = 2 ^ ln.toNat ∧
      (128 * ((1 : UInt64) <<< ln.toUInt64)).toNat = 128 * 2 ^ ln.toNat ∧
      (scryptBytes ln r).toNat = 128 * 2 ^ ln.toNat * r.toNat) ∧
    ∀ m, (argon2Bytes m).toNat = m.toNat * 1024 := by
  refine ⟨?_, fun ln r p h => scryptBytes_toNat h, argon2Bytes_toNat⟩
  rw [verifyPhc, hp] at hd
  dsimp only at hd
  split at hd
  · cases hd
  · next hcost =>
    rw [Bool.not_eq_true', Bool.not_eq_false, costIsAdmissible] at hcost
    obtain ⟨v, hv, hvd⟩ := mem_verifyPassword hd
    simp only [List.mem_cons, List.not_mem_nil, or_false] at hv
    rcases hv with rfl | rfl
    · -- scrypt: the check has bounded the product.
      obtain ⟨halg, rfl⟩ := scryptVerifier_eq_some hvd
      rw [if_pos halg] at hcost
      obtain ⟨ln, r, p, hln, hr, -, -, hle⟩ := scryptCostIsAdmissible_iff.mp hcost
      simp only [halg, hln, hr, getD_some, workingSet]
      simpa using hle
    · obtain ⟨halg, hset⟩ := argon2Verifier_eq_some hvd
      rw [hset]
      rcases halg with halg | halg | halg
      · simp [halg]
      · simp [halg]
      · rw [halg] at hcost
        obtain ⟨m, hm, hle⟩ := argon2CostIsAdmissible_iff.mp (by simpa using hcost)
        simpa [halg, hm] using hle

/-- A library whose texts are the records themselves, which accepts every parameter and derives the
password. -/
def plain : Backend PasswordHash where
  parse := some
  print := id
  admits := fun _ => true
  derive := fun _ password _ => some password
  parse_print := fun _ _ _ => rfl

/-- A record at scrypt's default cost is derived, in 128 MiB. -/
theorem derived_le_ceiling_default :
    .scrypt 17 8 1 ∈ (plain.verifyPhc [1] ((scrypt 17 8 1).record [0] [1])).1 ∧
      (scrypt 17 8 1).workingSet ≤ maxKdfBytesPerDerivation.toNat := by
  have hd : .scrypt 17 8 1 ∈ (plain.verifyPhc [1] ((scrypt 17 8 1).record [0] [1])).1 := by decide
  refine ⟨hd, (derived_le_ceiling_iff plain [1] rfl hd).1.mpr ?_⟩
  rintro ⟨halg | halg, -⟩
  · exact absurd halg (by decide)
  · exact absurd halg (by decide)

/-- A record of `argon2i` that asks for a gibibyte is derived. -/
theorem derived_above_ceiling : .argon2 .argon2i 1048576 2 1 ∈
      (plain.verifyPhc [1] ((argon2 .argon2i 1048576 2 1).record [0] [1])).1 ∧
    maxKdfBytesPerDerivation.toNat < (argon2 .argon2i 1048576 2 1).workingSet := by decide

/-! ### What is written -/

theorem isPowerOfTwo_iff {n : UInt32} : isPowerOfTwo n = true ↔ ∃ k < 32, n.toNat = 2 ^ k := by
  simp [isPowerOfTwo]

/-- The exponent of a power of two is the number of its trailing zeros. -/
theorem two_pow_trailingZeros {n : UInt32} (h : isPowerOfTwo n = true) : 2 ^ (trailingZeros n).toNat = n.toNat := by
  obtain ⟨k, hk, hn⟩ := isPowerOfTwo_iff.mp h
  have hfind : ∀ k < 32, ((List.range 32).find? fun j => (2 ^ k).testBit j) = some k := by decide
  rw [trailingZeros, hn, hfind k hk, getD_some, toNat_ofNat_of_lt' (Nat.lt_trans hk (by decide))]

/-- The cost of a configuration is one the reader is willing to derive. -/
def PasswordConfig.WithinCeiling (config : PasswordConfig) : Prop :=
  match config.active with
  | .scrypt => config.scrypt.blockSize.toNat ≤ 255 ∧ config.scrypt.parallelization.toNat ≤ 255 ∧
    128 * config.scrypt.costFactor.toNat * config.scrypt.blockSize.toNat ≤ maxKdfBytesPerDerivation.toNat
  | .argon2id => config.argon2.memoryKib.toNat * 1024 ≤ maxKdfBytesPerDerivation.toNat

open PasswordParams

section Written

variable {Text : Type} {b : Backend Text} {password salt output : Bytes} {d : Derivation}

/-- A record is taken up by the verifier of its own algorithm, with the parameters it was written with. -/
theorem verifiers_record (d : Derivation) (salt output : Bytes) : scryptVerifier (d.record salt output) = some d ∨
      scryptVerifier (d.record salt output) = none ∧ argon2Verifier (d.record salt output) = some d := by
  cases d with
  | scrypt ln r p => exact .inl rfl
  | argon2 variant m t p => cases variant <;> exact .inr ⟨rfl, rfl⟩

theorem record_salt (d : Derivation) (salt output : Bytes) :
    (d.record salt output).salt = some salt ∧ (d.record salt output).output = some output := by
  cases d <;> exact ⟨rfl, rfl⟩

/-- What a hasher wrote is accepted exactly if the reader is willing to derive it. -/
theorem verify_written (hd : b.admits d = true) (hout : b.derive d password salt = some output) :
    b.verify password (b.print (d.record salt output)) = costIsAdmissible (d.record salt output) := by
  obtain ⟨hsalt, houtput⟩ := record_salt d salt output
  have hown : ∀ v : Verifier, v (d.record salt output) = some d →
      (b.runVerifier password (d.record salt output) v).2 = true := by
    intro v hv
    simp [runVerifier, hv, hsalt, houtput, hd, hout]
  rw [verify, verifyPhc, b.parse_print]
  dsimp only
  cases costIsAdmissible (d.record salt output) with
  | false => rfl
  | true =>
    rcases verifiers_record d salt output with hs | ⟨hs, ha⟩
    · simp [verifyPassword, hown _ hs]
    · have hskip : (b.runVerifier password (d.record salt output) scryptVerifier).2 = false := by
        simp [runVerifier, hs]
      simp [verifyPassword, hskip, hown _ ha]

/-- The derivation of the active algorithm under the configured cost. -/
def PasswordParams.derivation (params : PasswordParams) : Derivation :=
  match params.active with
  | .scrypt => .scrypt (trailingZeros params.scrypt.costFactor) params.scrypt.blockSize
      params.scrypt.parallelization
  | .argon2id => .argon2 .argon2id params.argon2.memoryKib params.argon2.iterations params.argon2.parallelism

/-- What is hashed is a record of the active algorithm under the configured cost. -/
theorem hash_eq_ok {params : PasswordParams} {phc : Text} (h : b.hash password salt params = .ok phc) :
    ∃ output, b.admits params.derivation = true ∧ b.derive params.derivation password salt = some output ∧
      phc = b.print (params.derivation.record salt output) := by
  have hwrite : ∀ d, b.write d password salt = .ok phc →
      ∃ output, b.admits d = true ∧ b.derive d password salt = some output ∧ phc = b.print (d.record salt output) := by
    intro d hd
    unfold Backend.write at hd
    split at hd
    · cases hd
    · next hadmits =>
      split at hd
      · next output hout =>
        cases hd
        exact ⟨output, by simpa using hadmits, hout, rfl⟩
      · cases hd
  unfold Backend.hash at h
  split at h
  · next hactive =>
    rw [Backend.hashScrypt] at h
    cases hv : params.scrypt.validate with
    | error e => rw [hv] at h; cases h
    | ok u =>
      rw [hv] at h
      rw [derivation, hactive]
      exact hwrite _ h
  · next hactive =>
    rw [Backend.hashArgon2] at h
    cases hv : params.argon2.validate with
    | error e => rw [hv] at h; cases h
    | ok u =>
      rw [hv] at h
      rw [derivation, hactive]
      exact hwrite _ h

end Written

/-- A validated configuration has a cost factor that is a power of two, above its floors. -/
theorem validated {config : PasswordConfig} (h : validatePassword config = .ok ()) :
    isPowerOfTwo config.scrypt.costFactor = true ∧ 16384 ≤ config.scrypt.costFactor.toNat ∧
      8 ≤ config.scrypt.blockSize.toNat ∧ 1 ≤ config.scrypt.parallelization.toNat := by
  unfold validatePassword at h
  split_ifs at h with h₁ h₂ h₃
  simp only [Bool.or_eq_true, Bool.not_eq_true', decide_eq_true_eq, not_or, Bool.not_eq_false] at h₁
  refine ⟨h₁.1, ?_, ?_, ?_⟩
  · simpa [lt_iff_toNat_lt] using h₁.2
  · simpa [lt_iff_toNat_lt] using h₂
  · simpa [lt_iff_toNat_lt, Nat.one_le_iff_ne_zero] using h₃

/-- The reader's check of what a validated configuration writes. -/
theorem costIsAdmissible_scrypt {params : ScryptParams} {salt output : Bytes}
    (hpow : isPowerOfTwo params.costFactor = true) (hfloor : 16384 ≤ params.costFactor.toNat)
    (hr : 8 ≤ params.blockSize.toNat) (hp : 1 ≤ params.parallelization.toNat) :
    costIsAdmissible ((scrypt (trailingZeros params.costFactor) params.blockSize
      params.parallelization).record salt output) = true ↔
      params.blockSize.toNat ≤ 255 ∧ params.parallelization.toNat ≤ 255 ∧
        128 * params.costFactor.toNat * params.blockSize.toNat ≤ maxKdfBytesPerDerivation.toNat := by
  have hN := two_pow_trailingZeros hpow
  have hcost : costIsAdmissible ((scrypt (trailingZeros params.costFactor) params.blockSize
      params.parallelization).record salt output) =
      scryptCostIsAdmissible ((scrypt (trailingZeros params.costFactor) params.blockSize
        params.parallelization).record salt output) := rfl
  rw [hcost, scryptCostIsAdmissible_iff]
  constructor
  · rintro ⟨ln, r, p, hln, hr', hp', hrange, hle⟩
    cases hln
    cases hr'
    cases hp'
    obtain ⟨-, -, -, hrmax, -, hpmax⟩ := scryptInRange_iff.mp hrange
    rw [hN] at hle
    exact ⟨hrmax, hpmax, hle⟩
  · rintro ⟨hrmax, hpmax, hle⟩
    refine ⟨_, _, _, rfl, rfl, rfl, scryptInRange_iff.mpr ⟨?_, ?_, by omega, hrmax, by omega, hpmax⟩, ?_⟩
    · -- The floor of the cost factor.
      by_contra hzero
      rw [Nat.eq_zero_of_not_pos hzero] at hN
      omega
    · -- A larger exponent would be above the ceiling at any block size.
      by_contra hbig
      have hpow23 : 2 ^ 23 ≤ 2 ^ (trailingZeros params.costFactor).toNat :=
        Nat.pow_le_pow_right (by decide) (by omega)
      rw [hN] at hpow23
      have hprod : 128 * 2 ^ 23 * 8 ≤ 128 * params.costFactor.toNat * params.blockSize.toNat :=
        Nat.mul_le_mul (Nat.mul_le_mul_left _ hpow23) hr
      rw [maxKdfBytesPerDerivation_toNat] at hle
      omega
    · rw [hN]
      exact hle

open PasswordService

/-- What a service built from a validated configuration writes is never stale, and it is accepted for the
password it was written for exactly if the configured cost is below the reader's ceiling. -/
theorem written_verifies_iff {Text : Type} (b : Backend Text) {config : PasswordConfig}
    (hvalid : validatePassword config = .ok ()) {salt₀ : Bytes} {service : PasswordService Text}
    (hnew : new b config salt₀ = .ok service) {password salt : Bytes} {phc : Text}
    (hhash : b.hash password salt service.params = .ok phc) :
    b.needsRehash phc service.params = false ∧ (b.verify password phc = true ↔ config.WithinCeiling) := by
  have hparams : service.params = config.toPasswordParams := by
    unfold new at hnew
    split at hnew
    · cases hnew
    · split at hnew
      · cases hnew
        rfl
      · cases hnew
  rw [hparams] at hhash ⊢
  obtain ⟨hpow, hfloor, hr, hp⟩ := validated hvalid
  obtain ⟨output, hadmits, hout, rfl⟩ := hash_eq_ok hhash
  rw [verify_written hadmits hout, needsRehash, b.parse_print]
  unfold PasswordConfig.WithinCeiling derivation
  cases hactive : config.active with
  | scrypt =>
    refine ⟨?_, costIsAdmissible_scrypt hpow hfloor hr hp⟩
    simp [record, scryptIsStale, decimalParam, List.lookup_cons]
  | argon2id =>
    constructor
    · simp [record, argon2IsStale, decimalParam, List.lookup_cons]
    · simp [costIsAdmissible, record, argon2CostIsAdmissible, decimalParam,
        UInt64.le_iff_toNat_le, argon2Bytes_toNat]

/-- A configuration with the default parameters, but for the two memory costs. -/
def configWith (active : PasswordAlgorithm) (costFactor memoryKib : UInt32) : PasswordConfig where
  active := active
  scrypt := { costFactor, blockSize := 8, parallelization := 1 }
  argon2 := { memoryKib, iterations := 2, parallelism := 1 }
  minLength := 8

/-- The default configuration accepts what it writes. -/
theorem written_verifies_default :
    ∃ phc, plain.hash [1] [0] (configWith .scrypt 131072 19456).toPasswordParams = .ok phc ∧
      plain.needsRehash phc (configWith .scrypt 131072 19456).toPasswordParams = false ∧
      plain.verify [1] phc = true := by
  have hvalid : validatePassword (configWith .scrypt 131072 19456) = .ok () := by decide +kernel
  have hnew : new plain (configWith .scrypt 131072 19456) [0] =
      .ok ⟨(configWith .scrypt 131072 19456).toPasswordParams, _⟩ := rfl
  have hhash : plain.hash [1] [0] (configWith .scrypt 131072 19456).toPasswordParams = .ok _ := rfl
  have hwritten := written_verifies_iff plain hvalid hnew hhash
  exact ⟨_, rfl, hwritten.1, hwritten.2.mpr (by simp [PasswordConfig.WithinCeiling, configWith,
    maxKdfBytesPerDerivation_toNat])⟩

/-- A configuration passes the validation, the service is built, the password is hashed, and it is refused. -/
def RefusesItsOwn (config : PasswordConfig) : Prop :=
  validatePassword config = .ok () ∧ ∃ service phc, new plain config [0] = .ok service ∧
      plain.hash [1] [0] service.params = .ok phc ∧ plain.verify [1] phc = false

/-- Two configurations that ask for a gibibyte, one for each algorithm. -/
theorem written_refused :
    RefusesItsOwn (configWith .scrypt 1048576 19456) ∧ RefusesItsOwn (configWith .argon2id 131072 1048576) :=
  ⟨⟨by decide +kernel, _, _, rfl, rfl, by decide +kernel⟩, ⟨by decide +kernel, _, _, rfl, rfl, by decide +kernel⟩⟩

end BymaxAuth.Password
