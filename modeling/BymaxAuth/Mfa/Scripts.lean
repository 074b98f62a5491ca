import BymaxAuth.Lib.Redis

/-!
# The keys of the second factor

`bymax-auth-redis/src/stores/mfa.rs`: the pending enrolment `mfa_setup:`, the markers of used codes `tu:` and
of claimed recovery codes `rcu:`, and the transition lock `mfalock:`. A marker or a lock is taken by
`SET … NX EX`. Two Lua scripts combine several commands.
-/

namespace BymaxAuth

open Redis

/-- `MfaSetupData`: the pending enrolment. -/
structure MfaSetupData where
  encryptedSecret : String
  /-- The digests of the recovery codes. -/
  hashedCodes : List String
  /-- The encrypted recovery codes, to show them again. -/
  encryptedPlainCodes : String
  deriving DecidableEq

/-- The keys of the second factor. -/
structure MfaKeys where
  /-- `mfa_setup:{subject}`: the pending enrolment. -/
  setup : Keys String MfaSetupData
  /-- `tu:{replay}`: the codes that were used. -/
  tu : Keys String Unit
  /-- `rcu:{claim}`: the recovery codes that are claimed. -/
  rcu : Keys String Unit
  /-- `mfalock:{subject}`: the transition lock, the token of its holder. -/
  lock : Keys String String

/-- Nothing was written yet. -/
def MfaKeys.empty : MfaKeys :=
  { setup := fun _ => none, tu := fun _ => none, rcu := fun _ => none, lock := fun _ => none }

/-- `mfa_challenge.lua`: mark the code used and consume the challenge; a code that finds no challenge is
unmarked again. -/
def mfaChallenge (now : ℕ) (tu : Keys String Unit) (mfa : Keys String String) (replayId jtiHash : String)
    (ttl : ℕ) : Bool × Keys String Unit × Keys String String :=
  let created := setNx tu now replayId () ttl
  if !created.1 then (false, tu, mfa)
  else if has mfa now jtiHash then (true, created.2, del mfa jtiHash)
  else (false, del created.2 replayId, mfa)

/-- `release_lock.lua`: delete the lock while it holds the token, with whether it did. -/
def releaseLock (now : ℕ) (lock : Keys String String) (lockId token : String) : Bool × Keys String String :=
  if get lock now lockId = some token then (true, del lock lockId) else (false, lock)

/-- A challenge is consumed together with the marking of a code that was not used, and otherwise the
challenges stay as they are. -/
theorem mfaChallenge_cases (now : ℕ) (tu : Keys String Unit) (mfa : Keys String String)
    (replayId jtiHash : String) (ttl : ℕ) :
    (has tu now replayId = false ∧ has mfa now jtiHash = true ∧
      mfaChallenge now tu mfa replayId jtiHash ttl = (true, setEx tu now replayId () ttl, del mfa jtiHash)) ∨
    (has tu now replayId = false ∧ has mfa now jtiHash = false ∧
      mfaChallenge now tu mfa replayId jtiHash ttl = (false, del (setEx tu now replayId () ttl) replayId, mfa)) ∨
    (has tu now replayId = true ∧ mfaChallenge now tu mfa replayId jtiHash ttl = (false, tu, mfa)) := by
  unfold mfaChallenge
  cases htu : has tu now replayId with
  | true =>
    rw [setNx_of_has htu]
    exact .inr (.inr ⟨rfl, rfl⟩)
  | false =>
    rw [setNx_of_not_has htu]
    cases hmfa : has mfa now jtiHash with
    | true => exact .inl ⟨rfl, rfl, rfl⟩
    | false => exact .inr (.inl ⟨rfl, rfl, rfl⟩)

/-- A lock that does not hold the token stays. -/
theorem releaseLock_of_ne {now : ℕ} {lock : Keys String String} {lockId token : String}
    (h : get lock now lockId ≠ some token) : releaseLock now lock lockId token = (false, lock) := by
  rw [releaseLock, if_neg h]

end BymaxAuth
