import BymaxAuth.Token.Claims
import Mathlib.Logic.Encodable.Basic
import Mathlib.Logic.Equiv.List

/-!
# Genuine tokens

`verify_rotating_with` for every string: it accepts exactly the tokens that were signed under one of the configured keys,
for claims of the type it is asked for, in time, and with the configured issuer and audience.

## The model

`produced` are the calls of `sign` that were made. That a tag cannot be forged is said of the string at hand
(`NotForged`): if its tag is the one of a configured key, then what it is a tag of was signed under this key. Base64url is
canonical (`Canonical`), and the tags of two configured keys for one message do not happen to differ in a single
character (`Apart`).

The sums of a time and the leeway are those of the source, which stay within an `i64`. They are the sums one has in mind
unless the time is the last one of an `i64`, or the leeway is longer than one.
-/

namespace BymaxAuth.Wire

open Hs256 List

/-! ### What is assumed -/

/-- Base64url without padding is canonical: a text that decodes is the one that is written. -/
def Canonical (p : Primitives) : Prop := ∀ text bytes, p.decode text = some bytes → text = p.encode bytes

/-- The tags of two keys for one message are the same, or differ in more than one character. -/
def Apart (p : Primitives) (keys : List (List UInt8)) : Prop :=
  ∀ k ∈ keys, ∀ k' ∈ keys, ∀ message i c, p.encode (p.hmacSha256 k' message) =
    .ofList ((p.encode (p.hmacSha256 k message)).toList.set i c) → p.hmacSha256 k' message = p.hmacSha256 k message

/-- The calls of `sign` that were made, by the claims and the key. -/
abbrev Produced := (t : TokenType) → t.Claims → List UInt8 → Prop

variable (p : Primitives) (json : JsonText)

/-- A token whose tag is the one of a key has a message that was signed under this key. -/
def NotForged (produced : Produced) (keys : List (List UInt8)) (token : String) : Prop :=
  ∀ k ∈ keys, ∀ header payload signature, splitSegments token = some (header, payload, signature) →
    p.decode signature = some (p.hmacSha256 k (signingInput header payload)) →
    ∃ t c, produced t c k ∧ signingInput header payload =
      signingInput (p.encode (textBytes headerJson)) (p.encode ((t.codec json).write c))

/-! ### What is proved -/

variable {C : Type} (codec : ClaimsCodec C) (opts : VerifyOptions)

/-- The leeway, as an `i64`. -/
def leeway : ℤ := min opts.leewaySecs (2 ^ 63 - 1)

/-- The times are right. -/
structure InTime (claims : C) : Prop where
  /-- It is before `exp` plus the leeway. -/
  exp : opts.validateExp = true → opts.now < saturatingAdd (codec.exp claims) (leeway opts)
  /-- `iat` is now plus the leeway at the latest. -/
  iat : opts.validateIat = true → codec.iat claims ≤ saturatingAdd opts.now (leeway opts)

/-- The issuer and the audience are the configured ones, where there are any. -/
structure Bound (claims : C) : Prop where
  /-- The issuer. -/
  iss : ∀ expected ∈ opts.expectedIss, codec.iss claims = some expected
  /-- The audience. -/
  aud : ∀ expected ∈ opts.expectedAud, codec.aud claims = some expected

/-- The segments of a token. -/
def joined (header payload signature : String) : String := header ++ "." ++ payload ++ "." ++ signature

/-- What the verification under several keys is, for claims of a type. -/
structure Exact (produced : Produced) (t : TokenType) (key : List UInt8) (previousKeys : List (List UInt8)) :
    Prop where
  /-- A string is accepted exactly when it was signed for these claims under one of the keys, in time, and bound. -/
  accepted : ∀ token, NotForged p json produced (key :: previousKeys) token → ∀ c,
    verifyRotatingWith p (t.codec json) token key previousKeys opts = .ok c ↔
      (∃ k ∈ key :: previousKeys, produced t c k ∧ token = sign p (t.codec json) c k) ∧ InTime (t.codec json) opts c ∧
        Bound (t.codec json) opts c
  /-- The order of the keys, and which one is the current one, does not matter to it. -/
  position : ∀ key' previousKeys', (∀ k, k ∈ key' :: previousKeys' ↔ k ∈ key :: previousKeys) → ∀ token c,
    verifyRotatingWith p (t.codec json) token key' previousKeys' opts = .ok c ↔
      verifyRotatingWith p (t.codec json) token key previousKeys opts = .ok c
  /-- A retired key accepts what it would accept as the only one. -/
  retired : ∀ token c, verifyRotatingWith p (t.codec json) token key previousKeys opts = .ok c ↔
    ∃ k ∈ key :: previousKeys, verify p (t.codec json) token k opts = .ok c
  /-- A refusal is the current key's. -/
  refusal : ∀ token e, verifyRotatingWith p (t.codec json) token key previousKeys opts = .error e →
    verify p (t.codec json) token key opts = .error e
  /-- With another character anywhere in its last segment, an accepted token is refused. -/
  tampered : ∀ token c, verifyRotatingWith p (t.codec json) token key previousKeys opts = .ok c →
    ∀ header payload signature, splitSegments token = some (header, payload, signature) →
    ∀ i char, i < signature.toList.length → signature.toList[i]? ≠ some char → ∀ c',
      verifyRotatingWith p (t.codec json) (joined header payload (.ofList (signature.toList.set i char))) key previousKeys
        opts ≠ .ok c'
  /-- A token of another type is refused. -/
  typed : ∀ t', t' ≠ t → ∀ (c' : t'.Claims) k c,
    verifyRotatingWith p (t.codec json) (sign p (t'.codec json) c' k) key previousKeys opts ≠ .ok c
  /-- The sums are plain ones before the last second of an `i64`, with a leeway that is an `i64`. -/
  plain : -2 ^ 63 ≤ opts.now → opts.now < 2 ^ 63 - 1 → opts.leewaySecs < 2 ^ 63 → ∀ c : t.Claims,
    InTime (t.codec json) opts c ↔ (opts.validateExp = true → opts.now < (t.exp c).toInt + opts.leewaySecs) ∧
        (opts.validateIat = true → (t.iat c).toInt ≤ opts.now + opts.leewaySecs)

variable {p json codec opts} {claims : C} {token : String} {header payload signature : String}

theorem validateTemporal_iff : Hs256.validateTemporal codec claims opts = .ok () ↔ InTime codec opts claims := by
  have hexp : ¬ (opts.validateExp && decide (saturatingAdd (codec.exp claims) (leeway opts) ≤ opts.now)) = true ↔
      (opts.validateExp = true → opts.now < saturatingAdd (codec.exp claims) (leeway opts)) := by
    rw [Bool.and_eq_true, decide_eq_true_eq, not_and, Int.not_le]
  have hiat : ¬ (opts.validateIat && decide (saturatingAdd opts.now (leeway opts) < codec.iat claims)) = true ↔
      (opts.validateIat = true → codec.iat claims ≤ saturatingAdd opts.now (leeway opts)) := by
    rw [Bool.and_eq_true, decide_eq_true_eq, not_and, Int.not_lt]
  unfold Hs256.validateTemporal
  constructor
  · intro h
    dsimp only at h
    split at h
    · cases h
    · next hnot =>
      split at h
      · cases h
      · next hnot' => exact ⟨hexp.mp hnot, hiat.mp hnot'⟩
  · intro h
    exact (if_neg (hexp.mpr h.exp)).trans (if_neg (hiat.mpr h.iat))

theorem validateBinding_iff : validateBinding codec claims opts = .ok () ↔ Bound codec opts claims := by
  unfold validateBinding
  split
  · next h =>
    simp only [Bool.and_eq_true, Option.all_eq_true, decide_eq_true_eq] at h
    exact ⟨fun _ => ⟨h.1, h.2⟩, fun _ => rfl⟩
  · next h =>
    simp only [Bool.and_eq_true, Option.all_eq_true, decide_eq_true_eq] at h
    exact ⟨nofun, fun hb => absurd ⟨hb.iss, hb.aud⟩ h⟩

/-! ### Segments -/

/-- A token is its segments, joined. -/
theorem toList_of_splitSegments (h : splitSegments token = some (header, payload, signature)) :
    token.toList = header.toList ++ '.' :: (payload.toList ++ '.' :: signature.toList) := by
  unfold splitSegments at h
  split at h
  · next hsplit =>
    cases h
    have hlist : ['.'].intercalate (token.toList.splitOn '.') = token.toList := intercalate_splitOn '.'
    rw [← hlist, hsplit]
    simp [List.intercalate]
  · cases h

theorem toList_joined (header payload signature : String) :
    (joined header payload signature).toList = header.toList ++ '.' :: (payload.toList ++ '.' :: signature.toList) := by
  simp [joined]

theorem splitSegments_joined (hheader : '.' ∉ header.toList)
    (hpayload : '.' ∉ payload.toList) (hsignature : '.' ∉ signature.toList) :
    splitSegments (joined header payload signature) = some (header, payload, signature) := by
  unfold splitSegments
  rw [toList_joined, splitOn_append_cons_self_of_not_mem hheader,
    splitOn_append_cons_self_of_not_mem hpayload, splitOn_eq_singleton hsignature]
  simp

theorem textBytes_injective : Function.Injective textBytes := by
  intro s s' h
  exact String.toByteArray_inj.mp (ByteArray.ext (Array.toList_inj.mp h))

/-- What is signed has one header and one payload. -/
theorem signingInput_inj {header payload header' payload' : String} (hheader : '.' ∉ header.toList)
    (hpayload : '.' ∉ payload.toList) (hheader' : '.' ∉ header'.toList) (hpayload' : '.' ∉ payload'.toList)
    (h : signingInput header payload = signingInput header' payload') : header = header' ∧ payload = payload' := by
  have hsplit : ∀ {a b : String}, '.' ∉ a.toList → '.' ∉ b.toList →
      (a ++ "." ++ b).toList.splitOn '.' = [a.toList, b.toList] := by
    intro a b ha hb
    have hlist : (a ++ "." ++ b).toList = a.toList ++ '.' :: b.toList := by simp
    rw [hlist, splitOn_append_cons_self_of_not_mem ha, splitOn_eq_singleton hb]
  have htext := textBytes_injective h
  have hlists := hsplit hheader hpayload
  rw [htext, hsplit hheader' hpayload'] at hlists
  simp only [List.cons.injEq, String.toList_inj, and_true] at hlists
  exact ⟨hlists.1.symm, hlists.2.symm⟩

/-! ### Acceptance -/

section Acceptance

variable {t : TokenType} {key : List UInt8} {previousKeys : List (List UInt8)} {c : t.Claims}

/-- A token that is accepted is in three segments, each of them written by the codec. -/
theorem segments_of_accepted (hcanonical : Canonical p)
    (h : verifyRotatingWith p codec token key previousKeys opts = .ok claims) :
    ∃ k ∈ key :: previousKeys, ∃ headerBytes payloadBytes,
      splitSegments token = some (p.encode headerBytes, p.encode payloadBytes,
        p.encode (p.hmacSha256 k (signingInput (p.encode headerBytes) (p.encode payloadBytes)))) ∧
      codec.read payloadBytes = some claims := by
  obtain ⟨⟨k, hk, header, payload, signature, hsplit, htag⟩, hadmissible⟩ := verifyRotating_ok_iff.mp h
  obtain ⟨segments, headerBytes, hsplit₁, hheader, -⟩ := hadmissible.header
  obtain ⟨segments', payloadBytes, hsplit₂, hpayload, hread⟩ := hadmissible.payload
  cases hsplit.symm.trans hsplit₁
  cases hsplit.symm.trans hsplit₂
  refine ⟨k, hk, headerBytes, payloadBytes, ?_, hread⟩
  have hheader := hcanonical _ _ hheader
  have hpayload := hcanonical _ _ hpayload
  have hsignature := hcanonical _ _ htag
  dsimp only at hheader hpayload
  rw [← hheader, ← hpayload, ← hsignature, hsplit]

/-- Claims that were written as one type are read as this type, and are these claims. -/
theorem eq_of_read {t' : TokenType} {c' : t'.Claims} (h : (t.codec json).read ((t'.codec json).write c') = some c) :
    ∃ heq : t' = t, heq ▸ c' = c := by
  by_cases hne : t' = t
  · subst hne
    rw [codec_read_write] at h
    exact ⟨rfl, Option.some.inj h⟩
  · rw [codec_read_other json hne] at h
    cases h

/-- A string is accepted exactly when it was signed for these claims under one of the keys, in time, and bound. -/
theorem accepted_iff (hcanonical : Canonical p) {produced : Produced}
    (hforged : NotForged p json produced (key :: previousKeys) token) :
    verifyRotatingWith p (t.codec json) token key previousKeys opts = .ok c ↔
      (∃ k ∈ key :: previousKeys, produced t c k ∧ token = sign p (t.codec json) c k) ∧ InTime (t.codec json) opts c ∧
        Bound (t.codec json) opts c := by
  constructor
  · intro h
    have hadmissible := (verifyRotating_ok_iff.mp h).2
    refine ⟨?_, validateTemporal_iff.mp hadmissible.temporal, validateBinding_iff.mp hadmissible.binding⟩
    obtain ⟨k, hk, headerBytes, payloadBytes, hsplit, hread⟩ := segments_of_accepted hcanonical h
    obtain ⟨t', c', hproduced, hinput⟩ := hforged k hk _ _ _ hsplit (p.decode_encode _)
    obtain ⟨hheader, hpayload⟩ :=
      signingInput_inj (p.dot_notMem _) (p.dot_notMem _) (p.dot_notMem _) (p.dot_notMem _) hinput
    have hbytes : payloadBytes = (t'.codec json).write c' :=
      Option.some.inj ((p.decode_encode _).symm.trans (hpayload ▸ p.decode_encode _))
    rw [hbytes] at hread
    obtain ⟨rfl, rfl⟩ := eq_of_read hread
    refine ⟨k, hk, hproduced, String.toList_inj.mp ?_⟩
    rw [toList_of_splitSegments hsplit, hheader, hpayload]
    exact (toList_joined _ _ _).symm
  · rintro ⟨⟨k, hk, -, rfl⟩, htime, hbound⟩
    refine verifyRotating_ok_iff.mpr ⟨⟨k, hk, (signedUnder_sign_iff k).mpr rfl⟩, ?_⟩
    exact (admissible_sign_iff (codec_read_write json t c)).mpr
      ⟨rfl, validateTemporal_iff.mpr htime, validateBinding_iff.mpr hbound⟩

/-- A token with another character in its last segment is refused. -/
theorem tampered_refused (hcanonical : Canonical p) (hapart : Apart p (key :: previousKeys))
    (h : verifyRotatingWith p codec token key previousKeys opts = .ok claims) {header payload signature : String}
    (hsplit : splitSegments token = some (header, payload, signature)) {i : ℕ} {char : Char}
    (hi : i < signature.toList.length) (hchar : signature.toList[i]? ≠ some char) (claims' : C) :
    verifyRotatingWith p codec (joined header payload (.ofList (signature.toList.set i char))) key previousKeys opts ≠
      .ok claims' := by
  intro h'
  obtain ⟨k, hk, headerBytes, payloadBytes, hsegments, -⟩ := segments_of_accepted hcanonical h
  obtain ⟨k', hk', headerBytes', payloadBytes', hsegments', -⟩ := segments_of_accepted hcanonical h'
  cases hsplit.symm.trans hsegments
  have hcount : ∀ {a b c : List Char}, '.' ∉ a → '.' ∉ b →
      (a ++ '.' :: (b ++ '.' :: c)).count '.' = 2 + c.count '.' := by
    intro a b c ha hb
    simp only [count_append, count_cons_self, count_eq_zero.mpr ha, count_eq_zero.mpr hb]
    omega
  -- There are three segments, so the new character is no dot.
  have hdot : '.' ∉ (String.ofList ((p.encode (p.hmacSha256 k (signingInput (p.encode headerBytes)
      (p.encode payloadBytes)))).toList.set i char)).toList := by
    have hlist := toList_of_splitSegments hsegments'
    rw [toList_joined] at hlist
    have hcounts := congrArg (List.count '.') hlist
    rw [hcount (p.dot_notMem _) (p.dot_notMem _), hcount (p.dot_notMem _) (p.dot_notMem _),
      count_eq_zero.mpr (p.dot_notMem (p.hmacSha256 k' _))] at hcounts
    exact count_eq_zero.mp (by omega)
  rw [splitSegments_joined (p.dot_notMem _) (p.dot_notMem _) hdot, Option.some.injEq, Prod.mk.injEq,
    Prod.mk.injEq] at hsegments'
  obtain ⟨hheader, hpayload, hsignature⟩ := hsegments'
  rw [← hheader, ← hpayload] at hsignature
  have htags := hapart k hk k' hk' _ i char hsignature.symm
  rw [htags] at hsignature
  have hsame := congrArg (fun text : String => text.toList[i]?) hsignature
  rw [String.toList_ofList, List.getElem?_set_self hi] at hsame
  exact hchar hsame.symm

/-- A token of another type is refused. -/
theorem other_type_refused {t' : TokenType} (hne : t' ≠ t) (c' : t'.Claims) (k : List UInt8) (c : t.Claims) :
    verifyRotatingWith p (t.codec json) (sign p (t'.codec json) c' k) key previousKeys opts ≠ .ok c := by
  intro h
  obtain ⟨segments, bytes, hsplit, hdecode, hread⟩ := (verifyRotating_ok_iff.mp h).2.payload
  rw [splitSegments_sign] at hsplit
  cases hsplit
  rw [p.decode_encode] at hdecode
  cases hdecode
  rw [codec_read_other json hne] at hread
  cases hread

theorem inTime_iff_plain (hmin : -2 ^ 63 ≤ opts.now) (hmax : opts.now < 2 ^ 63 - 1) (hleeway : opts.leewaySecs < 2 ^ 63)
    (c : t.Claims) : InTime (t.codec json) opts c ↔
      (opts.validateExp = true → opts.now < (t.exp c).toInt + opts.leewaySecs) ∧
        (opts.validateIat = true → (t.iat c).toInt ≤ opts.now + opts.leewaySecs) := by
  have hplain : leeway opts = opts.leewaySecs := by
    unfold leeway
    omega
  have hexp := (t.exp c).le_toInt
  have hiat := (t.iat c).toInt_lt
  have hlimit : opts.now < saturatingAdd (t.exp c).toInt opts.leewaySecs ↔
      opts.now < (t.exp c).toInt + opts.leewaySecs := by
    unfold saturatingAdd
    omega
  have hlimit' : (t.iat c).toInt ≤ saturatingAdd opts.now opts.leewaySecs ↔
      (t.iat c).toInt ≤ opts.now + opts.leewaySecs := by
    unfold saturatingAdd
    omega
  rw [← hlimit, ← hlimit', ← hplain]
  exact ⟨fun h => ⟨h.exp, h.iat⟩, fun h => ⟨h.1, h.2⟩⟩

/-- **Rotating verification accepts exactly the genuine tokens**, for every list of keys, every options and every string;
the sums of a time and the leeway are kept within an `i64`, and a refusal is the current key's. -/
theorem verifyRotating_exact (hcanonical : Canonical p) (hapart : Apart p (key :: previousKeys)) (produced : Produced)
    (t : TokenType) : Exact p json opts produced t key previousKeys where
  accepted _ hforged _ := accepted_iff hcanonical hforged
  position key' previousKeys' hsame token c := by
    rw [verifyRotating_ok_iff, verifyRotating_ok_iff]
    simp only [hsame]
  retired token c := by
    rw [verifyRotating_ok_iff]
    simp only [verify_ok_iff, ← and_assoc, exists_and_right]
  refusal token e h := by
    unfold verifyRotatingWith at h
    split at h
    · cases h
    · next current hverify =>
      split at h
      · cases h
      · cases h
        exact hverify
  tampered _ _ h _ _ _ hsplit _ _ hi hchar c' := tampered_refused hcanonical hapart h hsplit hi hchar c'
  typed _ hne c' k c := other_type_refused hne c' k c
  plain hmin hmax hleeway c := inTime_iff_plain hmin hmax hleeway c

end Acceptance

/-! ### A token to compute with -/

/-- Under another key whose tag is another one, the signature is refused. -/
theorem verify_sign_other {key key' : List UInt8}
    (h : p.hmacSha256 key' (signingInput (p.encode (textBytes headerJson)) (p.encode (codec.write claims))) ≠
      p.hmacSha256 key (signingInput (p.encode (textBytes headerJson)) (p.encode (codec.write claims)))) :
    verify p codec (sign p codec claims key) key' opts = .error .badSignature := by
  simp [verify, splitSegments_sign, okOr, p.decode_encode, p.headerAlg_header, bind, Except.bind, h]
  rfl

namespace Demo

open Hs256.Demo

/-- Keys that are their own tags, and a canonical text for bytes. -/
def strict : Primitives where
  hmacSha256 := jws.hmacSha256
  encode := jws.encode
  decode text := (jws.decode text).filter fun bytes => jws.encode bytes = text
  headerAlg := jws.headerAlg
  decode_encode bytes := by simp [jws.decode_encode]
  dot_notMem := jws.dot_notMem
  headerAlg_header := rfl

theorem strict_canonical : Canonical strict := by
  intro text bytes h
  simp only [strict, Option.filter_eq_some_iff, decide_eq_true_eq] at h
  exact h.2.symm

/-- The current key. -/
def current : List UInt8 := [1]

/-- The retired key. -/
def retired : List UInt8 := [2, 2]

theorem strict_apart : Apart strict [current, retired] := by
  intro k hk k' hk' message i c h
  have hlength := congrArg (fun text : String => text.toList.length) h
  simp only [strict, jws, String.toList_ofList, length_set, length_map] at hlength
  change k' = k
  simp only [List.mem_cons, List.not_mem_nil, or_false] at hk hk'
  rcases hk with rfl | rfl <;> rcases hk' with rfl | rfl <;> first | rfl | cases hlength

/-- A text, as the numbers of its characters. -/
def numbers (text : String) : List ℕ := text.toList.map Char.toNat

/-- The text of numbers. -/
def ofNumbers (numbers : List ℕ) : String := .ofList (numbers.map Char.ofNat)

theorem ofNumbers_numbers (text : String) : ofNumbers (numbers text) = text := by
  simp [ofNumbers, numbers, Function.comp_def]

/-- A value, as its kind, a number and a text. -/
def code : Json → ℕ × ℤ × List ℕ
  | .null => (0, 0, [])
  | .bool value => (1, value.toInt, [])
  | .number value => (2, value, [])
  | .string value => (3, 0, numbers value)
  | .other value => (4, 0, numbers value)

/-- The value of a kind, a number and a text. -/
def ofCode : ℕ × ℤ × List ℕ → Json
  | (0, _, _) => .null
  | (1, value, _) => .bool (value = 1)
  | (2, value, _) => .number value
  | (3, _, text) => .string (ofNumbers text)
  | (_, _, text) => .other (ofNumbers text)

theorem ofCode_code (value : Json) : ofCode (code value) = value := by
  rcases value with _ | (_ | _) | _ | _ | _ <;> simp [code, ofCode, ofNumbers_numbers]

instance : Encodable Json := Encodable.ofLeftInverse code ofCode ofCode_code

instance encodableString : Encodable String := Encodable.ofLeftInverse numbers ofNumbers ofNumbers_numbers

/-- An object, as that many zeros. -/
def text : JsonText where
  write members := .replicate (Encodable.encode members) 0
  read bytes := Encodable.decode bytes.length
  read_write members := by simp

/-- A member, until this second. -/
def member (exp : Int64) : DashboardClaims where
  sub := "u1"
  jti := "j1"
  tenantId := "t1"
  role := "member"
  status := "active"
  mfaEnabled := false
  mfaVerified := false
  iat := 0
  exp
  epoch := 0
  iss := none
  aud := none

/-- The codec of its claims. -/
def dashboardCodec (json : JsonText) : ClaimsCodec DashboardClaims := TokenType.dashboard.codec json

/-- Its token. -/
def tokenUntil (json : JsonText) (exp : Int64) (key : List UInt8) : String :=
  sign strict (dashboardCodec json) (member exp) key

theorem dashboardCodec_member (json : JsonText) (exp : Int64) :
    (dashboardCodec json).read ((dashboardCodec json).write (member exp)) = some (member exp) :=
  codec_read_write json .dashboard (member exp)

/-- Whatever the text of the claims is. -/
theorem dashboard_differs (json : JsonText) : ((2 ^ 63 - 1 : ℤ) < (member (.ofInt (2 ^ 63 - 1))).exp.toInt + 1 ∧
      verifyRotatingWith strict (dashboardCodec json) (tokenUntil json (.ofInt (2 ^ 63 - 1)) current) current []
        { leewaySecs := 1, now := 2 ^ 63 - 1 } = .error .expired) ∧
    verifyRotatingWith strict (dashboardCodec json) (tokenUntil json 50 current) current [retired] { now := 100 } =
      .error .expired ∧
    verifyRotatingWith strict (dashboardCodec json) (tokenUntil json 50 current) retired [current] { now := 100 } =
      .error .badSignature := by
  refine ⟨⟨by decide, ?_⟩, ?_, ?_⟩
  · rw [tokenUntil, verifyRotating_sign (dashboardCodec_member json _)]
    rfl
  · rw [tokenUntil, verifyRotating_sign (dashboardCodec_member json _)]
    rfl
  · have hretired : verify strict (dashboardCodec json) (tokenUntil json 50 current) retired { now := 100 } =
        .error .badSignature := verify_sign_other (by change retired ≠ current; decide)
    have hcurrent : (verify strict (dashboardCodec json) (tokenUntil json 50 current) current { now := 100 }).toOption =
        none := by
      rw [tokenUntil, verify_sign (dashboardCodec_member json _)]
      rfl
    rw [verifyRotatingWith, hretired, List.findSome?_cons, hcurrent]
    rfl

end Demo

open Wire.Demo Hs256.Demo

/-- In the last second of an `i64` a token is refused that expires a second later, with the leeway; and of a token that
has expired, its key says so as the current one, but that the signature is wrong as a retired one. -/
theorem verifyRotating_differs : ((2 ^ 63 - 1 : ℤ) < (member (.ofInt (2 ^ 63 - 1))).exp.toInt + 1 ∧
      verifyRotatingWith strict (dashboardCodec text) (tokenUntil text (.ofInt (2 ^ 63 - 1)) current) current []
        { leewaySecs := 1, now := 2 ^ 63 - 1 } = .error .expired) ∧
    verifyRotatingWith strict (dashboardCodec text) (tokenUntil text 50 current) current [retired] { now := 100 } =
      .error .expired ∧
    verifyRotatingWith strict (dashboardCodec text) (tokenUntil text 50 current) retired [current] { now := 100 } =
      .error .badSignature :=
  dashboard_differs text

/-- A token that was signed under the retired key. -/
theorem verifyRotating_exact_retired :
    NotForged strict text (fun _ _ _ => True) [current, retired] (tokenUntil text 50 retired) ∧
    verifyRotatingWith strict (dashboardCodec text) (tokenUntil text 50 retired) current [retired] { now := 10 } =
      .ok (member 50) ∧
    Exact strict text { now := 10 } (fun _ _ _ => True) .dashboard current [retired] := by
  generalize text = json
  have hforged : NotForged strict json (fun _ _ _ => True) [current, retired] (tokenUntil json 50 retired) := by
    intro k _ header payload signature hsplit _
    rw [tokenUntil, splitSegments_sign] at hsplit
    cases hsplit
    exact ⟨.dashboard, member 50, trivial, rfl⟩
  have hexact : Exact strict json { now := 10 } (fun _ _ _ => True) .dashboard current [retired] :=
    verifyRotating_exact strict_canonical strict_apart _ _
  refine ⟨hforged, (hexact.accepted _ hforged (member 50)).mpr ⟨⟨retired, ?_, trivial, rfl⟩, ?_, ?_⟩, hexact⟩
  · exact mem_cons_of_mem _ mem_cons_self
  · exact validateTemporal_iff.mp rfl
  · exact ⟨nofun, nofun⟩

end BymaxAuth.Wire
