import Mathlib.Data.List.GetD
import Mathlib.Data.List.Nodup
import Mathlib.Data.Option.Basic
import Mathlib.Data.Vector.Defs

/-!
# Service API keys

`api_key.rs`: a key is `prefix_keyid_secret`, with a lowercase canonical UUID as the id and 32 random bytes in unpadded
base64url as the secret. The separator is a letter of base64url too, so `parse` goes by the length of the id.

## The model

A string is its UTF-8 bytes. The digests are compared as lists: `constant_time_eq` is that, in constant time.
-/

namespace BymaxAuth.ApiKey

open List hiding Vector
open Option

/-- `SEPARATOR` -/
def separator : UInt8 := '_'.toUInt8

/-- `BASE64URL` -/
def base64url : List UInt8 :=
  "ABCDEFGHIJKLMNOPQRSTUVWXYZabcdefghijklmnopqrstuvwxyz0123456789-_".toList.map Char.toUInt8

/-- The group of three bytes, as four indices. -/
def group (b₀ b₁ b₂ : UInt8) : List ℕ :=
  let n := b₀.toNat * 65536 + b₁.toNat * 256 + b₂.toNat
  [n / 262144 % 64, n / 4096 % 64, n / 64 % 64, n % 64]

/-- `BASE64URL[index]` -/
def letter (index : ℕ) : UInt8 := base64url.getD index 0

/-- `encode_base64url` -/
def encodeBase64url : List UInt8 → List UInt8
  | [] => []
  | [b₀] => ((group b₀ 0 0).take 2).map letter
  | [b₀, b₁] => ((group b₀ b₁ 0).take 3).map letter
  | b₀ :: b₁ :: b₂ :: rest => (group b₀ b₁ b₂).map letter ++ encodeBase64url rest

/-- `generate_secret`, from the random bytes. -/
def generateSecret (bytes : Vector UInt8 32) : List UInt8 := encodeBase64url bytes.toList

/-- `b'0'..=b'9' | b'a'..=b'f'` -/
def isHexDigit (b : UInt8) : Bool := (48 ≤ b && b ≤ 57) || (97 ≤ b && b ≤ 102)

/-- `is_key_id` -/
def isKeyId (s : List UInt8) : Bool :=
  s.length == 36 && s.zipIdx.all fun ⟨b, i⟩ => if i ∈ [8, 13, 18, 23] then b == '-'.toUInt8 else isHexDigit b

/-- `is_secret` -/
def isSecret (s : List UInt8) : Bool := s.length == 43 && s.all (base64url.contains ·)

/-- `format` -/
def format (prefix_ keyId secret : List UInt8) : List UInt8 :=
  prefix_ ++ ([separator] ++ (keyId ++ separator :: secret))

/-- `str::is_char_boundary`: a continuation byte does not begin a character. -/
def isCharBoundary (s : List UInt8) (i : ℕ) : Bool := i ≤ s.length && s[i]?.all fun b => b < 128 || 192 ≤ b

/-- `str::strip_prefix` -/
def stripPrefix (s pattern : List UInt8) : Option (List UInt8) :=
  if pattern <+: s then some (s.drop pattern.length) else none

/-- `ParsedApiKey` -/
structure ParsedApiKey where
  keyId : List UInt8
  secret : List UInt8
  deriving DecidableEq

/-- `parse` -/
def parse (raw prefix_ : List UInt8) : Option ParsedApiKey := do
  let rest ← stripPrefix (← stripPrefix raw prefix_) [separator]
  guard (isCharBoundary rest 36)
  let keyId := rest.take 36
  if rest[36]? ≠ some separator then none else
  guard (isCharBoundary rest 37)
  let secret := rest.drop 37
  if isKeyId keyId && isSecret secret then some ⟨keyId, secret⟩ else none

/-- `nibble` -/
def nibble (b : UInt8) : UInt8 := if 48 ≤ b ∧ b ≤ 57 then b - 48 else b - 97 + 10

/-- The loop of `decode_digest`. -/
def decodePairs : List UInt8 → List UInt8
  | a :: b :: rest => (nibble a * 16 + nibble b) :: decodePairs rest
  | _ => []

/-- The digits of a digest: 64, in lower case. -/
def isDigest (hex : List UInt8) : Bool := hex.length == 64 && hex.all isHexDigit

/-- `decode_digest` -/
def decodeDigest (hex : List UInt8) : List UInt8 × Bool :=
  (if isDigest hex then decodePairs hex else List.replicate 32 0, isDigest hex)

/-- `digests_match` -/
def digestsMatch (computed stored : List UInt8) : Bool :=
  let (left, leftOk) := decodeDigest computed
  let (right, rightOk) := decodeDigest stored
  left == right && leftOk && rightOk

/-! ### Base64 -/

theorem letter_eq {i : ℕ} (hi : i < 64) : ∃ h : i < base64url.length, letter i = base64url[i] := by
  have hlen : base64url.length = 64 := by decide +kernel
  exact ⟨hlen ▸ hi, getD_eq_getElem _ _ _⟩

variable {b₀ b₁ b₂ b : UInt8}

theorem mem_group {i : ℕ} (h : i ∈ group b₀ b₁ b₂) : i < 64 := by
  simp only [group, List.mem_cons, List.not_mem_nil, or_false] at h
  omega

/-- The letters of a group give its indices back. -/
theorem map_letter_inj {n : ℕ} {c₀ c₁ c₂ : UInt8}
    (h : ((group b₀ b₁ b₂).take n).map letter = ((group c₀ c₁ c₂).take n).map letter) :
    (group b₀ b₁ b₂).take n = (group c₀ c₁ c₂).take n := by
  have hnodup : base64url.Nodup := by decide +kernel
  have hback : ∀ {b₀ b₁ b₂ : UInt8},
      (((group b₀ b₁ b₂).take n).map letter).map base64url.idxOf = (group b₀ b₁ b₂).take n := by
    intro b₀ b₁ b₂
    rw [List.map_map]
    refine (List.map_congr_left fun i hi => ?_).trans (List.map_id _)
    obtain ⟨hlt, heq⟩ := letter_eq (mem_group (List.mem_of_mem_take hi))
    rw [Function.comp, heq, hnodup.idxOf_getElem, id]
  rw [← hback, h, hback]

theorem length_encodeBase64url (bytes : List UInt8) : (encodeBase64url bytes).length = (4 * bytes.length + 2) / 3 := by
  fun_induction encodeBase64url bytes with
  | case1 => rfl
  | case2 | case3 => simp [group]
  | case4 b₀ b₁ b₂ rest ih =>
    rw [length_append, ih]
    simp only [group, length_map, length_cons, length_nil]
    omega

theorem mem_encodeBase64url {bytes : List UInt8} (h : b ∈ encodeBase64url bytes) : b ∈ base64url := by
  have hgroup : ∀ {b₀ b₁ b₂ n}, b ∈ ((group b₀ b₁ b₂).take n).map letter → b ∈ base64url := by
    intro b₀ b₁ b₂ n hb
    obtain ⟨i, hi, rfl⟩ := mem_map.mp hb
    obtain ⟨hlt, heq⟩ := letter_eq (mem_group (List.mem_of_mem_take hi))
    exact heq ▸ getElem_mem hlt
  fun_induction encodeBase64url bytes with
  | case1 => cases h
  | case2 | case3 => exact hgroup h
  | case4 b₀ b₁ b₂ rest ih => exact (mem_append.mp h).elim (hgroup (n := 4)) ih

theorem group_inj {c₀ c₁ c₂ : UInt8} (h : group b₀ b₁ b₂ = group c₀ c₁ c₂) : b₀ = c₀ ∧ b₁ = c₁ ∧ b₂ = c₂ := by
  have hlt : ∀ b : UInt8, b.toNat < 256 := UInt8.toNat_lt
  have := hlt b₀; have := hlt b₁; have := hlt b₂; have := hlt c₀; have := hlt c₁; have := hlt c₂
  simp only [group, List.cons.injEq, and_true] at h
  simp only [← UInt8.toNat_inj]
  omega

/-- Bytes with the same encoding are the same. -/
theorem encodeBase64url_injective {bytes bytes' : List UInt8} (hlen : bytes.length = bytes'.length)
    (h : encodeBase64url bytes = encodeBase64url bytes') : bytes = bytes' := by
  -- the indices a short group leaves out are zero
  have hshort : ∀ {b₀ b₁ c₀ c₁}, (group b₀ b₁ 0).take 3 = (group c₀ c₁ 0).take 3 → b₀ = c₀ ∧ b₁ = c₁ := by
    intro b₀ b₁ c₀ c₁ heq
    have hgroup : group b₀ b₁ 0 = group c₀ c₁ 0 := by
      simp [group] at heq ⊢
      omega
    exact ⟨(group_inj hgroup).1, (group_inj hgroup).2.1⟩
  fun_induction encodeBase64url bytes generalizing bytes' with
  | case1 => exact (length_eq_zero_iff.mp hlen.symm).symm
  | case2 b₀ =>
    obtain ⟨c₀, rfl⟩ := length_eq_one_iff.mp hlen.symm
    have hgroup := map_letter_inj h
    have heq : (group b₀ 0 0).take 3 = (group c₀ 0 0).take 3 := by
      simp [group] at hgroup ⊢
      omega
    rw [(hshort heq).1]
  | case3 b₀ b₁ =>
    obtain ⟨c₀, c₁, rfl⟩ := length_eq_two.mp hlen.symm
    obtain ⟨rfl, rfl⟩ := hshort (map_letter_inj h)
    rfl
  | case4 b₀ b₁ b₂ rest ih =>
    obtain _ | ⟨c₀, _ | ⟨c₁, _ | ⟨c₂, rest'⟩⟩⟩ := bytes'
    case cons.cons.cons =>
      obtain ⟨hgroup, hrest⟩ := append_inj h (by simp [group])
      obtain ⟨rfl, rfl, rfl⟩ := group_inj (map_letter_inj (n := 4) hgroup)
      rw [ih (by simpa using hlen) hrest]
    all_goals simp at hlen

/-! ### Keys -/

theorem stripPrefix_eq_some_iff {s pattern rest : List UInt8} :
    stripPrefix s pattern = some rest ↔ s = pattern ++ rest := by
  unfold stripPrefix
  split
  · next h =>
    obtain ⟨t, rfl⟩ := h
    simp
  · next h =>
    refine ⟨nofun, ?_⟩
    rintro rfl
    exact absurd (prefix_append pattern rest) h

theorem isCharBoundary_of {s t : List UInt8} (hb : b < 128) : isCharBoundary (s ++ b :: t) s.length = true := by
  simp [isCharBoundary, hb]

/-- `parse` accepts a key that `format` writes from an id and a secret of the grammar, and nothing else. -/
theorem parse_eq_some_iff (raw prefix_ : List UInt8) (key : ParsedApiKey) : parse raw prefix_ = some key ↔
      raw = format prefix_ key.keyId key.secret ∧ isKeyId key.keyId = true ∧ isSecret key.secret = true := by
  constructor
  · intro h
    simp only [parse, bind_eq_bind, bind_eq_some_iff, stripPrefix_eq_some_iff] at h
    obtain ⟨_, rfl, rest, rfl, -, -, h⟩ := h
    split at h
    · cases h
    · next hsep =>
      obtain ⟨-, -, h⟩ := bind_eq_some_iff.mp h
      split at h
      · next hok =>
        cases h
        rw [Bool.and_eq_true] at hok
        obtain ⟨hlt, heq⟩ := List.getElem?_eq_some_iff.mp (not_not.mp hsep)
        have hrest : rest.take 36 ++ separator :: rest.drop 37 = rest := by
          rw [← heq, ← drop_eq_getElem_cons, take_append_drop]
        exact ⟨by simp only [format, hrest], hok⟩
      · cases h
  · rintro ⟨rfl, hid, hsecret⟩
    obtain ⟨keyId, secret⟩ := key
    obtain ⟨hlen, -⟩ := Bool.and_eq_true_iff.mp hid
    obtain ⟨hsecretLen, hall⟩ := Bool.and_eq_true_iff.mp hsecret
    obtain ⟨b, t, rfl⟩ := exists_cons_of_length_pos (by rw [beq_iff_eq.mp hsecretLen]; decide)
    have hascii : ∀ b ∈ base64url, b < 128 := by decide +kernel
    have hb := hascii b (by simpa using List.all_eq_true.mp hall b mem_cons_self)
    have hsep := isCharBoundary_of (s := keyId) (t := b :: t) (b := separator) (by decide)
    have hend := isCharBoundary_of (s := keyId ++ [separator]) (t := t) hb
    rw [beq_iff_eq] at hlen
    rw [length_append, hlen, ← append_cons] at hend
    rw [hlen] at hsep
    have hat : (keyId ++ separator :: b :: t)[36]? = some separator := by
      rw [List.getElem?_append_right (Nat.le_of_eq hlen), hlen]
      rfl
    have htake : (keyId ++ separator :: b :: t).take 36 = keyId := take_left' hlen
    have hdrop : (keyId ++ separator :: b :: t).drop 37 = b :: t := by
      rw [append_cons]
      exact drop_left' (by simpa using hlen)
    simp only [parse, format, stripPrefix_eq_some_iff.mpr rfl, bind_eq_bind, bind_some, htake, hdrop]
    rw [hsep, hat, show isCharBoundary (keyId ++ separator :: b :: t) 37 = true from hend, hid, hsecret]
    rfl

theorem isSecret_generateSecret (bytes : Vector UInt8 32) : isSecret (generateSecret bytes) = true := by
  rw [isSecret, generateSecret, length_encodeBase64url, Vector.length_toList]
  simpa using fun b => mem_encodeBase64url

/-! ### Digests -/

/-- Two digits' values give them back. -/
theorem nibble_pair_inj {a c d : UInt8} (ha : isHexDigit a = true) (hb : isHexDigit b = true)
    (hc : isHexDigit c = true) (hd : isHexDigit d = true) (h : nibble a * 16 + nibble b = nibble c * 16 + nibble d) :
    a = c ∧ b = d := by
  have hdigit : ∀ n < 256, isHexDigit (.ofNat n) = true → ((nibble (.ofNat n)).toNat < 10 ∧
      n = (nibble (.ofNat n)).toNat + 48) ∨ (10 ≤ (nibble (.ofNat n)).toNat ∧
      (nibble (.ofNat n)).toNat < 16 ∧ n = (nibble (.ofNat n)).toNat + 87) := by
    decide +kernel
  have hval : ∀ {x : UInt8}, isHexDigit x = true → (nibble x).toNat < 10 ∧ x.toNat = (nibble x).toNat + 48 ∨
      10 ≤ (nibble x).toNat ∧ (nibble x).toNat < 16 ∧ x.toNat = (nibble x).toNat + 87 := by
    intro x hx
    have := hdigit x.toNat x.toNat_lt
    rw [UInt8.ofNat_toNat] at this
    exact this hx
  have hnat := congrArg UInt8.toNat h
  rw [UInt8.toNat_add, UInt8.toNat_add, UInt8.toNat_mul, UInt8.toNat_mul] at hnat
  simp only [UInt8.reduceToNat, Nat.reducePow] at hnat
  have := hval ha; have := hval hb; have := hval hc; have := hval hd
  simp only [← UInt8.toNat_inj]
  omega

theorem decodePairs_inj {x y : List UInt8} (hlen : x.length = y.length) (hx : ∀ b ∈ x, isHexDigit b = true)
    (hy : ∀ b ∈ y, isHexDigit b = true) (heven : 2 ∣ x.length) (h : decodePairs x = decodePairs y) : x = y := by
  fun_induction decodePairs x generalizing y with
  | case1 a b rest ih =>
    obtain _ | ⟨c, _ | ⟨d, rest'⟩⟩ := y
    case cons.cons =>
      obtain ⟨hhead, hrest⟩ := List.cons.inj h
      simp only [forall_mem_cons] at hx hy
      obtain ⟨rfl, rfl⟩ := nibble_pair_inj hx.1 hx.2.1 hy.1 hy.2.1 hhead
      rw [ih (by simpa using hlen) hx.2.2 hy.2.2 ((Nat.dvd_add_left (Nat.dvd_refl 2)).mp heven) hrest]
    all_goals simp at hlen
  | case2 x hne =>
    obtain _ | ⟨a, _ | ⟨b, rest⟩⟩ := x
    · exact (length_eq_zero_iff.mp hlen.symm).symm
    · simp at heven
    · exact absurd rfl (hne a b rest)

/-- Two digests match exactly if they are equal and well formed. -/
theorem digestsMatch_iff (x y : List UInt8) : digestsMatch x y = true ↔ x = y ∧ isDigest x = true := by
  simp only [digestsMatch, decodeDigest, Bool.and_eq_true, beq_iff_eq]
  constructor
  · rintro ⟨⟨h, hx⟩, hy⟩
    rw [if_pos hx, if_pos hy] at h
    refine ⟨?_, hx⟩
    simp only [isDigest, Bool.and_eq_true, beq_iff_eq, List.all_eq_true] at hx hy
    exact decodePairs_inj (hx.1.trans hy.1.symm) hx.2 hy.2 (by rw [hx.1]; decide) h
  · rintro ⟨rfl, hx⟩
    exact ⟨⟨rfl, hx⟩, hx⟩

/-- An issued key parses back to its id and its secret; what parses is what `format` writes, of parts of the grammar;
other random bytes make another secret of 43 characters; and digests match exactly if they are equal and well formed. -/
theorem api_key_round_trip : (∀ (prefix_ keyId : List UInt8) (bytes : Vector UInt8 32), isKeyId keyId = true →
      parse (format prefix_ keyId (generateSecret bytes)) prefix_ = some ⟨keyId, generateSecret bytes⟩) ∧
    (∀ (raw prefix_ : List UInt8) (key : ParsedApiKey), parse raw prefix_ = some key →
      raw = format prefix_ key.keyId key.secret ∧ isKeyId key.keyId = true ∧ isSecret key.secret = true) ∧
    (∀ bytes bytes' : Vector UInt8 32, (generateSecret bytes).length = 43 ∧
      (bytes ≠ bytes' → generateSecret bytes ≠ generateSecret bytes')) ∧
    (∀ x y : List UInt8, digestsMatch x y = true ↔ x = y ∧ x.length = 64 ∧ ∀ b ∈ x, isHexDigit b = true) := by
  refine ⟨fun prefix_ keyId bytes hid => ?_, fun raw prefix_ key h => (parse_eq_some_iff raw prefix_ key).mp h,
    fun bytes bytes' => ⟨?_, fun hne heq => hne ?_⟩, fun x y => ?_⟩
  · exact (parse_eq_some_iff _ _ _).mpr ⟨rfl, hid, isSecret_generateSecret bytes⟩
  · rw [generateSecret, length_encodeBase64url, Vector.length_toList]
  · exact Vector.toList_inj.mp (encodeBase64url_injective (by rw [Vector.length_toList, Vector.length_toList]) heq)
  · rw [digestsMatch_iff, isDigest, Bool.and_eq_true, beq_iff_eq, List.all_eq_true]

/-- The secret of 32 bytes of ones is full of separators. -/
theorem api_key_round_trip_separators :
    parse (format [] ("00000000-0000-4000-8000-000000000000".toList.map Char.toUInt8)
      (generateSecret (.replicate 32 255))) [] =
      some ⟨"00000000-0000-4000-8000-000000000000".toList.map Char.toUInt8, generateSecret (.replicate 32 255)⟩ :=
  api_key_round_trip.1 _ _ _ (by decide +kernel)

end BymaxAuth.ApiKey
