import Mathlib.Data.Nat.Digits.Lemmas

/-!
# The provisioning URI

`provisioning_uri` writes a secret, an account and an issuer into the `otpauth://` URI that an authenticator app reads.
The account and the issuer may be any text; they are percent-encoded byte by byte. The secret is written in Base32,
which `decode_secret_base32` also reads in lower case and in groups.

## The model

The Base32 of the `data_encoding` crate is RFC 4648's, without padding. A text is read as the digits of one number,
to base 256 or to base 32.
-/

namespace BymaxAuth.Otpauth

open List

/-! ### The code -/

/-- The alphabet of Base32. -/
def base32 : List Char := "ABCDEFGHIJKLMNOPQRSTUVWXYZ234567".toList

/-- The symbol of an index. -/
def symbol (index : ℕ) : Char := base32.getD index 'A'

/-- `encode_secret_base32`, which is `BASE32_NOPAD.encode`: the bits of the bytes in a row, filled up with zeros to a
multiple of five, and a symbol for every five. -/
def encodeSecretBase32 (secret : List UInt8) : List Char :=
  let bits := Nat.ofDigits 256 (secret.reverse.map UInt8.toNat)
  let length := (8 * secret.length + 4) / 5
  (Nat.digitsAppend 32 length (bits * 2 ^ (5 * length - 8 * secret.length))).reverse.map symbol

/-- `BASE32_NOPAD.decode` -/
def decodeBase32 (text : List Char) : Option (List UInt8) := do
  let indices ← text.mapM base32.idxOf?
  let bits := Nat.ofDigits 32 indices.reverse
  let spare := 5 * text.length % 8
  -- a symbol too many is refused, and so is a filling that is not zero
  guard (spare < 5 ∧ bits % 2 ^ spare = 0)
  pure ((Nat.digitsAppend 256 (5 * text.length / 8) (bits / 2 ^ spare)).reverse.map UInt8.ofNat)

/-- `char::is_whitespace` -/
def isWhitespace (c : Char) : Bool :=
  let n := c.toNat
  (9 ≤ n && n ≤ 13) || (0x2000 ≤ n && n ≤ 0x200A) ||
    n ∈ [0x20, 0x85, 0xA0, 0x1680, 0x2028, 0x2029, 0x202F, 0x205F, 0x3000]

-- Unicode's capitals of the characters beyond ASCII: any table will do.
variable (table : Char → List Char)

/-- `char::to_uppercase` -/
def toUppercase (c : Char) : List Char := if c.toNat < 128 then [c.toUpper] else table c

/-- `decode_secret_base32` -/
def decodeSecretBase32 (secret : List Char) : Option (List UInt8) :=
  decodeBase32 ((secret.filter fun c => ! isWhitespace c && c ≠ '-').flatMap (toUppercase table))

/-- The bytes that are not escaped. -/
def unreserved (byte : UInt8) : Bool :=
  (Char.ofNat byte.toNat).isAlphanum || Char.ofNat byte.toNat ∈ ['-', '_', '.', '~']

/-- `HEX_UPPER` -/
def hexUpper : List Char := "0123456789ABCDEF".toList

/-- `percent_encode`, of one byte. -/
def encodeByte (byte : UInt8) : List Char :=
  if unreserved byte then [Char.ofNat byte.toNat]
  else ['%', hexUpper.getD (byte >>> 4).toNat '0', hexUpper.getD (byte &&& 0x0f).toNat '0']

/-- `percent_encode` -/
def percentEncode (input : String) : List Char := (input.toList.flatMap String.utf8EncodeChar).flatMap encodeByte

/-- What a URI begins with. -/
def scheme : List Char := "otpauth://totp/".toList

/-- `provisioning_uri` -/
def provisioningUri (secret : List UInt8) (account issuer : String) : List Char :=
  scheme ++ percentEncode issuer ++ ':' :: percentEncode account ++ "?secret=".toList ++
    encodeSecretBase32 secret ++ "&issuer=".toList ++ percentEncode issuer ++ "&period=30&digits=6&algorithm=SHA1".toList

/-! ### Reading it back -/

/-- The bytes of a percent-encoded text. -/
def decodeBytes : List Char → Option (List UInt8)
  | '%' :: high :: low :: rest => do
    let high ← hexUpper.idxOf? high
    let low ← hexUpper.idxOf? low
    (UInt8.ofNat (16 * high + low) :: ·) <$> decodeBytes rest
  | c :: rest => if c = '%' || 128 ≤ c.toNat then none else (UInt8.ofNat c.toNat :: ·) <$> decodeBytes rest
  | [] => some []

/-- Percent-decode a text. -/
def percentDecode (l : List Char) : Option String :=
  (decodeBytes l).bind fun bytes => String.fromUTF8? bytes.toByteArray

/-- Cut a text at the first occurrence of a character. -/
def cut (separator : Char) (l : List Char) : List Char × List Char :=
  (l.takeWhile (· ≠ separator), (l.dropWhile (· ≠ separator)).tail)

/-- The issuer, the account and the parameters of a URI: what is before the first question mark, cut at the first colon
of the label, and what is after it, cut at the ampersands and the equals signs. -/
def parse (uri : List Char) : Option (String × String × List (String × String)) := do
  let label := cut ':' ((cut '?' uri).1.drop scheme.length)
  let parameters ← ((cut '?' uri).2.splitOn '&').mapM fun parameter => do
    pure (← percentDecode (cut '=' parameter).1, ← percentDecode (cut '=' parameter).2)
  pure (← percentDecode label.1, ← percentDecode label.2, parameters)

/-! ### Percent-encoding -/

theorem forall_byte {P : UInt8 → Prop} (h : ∀ n < 256, P (UInt8.ofNat n)) (byte : UInt8) : P byte := by
  simpa using h byte.toNat byte.toNat_lt

theorem unreserved_byte : ∀ byte, unreserved byte = true → Char.ofNat byte.toNat ≠ '%' ∧
    (Char.ofNat byte.toNat).toNat < 128 ∧ UInt8.ofNat (Char.ofNat byte.toNat).toNat = byte :=
  forall_byte (by decide +kernel)

theorem hexUpper_byte : ∀ byte : UInt8,
    hexUpper.idxOf? (hexUpper.getD (byte >>> 4).toNat '0') = some (byte >>> 4).toNat ∧
    hexUpper.idxOf? (hexUpper.getD (byte &&& 0x0f).toNat '0') = some (byte &&& 0x0f).toNat ∧
    UInt8.ofNat (16 * (byte >>> 4).toNat + (byte &&& 0x0f).toNat) = byte :=
  forall_byte (by decide +kernel)

/-- An encoded byte is decoded. -/
theorem decodeBytes_encodeByte (byte : UInt8) (rest : List Char) :
    decodeBytes (encodeByte byte ++ rest) = (byte :: ·) <$> decodeBytes rest := by
  unfold encodeByte
  split
  · next h =>
    obtain ⟨hpercent, hascii, hbyte⟩ := unreserved_byte byte h
    simp [decodeBytes, hpercent, Nat.not_le.mpr hascii, hbyte]
  · simp only [cons_append, nil_append, decodeBytes, hexUpper_byte, Option.bind_eq_bind, Option.bind_some]

/-- No separator is in it. -/
theorem encodeByte_separators : ∀ byte, (encodeByte byte).all (· ∉ [':', '?', '&', '=']) = true :=
  forall_byte (by decide +kernel)

theorem not_mem_percentEncode {separator : Char} (h : separator ∈ [':', '?', '&', '=']) (input : String) :
    separator ∉ percentEncode input := by
  intro hmem
  obtain ⟨byte, -, hc⟩ := mem_flatMap.mp hmem
  simpa [h] using all_eq_true.mp (encodeByte_separators byte) separator hc

theorem decodeBytes_flatMap (bytes : List UInt8) : decodeBytes (bytes.flatMap encodeByte) = some bytes := by
  induction bytes with
  | nil => rfl
  | cons byte bytes ih => rw [flatMap_cons, decodeBytes_encodeByte, ih, Option.map_eq_map, Option.map_some]

/-- An encoded text is decoded. -/
theorem percentDecode_percentEncode (input : String) : percentDecode (percentEncode input) = some input := by
  have hbytes : (input.toList.flatMap String.utf8EncodeChar).toByteArray = input.toByteArray :=
    String.utf8Encode_toList
  rw [percentDecode, percentEncode, decodeBytes_flatMap, Option.bind_some, hbytes, String.fromUTF8?,
    dif_pos input.isValidUTF8]
  rfl

theorem base32_chars : base32.all (fun c => (String.utf8EncodeChar c).flatMap encodeByte = [c] &&
    (c.isUpper || c.isDigit)) = true := by
  decide +kernel

/-- A text in Base32 is not changed. -/
theorem percentEncode_base32 {l : List Char} (h : ∀ c ∈ l, c ∈ base32) : percentEncode (String.ofList l) = l := by
  have hchar : ∀ c ∈ l, (String.utf8EncodeChar c).flatMap encodeByte = [c] := by
    intro c hc
    have hbase := all_eq_true.mp base32_chars c (h c hc)
    grind
  rw [percentEncode, String.toList_ofList, flatMap_assoc, flatMap_congr hchar]
  simp

/-! ### Base32 -/

theorem symbol_index : ∀ i < 32, symbol i ∈ base32 ∧ base32.idxOf? (symbol i) = some i := by decide +kernel

theorem mapM_symbol {l : List ℕ} (h : ∀ i ∈ l, i < 32) : (l.map symbol).mapM base32.idxOf? = some l := by
  induction l with
  | nil => rfl
  | cons i l ih =>
    rw [forall_mem_cons] at h
    rw [map_cons, mapM_cons, (symbol_index i h.1).2, ih h.2]
    rfl

theorem mem_encodeSecretBase32 {secret : List UInt8} {c : Char} (h : c ∈ encodeSecretBase32 secret) : c ∈ base32 := by
  obtain ⟨i, hi, rfl⟩ := mem_map.mp h
  exact (symbol_index i (Nat.lt_of_mem_digitsAppend (by decide) _ _ (mem_reverse.mp hi))).1

/-- The filled bits of `k` symbols. -/
theorem filled_lt {bits n k fill : ℕ} (hbits : bits < 256 ^ n) (hk : 8 * n + fill = 5 * k) :
    bits * 2 ^ fill < 32 ^ k :=
  calc bits * 2 ^ fill < 256 ^ n * 2 ^ fill := Nat.mul_lt_mul_of_pos_right hbits (Nat.two_pow_pos fill)
    _ = 2 ^ (8 * n + fill) := by rw [Nat.pow_add, Nat.pow_mul]
    _ = 32 ^ k := by rw [hk, Nat.pow_mul]

/-- A secret in Base32 is read back. -/
theorem decodeBase32_encode (secret : List UInt8) : decodeBase32 (encodeSecretBase32 secret) = some secret := by
  have hbytes : (secret.reverse.map UInt8.toNat).length = secret.length ∧
      ∀ b ∈ secret.reverse.map UInt8.toNat, b < 256 := by
    refine ⟨by simp, fun b hb => ?_⟩
    obtain ⟨byte, -, rfl⟩ := mem_map.mp hb
    exact byte.toNat_lt
  generalize hbits : Nat.ofDigits 256 (secret.reverse.map UInt8.toNat) = bits
  generalize hk : (8 * secret.length + 4) / 5 = k
  generalize hfill : 5 * k - 8 * secret.length = fill
  have hlt : bits * 2 ^ fill < 32 ^ k :=
    filled_lt (hbits ▸ Nat.mapsTo_ofDigits (by decide) _ hbytes) (n := secret.length) (by omega)
  have hsymbols : ∀ i ∈ (Nat.digitsAppend 32 k (bits * 2 ^ fill)).reverse, i < 32 := fun i hi =>
    Nat.lt_of_mem_digitsAppend (by decide) _ _ (mem_reverse.mp hi)
  have hlength : (Nat.digitsAppend 32 k (bits * 2 ^ fill)).length = k := Nat.length_digitsAppend (by decide) k hlt
  have hspare : 5 * k % 8 = fill := by omega
  have hcount : 5 * k / 8 = secret.length := by omega
  have hguard : fill < 5 := by omega
  -- the digits of either base are read back
  have hread : Nat.ofDigits 32 (Nat.digitsAppend 32 k (bits * 2 ^ fill)) = bits * 2 ^ fill :=
    (Nat.setInvOn_digitsAppend_ofDigits (by decide) k).2 hlt
  have hback : Nat.digitsAppend 256 secret.length bits = secret.reverse.map UInt8.toNat :=
    hbits ▸ (Nat.setInvOn_digitsAppend_ofDigits (by decide) _).1 hbytes
  have hbyte : UInt8.ofNat ∘ UInt8.toNat = id := funext fun _ => UInt8.ofNat_toNat
  simp only [decodeBase32, encodeSecretBase32, hk, hfill, hbits, mapM_symbol hsymbols, Option.bind_eq_bind,
    Option.bind_some, length_map, length_reverse, hlength, hspare, hcount, reverse_reverse, hread, Nat.mul_mod_left,
    Nat.mul_div_cancel _ (Nat.two_pow_pos fill), hback, hguard]
  simp [hbyte]

/-! ### The parts -/

theorem cut_append {separator : Char} {l : List Char} (h : separator ∉ l) (m : List Char) :
    cut separator (l ++ separator :: m) = (l, m) := by
  have hall : ∀ c ∈ l, (! decide (c = separator)) = true := by
    intro c hc
    simpa using fun heq : c = separator => h (heq ▸ hc)
  simp [cut, takeWhile_append_of_pos hall, dropWhile_append_of_pos hall]

/-- A URI of these parts. -/
def write (issuer account : String) (parameters : List (String × String)) : List Char :=
  (scheme ++ (percentEncode issuer ++ ':' :: percentEncode account)) ++
    '?' :: ['&'].intercalate (parameters.map fun p => percentEncode p.1 ++ '=' :: percentEncode p.2)

theorem mapM_parameters (l : List (String × String)) :
    (l.map fun p => percentEncode p.1 ++ '=' :: percentEncode p.2).mapM (fun parameter => do
      pure (← percentDecode (cut '=' parameter).1, ← percentDecode (cut '=' parameter).2)) = some l := by
  induction l with
  | nil => rfl
  | cons p l ih =>
    rw [map_cons, mapM_cons, cut_append (not_mem_percentEncode (by simp) _), ih]
    simp [percentDecode_percentEncode]

/-- Its parts are read back. -/
theorem parse_write (issuer account : String) {parameters : List (String × String)} (hne : parameters ≠ []) :
    parse (write issuer account parameters) = some (issuer, account, parameters) := by
  have hscheme : '?' ∉ scheme := by decide +kernel
  have hquestion : '?' ∉ scheme ++ (percentEncode issuer ++ ':' :: percentEncode account) := by
    simp [hscheme, not_mem_percentEncode]
  have hcolon : ':' ∉ percentEncode issuer := not_mem_percentEncode (by simp) issuer
  have hampersand : ∀ l ∈ parameters.map fun p => percentEncode p.1 ++ '=' :: percentEncode p.2, '&' ∉ l := by
    intro l hl
    obtain ⟨p, -, rfl⟩ := mem_map.mp hl
    simp [not_mem_percentEncode]
  have hsplit := splitOn_intercalate '&' hampersand (by simpa using hne)
  simp only [parse, write, cut_append hquestion, drop_left, cut_append hcolon, hsplit, mapM_parameters,
    percentDecode_percentEncode]
  rfl

/-- The parameters of a provisioning URI. -/
def parameters (secret : List UInt8) (issuer : String) : List (String × String) :=
  [("secret", String.ofList (encodeSecretBase32 secret)), ("issuer", issuer), ("period", "30"), ("digits", "6"),
    ("algorithm", "SHA1")]

theorem provisioningUri_eq_write (secret : List UInt8) (account issuer : String) :
    provisioningUri secret account issuer = write issuer account (parameters secret issuer) := by
  have hsecret : percentEncode (String.ofList (encodeSecretBase32 secret)) = encodeSecretBase32 secret :=
    percentEncode_base32 fun _ => mem_encodeSecretBase32
  have hliteral : ∀ t ∈ ["secret", "issuer", "period", "30", "digits", "6", "algorithm", "SHA1"],
      percentEncode t = t.toList := by decide +kernel
  simp [provisioningUri, write, parameters, intercalate, hsecret, hliteral]

/-! ### The secret -/

/-- A Base32 text, in either case and with spaces and hyphens anywhere. -/
def Shows (text encoded : List Char) : Prop := (text.filter fun c => c ≠ ' ' && c ≠ '-').map Char.toUpper = encoded

theorem isAlphanum_of_toUpper {c : Char} (h : c.toUpper ∈ base32) : c.isAlphanum = true := by
  have hbase := all_eq_true.mp base32_chars _ h
  by_cases hlower : c.isLower = true
  · delta Char.isAlphanum Char.isAlpha
    simp [hlower]
  · have hsame : c.toUpper = c := dif_neg fun hrange => hlower (by delta Char.isLower; simpa using hrange)
    rw [hsame] at hbase
    delta Char.isAlphanum Char.isAlpha
    grind

/-- An ASCII letter or digit is not white, and its capital is the ASCII one. -/
theorem ascii_alphanum {c : Char} (h : c.isAlphanum = true) :
    isWhitespace c = false ∧ toUppercase table c = [c.toUpper] := by
  have hrange : 48 ≤ c.toNat ∧ c.toNat ≤ 122 := by
    delta Char.isAlphanum Char.isAlpha Char.isUpper Char.isLower Char.isDigit at h
    simp only [Bool.or_eq_true, Bool.and_eq_true, decide_eq_true_eq, UInt32.le_iff_toNat_le, Char.reduceVal,
      UInt32.reduceToNat] at h
    rw [Char.toNat]
    omega
  refine ⟨Bool.eq_false_iff.mpr fun hwhite => ?_, if_pos (by omega)⟩
  simp only [isWhitespace, Bool.or_eq_true, Bool.and_eq_true, decide_eq_true_eq, mem_cons, not_mem_nil,
    or_false] at hwhite
  omega

theorem decodeSecretBase32_shown {secret : List UInt8} {text : List Char} (h : Shows text (encodeSecretBase32 secret)) :
    decodeSecretBase32 table text = some secret := by
  have halphanum : ∀ c ∈ text, c ≠ ' ' → c ≠ '-' → c.isAlphanum = true := by
    intro c hc hspace hhyphen
    have hmem : c.toUpper ∈ encodeSecretBase32 secret :=
      h ▸ mem_map_of_mem (mem_filter.mpr ⟨hc, by simp [hspace, hhyphen]⟩)
    exact isAlphanum_of_toUpper (mem_encodeSecretBase32 hmem)
  have hfilter : text.filter (fun c => ! isWhitespace c && c ≠ '-') = text.filter fun c => c ≠ ' ' && c ≠ '-' := by
    refine filter_congr fun c hc => ?_
    by_cases hspace : c = ' '
    · simp [hspace, isWhitespace]
    · by_cases hhyphen : c = '-'
      · simp [hhyphen]
      · simp [hspace, hhyphen, (ascii_alphanum table (halphanum c hc hspace hhyphen)).1]
  have hcapital : ∀ c ∈ text.filter fun c => c ≠ ' ' && c ≠ '-', toUppercase table c = [c.toUpper] := by
    intro c hc
    obtain ⟨hc, hkept⟩ := mem_filter.mp hc
    simp only [Bool.and_eq_true, decide_eq_true_eq] at hkept
    exact (ascii_alphanum table (halphanum c hc hkept.1 hkept.2)).2
  rw [decodeSecretBase32, hfilter, flatMap_congr hcapital, ← map_eq_flatMap, h, decodeBase32_encode]

/-- **The provisioning URI is an exact encoding.** -/
theorem provisioningUri_exact (table : Char → List Char) (secret : List UInt8) (account issuer : String) :
    parse (provisioningUri secret account issuer) = some (issuer, account,
      [("secret", String.ofList (encodeSecretBase32 secret)), ("issuer", issuer), ("period", "30"), ("digits", "6"),
        ("algorithm", "SHA1")]) ∧
    (∀ text, Shows text (encodeSecretBase32 secret) → decodeSecretBase32 table text = some secret) ∧
    ∀ secret' account' issuer', provisioningUri secret' account' issuer' = provisioningUri secret account issuer →
      secret' = secret ∧ account' = account ∧ issuer' = issuer := by
  have hparse : ∀ secret account issuer,
      parse (provisioningUri secret account issuer) = some (issuer, account, parameters secret issuer) := by
    intro secret account issuer
    rw [provisioningUri_eq_write, parse_write _ _ (by simp [parameters])]
  refine ⟨hparse secret account issuer, fun text => decodeSecretBase32_shown table, ?_⟩
  intro secret' account' issuer' heq
  have hparts := (hparse secret' account' issuer').symm.trans ((congrArg parse heq).trans (hparse secret account issuer))
  simp only [parameters, Option.some.injEq, Prod.mk.injEq, cons.injEq, String.ofList_inj] at hparts
  have hsecret := congrArg decodeBase32 hparts.2.2.1.2
  rw [decodeBase32_encode, decodeBase32_encode] at hsecret
  exact ⟨Option.some.inj hsecret, hparts.2.1, hparts.1⟩

/-- A secret as an authenticator app shows it, and two texts that are full of separators. -/
theorem provisioningUri_exact_grouped :
    let secret := [0x66, 0x6f, 0x6f]
    parse (provisioningUri secret "a:b?c" "50% & more") = some ("50% & more", "a:b?c",
      [("secret", "MZXW6"), ("issuer", "50% & more"), ("period", "30"), ("digits", "6"), ("algorithm", "SHA1")]) ∧
    decodeSecretBase32 singleton "mzx w-6".toList = some secret := by
  have hencode : encodeSecretBase32 [0x66, 0x6f, 0x6f] = "MZXW6".toList := by decide +kernel
  obtain ⟨hparse, hshown, -⟩ := provisioningUri_exact singleton [0x66, 0x6f, 0x6f] "a:b?c" "50% & more"
  rw [hencode] at hparse hshown
  exact ⟨hparse, hshown _ (by unfold Shows; decide +kernel)⟩

end BymaxAuth.Otpauth
