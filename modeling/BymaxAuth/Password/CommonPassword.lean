import Mathlib.Data.Char
import Mathlib.Data.List.DropRight
import Mathlib.Data.List.Forall2
import Mathlib.Data.List.Infix

/-!
# The common-password screen

`CommonPasswordChecker`, the screen that a new password passes by default. A password is reduced to the word its
author started from: lowercased, cut behind its last letter, with leet characters read as the letters they stand
for. It is refused if the word is on a list, or is too short, a run of an alphabet or a repetition.

A decorated form of a word has some letters in the other case, some replaced by a leet character, and any
characters that are no letters behind it.
-/

namespace BymaxAuth.Password.Common

open List Char

/-! ### The code -/

/-- What the screen asks of the Unicode tables, with what they say about ASCII. -/
structure Unicode where
  /-- `str::to_lowercase`. -/
  toLowercase : List Char → List Char
  /-- `char::is_alphabetic`. -/
  isAlphabetic : Char → Bool
  /-- `char::is_alphanumeric`. -/
  isAlphanumeric : Char → Bool
  /-- The ASCII letters are letters. -/
  alphabetic_of_isAlpha : ∀ c, c.isAlpha → isAlphabetic c
  /-- The letters are alphanumeric. -/
  alphanumeric_of_alphabetic : ∀ c, isAlphabetic c → isAlphanumeric c
  /-- Only letters have another case, and the ASCII letters have the ASCII one. -/
  toLowercase_ascii : ∀ l, (∀ c ∈ l, isAlphabetic c → c.isAlpha) → toLowercase l = l.map toLower
  /-- The leet characters are no letters. -/
  not_alphabetic : ∀ c ∈ "0134578@$!|+9".toList, isAlphabetic c = false

/-- `COMMON_BASE_WORDS`. -/
def commonBaseWords : List String :=
  ["password", "passwort", "passwd", "senha", "contrasena", "motdepasse", "welcome", "letmein", "changeme", "secret",
    "default", "temporary", "temppassword", "admin", "administrator", "root", "toor", "guest", "test", "testing",
    "demo", "sample", "login", "user", "username", "account", "access", "private", "security", "secure", "qwerty",
    "qwertyui", "qwertyuiop", "azerty", "qwertz", "asdfgh", "asdfghjk", "asdfghjkl", "zxcvbn", "zxcvbnm", "qazwsx",
    "qazwsxedc", "wsxedc", "qweasd", "qweasdzxc", "poiuytrewq", "iloveyou", "ilovegod", "loveyou", "lovely",
    "sweetheart", "darling", "princess", "prince", "sunshine", "baby", "angel", "honey", "butterfly", "flower",
    "kisses", "football", "baseball", "basketball", "softball", "soccer", "hockey", "liverpool", "arsenal", "chelsea",
    "barcelona", "realmadrid", "juventus", "manutd", "manchester", "superman", "batman", "spiderman", "starwars",
    "pokemon", "minecraft", "fortnite", "thomas", "harley", "ferrari", "porsche", "mercedes", "corvette", "mustang",
    "michael", "jennifer", "jessica", "ashley", "daniel", "charlie", "matthew", "joshua", "andrew", "robert",
    "william", "nicole", "hunter", "jordan", "taylor", "george", "maggie", "buster", "shadow", "ginger", "tigger",
    "pepper", "cookie", "peanut", "snoopy", "dragon", "monkey", "master", "freedom", "whatever", "trustno", "nothing",
    "anything", "computer", "internet", "samsung", "google", "facebook", "apple", "microsoft", "windows",
    "letmeinnow", "iamgod", "ihateyou", "fuckyou", "fuckoff", "bullshit", "asshole", "summer", "winter", "spring",
    "autumn", "january", "february", "october", "november", "december", "september", "monday", "friday", "sunday",
    "money", "business", "company", "office", "manager", "director", "service", "support", "chocolate", "cheese",
    "orange", "purple", "yellow", "silver", "golden", "diamond", "phoenix", "thunder", "lightning", "warrior",
    "ranger", "killer", "legend", "forever", "together", "nevermind", "whatsup", "blessed", "jesus", "jesuschrist"]

/-- `SEQUENCE_ALPHABETS`. -/
def sequenceAlphabets : List String := ["abcdefghijklmnopqrstuvwxyz", "01234567890", "qwertyuiopasdfghjklzxcvbnm"]

/-- `MIN_BASE_LENGTH`. -/
def minBaseLength : ℕ := 4

/-- The letter a leet character stands for. -/
def undoLeet (c : Char) : Char :=
  match c with
  | '0' => 'o'
  | '1' => 'i'
  | '3' => 'e'
  | '4' => 'a'
  | '5' => 's'
  | '7' => 't'
  | '8' => 'b'
  | '9' => 'g'
  | '@' => 'a'
  | '$' => 's'
  | '!' | '|' => 'i'
  | '+' => 't'
  | other => other

/-- Reduce a password to the base word its author started from. -/
def reduceToBaseWord (u : Unicode) (password : List Char) : List Char :=
  let lowered := u.toLowercase password
  let undecorated := lowered.rdropWhile (! u.isAlphabetic ·)
  (undecorated.map undoLeet).filter u.isAlphanumeric

/-- A run along one of the alphabets, forwards or backwards. -/
def isSequential (value : List Char) : Bool :=
  sequenceAlphabets.any fun alphabet => value <:+: alphabet.toList || value <:+: alphabet.toList.reverse

/-- A unit of at most four characters, repeated. -/
def isPaddedRepeat (chars : List Char) : Bool :=
  [1, 2, 3, 4].any fun unit => chars.length > unit * 2 && chars.length % unit = 0 &&
    (List.range (chars.length / unit)).all fun i => (chars.drop (i * unit)).take unit = chars.take unit

/-- The blocked words of `CommonPasswordChecker::with_extra_words`; without extra words, those of `new`. -/
def withExtraWords (u : Unicode) (extra : List (List Char)) : List (List Char) :=
  commonBaseWords.map String.toList ++ extra.map (reduceToBaseWord u)

/-- The verdict on a base word. -/
def isBreachedBase (blocked : List (List Char)) (base : List Char) : Bool :=
  base.length < minBaseLength || base ∈ blocked ||
    (match base with
      | [] => false
      | first :: chars => chars.all (· = first)) ||
    isSequential base || isPaddedRepeat base

/-- The verdict on a password. -/
def isBreached (u : Unicode) (blocked : List (List Char)) (password : List Char) : Bool :=
  isBreachedBase blocked (reduceToBaseWord u password)

/-! ### Decorated words -/

/-- A character in the place of a letter: the letter in either case, or a leet character for it. -/
def StandsFor (letter c : Char) : Prop :=
  if c.isAlpha then c.toLower = letter.toLower else undoLeet c = letter.toLower
deriving Decidable

/-- A decorated form of a word. -/
structure Decorated (u : Unicode) (word : List Char) where
  /-- What stands for the letters. -/
  body : List Char
  /-- What is appended. -/
  appended : List Char
  /-- Each character of the body stands for a letter. -/
  stands : List.Forall₂ StandsFor word body
  /-- No letter is appended. -/
  noLetter : ∀ c ∈ appended, u.isAlphabetic c = false

variable {u : Unicode} {word : List Char}

/-- The decorated form as a password. -/
def Decorated.password (d : Decorated u word) : List Char := d.body ++ d.appended

/-- The body up to the last letter that was kept. -/
def Decorated.kept (d : Decorated u word) : List Char := d.body.rdropWhile (! isAlpha ·)

/-- The word, up to there and in lower case. -/
def Decorated.base (d : Decorated u word) : List Char := (word.map toLower).take d.kept.length

/-! ### The reduction -/

theorem toLower_of_not_isAlpha {c : Char} (h : c.isAlpha = false) : c.toLower = c := by
  refine dif_neg fun hrange => ?_
  have hupper : c.isUpper = true := by
    delta isUpper
    simpa using hrange
  exact ne_false_of_eq_true hupper (Bool.or_eq_false_iff.mp h).1

/-- The lower case of a letter is a letter, and of no other character. -/
theorem isAlpha_toLower (c : Char) : c.toLower.isAlpha = c.isAlpha := by
  delta isAlpha isUpper isLower toLower
  split <;> grind [UInt32.toNat_add, toNat_val]

/-- A letter in lower case is no leet character. -/
theorem undoLeet_of_isAlpha {c : Char} (h : c.isAlpha = true) : undoLeet c = c := by
  unfold undoLeet
  split <;> first | rfl | exact absurd h (by decide)

/-- What stands for an ASCII letter is read as that letter. -/
theorem StandsFor.undoLeet_toLower {letter c : Char} (h : StandsFor letter c) :
    undoLeet c.toLower = letter.toLower := by
  unfold StandsFor at h
  split at h
  · next hc => rw [undoLeet_of_isAlpha ((isAlpha_toLower c).trans hc), h]
  · next hc => rw [toLower_of_not_isAlpha (by simpa using hc), h]

/-- What stands for an ASCII letter is an ASCII letter or no letter at all. -/
theorem StandsFor.isAlphabetic {letter c : Char} (h : StandsFor letter c) (hletter : letter.isAlpha = true) :
    u.isAlphabetic c = c.isAlpha := by
  unfold StandsFor at h
  split at h
  · next hc => rw [hc, u.alphabetic_of_isAlpha c hc]
  · next hc =>
    rw [Bool.eq_false_iff.mpr hc]
    refine u.not_alphabetic c ?_
    unfold undoLeet at h
    split at h <;> first | decide | skip
    -- No other character is read as a letter.
    rw [h, isAlpha_toLower] at hc
    exact absurd hletter hc

theorem map_of_stands {body : List Char} (h : List.Forall₂ StandsFor word body) :
    body.map (undoLeet ∘ toLower) = word.map toLower := by
  induction h with
  | nil => rfl
  | cons hc _ ih => simp [hc.undoLeet_toLower, ih]

theorem isAlphabetic_of_stands {body : List Char} (h : List.Forall₂ StandsFor word body)
    (hword : ∀ c ∈ word, c.isAlpha = true) : ∀ c ∈ body, u.isAlphabetic c = c.isAlpha := by
  induction h with
  | nil => simp
  | cons hc _ ih =>
    rw [forall_mem_cons] at hword ⊢
    exact ⟨hc.isAlphabetic hword.1, ih hword.2⟩

theorem rdropWhile_map_toLower {l : List Char} (h : ∀ c ∈ l, u.isAlphabetic c = c.isAlpha) :
    (l.map toLower).rdropWhile (! u.isAlphabetic ·) = (l.rdropWhile (! isAlpha ·)).map toLower := by
  induction l using List.reverseRecOn with
  | nil => rfl
  | append_singleton l c ih =>
    have hc : u.isAlphabetic c.toLower = c.isAlpha := by
      cases halpha : c.isAlpha
      · rw [toLower_of_not_isAlpha halpha, h c (by simp), halpha]
      · exact u.alphabetic_of_isAlpha _ ((isAlpha_toLower c).trans halpha)
    have ih := ih fun c hc => h c (mem_append_left _ hc)
    rw [map_append, map_singleton, rdropWhile_concat, rdropWhile_concat, hc]
    split <;> simp [ih]

namespace Decorated

variable (d : Decorated u word) (hword : ∀ c ∈ word, c.isAlpha = true)
include hword

/-- The letters of a decorated form are ASCII letters. -/
theorem isAlphabetic_eq : ∀ c ∈ d.password, u.isAlphabetic c = c.isAlpha := by
  refine forall_mem_append.mpr ⟨isAlphabetic_of_stands d.stands hword, fun c hc => ?_⟩
  have hnot := d.noLetter c hc
  cases halpha : c.isAlpha
  · exact hnot
  · exact u.alphabetic_of_isAlpha c halpha

/-- A decorated form is reduced to the word up to the last letter that was kept. -/
theorem reduceToBaseWord_password : reduceToBaseWord u d.password = d.base := by
  have hletters := d.isAlphabetic_eq hword
  have hlowered : u.toLowercase d.password = d.password.map toLower :=
    u.toLowercase_ascii _ fun c hc h => hletters c hc ▸ h
  have hkept : d.password.rdropWhile (! isAlpha ·) = d.kept := by
    have happended : ∀ c ∈ d.appended.reverse, (! isAlpha c) = true := by
      intro c hc
      rw [mem_reverse] at hc
      simp [← hletters c (mem_append_right _ hc), d.noLetter c hc]
    rw [password, List.rdropWhile, reverse_append, dropWhile_append_of_pos happended]
    rfl
  have hbase : d.kept.map (undoLeet ∘ toLower) = d.base := by
    have hcut : d.kept <+: d.body := rdropWhile_prefix _ _
    have hpre := hcut.map (undoLeet ∘ toLower)
    rw [map_of_stands d.stands, prefix_iff_eq_take, length_map] at hpre
    exact hpre
  rw [reduceToBaseWord, hlowered, rdropWhile_map_toLower hletters, hkept, map_map, hbase]
  refine filter_eq_self.mpr fun c hc => ?_
  obtain ⟨letter, hletter, rfl⟩ := mem_map.mp (mem_of_mem_take hc)
  exact u.alphanumeric_of_alphabetic _ (u.alphabetic_of_isAlpha _ ((isAlpha_toLower letter).trans (hword letter hletter)))

end Decorated

open Decorated

/-- A word stands for itself. -/
theorem reduceToBaseWord_word (hword : ∀ c ∈ word, c.isAlpha = true) :
    reduceToBaseWord u word = word.map toLower := by
  have hstands : List.Forall₂ StandsFor word word :=
    forall₂_same.mpr fun c hc => by simp [StandsFor, hword c hc]
  have hreduce := reduceToBaseWord_password (u := u) ⟨word, [], hstands, nofun⟩ hword
  have hkept : word.rdropWhile (! isAlpha ·) = word :=
    rdropWhile_eq_self_iff.mpr fun hne => by simp [hword _ (getLast_mem hne)]
  simpa [password, base, kept, hkept, take_of_length_le] using hreduce

/-! ### The verdict -/

theorem isBreachedBase_of_mem {blocked : List (List Char)} {base : List Char} (h : base ∈ blocked) :
    isBreachedBase blocked base = true := by
  simp [isBreachedBase, h]

/-- The shipped words are in the form they are compared in. -/
theorem commonBaseWords_lower : ∀ word ∈ commonBaseWords, word.toList.map toLower = word.toList := by
  decide +kernel

/-- A listed word is blocked, in lower case. -/
theorem mem_withExtraWords {extra : List (List Char)} (hword : ∀ c ∈ word, c.isAlpha = true)
    (hlisted : word ∈ commonBaseWords.map String.toList ∨ word ∈ extra) :
    word.map toLower ∈ withExtraWords u extra := by
  rw [withExtraWords, mem_append]
  rcases hlisted with hcommon | hextra
  · obtain ⟨shipped, hmem, rfl⟩ := mem_map.mp hcommon
    rw [commonBaseWords_lower shipped hmem]
    exact .inl hcommon
  · rw [← reduceToBaseWord_word (u := u) hword]
    exact .inr (mem_map_of_mem hextra)

/-- **Which decorated forms of a listed word are refused**: those that keep the last letter, and those whose word,
up to the last letter kept, is refused for itself. -/
theorem isBreached_decorated (u : Unicode) (extra : List (List Char)) (word : List Char)
    (hword : ∀ c ∈ word, c.isAlpha = true) (hlisted : word ∈ commonBaseWords.map String.toList ∨ word ∈ extra)
    (d : Decorated u word) : isBreached u (withExtraWords u extra) d.password = true ↔
      d.kept = d.body ∨ isBreachedBase (withExtraWords u extra) d.base = true := by
  rw [isBreached, d.reduceToBaseWord_password hword]
  refine ⟨.inr, fun h => h.elim (fun hkept => ?_) id⟩
  have hbase : d.base = word.map toLower := by
    refine take_of_length_le ?_
    rw [hkept, length_map, d.stands.length_eq]
  rw [hbase]
  exact isBreachedBase_of_mem (mem_withExtraWords hword hlisted)

namespace Demo

/-- Tables for ASCII texts. -/
def ascii : Unicode where
  toLowercase := List.map toLower
  isAlphabetic := isAlpha
  isAlphanumeric := isAlphanum
  alphabetic_of_isAlpha _ h := h
  alphanumeric_of_alphabetic c h := by simp [isAlphanum, h]
  toLowercase_ascii _ _ := rfl
  not_alphabetic := by simp

/-- `w3lC0me2024!` -/
def inside : Decorated ascii "welcome".toList where
  body := "w3lC0me".toList
  appended := "2024!".toList
  stands := by decide +kernel
  noLetter := by simp; decide

/-- `welcom3`. -/
def atEnd : Decorated ascii "welcome".toList where
  body := "welcom3".toList
  appended := []
  stands := by decide +kernel
  noLetter := nofun

end Demo

open Demo

/-- `w3lC0me2024!` is refused. -/
theorem isBreached_welcome : isBreached ascii (withExtraWords ascii []) inside.password = true :=
  (isBreached_decorated ascii [] _ (by simp) (.inl (by decide +kernel)) inside).mpr
    (.inl (by decide +kernel))

/-- `welcom3` is let through. -/
theorem isBreached_welcome_false : "welcome" ∈ commonBaseWords ∧ atEnd.password = "welcom3".toList ∧
    isBreached ascii (withExtraWords ascii []) atEnd.password = false := by
  decide +kernel

end BymaxAuth.Password.Common
