import Mathlib.Data.List.Basic
import Mathlib.Tactic.NormNum

/-!
# The stored session record and its JSON form

`traits/store.rs` (`SessionRecord`, `strict_true`, `optional_rfc3339`, `unix_millis`) and the
`sd:` detail value of `bymax-auth-redis/src/stores/session.rs`.

## The model

A record is written with `serde_json::to_string` and read back with `serde_json::from_str`. The model
goes through the JSON *tree*: `toJson` writes the camel-case members in the order of the source's
fields, leaving out what `skip_serializing_if` leaves out; `ofJson` reads a member the way its field's
deserializer does (a required member, a default for an absent one, `strict_true`, an optional RFC 3339
text), refuses a repeated member, and ignores members it does not know.

An instant is a whole number of Unix nanoseconds, as `OffsetDateTime` counts them. How one is written
as RFC 3339 is the `time` crate's business (`Rfc3339`): all that is asked of it is that an instant it
can write reads back as itself. An instant it cannot write (a year outside 0..9999) fails the whole
serialization.
-/

namespace BymaxAuth

open List Option

/-- A JSON value. -/
inductive Json where
  | null
  /-- `true` or `false` -/
  | bool (b : Bool)
  /-- A whole number. -/
  | num (n : ℤ)
  /-- A text. -/
  | str (s : String)
  /-- An array. -/
  | arr (xs : List Json)
  /-- An object: its members in the order they are written. -/
  | obj (members : List (String × Json))

namespace Json

/-- A member written only when there is a value for it (`skip_serializing_if`). -/
def optional (key : String) (value : Option Json) : List (String × Json) :=
  value.toList.map fun v => (key, v)

/-- The member called `key`: `some none` when it is absent, `none` when it is there twice. -/
def lookup (key : String) (members : List (String × Json)) : Option (Option Json) :=
  match members.filter fun m => m.1 = key with
  | [] => some none
  | [m] => some (some m.2)
  | _ => none

theorem filter_optional_self (key : String) (value : Option Json) :
    ((optional key value).filter fun m => m.1 = key) = optional key value := by
  cases value <;> simp [optional]

theorem filter_optional_of_ne {key key' : String} (h : key' ≠ key) (value : Option Json) :
    ((optional key' value).filter fun m => m.1 = key) = [] := by
  cases value <;> simp [optional, h]

theorem lookup_of_filter {key : String} {members : List (String × Json)} {value : Option Json}
    (h : (members.filter fun m => m.1 = key) = optional key value) : lookup key members = some value := by
  unfold lookup
  rw [h]
  cases value <;> rfl

/-- A required `String` member. -/
def requiredStr (key : String) (members : List (String × Json)) : Option String :=
  match lookup key members with
  | some (some (.str s)) => some s
  | _ => none

/-- A required `bool` member. -/
def requiredBool (key : String) (members : List (String × Json)) : Option Bool :=
  match lookup key members with
  | some (some (.bool b)) => some b
  | _ => none

/-- A required `i64` member. -/
def requiredI64 (key : String) (members : List (String × Json)) : Option ℤ :=
  match lookup key members with
  | some (some (.num n)) => if -2 ^ 63 ≤ n ∧ n < 2 ^ 63 then some n else none
  | _ => none

/-- An `Option<String>` member with `default`: absent and `null` both read as `None`. -/
def optionalStr (key : String) (members : List (String × Json)) : Option (Option String) :=
  match lookup key members with
  | some none | some (some .null) => some none
  | some (some (.str s)) => some (some s)
  | _ => none

/-- A `String` member with `default`: absent reads as the empty text. -/
def defaultedStr (key : String) (members : List (String × Json)) : Option String :=
  match lookup key members with
  | some none => some ""
  | some (some (.str s)) => some s
  | _ => none

/-- `strict_true`: only the JSON `true` reads as `true`; any other value, of any type, and an absent
member read as `false`. -/
def strictTrue (key : String) (members : List (String × Json)) : Option Bool :=
  match lookup key members with
  | some (some (.bool true)) => some true
  | some _ => some false
  | none => none

end Json

/-- How the `time` crate writes and reads an instant as RFC 3339. -/
structure Rfc3339 where
  /-- The text of an instant, when it has one. -/
  format : ℤ → Option String
  /-- The instant a text names, when it names one. -/
  parse : String → Option ℤ
  /-- What can be written reads back as itself. -/
  parse_format : ∀ {t : ℤ} {s : String}, format t = some s → parse s = some t

/-- An RFC 3339 codec that knows a table of instants. -/
def Rfc3339.ofTable (table : List (ℤ × String)) (h : table.Pairwise fun a b => a.2 ≠ b.2) : Rfc3339 where
  format t := (table.find? fun row => row.1 = t).map (·.2)
  parse s := (table.find? fun row => row.2 = s).map (·.1)
  parse_format := by
    intro t s hf
    induction table with
    | nil => simp at hf
    | cons row table ih =>
      rw [pairwise_cons] at h
      by_cases ht : row.1 = t
      · simp only [List.find?_cons, ht, decide_true, map_some, Option.some.injEq] at hf
        simp [hf, ht]
      · simp only [List.find?_cons, ht, decide_false] at hf
        have hs : row.2 ≠ s := by
          obtain ⟨row', hr, rfl⟩ := map_eq_some_iff.mp hf
          exact h.1 row' (mem_of_find?_eq_some hr)
        simp only [List.find?_cons, hs, decide_false]
        exact ih h.2 hf

/-- The stored refresh-session record. Instants are Unix nanoseconds. -/
structure SessionRecord where
  /-- The owning user id. -/
  userId : String
  /-- The tenant scope; absent for platform sessions. -/
  tenantId : Option String
  /-- The user's role at session creation. -/
  role : String
  /-- Human-readable device/browser string. -/
  device : String
  /-- Originating IP. -/
  ip : String
  /-- Session creation time. -/
  createdAt : ℤ
  /-- Whether MFA was enabled on the account when the session was created. -/
  mfaEnabled : Bool
  /-- Whether this session was established through the MFA challenge. -/
  mfaVerified : Bool
  /-- The family (login lineage) this session belongs to; empty only on the placeholder. -/
  familyId : String
  /-- When the family was born. -/
  familyCreatedAt : Option ℤ
  deriving DecidableEq

open Json

namespace SessionRecord

variable (codec : Rfc3339)

/-- The text of an optional instant: `none` when the instant there is cannot be written. -/
def formatOptional : Option ℤ → Option (Option String)
  | none => some none
  | some t => (codec.format t).map some

/-- `optional_rfc3339::deserialize` after the text was read. -/
def parseOptional : Option String → Option (Option ℤ)
  | none => some none
  | some s => (codec.parse s).map some

theorem parseOptional_formatOptional {t : Option ℤ} {s : Option String}
    (h : formatOptional codec t = some s) : parseOptional codec s = some t := by
  cases t with
  | none =>
    cases h
    rfl
  | some t =>
    rw [formatOptional, map_eq_some_iff] at h
    obtain ⟨s, hs, rfl⟩ := h
    simp [parseOptional, codec.parse_format hs]

/-- The members of a record whose two instants have been written. -/
def members (r : SessionRecord) (createdAt : String) (familyCreatedAt : Option String) : List (String × Json) :=
  optional "userId" (some (.str r.userId))
    ++ optional "tenantId" (r.tenantId.map .str)
    ++ optional "role" (some (.str r.role))
    ++ optional "device" (some (.str r.device))
    ++ optional "ip" (some (.str r.ip))
    ++ optional "createdAt" (some (.str createdAt))
    ++ optional "mfaEnabled" (some (.bool r.mfaEnabled))
    ++ optional "mfaVerified" (if r.mfaVerified then some (.bool true) else none)
    ++ optional "familyId" (if r.familyId = "" then none else some (.str r.familyId))
    ++ optional "familyCreatedAt" (familyCreatedAt.map .str)

/-- `serde_json::to_string` of a record. -/
def toJson (r : SessionRecord) : Option Json := do
  let createdAt ← codec.format r.createdAt
  let familyCreatedAt ← formatOptional codec r.familyCreatedAt
  some (.obj (r.members createdAt familyCreatedAt))

/-- `serde_json::from_str` of a record. -/
def ofJson : Json → Option SessionRecord
  | .obj ms => do
    let userId ← requiredStr "userId" ms
    let tenantId ← optionalStr "tenantId" ms
    let role ← requiredStr "role" ms
    let device ← requiredStr "device" ms
    let ip ← requiredStr "ip" ms
    let createdAt ← (requiredStr "createdAt" ms).bind codec.parse
    let mfaEnabled ← requiredBool "mfaEnabled" ms
    let mfaVerified ← strictTrue "mfaVerified" ms
    let familyId ← defaultedStr "familyId" ms
    let familyCreatedAt ← (optionalStr "familyCreatedAt" ms).bind (parseOptional codec)
    some { userId, tenantId, role, device, ip, createdAt, mfaEnabled, mfaVerified, familyId, familyCreatedAt }
  | _ => none

section Members

variable (r : SessionRecord) (c : String) (f : Option String)

/-- Every member of a written record is there once, under its own name. -/
theorem lookup_members : Json.lookup "userId" (r.members c f) = some (some (.str r.userId)) ∧
    Json.lookup "tenantId" (r.members c f) = some (r.tenantId.map .str) ∧
    Json.lookup "role" (r.members c f) = some (some (.str r.role)) ∧
    Json.lookup "device" (r.members c f) = some (some (.str r.device)) ∧
    Json.lookup "ip" (r.members c f) = some (some (.str r.ip)) ∧
    Json.lookup "createdAt" (r.members c f) = some (some (.str c)) ∧
    Json.lookup "mfaEnabled" (r.members c f) = some (some (.bool r.mfaEnabled)) ∧
    Json.lookup "mfaVerified" (r.members c f)
      = some (if r.mfaVerified then some (.bool true) else none) ∧
    Json.lookup "familyId" (r.members c f)
      = some (if r.familyId = "" then none else some (.str r.familyId)) ∧
    Json.lookup "familyCreatedAt" (r.members c f) = some (f.map .str) := by
  refine ⟨?_, ?_, ?_, ?_, ?_, ?_, ?_, ?_, ?_, ?_⟩ <;>
    refine Json.lookup_of_filter ?_ <;>
    simp only [members, filter_append, Json.filter_optional_self] <;>
    simp (disch := decide) only [Json.filter_optional_of_ne, nil_append, append_nil]

end Members

/-- A record that can be written reads back as itself. -/
theorem ofJson_toJson {r : SessionRecord} {j : Json} (h : r.toJson codec = some j) : ofJson codec j = some r := by
  simp only [toJson, bind_eq_bind, bind_eq_some_iff, Option.some.injEq] at h
  obtain ⟨c, hc, f, hf, rfl⟩ := h
  obtain ⟨h1, h2, h3, h4, h5, h6, h7, h8, h9, h10⟩ := lookup_members r c f
  have htenant : Json.optionalStr "tenantId" (r.members c f) = some r.tenantId := by
    rw [Json.optionalStr, h2]
    cases r.tenantId <;> rfl
  have hverified : Json.strictTrue "mfaVerified" (r.members c f) = some r.mfaVerified := by
    rw [Json.strictTrue, h8]
    cases r.mfaVerified <;> rfl
  have hfamily : Json.defaultedStr "familyId" (r.members c f) = some r.familyId := by
    rw [Json.defaultedStr, h9]
    by_cases hf : r.familyId = "" <;> simp [hf]
  have hbirth : Json.optionalStr "familyCreatedAt" (r.members c f) = some f := by
    rw [Json.optionalStr, h10]
    cases f <;> rfl
  simp only [ofJson, Json.requiredStr, Json.requiredBool, h1, h3, h4, h5, h6, h7, htenant, hverified,
    hfamily, hbirth, bind_eq_bind, bind_some, codec.parse_format hc,
    parseOptional_formatOptional codec hf]

end SessionRecord

/-! ### The detail record of a listing -/

/-- `unix_millis::serialize`: whole milliseconds (towards zero), clamped to `i64`. -/
def unixMillis (t : ℤ) : ℤ := max (-2 ^ 63) (min (t.tdiv 1000000) (2 ^ 63 - 1))

/-- `OffsetDateTime::from_unix_timestamp_nanos`: the years -9999..9999. -/
def ofUnixNanos (t : ℤ) : Option ℤ :=
  if -377705116800 * 10 ^ 9 ≤ t ∧ t < 253402300800 * 10 ^ 9 then some t else none

/-- The stored `sd:`/`psd:` per-session detail value. -/
structure SessionDetailValue where
  /-- Human-readable device/browser string. -/
  device : String
  /-- Originating IP. -/
  ip : String
  /-- Session creation time. -/
  createdAt : ℤ
  /-- Last observed activity time. -/
  lastActivityAt : ℤ
  deriving DecidableEq

namespace SessionDetailValue

/-- The detail of a freshly created session. -/
def atCreation (r : SessionRecord) : SessionDetailValue :=
  { device := r.device, ip := r.ip, createdAt := r.createdAt, lastActivityAt := r.createdAt }

/-- `serde_json::to_string` of a detail; it cannot fail. -/
def toJson (d : SessionDetailValue) : Json :=
  .obj [("device", .str d.device), ("ip", .str d.ip), ("createdAt", .num (unixMillis d.createdAt)),
    ("lastActivityAt", .num (unixMillis d.lastActivityAt))]

/-- `unix_millis::deserialize`. -/
def readMillis (key : String) (ms : List (String × Json)) : Option ℤ :=
  (requiredI64 key ms).bind fun n => ofUnixNanos (n * 1000000)

/-- `serde_json::from_str` of a detail. -/
def ofJson : Json → Option SessionDetailValue
  | .obj ms => do
    let device ← requiredStr "device" ms
    let ip ← requiredStr "ip" ms
    let createdAt ← readMillis "createdAt" ms
    let lastActivityAt ← readMillis "lastActivityAt" ms
    some { device, ip, createdAt, lastActivityAt }
  | _ => none

end SessionDetailValue

/-- One session's display detail. -/
structure SessionDetail where
  /-- The stored session hash. -/
  sessionHash : String
  /-- Human-readable device/browser string. -/
  device : String
  /-- Originating IP. -/
  ip : String
  /-- Session creation time. -/
  createdAt : ℤ
  /-- Last observed activity time. -/
  lastActivityAt : ℤ
  deriving DecidableEq

open SessionDetailValue

/-- `read_detail`: `none` is `DetailRead::Excluded`. -/
def readDetail (hash : String) (raw : Option Json) : Option SessionDetail := do
  let value ← (← raw) |> ofJson
  some { sessionHash := hash, device := value.device, ip := value.ip, createdAt := value.createdAt,
         lastActivityAt := value.lastActivityAt }

/-- The instants whose millisecond an `OffsetDateTime` can hold: the years -9999..9999. -/
def Listable (t : ℤ) : Prop := -377705116800 * 10 ^ 9 ≤ t ∧ t < 253402300800 * 10 ^ 9

theorem Listable.tdiv {t : ℤ} (h : Listable t) :
    -377705116800 * 10 ^ 3 ≤ t.tdiv 1000000 ∧ t.tdiv 1000000 < 253402300800 * 10 ^ 3 := by
  obtain ⟨h₁, h₂⟩ := h
  rcases Int.le_total 0 t with ht | ht
  · rw [Int.tdiv_eq_ediv_of_nonneg ht]
    omega
  · rw [← Int.neg_neg t, Int.neg_tdiv, Int.tdiv_eq_ediv_of_nonneg (by omega)]
    omega

/-- The millisecond of a listable instant is an `i64`, and names an instant. -/
theorem readMillis_unixMillis {t : ℤ} (h : Listable t) {key : String} {ms : List (String × Json)}
    (hk : Json.lookup key ms = some (some (.num (unixMillis t)))) :
    readMillis key ms = some (t.tdiv 1000000 * 1000000) := by
  obtain ⟨h₁, h₂⟩ := h.tdiv
  have hm : unixMillis t = t.tdiv 1000000 := by unfold unixMillis; omega
  rw [readMillis, Json.requiredI64, hk, hm]
  simp only
  rw [if_pos (by omega), bind_some, ofUnixNanos, if_pos (by omega)]

/-- A listing shows what a fresh session's detail was written with, to the millisecond. -/
theorem readDetail_toJson (hash : String) {d : SessionDetailValue} (hc : Listable d.createdAt)
    (hl : Listable d.lastActivityAt) :
    readDetail hash (some d.toJson) = some
      { sessionHash := hash, device := d.device, ip := d.ip, createdAt := d.createdAt.tdiv 1000000 * 1000000,
        lastActivityAt := d.lastActivityAt.tdiv 1000000 * 1000000 } := by
  simp [readDetail, toJson, ofJson, Json.requiredStr, Json.lookup,
    readMillis_unixMillis hc, readMillis_unixMillis hl]

end BymaxAuth
