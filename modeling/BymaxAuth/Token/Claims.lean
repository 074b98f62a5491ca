import BymaxAuth.Token.Jwt

/-!
# The claims of the three tokens

`claims.rs` of `bymax-auth-types`: the claims of a dashboard token, of a platform token and of an MFA challenge token,
and how serde writes and reads them as JSON.

## The model

The text of a JSON object is a parameter (`JsonText`), of which only this is used: what was written is read. The members
of the object are as the derives of the source have them: their names and their order, `type` with its one value, the
defaults of `epoch`, `iss` and `aud`, and `iss`, `aud` and the tenant of a challenge left out when there are none. A
member that is there twice is an error, and one with another name is skipped.

`TokenType` is the type parameter of `verify`, which is one of the three (`JwtClaims` is sealed).
-/

namespace BymaxAuth.Wire

open Hs256 Option

/-! ### JSON -/

/-- A JSON value. -/
inductive Json where
  | null
  /-- `true` and `false` -/
  | bool (value : Bool)
  /-- An integer. -/
  | number (value : ℤ)
  | string (value : String)
  /-- Anything else, by its text. -/
  | other (text : String)

/-- The members of an object, in order. -/
abbrev Members := List (String × Json)

/-- `serde_json::to_vec` and `serde_json::from_slice`, on objects. -/
structure JsonText where
  /-- The text of an object. -/
  write : Members → List UInt8
  /-- The object of a text. -/
  read : List UInt8 → Option Members
  /-- What was written is read. -/
  read_write : ∀ members, read (write members) = some members

/-- A string. -/
def Json.asString : Json → Option String
  | string value => some value
  | _ => none

/-- A truth value. -/
def Json.asBool : Json → Option Bool
  | bool value => some value
  | _ => none

/-- An `i64`. -/
def Json.asI64 : Json → Option Int64
  | number value => if -2 ^ 63 ≤ value ∧ value < 2 ^ 63 then some (.ofInt value) else none
  | _ => none

/-- A `u64`. -/
def Json.asU64 : Json → Option UInt64
  | number value => if 0 ≤ value ∧ value < 2 ^ 64 then some (.ofNat value.toNat) else none
  | _ => none

/-- An `Option<String>`. -/
def Json.asOption : Json → Option (Option String)
  | null => some none
  | string value => some (some value)
  | _ => none

/-- An enumeration with one value. -/
def Json.asTag (tag : String) : Json → Option Unit
  | string value => if value = tag then some () else none
  | _ => none

/-- The values of a member. -/
def values (name : String) (members : Members) : List Json :=
  (members.filter fun member => member.1 = name).map Prod.snd

/-- A member that must be there. -/
def required {α : Type} (decode : Json → Option α) (name : String) (members : Members) : Option α :=
  match values name members with
  | [value] => decode value
  | _ => none

/-- `#[serde(default)]` -/
def defaulted {α : Type} (decode : Json → Option α) (default : α) (name : String) (members : Members) : Option α :=
  match values name members with
  | [] => some default
  | [value] => decode value
  | _ => none

/-- `#[serde(skip_serializing_if = "Option::is_none")]` -/
def present (name : String) (value : Option String) : Members :=
  match value with
  | some value => [(name, .string value)]
  | none => []

/-! ### The three tokens -/

/-- `DashboardClaims` -/
structure DashboardClaims where
  sub : String
  jti : String
  tenantId : String
  role : String
  status : String
  mfaEnabled : Bool
  mfaVerified : Bool
  iat : Int64
  exp : Int64
  epoch : UInt64
  iss : Option String
  aud : Option String

/-- `PlatformClaims` -/
structure PlatformClaims where
  sub : String
  jti : String
  role : String
  mfaEnabled : Bool
  mfaVerified : Bool
  iat : Int64
  exp : Int64
  epoch : UInt64
  iss : Option String
  aud : Option String

/-- `MfaContext` -/
inductive MfaContext where
  | dashboard
  | platform

/-- `MfaContext::as_str`, which is also how it is written. -/
def MfaContext.asStr : MfaContext → String
  | dashboard => "dashboard"
  | platform => "platform"

/-- Reading an `MfaContext`. -/
def Json.asContext : Json → Option MfaContext
  | string value => if value = "dashboard" then some .dashboard else if value = "platform" then some .platform else none
  | _ => none

/-- `MfaTempClaims` -/
structure MfaTempClaims where
  sub : String
  jti : String
  context : MfaContext
  tenantId : Option String
  epoch : UInt64
  iat : Int64
  exp : Int64
  iss : Option String
  aud : Option String

/-- The members of dashboard claims. -/
def DashboardClaims.members (c : DashboardClaims) : Members :=
  [("sub", .string c.sub), ("jti", .string c.jti), ("tenantId", .string c.tenantId), ("role", .string c.role),
    ("type", .string "dashboard"), ("status", .string c.status), ("mfaEnabled", .bool c.mfaEnabled),
    ("mfaVerified", .bool c.mfaVerified), ("iat", .number c.iat.toInt), ("exp", .number c.exp.toInt),
    ("epoch", .number c.epoch.toNat)] ++ present "iss" c.iss ++ present "aud" c.aud

/-- Dashboard claims from their members. -/
def DashboardClaims.ofMembers (members : Members) : Option DashboardClaims := do
  let sub ← required Json.asString "sub" members
  let jti ← required Json.asString "jti" members
  let tenantId ← required Json.asString "tenantId" members
  let role ← required Json.asString "role" members
  required (Json.asTag "dashboard") "type" members
  let status ← required Json.asString "status" members
  let mfaEnabled ← required Json.asBool "mfaEnabled" members
  let mfaVerified ← required Json.asBool "mfaVerified" members
  let iat ← required Json.asI64 "iat" members
  let exp ← required Json.asI64 "exp" members
  let epoch ← defaulted Json.asU64 0 "epoch" members
  let iss ← defaulted Json.asOption none "iss" members
  let aud ← defaulted Json.asOption none "aud" members
  pure { sub, jti, tenantId, role, status, mfaEnabled, mfaVerified, iat, exp, epoch, iss, aud }

/-- The members of platform claims. -/
def PlatformClaims.members (c : PlatformClaims) : Members :=
  [("sub", .string c.sub), ("jti", .string c.jti), ("role", .string c.role), ("type", .string "platform"),
    ("mfaEnabled", .bool c.mfaEnabled), ("mfaVerified", .bool c.mfaVerified), ("iat", .number c.iat.toInt),
    ("exp", .number c.exp.toInt), ("epoch", .number c.epoch.toNat)] ++ present "iss" c.iss ++ present "aud" c.aud

/-- Platform claims from their members. -/
def PlatformClaims.ofMembers (members : Members) : Option PlatformClaims := do
  let sub ← required Json.asString "sub" members
  let jti ← required Json.asString "jti" members
  let role ← required Json.asString "role" members
  required (Json.asTag "platform") "type" members
  let mfaEnabled ← required Json.asBool "mfaEnabled" members
  let mfaVerified ← required Json.asBool "mfaVerified" members
  let iat ← required Json.asI64 "iat" members
  let exp ← required Json.asI64 "exp" members
  let epoch ← defaulted Json.asU64 0 "epoch" members
  let iss ← defaulted Json.asOption none "iss" members
  let aud ← defaulted Json.asOption none "aud" members
  pure { sub, jti, role, mfaEnabled, mfaVerified, iat, exp, epoch, iss, aud }

/-- The members of challenge claims. -/
def MfaTempClaims.members (c : MfaTempClaims) : Members :=
  [("sub", .string c.sub), ("jti", .string c.jti), ("type", .string "mfa_challenge"),
    ("context", .string c.context.asStr)] ++ present "tenantId" c.tenantId ++
    [("epoch", .number c.epoch.toNat), ("iat", .number c.iat.toInt), ("exp", .number c.exp.toInt)] ++
    present "iss" c.iss ++ present "aud" c.aud

/-- Challenge claims from their members. -/
def MfaTempClaims.ofMembers (members : Members) : Option MfaTempClaims := do
  let sub ← required Json.asString "sub" members
  let jti ← required Json.asString "jti" members
  required (Json.asTag "mfa_challenge") "type" members
  let context ← required Json.asContext "context" members
  let tenantId ← defaulted Json.asOption none "tenantId" members
  let epoch ← defaulted Json.asU64 0 "epoch" members
  let iat ← required Json.asI64 "iat" members
  let exp ← required Json.asI64 "exp" members
  let iss ← defaulted Json.asOption none "iss" members
  let aud ← defaulted Json.asOption none "aud" members
  pure { sub, jti, context, tenantId, epoch, iat, exp, iss, aud }

/-- The types of claims that `verify` accepts. -/
inductive TokenType where
  /-- `DashboardClaims` -/
  | dashboard
  /-- `PlatformClaims` -/
  | platform
  /-- `MfaTempClaims` -/
  | mfaChallenge
  deriving DecidableEq

namespace TokenType

/-- The claims of a type. -/
def Claims : TokenType → Type
  | dashboard => DashboardClaims
  | platform => PlatformClaims
  | mfaChallenge => MfaTempClaims

/-- The value of `type`. -/
def tag : TokenType → String
  | dashboard => "dashboard"
  | platform => "platform"
  | mfaChallenge => "mfa_challenge"

/-- The members of claims. -/
def members : (t : TokenType) → t.Claims → Members
  | dashboard => DashboardClaims.members
  | platform => PlatformClaims.members
  | mfaChallenge => MfaTempClaims.members

/-- Claims from their members. -/
def ofMembers : (t : TokenType) → Members → Option t.Claims
  | dashboard => DashboardClaims.ofMembers
  | platform => PlatformClaims.ofMembers
  | mfaChallenge => MfaTempClaims.ofMembers

/-- `exp()` -/
def exp : (t : TokenType) → t.Claims → Int64
  | dashboard => DashboardClaims.exp
  | platform => PlatformClaims.exp
  | mfaChallenge => MfaTempClaims.exp

/-- `iat()` -/
def iat : (t : TokenType) → t.Claims → Int64
  | dashboard => DashboardClaims.iat
  | platform => PlatformClaims.iat
  | mfaChallenge => MfaTempClaims.iat

/-- `iss()` -/
def iss : (t : TokenType) → t.Claims → Option String
  | dashboard => DashboardClaims.iss
  | platform => PlatformClaims.iss
  | mfaChallenge => MfaTempClaims.iss

/-- `aud()` -/
def aud : (t : TokenType) → t.Claims → Option String
  | dashboard => DashboardClaims.aud
  | platform => PlatformClaims.aud
  | mfaChallenge => MfaTempClaims.aud

/-- The codec of claims. -/
def codec (json : JsonText) (t : TokenType) : ClaimsCodec t.Claims where
  write c := json.write (t.members c)
  read bytes := (json.read bytes).bind t.ofMembers
  exp c := (t.exp c).toInt
  iat c := (t.iat c).toInt
  iss := t.iss
  aud := t.aud

end TokenType

/-! ### Round trips -/

@[simp] theorem asI64_toInt (value : Int64) : Json.asI64 (.number value.toInt) = some value := by
  rw [Json.asI64, if_pos ⟨value.le_toInt, value.toInt_lt⟩, Int64.ofInt_toInt]

@[simp] theorem asU64_toNat (value : UInt64) : Json.asU64 (.number value.toNat) = some value := by
  rw [Json.asU64, if_pos ⟨Int.natCast_nonneg _, by have := value.toNat_lt; omega⟩, Int.toNat_natCast, UInt64.ofNat_toNat]

@[simp] theorem asContext_asStr (context : MfaContext) : Json.asContext (.string context.asStr) = some context := by
  cases context <;> rfl

theorem dashboard_ofMembers (c : DashboardClaims) : DashboardClaims.ofMembers c.members = some c := by
  obtain ⟨sub, jti, tenantId, role, status, mfaEnabled, mfaVerified, iat, exp, epoch, _ | iss, _ | aud⟩ := c <;>
    simp [DashboardClaims.ofMembers, DashboardClaims.members, required, defaulted, values, present, Json.asString,
      Json.asTag, Json.asBool, Json.asOption]

theorem platform_ofMembers (c : PlatformClaims) : PlatformClaims.ofMembers c.members = some c := by
  obtain ⟨sub, jti, role, mfaEnabled, mfaVerified, iat, exp, epoch, _ | iss, _ | aud⟩ := c <;>
    simp [PlatformClaims.ofMembers, PlatformClaims.members, required, defaulted, values, present, Json.asString,
      Json.asTag, Json.asBool, Json.asOption]

theorem mfaTemp_ofMembers (c : MfaTempClaims) : MfaTempClaims.ofMembers c.members = some c := by
  obtain ⟨sub, jti, context, _ | tenantId, epoch, iat, exp, _ | iss, _ | aud⟩ := c <;>
    simp [MfaTempClaims.ofMembers, MfaTempClaims.members, required, defaulted, values, present, Json.asString,
      Json.asTag, Json.asOption]

open TokenType

/-- What was written is read. -/
theorem codec_read_write (json : JsonText) (t : TokenType) (c : t.Claims) :
    (t.codec json).read ((t.codec json).write c) = some c := by
  dsimp only [codec]
  rw [json.read_write, bind_some]
  cases t with
  | dashboard => exact dashboard_ofMembers c
  | platform => exact platform_ofMembers c
  | mfaChallenge => exact mfaTemp_ofMembers c

/-- The type that claims name. -/
theorem values_type (t : TokenType) (c : t.Claims) : values "type" (t.members c) = [.string t.tag] := by
  have hpresent : ∀ name value, name ≠ "type" →
      (present name value).filter (fun member => decide (member.1 = "type")) = [] := by
    intro name value hname
    cases value <;> simp [present, hname]
  cases t <;>
    simp [members, DashboardClaims.members, PlatformClaims.members, MfaTempClaims.members, values,
      tag, hpresent]

variable {members : Members}

theorem dashboard_required_type {c : DashboardClaims} (h : DashboardClaims.ofMembers members = some c) :
    required (Json.asTag "dashboard") "type" members = some () := by
  simp only [DashboardClaims.ofMembers, bind_eq_bind, bind_eq_some_iff] at h
  obtain ⟨_, -, _, -, _, -, _, -, ⟨⟩, htype, -⟩ := h
  exact htype

theorem platform_required_type {c : PlatformClaims} (h : PlatformClaims.ofMembers members = some c) :
    required (Json.asTag "platform") "type" members = some () := by
  simp only [PlatformClaims.ofMembers, bind_eq_bind, bind_eq_some_iff] at h
  obtain ⟨_, -, _, -, _, -, ⟨⟩, htype, -⟩ := h
  exact htype

theorem mfaTemp_required_type {c : MfaTempClaims} (h : MfaTempClaims.ofMembers members = some c) :
    required (Json.asTag "mfa_challenge") "type" members = some () := by
  simp only [MfaTempClaims.ofMembers, bind_eq_bind, bind_eq_some_iff] at h
  obtain ⟨_, -, _, -, ⟨⟩, htype, -⟩ := h
  exact htype

/-- Claims are read from members that name their type. -/
theorem required_type {t : TokenType} {c : t.Claims} (h : t.ofMembers members = some c) :
    required (Json.asTag t.tag) "type" members = some () := by
  cases t with
  | dashboard => exact dashboard_required_type h
  | platform => exact platform_required_type h
  | mfaChallenge => exact mfaTemp_required_type h

/-- Claims of one type are not read as claims of another one. -/
theorem codec_read_other (json : JsonText) {t t' : TokenType} (hne : t ≠ t') (c : t.Claims) :
    (t'.codec json).read ((t.codec json).write c) = none := by
  dsimp only [codec]
  rw [json.read_write, bind_some]
  cases hread : t'.ofMembers (t.members c) with
  | none => rfl
  | some c' =>
    have htype := required_type hread
    rw [required, values_type] at htype
    have htags : t.tag ≠ t'.tag := by cases t <;> cases t' <;> first | exact absurd rfl hne | decide
    simp [Json.asTag, htags] at htype

end BymaxAuth.Wire
