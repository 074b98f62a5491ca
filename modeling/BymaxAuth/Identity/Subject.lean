import BymaxAuth.Lib.Framing
import BymaxAuth.History.Run

/-!
# Account subjects

Every key that belongs to an account is named by the account's subject: the session index, the token epoch, the
recent-authentication marker, the enrolment record, the lock of a transition, and with a code after it the
markers of spent codes (`services/mod.rs`, `services/mfa/mod.rs`). A tenant and a user id may hold the
separator; the tenant's length in bytes is what keeps two accounts apart.
-/

namespace BymaxAuth

open Framing

/-- An account as the keys name it. -/
inductive Account where
  /-- A tenant's account. -/
  | dashboard (tenantId userId : String)
  /-- An administrator. -/
  | platform (userId : String)
  deriving DecidableEq

namespace Account

/-- The plane of an account. -/
def plane : Account → SessionKind
  | dashboard .. => .dashboard
  | platform _ => .platform

/-- Its tenant, on the plane that has tenants. -/
def tenantId : Account → Option String
  | dashboard tenantId _ => some tenantId
  | platform _ => none

/-- Its id. -/
def userId : Account → String
  | dashboard _ userId => userId
  | platform userId => userId

/-- The subject of an account. -/
def subject (a : Account) : String := userSubject a.plane a.tenantId a.userId

theorem subject_dashboard (tenantId userId : String) :
    (dashboard tenantId userId).subject = "dashboard:" ++ counted ':' tenantId userId := by
  show "dashboard:" ++ _ ++ ":" ++ tenantId ++ ":" ++ userId = _
  simp only [counted, String.append_assoc]
  rfl

theorem subject_platform (userId : String) : (platform userId).subject = "platform:" ++ userId := rfl

end Account

/-- The subject of an account is no other's. -/
theorem Account.subject_inj {a b : Account} (h : a.subject = b.subject) : a = b := by
  cases a with
  | dashboard tenantId userId =>
    cases b with
    | dashboard tenantId' userId' =>
      rw [subject_dashboard, subject_dashboard] at h
      obtain ⟨rfl, rfl⟩ := counted_inj (by decide) (append_left_inj h)
      rfl
    | platform userId' =>
      rw [subject_dashboard, subject_platform] at h
      exact absurd h (append_ne_of_head (by decide) (by decide) (by decide))
  | platform userId =>
    cases b with
    | dashboard tenantId' userId' =>
      rw [subject_dashboard, subject_platform] at h
      exact absurd h (append_ne_of_head (by decide) (by decide) (by decide))
    | platform userId' =>
      rw [subject_platform, subject_platform] at h
      rw [append_left_inj h]

/-- The subject of a logout that knows no owner is no account's. -/
theorem Account.subject_ne_placeholder (a : Account) : a.subject ≠ userSubject .dashboard none "" := by
  show a.subject ≠ "dashboard:" ++ ""
  cases a with
  | dashboard tenantId userId =>
    rw [subject_dashboard]
    exact fun h => counted_ne_empty _ _ (append_left_inj h)
  | platform userId => exact append_ne_of_head (by decide) (by decide) (by decide)

/-- A subject with a code after it, if the code has no colon, determines both. -/
theorem Account.marker_inj {a b : Account} {c d : String} (hc : ':' ∉ c.toList) (hd : ':' ∉ d.toList)
    (h : a.subject ++ ":" ++ c = b.subject ++ ":" ++ d) : a = b ∧ c = d := by
  obtain ⟨hs, hcd⟩ := last_field_inj hc hd h
  exact ⟨subject_inj hs, hcd⟩

/-- The surroundings on the other plane: the planes share one identifier key. -/
def Env.onPlane (env : Env) (kind : SessionKind) : Env := { env with kind }

/-- Accounts do not share a subject, a key that is named by one, or the marker of a code without a colon; and
the subject of a logout that knows no owner is no account's. -/
theorem subjects_distinct (env : Env) (hmac : Function.Injective env.identifierHmac) :
    (∀ a b : Account, userSubject a.plane a.tenantId a.userId = userSubject b.plane b.tenantId b.userId → a = b) ∧
    (∀ a : Account, userSubject a.plane a.tenantId a.userId ≠ userSubject .dashboard none "") ∧
    (∀ name ∈ [Env.subjectHash, Env.setupKey, Env.mfaLockId], ∀ a b : Account,
      name (env.onPlane a.plane) a.tenantId a.userId = name (env.onPlane b.plane) b.tenantId b.userId → a = b) ∧
    (∀ a : Account, (env.onPlane a.plane).subjectHash a.tenantId a.userId ≠
      (env.onPlane .dashboard).subjectHash none "") ∧
    ∀ (a b : Account) (c d : String), ':' ∉ c.toList → ':' ∉ d.toList →
      (env.onPlane a.plane).replayId a.tenantId a.userId c = (env.onPlane b.plane).replayId b.tenantId b.userId d →
      a = b ∧ c = d := by
  refine ⟨fun a b h => Account.subject_inj h, fun a => a.subject_ne_placeholder, fun name hname a b h => ?_,
    fun a h => a.subject_ne_placeholder (hmac h), fun a b c d hc hd h => Account.marker_inj hc hd (hmac h)⟩
  simp only [List.mem_cons, List.not_mem_nil, or_false] at hname
  rcases hname with rfl | rfl | rfl <;> exact Account.subject_inj (hmac h)

/-- A tenant and an id around a colon, on the surroundings whose hashes are the texts themselves. -/
theorem subjects_distinct_shifted :
    userSubject .dashboard (some "acme:prod") "u1" ≠ userSubject .dashboard (some "acme") "prod:u1" :=
  fun h => absurd ((subjects_distinct Demo.env Function.injective_id).1
    (.dashboard "acme:prod" "u1") (.dashboard "acme" "prod:u1") h) (by decide)

end BymaxAuth
