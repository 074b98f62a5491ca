import BymaxAuth.Identity.Subject
import BymaxAuth.SingleUse.Recovery.Binding

/-!
# Lockout budgets

Six flows count wrong passwords or codes in one keyspace, `lf:`, each under an identifier of its own making
(`services/auth/mod.rs`, `services/mfa/mod.rs`, `services/platform.rs`). The identifiers of the second factor are
made of the account's subject, those of a login of the tenant and the address; the two password re-proofs are made
of the user id alone.
-/

namespace BymaxAuth

open Redis Function String Framing Account AccountCmd

/-- A canonical address: what stands before the last at sign has no colon. -/
structure Address where
  /-- What stands before the last at sign. -/
  localPart : String
  /-- What stands after it. -/
  domain : String
  /-- No colon stands before the at sign. -/
  no_colon : ':' ∉ localPart.toList
  /-- It is the last one. -/
  no_at : '@' ∉ domain.toList

/-- The text of an address. -/
def Address.text (address : Address) : String := address.localPart ++ "@" ++ address.domain

/-- The failure counters: a flow, and the account it counts for. -/
inductive Budget where
  /-- A login of a tenant's account. -/
  | login (tenantId : String) (address : Address)
  /-- A login of an administrator. -/
  | platformLogin (address : Address)
  /-- The current password, asked for by a change of it. -/
  | changePassword (tenantId userId : String)
  /-- The current password, asked for by a change of the address. -/
  | emailChange (tenantId userId : String)
  /-- The challenge of the second factor. -/
  | challenge (account : Account)
  /-- The management of the second factor. -/
  | management (account : Account)
  /-- The current password, asked for by an enrolment. -/
  | enrolment (account : Account)

namespace Budget

variable (env : SingleUse.Env)

/-- The identifier of a budget, as the flow that counts in it makes it. -/
def identifier : Budget → String
  | login tenantId address => lockoutIdentifier env.toEnv tenantId address.text
  | platformLogin address => platformLockoutIdentifier env.toEnv address.text
  | changePassword _ userId => SingleUse.Recovery.reproofIdentifier env "change-password" userId
  | emailChange _ userId => SingleUse.Recovery.reproofIdentifier env "email-change" userId
  | challenge a => (env.toEnv.onPlane a.plane).challengeBfId a.tenantId a.userId
  | management a => (env.toEnv.onPlane a.plane).disableBfId a.tenantId a.userId
  | enrolment a => (env.toEnv.onPlane a.plane).reauthBfId a.tenantId a.userId

/-- Re-proofs of one flow by users of one id, in whatever tenants. -/
def SharesReproof : Budget → Budget → Prop
  | changePassword _ userId, changePassword _ userId' => userId = userId'
  | emailChange _ userId, emailChange _ userId' => userId = userId'
  | _, _ => False

/-! ### The texts under the identifiers -/

/-- The first field of the text whose keyed hash is the identifier. -/
inductive Head where
  /-- A login of the dashboard. -/
  | dashboard
  /-- A login of the platform. -/
  | platform
  /-- A password, asked for again. -/
  | reauth
  | challenge
  /-- The management of a second factor. -/
  | disable

/-- The text of the first field. -/
def Head.text : Head → String
  | dashboard => "dashboard"
  | platform => "platform"
  | reauth => "reauth"
  | challenge => "challenge"
  | disable => "disable"

theorem Head.text_inj {a b : Head} (h : a.text = b.text) : a = b := by
  cases a <;> cases b <;> first | rfl | exact absurd h (by decide)

theorem Head.colon_notMem (a : Head) : ':' ∉ a.text.toList := by cases a <;> decide

/-- The first field of a budget's text, and what follows the colon after it. -/
def fields : Budget → Head × String
  | login tenantId address => (.dashboard, tenantId ++ ":" ++ address.text)
  | platformLogin address => (.platform, address.text)
  | changePassword _ userId => (.reauth, "change-password:" ++ userId)
  | emailChange _ userId => (.reauth, "email-change:" ++ userId)
  | challenge a => (.challenge, a.subject)
  | management a => (.disable, a.subject)
  | enrolment a => (.reauth, a.subject)

variable {env}

theorem identifier_eq (b : Budget) : b.identifier env = env.identifierHmac (b.fields.1.text ++ ":" ++ b.fields.2) := by
  cases b with
  | login tenantId address =>
    show env.identifierHmac ("dashboard:" ++ tenantId ++ ":" ++ address.text) = _
    simp only [fields, append_assoc]
    rfl
  | changePassword tenantId userId =>
    show env.identifierHmac ("reauth:" ++ "change-password" ++ ":" ++ userId) = _
    simp only [fields, append_assoc]
    rfl
  | emailChange tenantId userId =>
    show env.identifierHmac ("reauth:" ++ "email-change" ++ ":" ++ userId) = _
    simp only [fields, append_assoc]
    rfl
  | platformLogin _ | challenge _ | management _ | enrolment _ => rfl

theorem address_inj {a b : Address} (h : a.text = b.text) : a = b := by
  obtain ⟨localPart, domain, hcolon, hat⟩ := a
  obtain ⟨localPart', domain', hcolon', hat'⟩ := b
  obtain ⟨rfl, rfl⟩ := last_field_inj hat hat' h
  rfl

/-- A tenant may hold colons and at signs: the domain ends the text and has no at sign, and the local part ends
what is left and has no colon. -/
theorem tenant_address_inj {s t : String} {a b : Address} (h : s ++ ":" ++ a.text = t ++ ":" ++ b.text) :
    s = t ∧ a = b := by
  obtain ⟨localPart, domain, hcolon, hat⟩ := a
  obtain ⟨localPart', domain', hcolon', hat'⟩ := b
  rw [Address.text, Address.text, ← append_assoc, ← append_assoc, ← append_assoc,
    ← append_assoc] at h
  obtain ⟨hrest, rfl⟩ := last_field_inj hat hat' h
  obtain ⟨rfl, rfl⟩ := last_field_inj hcolon hcolon' hrest
  exact ⟨rfl, rfl⟩

/-- A subject begins with its plane. -/
theorem head_subject (a : Account) : a.subject.toList.head? = some 'd' ∨ a.subject.toList.head? = some 'p' := by
  cases a with
  | dashboard tenantId userId =>
    left
    rw [subject_dashboard, toList_append]
    rfl
  | platform userId =>
    right
    rw [subject_platform, toList_append]
    rfl

/-- What follows `reauth:` in an enrolment's text is a plane, and in a re-proof's a flow. -/
theorem subject_ne_reproof (a : Account) (userId : String) :
    a.subject ≠ "change-password:" ++ userId ∧ a.subject ≠ "email-change:" ++ userId := by
  constructor <;> intro h <;>
  · have hhead := head_subject a
    rw [h, toList_append] at hhead
    rcases hhead with hd | hp
    · cases hd
    · cases hp

theorem fields_inj {a b : Budget} (h : a.fields = b.fields) : a = b ∨ SharesReproof a b := by
  have hns : a.fields.1 = b.fields.1 := congrArg Prod.fst h
  have hrest : a.fields.2 = b.fields.2 := congrArg Prod.snd h
  -- The first field leaves the five namespaces, and three flows in one of them.
  cases a with
  | login tenantId address =>
    cases b with
    | login tenantId' address' =>
      obtain ⟨rfl, rfl⟩ := tenant_address_inj hrest
      exact .inl rfl
    | _ => cases hns
  | platformLogin address =>
    cases b with
    | platformLogin address' =>
      obtain rfl := address_inj hrest
      exact .inl rfl
    | _ => cases hns
  | challenge a =>
    cases b with
    | challenge b => exact .inl (congrArg challenge (subject_inj hrest))
    | _ => cases hns
  | management a =>
    cases b with
    | management b => exact .inl (congrArg management (subject_inj hrest))
    | _ => cases hns
  | enrolment a =>
    cases b with
    | enrolment b => exact .inl (congrArg enrolment (subject_inj hrest))
    | changePassword => exact absurd hrest (subject_ne_reproof _ _).1
    | emailChange => exact absurd hrest (subject_ne_reproof _ _).2
    | _ => cases hns
  | changePassword tenantId userId =>
    cases b with
    | changePassword tenantId' userId' => exact .inr (append_left_inj hrest)
    | emailChange => exact absurd hrest (append_ne_of_head (by decide) (by decide) (by decide))
    | enrolment b => exact absurd hrest.symm (subject_ne_reproof _ _).1
    | _ => cases hns
  | emailChange tenantId userId =>
    cases b with
    | emailChange tenantId' userId' => exact .inr (append_left_inj hrest)
    | changePassword => exact absurd hrest (append_ne_of_head (by decide) (by decide) (by decide))
    | enrolment b => exact absurd hrest.symm (subject_ne_reproof _ _).2
    | _ => cases hns

theorem identifier_of_shares {a b : Budget} (h : SharesReproof a b) : a.identifier env = b.identifier env := by
  cases a with
  | changePassword tenantId userId =>
    cases b with
    | changePassword tenantId' userId' =>
      obtain rfl : userId = userId' := h
      rfl
    | _ => cases h
  | emailChange tenantId userId =>
    cases b with
    | emailChange tenantId' userId' =>
      obtain rfl : userId = userId' := h
      rfl
    | _ => cases h
  | _ => cases h

/-- Two budgets share an identifier exactly when they are one, or are re-proofs of one flow by users of one id. -/
theorem identifier_eq_iff (hmac : Injective env.identifierHmac) (a b : Budget) :
    a.identifier env = b.identifier env ↔ a = b ∨ SharesReproof a b := by
  constructor
  · intro h
    rw [identifier_eq, identifier_eq] at h
    obtain ⟨hns, hrest⟩ := first_field_inj (Head.colon_notMem _) (Head.colon_notMem _) (hmac h)
    exact fields_inj (Prod.ext (Head.text_inj hns) hrest)
  · rintro (rfl | h)
    · rfl
    · exact identifier_of_shares h

end Budget

/-! ### What happens on a budget -/

/-- How an attempt ends. -/
inductive Outcome where
  /-- A wrong password or code is counted. -/
  | failure
  /-- A right one resets the counter. -/
  | success
  deriving DecidableEq

/-- The command an attempt ends with. -/
def Outcome.cmd (env : SingleUse.Env) (b : Budget) : Outcome → AccountCmd
  | failure => .incrLf (b.identifier env) env.config.lockoutWindow
  | success => .delLf (b.identifier env)

/-- So many seconds later. -/
def Store.later (st : Store) (secs : ℕ) : Store := { st with now := st.now + secs }

namespace Budget

variable (env : SingleUse.Env)

/-- `is_locked` -/
def locked (b : Budget) (st : Store) : Bool :=
  env.config.maxAttempts ≤ (exec st (.getLf (b.identifier env))).1.getD 0

/-- What attempts on a budget leave, each so many seconds after the one before. -/
def attempts (b : Budget) : Store → List (ℕ × Outcome) → Store
  | st, [] => st
  | st, (secs, outcome) :: rest => attempts b (exec (st.later secs) (outcome.cmd env b)).2 rest

variable {env}

/-- An attempt leaves the counters of other identifiers as they are, and takes no time. -/
theorem attempt_other {a : Budget} {k : String} (hk : k ≠ a.identifier env) (st : Store) (outcome : Outcome) :
    (exec st (outcome.cmd env a)).2.lf k = st.lf k ∧
      (exec st (outcome.cmd env a)).2.now = st.now := by
  cases outcome with
  | success => exact ⟨del_of_ne _ hk, rfl⟩
  | failure =>
    refine ⟨?_, rfl⟩
    show (if _ then expire _ _ _ _ else _) k = st.lf k
    split_ifs
    · rw [expire_of_ne _ _ _ hk, incr_of_ne _ _ hk]
    · rw [incr_of_ne _ _ hk]

theorem attempts_other {a : Budget} {k : String} (hk : k ≠ a.identifier env) (st : Store)
    (steps : List (ℕ × Outcome)) :
    (a.attempts env st steps).lf k = st.lf k ∧ (a.attempts env st steps).now = st.now + (steps.map Prod.fst).sum := by
  induction steps generalizing st with
  | nil => exact ⟨rfl, rfl⟩
  | cons step rest ih =>
    obtain ⟨secs, outcome⟩ := step
    obtain ⟨hlf, hnow⟩ := attempt_other hk (st.later secs) outcome
    obtain ⟨hlf', hnow'⟩ := ih (exec (st.later secs) (outcome.cmd env a)).2
    refine ⟨hlf'.trans hlf, hnow'.trans ?_⟩
    rw [hnow, List.map_cons, List.sum_cons, ← Nat.add_assoc]
    rfl

/-- Whether a budget is locked depends on its counter and the clock. -/
theorem locked_congr {b : Budget} {st st' : Store} (hlf : st.lf (b.identifier env) = st'.lf (b.identifier env))
    (hnow : st.now = st'.now) : b.locked env st = b.locked env st' := by
  have hget : Redis.get st.lf st.now (b.identifier env) = Redis.get st'.lf st'.now (b.identifier env) := by
    rw [Redis.get, Redis.get, Redis.find, Redis.find, hlf, hnow]
  show decide (_ ≤ (Redis.get st.lf st.now _).getD 0) = decide (_ ≤ (Redis.get st'.lf st'.now _).getD 0)
  rw [hget]

/-- Two budgets have identifiers of their own unless they are re-proofs of one flow by users of one id; and then
attempts on the one, however they end, leave the other locked or open as time alone would. -/
theorem budget_private (hmac : Injective env.identifierHmac) {a b : Budget} (hne : a ≠ b) :
    (a.identifier env ≠ b.identifier env ↔ ¬ SharesReproof a b) ∧
    (¬ SharesReproof a b → ∀ (st : Store) (steps : List (ℕ × Outcome)),
      b.locked env (a.attempts env st steps) = b.locked env (st.later (steps.map Prod.fst).sum)) := by
  have hid : a.identifier env = b.identifier env ↔ SharesReproof a b := by
    rw [identifier_eq_iff hmac, or_iff_right hne]
  refine ⟨not_congr hid, fun hs st steps => ?_⟩
  obtain ⟨hlf, hnow⟩ := attempts_other (fun h => hs (hid.mp h.symm)) st steps
  exact locked_congr hlf hnow

/-- A login and a password re-proof of one account, on the surroundings whose hashes are the texts themselves. -/
theorem budget_private_login : (changePassword "t1" "u1").locked (SingleUse.Recovery.Demo.env .token)
      ((login "t1" ⟨"a", "example.com", by decide, by decide⟩).attempts (SingleUse.Recovery.Demo.env .token)
        (.initial 0 []) (List.replicate 5 (1, .failure))) =
    (changePassword "t1" "u1").locked (SingleUse.Recovery.Demo.env .token) ((Store.initial 0 []).later 5) :=
  (budget_private injective_id (by nofun)).2 id _ _

/-- Users of one id in two tenants: five wrong passwords of the one lock the other out. -/
theorem reproof_shared : changePassword "t1" "u1" ≠ changePassword "t2" "u1" ∧
    (∀ env, (changePassword "t1" "u1").identifier env = (changePassword "t2" "u1").identifier env) ∧
    (changePassword "t2" "u1").locked (SingleUse.Recovery.Demo.env .token) (.initial 0 []) = false ∧
    (changePassword "t2" "u1").locked (SingleUse.Recovery.Demo.env .token)
      ((changePassword "t1" "u1").attempts (SingleUse.Recovery.Demo.env .token) (.initial 0 [])
        (List.replicate 5 (1, .failure))) = true := by
  refine ⟨fun h => ?_, fun _ => rfl, by decide +kernel, by decide +kernel⟩
  injection h with htenant
  exact absurd htenant (by decide)

end Budget

end BymaxAuth
