import BymaxAuth.SingleUse.Invitation.Flows

/-!
# Role hierarchies

A role satisfies itself and the roles its entry of the hierarchy lists (`role_satisfies` in `config/validate.rs`,
and `has_role` in `services/auth/invitation.rs`). The lookup has one level: the hierarchy is meant to be
denormalized, so that a role lists whatever it transitively includes. What startup validation checks is that the
roles listed are declared (`validate_referential`), not that the lists are closed.

## The model

A hierarchy is the list of its entries, one for each key. `AuthConfig::validate` has some thirty rules; the ones
that read the roles are here (`validateRoles`, rules 5 to 7).
-/

namespace BymaxAuth

open Concurrency
open SingleUse.Invitation (hasRole)

/-- `HashMap<String, Vec<String>>`: the roles each role includes. -/
structure Hierarchy where
  entries : List (String × List String)
  /-- One for each key. -/
  nodup : (entries.map Prod.fst).Nodup

namespace Hierarchy

variable (h : Hierarchy)

/-- `contains_key` -/
def containsKey (role : String) : Bool := (h.entries.lookup role).isSome

/-- `get` -/
def get (role : String) : Option (List String) := h.entries.lookup role

/-- `role_satisfies` -/
def roleSatisfies (heldRole requiredRole : String) : Bool :=
  if heldRole = requiredRole then true
  else (h.get heldRole).any fun included => included.any fun role => role = requiredRole

end Hierarchy

/-- `RolesConfig` -/
structure RolesConfig where
  /-- The dashboard's hierarchy. -/
  hierarchy : Hierarchy
  /-- The platform's, if there is one. -/
  platformHierarchy : Option Hierarchy

/-- `ResolvedConfig::dashboard_role_satisfies` -/
def RolesConfig.dashboardRoleSatisfies (roles : RolesConfig) (heldRole requiredRole : String) : Bool :=
  roles.hierarchy.roleSatisfies heldRole requiredRole

/-- The errors of `ConfigError` that concern roles. -/
inductive RoleError where
  | emptyRoleHierarchy
  | unknownRoleReference (role child : String)
  | missingPlatformHierarchy
  deriving DecidableEq

/-- `validate_referential`: the roles are visited in order, so that the first dangling one is named. -/
def validateReferential (h : Hierarchy) : Except RoleError Unit :=
  let roles := (h.entries.map Prod.fst).insertionSort (· ≤ ·)
  roles.forM fun role => ((h.get role).getD []).forM fun child =>
    if !h.containsKey child then throw (.unknownRoleReference role child) else pure ()

/-- Rules 5 to 7 of `AuthConfig::validate`. -/
def validateRoles (roles : RolesConfig) (platformEnabled : Bool) : Except RoleError Unit :=
  if roles.hierarchy.entries.isEmpty then throw .emptyRoleHierarchy
  else do
    validateReferential roles.hierarchy
    roles.platformHierarchy.forM validateReferential
    if platformEnabled && roles.platformHierarchy.isNone then throw .missingPlatformHierarchy else pure ()

/-! ### What the validation checks -/

namespace Hierarchy

variable {h : Hierarchy} {r : String → String → Prop}

/-- The entry of one role lists the other. -/
def Includes (h : Hierarchy) (a b : String) : Prop := ∃ included, h.get a = some included ∧ b ∈ included

theorem mem_entries_of_get {role : String} {included : List String} (hget : h.get role = some included) :
    (role, included) ∈ h.entries := by
  obtain ⟨l₁, l₂, hentries, -⟩ := List.lookup_eq_some_iff.mp hget
  simp [hentries]

/-- The validation accepts a hierarchy exactly when every role that is listed is declared. -/
theorem validateReferential_ok_iff :
    validateReferential h = .ok () ↔ ∀ a b, h.Includes a b → h.containsKey b = true := by
  unfold validateReferential
  rw [forM_ok_iff]
  constructor
  · rintro hok a b ⟨included, hget, hb⟩
    have hrole := hok a (List.mem_insertionSort _ |>.mpr (List.mem_map_of_mem (mem_entries_of_get hget)))
    rw [forM_ok_iff, hget] at hrole
    have hchild := hrole b hb
    by_contra hno
    rw [Bool.not_eq_true] at hno
    rw [hno] at hchild
    cases hchild
  · intro hdeclared role _
    rw [forM_ok_iff]
    intro child hchild
    cases hget : h.get role with
    | none =>
      rw [hget] at hchild
      cases hchild
    | some included =>
      rw [hget] at hchild
      rw [hdeclared role child ⟨included, hget, hchild⟩]
      rfl

/-! ### The role check -/

theorem roleSatisfies_iff {a b : String} : h.roleSatisfies a b = true ↔ a = b ∨ h.Includes a b := by
  unfold roleSatisfies Includes
  by_cases hab : a = b
  · simp [hab]
  · simp only [hab, if_false, false_or, Option.any_eq_true, List.any_eq_true, decide_eq_true_eq]
    constructor
    · rintro ⟨included, hget, c, hc, rfl⟩
      exact ⟨included, hget, hc⟩
    · rintro ⟨included, hget, hb⟩
      exact ⟨included, hget, b, hb, rfl⟩

/-- The invitations' check is the extractors'. -/
theorem hasRole_eq (a b : String) : hasRole a b h.entries = h.roleSatisfies a b := by
  rw [Bool.eq_iff_iff, roleSatisfies_iff]
  simp [hasRole, Includes, get, Option.any_eq_true]

/-- A role lists whatever the roles it lists do: the lists are closed. -/
def Denormalized (h : Hierarchy) : Prop := ∀ a b c, h.Includes a b → h.Includes b c → a = c ∨ h.Includes a c

/-- The check is transitive exactly on the denormalized hierarchies. -/
theorem satisfies_trans_iff :
    (∀ a b c, h.roleSatisfies a b = true → h.roleSatisfies b c = true → h.roleSatisfies a c = true) ↔
      h.Denormalized := by
  simp only [roleSatisfies_iff]
  constructor
  · intro htrans a b c hab hbc
    exact htrans a b c (.inr hab) (.inr hbc)
  · rintro hd a b c (rfl | hab) (rfl | hbc)
    · exact .inl rfl
    · exact .inr hbc
    · exact .inr hab
    · exact hd a b c hab hbc

/-- On a denormalized hierarchy one lookup sees as far as any number of them. -/
theorem satisfies_of_chain (hd : h.Denormalized)
    (hr : ∀ a b, r a b → h.roleSatisfies a b = true) {a b : String} (hab : Relation.ReflTransGen r a b) :
    h.roleSatisfies a b = true := by
  induction hab with
  | refl => exact roleSatisfies_iff.mpr (.inl rfl)
  | tail _ hlast ih => exact satisfies_trans_iff.mpr hd _ _ _ ih (hr _ _ hlast)

/-- A chain of two links is what a denormalized hierarchy closes. -/
theorem denormalized_of_chain (hr : ∀ a b, h.Includes a b → r a b)
    (hchain : ∀ a b, Relation.ReflTransGen r a b → h.roleSatisfies a b = true) : h.Denormalized :=
  fun a b c hab hbc => roleSatisfies_iff.mp (hchain a c ((Relation.ReflTransGen.single (hr a b hab)).tail (hr b c hbc)))

/-- Whether a hierarchy is denormalized can be read off its entries. -/
theorem denormalized_of_entries
    (h' : ∀ p ∈ h.entries, ∀ q ∈ h.entries, q.1 ∈ p.2 → ∀ c ∈ q.2, p.1 = c ∨ c ∈ p.2) : h.Denormalized := by
  rintro a b c ⟨included, ha, hb⟩ ⟨included', hb', hc⟩
  exact (h' _ (mem_entries_of_get ha) _ (mem_entries_of_get hb') hb c hc).imp_right fun hc => ⟨included, ha, hc⟩

end Hierarchy

theorem referential_of_validateRoles {roles : RolesConfig} {platformEnabled : Bool}
    (hok : validateRoles roles platformEnabled = .ok ()) {h : Hierarchy}
    (hh : h = roles.hierarchy ∨ roles.platformHierarchy = some h) : validateReferential h = .ok () := by
  unfold validateRoles at hok
  by_cases hempty : roles.hierarchy.entries.isEmpty = true
  · rw [if_pos hempty] at hok
    cases hok
  · rw [if_neg hempty] at hok
    obtain ⟨_, hdash, hok⟩ := bind_ok_iff.mp hok
    obtain ⟨_, hplat, -⟩ := bind_ok_iff.mp hok
    rcases hh with rfl | hp
    · exact hdash
    · rw [hp] at hplat
      exact hplat

open Hierarchy

/-- On a hierarchy of an accepted configuration every role that is listed is declared, and a role satisfies itself.
The check is transitive, sees whatever a role transitively includes, and keeps an invitation chain within what the
first inviter satisfies, each exactly when the hierarchy is denormalized. -/
theorem satisfies_preorder_iff {roles : RolesConfig} {platformEnabled : Bool}
    (hok : validateRoles roles platformEnabled = .ok ()) {h : Hierarchy}
    (hh : h = roles.hierarchy ∨ roles.platformHierarchy = some h) :
    (∀ a b, h.Includes a b → h.containsKey b = true) ∧ (∀ a, h.roleSatisfies a a = true) ∧
    ((∀ a b c, h.roleSatisfies a b = true → h.roleSatisfies b c = true → h.roleSatisfies a c = true) ↔
      h.Denormalized) ∧
    ((∀ a b, Relation.ReflTransGen h.Includes a b → h.roleSatisfies a b = true) ↔ h.Denormalized) ∧
    ((∀ a b, Relation.ReflTransGen (fun inviter invitee => hasRole inviter invitee h.entries = true) a b →
      hasRole a b h.entries = true) ↔ h.Denormalized) := by
  have hincludes : ∀ a b, h.Includes a b → h.roleSatisfies a b = true := fun a b hab =>
    roleSatisfies_iff.mpr (.inr hab)
  refine ⟨validateReferential_ok_iff.mp (referential_of_validateRoles hok hh),
    fun a => roleSatisfies_iff.mpr (.inl rfl), satisfies_trans_iff, ⟨?_, ?_⟩, ?_⟩
  · exact denormalized_of_chain fun _ _ hab => hab
  · exact fun hd a b => satisfies_of_chain hd hincludes
  · simp only [hasRole_eq]
    exact ⟨denormalized_of_chain hincludes, fun hd a b => satisfies_of_chain hd fun _ _ hab => hab⟩

/-- Three roles whose lists are closed. -/
def closedRoles : RolesConfig where
  hierarchy := ⟨[("OWNER", ["ADMIN", "MEMBER"]), ("ADMIN", ["MEMBER"]), ("MEMBER", [])], by decide⟩
  platformHierarchy := none

/-- Three roles, each of which lists the next one only. -/
def layeredRoles : RolesConfig where
  hierarchy := ⟨[("OWNER", ["ADMIN"]), ("ADMIN", ["MEMBER"]), ("MEMBER", [])], by decide⟩
  platformHierarchy := none

/-- On lists that are closed the check is transitive. -/
theorem satisfies_preorder_closed : validateRoles closedRoles false = .ok () ∧ closedRoles.hierarchy.Denormalized ∧
    ∀ a b c, closedRoles.dashboardRoleSatisfies a b = true → closedRoles.dashboardRoleSatisfies b c = true →
      closedRoles.dashboardRoleSatisfies a c = true := by
  have hok : validateRoles closedRoles false = .ok () := by decide +kernel
  have hclosed : closedRoles.hierarchy.Denormalized := denormalized_of_entries (by decide +kernel)
  exact ⟨hok, hclosed, (satisfies_preorder_iff hok (.inl rfl)).2.2.1.mpr hclosed⟩

/-- An accepted configuration on which an owner may invite an administrator and an administrator a member, and an
owner is refused where a member is asked for. -/
theorem satisfies_not_transitive : validateRoles layeredRoles false = .ok () ∧
    layeredRoles.dashboardRoleSatisfies "OWNER" "ADMIN" = true ∧
    layeredRoles.dashboardRoleSatisfies "ADMIN" "MEMBER" = true ∧
    layeredRoles.dashboardRoleSatisfies "OWNER" "MEMBER" = false ∧
    hasRole "OWNER" "MEMBER" layeredRoles.hierarchy.entries = false := by
  refine ⟨?_, ?_, ?_, ?_, ?_⟩ <;> decide +kernel

end BymaxAuth
