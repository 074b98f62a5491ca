import BymaxAuth.Edge.Admission
import Mathlib.Data.Fintype.EquivFin

/-!
# Whom a role rule is for

A role rule names a path and who may see what is under it. A public path names a path too, and there the prefix has to end
at a segment boundary: `/login` does not make `/loginhistory` public. The role rules are looked up by a bare `startsWith`,
so a rule for `/a` is also the first one found for `/admin`, and the rule for `/admin` behind it is never asked.

## The model

`RoleRule.guards` is the public paths' reading of a rule's prefix. A rule that is found and does not guard only shares
characters with the path (`RoleRule.Lookalike`).
-/

namespace BymaxAuth.Edge

open List

/-- Whether the path is the rule's own, or under it, as it is for a public path. -/
def RoleRule.guards (rule : RoleRule) (pathname : String) : Bool := isPublicPath pathname [rule.pathPrefix]

/-- Whether the proxy's lookup stops at the rule. -/
def RoleRule.found (rule : RoleRule) (pathname : String) : Bool := startsWith pathname rule.pathPrefix

/-- A rule whose prefix shares leading characters with the path, and no more. -/
def RoleRule.Lookalike (rule : RoleRule) (pathname : String) : Prop :=
  rule.found pathname = true ∧ rule.guards pathname = false

/-- Two rules for the same roles. -/
def RoleRule.SameRoles (a b : RoleRule) : Prop := ∀ role, role ∈ a.roles ↔ role ∈ b.roles

/-- Whether the rule that was found, if one was, lets a role pass. -/
def verdict (rule : Option RoleRule) (role : String) : Bool := !rule.any fun rule => !rule.roles.contains role

/-- The decision of the proxy: the first rule found. -/
def admitsRole (rules : List RoleRule) (pathname role : String) : Bool :=
  verdict (rules.find? (·.found pathname)) role

/-- The decision of the first rule that guards the path. -/
def subtreeAdmitsRole (rules : List RoleRule) (pathname role : String) : Bool :=
  verdict (rules.find? (·.guards pathname)) role

/-- The rule found for the path guards it, or is for the same roles as the one that does. -/
def Undisturbed (rules : List RoleRule) (pathname : String) : Prop :=
  ∀ rule, rules.find? (·.found pathname) = some rule →
    rule.guards pathname = true ∨ ∃ own, rules.find? (·.guards pathname) = some own ∧ rule.SameRoles own

/-- A request with a verified token of an account that is not blocked, for a path that is not public. -/
structure Authenticated (rt : Runtime) (config : ResolvedAuthProxyConfig) (clock : Clock) (request : NextRequest)
    (payload : Payload) : Prop where
  /-- The path needs a token. -/
  guarded : isPublicPath request.nextUrl.pathname config.publicPaths = false
  /-- The token was verified. -/
  verified : decodeAccess rt config clock request = ⟨true, true, some payload⟩
  /-- It has not expired. -/
  fresh : isTokenExpired ⟨true, true, some payload⟩ clock.proxy = false
  /-- It is an access token. -/
  access : isAccessToken ⟨true, true, some payload⟩ = true
  /-- The account is not blocked. -/
  usable : (payload.status.any fun status => config.blockedStatuses.contains status) = false

variable {rules : List RoleRule} {rule : RoleRule} {pathname : String}

/-! ### Verdicts -/

/-- There is always a role that a list leaves out. -/
theorem exists_role_notMem (roles : List String) : ∃ role, role ∉ roles := by
  have : Infinite String := Infinite.of_injective String.ofList fun _ _ h => by simpa using congrArg String.toList h
  obtain ⟨role, hrole⟩ := Infinite.exists_notMem_finset roles.toFinset
  exact ⟨role, fun h => hrole (mem_toFinset.mpr h)⟩

theorem verdict_some (rule : RoleRule) (role : String) : verdict (some rule) role = true ↔ role ∈ rule.roles := by
  simp [verdict]

/-- When two lookups lead to the same decision, whatever the role is. -/
theorem verdict_eq_iff (a b : Option RoleRule) : (∀ role, verdict a role = verdict b role) ↔
      (a = none ∧ b = none) ∨ ∃ x y, a = some x ∧ b = some y ∧ x.SameRoles y := by
  -- A rule refuses someone, and no rule refuses nobody.
  have hrefuses (x : RoleRule) : ∃ role, verdict (some x) role ≠ verdict none role := by
    obtain ⟨role, hrole⟩ := exists_role_notMem x.roles
    exact ⟨role, fun h => hrole ((verdict_some x role).mp (h.trans rfl))⟩
  cases a with
  | none =>
    cases b with
    | none => simp
    | some y =>
      obtain ⟨role, hrole⟩ := hrefuses y
      simp only [reduceCtorEq, and_false, false_and, exists_false, or_self, iff_false]
      exact fun h => hrole (h role).symm
  | some x =>
    cases b with
    | none =>
      obtain ⟨role, hrole⟩ := hrefuses x
      simp only [reduceCtorEq, and_false, false_and, exists_false, or_self, iff_false]
      exact fun h => hrole (h role)
    | some y =>
      simp only [reduceCtorEq, and_self, false_or, Option.some.injEq, exists_and_left, exists_eq_left']
      refine forall_congr' fun role => ?_
      rw [Bool.eq_iff_iff, verdict_some, verdict_some]

/-! ### The rules -/

theorem found_of_guards (h : rule.guards pathname = true) : rule.found pathname = true := by
  simp only [RoleRule.guards, isPublicPath, any_cons, any_nil, Bool.or_false, Bool.or_eq_true,
    decide_eq_true_eq] at h
  simp only [RoleRule.found, startsWith, isPrefixOf_iff_prefix] at h ⊢
  rcases h with rfl | h
  · exact prefix_refl _
  · split at h
    · exact h
    · rw [String.toList_append] at h
      exact (prefix_append _ _).trans h

/-- The rule that is found is the one that guards, if it guards. -/
theorem find_guards_of_found (h : rules.find? (·.found pathname) = some rule) (hg : rule.guards pathname = true) :
    rules.find? (·.guards pathname) = some rule := by
  obtain ⟨-, before, after, rfl, hbefore⟩ := find?_eq_some_iff_append.mp h
  refine find?_eq_some_iff_append.mpr ⟨hg, before, after, rfl, fun x hx => ?_⟩
  rw [Bool.not_eq_true', Bool.eq_false_iff]
  intro hguards
  exact absurd (found_of_guards hguards) (by simpa using hbefore x hx)

theorem find_guards_of_none (h : rules.find? (·.found pathname) = none) : rules.find? (·.guards pathname) = none := by
  rw [find?_eq_none] at h ⊢
  exact fun x hx hguards => h x hx (found_of_guards hguards)

/-- The decision is that of the first rule that guards the path, unless a lookalike comes before it. -/
theorem admitsRole_eq_iff (rules : List RoleRule) (pathname : String) :
    (∀ role, admitsRole rules pathname role = subtreeAdmitsRole rules pathname role) ↔ Undisturbed rules pathname := by
  unfold admitsRole subtreeAdmitsRole Undisturbed
  rw [verdict_eq_iff]
  cases hfound : rules.find? (·.found pathname) with
  | none => simp [find_guards_of_none hfound]
  | some rule =>
    simp only [reduceCtorEq, false_and, false_or, Option.some.injEq, exists_and_left, exists_eq_left', forall_eq']
    refine ⟨Or.inr, fun h => h.elim (fun hg => ?_) id⟩
    exact ⟨rule, find_guards_of_found hfound hg, fun _ => Iff.rfl⟩

/-- A rule that is found changes the decision, unless another is found before it or the next one is for the same
roles. -/
theorem admitsRole_insert_iff {before after : List RoleRule} (hrule : rule.found pathname = true) :
    (∀ role, admitsRole (before ++ rule :: after) pathname role = admitsRole (before ++ after) pathname role) ↔
      before.any (·.found pathname) = true ∨
        ∃ next, after.find? (·.found pathname) = some next ∧ rule.SameRoles next := by
  unfold admitsRole
  rw [find?_append, find?_append, find?_cons, hrule, verdict_eq_iff]
  cases hbefore : before.find? (·.found pathname) with
  | some first =>
    have hany : before.any (·.found pathname) = true := by
      rw [any_eq_true, ← find?_isSome, hbefore]
      rfl
    simp only [Option.some_or, hany, true_or, iff_true]
    exact .inr ⟨first, first, rfl, rfl, fun _ => Iff.rfl⟩
  | none =>
    have hany : before.any (·.found pathname) = false := by simpa using hbefore
    simp [hany]

/-! ### The proxy -/

/-- What the proxy answers an authenticated request with. -/
theorem proxy_of_authenticated {rt : Runtime} {config : ResolvedAuthProxyConfig} {clock : Clock} {request : NextRequest}
    {payload : Payload} (h : Authenticated rt config clock request payload) :
    proxy rt config clock request =
      if admitsRole config.roleRules request.nextUrl.pathname (payload.role.getD "") then
        forwardWithUserHeaders rt request payload.user
      else redirectToLogin rt request config.loginPath "forbidden" := by
  unfold proxy admitsRole verdict
  simp only [h.guarded, h.verified, h.fresh, h.access, Bool.false_eq_true, if_false, Bool.not_true, Bool.or_self,
    Option.bind_some, h.usable, getUserRole, Bool.not_eq_true', RoleRule.found]
  split
  · next hrefused => rw [if_neg (by rw [hrefused]; decide)]
  · next hpassed =>
    rw [if_pos (Bool.eq_false_iff.mpr hpassed)]
    rfl

/-- The proxy decides by the first rule found for the path. That is what the first rule that guards the path decides,
for every role, exactly when no lookalike with other roles is found before it; and a lookalike that is added leaves the
decision as it was exactly when a rule before it is found already, or the next one found is for the same roles. -/
theorem role_rule_guards_subtree_iff (rules : List RoleRule) (pathname : String) :
    (∀ rt config clock request payload, config.roleRules = rules → request.nextUrl.pathname = pathname →
      Authenticated rt config clock request payload → proxy rt config clock request =
          if admitsRole rules pathname (payload.role.getD "") then forwardWithUserHeaders rt request payload.user
          else redirectToLogin rt request config.loginPath "forbidden") ∧
    ((∀ role, admitsRole rules pathname role = subtreeAdmitsRole rules pathname role) ↔ Undisturbed rules pathname) ∧
    (∀ before after rule, rules = before ++ after → rule.Lookalike pathname →
      ((∀ role, admitsRole (before ++ rule :: after) pathname role = admitsRole rules pathname role) ↔
        before.any (·.found pathname) = true ∨
          ∃ next, after.find? (·.found pathname) = some next ∧ rule.SameRoles next)) := by
  refine ⟨?_, admitsRole_eq_iff rules pathname, ?_⟩
  · rintro rt config clock request payload rfl rfl h
    exact proxy_of_authenticated h
  · rintro before after rule rfl hrule
    exact admitsRole_insert_iff hrule.1

namespace Demo

/-- Members may see what is under `/a`. -/
def membersRule : RoleRule := ⟨"/a", ["MEMBER"]⟩

/-- Administrators may see what is under `/admin`. -/
def adminRule : RoleRule := ⟨"/admin", ["ADMIN"]⟩

end Demo

open Edge.Demo

/-- A rule that lets members see `/a` lets them see `/admin`, whose own rule would refuse them. -/
theorem lookalike_rule_admits : membersRule.Lookalike "/admin" ∧
      subtreeAdmitsRole [membersRule, adminRule] "/admin" "MEMBER" = false ∧
      admitsRole [adminRule] "/admin" "MEMBER" = false ∧
      admitsRole [membersRule, adminRule] "/admin" "MEMBER" = true :=
  ⟨⟨by decide +kernel, by decide +kernel⟩, by decide +kernel, by decide +kernel, by decide +kernel⟩

/-- With the rules the other way round the lookalike is never reached. -/
theorem role_rule_guards_subtree_reordered : Undisturbed [adminRule, membersRule] "/admin" ∧
      ∀ role, admitsRole [adminRule, membersRule] "/admin" role =
        subtreeAdmitsRole [adminRule, membersRule] "/admin" role := by
  have h : Undisturbed [adminRule, membersRule] "/admin" := by
    rintro rule hrule
    obtain rfl : adminRule = rule := Option.some.inj hrule
    exact .inl (by decide +kernel)
  exact ⟨h, (role_rule_guards_subtree_iff _ _).2.1.mpr h⟩

end BymaxAuth.Edge
