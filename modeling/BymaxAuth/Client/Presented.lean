import BymaxAuth.Client.AuthClient
import Mathlib.Data.Fin.VecNotation

/-!
# A client presents a refresh token once

A server that sees a refresh token for the second time takes it for a stolen one. So a client must not present one twice,
must not fall back to an older pair, and must not be signed in again by a late reply after a logout.

The lock `refresh_lock` is there for that, but only `me` takes it. `refresh` does not, nor do the calls that sign in or
out, and a reply may arrive late.

## The model

`calm` is the condition under which the client keeps to this: no two requests in flight get in each other's way. A refresh
gets in the way of a refresh, a sign-in and a logout, and a sign-in in the way of a sign-in. Two refreshes of `me` are
not ruled out by it; that there are no two of them is what the lock is for.
-/

namespace BymaxAuth.AuthClient

open Concurrency.EventLoop List Option Function

variable {n : ℕ}

/-! ### The condition -/

/-- The request of a call that is in flight. -/
def Phase.flight : Phase → Option (Stage × Request)
  | sent stage request | answered stage request _ => some (stage, request)
  | _ => none

/-- The logouts. -/
def Request.leaves : Request → Bool
  | logout .. => true
  | _ => false

/-- Whether a request gets in the way of another one. -/
def Request.hinders (request other : Request) : Bool :=
  request.renews && (other.renews || other.signsIn || other.leaves) || request.signsIn && other.signsIn

/-- No two requests in flight get in each other's way, unless they are two refreshes of `me`. -/
def calm (st : State n) : Bool :=
  decide (∀ c c', c ≠ c' → ∀ p ∈ (st.phases c).flight, ∀ q ∈ (st.phases c').flight,
    ¬ (p.1 = .renewal ∧ q.1 = .renewal) → p.2.hinders q.2 = false)

/-! ### What an event can do -/

/-- The requests on which a pair is issued. -/
def Request.earns (request : Request) : Bool := request.renews || request.signsIn

/-- The ends of a turn that matter to no other call. -/
def Pause.quiet : Pause → Bool
  | awaits stage (.me _) => stage ≠ .renewal
  | awaits .. => false
  | queues _ => true
  | returns (.ok .loggedOut) => false
  | returns _ => true

/-- What a turn of a call can be, after the reply to a request or not. -/
inductive Turns (st : State n) (c : Fin n) : Option Request → Turn → Prop where
  /-- It leaves the tokens as they are. -/
  | quiet {request : Option Request} {pause : Pause} : pause.quiet = true →
      (∀ stage token, (st.phases c).flight ≠ some (stage, .refresh token)) →
      Turns st c request { tokens := st.tokens, pause }
  /-- The refresh token is presented. -/
  | renews {stage : Stage} {current : SessionTokens} : st.tokens = some current → (st.phases c).flight = none →
      (stage = .renewal → st.holder = none) →
      Turns st c none { tokens := st.tokens, pause := .awaits stage (.refresh current.refresh) }
  /-- A sign-in begins. -/
  | signsIn {request : Request} : (st.phases c).flight = none → request.signsIn = true →
      Turns st c none { tokens := st.tokens, pause := .awaits .only request }
  /-- A logout begins. -/
  | leaves {access : String} {token : Option String} : (st.phases c).flight = none →
      Turns st c none { tokens := st.tokens, pause := .awaits .only (.logout access token) }
  /-- A pair is stored. -/
  | stores {stage : Stage} {request : Request} {tokens : SessionTokens} {pause : Pause} :
      st.phases c = .answered stage request (.success (.session tokens)) →
      request.earns = true → pause.quiet = true →
      Turns st c (some request) { tokens := some tokens, pause, stored := some tokens }
  /-- A logout succeeds. -/
  | left {stage : Stage} {access : String} {token : Option String} {reply : Reply} :
      st.phases c = .answered stage (.logout access token) reply →
      Turns st c (some (.logout access token)) { tokens := none, pause := .returns (.ok .loggedOut) }

/-- What an event can do. -/
inductive Does (st : State n) : Effect (State n) Empty (Mark n) → Prop where
  /-- The server answers. -/
  | answers {c : Fin n} {stage : Stage} {request : Request} {reply : Reply} : st.phases c = .sent stage request →
      fits request reply = true → (∀ tokens ∈ reply.issued, tokens.refresh ∉ st.issued.map SessionTokens.refresh) →
      Does st
        { st := { st with
            issued := st.issued ++ reply.issued
            phases := update st.phases c (.answered stage request reply) } }
  /-- A call has its turn. -/
  | turns {c : Fin n} {request : Option Request} {turn : Turn} : Turns st c request turn →
      Does st (st.turn c request turn)

/-- The replies that are on their way are such that the server gives. -/
def Fitting (st : State n) : Prop :=
  ∀ c stage request reply, st.phases c = .answered stage request reply → fits request reply = true

variable {st : State n} {x : Effect (State n) Empty (Mark n)} {reply : Reply} {c : Fin n} {stage : Stage}
  {request : Request} {pause : Pause} {turn : Turn} {log : List (Mark n)}

/-- A reply with a pair. -/
theorem issued_ne_nil (h : reply.issued ≠ []) : ∃ tokens, reply = .success (.session tokens) := by
  unfold Reply.issued at h
  split at h
  · exact ⟨_, rfl⟩
  · exact absurd rfl h

theorem fetchMe_turns (hstage : stage ≠ .renewal)
    (hc : ∀ stage token, (st.phases c).flight ≠ some (stage, .refresh token)) :
    Turns st c none (fetchMe stage st.tokens) := by
  unfold fetchMe
  split
  · exact .quiet (by simpa [Pause.quiet] using hstage) hc
  · exact .quiet rfl hc

theorem refresh_turns (hstage : stage = .renewal → st.holder = none) (hc : (st.phases c).flight = none) :
    Turns st c none (refresh stage st.tokens) := by
  unfold refresh
  split
  · next current htokens => exact .renews htokens hc hstage
  · exact .quiet rfl (by rw [hc]; exact nofun)

theorem begin_turns (hc : (st.phases c).flight = none) (call : Call) : Turns st c none (begin call st.tokens) := by
  cases call with
  | me => exact fetchMe_turns nofun (by rw [hc]; exact nofun)
  | refresh => exact refresh_turns nofun hc
  | register | login | mfaChallenge => exact .signsIn hc rfl
  | logout =>
    unfold begin logout
    dsimp only
    split
    · exact .leaves hc
    · exact .quiet rfl (by rw [hc]; exact nofun)

theorem refreshSingleFlight_turns (staleAccess : String) (hc : (st.phases c).flight = none)
    (hholder : st.holder = none) : Turns st c none (refreshSingleFlight staleAccess st.tokens) := by
  unfold refreshSingleFlight
  split
  · split
    · exact fetchMe_turns nofun (by rw [hc]; exact nofun)
    · exact refresh_turns (fun _ => hholder) hc
  · exact refresh_turns (fun _ => hholder) hc

theorem quiet_safeUser (reply : Reply) : (Pause.returns (sendJson Body.safeUser reply)).quiet = true := by
  rcases reply with ⟨_ | _ | _ | _⟩ | ⟨_, _ | _⟩ | _ <;> rfl

theorem goOn_turns (hc : st.phases c = .answered stage request reply) (hfits : fits request reply = true) :
    Turns st c (some request) (goOn stage request reply st.tokens) := by
  have hquiet : request.renews = false → ∀ stage token, (st.phases c).flight ≠ some (stage, .refresh token) := by
    rintro hrequest stage' token hflight
    rw [hc] at hflight
    cases hflight
    cases hrequest
  cases request with
  | me access =>
    have hreturns : Turns st c (some (.me access)) (meSecond reply st.tokens) :=
      .quiet (quiet_safeUser reply) (hquiet rfl)
    rw [goOn]
    split
    · rw [meFirst]
      split
      · exact .quiet rfl (hquiet rfl)
      · exact hreturns
    · exact hreturns
  | refresh token =>
    -- The server answers a refresh with a pair.
    obtain ⟨tokens, rfl⟩ := issued_ne_nil (by simpa [fits, Request.renews] using hfits)
    rw [goOn]
    split <;> exact .stores hc rfl rfl
  | register | login | mfaChallenge =>
    rcases reply with ⟨_ | _ | _ | _⟩ | ⟨_, _ | _⟩ | _
    case success.session => exact .stores hc rfl rfl
    all_goals exact .quiet rfl (hquiet rfl)
  | logout access token =>
    rcases reply with _ | ⟨_, _ | _⟩ | _
    case success => exact .left hc
    all_goals exact .quiet rfl (hquiet rfl)

theorem event_does {calls : Fin n → Call} {e : Event n} (hfit : Fitting st) (h : event calls e st = some x) :
    Does st x := by
  cases e with
  | call c =>
    rw [event] at h
    split at h
    · next hc =>
      cases h
      exact .turns (begin_turns (by rw [hc]; rfl) _)
    · cases h
  | answer c reply =>
    rw [event] at h
    split at h
    · next hc =>
      split at h
      · next hok =>
        cases h
        exact .answers hc hok.1 hok.2
      · cases h
    · cases h
  | receive c =>
    rw [event] at h
    split at h
    · next hc =>
      cases h
      exact .turns (goOn_turns hc (hfit _ _ _ _ hc))
    · cases h
  | acquire c =>
    rw [event] at h
    split at h
    · next hc hholder =>
      cases h
      exact .turns (refreshSingleFlight_turns _ (by rw [hc]; rfl) hholder)
    · cases h

/-! ### What holds throughout -/

/-- A turn does not leave its call with a reply on the way. -/
theorem phase_ne_answered (pause : Pause) : pause.phase ≠ .answered stage request reply := by
  cases pause <;> exact nofun

theorem Fitting.step (h : Fitting st) (hx : Does st x) : Fitting x.st := by
  intro c stage request reply hc
  have hold := h c stage request reply
  have hpause : ∀ pause : Pause, pause.phase ≠ .answered stage request reply := phase_ne_answered
  cases hx <;> simp only [State.turn, State.after] at hc <;> grind [update_apply]

/-- A call whose refresh of `me` is in flight has the lock. -/
def Held (st : State n) : Prop :=
  ∀ c request, (st.phases c).flight = some (.renewal, request) → st.holder = some c

theorem locked_of_quiet (h : pause.quiet = true) : pause.locked = false := by
  rcases pause with ⟨_ | _ | _ | _, _ | _ | _ | _ | _ | _⟩ | _ | _ <;> first | rfl | cases h

/-- A call that gets the lock found it free. -/
theorem Turns.free {request : Option Request} (h : Turns st c request turn) (hlocked : turn.pause.locked = true) :
    st.holder = none := by
  cases h with
  | quiet hquiet _ | stores _ _ hquiet => cases hlocked.symm.trans (locked_of_quiet hquiet)
  | @renews stage _ _ _ hholder => cases stage <;> simp_all [Pause.locked]
  | _ => cases hlocked

/-- A request stays in flight when the server answers it. -/
theorem flight_answers {phases : Fin n → Phase} (reply : Reply) (hc : phases c = .sent stage request) (c' : Fin n) :
    (update phases c (.answered stage request reply) c').flight = (phases c').flight := by
  by_cases hne : c' = c
  · subst hne
    rw [update_self, hc]
    rfl
  · rw [update_of_ne hne]

theorem Held.step (h : Held st) (hx : Does st x) : Held x.st := by
  intro c request hc
  cases hx with
  | answers hsent _ _ =>
    dsimp only at hc ⊢
    rw [flight_answers _ hsent] at hc
    exact h c request hc
  | @turns c' _ turn ht =>
    have hlocked : ∀ request, turn.pause.phase.flight = some (.renewal, request) → turn.pause.locked = true := by
      intro request hflight
      cases hpause : turn.pause <;> rw [hpause] at hflight <;> cases hflight
      rfl
    have hold := h c request
    dsimp only [State.turn, State.after] at hc ⊢
    grind [update_apply, ht.free]

/-- In a calm state, two requests in flight that get in each other's way are one. -/
theorem eq_of_hinders (hcalm : calm st = true) (hheld : Held st) {c' : Fin n} {p q : Stage × Request}
    (hp : (st.phases c).flight = some p) (hq : (st.phases c').flight = some q)
    (h : p.2.hinders q.2 = true ∨ q.2.hinders p.2 = true) : c = c' := by
  by_contra hne
  have hstages : ¬ (p.1 = .renewal ∧ q.1 = .renewal) := by
    rintro ⟨hp₁, hq₁⟩
    have hc := hheld c p.2 (by rw [hp, ← hp₁])
    have hc' := hheld c' q.2 (by rw [hq, ← hq₁])
    exact hne (Option.some.inj (hc.symm.trans hc'))
  unfold calm at hcalm
  rw [decide_eq_true_eq] at hcalm
  rcases h with h | h
  · cases h.symm.trans (hcalm c c' hne p hp q hq hstages)
  · cases h.symm.trans (hcalm c' c (Ne.symm hne) q hq p hp fun hs => hstages hs.symm)

/-- The pairs that were stored, the first one first. -/
def storedPairs (log : List (Mark n)) : List SessionTokens :=
  log.filterMap fun
    | .stored _ _ tokens => some tokens
    | _ => none

/-- The tokens that were sent to the refresh endpoint. -/
def presented (log : List (Mark n)) : List String :=
  log.filterMap fun
    | .requested _ (.refresh token) => some token
    | _ => none

theorem storedPairs_append (l₁ l₂ : List (Mark n)) : storedPairs (l₁ ++ l₂) = storedPairs l₁ ++ storedPairs l₂ :=
  filterMap_append

theorem presented_append (l₁ l₂ : List (Mark n)) : presented (l₁ ++ l₂) = presented l₁ ++ presented l₂ :=
  filterMap_append

theorem storedPairs_mark (c : Fin n) (pause : Pause) : storedPairs (pause.mark c) = [] := by
  cases pause <;> rfl

theorem presented_mark (c : Fin n) (h : pause.quiet = true) : presented (pause.mark c) = [] := by
  rcases pause with ⟨stage, _ | _ | _ | _ | _ | _⟩ | _ | _ <;> first | rfl | cases h

/-- What a turn stores. -/
theorem storedPairs_turn (c : Fin n) (request : Option Request) (turn : Turn) :
    storedPairs (st.turn c request turn).marks = if request.isSome then turn.stored.toList else [] := by
  rw [State.turn, storedPairs_append, storedPairs_mark, append_nil]
  cases request with
  | none => rfl
  | some request => cases turn.stored <;> rfl

/-- What a turn presents. -/
theorem presented_turn (c : Fin n) (request : Option Request) (turn : Turn) :
    presented (st.turn c request turn).marks = presented (turn.pause.mark c) := by
  rw [State.turn, presented_append]
  cases request with
  | none => rfl
  | some request => cases turn.stored <;> rfl

/-- Two requests on which pairs are issued get in each other's way. -/
theorem hinders_of_earns {other : Request} (h : request.earns = true) (h' : other.earns = true) :
    request.hinders other = true ∨ other.hinders request = true := by
  unfold Request.earns Request.hinders at *
  cases hr : request.renews <;> cases hr' : other.renews <;> simp_all

/-- A pair is the reply to a request on which one is issued. -/
theorem earns_of_fits {tokens : SessionTokens} (h : fits request (.success (.session tokens)) = true) :
    request.earns = true := by
  unfold fits at h
  unfold Request.earns
  split at h <;> simp_all [Reply.issued]

/-- A turn stores no pair, or the one that was on its way to its call. -/
theorem Turns.pairs {request : Option Request} (h : Turns st c request turn) :
    turn.stored = none ∧ (turn.tokens = st.tokens ∨ turn.tokens = none) ∨
      ∃ stage earning tokens, request = some earning ∧ earning.earns = true ∧ turn.tokens = some tokens ∧
        turn.stored = some tokens ∧ st.phases c = .answered stage earning (.success (.session tokens)) := by
  cases h with
  | stores hc hearns _ => exact .inr ⟨_, _, _, rfl, hearns, rfl, rfl, hc⟩
  | left _ => exact .inl ⟨rfl, .inr rfl⟩
  | _ => exact .inl ⟨rfl, .inl rfl⟩

/-- What is on its way after a turn was so before, to another call. -/
theorem coming_of_after {c' : Fin n} (h : (st.after c turn).phases c' = .answered stage request reply) :
    c' ≠ c ∧ st.phases c' = .answered stage request reply := by
  have hpause : turn.pause.phase ≠ .answered stage request reply := phase_ne_answered _
  dsimp only [State.after] at h
  grind [update_apply]

/-- The pairs are stored in the order in which they were issued. -/
structure Paired (st : State n) (log : List (Mark n)) : Prop where
  /-- No refresh token is issued twice. -/
  nodup : (st.issued.map SessionTokens.refresh).Nodup
  /-- The stored pairs were issued in that order. -/
  stored : (storedPairs log).Sublist st.issued
  /-- So was one that is on its way, as the last. -/
  coming : ∀ c stage request tokens, st.phases c = .answered stage request (.success (.session tokens)) →
    (storedPairs log ++ [tokens]).Sublist st.issued
  /-- The client has one of those that were stored. -/
  current : ∀ tokens, st.tokens = some tokens → tokens ∈ storedPairs log

theorem Paired.answers (h : Paired st log)
    (hnew : ∀ tokens ∈ reply.issued, tokens.refresh ∉ st.issued.map SessionTokens.refresh) :
    Paired { st with
      issued := st.issued ++ reply.issued
      phases := update st.phases c (.answered stage request reply) } log where
  nodup := by
    dsimp only
    rw [map_append]
    refine h.nodup.append ?_ ?_
    · unfold Reply.issued
      split <;> simp
    · intro token hold htoken
      obtain ⟨tokens, hmem, rfl⟩ := mem_map.mp htoken
      exact hnew tokens hmem hold
  stored := h.stored.trans (sublist_append_left _ _)
  coming c' stage' request' tokens hc := by
    dsimp only at hc ⊢
    by_cases hne : c' = c
    · subst hne
      rw [update_self] at hc
      cases hc
      exact h.stored.append (List.Sublist.refl _)
    · rw [update_of_ne hne] at hc
      exact (h.coming c' stage' request' tokens hc).trans (sublist_append_left _ _)
  current := h.current

theorem Paired.step (h : Paired st log) (hfit : Fitting st) (hcalm : calm st = true) (hheld : Held st)
    (hx : Does st x) : Paired x.st (log ++ x.marks) := by
  cases hx with
  | answers _ _ hnew =>
    rw [append_nil]
    exact h.answers hnew
  | @turns c request turn ht =>
    rcases ht.pairs with ⟨hstored, htokens⟩ | ⟨stage, earning, tokens, rfl, hearns, htokens, hstored, hc⟩
    · have hpairs : storedPairs (log ++ (st.turn c request turn).marks) = storedPairs log := by
        rw [storedPairs_append, storedPairs_turn, hstored, toList_none, ite_self, append_nil]
      refine ⟨h.nodup, ?_, fun c' stage' request' tokens hc' => ?_, fun tokens hcurrent => ?_⟩ <;> rw [hpairs]
      · exact h.stored
      · exact h.coming c' stage' request' tokens (coming_of_after hc').2
      · rcases htokens with htokens | htokens
        · exact h.current tokens (htokens.symm.trans hcurrent)
        · cases htokens.symm.trans hcurrent
    · have hpairs : storedPairs (log ++ (st.turn c (some earning) turn).marks) = storedPairs log ++ [tokens] := by
        rw [storedPairs_append, storedPairs_turn, hstored]
        rfl
      refine ⟨h.nodup, ?_, fun c' stage' request' tokens' hc' => ?_, fun tokens' hcurrent => ?_⟩ <;> rw [hpairs]
      · exact h.coming c stage earning tokens hc
      · -- Another pair on its way would be the reply to a request that gets in the way of this one.
        obtain ⟨hne, hc'⟩ := coming_of_after hc'
        have hearns' := earns_of_fits (hfit c' stage' request' _ hc')
        have hflight : (st.phases c).flight = some (stage, earning) := by rw [hc]; rfl
        have hflight' : (st.phases c').flight = some (stage', request') := by rw [hc']; rfl
        exact absurd (eq_of_hinders hcalm hheld hflight' hflight (hinders_of_earns hearns' hearns)) hne
      · cases htokens.symm.trans hcurrent
        exact mem_append_right _ mem_cons_self

/-! ### Tokens are presented once -/

/-- The tokens that were presented. -/
structure Spent (st : State n) (log : List (Mark n)) : Prop where
  /-- None was presented twice. -/
  once : (presented log).Nodup
  /-- They were stored. -/
  known : ∀ token ∈ presented log, token ∈ (storedPairs log).map SessionTokens.refresh
  /-- The one that the client has is in flight, if it was presented. -/
  pending : ∀ tokens, st.tokens = some tokens → tokens.refresh ∈ presented log →
    ∃ c stage, (st.phases c).flight = some (stage, .refresh tokens.refresh)

/-- A turn that presents nothing. -/
theorem Spent.frame (h : Spent st log) {request : Option Request} (hpresents : presented (turn.pause.mark c) = [])
    (hpending : ∀ tokens, turn.tokens = some tokens → tokens.refresh ∈ presented log →
      ∃ c' stage, c' ≠ c ∧ (st.phases c').flight = some (stage, .refresh tokens.refresh)) :
    Spent (st.turn c request turn).st (log ++ (st.turn c request turn).marks) := by
  have hlog : presented (log ++ (st.turn c request turn).marks) = presented log := by
    rw [presented_append, presented_turn, hpresents, append_nil]
  refine ⟨?_, fun token htoken => ?_, fun tokens htokens htoken => ?_⟩
  · rw [hlog]
    exact h.once
  · rw [hlog] at htoken
    rw [storedPairs_append, map_append]
    exact mem_append_left _ (h.known token htoken)
  · rw [hlog] at htoken
    obtain ⟨c', stage, hne, hflight⟩ := hpending tokens htokens htoken
    refine ⟨c', stage, ?_⟩
    dsimp only [State.turn, State.after]
    rwa [update_of_ne hne]

/-- A refresh in flight is another call's. -/
theorem Spent.elsewhere (h : Spent st log) (hc : ∀ stage token, (st.phases c).flight ≠ some (stage, .refresh token))
    {tokens : SessionTokens} (htokens : st.tokens = some tokens) (htoken : tokens.refresh ∈ presented log) :
    ∃ c' stage, c' ≠ c ∧ (st.phases c').flight = some (stage, .refresh tokens.refresh) := by
  obtain ⟨c', stage, hflight⟩ := h.pending tokens htokens htoken
  refine ⟨c', stage, ?_, hflight⟩
  rintro rfl
  exact hc stage _ hflight

theorem Spent.step (h : Spent st log) (hp : Paired st log) (hcalm : calm x.st = true) (hheld : Held x.st)
    (hx : Does st x) : Spent x.st (log ++ x.marks) := by
  cases hx with
  | answers hsent _ _ =>
    rw [append_nil]
    refine ⟨h.once, h.known, fun tokens htokens htoken => ?_⟩
    obtain ⟨c, stage, hflight⟩ := h.pending tokens htokens htoken
    exact ⟨c, stage, (flight_answers _ hsent c).trans hflight⟩
  | @turns c _ _ ht =>
    cases ht with
    | quiet hquiet hc =>
      exact h.frame (presented_mark c hquiet) fun tokens => h.elsewhere hc
    | @signsIn request hc hrequest =>
      refine h.frame ?_ fun tokens => h.elsewhere (by rw [hc]; exact nofun)
      cases request <;> first | rfl | cases hrequest
    | leaves hc => exact h.frame rfl fun tokens => h.elsewhere (by rw [hc]; exact nofun)
    | left _ => exact h.frame rfl nofun
    | @stores stage request tokens pause hc _ hquiet =>
      refine h.frame (presented_mark c hquiet) ?_
      rintro _ ⟨⟩ htoken
      -- The token is new, so it was not stored before, let alone presented.
      have hnodup := ((hp.coming c stage request tokens hc).map SessionTokens.refresh).nodup hp.nodup
      rw [map_append, map_singleton] at hnodup
      exact absurd mem_cons_self (disjoint_of_nodup_append hnodup (h.known _ htoken))
    | @renews stage current htokens hc _ =>
      have hfree : current.refresh ∉ presented log := by
        intro htoken
        obtain ⟨c', stage', hne, hflight⟩ := h.elsewhere (c := c) (by rw [hc]; exact nofun) htokens htoken
        -- The two refreshes are in flight after the step.
        refine hne (eq_of_hinders hcalm hheld (p := (stage', .refresh current.refresh))
          (q := (stage, .refresh current.refresh)) ?_ ?_ (.inl rfl))
        · dsimp only [State.turn, State.after]
          rwa [update_of_ne hne]
        · dsimp only [State.turn, State.after]
          rw [update_self]
          rfl
      have hlog : presented (log ++ (st.turn c none
          { tokens := st.tokens, pause := .awaits stage (.refresh current.refresh) }).marks) =
          presented log ++ [current.refresh] := by
        rw [presented_append, presented_turn]
        rfl
      refine ⟨?_, fun token htoken => ?_, fun tokens htokens' _ => ⟨c, stage, ?_⟩⟩
      · rw [hlog]
        exact h.once.append (nodup_singleton _) (by simpa using hfree)
      · rw [hlog, mem_append, mem_singleton] at htoken
        rw [storedPairs_append, map_append]
        refine mem_append_left _ ?_
        rcases htoken with htoken | rfl
        · exact h.known token htoken
        · exact mem_map_of_mem (hp.current current htokens)
      · dsimp only [State.turn, State.after] at htokens' ⊢
        rw [update_self]
        cases htokens.symm.trans htokens'
        rfl

/-! ### Signed out -/

/-- Since a logout has returned there was a sign-in, or the client has no tokens and none is to come. -/
def SignedOut (st : State n) (l : List (Mark n)) : Prop :=
  (∃ c request tokens, .stored c request tokens ∈ l ∧ request.signsIn = true) ∨
    st.tokens = none ∧ storedPairs l = [] ∧ ∀ c stage token, (st.phases c).flight ≠ some (stage, .refresh token)

/-- A turn that presents nothing leaves no refresh in flight. -/
theorem flight_of_presented (h : presented (pause.mark c) = []) (stage : Stage) (token : String) :
    pause.phase.flight ≠ some (stage, .refresh token) := by
  rintro hflight
  cases pause with
  | awaits _ _ =>
    cases hflight
    cases h
  | _ => cases hflight

/-- A turn that stores and presents nothing. -/
theorem signedOut_of_turn {l : List (Mark n)} {request : Option Request} (htokens : turn.tokens = none)
    (hstored : turn.stored = none) (hpresents : presented (turn.pause.mark c) = []) (hpairs : storedPairs l = [])
    (hflight : ∀ c stage token, (st.phases c).flight ≠ some (stage, .refresh token)) :
    SignedOut (st.turn c request turn).st (l ++ (st.turn c request turn).marks) := by
  refine .inr ⟨htokens, ?_, fun c' stage token => ?_⟩
  · rw [storedPairs_append, storedPairs_turn, hstored, hpairs, toList_none, ite_self, append_nil]
  · dsimp only [State.turn, State.after]
    by_cases hne : c' = c
    · subst hne
      rw [update_self]
      exact flight_of_presented hpresents stage token
    · rw [update_of_ne hne]
      exact hflight c' stage token

theorem SignedOut.step {l : List (Mark n)} (h : SignedOut st l) (hx : Does st x) : SignedOut x.st (l ++ x.marks) := by
  rcases h with ⟨c, request, tokens, hmem, hrequest⟩ | ⟨hnone, hpairs, hflight⟩
  · exact .inl ⟨c, request, tokens, mem_append_left _ hmem, hrequest⟩
  cases hx with
  | answers hsent _ _ =>
    rw [append_nil]
    refine .inr ⟨hnone, hpairs, fun c stage token => ?_⟩
    dsimp only
    rw [flight_answers _ hsent]
    exact hflight c stage token
  | @turns c _ _ ht =>
    cases ht with
    | quiet hquiet _ => exact signedOut_of_turn hnone rfl (presented_mark c hquiet) hpairs hflight
    | renews htokens _ _ => cases hnone.symm.trans htokens
    | @signsIn request _ hrequest =>
      refine signedOut_of_turn hnone rfl ?_ hpairs hflight
      cases request <;> first | rfl | cases hrequest
    | leaves _ => exact signedOut_of_turn hnone rfl rfl hpairs hflight
    | left _ => exact signedOut_of_turn rfl rfl rfl hpairs hflight
    | @stores stage request tokens pause hc hearns _ =>
      refine .inl ⟨c, request, tokens, by simp [State.turn], ?_⟩
      cases request with
      | refresh token => exact absurd (by rw [hc]; rfl) (hflight c stage token)
      | _ => exact hearns

theorem returned_not_mem {c' : Fin n} (h : pause.quiet = true) : Mark.returned c (.ok .loggedOut) ∉ pause.mark c' := by
  rintro hmem
  cases pause with
  | returns result =>
    cases mem_singleton.mp hmem
    cases h
  | _ => simp [Pause.mark] at hmem

/-- When a logout returns, no refresh is in flight. -/
theorem signedOut_of_returned {m₁ m₂ : List (Mark n)} (hcalm : calm st = true) (hheld : Held st) (hx : Does st x)
    (hm : x.marks = m₁ ++ .returned c (.ok .loggedOut) :: m₂) : SignedOut x.st m₂ := by
  have hmem : Mark.returned c (.ok .loggedOut) ∈ x.marks := hm ▸ by simp
  cases hx with
  | answers _ _ _ => cases hmem
  | @turns c' _ _ ht =>
    cases ht with
    | @left stage access token reply hc =>
      obtain ⟨-, hlast⟩ := (append_eq_singleton_iff.mp hm.symm).resolve_right (by simp)
      cases hlast
      refine .inr ⟨rfl, rfl, fun c' stage' token' => ?_⟩
      dsimp only [State.turn, State.after]
      by_cases hne : c' = c
      · subst hne
        rw [update_self]
        exact nofun
      · rw [update_of_ne hne]
        intro hflight
        have hlogout : (st.phases c).flight = some (stage, .logout access token) := by rw [hc]; rfl
        exact hne (eq_of_hinders hcalm hheld hflight hlogout (.inl rfl))
    | quiet hquiet _ | stores _ _ hquiet => simp [State.turn, returned_not_mem hquiet] at hmem
    | _ => simp [State.turn, Pause.mark] at hmem

/-! ### The guarantee -/

/-- A pair was issued before another one. -/
def IssuedBefore (issued : List SessionTokens) (tokens tokens' : SessionTokens) : Prop :=
  issued.idxOf tokens < issued.idxOf tokens'

theorem pairwise_issuedBefore {issued : List SessionTokens} (h : issued.Nodup) :
    issued.Pairwise (IssuedBefore issued) := by
  rw [pairwise_iff_getElem]
  intro i j hi hj hij
  rw [IssuedBefore, h.idxOf_getElem i hi, h.idxOf_getElem j hj]
  exact hij

/-- What a client keeps to. -/
structure Kept (st : State n) (log : List (Mark n)) : Prop where
  /-- No refresh token is sent to the refresh endpoint twice. -/
  once : (presented log).Nodup
  /-- No pair is stored after one that was issued later. -/
  newer : ∀ l₁ c request tokens l₂, log = l₁ ++ .stored c request tokens :: l₂ → ∀ earlier ∈ storedPairs l₁,
    ¬ IssuedBefore st.issued tokens earlier
  /-- When a logout has returned, the client has no tokens, and stores none, until a sign-in succeeds. -/
  signedOut : ∀ l₁ c l₂, log = l₁ ++ .returned c (.ok .loggedOut) :: l₂ →
    (∃ c' request tokens, .stored c' request tokens ∈ l₂ ∧ request.signsIn = true) ∨
      st.tokens = none ∧ storedPairs l₂ = []

/-- What holds throughout a run in which all states are calm. -/
structure Orderly (st : State n) (log : List (Mark n)) : Prop where
  /-- The replies. -/
  fitting : Fitting st
  /-- The requests in flight. -/
  calm : calm st = true
  /-- The lock. -/
  held : Held st
  /-- The pairs. -/
  paired : Paired st log
  /-- The tokens that were presented. -/
  spent : Spent st log
  /-- The logouts. -/
  signedOut : ∀ l₁ c l₂, log = l₁ ++ .returned c (.ok .loggedOut) :: l₂ → SignedOut st l₂

theorem Orderly.step (h : Orderly st log) (hcalm : AuthClient.calm x.st = true) (hx : Does st x) :
    Orderly x.st (log ++ x.marks) where
  fitting := h.fitting.step hx
  calm := hcalm
  held := h.held.step hx
  paired := h.paired.step h.fitting h.calm h.held hx
  spent := h.spent.step h.paired hcalm (h.held.step hx) hx
  signedOut l₁ c l₂ hcut := by
    rcases append_eq_append_iff.mp hcut with ⟨m, rfl, hm⟩ | ⟨m, rfl, hm⟩
    · exact signedOut_of_returned h.calm h.held hx hm
    · cases m with
      | nil => exact signedOut_of_returned h.calm h.held hx (hm.symm.trans (nil_append _).symm)
      | cons mark m =>
        cases hm
        exact (h.signedOut l₁ c m rfl).step hx

/-- The runs of a client in which all states are calm. -/
def Reaches (calls : Fin n → Call) (cfg : Config (State n) Empty (Mark n)) : Prop :=
  Reach ((client calls).within calm) (start initial) cfg

theorem Reaches.orderly {calls : Fin n → Call} {cfg : Config (State n) Empty (Mark n)} (h : Reaches calls cfg) :
    Orderly cfg.st cfg.log := by
  refine reach_invariant (fun cfg => Orderly cfg.st cfg.log) ?_ ?_ ?_ h
  · refine ⟨nofun, by simp [AuthClient.calm, start, initial, Phase.flight], nofun, ?_, ?_, fun l₁ c l₂ hcut => ?_⟩
    · exact ⟨nodup_nil, nil_sublist _, nofun, nofun⟩
    · exact ⟨nodup_nil, nofun, nofun⟩
    · cases (append_eq_nil_iff.mp hcut.symm).2
  · intro cfg e x _ ho hx
    obtain ⟨hevent, hcalm⟩ := filter_eq_some_iff.mp hx
    exact ho.step hcalm (event_does ho.fitting hevent)
  · exact fun _ j => j.elim

/-- **A client presents each refresh token once, does not go back to an older pair, and stays signed out**, in every run
in which no two requests in flight get in each other's way, whatever the order of the calls and of the replies. -/
theorem presents_once {calls : Fin n → Call} {cfg : Config (State n) Empty (Mark n)} (h : Reaches calls cfg) :
    Kept cfg.st cfg.log := by
  have ho := h.orderly
  refine ⟨ho.spent.once, fun l₁ c request tokens l₂ hcut earlier hearlier => ?_, fun l₁ c l₂ hcut => ?_⟩
  · have hpairs := (pairwise_issuedBefore ho.paired.nodup.of_map).sublist ho.paired.stored
    rw [hcut, storedPairs_append] at hpairs
    have hbefore := (pairwise_append.mp hpairs).2.2 earlier hearlier tokens mem_cons_self
    exact Nat.not_lt.mpr (Nat.le_of_lt hbefore)
  · exact (ho.signedOut l₁ c l₂ hcut).imp_right fun h => ⟨h.1, h.2.1⟩

/-! ### Runs -/

/-- Two calls of `me` whose access token is refused, after a login. -/
def lookups : List (Option (Event 3)) :=
  [some (.call 0), some (.answer 0 (.success (.session ⟨"a1", "r1"⟩))), some (.receive 0), some (.call 1), some (.call 2),
    some (.answer 1 (.refused 401 true)), some (.answer 2 (.refused 401 true)), some (.receive 1), some (.receive 2),
    some (.acquire 1), some (.answer 1 (.success (.session ⟨"a2", "r2"⟩))), some (.receive 1), some (.acquire 2)]

theorem presents_once_lookups : ∃ cfg, Reaches ![.login, .me, .me] cfg ∧ presented cfg.log = ["r1"] ∧
    cfg.st.tokens = some ⟨"a2", "r2"⟩ ∧ Kept cfg.st cfg.log := by
  obtain ⟨cfg, hreach, hseen⟩ := reach_of_schedule lookups
    (fun cfg => presented cfg.log = ["r1"] ∧ cfg.st.tokens = some ⟨"a2", "r2"⟩)
    (by decide +kernel : (run ((client ![.login, .me, .me]).within calm) _ (start initial)).any _ = true)
  obtain ⟨hpresented, htokens⟩ := of_decide_eq_true hseen
  exact ⟨cfg, hreach, hpresented, htokens, presents_once hreach⟩

/-- After a login, two refreshes at once. -/
def twice : List (Option (Event 3)) :=
  [some (.call 0), some (.answer 0 (.success (.session ⟨"a1", "r1"⟩))), some (.receive 0), some (.call 1), some (.call 2)]

/-- After a login, a refresh whose reply arrives after that to a second login. -/
def late : List (Option (Event 3)) :=
  [some (.call 0), some (.answer 0 (.success (.session ⟨"a1", "r1"⟩))), some (.receive 0), some (.call 1),
    some (.answer 1 (.success (.session ⟨"a2", "r2"⟩))), some (.call 2),
    some (.answer 2 (.success (.session ⟨"a3", "r3"⟩))), some (.receive 2), some (.receive 1)]

/-- After a login, a refresh whose reply arrives after a logout. -/
def afterLogout : List (Option (Event 3)) :=
  [some (.call 0), some (.answer 0 (.success (.session ⟨"a1", "r1"⟩))), some (.receive 0), some (.call 1),
    some (.answer 1 (.success (.session ⟨"a2", "r2"⟩))), some (.call 2), some (.answer 2 (.success .other)),
    some (.receive 2), some (.receive 1)]

/-- A refresh token is sent twice; an older pair is stored after a newer one; a client is signed in again after a logout
has returned. -/
theorem presents_twice :
    (∃ cfg, Reach (client ![.login, .refresh, .refresh]) (start initial) cfg ∧ presented cfg.log = ["r1", "r1"]) ∧
    (∃ cfg, Reach (client ![.login, .refresh, .login]) (start initial) cfg ∧
      cfg.st.issued = [⟨"a1", "r1"⟩, ⟨"a2", "r2"⟩, ⟨"a3", "r3"⟩] ∧
      storedPairs cfg.log = [⟨"a1", "r1"⟩, ⟨"a3", "r3"⟩, ⟨"a2", "r2"⟩]) ∧
    ∃ cfg, Reach (client ![.login, .refresh, .logout]) (start initial) cfg ∧
      cfg.log.drop 5 = [.returned 2 (.ok .loggedOut), .stored 1 (.refresh "r1") ⟨"a2", "r2"⟩,
        .returned 1 (.ok (.rotated ⟨"a2", "r2"⟩))] ∧ cfg.st.tokens = some ⟨"a2", "r2"⟩ := by
  refine ⟨?_, ?_, ?_⟩
  · obtain ⟨cfg, hreach, hseen⟩ := reach_of_schedule twice (fun cfg => presented cfg.log = ["r1", "r1"])
      (by decide +kernel : (run (client ![.login, .refresh, .refresh]) _ (start initial)).any _ = true)
    exact ⟨cfg, hreach, of_decide_eq_true hseen⟩
  · obtain ⟨cfg, hreach, hseen⟩ := reach_of_schedule late
      (fun cfg => cfg.st.issued = [⟨"a1", "r1"⟩, ⟨"a2", "r2"⟩, ⟨"a3", "r3"⟩] ∧
        storedPairs cfg.log = [⟨"a1", "r1"⟩, ⟨"a3", "r3"⟩, ⟨"a2", "r2"⟩])
      (by decide +kernel : (run (client ![.login, .refresh, .login]) _ (start initial)).any _ = true)
    exact ⟨cfg, hreach, of_decide_eq_true hseen⟩
  · obtain ⟨cfg, hreach, hseen⟩ := reach_of_schedule afterLogout
      (fun cfg => cfg.log.drop 5 = [.returned 2 (.ok .loggedOut), .stored 1 (.refresh "r1") ⟨"a2", "r2"⟩,
        .returned 1 (.ok (.rotated ⟨"a2", "r2"⟩))] ∧ cfg.st.tokens = some ⟨"a2", "r2"⟩)
      (by decide +kernel : (run (client ![.login, .refresh, .logout]) _ (start initial)).any _ = true)
    exact ⟨cfg, hreach, of_decide_eq_true hseen⟩

end BymaxAuth.AuthClient
