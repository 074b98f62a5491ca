import Mathlib.Data.List.Basic

/-!
# The session the React provider shows

`react/index.ts`: `AuthProvider` holds the session, and a refresh run asks `client.getMe()` and writes what it is told.
Runs are started by the mount, by the interval, by a consumer, and by `login`, `register` and `logout` once the client's
own call has returned. Nothing keeps them apart: a run writes when its reply lands, whichever runs were started or have
written in between.

## The model

A run is its place in the order of the starts. The lines behind the `await` run together, and a run whose `getMe` throws
is a reply with no user. `landed` is the order the replies arrived in; the code does not keep it.
-/

namespace BymaxAuth.React

open List Option

variable {User : Type}

/-- `SessionStatus` -/
inductive SessionStatus where
  /-- A user is signed in. -/
  | authenticated
  /-- Nobody is. -/
  | unauthenticated
  /-- Nothing is known yet. -/
  | loading
  deriving DecidableEq

/-- What starts a refresh run. -/
inductive Cause where
  /-- The effect of the mount, or of a new client. -/
  | mount
  | interval
  /-- `refresh` of `useSession` -/
  | manual
  /-- The end of `login`. -/
  | login
  /-- The end of `register`. -/
  | register
  /-- The end of `logout`. -/
  | logout
  deriving DecidableEq

/-- A refresh run. -/
structure Run (User : Type) where
  /-- What started it. -/
  cause : Cause
  /-- The reply to its `getMe`, if it has landed: the user, or nobody. -/
  reply : Option (Option User)
  deriving DecidableEq

/-- The state of `AuthProvider`. -/
structure Provider (User : Type) where
  user : Option User := none
  status : SessionStatus := .loading
  lastValidation : Option ℕ := none
  /-- `wasAuthenticated.current` -/
  wasAuthenticated : Bool := false
  /-- How often `onSessionExpired` was called. -/
  expirations : ℕ := 0
  /-- The runs, in the order they were started in. -/
  runs : List (Run User) := []
  /-- The runs whose replies have landed, in that order. -/
  landed : List ℕ := []
  deriving DecidableEq

/-- What can happen. -/
inductive Event (User : Type) where
  /-- A run is started, and its request sent. -/
  | start (cause : Cause)
  /-- The reply to a run's request lands. -/
  | reply (run : ℕ) (me : Option User) (date : ℕ)

/-- The lines of `refresh` behind its `await`. -/
def Provider.write (p : Provider User) (me : Option User) (date : ℕ) : Provider User :=
  match me with
  | some me =>
    { p with user := some me, status := .authenticated, lastValidation := some date, wasAuthenticated := true }
  | none =>
    { p with
      user := none
      status := .unauthenticated
      lastValidation := some date
      expirations := if p.wasAuthenticated then p.expirations + 1 else p.expirations
      wasAuthenticated := false }

/-- One event; a reply lands once, and for a run that was started. -/
def Provider.step (p : Provider User) : Event User → Option (Provider User)
  | .start cause => some { p with runs := p.runs ++ [⟨cause, none⟩] }
  | .reply run me date =>
    match p.runs[run]? with
    | some ⟨cause, none⟩ =>
      some { p.write me date with runs := p.runs.set run ⟨cause, some me⟩, landed := p.landed ++ [run] }
    | _ => none

open Provider

/-- The events of a run of the page, from the mount on. -/
def Provider.run (events : List (Event User)) : Option (Provider User) := events.foldlM step {}

/-- The reply to a run. -/
def Provider.replyTo (p : Provider User) (run : ℕ) : Option (Option User) := p.runs[run]?.bind (·.reply)

/-- What a reply makes the status. -/
def statusOf (me : Option User) : SessionStatus := if me.isSome then .authenticated else .unauthenticated

/-- What is shown is the reply `me`. -/
def Provider.Shows (p : Provider User) (me : Option User) : Prop := p.user = me ∧ p.status = statusOf me

/-- Every run that was started has its reply. -/
def Provider.Settled (p : Provider User) : Prop := ∀ run ∈ p.runs, run.reply.isSome = true

/-! ### What is shown -/

/-- What is shown is the reply that landed last, and every reply has landed. -/
structure Provider.Coherent (p : Provider User) : Prop where
  /-- The one that landed last. -/
  last : ∀ run, p.landed.getLast? = some run → ∃ me, p.replyTo run = some me ∧ p.Shows me
  /-- None is there that has not landed. -/
  all : ∀ run me, p.replyTo run = some me → run ∈ p.landed

theorem Provider.write_shows (p : Provider User) (me : Option User) (date : ℕ) : (p.write me date).Shows me := by
  cases me <;> exact ⟨rfl, rfl⟩

theorem Provider.replyTo_start (p : Provider User) (cause : Cause) (run : ℕ) :
    replyTo { p with runs := p.runs ++ [⟨cause, none⟩] } run = p.replyTo run := by
  unfold replyTo
  rcases Nat.lt_trichotomy run p.runs.length with h | rfl | h
  · rw [List.getElem?_append_left h]
  · simp
  · rw [List.getElem?_eq_none (by simpa using Nat.succ_le_of_lt h), List.getElem?_eq_none (Nat.le_of_lt h)]

variable {p : Provider User}

/-- An event keeps what is shown at the reply that landed last. -/
theorem Provider.Coherent.step {q : Provider User} {event : Event User} (h : p.Coherent)
    (hstep : p.step event = some q) : q.Coherent := by
  cases event with
  | start cause =>
    cases hstep
    refine ⟨fun run hrun => ?_, fun run me hme => ?_⟩
    · obtain ⟨me, hme, hshows⟩ := h.last run hrun
      exact ⟨me, (p.replyTo_start cause run).trans hme, hshows⟩
    · exact h.all run me ((p.replyTo_start cause run).symm.trans hme)
  | reply run me date =>
    simp only [Provider.step] at hstep
    split at hstep
    · next cause hrun =>
      cases hstep
      have hlt : run < p.runs.length := (List.getElem?_eq_some_iff.mp hrun).1
      refine ⟨fun last hlast => ?_, fun other other' hother => ?_⟩
      · obtain rfl : run = last := by simpa using hlast
        exact ⟨me, by simp [Provider.replyTo, hlt], p.write_shows me date⟩
      · rw [mem_append, mem_singleton]
        by_cases hne : run = other
        · exact .inr hne.symm
        · rw [Provider.replyTo, List.getElem?_set_ne hne] at hother
          exact .inl (h.all other other' hother)
    · cases hstep

theorem run_coherent {events : List (Event User)} (h : run events = some p) : p.Coherent := by
  have hrun : ∀ (events : List (Event User)) (p q : Provider User), p.Coherent →
      events.foldlM step p = some q → q.Coherent := by
    intro events
    induction events with
    | nil =>
      rintro p q hp ⟨⟩
      exact hp
    | cons event events ih =>
      intro p q hp hq
      obtain ⟨m, hm, hq⟩ := bind_eq_some_iff.mp hq
      exact ih m q (hp.step hm) hq
  exact hrun events {} p ⟨nofun, fun run me hme => by simp [replyTo] at hme⟩ h

theorem Provider.Coherent.exists_last (h : p.Coherent) {run : ℕ} {reply : Option User}
    (hreply : p.replyTo run = some reply) :
    ∃ last me, p.landed.getLast? = some last ∧ p.replyTo last = some me ∧ p.Shows me := by
  obtain ⟨last, hlast⟩ := isSome_iff_exists.mp
    (List.getLast?_isSome.mpr (ne_nil_of_mem (h.all run reply hreply)))
  obtain ⟨me, hme, hshows⟩ := h.last last hlast
  exact ⟨last, me, hlast, hme, hshows⟩

theorem Provider.Settled.replyTo_latest (h : p.Settled) (hne : p.runs ≠ []) :
    ∃ latest, p.replyTo (p.runs.length - 1) = some latest := by
  have hlt : p.runs.length - 1 < p.runs.length := Nat.sub_lt (length_pos_of_ne_nil hne) Nat.one_pos
  obtain ⟨latest, hreply⟩ := isSome_iff_exists.mp (h _ (getElem_mem hlt))
  exact ⟨latest, by rw [replyTo, List.getElem?_eq_getElem hlt, bind_some, hreply]⟩

/-- In every run of the page: once nothing is pending, what is shown is the reply to the run that was started last
exactly when the reply that landed last says the same; and after a logout whose revalidation found nobody signed in, a
user that is shown was reported to a later request exactly when the reply that landed last, if it is to an earlier
request, reports nobody. -/
theorem provider_shows_latest_iff (events : List (Event User)) (p : Provider User) (h : run events = some p) :
    (p.Settled → p.runs ≠ [] → ∃ last latest, p.landed.getLast? = some last ∧
      p.replyTo (p.runs.length - 1) = some latest ∧ (p.Shows latest ↔ p.replyTo last = some latest)) ∧
    (∀ run, p.runs[run]? = some ⟨.logout, some none⟩ → ∃ last, p.landed.getLast? = some last ∧
      ((p.status = .authenticated → run < last) ↔ (last < run → p.replyTo last = some none))) := by
  have hp := run_coherent h
  refine ⟨fun hsettled hne => ?_, fun run hrun => ?_⟩
  · obtain ⟨latest, hlatest⟩ := hsettled.replyTo_latest hne
    obtain ⟨last, me, hlast, hme, huser, hstatus⟩ := hp.exists_last hlatest
    refine ⟨last, latest, hlast, hlatest, ?_⟩
    rw [hme, some_inj]
    exact ⟨fun hshows => huser.symm.trans hshows.1, fun heq => heq ▸ ⟨huser, hstatus⟩⟩
  · have hnobody : p.replyTo run = some none := by rw [replyTo, hrun, bind_some]
    obtain ⟨last, me, hlast, hme, -, hstatus⟩ := hp.exists_last hnobody
    refine ⟨last, hlast, ?_⟩
    rw [hme, hstatus, some_inj]
    cases me with
    | none => simp [statusOf]
    | some user =>
      have hne : last ≠ run := by
        rintro rfl
        simp [hnobody] at hme
      simp only [statusOf, isSome_some, if_true, forall_const, reduceCtorEq, imp_false]
      omega

/-- The interval asks, the user signs out and the page finds nobody signed in; then the first answer lands. -/
def overtaken : List (Event String) :=
  [.start .mount, .reply 0 (some "ada") 1, .start .interval, .start .logout, .reply 2 none 2, .reply 1 (some "ada") 3]

/-- The reply that was overtaken shows the user as signed in after the logout. -/
theorem overtaken_shows_signed_in : ∃ p, run overtaken = some p ∧ p.Settled ∧
    p.runs[2]? = some ⟨.logout, some none⟩ ∧ p.Shows (some "ada") := by
  refine ⟨_, rfl, ?_, rfl, rfl, rfl⟩
  simp [Provider.Settled]

/-- Where the interval's answer lands first, the page shows that nobody is signed in. -/
theorem provider_shows_latest_in_order :
    ∃ p, run (overtaken.take 4 ++ [.reply 1 (some "ada") 2, .reply 2 none 3]) = some p ∧
      p.replyTo (p.runs.length - 1) = some none ∧ p.Shows none ∧ p.status ≠ .authenticated := by
  refine ⟨_, rfl, rfl, ?_⟩
  obtain ⟨hshows, hlogout⟩ :=
    provider_shows_latest_iff (overtaken.take 4 ++ [.reply 1 (some "ada") 2, .reply 2 none 3]) _ rfl
  obtain ⟨last, latest, hlast, hlatest, hiff⟩ := hshows (by simp [Provider.Settled]) nofun
  cases hlast
  cases hlatest
  obtain ⟨last, hlast, hiff'⟩ := hlogout 2 rfl
  cases hlast
  exact ⟨hiff.mpr rfl, fun hstatus => absurd (hiff'.mpr nofun hstatus) (Nat.lt_irrefl 2)⟩

end BymaxAuth.React
