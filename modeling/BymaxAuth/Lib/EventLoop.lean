import Mathlib.Logic.Relation
import Mathlib.Data.List.Basic

/-!
# Event loops

A single-threaded program that awaits. One job at a time runs, to its end; the jobs it leaves behind go to the end of a
queue, and the job in front is the next one to run. What happens outside, a reply that arrives or a new call, comes
between two jobs and leaves jobs of its own.

## The model

A `Loop` says what an event and a job do to the state, which jobs they leave, and what of it is seen (`marks`). A
`Config` is the state with the queue and with everything that was seen so far. `Reach` is a run: events come at any time,
jobs in the order of the queue.
-/

namespace Concurrency.EventLoop

open List

variable {σ E J H : Type}

/-- What an event or a job does. -/
structure Effect (σ J H : Type) where
  /-- The state it leaves. -/
  st : σ
  /-- The jobs it leaves, the first one first. -/
  jobs : List J := []
  /-- What is seen of it. -/
  marks : List H := []

/-- A program that awaits. -/
structure Loop (σ E J H : Type) where
  /-- What an event does, if it can happen. -/
  event : E → σ → Option (Effect σ J H)
  /-- What a job does. -/
  job : J → σ → Effect σ J H

/-- A moment between two jobs. -/
structure Config (σ J H : Type) where
  /-- The state. -/
  st : σ
  /-- The jobs that wait. -/
  queue : List J
  /-- What was seen so far. -/
  log : List H

/-- Nothing has happened yet. -/
def start (st : σ) : Config σ J H := ⟨st, [], []⟩

/-- After an effect, with these jobs still to run. -/
def Effect.after (x : Effect σ J H) (queue : List J) (log : List H) : Config σ J H :=
  ⟨x.st, queue ++ x.jobs, log ++ x.marks⟩

/-- One step. -/
inductive Step (L : Loop σ E J H) : Config σ J H → Config σ J H → Prop where
  | event {c : Config σ J H} (e : E) {x : Effect σ J H} : L.event e c.st = some x → Step L c (x.after c.queue c.log)
  /-- The job in front. -/
  | job {st : σ} {j : J} {queue : List J} {log : List H} : Step L ⟨st, j :: queue, log⟩ ((L.job j st).after queue log)

/-- A run. -/
abbrev Reach (L : Loop σ E J H) : Config σ J H → Config σ J H → Prop := Relation.ReflTransGen (Step L)

/-- One step of a schedule: an event, or the job in front. -/
def advance (L : Loop σ E J H) : Option E → Config σ J H → Option (Config σ J H)
  | some e, c => (L.event e c.st).map fun x => x.after c.queue c.log
  | none, ⟨st, j :: queue, log⟩ => some ((L.job j st).after queue log)
  | none, ⟨_, [], _⟩ => none

/-- Carrying out a schedule. -/
def run (L : Loop σ E J H) : List (Option E) → Config σ J H → Option (Config σ J H)
  | [], c => some c
  | move :: moves, c => (advance L move c).bind (run L moves)

/-- The program under a condition: only those events happen that lead to states in which it holds. -/
def Loop.within (L : Loop σ E J H) (ok : σ → Bool) : Loop σ E J H where
  event e st := (L.event e st).filter fun x => ok x.st
  job := L.job

variable {L : Loop σ E J H} {c₀ c : Config σ J H}

theorem step_of_advance {move : Option E} (h : advance L move c₀ = some c) : Step L c₀ c := by
  unfold advance at h
  split at h
  · obtain ⟨x, hx, rfl⟩ := Option.map_eq_some_iff.mp h
    exact .event _ hx
  · cases h
    exact .job
  · cases h

/-- A schedule that can be carried out is a run. -/
theorem reach_of_run {moves : List (Option E)} (h : run L moves c₀ = some c) : Reach L c₀ c := by
  induction moves generalizing c₀ with
  | nil =>
    cases h
    exact .refl
  | cons move moves ih =>
    obtain ⟨c₁, hmove, hrest⟩ := Option.bind_eq_some_iff.mp h
    exact .head (step_of_advance hmove) (ih hrest)

/-- What holds at the start, and what an event and a job keep, holds throughout. -/
theorem reach_invariant (Inv : Config σ J H → Prop) (h₀ : Inv c₀)
    (hevent : ∀ c e x, Reach L c₀ c → Inv c → L.event e c.st = some x → Inv (x.after c.queue c.log))
    (hjob : ∀ st j queue log, Reach L c₀ ⟨st, j :: queue, log⟩ → Inv ⟨st, j :: queue, log⟩ →
      Inv ((L.job j st).after queue log))
    (h : Reach L c₀ c) : Inv c := by
  induction h with
  | refl => exact h₀
  | tail hreach hstep ih =>
    cases hstep with
    | event e hx => exact hevent _ e _ hreach ih hx
    | job => exact hjob _ _ _ _ hreach ih

/-- A job that is due is in the queue. -/
theorem reach_due (Due : σ → J → Prop) (h₀ : ∀ j, ¬ Due c₀.st j)
    (hevent : ∀ c e x j, Reach L c₀ c → L.event e c.st = some x → Due x.st j → Due c.st j ∨ j ∈ x.jobs)
    (hjob : ∀ st i queue log j, Reach L c₀ ⟨st, i :: queue, log⟩ → Due (L.job i st).st j →
      Due st j ∧ j ≠ i ∨ j ∈ (L.job i st).jobs) (h : Reach L c₀ c) :
    ∀ j, Due c.st j → j ∈ c.queue := by
  refine reach_invariant (fun c => ∀ j, Due c.st j → j ∈ c.queue) (fun j hj => absurd hj (h₀ j)) ?_ ?_ h
  · intro c e x hreach ih hx j hj
    rcases hevent c e x j hreach hx hj with hdue | hmem
    · exact mem_append_left _ (ih j hdue)
    · exact mem_append_right _ hmem
  · intro st i queue log hreach ih j hj
    rcases hjob st i queue log j hreach hj with ⟨hdue, hne⟩ | hmem
    · exact mem_append_left _ ((mem_cons.mp (ih j hdue)).resolve_left hne)
    · exact mem_append_right _ hmem

/-- A schedule that can be carried out leads to a moment at which this holds. -/
theorem reach_of_schedule (moves : List (Option E)) (P : Config σ J H → Bool) (h : (run L moves c₀).any P = true) :
    ∃ c, Reach L c₀ c ∧ P c = true := by
  cases hrun : run L moves c₀ with
  | none =>
    rw [hrun] at h
    cases h
  | some c =>
    rw [hrun] at h
    exact ⟨c, reach_of_run hrun, h⟩

/-- What is said of every mark and of what was seen before it is said of a longer history, if it is said of the new
marks. -/
theorem cuts_append {P : List H → H → Prop} {log marks : List H} (hlog : ∀ l₁ x l₂, log = l₁ ++ x :: l₂ → P l₁ x)
    (hmarks : ∀ m₁ x m₂, marks = m₁ ++ x :: m₂ → P (log ++ m₁) x) {l₁ l₂ : List H} {x : H}
    (h : log ++ marks = l₁ ++ x :: l₂) : P l₁ x := by
  rcases append_eq_append_iff.mp h with ⟨m, rfl, hm⟩ | ⟨m, rfl, hm⟩
  · exact hmarks m x l₂ hm
  · cases m with
    | nil =>
      rw [nil_append] at hm
      simpa using hmarks [] x l₂ hm.symm
    | cons y m =>
      rw [cons_append, List.cons.injEq] at hm
      obtain ⟨rfl, -⟩ := hm
      exact hlog l₁ x m rfl

end Concurrency.EventLoop
