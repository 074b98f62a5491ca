import Mathlib.Algebra.Order.Field.Basic
import Mathlib.Tactic.Linarith

/-!
# The generic cell rate algorithm

A limiter that lets a burst of cells through and restores one cell every period. For each key it keeps one time, the
theoretical arrival time of the next cell: a request conforms if it is not earlier than that by more than the burst
allows, and moves it on by one period. A key that was not seen has none. A sweep forgets the keys whose burst is whole
again.

## The model

Times are elements of an ordered field. An `Event` carries the time at which it happens, so the state has no clock.
-/

namespace Gcra

open List Option Function

/-- How much is let through. -/
structure Quota (R : Type) where
  /-- The cells of a burst. -/
  burst : ℕ
  /-- The time after which one cell is restored. -/
  period : R

/-- What happens to a limiter. -/
inductive Event (Key R : Type) where
  /-- A request under a key. -/
  | request (key : Key) (time : R)
  /-- The keys whose burst is whole again are dropped. -/
  | sweep (time : R)

/-- When it happens. -/
def Event.time {Key R : Type} : Event Key R → R
  | request _ time | sweep time => time

/-- The events are in the order of time. -/
def Ordered {Key R : Type} [LE R] (l : List (Event Key R)) : Prop := l.Pairwise fun e e' => e.time ≤ e'.time

variable {Key R : Type} [DecidableEq Key] [LinearOrder R]

/-- The theoretical arrival time as a request at `t` or later finds it. -/
def level (o : Option R) (t : R) : R := o.elim t (max · t)

section Level

variable {o : Option R} {t t' : R}

theorem le_level : t ≤ level o t := by
  cases o with
  | none => exact le_rfl
  | some arrival => exact le_max_right arrival t

theorem level_mono (h : t ≤ t') : level o t ≤ level o t' := by
  cases o with
  | none => exact h
  | some arrival => exact max_le_max le_rfl h

/-- A sweep changes nothing for a request that comes after it. -/
theorem level_filter (h : t' ≤ t) : level (o.filter fun arrival => decide (t' < arrival)) t = level o t := by
  cases o with
  | none => rfl
  | some arrival =>
    by_cases ha : t' < arrival
    · rw [filter_some_pos (by simpa using ha)]
    · rw [filter_some_neg (by simpa using ha)]
      exact (max_eq_right ((not_lt.mp ha).trans h)).symm

end Level

variable [Field R] {q : Quota R} {s : Key → Option R} {k : Key} {t : R} {l : List (Event Key R)}

/-- Whether a request at `t` conforms. -/
def Quota.admits (q : Quota R) (o : Option R) (t : R) : Bool :=
  o.all fun arrival => decide (arrival - (q.burst - 1) * q.period ≤ t)

/-- The request an event admits, and the state after it. -/
def Quota.step (q : Quota R) (s : Key → Option R) : Event Key R → Option (Key × R) × (Key → Option R)
  | .request key t =>
    if q.admits (s key) t then (some (key, t), update s key (some (level (s key) t + q.period))) else (none, s)
  | .sweep t => (none, fun key => (s key).filter fun arrival => decide (t < arrival))

/-- The requests a limiter admits, from a state. -/
def Quota.admitted (q : Quota R) : (Key → Option R) → List (Event Key R) → List (Key × R)
  | _, [] => []
  | s, e :: l => (q.step s e).1.toList ++ q.admitted (q.step s e).2 l

/-- The request is of the key, and between `a` and `b`. -/
def within (k : Key) (a b : R) (r : Key × R) : Bool := r.1 = k ∧ a ≤ r.2 ∧ r.2 ≤ b

/-- The requests of a key that are admitted from `a` to `b`. -/
def Quota.count (q : Quota R) (s : Key → Option R) (l : List (Event Key R)) (k : Key) (a b : R) : ℕ :=
  (q.admitted s l).countP (within k a b)

/-! ### One event -/

theorem step_admitted (h : q.admits (s k) t = true) :
    q.step s (.request k t) = (some (k, t), update s k (some (level (s k) t + q.period))) := if_pos h

theorem step_refused (h : ¬ q.admits (s k) t = true) : q.step s (.request k t) = (none, s) := if_neg h

theorem count_cons (e : Event Key R) (l : List (Event Key R)) (a b : R) :
    q.count s (e :: l) k a b = (q.step s e).1.toList.countP (within k a b) + q.count (q.step s e).2 l k a b :=
  countP_append

variable [IsStrictOrderedRing R]

/-- The arrival time never moves back. -/
theorem level_step (hperiod : 0 ≤ q.period) (e : Event Key R) (h : e.time ≤ t) :
    level (s k) t ≤ level ((q.step s e).2 k) t := by
  cases e with
  | sweep t' => exact (level_filter h).ge
  | request k' t' =>
    by_cases hadmits : q.admits (s k') t' = true
    · rw [step_admitted hadmits]
      by_cases hk : k = k'
      · subst hk
        dsimp only
        rw [update_self]
        cases s k with
        | none => exact le_max_right _ _
        | some arrival =>
          have hle : arrival ≤ level (some arrival) t' := le_max_left _ _
          exact max_le_max (by linarith) le_rfl
      · exact (congrArg (level · t) (update_of_ne hk ..)).ge
    · rw [step_refused hadmits]

section

variable (hburst : 1 ≤ q.burst) (hperiod : 0 ≤ q.period)
include hburst hperiod

/-- An admitted request found the arrival time less than a burst ahead, and moved it on by a period. -/
theorem level_of_admitted {e : Event Key R} (h : (q.step s e).1 = some (k, t)) :
    t = e.time ∧ level (s k) t + q.period ≤ t + q.burst * q.period ∧
      level (s k) t + q.period ≤ level ((q.step s e).2 k) t := by
  cases e with
  | sweep t' => cases h
  | request k' t' =>
    by_cases hadmits : q.admits (s k') t' = true
    · rw [step_admitted hadmits] at h ⊢
      cases h
      dsimp only
      rw [update_self]
      refine ⟨rfl, ?_, le_max_left _ _⟩
      have hcells : (1 : R) ≤ q.burst := by exact_mod_cast hburst
      have hroom : q.period ≤ q.burst * q.period := le_mul_of_one_le_left hperiod hcells
      cases ho : s k with
      | none =>
        show t + q.period ≤ _
        linarith
      | some arrival =>
        have harrival : arrival - (q.burst - 1) * q.period ≤ t := by simpa [Quota.admits, ho] using hadmits
        have hlevel : level (some arrival) t ≤ t + (q.burst - 1) * q.period := max_le (by linarith) (by linarith)
        linarith
    · rw [step_refused hadmits] at h
      cases h

/-! ### Any interval -/

/-- Every request that is admitted in an interval moves the arrival time on by a period, and the last one finds it less
than a burst ahead. The induction is on the events, which come at `c` or later. -/
theorem level_add_le {a b c : R} (hc : ∀ e ∈ l, c ≤ e.time) (hordered : Ordered l) :
    q.count s l k a b = 0 ∨ level (s k) (max a c) + q.count s l k a b * q.period ≤ b + q.burst * q.period := by
  induction l generalizing s c with
  | nil => exact .inl rfl
  | cons e l ih =>
    obtain ⟨hlater, hordered⟩ := pairwise_cons.mp hordered
    have hmove : level (s k) (max a c) ≤ level (s k) (max a e.time) :=
      level_mono (max_le_max le_rfl (hc e mem_cons_self))
    have hrest := ih (s := (q.step s e).2) hlater hordered
    have hskip := hrest.imp_right fun hle => (add_le_add_left
      (hmove.trans (level_step (s := s) (k := k) hperiod e (le_max_right a e.time))) _).trans hle
    rw [count_cons]
    cases hstep : (q.step s e).1 with
    | none => rwa [toList_none, countP_nil, Nat.zero_add]
    | some r =>
      rw [toList_some, countP_singleton]
      by_cases hin : within k a b r = true
      · -- The request is counted, and the arrival time is a period further.
        obtain ⟨k', t⟩ := r
        simp only [within, decide_eq_true_eq] at hin
        obtain ⟨rfl, hat, htb⟩ := hin
        obtain ⟨rfl, hroom, hnext⟩ := level_of_admitted hburst hperiod hstep
        rw [max_eq_right hat] at hmove hrest
        rw [if_pos (by simp [within, hat, htb])]
        right
        push_cast
        rcases hrest with hzero | hle
        · rw [hzero, Nat.cast_zero]
          linarith
        · linarith
      · rwa [if_neg hin, Nat.zero_add]

/-- **The bound**: what is admitted from `a` to `b` is at most the burst and one more for each period in between. -/
theorem count_le (hordered : Ordered l) (s : Key → Option R)
    (k : Key) {a b : R} (hab : a ≤ b) : q.count s l k a b * q.period ≤ q.burst * q.period + (b - a) := by
  have hcells : 0 ≤ (q.burst : R) * q.period := mul_nonneg (Nat.cast_nonneg _) hperiod
  have hnone : ((0 : ℕ) : R) * q.period ≤ q.burst * q.period + (b - a) := by
    rw [Nat.cast_zero, zero_mul]
    linarith
  cases l with
  | nil => exact hnone
  | cons e l =>
    have hc : ∀ e' ∈ e :: l, e.time ≤ e'.time := by
      intro e' he'
      rcases mem_cons.mp he' with rfl | he'
      · exact le_rfl
      · exact (pairwise_cons.mp hordered).1 e' he'
    rcases level_add_le (s := s) (a := a) (b := b) (k := k) hburst hperiod hc hordered with hzero | hle
    · rw [hzero]
      exact hnone
    · have hstart : a ≤ level (s k) (max a e.time) := (le_max_left a e.time).trans le_level
      linarith

end

/-! ### A burst -/

end Gcra
