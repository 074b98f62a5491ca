import BymaxAuth.Lib.Prog

/-!
# Programs whose commands may fail

A store that is asked for a command may fail in two ways: the command is lost, or it is carried out and its
reply is lost. Either way the program only learns that it failed. `Faulty Res ε α` is a program
(`BymaxAuth.Lib.Prog`) written for such a store; what becomes of its commands is a list of faults, one for
each in turn, and past the end of the list every command is answered. `Faulty.under` is the program under
one such pattern, over the store that does not fail.

A program may go on after a failure (`Faulty.settle`), for instance to release what it holds. The faults go
on with it, whether the part before it failed or not.
-/

namespace Concurrency

variable {Op : Type} {Res : Op → Type} {ε α β : Type}

/-- What becomes of a command. -/
inductive Fault where
  /-- It is carried out and answered. -/
  | answered
  /-- It is not carried out. -/
  | lost
  /-- It is carried out, and the reply is lost. -/
  | unacked
  deriving DecidableEq

/-- A program whose commands may fail. -/
abbrev Faulty (Res : Op → Type) (ε α : Type) : Type := ExceptT ε (StateT (List Fault) (Prog Res)) α

namespace Faulty

/-- Issue a command that does not fail. -/
def ask (c : Op) : Faulty Res ε (Res c) := fun faults => .op c fun r => .ret (.ok r, faults)

/-- Issue a command that may fail, as the next fault says. -/
def call (failure : ε) (c : Op) : Faulty Res ε (Res c)
  | [] => .op c fun r => .ret (.ok r, [])
  | .answered :: faults => .op c fun r => .ret (.ok r, faults)
  | .lost :: faults => .ret (.error failure, faults)
  | .unacked :: faults => .op c fun _ => .ret (.error failure, faults)

/-- Run `x` and go on with what it ended with, an answer or a failure. -/
def settle (x : Faulty Res ε α) : Faulty Res ε (Except ε α) :=
  fun faults => (x faults).bind fun p => .ret (.ok p.1, p.2)

/-- The program under a pattern of faults. -/
def under (faults : List Fault) (x : Faulty Res ε α) : ExceptT ε (Prog Res) α :=
  (x faults).bind fun p => .ret p.1

theorem bind_apply (x : Faulty Res ε α) (f : α → Faulty Res ε β) (faults : List Fault) :
    (x >>= f) faults = (x faults).bind fun p =>
      match p.1 with
      | .ok a => f a p.2
      | .error e => .ret (.error e, p.2) := by
  show Prog.bind _ _ = _
  congr 1
  funext p
  obtain ⟨r, faults'⟩ := p
  cases r <;> rfl

end Faulty

/-- From the trace `tr` and whatever the faults are, `x` issues only commands that `I` allows where it issues
them; an answer leaves a trace that satisfies `Q`, a failure one that satisfies `E`. -/
def Robust (I : List (Ev Res) → Op → Prop) (Q : List (Ev Res) → α → Prop) (E : List (Ev Res) → ε → Prop)
    (tr : List (Ev Res)) (x : Faulty Res ε α) : Prop :=
  ∀ faults : List Fault, Wp I (fun tr p =>
    match p.1 with
    | .ok a => Q tr a
    | .error e => E tr e) tr (x faults)

namespace Robust

variable {I : List (Ev Res) → Op → Prop} {Q : List (Ev Res) → α → Prop}
  {E : List (Ev Res) → ε → Prop} {tr : List (Ev Res)}

theorem pure {a : α} (h : Q tr a) : Robust I Q E tr (Pure.pure a : Faulty Res ε α) := fun _ => h

theorem throw {e : ε} (h : E tr e) : Robust I Q E tr (MonadExcept.throw e : Faulty Res ε α) := fun _ => h

variable {R : List (Ev Res) → β → Prop} {x : Faulty Res ε α} {f : α → Faulty Res ε β}

/-- Nothing comes after a failure. -/
theorem throw_bind {e : ε} (h : E tr e) : Robust I R E tr (MonadExcept.throw e >>= f) := fun _ => h

theorem mono {J : List (Ev Res) → Op → Prop} {R : List (Ev Res) → α → Prop} {F : List (Ev Res) → ε → Prop}
    (hx : Robust I Q E tr x) (hI : ∀ tr c, I tr c → J tr c) (hQ : ∀ tr a, Q tr a → R tr a)
    (hE : ∀ tr e, E tr e → F tr e) : Robust J R F tr x := by
  intro faults
  refine (hx faults).mono hI fun tr p hp => ?_
  obtain ⟨r, faults'⟩ := p
  cases r with
  | ok a => exact hQ tr a hp
  | error e => exact hE tr e hp

theorem bind (hx : Robust I Q E tr x) (hf : ∀ tr a, Q tr a → Robust I R E tr (f a)) : Robust I R E tr (x >>= f) := by
  intro faults
  rw [Faulty.bind_apply, wp_bind]
  refine (hx faults).mono (fun _ _ h => h) fun tr p hp => ?_
  obtain ⟨r, faults'⟩ := p
  cases r with
  | ok a => exact hf tr a hp faults'
  | error e => exact hp

variable {c : Op} {failure : ε} {f : Res c → Faulty Res ε β}

/-- One command that does not fail, and the rest. -/
theorem ask (hI : I tr c) (hf : ∀ r, Robust I R E (tr ++ [⟨c, r⟩]) (f r)) : Robust I R E tr (Faulty.ask c >>= f) :=
  fun faults => ⟨hI, fun r => hf r faults⟩

/-- One command that may fail, and nothing after it. -/
theorem issue {Q : List (Ev Res) → Res c → Prop} (hI : I tr c) (hlost : E tr failure)
    (hunacked : ∀ r, E (tr ++ [⟨c, r⟩]) failure) (hQ : ∀ r, Q (tr ++ [⟨c, r⟩]) r) :
    Robust I Q E tr (Faulty.call failure c : Faulty Res ε (Res c)) := by
  intro faults
  cases faults with
  | nil => exact ⟨hI, hQ⟩
  | cons fault faults =>
    cases fault with
    | answered => exact ⟨hI, hQ⟩
    | lost => exact hlost
    | unacked => exact ⟨hI, hunacked⟩

/-- One command that may fail, before it is carried out or after, and the rest. -/
theorem call (hI : I tr c) (hlost : E tr failure)
    (hunacked : ∀ r, E (tr ++ [⟨c, r⟩]) failure) (hf : ∀ r, Robust I R E (tr ++ [⟨c, r⟩]) (f r)) :
    Robust I R E tr (Faulty.call failure c >>= f) := by
  refine .bind (Q := fun tr' r => tr' = tr ++ [⟨c, r⟩]) (.issue hI hlost hunacked fun _ => rfl) ?_
  rintro _ r rfl
  exact hf r

theorem map {f : α → β} (hx : Robust I (fun tr a => R tr (f a)) E tr x) : Robust I R E tr (f <$> x) :=
  hx.bind fun _ _ h => .pure h

/-- A part whose answer is not read, and the rest. -/
theorem discard {f : Unit → Faulty Res ε β} (hx : Robust I Q E tr x) (hf : ∀ tr a, Q tr a → Robust I R E tr (f ())) :
    Robust I R E tr (Functor.discard x >>= f) := by
  refine .bind (Robust.map (hx.mono (fun _ _ h => h) (fun tr a h => ⟨a, h⟩) fun _ _ h => h) :
    Robust I (fun tr _ => ∃ a, Q tr a) E tr (Functor.discard x)) ?_
  rintro tr _ ⟨a, h⟩
  exact hf tr a h

/-- One command that may fail and whose reply is not read, and the rest. -/
theorem discard_call {f : Unit → Faulty Res ε β} (hI : I tr c) (hlost : E tr failure)
    (hunacked : ∀ r, E (tr ++ [⟨c, r⟩]) failure) (hf : ∀ r, Robust I R E (tr ++ [⟨c, r⟩]) (f ())) :
    Robust I R E tr (Functor.discard (Faulty.call failure c) >>= f) := by
  refine .discard (Q := fun tr' r => tr' = tr ++ [⟨c, r⟩]) (.issue hI hlost hunacked fun _ => rfl) ?_
  rintro _ r rfl
  exact hf r

/-- What comes after an answer comes, for the part that is settled, after a failure as well. -/
theorem settle {S : List (Ev Res) → ε → Prop} {f : Except ε α → Faulty Res ε β} (hx : Robust I Q S tr x)
    (hok : ∀ tr a, Q tr a → Robust I R E tr (f (.ok a))) (herr : ∀ tr e, S tr e → Robust I R E tr (f (.error e))) :
    Robust I R E tr (x.settle >>= f) := by
  intro faults
  rw [Faulty.bind_apply, Faulty.settle, wp_bind, wp_bind]
  refine (hx faults).mono (fun _ _ h => h) fun tr p hp => ?_
  obtain ⟨r, faults'⟩ := p
  cases r with
  | ok a => exact hok tr a hp faults'
  | error e => exact herr tr e hp faults'

theorem ite {p : Prop} [Decidable p] {y : Faulty Res ε α} (hx : p → Robust I Q E tr x)
    (hy : ¬ p → Robust I Q E tr y) : Robust I Q E tr (if p then x else y) := by
  split
  · next h => exact hx h
  · next h => exact hy h

/-- What holds whatever the faults are holds under a pattern of them. -/
theorem under (hx : Robust I Q E tr x) (faults : List Fault) : Wp I (fun tr r =>
      match r with
      | .ok a => Q tr a
      | .error e => E tr e) tr (x.under faults).run := by
  show Wp _ _ _ (Prog.bind _ _)
  rw [wp_bind]
  refine (hx faults).mono (fun _ _ h => h) fun tr p hp => ?_
  obtain ⟨r, faults'⟩ := p
  cases r <;> exact hp

theorem triple (hx : Robust I Q E tr x) (faults : List Fault) :
    Triple I Q (fun tr => ∃ e, E tr e) tr (x.under faults) := by
  refine (hx.under faults).mono (fun _ _ h => h) fun tr r hr => ?_
  cases r with
  | ok a => exact hr
  | error e => exact ⟨e, hr⟩

theorem within {P : Op → Prop} {F : ε → Prop}
    (hx : ∀ tr, Robust (fun _ c => P c) (fun _ _ => True) (fun _ e => F e) tr x) (faults : List Fault) :
    Within P F (x.under faults) := by
  refine fun tr => ((hx tr).under faults).mono (fun _ _ h => h) ?_
  rintro tr _ hr e rfl
  exact hr

end Robust

end Concurrency
