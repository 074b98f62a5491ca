import Mathlib.Logic.Function.Basic
import Mathlib.Data.List.Basic

/-!
# Programs over atomic commands

A program is what a request handler is once its awaits are made explicit: it issues one command,
gets a reply, and goes on from there. `Prog Res α` is the tree of these exchanges; `Res c` is the
type of the reply to command `c`. Programs compose by `bind`, so a handler can be written in `do`
notation in the order of its source.

Nothing here says what a command does. What is said of a program is said of its *local trace*: the
commands it has issued with the replies it got, whatever those were. `Wp I Q tr p` is the
precondition calculus for that: from the local trace `tr`, program `p` issues only commands `I`
allows it at that point, and if it ends, it ends with a trace and an answer that satisfy `Q`.
-/

namespace Concurrency

open List MonadExcept Concurrency

variable {Op : Type} {Res : Op → Type} {α β γ : Type}

/-! ### Steps that may fail -/

theorem bind_ok_iff {ε : Type} {x : Except ε α} {f : α → Except ε β} {b : β} :
    (x >>= f) = .ok b ↔ ∃ a, x = .ok a ∧ f a = .ok b := by
  cases x <;> simp [bind, Except.bind]

/-- A loop that may throw ends without an error exactly when no round throws. -/
theorem forM_ok_iff {ε : Type} (l : List α) (f : α → Except ε Unit) : l.forM f = .ok () ↔ ∀ a ∈ l, f a = .ok () := by
  induction l with
  | nil => simp [List.forM, pure, Except.pure]
  | cons a l ih =>
    show (f a >>= fun _ => l.forM f) = .ok () ↔ _
    rw [bind_ok_iff, forall_mem_cons, ← ih]
    exact ⟨fun ⟨_, ha, hl⟩ => ⟨ha, hl⟩, fun ⟨ha, hl⟩ => ⟨(), ha, hl⟩⟩

/-! ### Programs -/

/-- A program over commands `Op` with replies `Res`. -/
inductive Prog (Res : Op → Type) (α : Type) : Type where
  /-- The program has ended with an answer. -/
  | ret (a : α)
  /-- The program issues `c` and goes on with the reply. -/
  | op (c : Op) (k : Res c → Prog Res α)

namespace Prog

/-- Run `p`, then `f` on its answer. -/
def bind : Prog Res α → (α → Prog Res β) → Prog Res β
  | .ret a, f => f a
  | .op c k, f => .op c fun r => (k r).bind f

instance : Monad (Prog Res) where
  pure := .ret
  bind := bind

/-- Issue one command. -/
def call (c : Op) : Prog Res (Res c) := .op c .ret

theorem map_eq (f : α → β) (p : Prog Res α) : f <$> p = p.bind fun a => .ret (f a) := rfl

@[simp] theorem ret_bind (a : α) (f : α → Prog Res β) : (ret a : Prog Res α).bind f = f a := rfl

@[simp] theorem op_bind (c : Op) (k : Res c → Prog Res α) (f : α → Prog Res β) :
    (op c k).bind f = op c fun r => (k r).bind f := rfl

@[simp] theorem call_bind (c : Op) (f : Res c → Prog Res β) : (call c).bind f = op c f := rfl

end Prog

/-- One exchange: a command and its reply. -/
structure Ev (Res : Op → Type) where
  /-- The command. -/
  op : Op
  /-- Its reply. -/
  res : Res op

/-- `Path p tr q`: issuing the commands of `tr` and getting its replies, `p` has become `q`. -/
inductive Path : Prog Res α → List (Ev Res) → Prog Res α → Prop where
  /-- Nothing issued yet. -/
  | nil (p : Prog Res α) : Path p [] p
  /-- One exchange, and the rest. -/
  | cons {c : Op} {k : Res c → Prog Res α} {r : Res c} {tr : List (Ev Res)} {q : Prog Res α} :
      Path (k r) tr q → Path (.op c k) (⟨c, r⟩ :: tr) q

variable {p q : Prog Res α} {tr : List (Ev Res)}

theorem Path.snoc {c : Op} {k : Res c → Prog Res α} (h : Path p tr (.op c k)) (r : Res c) :
    Path p (tr ++ [⟨c, r⟩]) (k r) := by
  generalize hq : Prog.op c k = q at h
  induction h with
  | nil p => subst hq; exact .cons (.nil _)
  | cons _ ih => exact .cons (ih hq)

/-- What is left of `p` is left of `p.bind f`, with `f` to come. -/
theorem Path.bind (h : Path p tr q) (f : α → Prog Res β) : Path (p.bind f) tr (q.bind f) := by
  induction h with
  | nil p => exact .nil _
  | cons _ ih => exact .cons ih

/-- A program that has been run along a trace is run along the rest of it from what was left. -/
theorem Path.rest {m : Prog Res α} {tr₁ tr₂ : List (Ev Res)} (h₁ : Path p tr₁ m) (h : Path p (tr₁ ++ tr₂) q) :
    Path m tr₂ q := by
  induction h₁ with
  | nil p => exact h
  | cons _ ih =>
    cases h with
    | cons h => exact ih h

/-- If `p.bind f` has ended, `p` ended first and `f` after it. -/
theorem Path.ended {f : α → Prog Res β} {b : β} (h : Path (p.bind f) tr (.ret b)) :
    ∃ tr₁ a tr₂, tr = tr₁ ++ tr₂ ∧ Path p tr₁ (.ret a) ∧ Path (f a) tr₂ (.ret b) := by
  induction p generalizing tr with
  | ret a => exact ⟨[], a, tr, rfl, .nil _, h⟩
  | op c k ih =>
    cases h with
    | @cons _ _ r _ _ h =>
      obtain ⟨tr₁, a, tr₂, rfl, h₁, h₂⟩ := ih r h
      exact ⟨⟨c, r⟩ :: tr₁, a, tr₂, rfl, .cons h₁, h₂⟩

/-! ### Preconditions -/

/-- From the local trace `tr`, program `p` issues only commands that `I` allows at that point of the
trace, and ends only with a trace and an answer that satisfy `Q`. -/
def Wp (I : List (Ev Res) → Op → Prop) (Q : List (Ev Res) → α → Prop) : List (Ev Res) → Prog Res α → Prop
  | tr, .ret a => Q tr a
  | tr, .op c k => I tr c ∧ ∀ r, Wp I Q (tr ++ [⟨c, r⟩]) (k r)

variable {I J : List (Ev Res) → Op → Prop} {Q R : List (Ev Res) → α → Prop}

@[simp] theorem wp_ret (tr : List (Ev Res)) (a : α) : Wp I Q tr (.ret a) ↔ Q tr a := Iff.rfl

@[simp] theorem wp_op (tr : List (Ev Res)) (c : Op) (k : Res c → Prog Res α) :
    Wp I Q tr (.op c k) ↔ I tr c ∧ ∀ r, Wp I Q (tr ++ [⟨c, r⟩]) (k r) := Iff.rfl

/-- Sequencing: what is needed of `p` is that whatever it ends with is enough for `f`. -/
theorem wp_bind {f : α → Prog Res β} {S : List (Ev Res) → β → Prop} :
    Wp I S tr (p.bind f) ↔ Wp I (fun tr a => Wp I S tr (f a)) tr p := by
  induction p generalizing tr with
  | ret a => rfl
  | op c k ih => simp only [Prog.op_bind, wp_op, ih]

/-- Consequence: allow more commands, ask less of the end. -/
theorem Wp.mono (h : Wp I Q tr p) (hI : ∀ tr c, I tr c → J tr c) (hQ : ∀ tr a, Q tr a → R tr a) : Wp J R tr p := by
  induction p generalizing tr with
  | ret a => exact hQ tr a h
  | op c k ih => exact ⟨hI tr c h.1, fun r => ih r (h.2 r)⟩

/-- Two preconditions of one program. -/
theorem Wp.and (h : Wp I Q tr p) (h' : Wp J R tr p) : Wp I (fun tr a => Q tr a ∧ R tr a) tr p := by
  induction p generalizing tr with
  | ret a => exact ⟨h, h'⟩
  | op c k ih => exact ⟨h.1, fun r => ih r (h.2 r) (h'.2 r)⟩

/-- Every program has this one. -/
theorem Wp.any : Wp (fun _ _ => True) (fun _ _ => True) tr p := by
  induction p generalizing tr with
  | ret a => trivial
  | op c k ih => exact ⟨trivial, fun r => ih r⟩

/-- A program whose commands are allowed wherever they stand keeps what each of them keeps. -/
theorem Wp.keeps {P : Op → Prop} {S : List (Ev Res) → Prop} (h : Wp (fun _ c => P c) Q tr p)
    (hI : ∀ tr c, P c → I tr c) (hS : S tr) (hgrow : ∀ tr ev, S tr → P ev.op → S (tr ++ [ev]))
    (hR : ∀ tr a, S tr → R tr a) : Wp I R tr p := by
  induction p generalizing tr with
  | ret a => exact hR tr a hS
  | op c k ih => exact ⟨hI tr c h.1, fun r => ih r (h.2 r) (hgrow tr ⟨c, r⟩ hS h.1)⟩

/-- A program that has been run along a trace still has its precondition. -/
theorem Wp.path {tr₀ : List (Ev Res)} (h : Wp I Q tr₀ p) (hp : Path p tr q) : Wp I Q (tr₀ ++ tr) q := by
  induction hp generalizing tr₀ with
  | nil p => simpa using h
  | cons _ ih =>
    have := ih (h.2 _)
    rwa [append_assoc, singleton_append] at this

/-- Every command a program issues is one its precondition allows. -/
theorem Wp.issues {c : Op} {k : Res c → Prog Res α} (h : Wp I Q [] p) (hp : Path p tr (.op c k)) : I tr c := by
  have := h.path hp
  exact this.1

/-- A program that ends, ends as its precondition says. -/
theorem Wp.ends {a : α} (h : Wp I Q [] p) (hp : Path p tr (.ret a)) : Q tr a := by
  have := h.path hp
  exact this

/-! ### Programs that may fail -/

section Fallible

variable {ε : Type}

/-- Issue one command, in a program that may fail. -/
def issue (c : Op) : ExceptT ε (Prog Res) (Res c) := ExceptT.lift (Prog.call c)

/-- Whatever `x` ends with, go on with `f` if it is an answer and stop if it is a failure. -/
theorem run_bind (x : ExceptT ε (Prog Res) α) (f : α → ExceptT ε (Prog Res) β) : (x >>= f).run = x.run.bind fun r =>
      match r with
      | .ok a => (f a).run
      | .error e => .ret (.error e) := by
  show Prog.bind _ _ = _
  congr 1
  funext r
  cases r <;> rfl

@[simp] theorem run_pure (a : α) : (pure a : ExceptT ε (Prog Res) α).run = .ret (.ok a) := rfl

@[simp] theorem run_throw (e : ε) : (throw e : ExceptT ε (Prog Res) α).run = .ret (.error e) := rfl

@[simp] theorem run_issue_bind (c : Op) (f : Res c → ExceptT ε (Prog Res) β) :
    (issue c >>= f).run = .op c fun r => (f r).run := rfl

@[simp] theorem run_issue (c : Op) : (issue c : ExceptT ε (Prog Res) (Res c)).run = .op c fun r => .ret (.ok r) := rfl

variable {x : ExceptT ε (Prog Res) α} {f : α → ExceptT ε (Prog Res) β}

/-- Sequencing, for programs that may fail. -/
theorem wp_run_bind {S : List (Ev Res) → Except ε β → Prop} : Wp I S tr (x >>= f).run ↔ Wp I (fun tr r =>
      match r with
      | .ok a => Wp I S tr (f a).run
      | .error e => S tr (.error e)) tr x.run := by
  rw [run_bind, wp_bind]
  constructor <;> intro h <;> refine h.mono (fun _ _ h => h) fun tr r hr => ?_ <;> cases r <;> exact hr

/-- What is left of `x` is left of `x >>= f`, with `f` to come. -/
theorem Path.bind_run {y : ExceptT ε (Prog Res) α} (h : Path x.run tr y.run) (f : α → ExceptT ε (Prog Res) β) :
    Path (x >>= f).run tr (y >>= f).run := h.bind _

/-- If `x >>= f` has ended with an answer, so has `x`, and `f` after it. -/
theorem Path.answered {b : β} (h : Path (x >>= f).run tr (.ret (.ok b))) :
    ∃ tr₁ a tr₂, tr = tr₁ ++ tr₂ ∧ Path x.run tr₁ (.ret (.ok a)) ∧ Path (f a).run tr₂ (.ret (.ok b)) := by
  rw [run_bind] at h
  obtain ⟨tr₁, r, tr₂, rfl, h₁, h₂⟩ := h.ended
  cases r with
  | ok a => exact ⟨tr₁, a, tr₂, rfl, h₁, h₂⟩
  | error e => cases h₂

/-- If `x >>= f` has ended with a failure, it is `x`'s, or `x` has ended with an answer and it is `f`'s. -/
theorem Path.failed {e : ε} (h : Path (x >>= f).run tr (.ret (.error e))) :
    Path x.run tr (.ret (.error e)) ∨ ∃ tr₁ a tr₂, tr = tr₁ ++ tr₂ ∧ Path x.run tr₁ (.ret (.ok a)) ∧
      Path (f a).run tr₂ (.ret (.error e)) := by
  rw [run_bind] at h
  obtain ⟨tr₁, r, tr₂, rfl, h₁, h₂⟩ := h.ended
  cases r with
  | ok a => exact .inr ⟨tr₁, a, tr₂, rfl, h₁, h₂⟩
  | error e' =>
    cases h₂
    rw [append_nil]
    exact .inl h₁

/-- What `x >>= f` issues, `x` issues, or `f` once `x` has ended with an answer. -/
theorem Path.issued {c : Op} {k : Res c → Prog Res (Except ε β)} (h : Path (x >>= f).run tr (.op c k)) :
    (∃ k', Path x.run tr (.op c k')) ∨ ∃ tr₁ a tr₂, tr = tr₁ ++ tr₂ ∧ Path x.run tr₁ (.ret (.ok a)) ∧
      Path (f a).run tr₂ (.op c k) := by
  rw [run_bind] at h
  generalize x.run = p at h ⊢
  induction p generalizing tr with
  | ret r =>
    cases r with
    | ok a => exact .inr ⟨[], a, tr, rfl, .nil _, h⟩
    | error e => cases h
  | op c' k' ih =>
    cases h with
    | nil => exact .inl ⟨k', .nil _⟩
    | @cons _ _ r _ _ h =>
      rcases ih r h with ⟨k'', h⟩ | ⟨tr₁, a, tr₂, rfl, h₁, h₂⟩
      · exact .inl ⟨k'', .cons h⟩
      · exact .inr ⟨⟨c', r⟩ :: tr₁, a, tr₂, rfl, .cons h₁, h₂⟩

/-- What comes after one command is issued after its exchange. -/
theorem Path.stepped {c c' : Op} {f : Res c → ExceptT ε (Prog Res) β} {k : Res c' → Prog Res (Except ε β)}
    (h : Path (issue c >>= f).run tr (.op c' k)) (hc : c ≠ c') :
    ∃ r tr', tr = ⟨c, r⟩ :: tr' ∧ Path (f r).run tr' (.op c' k) := by
  rw [run_issue_bind] at h
  cases h with
  | nil => exact absurd rfl hc
  | @cons _ _ r tr' _ h => exact ⟨r, tr', rfl, h⟩

/-- What `f <$> x` issues, `x` issues. -/
theorem Path.of_map {f : α → β} {c : Op} {k : Res c → Prog Res (Except ε β)} (h : Path (f <$> x).run tr (.op c k)) :
    ∃ k', Path x.run tr (.op c k') := by
  rcases Path.issued (f := fun a => pure (f a)) h with h | ⟨_, _, _, _, _, h⟩
  · exact h
  · cases h

/-- If `f <$> x` has ended with an answer, it is the image of `x`'s. -/
theorem Path.answered_of_map {f : α → β} {b : β} (h : Path (f <$> x).run tr (.ret (.ok b))) :
    ∃ a, f a = b ∧ Path x.run tr (.ret (.ok a)) := by
  obtain ⟨tr₁, a, tr₂, rfl, h₁, h₂⟩ := Path.answered (f := fun a => pure (f a)) h
  cases h₂
  exact ⟨a, rfl, by rwa [append_nil]⟩

/-- If `f <$> x` has failed, so has `x`. -/
theorem Path.failed_of_map {f : α → β} {e : ε} (h : Path (f <$> x).run tr (.ret (.error e))) :
    Path x.run tr (.ret (.error e)) := by
  rcases Path.failed (f := fun a => pure (f a)) h with h | ⟨_, _, _, _, _, h⟩
  · exact h
  · cases h

/-- Whatever `x` does from the trace `tr`, if it ends with an answer the trace and the answer satisfy
`P`. -/
def Returns (P : List (Ev Res) → α → Prop) (tr : List (Ev Res)) (x : ExceptT ε (Prog Res) α) : Prop :=
  Wp (fun _ _ => True) (fun tr r => ∀ a, r = .ok a → P tr a) tr x.run

namespace Returns

variable {P : List (Ev Res) → α → Prop}

theorem pure {a : α} (h : P tr a) : Returns P tr (Pure.pure a : ExceptT ε (Prog Res) α) := by
  rintro b ⟨⟩
  exact h

theorem throw (e : ε) : Returns P tr (throw e : ExceptT ε (Prog Res) α) := nofun

theorem issue {c : Op} {P : List (Ev Res) → Res c → Prop} (h : ∀ r, P (tr ++ [⟨c, r⟩]) r) :
    Returns P tr (issue c : ExceptT ε (Prog Res) (Res c)) := by
  refine ⟨trivial, fun r => ?_⟩
  rintro b ⟨⟩
  exact h r

theorem bind {Q : List (Ev Res) → β → Prop} (hx : Returns P tr x) (hf : ∀ tr a, P tr a → Returns Q tr (f a)) :
    Returns Q tr (x >>= f) := by
  refine wp_run_bind.mpr (hx.mono (fun _ _ h => h) fun tr r hr => ?_)
  cases r with
  | ok a => exact hf tr a (hr a rfl)
  | error e => exact nofun

theorem mono (hx : Returns P tr x) (h : ∀ tr a, P tr a → Q tr a) : Returns Q tr x :=
  Wp.mono hx (fun _ _ h => h) fun tr _ hr a ha => h tr a (hr a ha)

theorem and (hx : Returns P tr x) (hx' : Returns Q tr x) : Returns (fun tr a => P tr a ∧ Q tr a) tr x :=
  (Wp.and hx hx').mono (fun _ _ h => h) fun _ _ h a ha => ⟨h.1 a ha, h.2 a ha⟩

theorem map {Q : List (Ev Res) → γ → Prop} {f : α → γ} (hx : Returns (fun tr a => Q tr (f a)) tr x) :
    Returns Q tr (f <$> x) :=
  hx.bind fun _ _ h => .pure h

theorem ite {p : Prop} [Decidable p] {y : ExceptT ε (Prog Res) α} (hx : p → Returns P tr x)
    (hy : ¬ p → Returns P tr y) : Returns P tr (if p then x else y) := by
  split
  · next h => exact hx h
  · next h => exact hy h

/-- A program that goes on only if a check has passed. -/
theorem guard {p : Prop} [Decidable p] {e : ε} {g : γ → ExceptT ε (Prog Res) α} (hx : ¬ p → Returns P tr x) :
    Returns P tr (if p then MonadExcept.throw e >>= g else x) :=
  .ite (fun _ => .bind (.throw e) fun _ _ h => h) hx

/-- A program that has ended with an answer, ended as it should. -/
theorem of_path (hx : Returns P [] x) {a : α} (h : Path x.run tr (.ret (.ok a))) : P tr a := Wp.ends hx h a rfl

/-- A program only adds to its trace. -/
theorem grows (x : ExceptT ε (Prog Res) α) (tr : List (Ev Res)) : Returns (fun tr' _ => tr <+: tr') tr x :=
  Wp.any.keeps (P := fun _ => True) (fun _ _ _ => trivial) (prefix_refl tr)
    (fun _ _ h _ => h.trans (prefix_append _ _)) fun _ _ h _ _ => h

theorem bind_throw {g : γ → ε} (x : ExceptT ε (Prog Res) γ) :
    Returns P tr (x >>= fun a => MonadExcept.throw (g a)) := (grows x tr).bind fun _ _ _ => .throw _

/-- What holds of every longer trace holds when the program ends. -/
theorem any (x : ExceptT ε (Prog Res) α) (h : ∀ tr' a, tr <+: tr' → P tr' a) : Returns P tr x :=
  (grows x tr).mono h

end Returns

/-- Whatever `x` does from the trace `tr`, if it ends with a failure the trace satisfies `P`. -/
def Fails (P : List (Ev Res) → Prop) (tr : List (Ev Res)) (x : ExceptT ε (Prog Res) α) : Prop :=
  Wp (fun _ _ => True) (fun tr r => ∀ e, r = .error e → P tr) tr x.run

namespace Fails

variable {P : List (Ev Res) → Prop}

theorem mono {Q : List (Ev Res) → Prop} (hx : Fails P tr x) (h : ∀ tr, P tr → Q tr) : Fails Q tr x :=
  Wp.mono hx (fun _ _ h => h) fun tr _ hr e he => h tr (hr e he)

theorem ite {p : Prop} [Decidable p] {y : ExceptT ε (Prog Res) α} (hx : p → Fails P tr x) (hy : ¬ p → Fails P tr y) :
    Fails P tr (if p then x else y) := by
  split
  · next h => exact hx h
  · next h => exact hy h

/-- A program that has ended with a failure, ended as it should. -/
theorem of_path (hx : Fails P [] x) {e : ε} (h : Path x.run tr (.ret (.error e))) : P tr := Wp.ends hx h e rfl

end Fails

/-- Whatever `x` does from the trace `tr`, if it ends with the failure `e₀` the trace satisfies `P`. -/
def FailsWith (e₀ : ε) (P : List (Ev Res) → Prop) (tr : List (Ev Res)) (x : ExceptT ε (Prog Res) α) : Prop :=
  Wp (fun _ _ => True) (fun tr r => r = .error e₀ → P tr) tr x.run

namespace FailsWith

variable {e₀ : ε} {P : List (Ev Res) → Prop}

theorem pure (a : α) : FailsWith e₀ P tr (Pure.pure a : ExceptT ε (Prog Res) α) := nofun

theorem throw {e : ε} (h : e = e₀ → P tr) : FailsWith e₀ P tr (throw e : ExceptT ε (Prog Res) α) := by
  rintro ⟨⟩
  exact h rfl

theorem issue (c : Op) : FailsWith e₀ P tr (issue c : ExceptT ε (Prog Res) (Res c)) :=
  ⟨trivial, fun _ => nofun⟩

theorem bind (hx : FailsWith e₀ P tr x) (hr : Returns Q tr x) (hf : ∀ tr a, Q tr a → FailsWith e₀ P tr (f a)) :
    FailsWith e₀ P tr (x >>= f) := by
  refine wp_run_bind.mpr ((Wp.and hx hr).mono (fun _ _ h => h) ?_)
  rintro tr (e | a) ⟨hfail, hok⟩
  · rintro ⟨⟩
    exact hfail rfl
  · exact hf tr a (hok a rfl)

/-- One command, and the rest. -/
theorem step {c : Op} {f : Res c → ExceptT ε (Prog Res) β} (hf : ∀ r, FailsWith e₀ P (tr ++ [⟨c, r⟩]) (f r)) :
    FailsWith e₀ P tr (Concurrency.issue c >>= f) := ⟨trivial, hf⟩

theorem ite {p : Prop} [Decidable p] {y : ExceptT ε (Prog Res) α} (hx : p → FailsWith e₀ P tr x)
    (hy : ¬ p → FailsWith e₀ P tr y) : FailsWith e₀ P tr (if p then x else y) := by
  split
  · next h => exact hx h
  · next h => exact hy h

/-- A program that has ended with the failure, ended as it should. -/
theorem of_path (hx : FailsWith e₀ P [] x) (h : Path x.run tr (.ret (.error e₀))) : P tr := Wp.ends hx h rfl

end FailsWith

/-- Whatever the replies are, `x` issues only commands that satisfy `P`. -/
def Only (P : Op → Prop) (x : ExceptT ε (Prog Res) α) : Prop :=
  ∀ tr, Wp (fun _ c => P c) (fun _ _ => True) tr x.run

namespace Only

variable {P : Op → Prop}

theorem pure (a : α) : Only P (Pure.pure a : ExceptT ε (Prog Res) α) := fun _ => trivial

theorem throw (e : ε) : Only P (throw e : ExceptT ε (Prog Res) α) := fun _ => trivial

/-- Nothing comes after a failure. -/
theorem throw_bind (e : ε) (f : α → ExceptT ε (Prog Res) β) : Only P (MonadExcept.throw e >>= f) :=
  fun _ => trivial

theorem issue {c : Op} (h : P c) : Only P (issue c : ExceptT ε (Prog Res) (Res c)) :=
  fun _ => ⟨h, fun _ => trivial⟩

theorem bind (hx : Only P x) (hf : ∀ a, Only P (f a)) : Only P (x >>= f) := by
  intro tr
  refine wp_run_bind.mpr ((hx tr).mono (fun _ _ h => h) fun tr r _ => ?_)
  cases r with
  | ok a => exact hf a tr
  | error e => trivial

theorem ite {p : Prop} [Decidable p] {y : ExceptT ε (Prog Res) α} (hx : Only P x) (hy : Only P y) :
    Only P (if p then x else y) := by
  split
  · exact hx
  · exact hy

theorem mono {Q : Op → Prop} (hx : Only P x) (h : ∀ c, P c → Q c) : Only Q x :=
  fun tr => (hx tr).mono (fun _ c => h c) fun _ _ h => h

/-- Every program issues commands. -/
theorem any (x : ExceptT ε (Prog Res) α) : Only (fun _ => True) x := fun _ => Wp.any

theorem tryCatch {f : ε → ExceptT ε (Prog Res) α} (hx : Only P x) (hf : ∀ e, Only P (f e)) :
    Only P (tryCatch x f) := by
  intro tr
  show Wp _ _ tr (Prog.bind x.run _)
  refine wp_bind.mpr ((hx tr).mono (fun _ _ h => h) fun tr r _ => ?_)
  cases r with
  | ok a => trivial
  | error e => exact hf e tr

/-- So every exchange of a run of it is one with such a command. -/
theorem of_path (hx : Only P x) {q : Prog Res (Except ε α)} (h : Path x.run tr q) : ∀ ev ∈ tr, P ev.op := by
  have key : ∀ {p q : Prog Res (Except ε α)} {tr tr₀ : List (Ev Res)}, Path p tr q →
      Wp (fun _ c => P c) (fun _ _ => True) tr₀ p → ∀ ev ∈ tr, P ev.op := by
    intro p q tr tr₀ hp
    induction hp generalizing tr₀ with
    | nil p => exact fun _ => nofun
    | cons _ ih =>
      intro hw ev hev
      rcases mem_cons.mp hev with rfl | hev
      · exact hw.1
      · exact ih (hw.2 _) ev hev
  exact key h (hx [])

/-- What a program adds to its trace before it answers is such commands. -/
theorem returns (hx : Only P x) (tr : List (Ev Res)) :
    Returns (fun tr' _ => ∃ l, tr' = tr ++ l ∧ ∀ ev ∈ l, P ev.op) tr x := by
  refine (hx tr).keeps (S := fun tr' => ∃ l, tr' = tr ++ l ∧ ∀ ev ∈ l, P ev.op) (fun _ _ _ => trivial)
    ⟨[], (append_nil tr).symm, nofun⟩ ?_ fun _ _ h _ _ => h
  rintro _ ev ⟨l, rfl, hl⟩ hev
  exact ⟨l ++ [ev], append_assoc .., forall_mem_append.mpr ⟨hl, by simpa using hev⟩⟩

/-- Every command it issues is such a command. -/
theorem issues (hx : Only P x) {c : Op} {k : Res c → Prog Res (Except ε α)} (h : Path x.run tr (.op c k)) :
    P c := Wp.issues (hx []) h

/-- A program that issues a command of another kind is past a part that issues only such commands. -/
theorem past (hx : Only P x) {c : Op} {k : Res c → Prog Res (Except ε β)} (h : Path (x >>= f).run tr (.op c k))
    (hc : ¬ P c) : ∃ tr₁ a tr₂, tr = tr₁ ++ tr₂ ∧ Path x.run tr₁ (.ret (.ok a)) ∧ Path (f a).run tr₂ (.op c k) := by
  rcases Path.issued h with ⟨k', h⟩ | h
  · exact absurd (hx.issues h) hc
  · exact h

end Only

/-- Whatever the replies are, `x` issues only commands that satisfy `P`, and fails only with failures that satisfy
`F`. -/
def Within (P : Op → Prop) (F : ε → Prop) (x : ExceptT ε (Prog Res) α) : Prop :=
  ∀ tr, Wp (fun _ c => P c) (fun _ r => ∀ e, r = .error e → F e) tr x.run

namespace Within

variable {P : Op → Prop} {F : ε → Prop}

theorem pure (a : α) : Within P F (Pure.pure a : ExceptT ε (Prog Res) α) := fun _ => nofun

theorem throw {e : ε} (h : F e) : Within P F (throw e : ExceptT ε (Prog Res) α) := by
  rintro tr _ ⟨⟩
  exact h

theorem issue {c : Op} (h : P c) : Within P F (issue c : ExceptT ε (Prog Res) (Res c)) :=
  fun _ => ⟨h, fun _ => nofun⟩

theorem bind (hx : Within P F x) (hf : ∀ a, Within P F (f a)) : Within P F (x >>= f) := by
  intro tr
  refine wp_run_bind.mpr ((hx tr).mono (fun _ _ h => h) fun tr r hr => ?_)
  cases r with
  | ok a => exact hf a tr
  | error e =>
    rintro _ ⟨⟩
    exact hr e rfl

theorem map {f : α → β} (hx : Within P F x) : Within P F (f <$> x) :=
  hx.bind fun a => .pure (f a)

theorem ite {p : Prop} [Decidable p] {y : ExceptT ε (Prog Res) α} (hx : Within P F x) (hy : Within P F y) :
    Within P F (if p then x else y) := by
  split
  · exact hx
  · exact hy

theorem only (hx : Within P F x) : Only P x :=
  fun tr => (hx tr).mono (fun _ _ h => h) fun _ _ _ => trivial

/-- What is said of the trace after a failure it does not end with is said in vain. -/
theorem failsWith (hx : Within P F x) {e₀ : ε} (he₀ : ¬ F e₀) {S : List (Ev Res) → Prop} : FailsWith e₀ S tr x :=
  (hx tr).mono (fun _ _ _ => trivial) fun _ _ h he => absurd (h e₀ he) he₀

end Within

/-- From the trace `tr`, `x` issues only commands that `I` allows where it issues them; an answer leaves a
trace that satisfies `Q`, a failure one that satisfies `E`. -/
def Triple (I : List (Ev Res) → Op → Prop) (Q : List (Ev Res) → α → Prop) (E : List (Ev Res) → Prop)
    (tr : List (Ev Res)) (x : ExceptT ε (Prog Res) α) : Prop :=
  Wp I (fun tr r =>
    match r with
    | .ok a => Q tr a
    | .error _ => E tr) tr x.run

namespace Triple

variable {E : List (Ev Res) → Prop}

theorem pure {a : α} (h : Q tr a) : Triple I Q E tr (Pure.pure a : ExceptT ε (Prog Res) α) := h

theorem throw {e : ε} (h : E tr) : Triple I Q E tr (throw e : ExceptT ε (Prog Res) α) := h

/-- Nothing comes after a failure. -/
theorem throw_bind {R : List (Ev Res) → β → Prop} {e : ε} (h : E tr) : Triple I R E tr (MonadExcept.throw e >>= f) := h

theorem issue {c : Op} {Q : List (Ev Res) → Res c → Prop} (hI : I tr c) (hQ : ∀ r, Q (tr ++ [⟨c, r⟩]) r) :
    Triple I Q E tr (issue c : ExceptT ε (Prog Res) (Res c)) := ⟨hI, hQ⟩

variable {P : Op → Prop}

theorem bind {R : List (Ev Res) → β → Prop} (hx : Triple I Q E tr x) (hf : ∀ tr a, Q tr a → Triple I R E tr (f a)) :
    Triple I R E tr (x >>= f) := by
  refine wp_run_bind.mpr (hx.mono (fun _ _ h => h) fun tr r hr => ?_)
  cases r with
  | ok a => exact hf tr a hr
  | error e => exact hr

/-- One command, and the rest. -/
theorem step {R : List (Ev Res) → β → Prop} {c : Op} {f : Res c → ExceptT ε (Prog Res) β} (hI : I tr c)
    (hf : ∀ r, Triple I R E (tr ++ [⟨c, r⟩]) (f r)) : Triple I R E tr (Concurrency.issue c >>= f) := ⟨hI, hf⟩

/-- One command whose reply is not read, and the rest. -/
theorem discard {R : List (Ev Res) → β → Prop} {c : Op} {f : Unit → ExceptT ε (Prog Res) β} (hI : I tr c)
    (hf : ∀ r, Triple I R E (tr ++ [⟨c, r⟩]) (f ())) :
    Triple I R E tr (Functor.discard (Concurrency.issue c) >>= f) := ⟨hI, hf⟩

theorem ite {p : Prop} [Decidable p] {y : ExceptT ε (Prog Res) α} (hx : p → Triple I Q E tr x)
    (hy : ¬ p → Triple I Q E tr y) : Triple I Q E tr (if p then x else y) := by
  split
  · next h => exact hx h
  · next h => exact hy h

theorem mono {F : List (Ev Res) → Prop} (hx : Triple I Q E tr x) (hQ : ∀ tr a, Q tr a → R tr a)
    (hE : ∀ tr, E tr → F tr) : Triple I R F tr x := by
  refine Wp.mono hx (fun _ _ h => h) fun tr r hr => ?_
  cases r with
  | ok a => exact hQ tr a hr
  | error e => exact hE tr hr

theorem map {R : List (Ev Res) → γ → Prop} {f : α → γ} (hx : Triple I (fun tr a => R tr (f a)) E tr x) :
    Triple I R E tr (f <$> x) :=
  hx.bind fun _ _ h => .pure h

/-- A part whose commands are allowed wherever they stand keeps what each of them keeps. -/
theorem keeps {S : List (Ev Res) → Prop} (hx : Only P x) (hI : ∀ tr c, P c → I tr c) (hS : S tr)
    (hgrow : ∀ tr ev, S tr → P ev.op → S (tr ++ [ev])) : Triple I (fun tr _ => S tr) S tr x :=
  (hx tr).keeps hI hS hgrow fun _ r h => by cases r <;> exact h

/-- A part whose commands are allowed wherever they stand, after something that the longer traces keep. -/
theorem frame (hx : Only P x) (hI : ∀ tr c, P c → I tr c) (hQ : ∀ tr' a, tr <+: tr' → Q tr' a)
    (hE : ∀ tr', tr <+: tr' → E tr') : Triple I Q E tr x :=
  (keeps hx hI (prefix_refl tr) fun _ _ h _ => h.trans (prefix_append _ _)).mono hQ hE

/-- A part whose commands are allowed wherever they stand. -/
theorem of_only (hx : Only P x) (hI : ∀ tr c, P c → I tr c) (hQ : ∀ tr a, Q tr a) (hE : ∀ tr, E tr) :
    Triple I Q E tr x := frame hx hI (fun tr a _ => hQ tr a) fun tr _ => hE tr

/-- What a program leaves behind when it answers. -/
theorem returns (hx : Triple I Q E tr x) : Returns Q tr x := by
  refine Wp.mono hx (fun _ _ _ => trivial) ?_
  rintro tr _ hr a rfl
  exact hr

/-- A part whose answer is not read, and the rest. -/
theorem discard_bind {R : List (Ev Res) → β → Prop} {f : Unit → ExceptT ε (Prog Res) β} (hx : Triple I Q E tr x)
    (hf : ∀ tr a, Q tr a → Triple I R E tr (f ())) : Triple I R E tr (Functor.discard x >>= f) := by
  refine .bind (Triple.map (hx.mono (fun tr a h => ⟨a, h⟩) fun _ h => h) :
    Triple I (fun tr _ => ∃ a, Q tr a) E tr (Functor.discard x)) ?_
  rintro tr _ ⟨a, h⟩
  exact hf tr a h

end Triple

end Fallible

end Concurrency
