import BymaxAuth.Lib.Prog
import Mathlib.Logic.Relation
import Mathlib.Data.List.Infix
import Mathlib.Data.List.Perm.Subperm

/-!
# Interleaved programs over one shared state

Any number of programs (`BymaxAuth.Lib.Prog`) run against one state. A `Machine` says what a command
does to the state, atomically, and what may happen between two commands (time passes, an outside
party writes). Its input type `ι` is where everything the programs do not decide comes from: random
values, the clock's sub-seconds, how much time passes. `admits` says which replies the outside world
may give at a point of the history, so that an assumption such as "a random value is new" is stated
once and about the whole history.

A configuration keeps the state, the history of the exchanges in the order in which they happened
(`log`, each entry with the state it found), and what is left of every program (`pool`).
-/

namespace Concurrency

open Relation List Option Function

variable {Op : Type} {Res : Op → Type} {σ ι α : Type}

/-- An entry of the history: who issued what, the state it found, and the reply. -/
structure Entry (σ : Type) (Res : Op → Type) where
  /-- The program that issued the command. -/
  tid : ℕ
  /-- The state just before the command. -/
  pre : σ
  /-- The command. -/
  op : Op
  /-- The reply. -/
  res : Res op

/-- The exchange of an entry. -/
def Entry.ev (e : Entry σ Res) : Ev Res := ⟨e.op, e.res⟩

/-- The exchanges of program `tid` in a history. -/
def localTrace (tid : ℕ) (log : List (Entry σ Res)) : List (Ev Res) :=
  (log.filter (·.tid = tid)).map Entry.ev

/-- What commands do, what happens between them, and which replies the outside world gives. -/
structure Machine (σ ι : Type) {Op : Type} (Res : Op → Type) where
  /-- The reply to a command and the state after it. -/
  exec : σ → (c : Op) → ι → Res c × σ
  /-- What the outside does between two commands. -/
  pass : σ → ι → σ
  /-- Whether the history may go on with this entry. -/
  admits : List (Entry σ Res) → Entry σ Res → Bool

/-- The state, the history, and what is left of every program. -/
structure Config (σ : Type) (Res : Op → Type) (α : Type) where
  /-- The shared state. -/
  st : σ
  /-- The history, oldest entry first. -/
  log : List (Entry σ Res)
  /-- What is left of program `tid`. -/
  pool : ℕ → Prog Res α

/-- Nothing has happened yet. -/
def start (st : σ) (progs : ℕ → Prog Res α) : Config σ Res α := ⟨st, [], progs⟩

/-- The entry program `tid` makes by issuing `c` on input `i`. -/
def Machine.entry (M : Machine σ ι Res) (st : σ) (tid : ℕ) (c : Op) (i : ι) : Entry σ Res :=
  ⟨tid, st, c, (M.exec st c i).1⟩

/-- A step of program `tid`: its next command, atomically. -/
inductive StepBy (M : Machine σ ι Res) (tid : ℕ) : Config σ Res α → Config σ Res α → Prop where
  /-- The command's reply goes to the program, its effect to the state, the exchange to the history. -/
  | op {cfg : Config σ Res α} {c : Op} {k : Res c → Prog Res α} (i : ι) :
      cfg.pool tid = .op c k → M.admits cfg.log (M.entry cfg.st tid c i) = true → StepBy M tid cfg
          ⟨(M.exec cfg.st c i).2, cfg.log ++ [M.entry cfg.st tid c i], update cfg.pool tid (k (M.exec cfg.st c i).1)⟩

/-- A step: some program's, or the outside's. -/
inductive Step (M : Machine σ ι Res) : Config σ Res α → Config σ Res α → Prop where
  /-- A program's next command. -/
  | by {cfg cfg' : Config σ Res α} (tid : ℕ) : StepBy M tid cfg cfg' → Step M cfg cfg'
  /-- What happens between two commands. -/
  | pass {cfg : Config σ Res α} (i : ι) : Step M cfg { cfg with st := M.pass cfg.st i }

/-- Any number of steps. -/
abbrev Reach (M : Machine σ ι Res) : Config σ Res α → Config σ Res α → Prop := ReflTransGen (Step M)

/-! ### The local traces -/

@[simp] theorem localTrace_nil (tid : ℕ) : localTrace tid ([] : List (Entry σ Res)) = [] := rfl

theorem localTrace_append (tid : ℕ) (l₁ l₂ : List (Entry σ Res)) :
    localTrace tid (l₁ ++ l₂) = localTrace tid l₁ ++ localTrace tid l₂ := by
  simp [localTrace]

theorem localTrace_cons_self (e : Entry σ Res) (l : List (Entry σ Res)) :
    localTrace e.tid (e :: l) = e.ev :: localTrace e.tid l := by
  simp [localTrace]

theorem localTrace_snoc_self (l : List (Entry σ Res)) (e : Entry σ Res) :
    localTrace e.tid (l ++ [e]) = localTrace e.tid l ++ [e.ev] := by
  simp [localTrace]

variable {tid : ℕ} {e : Entry σ Res} {l l₁ l₂ : List (Entry σ Res)} {p : Entry σ Res → Bool} {cfg' : Config σ Res α}

theorem localTrace_snoc_of_ne (l : List (Entry σ Res)) (h : e.tid ≠ tid) :
    localTrace tid (l ++ [e]) = localTrace tid l := by
  simp [localTrace, h]

/-- An exchange of a program is an entry of the history. -/
theorem mem_localTrace {v : Ev Res} : v ∈ localTrace tid l ↔ ∃ e ∈ l, e.tid = tid ∧ e.ev = v := by
  simp [localTrace, and_assoc]

theorem exchange_mem {c : Op} {r : Res c} : ⟨c, r⟩ ∈ localTrace tid l ↔ ∃ pre, ⟨tid, pre, c, r⟩ ∈ l := by
  constructor
  · intro h
    obtain ⟨⟨_, pre, _, _⟩, he, rfl, hev⟩ := mem_localTrace.mp h
    cases hev
    exact ⟨pre, he⟩
  · rintro ⟨pre, he⟩
    exact mem_localTrace.mpr ⟨_, he, rfl, rfl⟩

/-- Of two entries of a history, one comes before the other unless they are the same. -/
theorem eq_or_before {a b : Entry σ Res} (ha : a ∈ l) (hb : b ∈ l) :
    a = b ∨ (∃ l₁ l₂, l = l₁ ++ a :: l₂ ∧ b ∈ l₁) ∨ ∃ l₁ l₂, l = l₁ ++ b :: l₂ ∧ a ∈ l₁ := by
  obtain ⟨l₁, l₂, rfl⟩ := append_of_mem ha
  rw [mem_append, mem_cons] at hb
  rcases hb with hb | rfl | hb
  · exact .inr (.inl ⟨l₁, l₂, rfl, hb⟩)
  · exact .inl rfl
  · obtain ⟨m₁, m₂, rfl⟩ := append_of_mem hb
    exact .inr (.inr ⟨l₁ ++ a :: m₁, m₂, by simp, by simp⟩)

variable {β : Type}

/-- A list that is cut at two entries is cut at one place, or one of them comes first. -/
theorem cut_cases {l₁ l₂ k₁ k₂ : List β} {a b : β} (h : l₁ ++ a :: l₂ = k₁ ++ b :: k₂) :
    (l₁ = k₁ ∧ a = b ∧ l₂ = k₂) ∨ (∃ m, k₁ = l₁ ++ a :: m ∧ l₂ = m ++ b :: k₂) ∨
      ∃ m, l₁ = k₁ ++ b :: m ∧ k₂ = m ++ a :: l₂ := by
  rcases append_eq_append_iff.mp h with ⟨m, rfl, hm⟩ | ⟨m, rfl, hm⟩ <;> cases m with
  | nil =>
    rw [nil_append, List.cons.injEq] at hm
    obtain ⟨rfl, rfl⟩ := hm
    exact .inl ⟨by simp, rfl, rfl⟩
  | cons x m =>
    rw [cons_append, List.cons.injEq] at hm
    obtain ⟨rfl, rfl⟩ := hm
    first
    | exact .inr (.inl ⟨m, rfl, rfl⟩)
    | exact .inr (.inr ⟨m, rfl, rfl⟩)

/-- Whether some `p` comes before some `q` in a history. -/
def precedes (p q : Entry σ Res → Bool) : List (Entry σ Res) → Bool
  | [] => false
  | e :: l => (p e && l.any q) || precedes p q l

theorem precedes_iff {q : Entry σ Res → Bool} :
    precedes p q l = true ↔ ∃ l₁ e l₂, l = l₁ ++ e :: l₂ ∧ q e = true ∧ ∃ x ∈ l₁, p x = true := by
  induction l with
  | nil => simp [precedes]
  | cons a l ih =>
    rw [precedes, Bool.or_eq_true, Bool.and_eq_true, List.any_eq_true, ih]
    constructor
    · rintro (⟨ha, e, he, hq⟩ | ⟨l₁, e, l₂, rfl, hq, x, hx, hp⟩)
      · obtain ⟨l₁, l₂, rfl⟩ := append_of_mem he
        exact ⟨a :: l₁, e, l₂, rfl, hq, a, mem_cons_self, ha⟩
      · exact ⟨a :: l₁, e, l₂, rfl, hq, x, mem_cons_of_mem a hx, hp⟩
    · rintro ⟨l₁, e, l₂, hl, hq, x, hx, hp⟩
      cases l₁ with
      | nil => cases hx
      | cons b l₁ =>
        rw [cons_append, List.cons.injEq] at hl
        obtain ⟨rfl, rfl⟩ := hl
        rcases mem_cons.mp hx with rfl | hx
        · exact .inl ⟨hp, e, mem_append_right _ mem_cons_self, hq⟩
        · exact .inr ⟨l₁, e, l₂, rfl, hq, x, hx, hp⟩

/-- If something of a kind happens in a history, there is a last of the kind. -/
theorem none_or_last (p : Entry σ Res → Bool) (l : List (Entry σ Res)) :
    (∀ e ∈ l, p e = false) ∨ ∃ l₁ e l₂, l = l₁ ++ e :: l₂ ∧ p e = true ∧ ∀ e' ∈ l₂, p e' = false := by
  induction l using List.reverseRecOn with
  | nil => exact .inl fun _ => nofun
  | append_singleton l e ih =>
    cases he : p e with
    | true => exact .inr ⟨l, e, [], rfl, he, fun _ => nofun⟩
    | false =>
      rcases ih with h | ⟨l₁, e', l₂, rfl, he', h⟩
      · refine .inl fun x hx => ?_
        rcases mem_append.mp hx with hx | hx
        · exact h x hx
        · rwa [mem_singleton.mp hx]
      · refine .inr ⟨l₁, e', l₂ ++ [e], by simp, he', fun x hx => ?_⟩
        rcases mem_append.mp hx with hx | hx
        · exact h x hx
        · rwa [mem_singleton.mp hx]

/-- What happens in a history only where it has not happened before happens once. -/
theorem countP_le_one (h : ∀ l₁ e l₂, l = l₁ ++ e :: l₂ → p e = true → ∀ e' ∈ l₁, p e' = false) : l.countP p ≤ 1 := by
  induction l using List.reverseRecOn with
  | nil => exact Nat.zero_le 1
  | append_singleton l e ih =>
    rw [countP_append, countP_singleton]
    by_cases he : p e = true
    · have hnone : l.countP p = 0 := by
        rw [countP_eq_zero]
        intro e' he' hp
        rw [h l e [] rfl he e' he'] at hp
        cases hp
      simp [hnone, he]
    · simp only [he, Bool.false_eq_true, if_false, Nat.add_zero]
      refine ih fun l₁ e' l₂ hl => ?_
      exact h l₁ e' (l₂ ++ [e]) (by rw [hl]; simp)

/-- What happens at most once in a history happens in one entry. -/
theorem eq_of_countP_le_one (h : l.countP p ≤ 1) {a b : Entry σ Res} (ha : a ∈ l) (hb : b ∈ l) (hpa : p a = true)
    (hpb : p b = true) : a = b := by
  have htwice : ∀ {x y : Entry σ Res} {l₁ l₂}, l = l₁ ++ x :: l₂ → y ∈ l₁ → p x = true → p y = true → False := by
    rintro x y l₁ l₂ rfl hy hpx hpy
    rw [countP_append, countP_cons_of_pos hpx] at h
    have := countP_pos_iff.mpr ⟨y, hy, hpy⟩
    omega
  rcases eq_or_before ha hb with heq | ⟨l₁, l₂, hl, hbefore⟩ | ⟨l₁, l₂, hl, hbefore⟩
  · exact heq
  · exact (htwice hl hbefore hpa hpb).elim
  · exact (htwice hl hbefore hpb hpa).elim

/-- What holds between any two places of a list holds pairwise. -/
theorem pairwise_of_cuts {R : β → β → Prop} {l : List β} (h : ∀ l₁ a l₂ b l₃, l = l₁ ++ a :: l₂ ++ b :: l₃ → R a b) :
    l.Pairwise R := by
  induction l with
  | nil => exact .nil
  | cons a l ih =>
    refine .cons (fun b hb => ?_) (ih fun l₁ x l₂ y l₃ hl => ?_)
    · obtain ⟨l₂, l₃, rfl⟩ := append_of_mem hb
      exact h [] a l₂ b l₃ rfl
    · exact h (a :: l₁) x l₂ y l₃ (by rw [hl]; rfl)

/-- Entries of either of two kinds are at most as many as those of the one and of the other. -/
theorem countP_or_le (p q : Entry σ Res → Bool) (l : List (Entry σ Res)) :
    l.countP (fun e => p e || q e) ≤ l.countP p + l.countP q := by
  induction l with
  | nil => exact Nat.zero_le _
  | cons e l ih =>
    simp only [countP_cons]
    cases p e <;> cases q e <;> simp <;> omega

/-- Where a program's trace can be split, the history can. -/
theorem localTrace_split {tr₁ tr₂ : List (Ev Res)} {v : Ev Res} (h : localTrace tid l = tr₁ ++ v :: tr₂) :
    ∃ l₁ e l₂, l = l₁ ++ e :: l₂ ∧ e.tid = tid ∧ e.ev = v ∧ localTrace tid l₁ = tr₁ ∧ localTrace tid l₂ = tr₂ := by
  obtain ⟨f₁, f₂, hf, rfl, hv⟩ := map_eq_append_iff.mp h
  obtain ⟨e, f₃, rfl, rfl, rfl⟩ := map_eq_cons_iff.mp hv
  obtain ⟨l₁, l₂, rfl, rfl, hl₂⟩ := filter_eq_append_iff.mp hf
  obtain ⟨m₁, m₂, rfl, hm, he, rfl⟩ := filter_eq_cons_iff.mp hl₂
  refine ⟨l₁ ++ m₁, e, m₂, by simp, by simpa using he, rfl, ?_, rfl⟩
  have : m₁.filter (·.tid = tid) = [] := filter_eq_nil_iff.mpr hm
  simp [localTrace, this]

/-! ### Programs along a run -/

variable {M : Machine σ ι Res} {st₀ : σ} {progs : ℕ → Prog Res α} {cfg : Config σ Res α}
  {p : List (Entry σ Res) → Entry σ Res → List (Entry σ Res) → Bool}

theorem path_stepBy (hs : StepBy M tid cfg cfg') (h : ∀ t, Path (progs t) (localTrace t cfg.log) (cfg.pool t))
    (t : ℕ) : Path (progs t) (localTrace t cfg'.log) (cfg'.pool t) := by
  obtain ⟨i, hp, -⟩ := hs
  by_cases ht : t = tid
  · subst ht
    have hpath := h t
    rw [hp] at hpath
    have := hpath.snoc (M.exec cfg.st _ i).1
    simpa [localTrace_append, localTrace, Machine.entry, Entry.ev] using this
  · rw [localTrace_snoc_of_ne _ (Ne.symm ht)]
    simpa [update_of_ne ht] using h t

/-- A program is where its part of the history has brought it. -/
theorem reach_path (h : Reach M (start st₀ progs) cfg) (tid : ℕ) :
    Path (progs tid) (localTrace tid cfg.log) (cfg.pool tid) := by
  induction h generalizing tid with
  | refl => exact .nil _
  | tail _ hs ih =>
    cases hs with
    | «by» t hs => exact path_stepBy hs ih tid
    | pass i => exact ih tid

theorem StepBy.log (hs : StepBy M tid cfg cfg') : ∃ c i, cfg'.log = cfg.log ++ [M.entry cfg.st tid c i] := by
  obtain ⟨i, -, -⟩ := hs
  exact ⟨_, i, rfl⟩

theorem Step.log_prefix (hs : Step M cfg cfg') : cfg.log <+: cfg'.log := by
  cases hs with
  | «by» tid hs =>
    obtain ⟨c, i, hl⟩ := hs.log
    exact ⟨_, hl.symm⟩
  | pass i => exact prefix_refl _

/-- The history only grows. -/
theorem Reach.log_prefix (h : Reach M cfg cfg') : cfg.log <+: cfg'.log := by
  induction h with
  | refl => exact prefix_refl _
  | tail _ hs ih => exact ih.trans hs.log_prefix

/-- The moment of an entry: the configuration that made it, and the one it made. -/
structure Moment (M : Machine σ ι Res) (l : List (Entry σ Res)) (e : Entry σ Res)
    (c₁ c₂ : Config σ Res α) : Prop where
  /-- The step was the entry's program's. -/
  step : StepBy M e.tid c₁ c₂
  /-- The history before. -/
  log₁ : c₁.log = l
  /-- The history after. -/
  log₂ : c₂.log = l ++ [e]
  /-- The state before is the one the entry records. -/
  st₁ : c₁.st = e.pre
  /-- The reply and the state after are the command's. -/
  exec : ∃ i, M.exec e.pre e.op i = (e.res, c₂.st)
  /-- The outside admitted it. -/
  admits : M.admits l e = true

theorem StepBy.moment {c₁ c₂ : Config σ Res α} (hs : StepBy M tid c₁ c₂) :
    ∃ e, e.tid = tid ∧ Moment M c₁.log e c₁ c₂ := by
  have hs' := hs
  obtain ⟨i, hp, ha⟩ := hs'
  exact ⟨M.entry c₁.st tid _ i, rfl, hs, rfl, rfl, rfl, ⟨i, rfl⟩, ha⟩

/-- One can go back to the moment of any entry. -/
theorem Reach.at_entry (h : Reach M (start st₀ progs) cfg) (hl : cfg.log = l₁ ++ e :: l₂) :
    ∃ c₁ c₂, Reach M (start st₀ progs) c₁ ∧ Moment M l₁ e c₁ c₂ ∧ Reach M c₂ cfg := by
  induction h generalizing l₂ with
  | refl => simp [start] at hl
  | @tail c d hc hs ih =>
    cases hs with
    | pass i =>
      obtain ⟨c₁, c₂, h₁, hm, h₂⟩ := ih hl
      exact ⟨c₁, c₂, h₁, hm, h₂.tail (.pass i)⟩
    | «by» tid hs =>
      obtain ⟨e', -, hm⟩ := hs.moment
      rw [hm.log₂] at hl
      rcases eq_nil_or_concat l₂ with rfl | ⟨l₃, e₃, rfl⟩
      · obtain ⟨hl₁, he⟩ := append_inj' hl rfl
        rw [singleton_inj] at he
        subst he hl₁
        exact ⟨c, d, hc, hm, .refl⟩
      · rw [concat_eq_append, ← cons_append, ← append_assoc] at hl
        obtain ⟨hl, -⟩ := append_inj' hl rfl
        obtain ⟨c₁, c₂, h₁, hm', h₂⟩ := ih hl
        exact ⟨c₁, c₂, h₁, hm', h₂.tail (.by tid hs)⟩

theorem Reach.at_mem (h : Reach M (start st₀ progs) cfg) (he : e ∈ cfg.log) :
    ∃ c₁ c₂, Reach M (start st₀ progs) c₁ ∧ Moment M c₁.log e c₁ c₂ ∧ Reach M c₂ cfg := by
  obtain ⟨l₁, l₂, hl⟩ := append_of_mem he
  obtain ⟨c₁, c₂, h₁, hm, h₂⟩ := h.at_entry hl
  exact ⟨c₁, c₂, h₁, hm.log₁ ▸ hm, h₂⟩

/-- At an entry its program was about to issue the entry's command. -/
theorem reach_path_at (h : Reach M (start st₀ progs) cfg) (hl : cfg.log = l₁ ++ e :: l₂) :
    ∃ k, Path (progs e.tid) (localTrace e.tid l₁) (.op e.op k) := by
  obtain ⟨c₁, c₂, h₁, hm, -⟩ := h.at_entry hl
  have hpath := reach_path h₁ e.tid
  obtain ⟨hs, rfl, hl₂, -, -, -⟩ := hm
  cases hs with
  | @op c k i hp ha =>
    rw [hp] at hpath
    have hc : c = e.op := congrArg Entry.op (append_cancel_left hl₂ |> singleton_inj.mp)
    subst hc
    exact ⟨k, hpath⟩

section Rules

variable {I : ℕ → List (Ev Res) → Op → Prop} {Q : ℕ → List (Ev Res) → α → Prop}

/-- Every entry of the history is a command its program was allowed to issue. -/
theorem reach_issues (hw : ∀ tid, Wp (I tid) (Q tid) [] (progs tid)) (h : Reach M (start st₀ progs) cfg)
    (hl : cfg.log = l₁ ++ e :: l₂) : I e.tid (localTrace e.tid l₁) e.op := by
  obtain ⟨k, hpath⟩ := reach_path_at h hl
  exact (hw e.tid).issues hpath

/-- Every answer is one its program may end with. -/
theorem reach_ends (hw : ∀ tid, Wp (I tid) (Q tid) [] (progs tid)) (h : Reach M (start st₀ progs) cfg) {a : α}
    (hp : cfg.pool tid = .ret a) : Q tid (localTrace tid cfg.log) a := by
  have hpath := reach_path h tid
  rw [hp] at hpath
  exact (hw tid).ends hpath

end Rules

section

variable (Inv : σ → List (Entry σ Res) → Prop)
include Inv

/-- The induction over the rest of a run, from a moment `d` of it on. -/
theorem reach_keeps {d : Config σ Res α} (hd : Reach M (start st₀ progs) d) (h₀ : Inv d.st d.log)
    (hop : ∀ (c c' : Config σ Res α) (e : Entry σ Res), Reach M (start st₀ progs) c → Reach M d c →
      Inv c.st c.log → Moment M c.log e c c' → Inv c'.st (c.log ++ [e]))
    (hpass : ∀ st log i, Inv st log → Inv (M.pass st i) log) (h : Reach M d cfg) :
    Inv cfg.st cfg.log := by
  induction h with
  | refl => exact h₀
  | @tail c c' hc hs ih =>
    cases hs with
    | pass i => exact hpass _ _ i ih
    | «by» tid hs =>
      obtain ⟨e, -, hm⟩ := hs.moment
      rw [hm.log₂]
      exact hop c c' e (hd.trans hc) hc ih hm

/-- The induction over a run, for a property of the state and the history: it holds at the start, every
entry made from a configuration of the run keeps it, and so does the outside. -/
theorem reach_invariant (h₀ : Inv st₀ [])
    (hop : ∀ (c d : Config σ Res α) (e : Entry σ Res), Reach M (start st₀ progs) c → Inv c.st c.log →
      Moment M c.log e c d → Inv d.st (c.log ++ [e]))
    (hpass : ∀ st log i, Inv st log → Inv (M.pass st i) log)
    (h : Reach M (start st₀ progs) cfg) : Inv cfg.st cfg.log :=
  reach_keeps Inv .refl h₀ (fun c d e hc _ => hop c d e hc) hpass h

/-- The induction over what comes after a moment `d`, for a property of the state and of the history since
then. -/
theorem reach_after {d : Config σ Res α} (hd : Reach M (start st₀ progs) d)
    (h₀ : Inv d.st []) (hop : ∀ (c c' : Config σ Res α) (x : Entry σ Res) (l : List (Entry σ Res)),
      Reach M (start st₀ progs) c → c.log = d.log ++ l → Inv c.st l → Moment M c.log x c c' → Inv c'.st (l ++ [x]))
    (hpass : ∀ st l i, Inv st l → Inv (M.pass st i) l) (h : Reach M d cfg) (hl : cfg.log = d.log ++ l) :
    Inv cfg.st l := by
  refine reach_keeps (fun st log => ∀ l, log = d.log ++ l → Inv st l) hd ?_ ?_ ?_ h l hl
  · intro l hl
    have hnil : l = [] := by simpa using hl.symm
    exact hnil ▸ h₀
  · intro c c' x hc hreach ih hx l hl
    obtain ⟨l', hl'⟩ := hreach.log_prefix
    rw [← hl', append_assoc] at hl
    have hsnoc : l = l' ++ [x] := by simpa using hl.symm
    exact hsnoc ▸ hop c c' x l' hc hl'.symm (ih l' hl'.symm) hx
  · exact fun st log i ih l hl => hpass st l i (ih l hl)

/-- The induction over what comes after an entry `e`, for a property of the state and of the history since
then: it holds just after `e`, and every later entry keeps it, and so does the outside. -/
theorem reach_since (h : Reach M (start st₀ progs) cfg) (hl : cfg.log = l₁ ++ e :: l₂)
    (h₀ : ∀ c d : Config σ Res α, Reach M (start st₀ progs) c → Moment M l₁ e c d → Inv d.st [])
    (hop : ∀ (c d : Config σ Res α) (x : Entry σ Res) (l : List (Entry σ Res)),
      Reach M (start st₀ progs) c → c.log = l₁ ++ e :: l → Inv c.st l → Moment M c.log x c d →
      Inv d.st (l ++ [x])) (hpass : ∀ st l i, Inv st l → Inv (M.pass st i) l) : Inv cfg.st l₂ := by
  obtain ⟨c₁, c₂, h₁, hm, h₂⟩ := h.at_entry hl
  have hlog : ∀ l, c₂.log ++ l = l₁ ++ e :: l := fun l => by rw [hm.log₂, append_assoc, singleton_append]
  refine reach_after Inv (h₁.tail (.by _ hm.step)) (h₀ c₁ c₂ h₁ hm) ?_ hpass h₂ (hl.trans (hlog l₂).symm)
  exact fun c d x l hc hcl => hop c d x l hc (hcl.trans (hlog l))

end

/-- What the state has come to hold, some command wrote: `H` does not hold at the start, and a command after which it
holds wrote it or found it. -/
theorem reach_written {H : σ → Prop} {W : Entry σ Res → Prop} (h : Reach M (start st₀ progs) cfg) (hH : H cfg.st)
    (h₀ : ¬ H st₀) (hpass : ∀ st i, H (M.pass st i) → H st)
    (hop : ∀ c d e, Reach M (start st₀ progs) c → Moment M c.log e c d → H d.st → W e ∨ H c.st) :
    ∃ e ∈ cfg.log, W e := by
  refine reach_invariant (fun st log => H st → ∃ e ∈ log, W e) (fun hH => absurd hH h₀) ?_
    (fun st _ i ih hH => ih (hpass st i hH)) h hH
  intro c d e hc ih hm hH
  rcases hop c d e hc hm hH with hw | hH
  · exact ⟨e, mem_concat_self, hw⟩
  · obtain ⟨x, hx, hw⟩ := ih hH
    exact ⟨x, mem_append_left _ hx, hw⟩

/-! ### Executing a schedule -/

/-- One move of a schedule. -/
inductive Move (ι : Type) where
  /-- Program `tid` issues its next command, on input `i`. -/
  | act (tid : ℕ) (i : ι)
  /-- Something happens outside, on input `i`. -/
  | wait (i : ι)

/-- Execute one move, if it is possible. -/
def move (M : Machine σ ι Res) (cfg : Config σ Res α) : Move ι → Option (Config σ Res α)
  | .wait i => some { cfg with st := M.pass cfg.st i }
  | .act tid i =>
    match cfg.pool tid with
    | .ret _ => none
    | .op c k =>
      if M.admits cfg.log (M.entry cfg.st tid c i) then
        some ⟨(M.exec cfg.st c i).2, cfg.log ++ [M.entry cfg.st tid c i],
          update cfg.pool tid (k (M.exec cfg.st c i).1)⟩
      else none

/-- Execute a schedule. -/
def run (M : Machine σ ι Res) (cfg : Config σ Res α) : List (Move ι) → Option (Config σ Res α)
  | [] => some cfg
  | m :: ms => (move M cfg m).bind fun cfg' => run M cfg' ms

theorem step_of_move {m : Move ι} (h : move M cfg m = some cfg') : Step M cfg cfg' := by
  cases m with
  | wait i =>
    rw [move, Option.some.injEq] at h
    exact h ▸ .pass i
  | act tid i =>
    cases hp : cfg.pool tid with
    | ret a => simp [move, hp] at h
    | op c k =>
      simp only [move, hp, ite_none_right_eq_some, Option.some.injEq] at h
      exact h.2 ▸ .by tid (.op i hp h.1)

/-- A schedule that can be executed is a run. -/
theorem reach_of_run {ms : List (Move ι)} (h : run M cfg ms = some cfg') : Reach M cfg cfg' := by
  induction ms generalizing cfg with
  | nil =>
    rw [run, Option.some.injEq] at h
    exact h ▸ .refl
  | cons m ms ih =>
    rw [run, bind_eq_some_iff] at h
    obtain ⟨cfg₁, hm, hr⟩ := h
    exact (ReflTransGen.single (step_of_move hm)).trans (ih hr)

/-- A schedule that can be executed to a moment with the property `p` is a run to such a moment. -/
theorem reach_of_schedule {ms : List (Move ι)} {p : Config σ Res α → Bool}
    (h : (run M cfg ms).any p = true) : ∃ cfg', Reach M cfg cfg' ∧ p cfg' = true := by
  obtain ⟨cfg', hr, hp⟩ := (Option.any_eq_true p _).mp h
  exact ⟨cfg', reach_of_run hr, hp⟩

/-- A schedule that can be executed to a moment with the property `p` is a run to a moment with what follows
from it. -/
theorem exists_reach {P : Config σ Res α → Prop} {ms : List (Move ι)} {p : Config σ Res α → Prop} [DecidablePred p]
    (h : (run M cfg ms).any (fun cfg' => p cfg') = true) (hP : ∀ cfg', Reach M cfg cfg' → p cfg' → P cfg') :
    ∃ cfg', Reach M cfg cfg' ∧ P cfg' :=
  (reach_of_schedule h).imp fun cfg' ⟨hreach, hp⟩ => ⟨hreach, hP cfg' hreach (of_decide_eq_true hp)⟩

/-- The answer of a program that has ended. -/
def Prog.answer : Prog Res α → Option α
  | .ret a => some a
  | .op .. => none

theorem Prog.answer_eq_some {p : Prog Res α} {a : α} : p.answer = some a ↔ p = .ret a := by
  cases p <;> simp [Prog.answer]

/-- The answer of a program that has ended, and not failed. -/
def Prog.answered {ε : Type} : Prog Res (Except ε α) → Option α
  | .ret (.ok a) => some a
  | _ => none

theorem Prog.answered_eq_some {ε : Type} {p : Prog Res (Except ε α)} {a : α} :
    p.answered = some a ↔ p = .ret (.ok a) := by
  rcases p with ⟨_ | _⟩ | _ <;> simp [Prog.answered]

/-- The failure a program has ended with. -/
def Prog.failed {ε : Type} : Prog Res (Except ε α) → Option ε
  | .ret (.error e) => some e
  | _ => none

theorem Prog.failed_eq_some {ε : Type} {p : Prog Res (Except ε α)} {e : ε} :
    p.failed = some e ↔ p = .ret (.error e) := by
  rcases p with ⟨_ | _⟩ | _ <;> simp [Prog.failed]

/-- The history has this property where it is cut at its entry number `n`. -/
def cutAt (n : ℕ) (p : List (Entry σ Res) → Entry σ Res → List (Entry σ Res) → Bool) (l : List (Entry σ Res)) : Bool :=
  match l.drop n with
  | e :: l₂ => p (l.take n) e l₂
  | [] => false

theorem exists_of_cutAt {n : ℕ} (h : cutAt n p l = true) : ∃ l₁ e l₂, l = l₁ ++ e :: l₂ ∧ p l₁ e l₂ = true := by
  unfold cutAt at h
  split at h
  · next e l₂ hdrop => exact ⟨l.take n, e, l₂, by rw [← hdrop, take_append_drop], h⟩
  · cases h

/-- The history has this property wherever it is cut at an entry; `l₀` is what comes before it. -/
def everyCut (p : List (Entry σ Res) → Entry σ Res → List (Entry σ Res) → Bool) (l₀ : List (Entry σ Res)) :
    List (Entry σ Res) → Bool
  | [] => true
  | e :: l => p l₀ e l && everyCut p (l₀ ++ [e]) l

theorem of_everyCut {l₀ : List (Entry σ Res)}
    (h : everyCut p l₀ (l₁ ++ e :: l₂) = true) : p (l₀ ++ l₁) e l₂ = true := by
  induction l₁ generalizing l₀ with
  | nil =>
    rw [append_nil]
    exact (Bool.and_eq_true _ _ ▸ h).1
  | cons a l₁ ih =>
    have := ih (Bool.and_eq_true _ _ ▸ h).2
    rwa [append_assoc] at this

/-- No program is in progress: each has ended, or not begun. -/
def Config.Quiet (cfg : Config σ Res α) : Prop :=
  ∀ tid, localTrace tid cfg.log = [] ∨ ∃ a, cfg.pool tid = .ret a

/-- So it is when the first `n` programs have ended and no other has issued anything. -/
theorem quiet_of_all (n : ℕ) (hlog : (cfg.log.all fun e => decide (e.tid < n)) = true)
    (hended : ((List.range n).all fun tid => (cfg.pool tid).answer.isSome) = true) : cfg.Quiet := by
  intro tid
  by_cases ht : tid < n
  · obtain ⟨a, ha⟩ := isSome_iff_exists.mp (all_eq_true.mp hended tid (mem_range.mpr ht))
    exact .inr ⟨a, Prog.answer_eq_some.mp ha⟩
  · refine .inl (map_eq_nil_iff.mpr (filter_eq_nil_iff.mpr fun e he => ?_))
    have := of_decide_eq_true (all_eq_true.mp hlog e he)
    simp only [decide_eq_true_eq]
    omega

/-- Run a program alone from `st`, every command on the same input: its answer and the state left. -/
def evalAt (M : Machine σ ι Res) (i : ι) : σ → Prog Res α → α × σ
  | st, .ret a => (a, st)
  | st, .op c k => evalAt M i (M.exec st c i).2 (k (M.exec st c i).1)

@[simp] theorem evalAt_ret (i : ι) (st : σ) (a : α) : evalAt M i st (.ret a) = (a, st) := rfl

@[simp] theorem evalAt_op (i : ι) (st : σ) (c : Op) (k : Res c → Prog Res α) :
    evalAt M i st (.op c k) = evalAt M i (M.exec st c i).2 (k (M.exec st c i).1) := rfl

/-- A composed program alone: the first part, then the rest from where it left the state. -/
theorem evalAt_bind (i : ι) (st : σ) (p : Prog Res α) (f : α → Prog Res β) :
    evalAt M i st (p.bind f) = evalAt M i (evalAt M i st p).2 (f (evalAt M i st p).1) := by
  induction p generalizing st with
  | ret a => rfl
  | op c k ih => exact ih _ _

end Concurrency
