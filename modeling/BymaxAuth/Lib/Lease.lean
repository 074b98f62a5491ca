import BymaxAuth.Lib.Interleaving
import BymaxAuth.Lib.Redis

/-!
# Leases

A lease is a key that is taken where it is not there and lapses by itself: `SET … NX EX`. Whoever took it may
free it before that, by the token it was taken with; a marker that nobody frees is the same without the second
command. A lease does not stop a holder that is late, so what it excludes is said about the seconds at which
things happened.

## The model

`Lease` says where the keys and the clock are in a state, and which exchanges took or freed a key. `Lease.Step` is
what one exchange can do to a key, and `Lease.Kept` says that the machine's commands do nothing else.
-/

namespace Concurrency

open Redis List

variable {Op : Type} {Res : Op → Type} {σ ι α K T : Type}

/-- Keys that are taken and freed. -/
structure Lease (σ : Type) {Op : Type} (Res : Op → Type) (K T : Type) where
  /-- The keys, each with the token of its holder. -/
  keys : σ → Keys K T
  clock : σ → ℕ
  /-- The key an exchange took, with its token and for how long. -/
  takes : Ev Res → Option (K × T × ℕ)
  /-- The key an exchange freed, with the token. -/
  frees : Ev Res → Option (K × T)

namespace Lease

variable (L : Lease σ Res K T)

/-- What an entry can do to a key; `after` is the state it leaves. -/
inductive Step (k : K) (e : Entry σ Res) (after : σ) : Prop where
  /-- It is taken where it was not there. -/
  | taken {t : T} {ttl : ℕ} : L.takes e.ev = some (k, t, ttl) → has (L.keys e.pre) (L.clock e.pre) k = false →
      L.keys after k = some ⟨t, some (L.clock e.pre + ttl)⟩ → Step k e after
  /-- It is freed by the token it holds. -/
  | freed {t : T} : (∀ t ttl, L.takes e.ev ≠ some (k, t, ttl)) → L.frees e.ev = some (k, t) →
      get (L.keys e.pre) (L.clock e.pre) k = some t → L.keys after k = none → Step k e after
  /-- It had lapsed, and is removed. -/
  | lapsed : (∀ t ttl, L.takes e.ev ≠ some (k, t, ttl)) → has (L.keys e.pre) (L.clock e.pre) k = false →
      L.keys after k = none → Step k e after
  /-- It stays as it is. -/
  | kept : (∀ t ttl, L.takes e.ev ≠ some (k, t, ttl)) → L.keys after k = L.keys e.pre k → Step k e after

variable {L} in
theorem Step.pass {k : K} {e : Entry σ Res} {after : σ} (h : L.takes e.ev = none)
    (hk : L.keys after k = L.keys e.pre k) : L.Step k e after :=
  .kept (by simp [h]) hk

/-- The commands of a machine do nothing else, and the clock moves between them only. -/
structure Kept (M : Machine σ ι Res) : Prop where
  /-- A command. -/
  step : ∀ st tid c i k, L.Step k (M.entry st tid c i) (M.exec st c i).2
  /-- A command takes no time. -/
  clock : ∀ st c i, L.clock (M.exec st c i).2 = L.clock st
  /-- The outside leaves the keys. -/
  pass : ∀ st i, L.keys (M.pass st i) = L.keys st
  /-- The clock does not go back. -/
  later : ∀ st i, L.clock st ≤ L.clock (M.pass st i)

variable {L} {M : Machine σ ι Res} {st₀ : σ} {progs : ℕ → Prog Res α} {cfg : Config σ Res α}
  {l₁ l₂ : List (Entry σ Res)} {k : K} {t : T} {ttl : ℕ} {e a : Entry σ Res}

/-- `SET … NX EX` is a step. -/
theorem Step.of_setNx [DecidableEq K] {after : σ} {k' : K}
    (hafter : L.keys after = (setNx (L.keys e.pre) (L.clock e.pre) k t ttl).2)
    (htakes : L.takes e.ev = if (setNx (L.keys e.pre) (L.clock e.pre) k t ttl).1 then some (k, t, ttl) else none) :
    L.Step k' e after := by
  cases hhas : has (L.keys e.pre) (L.clock e.pre) k with
  | true =>
    rw [setNx_of_has hhas] at htakes hafter
    exact .kept (fun _ _ h => by cases htakes.symm.trans h) (congrFun hafter k')
  | false =>
    rw [setNx_of_not_has hhas] at htakes hafter
    by_cases hk : k' = k
    · subst hk
      exact .taken htakes hhas ((congrFun hafter k').trans (setEx_self ..))
    · refine .kept (fun _ _ h => ?_) ((congrFun hafter k').trans (setEx_of_ne _ _ _ _ hk))
      cases htakes.symm.trans h
      exact hk rfl

/-- So it is at every moment of a run. -/
theorem Kept.moment (hL : L.Kept M) {l : List (Entry σ Res)} {c d : Config σ Res α} (hm : Moment M l e c d) (k : K) :
    L.Step k e d.st ∧ L.clock d.st = L.clock c.st := by
  obtain ⟨i, hi⟩ := hm.exec
  obtain ⟨tid, pre, op, r⟩ := e
  have hst : (M.exec pre op i).2 = d.st := congrArg Prod.snd hi
  have hr : (M.exec pre op i).1 = r := congrArg Prod.fst hi
  have hstep := hL.step pre tid op i k
  have hclock := hL.clock pre op i
  rw [hst] at hstep hclock
  subst hr
  exact ⟨hstep, by rw [hclock, hm.st₁]⟩

theorem Kept.moment_clock (hL : L.Kept M) {l : List (Entry σ Res)} {c d : Config σ Res α} (hm : Moment M l e c d) :
    L.clock d.st = L.clock c.st := by
  obtain ⟨i, hi⟩ := hm.exec
  rw [hm.st₁, ← hL.clock e.pre e.op i, hi]

/-- A key that was taken is held until it is freed or lapses. -/
theorem held (hL : L.Kept M) (h : Reach M (start st₀ progs) cfg) (hl : cfg.log = l₁ ++ a :: l₂)
    (ha : L.takes a.ev = some (k, t, ttl)) (hfree : ∀ x ∈ l₂, L.frees x.ev ≠ some (k, t))
    (hnow : L.clock cfg.st < L.clock a.pre + ttl) : L.keys cfg.st k = some ⟨t, some (L.clock a.pre + ttl)⟩ := by
  refine reach_since (fun st l => (∀ x ∈ l, L.frees x.ev ≠ some (k, t)) → L.clock st < L.clock a.pre + ttl →
    L.keys st k = some ⟨t, some (L.clock a.pre + ttl)⟩) h hl ?_ ?_ ?_ hfree hnow
  · intro c d _ hm _ _
    cases (hL.moment hm k).1 with
    | taken htakes _ hafter =>
      rw [ha] at htakes
      cases htakes
      exact hafter
    | freed hno _ _ _ | lapsed hno _ _ | kept hno _ => exact absurd ha (hno t ttl)
  · intro c d x l _ _ ih hm hfree hnow
    obtain ⟨hstep, hclock⟩ := hL.moment hm k
    rw [hclock] at hnow
    have hk : L.keys x.pre k = some ⟨t, some (L.clock a.pre + ttl)⟩ := by
      rw [← hm.st₁]
      exact ih (fun y hy => hfree y (mem_append_left _ hy)) hnow
    have hlive : (Cell.mk t (some (L.clock a.pre + ttl))).live (L.clock x.pre) = true := by
      rw [live_some, ← hm.st₁]
      exact hnow
    cases hstep with
    | taken _ hhas _ =>
      rw [has_iff.mpr ⟨_, hk, hlive⟩] at hhas
      cases hhas
    | freed _ hfrees hget _ =>
      rw [get_eq_some.mpr ⟨_, hk, hlive, rfl⟩] at hget
      cases hget
      exact absurd hfrees (hfree x (by simp))
    | lapsed _ hhas _ =>
      rw [has_iff.mpr ⟨_, hk, hlive⟩] at hhas
      cases hhas
    | kept _ hafter => exact hafter.trans hk
  · intro st l i ih hfree hnow
    rw [hL.pass]
    exact ih hfree (Nat.lt_of_le_of_lt (hL.later st i) hnow)

/-- A key that was taken is taken again only once it was freed or has lapsed. -/
theorem excluded (hL : L.Kept M) (h : Reach M (start st₀ progs) cfg) {b : Entry σ Res} {l₃ : List (Entry σ Res)}
    (hl : cfg.log = l₁ ++ a :: l₂ ++ b :: l₃) (ha : L.takes a.ev = some (k, t, ttl)) {t' : T} {ttl' : ℕ}
    (hb : L.takes b.ev = some (k, t', ttl')) (hfree : ∀ x ∈ l₂, L.frees x.ev ≠ some (k, t)) :
    L.clock a.pre + ttl ≤ L.clock b.pre := by
  by_contra hlt
  obtain ⟨c, d, hc, hm, -⟩ := h.at_entry hl
  rw [Nat.not_le, ← hm.st₁] at hlt
  have hk := held hL hc hm.log₁ ha hfree hlt
  cases (hL.moment hm k).1 with
  | taken _ hhas _ =>
    rw [← hm.st₁, has_iff.mpr ⟨_, hk, live_some.mpr hlt⟩] at hhas
    cases hhas
  | freed hno _ _ _ | lapsed hno _ _ | kept hno _ => exact absurd hb (hno t' ttl')

/-- Whoever took a key last holds it. -/
theorem holder (hL : L.Kept M) (h₀ : ∀ k, L.keys st₀ k = none) (h : Reach M (start st₀ progs) cfg)
    {cell : Cell T} (hk : L.keys cfg.st k = some cell) :
    ∃ l₁ a l₂ ttl, cfg.log = l₁ ++ a :: l₂ ∧ L.takes a.ev = some (k, cell.val, ttl) ∧
      ∀ x ∈ l₂, ∀ t ttl, L.takes x.ev ≠ some (k, t, ttl) := by
  refine reach_invariant (fun st log => ∀ cell, L.keys st k = some cell → ∃ l₁ a l₂ ttl, log = l₁ ++ a :: l₂ ∧
    L.takes a.ev = some (k, cell.val, ttl) ∧ ∀ x ∈ l₂, ∀ t ttl, L.takes x.ev ≠ some (k, t, ttl)) ?_ ?_ ?_ h cell hk
  · intro cell hk
    rw [h₀] at hk
    cases hk
  · intro c d e _ ih hm cell hk
    cases (hL.moment hm k).1 with
    | taken htakes _ hafter =>
      rw [hafter] at hk
      cases hk
      exact ⟨c.log, e, [], _, rfl, htakes, nofun⟩
    | freed _ _ _ hafter | lapsed _ _ hafter =>
      rw [hafter] at hk
      cases hk
    | kept hno hafter =>
      rw [hafter, ← hm.st₁] at hk
      obtain ⟨l₁, a, l₂, ttl, hl, ha, hlast⟩ := ih cell hk
      refine ⟨l₁, a, l₂ ++ [e], ttl, by rw [hl, append_assoc, cons_append], ha, fun x hx => ?_⟩
      rcases mem_append.mp hx with hx | hx
      · exact hlast x hx
      · rw [mem_singleton.mp hx]
        exact hno
  · intro st log i ih cell hk
    rw [hL.pass] at hk
    exact ih cell hk

/-- A key that was freed is not there until it is taken again. -/
theorem gone (hL : L.Kept M) (h : Reach M (start st₀ progs) cfg) (hl : cfg.log = l₁ ++ a :: l₂)
    (ha : ∀ c d : Config σ Res α, Moment M l₁ a c d → L.keys d.st k = none)
    (hno : ∀ x ∈ l₂, ∀ t ttl, L.takes x.ev ≠ some (k, t, ttl)) : L.keys cfg.st k = none := by
  refine reach_since (fun st l => (∀ x ∈ l, ∀ t ttl, L.takes x.ev ≠ some (k, t, ttl)) → L.keys st k = none) h hl ?_ ?_ ?_
    hno
  · exact fun c d _ hm _ => ha c d hm
  · intro c d x l _ _ ih hm hno
    have hk : L.keys x.pre k = none := by
      rw [← hm.st₁]
      exact ih fun y hy => hno y (mem_append_left _ hy)
    cases (hL.moment hm k).1 with
    | taken htakes _ _ => exact absurd htakes (hno x (by simp) _ _)
    | freed _ _ _ hafter | lapsed _ _ hafter => exact hafter
    | kept _ hafter => exact hafter.trans hk
  · intro st l i ih hno
    rw [hL.pass]
    exact ih hno

/-- An entry was made before now. -/
theorem clock_le (hL : L.Kept M) (h : Reach M (start st₀ progs) cfg) (he : e ∈ cfg.log) :
    L.clock e.pre ≤ L.clock cfg.st := by
  refine reach_invariant (fun st log => ∀ e ∈ log, L.clock e.pre ≤ L.clock st) nofun ?_ ?_ h e he
  · intro c d x _ ih hm e he
    rw [hL.moment_clock hm]
    rcases mem_append.mp he with he | he
    · exact ih e he
    · rw [mem_singleton.mp he, hm.st₁]
  · exact fun st log i ih e he => (ih e he).trans (hL.later st i)

/-- Moments that are `d` seconds apart, up to `T`. -/
theorem spaced_le {d t T : ℕ} {ts : List ℕ} (h : (t :: ts).Pairwise (· + d ≤ ·)) (hT : ∀ s ∈ t :: ts, s ≤ T) :
    t + d * ts.length ≤ T := by
  induction ts generalizing t with
  | nil => simpa using hT t mem_cons_self
  | cons s ts ih =>
    have hs : t + d ≤ s := rel_of_pairwise_cons h mem_cons_self
    have hrest := ih h.of_cons fun r hr => hT r (mem_cons_of_mem t hr)
    rw [length_cons, Nat.mul_succ]
    omega

/-- A key that nobody frees is taken once in its time to live, and no more often. -/
theorem countP_le (hL : L.Kept M) (h : Reach M (start st₀ progs) cfg) {p : Entry σ Res → Bool}
    (hp : ∀ e ∈ cfg.log, p e = true → ∃ t, L.takes e.ev = some (k, t, ttl)) (hpos : 0 < ttl)
    (hfree : ∀ e ∈ cfg.log, L.frees e.ev = none) (hl : cfg.log = l₁ ++ a :: l₂) (ha : p a = true)
    (hfirst : ∀ e ∈ l₁, p e = false) : cfg.log.countP p ≤ (L.clock cfg.st - L.clock a.pre) / ttl + 1 := by
  have hpair : ((cfg.log.filter p).map fun e => L.clock e.pre).Pairwise (· + ttl ≤ ·) := by
    rw [pairwise_map, pairwise_filter]
    refine pairwise_of_cuts fun m₁ x m₂ y m₃ hcut hx hy => ?_
    obtain ⟨t, htx⟩ := hp x (hcut ▸ by simp) hx
    obtain ⟨t', hty⟩ := hp y (hcut ▸ by simp) hy
    refine excluded hL h hcut htx hty fun z hz => ?_
    rw [hfree z (hcut ▸ by simp [hz])]
    exact nofun
  have hfilter : cfg.log.filter p = a :: l₂.filter p := by
    rw [hl, filter_append, filter_cons_of_pos ha,
      filter_eq_nil_iff.mpr fun e he => by rw [hfirst e he]; exact Bool.false_ne_true, nil_append]
  have hbound : ∀ s ∈ (cfg.log.filter p).map fun e => L.clock e.pre, s ≤ L.clock cfg.st := by
    intro s hs
    obtain ⟨e, he, rfl⟩ := mem_map.mp hs
    exact clock_le hL h (mem_filter.mp he).1
  rw [hfilter, map_cons] at hpair hbound
  have hle := spaced_le hpair hbound
  rw [length_map] at hle
  rw [countP_eq_length_filter, hfilter, length_cons, Nat.add_le_add_iff_right, Nat.le_div_iff_mul_le hpos,
    Nat.mul_comm]
  omega

end Lease

end Concurrency
