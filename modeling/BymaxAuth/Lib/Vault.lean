import BymaxAuth.Lib.Fresh

/-!
# Records that wait to be taken

A `Vault` is a part of the state where a record waits under its key from the moment it is put there until it is
taken, or is gone for another reason: it lapsed, or it was dropped. What the vault needs of a machine is said of
one entry and one key (`Effect`): it puts a record there, it takes the record that waits there, or it leaves it
or drops it.
-/

namespace Concurrency

open List Option

variable {Op : Type} {Res : Op → Type} {σ ι α K V : Type}

/-- A part of the state where records wait, each under a key, until they are taken. -/
structure Vault (σ : Type) {Op : Type} (Res : Op → Type) (K V : Type) where
  /-- What waits under a key. -/
  cell : σ → K → Option V
  /-- What an entry puts, and under which key. -/
  puts : Entry σ Res → Option (K × V)
  /-- What an entry takes, and from under which key. -/
  takes : Entry σ Res → Option (K × V)

namespace Vault

variable (L : Vault σ Res K V)

/-- What an entry does to the record under `k`; `after` is the state it leaves. -/
inductive Effect (k : K) (e : Entry σ Res) (after : σ) : Prop where
  /-- It puts one there. -/
  | put {v : V} : L.puts e = some (k, v) → L.takes e = none → L.cell after k = some v → Effect k e after
  /-- It takes the one that waits there. -/
  | taken {v : V} : L.puts e = none → L.takes e = some (k, v) → L.cell e.pre k = some v →
      L.cell after k = none → Effect k e after
  /-- It leaves it, or drops it. -/
  | kept : (∀ v, L.puts e ≠ some (k, v)) → (∀ v, L.takes e ≠ some (k, v)) →
      L.cell after k = L.cell e.pre k ∨ L.cell after k = none → Effect k e after

variable {L} in
theorem Effect.pass {k : K} {e : Entry σ Res} {after : σ} (hp : L.puts e = none) (ht : L.takes e = none)
    (h : L.cell after k = L.cell e.pre k ∨ L.cell after k = none) : L.Effect k e after :=
  .kept (by simp [hp]) (by simp [ht]) h

/-- The machine deals with the vault only so. -/
structure Kept (M : Machine σ ι Res) : Prop where
  /-- Every command has one of the effects. -/
  effect : ∀ {e : Entry σ Res} {after : σ} {i : ι}, M.exec e.pre e.op i = (e.res, after) → ∀ k, L.Effect k e after
  /-- The outside puts nothing there. -/
  pass : ∀ st i k, L.cell (M.pass st i) k = L.cell st k

/-- The entry puts something under `k`. -/
def putsAt [DecidableEq K] (k : K) (e : Entry σ Res) : Bool := (L.puts e).any (·.1 = k)

/-- The entry takes what waits under `k`. -/
def takesAt [DecidableEq K] (k : K) (e : Entry σ Res) : Bool := (L.takes e).any (·.1 = k)

variable {L} {M : Machine σ ι Res} {st₀ : σ} {progs : ℕ → Prog Res α} {cfg : Config σ Res α}

section

variable (hL : L.Kept M) (h₀ : ∀ k, L.cell st₀ k = none) (h : Reach M (start st₀ progs) cfg)
include hL h₀ h

/-- What waits under a key was put there. -/
theorem Kept.put_of_cell {k : K} {v : V} (hv : L.cell cfg.st k = some v) : ∃ e ∈ cfg.log, L.puts e = some (k, v) := by
  refine reach_written (H := fun st => L.cell st k = some v) h hv (by simp [h₀])
    (fun st i hv => hL.pass st i k ▸ hv) ?_
  intro c d e _ hm hv
  obtain ⟨i, hi⟩ := hm.exec
  cases hL.effect hi k with
  | put hputs _ hcell =>
    rw [hcell, Option.some.injEq] at hv
    exact .inl (hv ▸ hputs)
  | taken _ _ _ hcell =>
    rw [hcell] at hv
    cases hv
  | kept _ _ hcell =>
    rcases hcell with hcell | hcell <;> rw [hcell] at hv
    · exact .inr (hm.st₁ ▸ hv)
    · cases hv

/-- What was taken from under a key was put there before. -/
theorem Kept.put_of_take {l₁ l₂ : List (Entry σ Res)} {e : Entry σ Res} (hl : cfg.log = l₁ ++ e :: l₂) {k : K} {v : V}
    (ht : L.takes e = some (k, v)) : ∃ x ∈ l₁, L.puts x = some (k, v) := by
  obtain ⟨c, d, hc, hm, -⟩ := h.at_entry hl
  obtain ⟨i, hi⟩ := hm.exec
  cases hL.effect hi k with
  | put _ hnone _ =>
    rw [hnone] at ht
    cases ht
  | taken _ htakes hcell _ =>
    rw [ht, Option.some.injEq, Prod.mk.injEq] at htakes
    obtain ⟨-, rfl⟩ := htakes
    rw [← hm.st₁] at hcell
    obtain ⟨x, hx, hput⟩ := hL.put_of_cell h₀ hc hcell
    exact ⟨x, hm.log₁ ▸ hx, hput⟩
  | kept _ htakes _ => exact absurd ht (htakes v)

/-- Under one key no more is taken than was put. -/
theorem Kept.takes_le_puts [DecidableEq K] (k : K) : cfg.log.countP (L.takesAt k) ≤ cfg.log.countP (L.putsAt k) := by
  -- What still waits there has been put, and not taken.
  have key : cfg.log.countP (L.takesAt k) + (L.cell cfg.st k).toList.length ≤ cfg.log.countP (L.putsAt k) := by
    refine reach_invariant
      (fun st log => log.countP (L.takesAt k) + (L.cell st k).toList.length ≤ log.countP (L.putsAt k)) ?_ ?_ ?_ h
    · simp [h₀]
    · intro c d e _ ih hm
      obtain ⟨i, hi⟩ := hm.exec
      rw [hm.st₁] at ih
      rw [countP_append, countP_append, countP_singleton, countP_singleton]
      cases hL.effect hi k with
      | put hputs hnone hcell =>
        simp only [takesAt, putsAt, hputs, hnone, hcell, any_none, any_some, decide_true, if_true,
          toList_some, length_singleton, Bool.false_eq_true, if_false] at ih ⊢
        omega
      | taken hnone htakes hpre hcell =>
        simp only [takesAt, putsAt, htakes, hnone, hcell, hpre, any_none, any_some, decide_true,
          if_true, toList_some, toList_none, length_singleton, length_nil,
          Bool.false_eq_true, if_false] at ih ⊢
        omega
      | kept hputs htakes hcell =>
        have hput : L.putsAt k e = false := by
          rw [putsAt, ← Bool.not_eq_true, Option.any_eq_true]
          rintro ⟨⟨k', v⟩, he, hk⟩
          exact hputs v (of_decide_eq_true hk ▸ he)
        have htake : L.takesAt k e = false := by
          rw [takesAt, ← Bool.not_eq_true, Option.any_eq_true]
          rintro ⟨⟨k', v⟩, he, hk⟩
          exact htakes v (of_decide_eq_true hk ▸ he)
        have hle : (L.cell d.st k).toList.length ≤ (L.cell e.pre k).toList.length := by
          rcases hcell with hcell | hcell <;> simp [hcell]
        simp only [hput, htake, Bool.false_eq_true, if_false]
        omega
    · intro st log i ih
      rwa [hL.pass]
  omega

end

end Vault

end Concurrency
