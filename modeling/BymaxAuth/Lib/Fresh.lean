import BymaxAuth.Lib.Interleaving
import Mathlib.Data.List.Nodup

/-!
# Fresh values that are spent once

Programs draw values from a source that never repeats itself (random tokens, identifiers) and then use
them as names for what they store. `mint` says which value an exchange drew, `spend` which value an
exchange used. If a program only ever uses the value it drew last, and only once, then over any
interleaving no value is used twice, and every value used was drawn before.

The programs' part of this is about their own trace, so it is a precondition for `Wp`: a command that
spends a value is issued only when that value is `pending`.
-/

namespace Concurrency

open List Option

variable {Op : Type} {Res : Op → Type} {σ ι α V : Type} (mint spend : Ev Res → Option V)

/-- The value a program has drawn and not used, after one more exchange. -/
def pendingStep (p : Option V) (ev : Ev Res) : Option V :=
  match mint ev with
  | some v => some v
  | none => if (spend ev).isSome then none else p

/-- The value a program with this trace has drawn last and not used. -/
def pending (tr : List (Ev Res)) : Option V := tr.foldl (pendingStep mint spend) none

theorem pending_snoc (tr : List (Ev Res)) (ev : Ev Res) :
    pending mint spend (tr ++ [ev]) = pendingStep mint spend (pending mint spend tr) ev := by
  simp [pending]

variable {v : V}

/-- A pending value was drawn. -/
theorem mem_of_pending {tr : List (Ev Res)} (h : pending mint spend tr = some v) : ∃ ev ∈ tr, mint ev = some v := by
  induction tr using List.reverseRecOn with
  | nil => cases h
  | append_singleton tr ev ih =>
    rw [pending_snoc, pendingStep] at h
    cases hm : mint ev with
    | some w =>
      rw [hm] at h
      exact ⟨ev, mem_concat_self, hm.trans h⟩
    | none =>
      simp only [hm] at h
      split_ifs at h
      obtain ⟨ev', hev', hv⟩ := ih h
      exact ⟨ev', mem_append_left _ hev', hv⟩

variable (log : List (Entry σ Res))

/-- The values drawn in a history. -/
def minted : List V := log.filterMap fun e => mint e.ev

/-- The values used in a history. -/
def spent : List V := log.filterMap fun e => spend e.ev

theorem minted_snoc (e : Entry σ Res) : minted mint (log ++ [e]) = minted mint log ++ (mint e.ev).toList := by
  cases h : mint e.ev <;> simp [minted, h]

theorem spent_snoc (e : Entry σ Res) : spent spend (log ++ [e]) = spent spend log ++ (spend e.ev).toList := by
  cases h : spend e.ev <;> simp [spent, h]

/-- No value was used twice, every value used was drawn, and what a program has pending is its own and
unused. -/
structure FreshLog (log : List (Entry σ Res)) : Prop where
  /-- No value was used twice. -/
  nodup : (spent spend log).Nodup
  /-- Every value used was drawn. -/
  spent_minted : ∀ v ∈ spent spend log, v ∈ minted mint log
  /-- A pending value was drawn. -/
  pending_minted : ∀ tid v, pending mint spend (localTrace tid log) = some v → v ∈ minted mint log
  /-- A pending value is unused. -/
  pending_unspent : ∀ tid v, pending mint spend (localTrace tid log) = some v → v ∉ spent spend log
  /-- A pending value is one program's. -/
  pending_unique : ∀ tid tid' v, pending mint spend (localTrace tid log) = some v →
    pending mint spend (localTrace tid' log) = some v → tid = tid'

variable {mint spend}

theorem FreshLog.nil : FreshLog mint spend ([] : List (Entry σ Res)) where
  nodup := nodup_nil
  spent_minted := by simp [spent]
  pending_minted := by simp [pending]
  pending_unspent := by simp [pending]
  pending_unique := by simp [pending]

variable {log : List (Entry σ Res)} {e e' : Entry σ Res} {M : Machine σ ι Res} {st₀ : σ} {progs : ℕ → Prog Res α}
  {cfg : Config σ Res α} {I : ℕ → List (Ev Res) → Op → Prop} {Q : ℕ → List (Ev Res) → α → Prop}

/-- What is pending after one more entry was drawn by it, or was pending before and is not what the
entry used. -/
theorem pending_of_snoc {tid : ℕ} (h : pending mint spend (localTrace tid (log ++ [e])) = some v) :
    (e.tid = tid ∧ mint e.ev = some v) ∨
      (pending mint spend (localTrace tid log) = some v ∧ (e.tid = tid → spend e.ev = none)) := by
  by_cases ht : e.tid = tid
  · subst ht
    rw [localTrace_snoc_self, pending_snoc, pendingStep] at h
    cases hm : mint e.ev with
    | some w =>
      rw [hm] at h
      exact .inl ⟨rfl, h⟩
    | none =>
      simp only [hm] at h
      split_ifs at h with hs
      exact .inr ⟨h, fun _ => by simpa using hs⟩
  · rw [localTrace_snoc_of_ne _ ht] at h
    exact .inr ⟨h, fun he => absurd he ht⟩

/-- One more exchange keeps a history fresh, if what it drew is new and what it used was pending. -/
theorem FreshLog.snoc (h : FreshLog mint spend log) (hm : ∀ v, mint e.ev = some v → v ∉ minted mint log)
    (hs : ∀ v, spend e.ev = some v → pending mint spend (localTrace e.tid log) = some v) :
    FreshLog mint spend (log ++ [e]) := by
  have hmint : ∀ v, v ∈ minted mint (log ++ [e]) ↔ v ∈ minted mint log ∨ mint e.ev = some v := by
    intro v
    rw [minted_snoc, mem_append, mem_toList]
  have hspend : ∀ v, v ∈ spent spend (log ++ [e]) ↔ v ∈ spent spend log ∨ spend e.ev = some v := by
    intro v
    rw [spent_snoc, mem_append, mem_toList]
  -- What the entry used was pending for its program, so it is drawn, unused and nobody else's.
  have hown : ∀ v, spend e.ev = some v → v ∈ minted mint log ∧ v ∉ spent spend log :=
    fun v hv => ⟨h.pending_minted _ _ (hs v hv), h.pending_unspent _ _ (hs v hv)⟩
  constructor
  · rw [spent_snoc, nodup_append]
    refine ⟨h.nodup, by cases spend e.ev <;> simp, ?_⟩
    rintro v hv w hw rfl
    exact (hown v (mem_toList.mp hw)).2 hv
  · intro v hv
    rcases (hspend v).mp hv with hv | hv
    · exact (hmint v).mpr (.inl (h.spent_minted v hv))
    · exact (hmint v).mpr (.inl (hown v hv).1)
  · intro tid v hv
    rcases pending_of_snoc hv with ⟨-, hv⟩ | ⟨hv, -⟩
    · exact (hmint v).mpr (.inr hv)
    · exact (hmint v).mpr (.inl (h.pending_minted tid v hv))
  · intro tid v hv hsv
    rcases (hspend v).mp hsv with hsv | hsv
    · rcases pending_of_snoc hv with ⟨-, hv⟩ | ⟨hv, -⟩
      · exact hm v hv (h.spent_minted v hsv)
      · exact h.pending_unspent tid v hv hsv
    · rcases pending_of_snoc hv with ⟨-, hv⟩ | ⟨hv, hne⟩
      · exact hm v hv (hown v hsv).1
      · have := hne (h.pending_unique _ _ v (hs v hsv) hv)
        rw [hsv] at this
        cases this
  · intro tid tid' v hv hv'
    rcases pending_of_snoc hv with ⟨ht, hn⟩ | ⟨hp, -⟩ <;>
      rcases pending_of_snoc hv' with ⟨ht', hn'⟩ | ⟨hp', -⟩
    · exact ht.symm.trans ht'
    · exact absurd (h.pending_minted _ _ hp') (hm v hn)
    · exact absurd (h.pending_minted _ _ hp) (hm v hn')
    · exact h.pending_unique tid tid' v hp hp'

/-- Where nothing stands twice, what stands before some point does not stand after it. -/
theorem disjoint_of_nodup {l₁ l₂ : List (Entry σ Res)} {f : Entry σ Res → Option V}
    (hn : ((l₁ ++ l₂).filterMap f).Nodup) (he : e ∈ l₁) (he' : e' ∈ l₂) (hv : f e = some v) : f e' ≠ some v := by
  intro hv'
  rw [filterMap_append, nodup_append] at hn
  exact hn.2.2 v (mem_filterMap.mpr ⟨e, he, hv⟩) v (mem_filterMap.mpr ⟨e', he', hv'⟩) rfl

theorem eq_of_nodup {f : Entry σ Res → Option V} (hn : (log.filterMap f).Nodup) (he : e ∈ log) (he' : e' ∈ log)
    (hv : f e = some v) (hv' : f e' = some v) : e = e' := by
  rcases eq_or_before he he' with heq | ⟨l₁, l₂, rfl, hb⟩ | ⟨l₁, l₂, rfl, hb⟩
  · exact heq
  · exact absurd hv (disjoint_of_nodup hn hb mem_cons_self hv')
  · exact absurd hv' (disjoint_of_nodup hn hb mem_cons_self hv)

/-- In a fresh history a value identifies the entry that used it. -/
theorem FreshLog.eq_of_spend (h : FreshLog mint spend log) (he : e ∈ log) (he' : e' ∈ log)
    (hv : spend e.ev = some v) (hv' : spend e'.ev = some v) : e = e' :=
  eq_of_nodup (f := fun e => spend e.ev) h.nodup he he' hv hv'

/-- In a fresh history a value used before some point is not used after it. -/
theorem FreshLog.not_spent_again {l₁ l₂ : List (Entry σ Res)} (h : FreshLog mint spend (l₁ ++ l₂)) (he : e ∈ l₁)
    (he' : e' ∈ l₂) (hv : spend e.ev = some v) : spend e'.ev ≠ some v :=
  disjoint_of_nodup (f := fun e => spend e.ev) h.nodup he he' hv

/-- In a fresh history a value is used at most once. -/
theorem FreshLog.countP_le_one (h : FreshLog mint spend log) {p : Entry σ Res → Bool}
    (hp : ∀ e, p e = true → spend e.ev = some v) : log.countP p ≤ 1 := by
  refine Concurrency.countP_le_one fun l₁ e l₂ hl he e' he' => ?_
  rw [← Bool.not_eq_true]
  intro hpe'
  rw [hl] at h
  exact h.not_spent_again he' mem_cons_self (hp e' hpe') (hp e he)

/-- The history of a run is fresh, if nothing was drawn twice in it and every program uses only what it has
pending. -/
theorem reach_freshLog_of_nodup
    (hspend : ∀ tid tr c r v, I tid tr c → spend ⟨c, r⟩ = some v → pending mint spend tr = some v)
    (hw : ∀ tid, Wp (I tid) (Q tid) [] (progs tid)) (h : Reach M (start st₀ progs) cfg)
    (hn : (minted mint cfg.log).Nodup) : FreshLog mint spend cfg.log := by
  refine reach_invariant (fun _ log => (minted mint log).Nodup → FreshLog mint spend log) (fun _ => .nil) ?_
    (fun _ _ _ h => h) h hn
  intro c d e hc ih hm hnodup
  rw [minted_snoc, nodup_append] at hnodup
  refine (ih hnodup.1).snoc (fun v hv hmem => ?_) fun v hv => ?_
  · exact hnodup.2.2 v hmem v (mem_toList.mpr hv) rfl
  · have hd : Reach M (start st₀ progs) d := hc.tail (.by e.tid hm.step)
    exact hspend e.tid _ e.op e.res v (reach_issues hw hd hm.log₂) hv

/-- A source that does not repeat itself draws nothing twice. -/
theorem reach_minted_nodup (hsource : ∀ log e v, M.admits log e = true → mint e.ev = some v → v ∉ minted mint log)
    (h : Reach M (start st₀ progs) cfg) : (minted mint cfg.log).Nodup := by
  refine reach_invariant (fun _ log => (minted mint log).Nodup) nodup_nil ?_ (fun _ _ _ h => h) h
  intro c d e hc ih hm
  rw [minted_snoc, nodup_append]
  refine ⟨ih, by cases mint e.ev <;> simp, ?_⟩
  rintro v hv w hw rfl
  exact hsource _ _ v hm.admits (mem_toList.mp hw) hv

/-- A value is drawn once, if the source does not repeat itself. -/
theorem reach_mint_unique (hsource : ∀ log e v, M.admits log e = true → mint e.ev = some v → v ∉ minted mint log)
    (h : Reach M (start st₀ progs) cfg) (he : e ∈ cfg.log) (he' : e' ∈ cfg.log) (hv : mint e.ev = some v)
    (hv' : mint e'.ev = some v) : e = e' :=
  eq_of_nodup (f := fun e => mint e.ev) (reach_minted_nodup hsource h) he he' hv hv'

/-- The history of every run is fresh, if the source does not repeat itself and every program uses only
what it has pending. -/
theorem reach_freshLog (hsource : ∀ log e v, M.admits log e = true → mint e.ev = some v → v ∉ minted mint log)
    (hspend : ∀ tid tr c r v, I tid tr c → spend ⟨c, r⟩ = some v → pending mint spend tr = some v)
    (hw : ∀ tid, Wp (I tid) (Q tid) [] (progs tid)) (h : Reach M (start st₀ progs) cfg) : FreshLog mint spend cfg.log :=
  reach_freshLog_of_nodup hspend hw h (reach_minted_nodup hsource h)

end Concurrency
