import BymaxAuth.Lib.Interleaving

/-!
# A machine beside another

A machine is extended by a second family of commands with a state of its own. The new commands may read and
write both states; the old ones go on as before and leave the new state alone. So a program of the first
machine is one of the extended machine (`lift`), and what the new commands' state satisfies has to be
checked for the new commands only.
-/

namespace Concurrency

open List

variable {Op Op' : Type} {Res : Op → Type} {Res' : Op' → Type} {σ τ ι α ε : Type}

/-- The replies of two families of commands. -/
abbrev Beside (Res : Op → Type) (Res' : Op' → Type) : Op ⊕ Op' → Type
  | .inl c => Res c
  | .inr c => Res' c

/-- A program of the first family, as one of both. -/
def Prog.left : Prog Res α → Prog (Beside Res Res') α
  | .ret a => .ret a
  | .op c k => .op (.inl c) fun r => (k r).left

/-- The same for a program that may fail. -/
def lift (x : ExceptT ε (Prog Res) α) : ExceptT ε (Prog (Beside Res Res')) α := ExceptT.mk x.run.left

/-- An entry of the first family, as the first machine sees it. -/
def Entry.left : Entry (σ × τ) (Beside Res Res') → Option (Entry σ Res)
  | ⟨tid, pre, .inl c, r⟩ => some ⟨tid, pre.1, c, r⟩
  | ⟨_, _, .inr _, _⟩ => none

/-- `M` with a second family of commands. -/
def Machine.beside (M : Machine σ ι Res) (exec : σ × τ → (c : Op') → ι → Res' c × (σ × τ))
    (admits : List (Entry (σ × τ) (Beside Res Res')) → Entry (σ × τ) (Beside Res Res') → Bool) :
    Machine (σ × τ) ι (Beside Res Res') where
  exec st
    | .inl c, i => ((M.exec st.1 c i).1, (M.exec st.1 c i).2, st.2)
    | .inr c, i => exec st c i
  pass st i := (M.pass st.1 i, st.2)
  admits log e := (e.left.all fun e' => M.admits (log.filterMap Entry.left) e') && admits log e

section Moments

variable {M : Machine σ ι Res} {exec : σ × τ → (c : Op') → ι → Res' c × (σ × τ)}
  {admits : List (Entry (σ × τ) (Beside Res Res')) → Entry (σ × τ) (Beside Res Res') → Bool}
  {l : List (Entry (σ × τ) (Beside Res Res'))} {c d : Config (σ × τ) (Beside Res Res') α} {tid : ℕ}
  {pre : σ × τ}

/-- A command of the first family acts on the first state, as before. -/
theorem moment_left {cmd : Op} {r : Res cmd} (hm : Moment (M.beside exec admits) l ⟨tid, pre, .inl cmd, r⟩ c d) :
    (∃ i, M.exec pre.1 cmd i = (r, d.st.1)) ∧ d.st.2 = pre.2 := by
  obtain ⟨i, hi⟩ := hm.exec
  simp only [Machine.beside, Prod.mk.injEq] at hi
  obtain ⟨hr, hst⟩ := hi
  exact ⟨⟨i, by rw [← hr, ← hst]⟩, by rw [← hst]⟩

/-- A command of the second family does what it was given to do. -/
theorem moment_right {cmd : Op'} {r : Res' cmd}
    (hm : Moment (M.beside exec admits) l ⟨tid, pre, .inr cmd, r⟩ c d) : ∃ i, exec pre cmd i = (r, d.st) :=
  hm.exec

end Moments

variable {I : List (Ev (Beside Res Res')) → Op ⊕ Op' → Prop} {Q : List (Ev (Beside Res Res')) → α → Prop}
  {tr : List (Ev (Beside Res Res'))} {x : ExceptT ε (Prog Res) α} {E : List (Ev (Beside Res Res')) → Prop}

/-- A lifted program needs only what its commands leave as it is. -/
theorem Triple.lift {P : Op → Prop} (hx : Only P x) (h : ∀ tr', (∀ ev ∈ tr', ∃ c, P c ∧ ev.op = .inl c) →
      (∀ c, P c → I (tr ++ tr') (.inl c)) ∧ (∀ a, Q (tr ++ tr') a) ∧ E (tr ++ tr')) : Triple I Q E tr (lift x) := by
  have key : ∀ {R : List (Ev (Beside Res Res')) → Except ε α → Prop},
      (∀ tr' r, (∀ ev ∈ tr', ∃ c, P c ∧ ev.op = .inl c) → R (tr ++ tr') r) →
      ∀ (p : Prog Res (Except ε α)) (tr₀ : List (Ev Res)) (tr' : List (Ev (Beside Res Res'))),
        Wp (fun _ c => P c) (fun _ _ => True) tr₀ p → (∀ ev ∈ tr', ∃ c, P c ∧ ev.op = .inl c) →
        Wp I R (tr ++ tr') p.left := by
    intro R hR p
    induction p with
    | ret r => exact fun _ tr' _ htr => hR tr' r htr
    | op c k ih =>
      intro tr₀ tr' hp htr
      refine ⟨(h tr' htr).1 c hp.1, fun r => ?_⟩
      rw [append_assoc]
      refine ih r _ _ (hp.2 r) fun ev hev => ?_
      rcases mem_append.mp hev with hev | hev
      · exact htr ev hev
      · rw [mem_singleton.mp hev]
        exact ⟨c, hp.1, rfl⟩
  rw [← append_nil tr]
  refine key (fun tr' r htr => ?_) x.run [] [] (hx []) (forall_mem_nil _)
  cases r with
  | ok a => exact (h tr' htr).2.1 a
  | error e => exact (h tr' htr).2.2

/-- An exchange of the first family, as one of both. -/
def Ev.inl (ev : Ev Res) : Ev (Beside Res Res') := ⟨.inl ev.op, ev.res⟩

theorem Wp.left {tr₀ : List (Ev (Beside Res Res'))} {tr : List (Ev Res)} {p : Prog Res α}
    (h : Wp (fun tr c => I (tr₀ ++ tr.map Ev.inl) (.inl c)) (fun tr a => Q (tr₀ ++ tr.map Ev.inl) a) tr p) :
    Wp I Q (tr₀ ++ tr.map Ev.inl) p.left := by
  induction p generalizing tr with
  | ret a => exact h
  | op c k ih =>
    refine ⟨h.1, fun r => ?_⟩
    have := ih r (h.2 r)
    rwa [map_append, ← append_assoc] at this

/-- What holds of a program holds of the lifted one, whose trace is the program's. -/
theorem Triple.of_lift
    (h : Triple (fun tr' c => I (tr ++ tr'.map Ev.inl) (.inl c)) (fun tr' a => Q (tr ++ tr'.map Ev.inl) a)
      (fun tr' => E (tr ++ tr'.map Ev.inl)) [] x) : Triple I Q E tr (Concurrency.lift x) := by
  rw [← append_nil tr, ← map_nil (f := Ev.inl)]
  exact Wp.left (Wp.mono h (fun _ _ h => h) fun tr' r hr => by cases r <;> exact hr)

/-- The commands of a lifted program are those of the program. -/
theorem Only.lift {P : Op → Prop} {P' : Op ⊕ Op' → Prop} (hx : Only P x) (h : ∀ c, P c → P' (.inl c)) :
    Only P' (lift x : ExceptT ε (Prog (Beside Res Res')) α) := by
  intro tr
  have hlift : Triple (fun _ c => P' c) (fun _ _ => True) (fun _ => True) tr
      (Concurrency.lift x : ExceptT ε (Prog (Beside Res Res')) α) :=
    .lift hx fun _ _ => ⟨h, fun _ => trivial, trivial⟩
  exact Wp.mono hlift (fun _ _ h => h) fun _ _ _ => trivial

end Concurrency
