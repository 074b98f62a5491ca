import Mathlib.Data.List.Basic

/-!
# Two machines on the same requests

Two machines answer one sequence of requests, each from a state of its own. As long as the answers agree a relation
between the states is kept; the first answers that differ end that. So if for related states it is known exactly when
the next answers agree (`meets`), it is known exactly for which sequences all of them do.
-/

namespace Lockstep

variable {S S' Q O : Type}

/-- The answers to a sequence of requests. -/
def outcomes (step : S → Q → O × S) : S → List Q → List O
  | _, [] => []
  | s, q :: qs => (step s q).1 :: outcomes step (step s q).2 qs

variable (step : S → Q → O × S) (step' : S' → Q → O × S')

/-- Every request satisfies `p` in the states in which the two machines get it. -/
def along (p : S → S' → Q → Bool) : S → S' → List Q → Bool
  | _, _, [] => true
  | s, s', q :: qs => p s s' q && along p (step s q).2 (step' s' q).2 qs

variable {step step'}

/-- If related states give the same answer to a request exactly when it meets a condition, and are related
afterwards if it does, then the answers to a sequence are the same exactly when every request meets it. The relation
may depend on the requests so far, and what is `Valid` of one on those before it. -/
theorem outcomes_eq_iff (Rel : List Q → S → S' → Prop) (Valid : List Q → Q → Prop) {adm meets : S → S' → Q → Bool}
    (hagree : ∀ {past s s' q}, Rel past s s' → Valid past q → adm s s' q = true →
      ((step s q).1 = (step' s' q).1 ↔ meets s s' q = true))
    (hkeep : ∀ {past s s' q}, Rel past s s' → Valid past q → adm s s' q = true → meets s s' q = true →
      Rel (past ++ [q]) (step s q).2 (step' s' q).2)
    {past qs : List Q} {s : S} {s' : S'} (hrel : Rel past s s')
    (hvalid : ∀ l₁ q l₂, qs = l₁ ++ q :: l₂ → Valid (past ++ l₁) q) (hadm : along step step' adm s s' qs = true) :
    outcomes step s qs = outcomes step' s' qs ↔ along step step' meets s s' qs = true := by
  induction qs generalizing past s s' with
  | nil => exact iff_of_true rfl rfl
  | cons q qs ih =>
    rw [along, Bool.and_eq_true] at hadm
    have hq : Valid past q := by simpa using hvalid [] q qs rfl
    rw [outcomes, outcomes, List.cons.injEq, along, Bool.and_eq_true, hagree hrel hq hadm.1]
    refine and_congr_right fun hmeets => ih (hkeep hrel hq hadm.1 hmeets) (fun l₁ x l₂ hl => ?_) hadm.2
    have := hvalid (q :: l₁) x l₂ (by rw [hl]; rfl)
    rwa [List.append_assoc]

end Lockstep
