import Mathlib.Data.List.Basic

/-!
# Texts made of fields

When can the fields of a text be read back from it? A field without the separator ends at the first one, or
begins after the last one; a field that may hold the separator can be announced by its length in bytes.
-/

namespace Framing

open List

variable {a b x y : String} {sep : Char}

/-- Two texts that begin with fields of one byte length begin with the same field. -/
theorem append_inj_of_size (hsize : a.utf8ByteSize = b.utf8ByteSize) (h : a ++ x = b ++ y) : a = b ∧ x = y := by
  have hbytes : a.toByteArray ++ x.toByteArray = b.toByteArray ++ y.toByteArray := by
    rw [← String.toByteArray_append, ← String.toByteArray_append, h]
  have hdata := congrArg ByteArray.data hbytes
  rw [ByteArray.data_append, ByteArray.data_append] at hdata
  obtain ⟨hab, hxy⟩ := Array.append_inj hdata hsize
  exact ⟨String.toByteArray_inj.mp (ByteArray.ext hab), String.toByteArray_inj.mp (ByteArray.ext hxy)⟩

/-- A text that begins with a given one determines the rest. -/
theorem append_left_inj (h : a ++ x = a ++ y) : x = y := (append_inj_of_size rfl h).2

/-- Two texts whose first fields begin with different characters differ. -/
theorem append_ne_of_head (h : a.toList.head? ≠ b.toList.head?) (ha : a ≠ "") (hb : b ≠ "") : a ++ x ≠ b ++ y := by
  intro heq
  have hl := congrArg (fun s : String => s.toList.head?) heq
  obtain ⟨c, l, hc⟩ := exists_cons_of_ne_nil (mt String.toList_eq_nil_iff.mp ha)
  obtain ⟨d, m, hd⟩ := exists_cons_of_ne_nil (mt String.toList_eq_nil_iff.mp hb)
  simp only [String.toList_append, hc, hd, cons_append, List.head?_cons] at hl h
  exact h hl

/-- What stands before the first separator. -/
theorem split_first {l₁ l₂ r₁ r₂ : List Char} (h₁ : sep ∉ l₁) (h₂ : sep ∉ l₂)
    (h : l₁ ++ sep :: r₁ = l₂ ++ sep :: r₂) : l₁ = l₂ ∧ r₁ = r₂ := by
  obtain ⟨m, hl, hr⟩ | ⟨m, hl, hr⟩ := append_eq_append_iff.mp h
  · cases m with
    | nil => simp_all
    | cons c m =>
      obtain ⟨rfl, -⟩ := List.cons.inj hr
      exact absurd (by simp [hl]) h₂
  · cases m with
    | nil => simp_all
    | cons c m =>
      obtain ⟨rfl, -⟩ := List.cons.inj hr
      exact absurd (by simp [hl]) h₁

theorem toList_field (a x : String) : (a ++ String.singleton sep ++ x).toList = a.toList ++ sep :: x.toList := by
  simp

/-- A field without the separator ends at the first one. -/
theorem first_field_inj (ha : sep ∉ a.toList) (hb : sep ∉ b.toList)
    (h : a ++ String.singleton sep ++ x = b ++ String.singleton sep ++ y) : a = b ∧ x = y := by
  have hl := congrArg String.toList h
  rw [toList_field, toList_field] at hl
  obtain ⟨hab, hxy⟩ := split_first ha hb hl
  exact ⟨String.toList_inj.mp hab, String.toList_inj.mp hxy⟩

/-- A field without the separator begins after the last one. -/
theorem last_field_inj (hx : sep ∉ x.toList) (hy : sep ∉ y.toList)
    (h : a ++ String.singleton sep ++ x = b ++ String.singleton sep ++ y) : a = b ∧ x = y := by
  have hl := congrArg (fun s : String => s.toList.reverse) h
  simp only [toList_field, reverse_append, reverse_cons, append_assoc, singleton_append] at hl
  obtain ⟨hxy, hab⟩ := split_first (by simpa using hx) (by simpa using hy) hl
  exact ⟨String.toList_inj.mp (reverse_inj.mp hab), String.toList_inj.mp (reverse_inj.mp hxy)⟩

/-! ### Lengths in decimal -/

theorem digit_of_mem_toString {n : ℕ} {c : Char} (h : c ∈ (toString n).toList) : c.isDigit = true := by
  rw [Nat.toString_eq_repr, Nat.toList_repr] at h
  exact Nat.isDigit_of_mem_toDigits (by decide) (by decide) h

theorem toString_inj {m n : ℕ} (h : toString m = toString n) : m = n := by
  rw [Nat.toString_eq_repr, Nat.toString_eq_repr, ← String.toList_inj, Nat.toList_repr, Nat.toList_repr] at h
  rw [← @Nat.ofDigitChars_ten_toDigits m, h, Nat.ofDigitChars_ten_toDigits]

/-- A field with its length in bytes before it. -/
def counted (sep : Char) (text rest : String) : String :=
  toString text.utf8ByteSize ++ String.singleton sep ++ (text ++ String.singleton sep ++ rest)

/-- A field with its length before it can be split off, whatever it holds. -/
theorem counted_inj (hsep : sep.isDigit = false) (h : counted sep a x = counted sep b y) : a = b ∧ x = y := by
  have hfree (n : ℕ) : sep ∉ (toString n).toList := fun hm => by
    rw [digit_of_mem_toString hm] at hsep
    cases hsep
  obtain ⟨hsize, hrest⟩ := first_field_inj (hfree _) (hfree _) h
  rw [String.append_assoc, String.append_assoc] at hrest
  obtain ⟨hab, hxy⟩ := append_inj_of_size (toString_inj hsize) hrest
  exact ⟨hab, append_left_inj hxy⟩

theorem counted_ne_empty (a x : String) : counted sep a x ≠ "" := by
  intro h
  have := congrArg String.toList h
  simp [counted] at this

end Framing
