import Mathlib.Logic.Basic

/-! # Comparisons of sequences

A number compares two sequences by its sign, in the order of the dictionary.
-/

namespace FosKernel

/-- Zero for equal sequences, and negative when the first one comes before the other. -/
structure Compares [LT α] (result : Int) (first second : List α) : Prop where
  zero : result = 0 ↔ first = second
  negative : result < 0 ↔ first < second

namespace Compares

variable [LT α] {result : Int} {first second : List α} {left right : α}

theorem nil : Compares 0 ([] : List α) [] := ⟨by simp, by simp⟩

/-- Equal heads do not decide. -/
theorem cons [Std.Irrefl (fun left right : α => left < right)]
    (compares : Compares result first second) (head : α) :
    Compares result (head :: first) (head :: second) where
  zero := by
    rw [compares.zero]
    simp
  negative := by
    rw [compares.negative, List.cons_lt_cons_self]

/-- Different heads decide. -/
theorem heads (differ : left ≠ right) (zero : result ≠ 0) (negative : result < 0 ↔ left < right) :
    Compares result (left :: first) (right :: second) where
  zero := by simp [zero, differ]
  negative := by
    rw [negative, List.cons_lt_cons_iff]
    simp [differ]

/-- A sequence comes before the longer ones that begin with it. -/
theorem shorter (negative : result < 0) : Compares result ([] : List α) (right :: second) where
  zero := by
    simp
    omega
  negative := by simp [negative]

theorem longer (positive : 0 < result) : Compares result (left :: first) ([] : List α) where
  zero := by
    simp
    omega
  negative := by
    simp
    omega

end Compares

end FosKernel
