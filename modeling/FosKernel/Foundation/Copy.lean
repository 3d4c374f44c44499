import Mathlib.Logic.Function.Basic

/-! # Copies within a memory

A block of cells is copied one cell at a time, in the order of the addresses or against it.
Where the two ranges overlap the order decides whether the block arrives as it was.
-/

namespace FosKernel

/-- The loop from the first cell on. -/
def copyUp (memory : Nat → α) (dst src : Nat) : Nat → Nat → α
  | 0 => memory
  | count + 1 =>
      copyUp (Function.update memory dst (memory src)) (dst + 1) (src + 1) count

/-- The loop from the last cell on. -/
def copyDown (memory : Nat → α) (dst src : Nat) : Nat → Nat → α
  | 0 => memory
  | count + 1 =>
      copyDown (Function.update memory (dst + count) (memory (src + count))) dst src count

/-- The memory with a block as it was, at its new place. -/
def moved (memory : Nat → α) (dst src count : Nat) : Nat → α := fun address =>
  if dst ≤ address ∧ address < dst + count then memory (src + (address - dst))
  else memory address

/-- The memory with the cells from `src` to `dst` over and over from `dst` on. -/
def repeated (memory : Nat → α) (dst src count : Nat) : Nat → α := fun address =>
  if dst ≤ address ∧ address < dst + count then
    memory (src + (address - dst) % (dst - src))
  else memory address

section Copy

variable (memory : Nat → α) (dst src : Nat)

/-- The loop by its last step. -/
theorem copyUp_succ (count : Nat) :
    copyUp memory dst src (count + 1) =
      Function.update (copyUp memory dst src count) (dst + count)
        (copyUp memory dst src count (src + count)) := by
  induction count generalizing memory dst src with
  | zero => rfl
  | succ count induction =>
      rw [copyUp, induction]
      simp only [copyUp, Nat.add_assoc, Nat.add_comm 1]

variable {memory dst src}

theorem copyUp_eq_moved {count : Nat} (order : dst ≤ src ∨ src + count ≤ dst) :
    copyUp memory dst src count = moved memory dst src count := by
  induction count with
  | zero =>
      funext address
      simp only [copyUp, moved]
      rw [if_neg (by omega)]
  | succ count induction =>
      rw [copyUp_succ, induction (by omega)]
      funext address
      by_cases last : address = dst + count
      · subst last
        simp only [Function.update_self, moved]
        rw [if_neg (by omega), if_pos (by omega), Nat.add_sub_cancel_left]
      · rw [Function.update_of_ne last]
        simp only [moved]
        congr 1
        exact propext (by omega)

theorem copyDown_eq_moved {count : Nat} (order : src ≤ dst ∨ dst + count ≤ src) :
    copyDown memory dst src count = moved memory dst src count := by
  induction count generalizing memory with
  | zero =>
      funext address
      simp only [copyDown, moved]
      rw [if_neg (by omega)]
  | succ count induction =>
      rw [copyDown, induction (by omega)]
      funext address
      simp only [moved]
      by_cases last : address = dst + count
      · subst last
        rw [if_neg (by omega), Function.update_self, if_pos (by omega), Nat.add_sub_cancel_left]
      · by_cases inside : dst ≤ address ∧ address < dst + count
        · rw [if_pos inside, if_pos (by omega), Function.update_of_ne (by omega)]
        · rw [if_neg inside, if_neg (by omega), Function.update_of_ne last]

theorem copyUp_eq_repeated (before : src < dst) (count : Nat) :
    copyUp memory dst src count = repeated memory dst src count := by
  induction count with
  | zero =>
      funext address
      rw [copyUp, repeated, if_neg (by omega)]
  | succ count induction =>
      have copied : repeated memory dst src count (src + count) =
          memory (src + count % (dst - src)) := by
        unfold repeated
        by_cases inside : dst ≤ src + count
        · rw [if_pos (by omega), show src + count - dst = count - (dst - src) by omega,
            ← Nat.mod_eq_sub_mod (by omega)]
        · rw [if_neg (by omega), Nat.mod_eq_of_lt (by omega)]
      rw [copyUp_succ, induction, copied]
      funext address
      by_cases last : address = dst + count
      · subst last
        rw [Function.update_self, repeated, if_pos (by omega), Nat.add_sub_cancel_left]
      · rw [Function.update_of_ne last]
        simp only [repeated]
        congr 1
        exact propext (by omega)

/-- Both loops leave the cells outside the new place alone. -/
theorem moved_outside {count address : Nat} (outside : address < dst ∨ dst + count ≤ address) :
    moved memory dst src count address = memory address :=
  if_neg (by omega)

theorem moved_inside {count step : Nat} (inside : step < count) :
    moved memory dst src count (dst + step) = memory (src + step) := by
  rw [moved, if_pos (by omega), Nat.add_sub_cancel_left]

end Copy

end FosKernel
