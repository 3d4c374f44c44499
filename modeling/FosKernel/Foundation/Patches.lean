import Mathlib.Data.List.Basic

/-! # Patches of a memory

Blocks of cells are written one after the other. A cell keeps what the last block that covers
it has put there.
-/

namespace FosKernel

/-- A block of cells and what is written to each of them. -/
structure Patch (α : Type) where
  start : Nat
  size : Nat
  value : Nat → α

namespace Patch

variable {α : Type}

def Covers (patch : Patch α) (address : Nat) : Prop :=
  patch.start ≤ address ∧ address < patch.start + patch.size

instance (patch : Patch α) (address : Nat) : Decidable (patch.Covers address) :=
  inferInstanceAs (Decidable (_ ∧ _))

def apply (patch : Patch α) (memory : Nat → α) : Nat → α := fun address =>
  if patch.Covers address then patch.value address else memory address

def applyAll (patches : List (Patch α)) (memory : Nat → α) : Nat → α :=
  patches.foldl (fun memory patch => patch.apply memory) memory

variable {patch : Patch α} {patches before after : List (Patch α)} {memory : Nat → α}
variable {address : Nat} {value : α}

@[simp] theorem applyAll_nil : applyAll [] memory = memory := rfl

@[simp] theorem applyAll_cons :
    applyAll (patch :: patches) memory = applyAll patches (patch.apply memory) := rfl

theorem apply_covered (covers : patch.Covers address) :
    patch.apply memory address = patch.value address := if_pos covers

theorem apply_uncovered (uncovered : ¬patch.Covers address) :
    patch.apply memory address = memory address := if_neg uncovered

/-- A block that does not cover the cell, or writes what is there, does not change it. -/
theorem apply_same (same : patch.Covers address → patch.value address = memory address) :
    patch.apply memory address = memory address := by
  by_cases covers : patch.Covers address
  · rw [apply_covered covers, same covers]
  · exact apply_uncovered covers

theorem applyAll_same
    (same : ∀ patch ∈ patches, patch.Covers address → patch.value address = memory address) :
    applyAll patches memory address = memory address := by
  induction patches generalizing memory with
  | nil => rfl
  | cons patch patches induction =>
      have first := apply_same (same patch List.mem_cons_self)
      rw [applyAll_cons, induction, first]
      intro other member covers
      rw [first]
      exact same other (List.mem_cons_of_mem _ member) covers

theorem applyAll_outside (outside : ∀ patch ∈ patches, ¬patch.Covers address) :
    applyAll patches memory address = memory address :=
  applyAll_same fun patch member covers => absurd covers (outside patch member)

/-- What a block wrote stays where the later blocks write the same. -/
theorem applyAll_written (covers : patch.Covers address)
    (same : ∀ later ∈ after, later.Covers address → later.value address = patch.value address) :
    applyAll (before ++ patch :: after) memory address = patch.value address := by
  induction before generalizing memory with
  | nil =>
      rw [List.nil_append, applyAll_cons, applyAll_same, apply_covered covers]
      rw [apply_covered covers]
      exact same
  | cons first before induction => exact induction

end Patch

end FosKernel
