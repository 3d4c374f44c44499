import Mathlib.Data.Finset.Image
import Mathlib.Data.Nat.Find
import Mathlib.Data.Nat.ModEq

/-! # Slots in a cycle

A hand goes round `size` slots. The slots are taken in the order in which the hand
meets them, beginning with the one it points to.
-/

namespace FosKernel

/-- The slot that the hand reaches after a number of steps. -/
def ahead (size hand steps : Nat) : Nat := (hand + steps) % size

/-- The slots that the hand leaves behind in a number of steps. -/
def passed (size hand steps : Nat) : Finset Nat :=
  (Finset.range steps).image (ahead size hand)

/-- The first slot with a property is the one after `steps`. -/
structure FirstAhead (size hand : Nat) (good : Nat → Prop) (steps : Nat) : Prop where
  inside : steps < size
  met : good (ahead size hand steps)
  before : ∀ earlier < steps, ¬good (ahead size hand earlier)

section Cycle

variable {size hand steps : Nat}

theorem ahead_zero (bound : hand < size) : ahead size hand 0 = hand :=
  Nat.mod_eq_of_lt bound

theorem ahead_lt (bound : hand < size) : ahead size hand steps < size :=
  Nat.mod_lt _ (by omega)

theorem ahead_size (bound : hand < size) : ahead size hand size = hand := by
  simp [ahead, Nat.mod_eq_of_lt bound]

theorem ahead_succ :
    ahead size hand (steps + 1) = (ahead size hand steps + 1) % size := by
  simp [ahead, Nat.add_assoc]

theorem ahead_injective {left right : Nat} (leftInside : left < size)
    (rightInside : right < size) (equal : ahead size hand left = ahead size hand right) :
    left = right := by
  have same : Nat.ModEq size left right := Nat.ModEq.add_left_cancel' hand equal
  exact Nat.ModEq.eq_of_lt_of_lt same leftInside rightInside

theorem exists_ahead {slot : Nat} (bound : hand < size) (inside : slot < size) :
    ∃ steps < size, ahead size hand steps = slot := by
  by_cases above : hand ≤ slot
  · refine ⟨slot - hand, by omega, ?_⟩
    rw [ahead, Nat.add_sub_of_le above, Nat.mod_eq_of_lt inside]
  · refine ⟨slot + size - hand, by omega, ?_⟩
    rw [ahead, Nat.add_sub_of_le (by omega), Nat.add_mod_right, Nat.mod_eq_of_lt inside]

theorem passed_zero : passed size hand 0 = ∅ := rfl

theorem passed_succ :
    passed size hand (steps + 1) = insert (ahead size hand steps) (passed size hand steps) := by
  simp [passed, Finset.range_add_one]

theorem passed_size (bound : hand < size) : passed size hand size = Finset.range size := by
  ext slot
  simp only [passed, Finset.mem_image, Finset.mem_range]
  constructor
  · rintro ⟨steps, -, rfl⟩
    exact ahead_lt bound
  · intro inside
    exact exists_ahead bound inside

/-- The hand does not meet a slot twice in one round. -/
theorem ahead_notMem_passed (inside : steps < size) :
    ahead size hand steps ∉ passed size hand steps := by
  simp only [passed, Finset.mem_image, Finset.mem_range, not_exists, not_and]
  intro earlier below equal
  have := ahead_injective (by omega) inside equal
  omega

/-- Either some slot has the property, and then there is a first one, or none has. -/
theorem firstAhead_or (bound : hand < size) (good : Nat → Prop) :
    (∃ steps, FirstAhead size hand good steps) ∨ ∀ slot < size, ¬good slot := by
  classical
  by_cases found : ∃ steps, steps < size ∧ good (ahead size hand steps)
  · refine .inl ⟨Nat.find found, (Nat.find_spec found).1, (Nat.find_spec found).2, ?_⟩
    intro earlier below holds
    have inside := (Nat.find_spec found).1
    exact Nat.find_min found below ⟨by omega, holds⟩
  · right
    intro slot inside holds
    rcases exists_ahead bound inside with ⟨steps, within, rfl⟩
    exact found ⟨steps, within, holds⟩

end Cycle

end FosKernel
