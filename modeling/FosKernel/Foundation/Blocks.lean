import Mathlib.Data.List.Basic

/-! # Lists in blocks

A list is cut into blocks of one size. The last block is shorter, and may be empty.
-/

namespace FosKernel.Blocks

variable {α : Type} {size : Nat}

def cut (size : Nat) (items : List α) : List (List α) :=
  if 0 < size ∧ size ≤ items.length then items.take size :: cut size (items.drop size)
  else [items]
termination_by items.length
decreasing_by
  rw [List.length_drop]
  omega

theorem cut_short {items : List α} (short : items.length < size) : cut size items = [items] := by
  rw [cut, if_neg (by omega)]

theorem cut_block {block items : List α} (filled : block.length = size) (positive : 0 < size) :
    cut size (block ++ items) = block :: cut size items := by
  rw [cut, if_pos ⟨positive, by rw [List.length_append]; omega⟩, List.take_left' filled,
    List.drop_left' filled]

/-- Full blocks with a shorter one behind them are the blocks of the list that they make. -/
theorem cut_flatten {full : List (List α)} {rest : List α}
    (filled : ∀ block ∈ full, block.length = size) (short : rest.length < size) :
    cut size (full.flatten ++ rest) = full ++ [rest] := by
  induction full with
  | nil => exact cut_short short
  | cons block full induction =>
      rw [List.flatten_cons, List.append_assoc, cut_block (filled block List.mem_cons_self)
        (Nat.zero_lt_of_lt short)]
      apply congrArg (block :: ·)
      exact induction fun other member => filled other (List.mem_cons_of_mem block member)

end FosKernel.Blocks
