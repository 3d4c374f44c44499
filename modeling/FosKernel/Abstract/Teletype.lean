import Mathlib.Logic.Function.Basic
import Mathlib.Tactic.SplitIfs

/-! # Teletypes

Paper without an end, of which a window of some rows is in view. The position never leaves the
window: below its last row the window moves on by a row, and above its first row nothing moves.
-/

namespace FosKernel

structure Teletype (α : Type) where
  paper : Nat → α
  top : Nat
  position : Nat

namespace Teletype

variable {α : Type} (rows cols : Nat) (blank : α)

/-- The cell of the window at a position. -/
def shown (teletype : Teletype α) (index : Nat) : α :=
  teletype.paper (cols * teletype.top + index)

structure InView (teletype : Teletype α) : Prop where
  above : cols * teletype.top ≤ teletype.position
  below : teletype.position < cols * (teletype.top + rows)

/-- A blank row comes into view when the position is below the window. -/
def feed (teletype : Teletype α) : Teletype α :=
  if cols * (teletype.top + rows) ≤ teletype.position then
    { teletype with
      paper := fun index =>
        if cols * (teletype.top + rows) ≤ index ∧ index < cols * (teletype.top + rows + 1) then
          blank
        else teletype.paper index
      top := teletype.top + 1 }
  else teletype

def forward (teletype : Teletype α) : Teletype α :=
  feed rows cols blank { teletype with position := teletype.position + 1 }

def write (cell : α) (teletype : Teletype α) : Teletype α :=
  forward rows cols blank
    { teletype with paper := Function.update teletype.paper teletype.position cell }

def newLine (teletype : Teletype α) : Teletype α :=
  feed rows cols blank { teletype with position := cols * (teletype.position / cols + 1) }

def startOfLine (teletype : Teletype α) : Teletype α :=
  { teletype with position := cols * (teletype.position / cols) }

def back (teletype : Teletype α) : Teletype α :=
  if cols * teletype.top < teletype.position then
    { teletype with position := teletype.position - 1 }
  else teletype

/-- Go back and overwrite the cell there. -/
def erase (cell : α) (teletype : Teletype α) : Teletype α :=
  if cols * teletype.top < teletype.position then
    { teletype with
      paper := Function.update teletype.paper (teletype.position - 1) cell
      position := teletype.position - 1 }
  else teletype

/-- Write cells one after the other. -/
def writeAll (cells : List α) (teletype : Teletype α) : Teletype α :=
  cells.foldl (fun teletype cell => write rows cols blank cell teletype) teletype

section Rules

variable {rows cols} {blank} {teletype : Teletype α}

theorem feed_inView (positive : 0 < rows)
    (above : cols * teletype.top ≤ teletype.position)
    (below : teletype.position < cols * (teletype.top + rows + 1)) :
    InView rows cols (feed rows cols blank teletype) := by
  unfold feed
  split_ifs with full
  · refine ⟨?_, ?_⟩
    · have : cols * (teletype.top + 1) ≤ cols * (teletype.top + rows) :=
        Nat.mul_le_mul_left _ (by omega)
      exact Nat.le_trans this full
    · rwa [show teletype.top + 1 + rows = teletype.top + rows + 1 by omega]
  · exact ⟨above, by omega⟩

/-- What was written above the last position stays on the paper. -/
theorem feed_paper {index : Nat} (above : index < cols * (teletype.top + rows)) :
    (feed rows cols blank teletype).paper index = teletype.paper index := by
  unfold feed
  split_ifs
  · exact if_neg (by omega)
  · rfl

@[simp] theorem feed_position :
    (feed rows cols blank teletype).position = teletype.position := by
  unfold feed
  split_ifs <;> rfl

theorem write_inView (positive : 0 < rows) (wide : 0 < cols)
    (inView : InView rows cols teletype) (cell : α) :
    InView rows cols (write rows cols blank cell teletype) := by
  refine feed_inView positive (Nat.le_succ_of_le inView.above) ?_
  have := inView.below
  rw [Nat.mul_add cols (_ + rows)]
  dsimp only
  omega

theorem write_paper (inView : InView rows cols teletype) (cell : α) {index : Nat}
    (before : index ≤ teletype.position) :
    (write rows cols blank cell teletype).paper index =
      Function.update teletype.paper teletype.position cell index :=
  feed_paper (Nat.lt_of_le_of_lt before inView.below)

/-- The cells that were written are on the paper in their order. -/
theorem writeAll_paper (positive : 0 < rows) (wide : 0 < cols) (cells : List α)
    (inView : InView rows cols teletype) :
    InView rows cols (writeAll rows cols blank cells teletype) ∧
      (writeAll rows cols blank cells teletype).position =
        teletype.position + cells.length ∧
      (∀ index < teletype.position,
        (writeAll rows cols blank cells teletype).paper index = teletype.paper index) ∧
      ∀ index (below : index < cells.length),
        (writeAll rows cols blank cells teletype).paper (teletype.position + index) =
          cells[index] := by
  induction cells generalizing teletype with
  | nil => exact ⟨inView, rfl, fun _ _ => rfl, fun _ below => absurd below (Nat.not_lt_zero _)⟩
  | cons cell cells induction =>
      have position : (write rows cols blank cell teletype).position = teletype.position + 1 := by
        rw [write, forward, feed_position]
      rcases induction (write_inView positive wide inView cell) with
        ⟨finalInView, finalPosition, kept, written⟩
      rw [position] at finalPosition kept written
      refine ⟨finalInView, ?_, ?_, ?_⟩
      · rw [List.length_cons]
        exact finalPosition.trans (by omega)
      · intro index before
        refine (kept index (by omega)).trans ?_
        rw [write_paper inView cell (by omega), Function.update_of_ne (by omega)]
      · intro index below
        cases index with
        | zero =>
            refine (kept _ (by omega)).trans ?_
            rw [Nat.add_zero, write_paper inView cell (Nat.le_refl _), Function.update_self]
            rfl
        | succ index =>
            have := written index (Nat.lt_of_succ_lt_succ below)
            rwa [Nat.add_assoc, Nat.add_comm 1] at this

end Rules

end Teletype

end FosKernel
