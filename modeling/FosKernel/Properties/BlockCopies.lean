import FosKernel.Text.Pointers

/-! # Copies of blocks

`memmove` moves every block as it was. `memcpy` goes up through the memory, so that a block which
is copied into itself arrives as a repetition of its first cells.
-/

namespace FosKernel.Text.Pointers

/-! ## `memmove` and `memcpy` -/

theorem memmove_eq_moved (memory : Nat → Byte) (dst src n : Nat) :
    memmove memory dst src n = moved memory dst src n := by
  unfold memmove
  split
  · next overlap =>
      apply copyDown_eq_moved
      exact .inl (Nat.le_of_lt overlap.1)
  · next apart =>
      apply copyUp_eq_moved
      omega

/-- Cells that repeat with a period are the same after any number of periods. -/
theorem repeats_mod {cells : Nat → α} {period count : Nat} (positive : 0 < period)
    (repeats : ∀ step, step + period < count → cells (step + period) = cells step) (step : Nat)
    (inside : step < count) : cells (step % period) = cells step := by
  induction step using Nat.strong_induction_on with
  | _ step induction =>
      by_cases first : step < period
      · rw [Nat.mod_eq_of_lt first]
      · have earlier := induction (step - period) (by omega) (by omega)
        have last := repeats (step - period) (by omega)
        rw [Nat.sub_add_cancel (by omega)] at last
        rw [Nat.mod_eq_sub_mod (by omega), earlier, last]

/-- `memcpy` leaves the block as `memmove` does exactly when it does not write to cells that it
reads later, or writes there what they hold anyway. -/
theorem memcpy_eq_memmove_iff (memory : Nat → Byte) (dst src n : Nat) :
    memcpy memory dst src n = memmove memory dst src n ↔
      dst ≤ src ∨ ∀ step, dst + step < src + n → memory (dst + step) = memory (src + step) := by
  rw [memmove_eq_moved]
  by_cases down : dst ≤ src
  · constructor
    · exact fun _ => .inl down
    · intro _
      exact copyUp_eq_moved (.inl down)
  · have before : src < dst := by omega
    rw [memcpy, copyUp_eq_repeated before]
    constructor
    · intro equal
      right
      intro step inside
      have atStep := congrFun equal (dst + step)
      have atNext := congrFun equal (dst + (step + (dst - src)))
      simp only [repeated, moved, Nat.add_sub_cancel_left] at atStep atNext
      rw [if_pos (by omega), if_pos (by omega)] at atStep atNext
      rw [Nat.add_mod_right, atStep] at atNext
      rw [show dst + step = src + (step + (dst - src)) by omega]
      exact atNext.symm
    · rintro (absurd | repeats)
      · omega
      · funext address
        simp only [repeated, moved]
        split
        · next inside =>
            have period : ∀ step, step + (dst - src) < n →
                memory (src + (step + (dst - src))) = memory (src + step) := by
              intro step within
              have same := repeats step (by omega)
              rwa [show dst + step = src + (step + (dst - src)) by omega] at same
            exact @repeats_mod _ (fun step => memory (src + step)) (dst - src) n (by omega) period
              (address - dst) (by omega)
        · rfl

/-! ## `memset` -/

/-- The number of cells that `memset` writes: its count is a signed number. -/
def memsetCount (n : BitVec 32) : Nat := if n.toNat ≤ 2 ^ 31 then n.toNat else 0

theorem sub_one_nonneg (m : BitVec 32) :
    0 ≤ (m - 1).toInt ↔ 0 < m.toNat ∧ m.toNat ≤ 2 ^ 31 := by
  have bound := m.isLt
  have before : (m - 1).toNat = (2 ^ 32 - 1 + m.toNat) % 2 ^ 32 := by
    rw [BitVec.toNat_sub, show (1 : BitVec 32).toNat = 1 from rfl]
  rw [BitVec.toInt_eq_toNat_cond, before]
  split <;> omega

theorem memsetLoop_eq (memory : Nat → Byte) (p : Nat) (c : Byte) (m : BitVec 32) :
    memsetLoop memory p c m = fun address =>
      if p ≤ address ∧ address < p + memsetCount m then c else memory address := by
  fun_induction memsetLoop memory p c m with
  | case1 memory p m more induction =>
      have range := (sub_one_nonneg m).mp more
      have first : memsetCount m = memsetCount (m - 1) + 1 := by
        have before : (m - 1).toNat = m.toNat - 1 := by
          rw [BitVec.toNat_sub, show (1 : BitVec 32).toNat = 1 from rfl]
          omega
        simp only [memsetCount, before]
        rw [if_pos range.2, if_pos (by omega)]
        omega
      rw [induction]
      funext address
      rw [first]
      by_cases same : address = p
      · subst same
        rw [if_neg (by omega), if_pos (by omega), Function.update_self]
      · rw [Function.update_of_ne same]
        congr 1
        exact propext (by omega)
  | case2 memory p m done =>
      have range := mt (sub_one_nonneg m).mpr done
      have nothing : memsetCount m = 0 := by
        unfold memsetCount
        split <;> omega
      funext address
      rw [nothing, if_neg (by omega)]

/-- `memset` fills its block, but a block of more than 2 GiB is left as it is. -/
theorem memset_fills (memory : Nat → Byte) (v : Nat) (c n : BitVec 32) (address : Nat) :
    memset memory v c n address =
      if v ≤ address ∧ address < v + n.toNat ∧ n.toNat ≤ 2 ^ 31 then c.setWidth 8
      else memory address := by
  rw [memset, memsetLoop_eq]
  unfold memsetCount
  dsimp only
  congr 1
  split <;> exact propext (by omega)

end FosKernel.Text.Pointers
