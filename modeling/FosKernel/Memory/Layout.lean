import Mathlib.Data.BitVec
import Mathlib.Data.Nat.Bitwise

/-! # Memory layout

Constants of `inc/memlayout.h` and `inc/mmu.h`, and the decomposition of
addresses and page-table entries. Addresses and page numbers are natural
numbers below `2 ^ 32`, with the page size (`PAGE_SIZE`) written out as 4096;
table entries are 32-bit words.
-/

namespace FosKernel

abbrev Word := BitVec 32
abbrev Byte := BitVec 8

abbrev userHeapStart : Nat := 0x80000000
abbrev userHeapMax : Nat := 0xA0000000
abbrev userPagesWSStart : Nat := userHeapMax
/-- `ROUNDUP(USER_PAGES_WS_MAX, PAGE_SIZE)`. The product
`sizeof(struct WorkingSetElement) * USER_TOP` is reduced modulo `2 ^ 32` before
it is divided by the page size. -/
abbrev ustackBottom : Nat := 0xA0031000
abbrev ustackTop : Nat := 0xEEBFE000
abbrev userTop : Nat := 0xEEC00000
abbrev userLimit : Nat := 0xEF800000
abbrev kernelBase : Nat := 0xF0000000
abbrev kernelHeapStart : Nat := 0xF6000000
abbrev kernelHeapMax : Nat := 0xFFFFF000

/-- `CHECK_IF_KERNEL_ADDRESS`. -/
abbrev checkIfKernelAddress (address : Nat) : Prop := userTop ≤ address

def roundDown (address : Nat) : Nat := address - address % 4096

/-- `ROUNDUP` to a page, in 32-bit arithmetic. -/
def roundUp (address : Nat) : Nat := roundDown ((address + 4095) % 2 ^ 32)

/-- The page number of an address. -/
abbrev ppn (address : Nat) : Nat := address / 4096

abbrev pdx (address : Nat) : Nat := ppn address / 1024

abbrev ptx (address : Nat) : Nat := ppn address % 1024

/-- The addresses a loop `for (i = start; i < stop; i += PAGE_SIZE)` visits. -/
def pageRange (start stop : Nat) : List Nat :=
  (List.range ((stop - start + 4095) / 4096)).map
    fun index => start + index * 4096

@[simp] theorem mem_pageRange {start stop address : Nat} :
    address ∈ pageRange start stop ↔
      ∃ index, address = start + index * 4096 ∧ address < stop := by
  simp only [pageRange, List.mem_map, List.mem_range]
  constructor
  · rintro ⟨index, bound, rfl⟩
    exact ⟨index, rfl, by omega⟩
  · rintro ⟨index, rfl, bound⟩
    exact ⟨index, by omega, rfl⟩

theorem pageRange_cons {start stop : Nat} (below : start < stop) :
    pageRange start stop = start :: pageRange (start + 4096) stop := by
  have count : (stop - start + 4095) / 4096 = (stop - (start + 4096) + 4095) / 4096 + 1 := by
    omega
  simp only [pageRange, count, List.range_succ_eq_map, List.map_cons, List.map_map,
    Nat.zero_mul, Nat.add_zero, List.cons.injEq, true_and]
  refine List.map_congr_left fun index _ => ?_
  simp only [Function.comp_apply]
  omega

theorem pageRange_nil {start stop : Nat} (above : stop ≤ start) : pageRange start stop = [] := by
  simp [pageRange, Nat.sub_eq_zero_of_le above]

theorem pageRange_nodup (start stop : Nat) : (pageRange start stop).Nodup := by
  refine List.Nodup.map ?_ List.nodup_range
  intro left right equal
  simp only at equal
  omega

/-! ## Table entries -/

def permPresent : Word := 0x001
def permWriteable : Word := 0x002
def permUser : Word := 0x004
def permUsed : Word := 0x020
def permModified : Word := 0x040
def permBuffered : Word := 0x200

/-- The test `(entry & perm) == perm`. -/
def hasPerm (entry perm : Word) : Bool := entry &&& perm == perm

/-- `EXTRACT_ADDRESS` followed by `PPN`: the frame an entry refers to. -/
def frameOf (entry : Word) : Nat := (entry &&& ~~~0xFFF#32).toNat / 4096

/-- `CONSTRUCT_ENTRY` for the physical address of a frame. -/
def constructEntry (frame : Nat) (perm : Word) : Word :=
  BitVec.ofNat 32 (frame * 4096) ||| perm

/-- Set some permission bits of an entry, then clear others. -/
def changePerm (entry set clear : Word) : Word := (entry ||| set) &&& ~~~clear

/-! Reading the fields of an entry back. `Low perm` says that `perm` lies in the
twelve permission bits. -/

def Low (perm : Word) : Prop := perm.toNat < 4096
  deriving Decidable

theorem Low.getLsbD {perm : Word} (low : Low perm) {bit : Nat} (high : 12 ≤ bit) :
    perm.getLsbD bit = false := by
  rw [BitVec.getLsbD]
  apply Nat.testBit_lt_two_pow
  calc perm.toNat < 2 ^ 12 := low
    _ ≤ 2 ^ bit := Nat.pow_le_pow_right (by decide) high

theorem Low.or {left right : Word} (leftLow : Low left) (rightLow : Low right) :
    Low (left ||| right) := by
  rw [Low, BitVec.toNat_or]
  exact Nat.or_lt_two_pow (show _ < 2 ^ 12 from leftLow) rightLow

theorem frameOf_eq (entry : Word) : frameOf entry = entry.toNat / 4096 := by
  have shifted : (entry &&& ~~~0xFFF#32) >>> 12 = entry >>> 12 := by
    apply BitVec.eq_of_getLsbD_eq
    intro bit bound
    have masked : (0xFFF#32).getLsbD (12 + bit) = false :=
      Low.getLsbD (by decide : Low 0xFFF#32) (by omega)
    rw [BitVec.getLsbD_ushiftRight, BitVec.getLsbD_ushiftRight, BitVec.getLsbD_and,
      BitVec.getLsbD_not, masked]
    by_cases inside : 12 + bit < 32
    · simp only [inside, decide_true, Bool.not_false, Bool.and_true]
    · simp [BitVec.getLsbD_of_ge entry (12 + bit) (by omega)]
  have := congrArg BitVec.toNat shifted
  simpa [frameOf, Nat.shiftRight_eq_div_pow] using this

theorem frameOf_lt (entry : Word) : frameOf entry < 2 ^ 20 := by
  rw [frameOf_eq]
  have := entry.isLt
  omega

theorem frameOf_congr {left right : Word}
    (equal : ∀ bit, 12 ≤ bit → left.getLsbD bit = right.getLsbD bit) :
    frameOf left = frameOf right := by
  have shifted : left >>> 12 = right >>> 12 := by
    apply BitVec.eq_of_getLsbD_eq
    intro bit bound
    simp [equal (12 + bit) (by omega)]
  have := congrArg BitVec.toNat shifted
  simpa [frameOf_eq, Nat.shiftRight_eq_div_pow] using this

theorem getLsbD_changePerm (entry set clear : Word) {bit : Nat} (bound : bit < 32) :
    (changePerm entry set clear).getLsbD bit =
      ((entry.getLsbD bit || set.getLsbD bit) && !clear.getLsbD bit) := by
  rw [changePerm, BitVec.getLsbD_and, BitVec.getLsbD_or, BitVec.getLsbD_not]
  simp only [bound, decide_true, Bool.true_and]

theorem frameOf_changePerm (entry : Word) {set clear : Word}
    (setLow : Low set) (clearLow : Low clear) :
    frameOf (changePerm entry set clear) = frameOf entry := by
  apply frameOf_congr
  intro bit high
  by_cases inside : bit < 32
  · rw [getLsbD_changePerm entry set clear inside, setLow.getLsbD high,
      clearLow.getLsbD high]
    simp
  · simp [BitVec.getLsbD_of_ge _ bit (by omega : 32 ≤ bit)]

theorem frameOf_constructEntry {frame : Nat} {perm : Word} (bound : frame < 2 ^ 20)
    (low : Low perm) : frameOf (constructEntry frame perm) = frame := by
  have same : frameOf (constructEntry frame perm) =
      frameOf (BitVec.ofNat 32 (frame * 4096)) := by
    apply frameOf_congr
    intro bit high
    simp [constructEntry, low.getLsbD high]
  rw [same, frameOf_eq, BitVec.toNat_ofNat]
  omega

theorem getLsbD_constructEntry (frame : Nat) (perm : Word) {bit : Nat}
    (low : bit < 12) : (constructEntry frame perm).getLsbD bit = perm.getLsbD bit := by
  have cleared : (frame * 4096).testBit bit = false := by
    rw [show frame * 4096 = frame * 2 ^ 12 from rfl, Nat.testBit_mul_two_pow]
    simp [low]
  rw [constructEntry, BitVec.getLsbD_or, BitVec.getLsbD_ofNat, cleared]
  simp

/-! The single-bit tests. -/

theorem hasPerm_twoPow (entry : Word) {bit : Nat} (bound : bit < 32) :
    hasPerm entry (BitVec.twoPow 32 bit) = entry.getLsbD bit := by
  rw [hasPerm, BitVec.and_twoPow]
  have nonzero : (0#32 == BitVec.twoPow 32 bit) = false := by
    simp only [beq_eq_false_iff_ne, ne_eq]
    intro equal
    have := congrArg (fun word => word.getLsbD bit) equal
    simp [bound] at this
  cases entry.getLsbD bit <;> simp [nonzero]

theorem hasPerm_present (entry : Word) :
    hasPerm entry permPresent = entry.getLsbD 0 :=
  hasPerm_twoPow entry (by decide : 0 < 32)

@[simp] theorem hasPerm_zero : hasPerm 0#32 permPresent = false := by
  decide

theorem ne_zero_of_present {entry : Word} (present : hasPerm entry permPresent = true) :
    entry ≠ 0 := by
  rintro rfl
  simp at present

theorem hasPerm_writeable (entry : Word) : hasPerm entry permWriteable = entry.getLsbD 1 :=
  hasPerm_twoPow entry (by decide : 1 < 32)

theorem hasPerm_user (entry : Word) : hasPerm entry permUser = entry.getLsbD 2 :=
  hasPerm_twoPow entry (by decide : 2 < 32)

theorem hasPerm_used (entry : Word) : hasPerm entry permUsed = entry.getLsbD 5 :=
  hasPerm_twoPow entry (by decide : 5 < 32)

theorem hasPerm_modified (entry : Word) :
    hasPerm entry permModified = entry.getLsbD 6 :=
  hasPerm_twoPow entry (by decide : 6 < 32)

theorem hasPerm_buffered (entry : Word) :
    hasPerm entry permBuffered = entry.getLsbD 9 :=
  hasPerm_twoPow entry (by decide : 9 < 32)

end FosKernel
