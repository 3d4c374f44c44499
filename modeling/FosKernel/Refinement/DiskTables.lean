import FosKernel.Foundation.Pool
import FosKernel.Refinement.Tables
import Mathlib.Order.Interval.Finset.Nat

/-! # Disk frames and disk page tables

Every disk frame but number 0 is on the free list or is the entry of one page or page
table of one environment. Disk page tables are found like page tables; writing an entry
changes the page file and nothing else.
-/

namespace FosKernel

open LinkedList

/-- A page or a page table of an environment, either of which may have a disk frame. -/
inductive DiskSlot
  | page (env page : Nat)
  | table (env index : Nat)
  deriving DecidableEq

def State.diskWord (state : State) : DiskSlot → Word
  | .page env page => state.diskEntry env page
  | .table env index => state.diskTableDirectory env index

/-- The disk frame in an entry; number 0 stands for none. -/
def diskNumber (dfn : Word) : Option Nat := if dfn = 0 then none else some dfn.toNat

def State.diskOwned (state : State) (slot : DiskSlot) : Option Nat :=
  diskNumber (state.diskWord slot)

theorem diskNumber_eq_none {dfn : Word} : diskNumber dfn = none ↔ dfn = 0 := by
  unfold diskNumber
  split <;> simp_all

theorem diskNumber_of_ne {dfn : Word} (nonzero : dfn ≠ 0) :
    diskNumber dfn = some dfn.toNat := if_neg nonzero

theorem diskNumber_ofNat {dfn : Nat} (positive : 1 ≤ dfn) (bound : dfn < pagesPerFile) :
    diskNumber (BitVec.ofNat 32 dfn) = some dfn := by
  have small : dfn < 2 ^ 32 := by
    simp only [pagesPerFile] at bound
    omega
  have value : (BitVec.ofNat 32 dfn).toNat = dfn := by
    rw [BitVec.toNat_ofNat, Nat.mod_eq_of_lt small]
  have nonzero : BitVec.ofNat 32 dfn ≠ 0 := by
    intro zero
    rw [zero] at value
    simp at value
    omega
  rw [diskNumber_of_ne nonzero, value]

/-- The directories have no entries from `USER_TOP` on, and none at all if they do not
exist. -/
structure DiskLayout (state : State) : Prop where
  userPages : ∀ env index, pdx userTop ≤ index → state.diskDirectory env index = 0
  userTables : ∀ env index, pdx userTop ≤ index → state.diskTableDirectory env index = 0
  noPages : ∀ env, (state.envs env).diskEnvPgdir = 0 →
    ∀ index, state.diskDirectory env index = 0
  noTables : ∀ env, (state.envs env).diskEnvTabledir = 0 →
    ∀ index, state.diskTableDirectory env index = 0

/-- The disk frames are divided between the free list and the entries. -/
structure PageFile (free : List Nat) (state : State) : Prop where
  list : Represents state.diskLinks state.diskFreeFrameList free
  pool : Pool (Finset.Ico 1 pagesPerFile) free state.diskOwned
  layout : DiskLayout state

/-- The parts of the state that the list of free disk frames consists of. -/
def DiskListOnly (state final : State) : Prop :=
  ∃ diskLinks diskFreeFrameList, final = { state with diskLinks, diskFreeFrameList }

section Disk

variable {ghost : Ghost} {state final : State} {free : List Nat}

theorem PageFile.known (file : PageFile free state) {dfn : Nat} (member : dfn ∈ free) :
    1 ≤ dfn ∧ dfn < pagesPerFile := Finset.mem_Ico.mp (file.pool.known dfn member)

theorem PageFile.room (file : PageFile free state) : free.length + 1 < 2 ^ 32 := by
  have within : free ⊆ List.range pagesPerFile := fun dfn member =>
    List.mem_range.mpr (file.known member).2
  have := (file.list.nodup.subperm within).length_le
  rw [List.length_range] at this
  simp only [pagesPerFile] at this
  omega

/-! ## Allocation and release -/

theorem allocateDiskFrame_ok {result : Option Nat}
    (list : Represents state.diskLinks state.diskFreeFrameList free)
    (room : free.length + 1 < 2 ^ 32)
    (returned : allocateDiskFrame state = .ok (result, final)) :
    (result = none ∧ free = [] ∧ final = state) ∨
      ∃ dfn rest, result = some dfn ∧ free = dfn :: rest ∧
        Represents final.diskLinks final.diskFreeFrameList rest ∧ DiskListOnly state final := by
  have ended := Kernel.bind_get_ok.mp returned
  have first := list.first
  cases free with
  | nil =>
      simp only [first, List.getElem?_nil] at ended
      rcases Kernel.pure_ok.mp ended with ⟨rfl, rfl⟩
      exact .inl ⟨rfl, rfl, rfl⟩
  | cons dfn rest =>
      simp only [first, List.getElem?_cons_zero] at ended
      replace ended := Kernel.bind_modify_ok.mp (Kernel.bind_modify_ok.mp ended)
      rcases Kernel.pure_ok.mp ended with ⟨rfl, rfl⟩
      refine .inr ⟨dfn, rest, rfl, rfl, ?_, ⟨_, _, rfl⟩⟩
      have removed := list.listRemove (List.mem_cons_self ..)
        (by omega)
      rw [List.erase_cons_head] at removed
      refine removed.congr fun other member => ?_
      have different : other ≠ dfn := by
        rintro rfl
        exact (List.nodup_cons.mp list.nodup).1 member
      exact Function.update_of_ne different _ _

theorem freeDiskFrame_ok {dfn : Nat}
    (returned : freeDiskFrame dfn state = .ok ((), final)) :
    (dfn = 0 ∧ final = state) ∨
      dfn ≠ 0 ∧ final = state.withDiskFree (listInsertHead state.diskFree dfn) := by
  rcases Kernel.ite_ok.mp returned with ⟨zero, ended⟩ | ⟨nonzero, ended⟩
  · exact .inl ⟨zero, (Kernel.pure_ok.mp ended).2.symm⟩
  · exact .inr ⟨nonzero, (Kernel.modify_ok.mp ended).symm⟩

/-! ## Words of a disk page table -/

theorem diskDirectory_table (env index : Nat) :
    state.view.table (.disk env index) = state.diskDirectory env index := rfl

/-- Writing a word of a disk page table does not concern the memory manager. -/
theorem State.view_setMemory_disk (placement : Placement ghost state.view) {env index : Nat}
    (nonzero : state.diskDirectory env index ≠ 0) (offset : Nat) (word : Word) :
    (state.setMemory (frameOf (state.diskDirectory env index)) offset word).view =
      state.view := by
  rw [State.setMemory_eq_setPage]
  refine State.view_setPage ?_ _
  intro owner someIndex someNonzero equal
  have same := placement.tableDistinct (.page owner someIndex) (.disk env index) someNonzero
    nonzero equal
  contradiction

theorem diskEntry_of_zero {env page : Nat} (zero : state.diskDirectory env (page / 1024) = 0) :
    state.diskEntry env page = 0 := if_pos zero

theorem diskEntry_of_ne {env page : Nat} (nonzero : state.diskDirectory env (page / 1024) ≠ 0) :
    state.diskEntry env page =
      state.memory (frameOf (state.diskDirectory env (page / 1024))) (page % 1024) :=
  if_neg nonzero

theorem diskEntry_setMemory (placement : Placement ghost state.view) {env index offset : Nat}
    (nonzero : state.diskDirectory env index ≠ 0) (bound : offset < 1024) (word : Word)
    (someEnv page : Nat) :
    (state.setMemory (frameOf (state.diskDirectory env index)) offset word).diskEntry
      someEnv page =
        if someEnv = env ∧ page = index * 1024 + offset then word
        else state.diskEntry someEnv page := by
  by_cases zero : state.diskDirectory someEnv (page / 1024) = 0
  · have outside : ¬(someEnv = env ∧ page = index * 1024 + offset) := by
      rintro ⟨rfl, rfl⟩
      rw [show (index * 1024 + offset) / 1024 = index by omega] at zero
      exact nonzero zero
    rw [if_neg outside, diskEntry_of_zero zero]
    exact diskEntry_of_zero zero
  · have written : (state.setMemory (frameOf (state.diskDirectory env index)) offset
        word).diskEntry someEnv page =
          (state.setMemory (frameOf (state.diskDirectory env index)) offset word).memory
            (frameOf (state.diskDirectory someEnv (page / 1024))) (page % 1024) :=
      if_neg zero
    rw [written, diskEntry_of_ne zero]
    simp only [State.setMemory]
    by_cases same : frameOf (state.diskDirectory someEnv (page / 1024)) =
        frameOf (state.diskDirectory env index)
    · have equal := placement.tableDistinct (.disk someEnv (page / 1024)) (.disk env index)
        zero nonzero same
      rw [Table.disk.injEq] at equal
      rcases equal with ⟨rfl, rfl⟩
      rw [Function.update_self]
      by_cases here : page % 1024 = offset
      · have position : page = page / 1024 * 1024 + offset := by omega
        rw [if_pos ⟨rfl, position⟩, here, Function.update_self]
      · have position : ¬(someEnv = someEnv ∧ page = page / 1024 * 1024 + offset) := by
          omega
        rw [if_neg position, Function.update_of_ne here]
    · have position : ¬(someEnv = env ∧ page = index * 1024 + offset) := by
        rintro ⟨rfl, rfl⟩
        apply same
        rw [show (index * 1024 + offset) / 1024 = index by omega]
      rw [if_neg position, Function.update_of_ne same]

end Disk

end FosKernel
