import FosKernel.Refinement.PageFileProgress
import FosKernel.Refinement.PageRelease

/-! # Release of disk frames ends

Giving back a page of the kernel heap, the disk frames of a disk page table and the
table itself returns when the kernel heap can be searched.
-/

namespace FosKernel

section Progress

variable {ghost after : Ghost} {state final : State} {free left : List Nat}
variable {env index address : Nat}

theorem kfree_returns (layout : HeapLayout state.view) (serviceable : Serviceable state)
    (heap : HeapAddress address) (newest : NewestSingle state address) :
    ∃ final, kfree address state = .ok ((), final) := by
  rcases newest with ⟨record, found, last⟩
  have single : pageRange address (record.last + 1) = [address] := by
    rw [last, pageRange_cons (Nat.lt_succ_self address), pageRange_nil (by omega)]
  rcases unmapHeapPage_returns layout serviceable heap with ⟨final, unmapped⟩
  refine ⟨final, Kernel.bind_get_ok.mpr ?_⟩
  rw [found]
  simp only [single]
  exact Kernel.bind_ok.mpr ⟨(), final, unmapped, rfl⟩

theorem kfree_only (layout : HeapLayout state.view) (records : HeapRecords state)
    (freed : kfree address state = .ok ((), final)) : MapOnly state final := by
  rcases kfree_ok records freed with ⟨-, rfl⟩ | ⟨record, -, heap, unmapped⟩
  · exact .refl _
  · exact (unmapHeapPages_entries layout heap unmapped).1

theorem freeDiskFrame_returns (dfn : Nat) (state : State) :
    ∃ final, freeDiskFrame dfn state = .ok ((), final) ∧ DiskListOnly state final := by
  by_cases zero : dfn = 0
  · refine ⟨state, ?_, _, _, rfl⟩
    rw [freeDiskFrame, if_pos zero]
    rfl
  · refine ⟨state.withDiskFree (listInsertHead state.diskFree dfn), ?_, _, _, rfl⟩
    rw [freeDiskFrame, if_neg zero]
    rfl

theorem freeDiskEntry_returns {table frame offset : Nat}
    (mapped : kernelFrame state table = .ok frame) :
    ∃ final, freeDiskEntry (.kernel table) offset state = .ok ((), final) ∧
      kernelFrame final table = .ok frame := by
  have loaded : load state (.kernel table) offset = .ok (state.memory frame offset) :=
    Except.bind_ok.mpr ⟨frame, mapped, rfl⟩
  rcases freeDiskFrame_returns (state.memory frame offset).toNat
    (state.setMemory frame offset 0) with ⟨final, freed, only⟩
  refine ⟨final, ?_, ?_⟩
  · refine Kernel.bind_observe_ok.mpr ⟨_, loaded, ?_⟩
    exact Kernel.bind_ok.mpr ⟨(), state.setMemory frame offset 0,
      Kernel.bind_observe_ok.mpr ⟨frame, mapped, rfl⟩, freed⟩
  · rcases only with ⟨_, _, rfl⟩
    exact mapped

theorem freeDiskEntries_returns {table frame : Nat} (offsets : List Nat)
    (mapped : kernelFrame state table = .ok frame) :
    ∃ final, Kernel.forEach (freeDiskEntry (.kernel table)) offsets state = .ok ((), final) := by
  induction offsets generalizing state with
  | nil => exact ⟨state, rfl⟩
  | cons offset offsets induction =>
      rcases freeDiskEntry_returns mapped with ⟨middle, freed, still⟩
      rcases induction still with ⟨final, rest⟩
      exact ⟨final, Kernel.bind_ok.mpr ⟨(), middle, freed, rest⟩⟩

/-- The iteration of the loop of `pf_free_env` for a table that does not exist. -/
theorem freeDiskPageTable_absent (absent : state.diskDirectory env index = 0) :
    freeDiskPageTable env index state = .ok ((), state) := by
  refine Kernel.bind_get_ok.mpr ?_
  rw [absent, if_pos (by decide)]
  rfl

theorem Orderly.freeTable_returns (orderly : Orderly ghost free state)
    (walkable : Walkable state) (present : state.diskDirectory env index ≠ 0)
    (newest : ∀ address, HeapAddress address →
      ghost.holders (frameOf (state.diskDirectory env index)) = {.heap (ppn address)} →
        NewestSingle state address) :
    ∃ final, freeDiskPageTable env index state = .ok ((), final) := by
  have consistent := orderly.consistent
  have entryPresent : hasPerm (state.diskDirectory env index) permPresent = true :=
    consistent.tablePresent (.disk env index) present
  rcases walkable.diskTable_located consistent present with ⟨table, located, heap, -, reached⟩
  rcases kernelFrame_ok reached with ⟨inMemory, frame⟩
  have slot : state.view.entry (.heap (ppn table)) = state.bootTables (ppn table) :=
    heap.slotEntry
  have mapped : state.view.entry (.heap (ppn table)) ≠ 0 := by
    rw [slot]
    exact ne_zero_of_present inMemory
  rw [← slot] at frame
  have held := orderly.table_page present mapped frame
  rcases freeDiskEntries_returns (List.range 1024) reached with ⟨emptied, looped⟩
  rcases orderly.emptyTable present heap mapped frame looped with ⟨left, dropped⟩
  have serviceable : Serviceable (emptied.dropDiskTable env index) := by
    constructor
    · change ∀ index, _ → _ → frameOf (emptied.pageDirectory .kernel index) <
        emptied.numberOfFrames
      rw [dropped.step.pageDirectory, dropped.step.numberOfFrames]
      exact walkable.serviceable.tables
    · change ∀ page, _ → _ < emptied.numberOfFrames
      rw [dropped.view, dropped.step.numberOfFrames]
      exact walkable.serviceable.frames
  rcases kfree_returns dropped.orderly.consistent.toHeapLayout serviceable heap
    ((newest table heap held).congr dropped.step.idx dropped.step.kHeapArr) with ⟨final, freed⟩
  refine ⟨final, Kernel.bind_get_ok.mpr ?_⟩
  rw [if_neg (not_not.mpr entryPresent)]
  refine Kernel.bind_observe_ok.mpr ⟨table, located, ?_⟩
  rw [Orderly.table_pointer heap]
  exact Kernel.bind_ok.mpr ⟨(), emptied, looped, Kernel.bind_modify_ok.mpr freed⟩

/-- An environment without page tables in the page file. -/
theorem pfFreeEnv_run {emptied released : State}
    (present : state.directoryAddress (.pages env) ≠ 0)
    (looped : Kernel.forEach (freeDiskPageTable env) (List.range (pdx userTop)) state =
      .ok ((), emptied))
    (freed : kfree (emptied.directoryAddress (.pages env)) emptied = .ok ((), released))
    (noTables : released.directoryAddress (.tables env) = 0) :
    pfFreeEnv env state = .ok ((), released.setDirectoryAddress (.pages env) 0) := by
  have still : (released.setDirectoryAddress (.pages env) 0).directoryAddress (.tables env) = 0 :=
    (State.directoryAddress_set ..).trans noTables
  refine Kernel.bind_get_ok.mpr ?_
  rw [show (state.envs env).diskEnvPgdir = state.directoryAddress (.pages env) from rfl,
    if_neg present]
  refine Kernel.bind_ok.mpr ⟨(), emptied, looped, Kernel.bind_get_ok.mpr ?_⟩
  refine Kernel.bind_ok.mpr ⟨(), released, freed,
    Kernel.bind_modify_ok.mpr (Kernel.bind_get_ok.mpr ?_)⟩
  exact Kernel.ite_ok.mpr (.inl ⟨still, rfl⟩)

/-- An entry that goes leaves the others where the search finds them. -/
theorem Walkable.shrink (before : Walkable state) {view : View} {page : Nat}
    (shrink : HeapShrink ghost view [page] after final.view)
    (entries : view.entry = state.view.entry) (startAdd : view.startAdd = state.startAdd)
    (pageDirectory : final.pageDirectory = state.pageDirectory)
    (numberOfFrames : final.numberOfFrames = state.numberOfFrames) : Walkable final := by
  have entry : ∀ somePage, final.view.entry (.heap somePage) ≠ 0 →
      final.view.entry (.heap somePage) = state.view.entry (.heap somePage) := by
    intro somePage mapped
    have other : somePage ≠ page := by
      rintro rfl
      exact mapped (shrink.cleared _ (List.mem_singleton_self _))
    rw [shrink.entries _ (by simpa using other), entries]
  refine ⟨⟨?_, ?_⟩, ?_⟩
  · rw [pageDirectory, numberOfFrames]
    exact before.serviceable.tables
  · intro somePage mapped
    have same := entry somePage mapped
    rw [same] at mapped ⊢
    rw [numberOfFrames]
    exact before.serviceable.frames somePage mapped
  · intro somePage above
    by_contra mapped
    have position : final.startAdd = state.startAdd := shrink.startAdd.trans startAdd
    rw [position] at above
    have same := entry somePage mapped
    rw [before.above somePage above] at same
    exact mapped same

theorem TableFreed.walkable (freed : TableFreed ghost state env index address after left final)
    (before : Walkable state) : Walkable final :=
  before.shrink freed.shrink rfl rfl freed.pageDirectory freed.numberOfFrames

theorem DirectoryFreed.walkable {slot : DirectorySlot}
    (freed : DirectoryFreed ghost state slot after final) (before : Walkable state) :
    Walkable final :=
  before.shrink freed.shrink rfl rfl freed.pageDirectory freed.numberOfFrames

theorem WordStep.walkable (step : WordStep state final) (before : Walkable state) :
    Walkable final := by
  refine ⟨⟨?_, ?_⟩, ?_⟩
  · rw [step.pageDirectory, step.numberOfFrames]
    exact before.serviceable.tables
  · rw [step.view, step.numberOfFrames]
    exact before.serviceable.frames
  · have position : final.startAdd = state.startAdd := congrArg View.startAdd step.view
    rw [position, step.view]
    exact before.above

theorem removeDiskTables_returns (indices : List Nat) (state : State) :
    ∃ final, Kernel.forEach (removeDiskTable env) indices state = .ok ((), final) := by
  induction indices generalizing state with
  | nil => exact ⟨state, rfl⟩
  | cons index indices induction =>
      rcases freeDiskFrame_returns (state.diskTableDirectory env index).toNat
        (state.setDiskTable env index 0) with ⟨between, freed, -⟩
      rcases induction between with ⟨final, rest⟩
      refine ⟨final, Kernel.bind_ok.mpr ⟨(), between, ?_, rest⟩⟩
      exact Kernel.bind_get_ok.mpr (Kernel.bind_modify_ok.mpr freed)

/-! ## After boot -/

theorem directoryPages_of_none (none : ∀ slot, state.directoryAddress slot = 0) :
    DirectoryPages ghost state where
  heap slot present := absurd (none slot) present
  mapped slot present := absurd (none slot) present
  held slot present := absurd (none slot) present
  apart slot present := absurd (none slot) present
  distinct slot _ present := absurd (none slot) present

/-- After boot the page file is in order and no environment has directories. -/
theorem boot_orderly {layout : BootLayout} {contents : BootContents}
    (returned : initializePaging layout.kernelFrames (layout.beforePaging contents) =
      .ok ((), state)) :
    ∃ ghost, Orderly ghost (List.range' 1 (pagesPerFile - 1)).reverse state ∧
      ∀ slot, state.directoryAddress slot = 0 := by
  rcases initializePaging_ok returned with ⟨ghost, booted⟩
  have none : ∀ slot, state.directoryAddress slot = 0 := by
    intro slot
    rcases booted.only with ⟨_, _, _, _, _, _, _, rfl⟩
    cases slot with
    | pages env => rfl
    | tables env => rfl
  refine ⟨ghost, ⟨booted.consistent, initializePaging_pageFile returned,
    directoryPages_of_none none, ?_, ?_⟩, none⟩
  · intro index below
    rcases booted.only with ⟨_, _, _, _, _, _, _, rfl⟩
    exact absurd below (Nat.not_lt_zero index)
  · exact fun page => booted.consistent.visible_of_empty (booted.entry (.heap page))

end Progress

end FosKernel
