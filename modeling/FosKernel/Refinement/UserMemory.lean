import FosKernel.Paging.UserMemory
import FosKernel.Refinement.Mapping
import FosKernel.Refinement.PageFile

/-! # `freeMem`

What releasing a page does to the page file, the working set and the page tables. The lists
of frames are not followed: the frame of a removed page table stays mapped in the kernel
heap, and the frame of a buffered page gets onto the free list a second time.
-/

namespace FosKernel

open Kernel

/-! ## Working sets -/

/-- Every page of a working set is in one place, and a cleared place holds no address. -/
structure WorkingSet.Tidy (workingSet : WorkingSet) : Prop where
  pages : ∀ index < workingSet.maxSize, (workingSet.element index).empty = false →
    ∃ page, (workingSet.element index).virtualAddress = page * 4096
  once : ∀ left < workingSet.maxSize, ∀ right < workingSet.maxSize,
    (workingSet.element left).empty = false → (workingSet.element right).empty = false →
      (workingSet.element left).virtualAddress = (workingSet.element right).virtualAddress →
        left = right
  cleared : ∀ index < workingSet.maxSize, (workingSet.element index).empty = true →
    (workingSet.element index).virtualAddress = 0

namespace WorkingSet

variable {workingSet : WorkingSet} {index : Nat}

theorem set_of_ne {other : Nat} (element : WorkingSetElement) (different : other ≠ index) :
    (workingSet.set index element).element other = workingSet.element other := by
  simp [set, different]

theorem Tidy.clear (tidy : workingSet.Tidy) (index : Nat) :
    (workingSet.set index .cleared).Tidy := by
  have own : (workingSet.set index .cleared).element index = .cleared := by
    simp [set]
  have others : ∀ other, ((workingSet.set index .cleared).element other).empty = false →
      (workingSet.set index .cleared).element other = workingSet.element other := by
    intro other filled
    apply set_of_ne
    rintro rfl
    rw [own] at filled
    cases filled
  constructor
  · intro other inside filled
    have same := others other filled
    rw [same] at filled ⊢
    exact tidy.pages other inside filled
  · intro left leftInside right rightInside leftFilled rightFilled equal
    have leftSame := others left leftFilled
    have rightSame := others right rightFilled
    rw [leftSame] at leftFilled equal
    rw [rightSame] at rightFilled equal
    exact tidy.once left leftInside right rightInside leftFilled rightFilled equal
  · intro other inside empty
    by_cases same : other = index
    · rw [same, own]
      rfl
    · rw [set_of_ne _ same] at empty ⊢
      exact tidy.cleared other inside empty

/-- The page that was in the cleared place is in no other one. -/
theorem Tidy.clear_holds (tidy : workingSet.Tidy) (inside : index < workingSet.maxSize)
    (filled : (workingSet.element index).empty = false) {page : Nat}
    (recorded : (workingSet.element index).virtualAddress = page * 4096) (somePage : Nat) :
    (∃ other, other < (workingSet.set index .cleared).maxSize ∧
        ((workingSet.set index .cleared).element other).empty = false ∧
        ((workingSet.set index .cleared).element other).virtualAddress = somePage * 4096) ↔
      (∃ other, other < workingSet.maxSize ∧ (workingSet.element other).empty = false ∧
        (workingSet.element other).virtualAddress = somePage * 4096) ∧ somePage ≠ page := by
  constructor
  · rintro ⟨other, below, stillFilled, address⟩
    have different : other ≠ index := by
      rintro rfl
      simp [set, WorkingSetElement.cleared] at stillFilled
    rw [set_of_ne _ different] at stillFilled address
    refine ⟨⟨other, below, stillFilled, address⟩, ?_⟩
    rintro rfl
    exact different (tidy.once other below index inside stillFilled filled
      (address.trans recorded.symm))
  · rintro ⟨⟨other, below, stillFilled, address⟩, apart⟩
    have different : other ≠ index := by
      rintro rfl
      rw [recorded] at address
      omega
    exact ⟨other, below, by rwa [set_of_ne _ different], by rwa [set_of_ne _ different]⟩

end WorkingSet

theorem Residency.tidy {ghost : Ghost} {view : View} (residency : Residency ghost view)
    {env : Nat} (active : env ∈ ghost.active) : (view.workingSet env).Tidy where
  pages := residency.residentPage env active
  once left leftBelow right rightBelow leftFilled rightFilled equal := by
    rcases residency.residentPage env active left leftBelow leftFilled with ⟨page, address⟩
    exact residency.residentOnce env active left right page ⟨leftBelow, leftFilled, address⟩
      ⟨rightBelow, rightFilled, equal.symm.trans address⟩
  cleared := residency.cleared env active

section Release

variable {ghost : Ghost} {state middle final : State} {env address page : Nat}

/-- A page is not in the working set any more. -/
structure PageLeft (state : State) (env page : Nat) (final : State) : Prop where
  only : ∃ envs, final = { state with envs }
  diskEnvPgdir : ∀ other, (final.envs other).diskEnvPgdir = (state.envs other).diskEnvPgdir
  diskEnvTabledir : ∀ other,
    (final.envs other).diskEnvTabledir = (state.envs other).diskEnvTabledir
  tidy : (final.view.workingSet env).Tidy
  others : ∀ other, other ≠ env → final.view.workingSet other = state.view.workingSet other
  resident : ∀ somePage, final.view.Resident env somePage ↔
    state.view.Resident env somePage ∧ somePage ≠ page

/-- The first element with the address is cleared. -/
theorem removeFromWorkingSet_ok {indices : List Nat}
    (returned : removeFromWorkingSet env address indices state = .ok ((), final)) :
    (final = state ∧ ∀ index ∈ indices,
      roundDown ((state.envs env).ptrPageWorkingSet index).virtualAddress ≠ address) ∨
    ∃ index, index < (state.envs env).pageWSMaxSize ∧
      roundDown ((state.envs env).ptrPageWorkingSet index).virtualAddress = address ∧
      final = state.setEnv env ((state.envs env).setElement index .cleared) := by
  induction indices with
  | nil =>
      left
      exact ⟨(pure_ok.mp returned).2.symm, by simp⟩
  | cons index indices induction =>
      rcases bind_observe_ok.mp returned with ⟨found, looked, continued⟩
      unfold envPageWsGetVirtualAddress at looked
      split at looked
      · cases looked
      next inside =>
      cases looked
      rcases ite_ok.mp continued with ⟨equal, cleared⟩ | ⟨different, rest⟩
      · right
        replace cleared := bind_get_ok.mp cleared
        rcases ite_ok.mp cleared with ⟨outside, -⟩ | ⟨-, changed⟩
        · exact absurd outside inside
        · exact ⟨index, not_le.mp inside, equal.symm, (modify_ok.mp changed).symm⟩
      · rcases induction rest with ⟨same, absent⟩ | found
        · left
          refine ⟨same, fun other member => ?_⟩
          rcases List.mem_cons.mp member with equal | later
          · rw [equal]
            exact Ne.symm different
          · exact absent other later
        · exact .inr found

theorem State.view_setElement (state : State) (env index : Nat) (element : WorkingSetElement) :
    (state.setEnv env ((state.envs env).setElement index element)).view =
      state.view.setWorkingSet env ((state.view.workingSet env).set index element) := by
  apply View.ext <;> try rfl
  funext other
  by_cases same : other = env
  · subst same
    simp [State.view, State.setEnv, Env.workingSet, Env.setElement, View.setWorkingSet,
      WorkingSet.set]
  · simp [State.view, State.setEnv, View.setWorkingSet, same]

theorem removeFromWorkingSet_left (tidy : (state.view.workingSet env).Tidy) (positive : 0 < page)
    (returned : removeFromWorkingSet env (page * 4096)
      (List.range (state.envs env).pageWSMaxSize) state = .ok ((), final)) :
    PageLeft state env page final := by
  have round : ∀ somePage, roundDown (somePage * 4096) = somePage * 4096 := by
    intro somePage
    unfold roundDown
    omega
  rcases removeFromWorkingSet_ok returned with ⟨rfl, absent⟩ | ⟨index, inside, equal, rfl⟩
  · refine ⟨⟨_, rfl⟩, fun _ => rfl, fun _ => rfl, tidy, fun _ _ => rfl, fun somePage => ?_⟩
    refine ⟨fun resident => ⟨resident, ?_⟩, And.left⟩
    rintro rfl
    rcases resident with ⟨index, inside, -, recorded⟩
    refine absent index (List.mem_range.mpr inside) ?_
    rw [show ((final.envs env).ptrPageWorkingSet index).virtualAddress = somePage * 4096 from
      recorded, round]
  · have filled : ((state.view.workingSet env).element index).empty = false := by
      by_contra empty
      have zero := tidy.cleared index inside (by simpa using empty)
      rw [show ((state.envs env).ptrPageWorkingSet index).virtualAddress = 0 from zero] at equal
      simp only [roundDown] at equal
      omega
    have recorded : ((state.view.workingSet env).element index).virtualAddress = page * 4096 := by
      rcases tidy.pages index inside filled with ⟨somePage, address⟩
      rw [show ((state.envs env).ptrPageWorkingSet index).virtualAddress = somePage * 4096 from
        address, round] at equal
      rw [address, equal]
    have view := state.view_setElement env index .cleared
    have workingSet : (state.setEnv env ((state.envs env).setElement index
        .cleared)).view.workingSet env = (state.view.workingSet env).set index .cleared := by
      rw [view]
      simp [View.setWorkingSet]
    refine ⟨⟨_, rfl⟩, fun other => ?_, fun other => ?_, ?_, fun other different => ?_,
      fun somePage => ?_⟩
    · by_cases same : other = env
      · subst same
        simp [State.setEnv, Env.setElement]
      · simp [State.setEnv, same]
    · by_cases same : other = env
      · subst same
        simp [State.setEnv, Env.setElement]
      · simp [State.setEnv, same]
    · rw [workingSet]
      exact tidy.clear index
    · rw [view]
      simp [View.setWorkingSet, different]
    · unfold View.Resident View.ResidentAt
      rw [workingSet]
      exact tidy.clear_holds inside filled recorded somePage

/-! ## What stays right while pages are released -/

/-- The reverse lookup finds a heap page of every table. -/
def TablesFound (state : State) : Prop :=
  ∀ table, state.view.table table ≠ 0 → ∃ address, address ≠ 0 ∧
    kheapVirtualAddress state (frameOf (state.view.table table)) = .ok address

structure Releasing (ghost : Ghost) (env : Nat) (state : State) : Prop where
  placement : Placement ghost state.view
  layout : HeapLayout state.view
  disk : DiskLayout state
  tidy : (state.view.workingSet env).Tidy
  found : TablesFound state

theorem HeapLayout.bounded (layout : HeapLayout state.view) : state.startAdd < 2 ^ 32 := by
  have upper : state.startAdd ≤ kernelHeapMax := layout.startUpper
  simp only [kernelHeapMax] at upper
  omega

namespace Releasing

/-- Tables may disappear. -/
theorem congr (releasing : Releasing ghost env state) (same : SameHeap state final)
    (tables : ∀ table, final.view.table table ≠ 0 →
      final.view.table table = state.view.table table)
    (disk : DiskLayout final) (tidy : (final.view.workingSet env).Tidy) :
    Releasing ghost env final where
  placement :=
    { tablePresent := by
        intro table nonzero
        have equal := tables table nonzero
        rw [equal] at nonzero ⊢
        exact releasing.placement.tablePresent table nonzero
      tableHeld := by
        intro table nonzero
        have equal := tables table nonzero
        rw [equal] at nonzero ⊢
        exact releasing.placement.tableHeld table nonzero
      tableDistinct := by
        intro left right leftNonzero rightNonzero refers
        have leftEqual := tables left leftNonzero
        have rightEqual := tables right rightNonzero
        rw [leftEqual] at leftNonzero refers
        rw [rightEqual] at rightNonzero refers
        exact releasing.placement.tableDistinct left right leftNonzero rightNonzero refers }
  layout :=
    { kernelTables := by
        intro index lower upper
        have before := releasing.layout.kernelTables index lower upper
        simp only [State.view] at before ⊢
        rwa [same.kernelDirectory]
      startLower := by
        rw [show final.view.startAdd = state.startAdd from same.startAdd]
        exact releasing.layout.startLower
      startUpper := by
        rw [show final.view.startAdd = state.startAdd from same.startAdd]
        exact releasing.layout.startUpper
      startAligned := by
        rw [show final.view.startAdd = state.startAdd from same.startAdd]
        exact releasing.layout.startAligned }
  disk := disk
  tidy := tidy
  found := by
    intro table nonzero
    have equal := tables table nonzero
    rw [equal] at nonzero ⊢
    rw [same.kheapVirtualAddress releasing.layout.bounded]
    exact releasing.found table nonzero

/-- A pointer to an existing page table is found. -/
theorem tablePointer (releasing : Releasing ghost env state) {owner : Directory}
    (user : address < userTop) (present : state.pageDirectory owner (pdx address) ≠ 0) :
    tablePointer state owner address ≠ .ok .null := by
  have table : state.view.table (.page owner (pdx address)) =
      state.pageDirectory owner (pdx address) := tableEntry_page (address_user user).2
  rcases releasing.found (.page owner (pdx address)) (by rwa [table]) with
    ⟨found, nonzero, located⟩
  rw [table] at located
  unfold FosKernel.tablePointer
  rw [if_neg (not_le.mpr user)]
  intro null
  rcases Except.bind_ok.mp null with ⟨some, again, ended⟩
  rw [located] at again
  cases again
  simp [TablePointer.ofAddress, nonzero, pure, Except.pure] at ended

theorem diskTablePointer (releasing : Releasing ghost env state) {owner : Nat}
    (user : address < userTop) (present : state.diskDirectory owner (pdx address) ≠ 0) :
    diskTablePointer state owner address ≠ .ok .null := by
  rcases releasing.found (.disk owner (pdx address)) present with ⟨found, nonzero, located⟩
  rw [diskDirectory_table] at located
  unfold FosKernel.diskTablePointer
  rw [if_neg (not_le.mpr user)]
  intro null
  rcases Except.bind_ok.mp null with ⟨some, again, ended⟩
  rw [located] at again
  cases again
  simp [TablePointer.ofAddress, nonzero, pure, Except.pure] at ended

end Releasing

/-! ## The steps of `freeMemPage` -/

/-- A page is not in the page file any more. -/
structure PageRemoved (state : State) (env page : Nat) (final : State) : Prop where
  only : ∃ memory diskLinks diskFreeFrameList,
    final = { state with memory, diskLinks, diskFreeFrameList }
  view : final.view = state.view
  written : EntryWritten state env page 0 final

theorem pfRemoveEnvPage_removed (releasing : Releasing ghost env state)
    (user : address < userTop)
    (returned : pfRemoveEnvPage env address state = .ok ((), final)) :
    PageRemoved state env (ppn address) final := by
  rcases pfRemoveEnvPage_cases releasing.layout user returned with
    ⟨rfl, none⟩ | ⟨present, freed⟩
  · have absent : final.diskDirectory env (pdx address) = 0 := by
      rcases none with directory | table | missing
      · exact releasing.disk.noPages env directory _
      · exact table
      · by_contra present
        exact releasing.diskTablePointer user present missing
    exact ⟨⟨_, _, _, rfl⟩, rfl, ⟨diskEntry_of_zero absent, fun _ _ _ => rfl⟩⟩
  · have bound : ptx address < 1024 := Nat.mod_lt _ (by decide)
    have view := State.view_setMemory_disk releasing.placement present (ptx address) 0
    have entries := diskEntry_setMemory releasing.placement present bound 0
    rw [pdx_mul_add_ptx] at entries
    have written : EntryWritten state env (ppn address) 0 (state.setMemory
        (frameOf (state.diskDirectory env (pdx address))) (ptx address) 0) := by
      constructor
      · rw [entries, if_pos ⟨rfl, rfl⟩]
      · intro someEnv somePage different
        rw [entries, if_neg different]
    rcases freeDiskFrame_ok freed with ⟨-, rfl⟩ | ⟨-, rfl⟩
    · exact ⟨⟨_, _, _, rfl⟩, view, written⟩
    · exact ⟨⟨_, _, _, rfl⟩, view, ⟨written.entry, written.others⟩⟩

/-- Writing a word of a page table does not concern the page file. -/
theorem diskEntry_setMemory_table (placement : Placement ghost state.view) {owner : Directory}
    {index : Nat} (user : index < pdx userTop)
    (present : hasPerm (state.pageDirectory owner index) permPresent = true) (offset : Nat)
    (word : Word) (someEnv page : Nat) :
    (state.setMemory (frameOf (state.pageDirectory owner index)) offset word).diskEntry
      someEnv page = state.diskEntry someEnv page := by
  by_cases zero : state.diskDirectory someEnv (page / 1024) = 0
  · rw [diskEntry_of_zero zero]
    exact diskEntry_of_zero zero
  · have different : frameOf (state.diskDirectory someEnv (page / 1024)) ≠
        frameOf (state.pageDirectory owner index) := by
      intro equal
      have table : state.view.table (.page owner index) = state.pageDirectory owner index :=
        tableEntry_page user
      have same := placement.tableDistinct (.disk someEnv (page / 1024)) (.page owner index)
        zero (by rw [table]; exact ne_zero_of_present present) (by rw [table]; exact equal)
      contradiction
    have present : (state.setMemory (frameOf (state.pageDirectory owner index)) offset
        word).diskDirectory someEnv (page / 1024) ≠ 0 := zero
    rw [diskEntry_of_ne zero, diskEntry_of_ne present]
    simp [State.setMemory, different]

/-- The entry of a page is cleared. -/
structure EntryCleared (state : State) (env page : Nat) (final : State) : Prop where
  only : ∃ memory framesInfo frameLinks freeFrameList,
    final = { state with memory, framesInfo, frameLinks, freeFrameList }
  entry : final.view.entry (.user env page) = 0
  others : ∀ slot, slot ≠ .user env page → final.view.entry slot = state.view.entry slot
  file : ∀ someEnv somePage, final.diskEntry someEnv somePage = state.diskEntry someEnv somePage

theorem unmapFrame_cleared (releasing : Releasing ghost env state) (user : address < userTop)
    (returned : unmapFrame (.env env) address state = .ok ((), final)) :
    EntryCleared state env (ppn address) final := by
  rcases unmapFrame_user releasing.layout user returned with
    ⟨rfl, missing⟩ | ⟨present, -, rfl⟩
  · refine ⟨⟨_, _, _, _, rfl⟩, ?_, fun _ _ => rfl, fun _ _ => rfl⟩
    rcases missing with zero | null
    · exact zero
    · apply entry_user_absent
      by_contra present
      exact releasing.tablePointer user present null
  · generalize frameOf (state.view.entry (.user env (ppn address))) = frame
    have view : (state.unmapUser (.env env) frame address).view =
        state.view.detach frame (.user (.env env) (ppn address)) :=
      State.view_unmapUser releasing.placement user present
    have index := (address_user user).2
    refine ⟨?_, ?_, ?_, ?_⟩
    · rw [State.unmapUser, State.decrement_eq]
      exact ⟨_, _, _, _, rfl⟩
    · rw [view]
      simp [View.detach, View.setEntry]
    · intro slot different
      rw [view]
      exact View.detach_entry different
    · intro someEnv somePage
      rw [State.unmapUser, State.decrement_eq]
      exact diskEntry_setMemory_table releasing.placement index present _ _ _ _

/-- A page of a table is present. -/
def TableInUse (state : State) (env index : Nat) : Prop :=
  ∃ page, page / 1024 = index ∧ hasPerm (state.view.entry (.user env page)) permPresent = true

theorem anyPresent_ok {pointer : TablePointer} {frame : Nat} (points : PointsTo state pointer frame)
    {indices : List Nat} {result : Bool}
    (returned : anyPresent state pointer indices = .ok result) :
    result = true ↔ ∃ index ∈ indices, hasPerm (state.memory frame index) permPresent = true := by
  induction indices with
  | nil =>
      cases returned
      simp
  | cons index indices induction =>
      rcases Except.bind_ok.mp returned with ⟨word, loaded, continued⟩
      rw [points.load_ok loaded] at continued
      by_cases present : hasPerm (state.memory frame index) permPresent = true
      · rw [if_pos present] at continued
        cases continued
        simp [present]
      · rw [if_neg present] at continued
        rw [induction continued]
        simp [present]

theorem tableInUse_iff (user : pdx address < pdx userTop)
    (present : hasPerm (directoryEntry state env address) permPresent = true) :
    TableInUse state env (pdx address) ↔ ∃ index ∈ List.range 1024,
      hasPerm (state.memory (frameOf (directoryEntry state env address)) index)
        permPresent = true := by
  have entries : ∀ page, page / 1024 = pdx address → state.view.entry (.user env page) =
      state.memory (frameOf (directoryEntry state env address)) (page % 1024) := by
    intro page inside
    have low : page < ppn userTop := by
      rw [← inside] at user
      simp only [pdx, ppn, userTop] at user ⊢
      omega
    have table : hasPerm (state.pageDirectory (.env env) (page / 1024)) permPresent = true := by
      rw [inside]
      exact present
    rw [slotEntry_user low table, inside]
  constructor
  · rintro ⟨page, inside, used⟩
    rw [entries page inside] at used
    exact ⟨page % 1024, List.mem_range.mpr (Nat.mod_lt _ (by decide)), used⟩
  · rintro ⟨index, below, used⟩
    have bound := List.mem_range.mp below
    refine ⟨pdx address * 1024 + index, by omega, ?_⟩
    rw [entries _ (by omega), show (pdx address * 1024 + index) % 1024 = index by omega]
    exact used

/-- A page table disappears. -/
structure TableRemoved (state : State) (env index : Nat) (final : State) : Prop where
  only : ∃ framesInfo frameLinks freeFrameList,
    final = { state.setDirectoryEntry (.env env) index 0 with
      framesInfo, frameLinks, freeFrameList }

theorem removePageTable_ok {pointer : TablePointer}
    (returned : removePageTable env address pointer state = .ok ((), final)) :
    TableRemoved state env (pdx address) final := by
  rcases bind_observe_ok.mp returned with ⟨frame, -, first⟩
  rcases bind_observe_ok.mp first with ⟨managed, -, second⟩
  replace second := bind_modify_ok.mp second
  rcases bind_ok.mp second with ⟨_, freed, freeing, third⟩
  rw [freeFrame_ok freeing] at third
  rw [← modify_ok.mp third]
  exact ⟨⟨_, _, _, rfl⟩⟩

/-- The end of the body of the loop of `freeMem`. -/
def checkPageTable (env address : Nat) : Kernel Unit := do
  let (_, pointer) ← observe fun state => getPageTable state (.env env) address
  if pointer ≠ .null then
    if ¬(← observe fun state => anyPresent state pointer (List.range 1024)) then
      removePageTable env address pointer

theorem checkPageTable_ok (releasing : Releasing ghost env state) (user : address < userTop)
    (returned : checkPageTable env address state = .ok ((), final)) :
    (final = state ∧ (directoryEntry state env address = 0 ∨
        TableInUse state env (pdx address))) ∨
      ¬TableInUse state env (pdx address) ∧ TableRemoved state env (pdx address) final := by
  rcases bind_observe_ok.mp returned with ⟨⟨status, pointer⟩, looked, continued⟩
  rcases getPageTable_user releasing.layout user looked with
    ⟨zero, -, rfl⟩ | ⟨present, -, located, found⟩
  · exact .inl ⟨(pure_ok.mp continued).2.symm, .inl zero⟩
  · rcases found with rfl | points
    · exact absurd located (releasing.tablePointer user (ne_zero_of_present present))
    · rcases ite_ok.mp continued with ⟨-, checked⟩ | ⟨null, -⟩
      · rcases bind_observe_ok.mp checked with ⟨result, read, removed⟩
        have used := (anyPresent_ok points read).trans
          (tableInUse_iff (address_user user).2 present).symm
        rcases ite_ok.mp removed with ⟨none, dropped⟩ | ⟨some, kept⟩
        · exact .inr ⟨fun inUse => none (used.mpr inUse), removePageTable_ok dropped⟩
        · exact .inl ⟨(pure_ok.mp kept).2.symm, .inr (used.mp (not_not.mp some))⟩
      · exact absurd null (not_not.mpr points.ne_null)

/-- There is no page table, whether it has disappeared or was never there. -/
structure TableGone (state : State) (env index : Nat) (final : State) : Prop where
  heap : SameHeap state final
  diskEntry : ∀ someEnv page, final.diskEntry someEnv page = state.diskEntry someEnv page
  workingSet : final.view.workingSet = state.view.workingSet
  directory : final.pageDirectory (.env env) index = 0
  otherDirectories : ∀ owner someIndex, ¬(owner = .env env ∧ someIndex = index) →
    final.pageDirectory owner someIndex = state.pageDirectory owner someIndex
  entry : ∀ page, page / 1024 = index → final.view.entry (.user env page) = 0
  others : ∀ slot, ¬Slot.InTable env index slot →
    final.view.entry slot = state.view.entry slot

theorem entry_of_no_table {index : Nat} (absent : state.pageDirectory (.env env) index = 0)
    (inside : page / 1024 = index) : state.view.entry (.user env page) = 0 := by
  rw [← inside] at absent
  simp [State.view, State.slotEntry, absent]

theorem TableGone.absent {index : Nat} (absent : state.pageDirectory (.env env) index = 0) :
    TableGone state env index state where
  heap := .refl state
  diskEntry _ _ := rfl
  workingSet := rfl
  directory := absent
  otherDirectories _ _ _ := rfl
  entry _ := entry_of_no_table absent
  others _ _ := rfl

theorem TableRemoved.gone {index : Nat} (removed : TableRemoved state env index final) :
    TableGone state env index final := by
  rcases removed.only with ⟨_, _, _, rfl⟩
  constructor
  · exact ⟨rfl, by simp [State.setDirectoryEntry], rfl, rfl⟩
  · intro _ _
    rfl
  · rfl
  · simp [State.setDirectoryEntry]
  · intro owner someIndex outside
    by_cases same : owner = .env env
    · subst same
      have different : someIndex ≠ index := fun equal => outside ⟨rfl, equal⟩
      simp [State.setDirectoryEntry, different]
    · simp [State.setDirectoryEntry, same]
  · intro page inside
    simp [State.view, State.slotEntry, State.setDirectoryEntry, inside]
  · intro slot outside
    cases slot with
    | heap page => rfl
    | user owner page =>
        by_cases same : owner = .env env
        · subst same
          have different : page / 1024 ≠ index := fun equal => outside ⟨rfl, equal⟩
          simp [State.view, State.slotEntry, State.setDirectoryEntry, different]
        · simp [State.view, State.slotEntry, State.setDirectoryEntry, same]

/-! ## Many pages -/

/-- All pages of a table that are present are among some pages, one of which is in the
table. -/
def Unused (state : State) (env : Nat) (pages : List Nat) (index : Nat) : Prop :=
  (∃ page ∈ pages, page / 1024 = index) ∧
    ∀ page, page / 1024 = index →
      hasPerm (state.view.entry (.user env page)) permPresent = true → page ∈ pages

/-- The entry of a page is lost when pages are released. -/
def Lost (state : State) (env : Nat) (pages : List Nat) (page : Nat) : Prop :=
  page ∈ pages ∨ Unused state env pages (page / 1024)

/-- Pages are released, and with them the tables without present entries. -/
structure Freed (state : State) (env : Nat) (pages : List Nat) (final : State) : Prop where
  heap : SameHeap state final
  file : ∀ page ∈ pages, final.diskEntry env page = 0
  otherFile : ∀ someEnv page, ¬(someEnv = env ∧ page ∈ pages) →
    final.diskEntry someEnv page = state.diskEntry someEnv page
  resident : ∀ page, final.view.Resident env page ↔
    state.view.Resident env page ∧ page ∉ pages
  otherSets : ∀ other, other ≠ env → final.view.workingSet other = state.view.workingSet other
  removed : ∀ index, Unused state env pages index → final.pageDirectory (.env env) index = 0
  directory : ∀ owner index, ¬(owner = .env env ∧ Unused state env pages index) →
    final.pageDirectory owner index = state.pageDirectory owner index
  cleared : ∀ page, Lost state env pages page → final.view.entry (.user env page) = 0
  kept : ∀ slot, (∀ page, slot = .user env page → ¬Lost state env pages page) →
    final.view.entry slot = state.view.entry slot

theorem Freed.refl (state : State) (env : Nat) : Freed state env [] state where
  heap := .refl state
  file := by simp
  otherFile _ _ _ := rfl
  resident := by simp
  otherSets _ _ := rfl
  removed := by
    rintro index ⟨⟨_, member, -⟩, -⟩
    simp at member
  directory _ _ _ := rfl
  cleared := by
    rintro page (member | ⟨⟨_, member, -⟩, -⟩)
    · simp at member
    · simp at member
  kept _ _ := rfl

/-- In a state in which some pages are released, a table becomes unused by the release of
further pages exactly when it would have become so at once. -/
theorem Freed.unused_append {first second : List Nat} (freed : Freed state env first middle)
    (index : Nat) : Unused state env (first ++ second) index ↔
      Unused state env first index ∨ Unused middle env second index := by
  have absent : hasPerm (0 : Word) permPresent = false := by decide
  have before : ∀ page, hasPerm (middle.view.entry (.user env page)) permPresent = true →
      hasPerm (state.view.entry (.user env page)) permPresent = true ∧
        ¬Lost state env first page := by
    intro page present
    have notLost : ¬Lost state env first page := by
      intro lost
      rw [freed.cleared page lost, absent] at present
      cases present
    rw [freed.kept (.user env page) (fun some same => by cases same; exact notLost)] at present
    exact ⟨present, notLost⟩
  constructor
  · rintro ⟨⟨page, member, inside⟩, all⟩
    by_cases touched : ∃ page ∈ second, page / 1024 = index
    · by_cases unused : Unused state env first index
      · exact .inl unused
      · refine .inr ⟨touched, fun some same present => ?_⟩
        rcases before some present with ⟨presentBefore, notLost⟩
        rcases List.mem_append.mp (all some same presentBefore) with early | late
        · exact absurd (.inl early) notLost
        · exact late
    · left
      have early : ∀ some, some / 1024 = index → some ∈ first ++ second → some ∈ first := by
        intro some same inBoth
        rcases List.mem_append.mp inBoth with inFirst | inSecond
        · exact inFirst
        · exact absurd ⟨some, inSecond, same⟩ touched
      exact ⟨⟨page, early page inside member, inside⟩,
        fun some same present => early some same (all some same present)⟩
  · rintro (⟨⟨page, member, inside⟩, all⟩ | ⟨⟨page, member, inside⟩, all⟩)
    · exact ⟨⟨page, List.mem_append_left _ member, inside⟩,
        fun some same present => List.mem_append_left _ (all some same present)⟩
    · refine ⟨⟨page, List.mem_append_right _ member, inside⟩, fun some same present => ?_⟩
      by_cases lost : Lost state env first some
      · rcases lost with early | ⟨-, allFirst⟩
        · exact List.mem_append_left _ early
        · exact List.mem_append_left _ (allFirst some rfl present)
      · refine List.mem_append_right _ (all some same ?_)
        rwa [freed.kept (.user env some) (fun other equal => by cases equal; exact lost)]

theorem Freed.trans {first second : List Nat} (one : Freed state env first middle)
    (two : Freed middle env second final) : Freed state env (first ++ second) final := by
  have lost : ∀ page, Lost state env (first ++ second) page ↔
      Lost state env first page ∨ Lost middle env second page := by
    intro page
    unfold Lost
    rw [List.mem_append, one.unused_append]
    tauto
  constructor
  · exact one.heap.trans two.heap
  · intro page member
    by_cases late : page ∈ second
    · exact two.file page late
    · rw [two.otherFile env page fun both => late both.2]
      exact one.file page ((List.mem_append.mp member).resolve_right late)
  · intro someEnv page outside
    rw [two.otherFile someEnv page fun both => outside ⟨both.1, List.mem_append_right _ both.2⟩,
      one.otherFile someEnv page fun both => outside ⟨both.1, List.mem_append_left _ both.2⟩]
  · intro page
    rw [two.resident, one.resident, List.mem_append, not_or, and_assoc]
  · intro other different
    rw [two.otherSets other different, one.otherSets other different]
  · intro index unused
    by_cases late : Unused middle env second index
    · exact two.removed index late
    · rw [two.directory _ _ fun both => late both.2]
      exact one.removed index (((one.unused_append index).mp unused).resolve_right late)
  · intro owner index outside
    rw [two.directory owner index fun both =>
        outside ⟨both.1, (one.unused_append index).mpr (.inr both.2)⟩,
      one.directory owner index fun both =>
        outside ⟨both.1, (one.unused_append index).mpr (.inl both.2)⟩]
  · intro page gone
    by_cases late : Lost middle env second page
    · exact two.cleared page late
    · rw [two.kept (.user env page) fun other equal => by cases equal; exact late]
      exact one.cleared page (((lost page).mp gone).resolve_right late)
  · intro slot outside
    rw [two.kept slot fun page same gone => outside page same ((lost page).mpr (.inr gone)),
      one.kept slot fun page same gone => outside page same ((lost page).mpr (.inl gone))]

/-- The state after the first three steps of `freeMemPage`. -/
structure PageGone (state : State) (env page : Nat) (middle : State) : Prop where
  heap : SameHeap state middle
  pageDirectory : middle.pageDirectory = state.pageDirectory
  written : EntryWritten state env page 0 middle
  resident : ∀ somePage, middle.view.Resident env somePage ↔
    state.view.Resident env somePage ∧ somePage ≠ page
  otherSets : ∀ other, other ≠ env → middle.view.workingSet other = state.view.workingSet other
  entry : middle.view.entry (.user env page) = 0
  others : ∀ slot, slot ≠ .user env page → middle.view.entry slot = state.view.entry slot

/-- A table without present entries is one that its last present page has left. -/
theorem PageGone.unused_iff (gone : PageGone state env page middle) (index : Nat) :
    Unused state env [page] index ↔ page / 1024 = index ∧ ¬TableInUse middle env index := by
  have absent : hasPerm (0 : Word) permPresent = false := by decide
  constructor
  · rintro ⟨⟨some, member, inside⟩, all⟩
    rw [List.mem_singleton.mp member] at inside
    refine ⟨inside, ?_⟩
    rintro ⟨used, same, present⟩
    by_cases own : used = page
    · rw [own, gone.entry, absent] at present
      cases present
    · rw [gone.others _ (by simpa using own)] at present
      exact own (List.mem_singleton.mp (all used same present))
  · rintro ⟨inside, free⟩
    refine ⟨⟨page, List.mem_singleton_self page, inside⟩, fun used same present => ?_⟩
    by_contra own
    rw [List.mem_singleton] at own
    refine free ⟨used, same, ?_⟩
    rwa [gone.others _ (by simpa using own)]

theorem PageGone.kept (gone : PageGone state env page middle)
    (used : TableInUse middle env (page / 1024)) : Freed state env [page] middle := by
  have never : ∀ index, ¬Unused state env [page] index := by
    intro index unused
    rcases (gone.unused_iff index).mp unused with ⟨rfl, free⟩
    exact free used
  constructor
  · exact gone.heap
  · intro some member
    rw [List.mem_singleton.mp member]
    exact gone.written.entry
  · intro someEnv some outside
    exact gone.written.others someEnv some (by simpa using outside)
  · simpa using gone.resident
  · exact gone.otherSets
  · intro index unused
    exact absurd unused (never index)
  · intro owner index _
    rw [gone.pageDirectory]
  · rintro some (member | unused)
    · rw [List.mem_singleton.mp member]
      exact gone.entry
    · exact absurd unused (never _)
  · intro slot outside
    apply gone.others
    intro same
    exact outside page same (.inl (List.mem_singleton_self page))

theorem PageGone.removed (gone : PageGone state env page middle)
    (free : ¬TableInUse middle env (page / 1024))
    (table : TableGone middle env (page / 1024) final) : Freed state env [page] final := by
  have unused : Unused state env [page] (page / 1024) :=
    (gone.unused_iff _).mpr ⟨rfl, free⟩
  have only : ∀ index, Unused state env [page] index → index = page / 1024 := by
    intro index some
    exact ((gone.unused_iff index).mp some).1.symm
  constructor
  · exact gone.heap.trans table.heap
  · intro some member
    rw [List.mem_singleton.mp member, table.diskEntry]
    exact gone.written.entry
  · intro someEnv some outside
    rw [table.diskEntry]
    exact gone.written.others someEnv some (by simpa using outside)
  · intro some
    have same : final.view.Resident env some ↔ middle.view.Resident env some := by
      unfold View.Resident View.ResidentAt
      rw [table.workingSet]
    rw [same, gone.resident, List.mem_singleton]
  · intro other different
    rw [table.workingSet, gone.otherSets other different]
  · intro index some
    rw [only index some]
    exact table.directory
  · intro owner index outside
    rw [table.otherDirectories, gone.pageDirectory]
    rintro ⟨rfl, rfl⟩
    exact outside ⟨rfl, unused⟩
  · rintro some (member | lost)
    · rw [List.mem_singleton.mp member]
      exact table.entry page rfl
    · exact table.entry some (only _ lost)
  · intro slot outside
    rw [table.others, gone.others]
    · rintro rfl
      exact outside page rfl (.inl (List.mem_singleton_self page))
    · intro inside
      cases slot with
      | heap some => exact inside
      | user owner some =>
          rcases inside with ⟨rfl, same⟩
          exact outside some rfl (.inr (same ▸ unused))

theorem PageRemoved.heap (removed : PageRemoved state env page final) :
    SameHeap state final := by
  rcases removed.only with ⟨_, _, _, rfl⟩
  exact ⟨rfl, rfl, rfl, rfl⟩

theorem PageRemoved.releasing (removed : PageRemoved state env page final)
    (releasing : Releasing ghost env state) : Releasing ghost env final := by
  apply releasing.congr removed.heap
  · intro table _
    rw [removed.view]
  · rcases removed.only with ⟨_, _, _, rfl⟩
    exact releasing.disk.congr rfl rfl (fun _ => id) fun _ => id
  · rw [removed.view]
    exact releasing.tidy

theorem PageLeft.heap (left : PageLeft state env page final) : SameHeap state final := by
  rcases left.only with ⟨_, rfl⟩
  exact ⟨rfl, rfl, rfl, rfl⟩

theorem PageLeft.releasing (left : PageLeft state env page final)
    (releasing : Releasing ghost env state) : Releasing ghost env final := by
  apply releasing.congr left.heap
  · rcases left.only with ⟨_, rfl⟩
    intro _ _
    rfl
  · have same : final.diskDirectory = state.diskDirectory ∧
        final.diskTableDirectory = state.diskTableDirectory := by
      rcases left.only with ⟨_, rfl⟩
      exact ⟨rfl, rfl⟩
    apply releasing.disk.congr same.1 same.2
    · intro other none
      rwa [← left.diskEnvPgdir other]
    · intro other none
      rwa [← left.diskEnvTabledir other]
  · exact left.tidy

theorem EntryCleared.heap (cleared : EntryCleared state env page final) :
    SameHeap state final := by
  rcases cleared.only with ⟨_, _, _, _, rfl⟩
  exact ⟨rfl, rfl, rfl, rfl⟩

theorem EntryCleared.releasing (cleared : EntryCleared state env page final)
    (releasing : Releasing ghost env state) : Releasing ghost env final := by
  apply releasing.congr cleared.heap
  · rcases cleared.only with ⟨_, _, _, _, rfl⟩
    intro _ _
    rfl
  · rcases cleared.only with ⟨_, _, _, _, rfl⟩
    exact releasing.disk.congr rfl rfl (fun _ => id) fun _ => id
  · rcases cleared.only with ⟨_, _, _, _, rfl⟩
    exact releasing.tidy

theorem TableRemoved.releasing {index : Nat} (removed : TableRemoved state env index final)
    (releasing : Releasing ghost env state) : Releasing ghost env final := by
  apply releasing.congr removed.gone.heap
  · intro table nonzero
    cases table with
    | disk _ _ =>
        rcases removed.only with ⟨_, _, _, rfl⟩
        rfl
    | page owner someIndex =>
        by_cases user : someIndex < pdx userTop
        · rw [tableEntry_page user] at nonzero ⊢
          rw [tableEntry_page user]
          apply removed.gone.otherDirectories
          rintro ⟨rfl, rfl⟩
          exact nonzero removed.gone.directory
        · simp [State.view, State.tableEntry, user] at nonzero
  · rcases removed.only with ⟨_, _, _, rfl⟩
    exact releasing.disk.congr rfl rfl (fun _ => id) fun _ => id
  · rcases removed.only with ⟨_, _, _, rfl⟩
    exact releasing.tidy

theorem freeMemPage_gone (releasing : Releasing ghost env state) (user : address < userTop)
    (aligned : address % 4096 = 0) (positive : 0 < address)
    (returned : freeMemPage env address state = .ok ((), final)) :
    ∃ middle, PageGone state env (ppn address) middle ∧ Releasing ghost env middle ∧
      checkPageTable env address middle = .ok ((), final) := by
  have exact_address : ppn address * 4096 = address := by
    simp only [ppn]
    omega
  rcases bind_ok.mp returned with ⟨_, removed, removing, first⟩
  rcases bind_ok.mp (bind_get_ok.mp first) with ⟨_, left, leaving, second⟩
  rcases bind_ok.mp second with ⟨_, cleared, clearing, checked⟩
  have one := pfRemoveEnvPage_removed releasing user removing
  have ready := one.releasing releasing
  rw [← exact_address] at leaving
  have two := removeFromWorkingSet_left ready.tidy (show 0 < ppn address by omega) leaving
  have ready := two.releasing ready
  have three := unmapFrame_cleared ready user clearing
  refine ⟨cleared, ?_, three.releasing ready, checked⟩
  have entries : left.view.entry = state.view.entry := by
    have same : left.view.entry = removed.view.entry := by
      rcases two.only with ⟨_, rfl⟩
      rfl
    rw [same, one.view]
  have diskEntries : ∀ someEnv page, left.diskEntry someEnv page =
      removed.diskEntry someEnv page := by
    rcases two.only with ⟨_, rfl⟩
    exact fun _ _ => rfl
  have workingSets : cleared.view.workingSet = left.view.workingSet := by
    rcases three.only with ⟨_, _, _, _, rfl⟩
    rfl
  constructor
  · exact (one.heap.trans two.heap).trans three.heap
  · rcases three.only with ⟨_, _, _, _, rfl⟩
    rcases two.only with ⟨_, rfl⟩
    rcases one.only with ⟨_, _, _, rfl⟩
    rfl
  · constructor
    · rw [three.file, diskEntries]
      exact one.written.entry
    · intro someEnv some different
      rw [three.file, diskEntries]
      exact one.written.others someEnv some different
  · intro some
    have same : cleared.view.Resident env some ↔ left.view.Resident env some := by
      unfold View.Resident View.ResidentAt
      rw [workingSets]
    rw [same, two.resident, one.view]
  · intro other different
    rw [workingSets, two.others other different, one.view]
  · exact three.entry
  · intro slot different
    rw [three.others slot different, entries]

theorem freeMemPage_ok (releasing : Releasing ghost env state) (user : address < userTop)
    (aligned : address % 4096 = 0) (positive : 0 < address)
    (returned : freeMemPage env address state = .ok ((), final)) :
    Freed state env [ppn address] final ∧ Releasing ghost env final := by
  rcases freeMemPage_gone releasing user aligned positive returned with
    ⟨middle, gone, ready, checked⟩
  rcases checkPageTable_ok ready user checked with
    ⟨rfl, absent | used⟩ | ⟨free, removed⟩
  · by_cases used : TableInUse final env (pdx address)
    · exact ⟨gone.kept used, ready⟩
    · exact ⟨gone.removed used (.absent absent), ready⟩
  · exact ⟨gone.kept used, ready⟩
  · exact ⟨gone.removed free removed.gone, removed.releasing ready⟩

/-- Every page of a list of addresses is released. -/
theorem freeMemPages_ok {addresses : List Nat} (releasing : Releasing ghost env state)
    (inside : ∀ address ∈ addresses, address < userTop ∧ address % 4096 = 0 ∧ 0 < address)
    (returned : Kernel.forEach (freeMemPage env) addresses state = .ok ((), final)) :
    Freed state env (addresses.map ppn) final := by
  induction addresses generalizing state with
  | nil =>
      rcases pure_ok.mp returned with ⟨-, rfl⟩
      exact .refl state env
  | cons address addresses induction =>
      rcases bind_ok.mp returned with ⟨_, middle, first, rest⟩
      rcases inside address (by simp) with ⟨user, aligned, positive⟩
      rcases freeMemPage_ok releasing user aligned positive first with ⟨one, ready⟩
      have two := induction ready (fun other member => inside other (by simp [member])) rest
      exact one.trans two

end Release

end FosKernel
