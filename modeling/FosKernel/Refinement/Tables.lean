import FosKernel.Refinement.KernelHeap

/-! # Page tables and disk page tables

New tables come from the kernel heap. Getting one leaves the pages of all environments,
their working sets and the frames that hold pages as they are.
-/

namespace FosKernel

/-- The entry of a page in its disk page table: the disk frame, zero if there is none. -/
def State.diskEntry (state : State) (env page : Nat) : Word :=
  if state.diskDirectory env (page / 1024) = 0 then 0
  else state.memory (frameOf (state.diskDirectory env (page / 1024))) (page % 1024)

/-- The page file is as it was. -/
structure SameFile (state final : State) : Prop where
  diskEntry : ∀ env page, final.diskEntry env page = state.diskEntry env page
  diskTables : final.diskTableDirectory = state.diskTableDirectory
  sectors : final.sectors = state.sectors
  diskLinks : final.diskLinks = state.diskLinks
  diskFree : final.diskFreeFrameList = state.diskFreeFrameList

theorem SameFile.refl (state : State) : SameFile state state :=
  ⟨fun _ _ => rfl, rfl, rfl, rfl, rfl⟩

theorem SameFile.trans {state middle final : State} (first : SameFile state middle)
    (second : SameFile middle final) : SameFile state final where
  diskEntry env page := (second.diskEntry env page).trans (first.diskEntry env page)
  diskTables := second.diskTables.trans first.diskTables
  sectors := second.sectors.trans first.sectors
  diskLinks := second.diskLinks.trans first.diskLinks
  diskFree := second.diskFree.trans first.diskFree

/-- The running environment and the settings of the command prompt. -/
structure SameSettings (state final : State) : Prop where
  curenv : final.curenv = state.curenv
  modifiedBufferLength : final.modifiedBufferLength = state.modifiedBufferLength
  enableBuffering : final.enableBuffering = state.enableBuffering

theorem SameSettings.refl (state : State) : SameSettings state state := ⟨rfl, rfl, rfl⟩

theorem SameSettings.trans {state middle final : State} (first : SameSettings state middle)
    (second : SameSettings middle final) : SameSettings state final where
  curenv := second.curenv.trans first.curenv
  modifiedBufferLength := second.modifiedBufferLength.trans first.modifiedBufferLength
  enableBuffering := second.enableBuffering.trans first.enableBuffering

/-- A step that concerns no page of an environment. -/
structure Background (ghost : Ghost) (state : State) (after : Ghost) (final : State) :
    Prop where
  evolves : Evolves (fun _ => False) ghost state.view after final.view
  shared : ∀ env page, Slot.user env page ∈ after.uncounted →
    Slot.user env page ∈ ghost.uncounted
  userEntry : ∀ env page,
    final.view.entry (.user env page) = state.view.entry (.user env page)
  workingSet : final.view.workingSet = state.view.workingSet
  tables : ∀ table, state.view.table table ≠ 0 → final.view.table table = state.view.table table
  memory : ∀ frame env page, Slot.user env page ∈ ghost.holders frame →
    final.memory frame = state.memory frame
  unmanaged : ∀ frame, frame ∉ ghost.managed → final.memory frame = state.memory frame
  idle : ∀ frame ∈ after.free, frame ∈ ghost.free ∧ final.memory frame = state.memory frame
  apart : ∀ frame, ¬ghost.Listed frame → (∀ page, Slot.heap page ∉ ghost.holders frame) →
    final.memory frame = state.memory frame
  modified : final.modifiedFrameList.size = state.modifiedFrameList.size
  settings : SameSettings state final

section Steps

variable {ghost middle after : Ghost} {state between final : State}
variable {frame address : Nat}

namespace Background

theorem refl (consistent : Consistent ghost state.view) : Background ghost state ghost state where
  evolves := .refl consistent
  shared _ _ hidden := hidden
  userEntry _ _ := rfl
  workingSet := rfl
  tables _ _ := rfl
  memory _ _ _ _ := rfl
  unmanaged _ _ := rfl
  idle _ free := ⟨free, rfl⟩
  apart _ _ _ := rfl
  modified := rfl
  settings := .refl state

/-- The pages that hold a frame are the same. -/
theorem user_holds (step : Background ghost state after final)
    (consistent : Consistent ghost state.view) {env : Directory} {page : Nat} :
    Slot.user env page ∈ after.holders frame ↔ Slot.user env page ∈ ghost.holders frame := by
  rw [step.evolves.consistent.mem_holders, consistent.mem_holders, step.userEntry]
  have hidden : Slot.user env page ∈ after.uncounted ↔ Slot.user env page ∈ ghost.uncounted :=
    ⟨step.shared env page, fun before => (step.evolves.window env page before).1⟩
  rw [hidden]

theorem trans (first : Background ghost state middle between)
    (second : Background middle between after final)
    (consistent : Consistent ghost state.view) : Background ghost state after final where
  evolves := first.evolves.andThen second.evolves
  shared env page hidden := first.shared env page (second.shared env page hidden)
  userEntry env page := (second.userEntry env page).trans (first.userEntry env page)
  workingSet := second.workingSet.trans first.workingSet
  tables := by
    intro table nonzero
    have same := first.tables table nonzero
    rw [second.tables table (by rwa [same]), same]
  memory := by
    intro frame env page held
    rw [second.memory frame env page ((first.user_holds consistent).mpr held),
      first.memory frame env page held]
  unmanaged := by
    intro frame outside
    rw [second.unmanaged frame (by rwa [first.evolves.managed]), first.unmanaged frame outside]
  idle := by
    intro frame free
    have middle := second.idle frame free
    have before := first.idle frame middle.1
    exact ⟨before.1, middle.2.trans before.2⟩
  apart := by
    intro frame unlisted noHeap
    have kept := first.evolves.kept frame unlisted id
    rw [second.apart frame kept.1 (by rwa [kept.2.1]), first.apart frame unlisted noHeap]
  modified := second.modified.trans first.modified
  settings := first.settings.trans second.settings

theorem ofGrowth {pages : List Nat} (growth : HeapGrowth ghost state.view pages after final.view)
    (only : HeapOnly state final) : Background ghost state after final where
  evolves := growth.evolves
  shared env page hidden := growth.uncounted ▸ hidden
  userEntry := only.userEntry
  workingSet := only.workingSet
  tables table _ := by rw [only.table]
  memory frame _ _ _ := by rw [only.memory]
  unmanaged frame _ := by rw [only.memory]
  idle frame free := ⟨growth.subset frame free, by rw [only.memory]⟩
  apart frame _ _ := by rw [only.memory]
  modified := by
    rcases only with ⟨_, _, _, _, _, _, _, rfl⟩
    rfl
  settings := by
    rcases only with ⟨_, _, _, _, _, _, _, rfl⟩
    exact ⟨rfl, rfl, rfl⟩

end Background

theorem HeapOnly.sameFile (only : HeapOnly state final) : SameFile state final := by
  rcases only with ⟨_, _, _, _, _, _, _, rfl⟩
  exact ⟨fun _ _ => rfl, rfl, rfl, rfl, rfl⟩

/-! ## One page of the kernel heap -/

/-- A heap page that `kmalloc` returned. -/
structure NewHeapPage (ghost : Ghost) (state : State) (frame address : Nat) (after : Ghost)
    (final : State) : Prop where
  heap : HeapAddress address
  growth : HeapGrowth ghost state.view [ppn address] after final.view
  handed : HandedOut ghost after final.view frame (ppn address)
  only : HeapOnly state final
  records : HeapRecords state → HeapRecords final
  single : SingleRecords state → SingleRecords final

theorem kmalloc_page (consistent : Consistent ghost state.view)
    (returned : kmalloc 4096 state = .ok (address, final)) (nonzero : address ≠ 0) :
    ∃ frame after, NewHeapPage ghost state frame address after final := by
  have request : Request 4096 := ⟨by decide, by decide⟩
  rcases kmalloc_ok consistent request returned with
    ⟨zero, -⟩ | ⟨record, after, rfl, allocation⟩
  · exact absurd zero nonzero
  · rcases allocation.scanned with ⟨start, scanned⟩
    have single : roundUp 4096 / 4096 = 1 := rfl
    have last : record.last = record.first := by
      rw [scanned.last, scanned.first, single]
      rfl
    have pages : (pageRange record.first (record.last + 1)).map ppn = [ppn record.first] := by
      have count : (record.first + 1 - record.first + 4095) / 4096 = 1 := by omega
      rw [last, pageRange, count]
      rfl
    have growth := allocation.growth
    rw [pages] at growth
    rcases growth.handedOut (ppn record.first) (by simp) with ⟨frame, handed⟩
    exact ⟨frame, after, scanned.first_heapAddress, growth, handed, allocation.only,
      allocation.heapRecords, allocation.singleRecords last⟩

theorem kheapPhysicalAddress_heap (layout : HeapLayout state.view) (heap : HeapAddress address)
    (returned : kheapPhysicalAddress state address = .ok frame) :
    frame = frameOf (state.view.entry (.heap (ppn address))) := by
  rcases Except.bind_ok.mp returned with ⟨⟨status, pointer⟩, looked, ended⟩
  rw [getPageTable_kernel _ heap.kernel] at looked
  rcases kernelPageTable_heap layout heap looked with ⟨rfl, rfl⟩
  rcases Except.bind_ok.mp ended with ⟨word, loaded, ended⟩
  cases loaded
  cases ended
  rw [pdx_mul_add_ptx]
  exact congrArg frameOf heap.slotEntry.symm

namespace NewHeapPage

variable (new : NewHeapPage ghost state frame address after final)

include new

theorem bound (consistent : Consistent ghost state.view) : frame < 2 ^ 20 :=
  consistent.bounded frame (consistent.listedManaged frame (.inl new.handed.free))

theorem physical (consistent : Consistent ghost state.view) {result : Nat}
    (returned : kheapPhysicalAddress final address = .ok result) : result = frame := by
  rw [kheapPhysicalAddress_heap new.growth.consistent.toHeapLayout new.heap returned,
    new.handed.entry, frameOf_heapEntry (new.bound consistent)]

theorem mapped (consistent : Consistent ghost state.view) {result : Nat}
    (returned : kernelFrame final address = .ok result) : result = frame := by
  rcases kernelFrame_ok returned with ⟨-, rfl⟩
  have entry := new.handed.entry
  rw [show final.view.entry (.heap (ppn address)) = final.bootTables (ppn address) from
    new.heap.slotEntry] at entry
  rw [entry, frameOf_heapEntry (new.bound consistent)]

theorem managed (consistent : Consistent ghost state.view) : frame ∈ after.managed := by
  rw [new.growth.managed]
  exact consistent.listedManaged frame (.inl new.handed.free)

theorem pointsTo (consistent : Consistent ghost state.view) :
    PointsTo final (.kernel address) frame := by
  refine ⟨address, rfl, new.heap, ?_⟩
  have entry := new.handed.entry
  rw [show final.view.entry (.heap (ppn address)) = final.bootTables (ppn address) from
    new.heap.slotEntry] at entry
  rw [entry, frameOf_heapEntry (new.bound consistent)]

/-- No table has got this frame yet. -/
theorem fresh (consistent : Consistent ghost state.view) :
    ∀ table, final.view.table table ≠ 0 → frameOf (final.view.table table) ≠ frame := by
  intro table nonzero refers
  rw [new.only.table] at nonzero refers
  exact consistent.table_not_listed nonzero (refers ▸ .inl new.handed.free)

theorem background : Background ghost state after final := .ofGrowth new.growth new.only

end NewHeapPage

/-! ## Tables -/

/-- The entry that makes a frame a page table. -/
abbrev tableWord (frame : Nat) : Word :=
  constructEntry frame (permPresent ||| permWriteable ||| permUser)

abbrev diskTableWord (frame : Nat) : Word := constructEntry frame permPresent

/-- An empty page table appears. -/
theorem State.view_newTable {owner : Directory} {index frame : Nat} {word : Word}
    (free : state.pageDirectory owner index = 0) (user : index < pdx userTop)
    (refers : frameOf word = frame) (noTable : NoPageTable state.view frame) :
    ((state.setDirectoryEntry owner index word).setPage frame fun _ => 0).view =
      state.view.setTable (.page owner index) word := by
  apply View.ext <;> try rfl
  · funext slot
    cases slot with
    | heap page => rfl
    | user other page =>
        by_cases own : other = owner ∧ page / 1024 = index
        · rcases own with ⟨rfl, rfl⟩
          simp [State.view, State.slotEntry, View.setTable, State.setPage,
            State.setDirectoryEntry, refers, free]
        · have directory : (state.setDirectoryEntry owner index word).pageDirectory
              other (page / 1024) = state.pageDirectory other (page / 1024) := by
            simp only [State.setDirectoryEntry]
            by_cases same : other = owner
            · subst same
              have different : page / 1024 ≠ index := fun equal => own ⟨rfl, equal⟩
              simp [different]
            · simp [same]
          have kept := congrArg (fun view => view.entry (.user other page))
            (State.view_setPage noTable fun _ => 0)
          simp only [State.view, State.slotEntry] at kept ⊢
          simp only [State.setPage, directory, View.setTable] at kept ⊢
          exact kept
  · funext table
    cases table with
    | page other someIndex =>
        by_cases own : other = owner ∧ someIndex = index
        · rcases own with ⟨rfl, rfl⟩
          simp [State.view, State.tableEntry, View.setTable, State.setPage,
            State.setDirectoryEntry, user]
        · by_cases same : other = owner
          · subst same
            have different : someIndex ≠ index := fun equal => own ⟨rfl, equal⟩
            simp [State.view, State.tableEntry, View.setTable, State.setPage,
              State.setDirectoryEntry, different]
          · simp [State.view, State.tableEntry, View.setTable, State.setPage,
              State.setDirectoryEntry, same]
    | disk other someIndex => simp [State.view, State.tableEntry, View.setTable,
        State.setPage, State.setDirectoryEntry]
  · funext someIndex
    simp only [State.view, View.setTable, State.setPage, State.setDirectoryEntry]
    by_cases below : someIndex < pdx userTop
    · simp [below]
    · have different : someIndex ≠ index := fun equal => below (equal ▸ user)
      by_cases kernel : owner = .kernel
      · subst kernel
        simp [below, different]
      · simp [below, Ne.symm kernel]

/-- A frame that no disk page table is in. -/
theorem diskEntry_setPage (noTable : ∀ table, state.view.table table ≠ 0 →
      frameOf (state.view.table table) ≠ frame) (content : Nat → Word) (env page : Nat) :
    (state.setPage frame content).diskEntry env page = state.diskEntry env page := by
  by_cases zero : state.diskDirectory env (page / 1024) = 0
  · simp [State.diskEntry, State.setPage, zero]
  · have different := noTable (.disk env (page / 1024)) zero
    rw [show state.view.table (.disk env (page / 1024)) =
      state.diskDirectory env (page / 1024) from rfl] at different
    simp [State.diskEntry, State.setPage, different]

theorem present_tableWord (frame : Nat) : hasPerm (tableWord frame) permPresent = true := by
  rw [hasPerm_present, getLsbD_constructEntry _ _ (by decide)]
  decide

theorem frameOf_tableWord (bound : frame < 2 ^ 20) : frameOf (tableWord frame) = frame :=
  frameOf_constructEntry bound (by decide)

/-- A page table that was made for an address. -/
structure NewTable (ghost : Ghost) (state : State) (owner : Directory)
    (address : Nat) (pointer : TablePointer) (after : Ghost) (final : State) : Prop where
  background : Background ghost state after final
  file : SameFile state final
  present : hasPerm (directoryEntry final owner address) permPresent = true
  points : PointsTo final pointer (frameOf (directoryEntry final owner address))
  otherTables : ∀ table, table ≠ .page owner (pdx address) →
    final.view.table table = state.view.table table
  records : HeapRecords state → HeapRecords final
  envs : final.envs = state.envs
  growth : ∃ frame page between, HeapGrowth ghost state.view [page] after between ∧
    HandedOut ghost after between frame page ∧
    final.view = between.setTable (.page owner (pdx address)) (tableWord frame)

theorem createPageTable_ok (consistent : Consistent ghost state.view) {owner : Directory}
    (user : address < userTop) (free : directoryEntry state owner address = 0)
    {pointer : TablePointer}
    (returned : createPageTable owner address state = .ok (pointer, final)) :
    ∃ after, NewTable ghost state owner address pointer after final := by
  rcases Kernel.bind_ok.mp returned with ⟨newPT, grown, allocated, returned⟩
  rcases Kernel.ite_ok.mp returned with ⟨-, stopped⟩ | ⟨nonzero, returned⟩
  · rcases Kernel.bind_ok.mp stopped with ⟨_, _, thrown, -⟩
    exact (Kernel.throw_ok.mp thrown).elim
  rcases kmalloc_page consistent allocated nonzero with ⟨frame, after, new⟩
  rcases Kernel.bind_observe_ok.mp returned with ⟨physical, looked, returned⟩
  rcases new.physical consistent looked with rfl
  replace returned := Kernel.bind_modify_ok.mp returned
  rcases Kernel.bind_observe_ok.mp returned with ⟨result, found, returned⟩
  rcases new.mapped consistent found with rfl
  replace returned := Kernel.bind_modify_ok.mp returned
  rcases Kernel.pure_ok.mp returned with ⟨rfl, rfl⟩
  have index := (address_user user).2
  have bound := new.bound consistent
  have refers := frameOf_tableWord bound
  have stillFree : grown.pageDirectory owner (pdx address) = 0 := by
    rw [new.only.pageDirectory]
    exact free
  have view := State.view_newTable stillFree index refers fun env index =>
    new.fresh consistent (.page env index)
  have entered : Consistent after (grown.view.setTable (.page owner (pdx address))
      (tableWord result)) := by
    have held : after.holders (frameOf (tableWord result)) = {.heap (ppn newPT)} := by
      rw [refers]
      exact new.handed.held
    refine new.growth.consistent.setTable ?_ (present_tableWord result) held ?_
    · rw [tableEntry_page index]
      exact stillFree
    · rw [refers]
      exact new.fresh consistent
  have directory : ((grown.setDirectoryEntry owner (pdx address)
      (tableWord result)).setPage result fun _ => 0).pageDirectory owner (pdx address) =
        tableWord result := by
    simp [State.setDirectoryEntry, State.setPage]
  have background : Background after grown after ((grown.setDirectoryEntry owner
      (pdx address) (tableWord result)).setPage result fun _ => 0) :=
    { evolves := by
        rw [view]
        exact .ofSetTable entered
      shared := fun _ _ hidden => hidden
      userEntry := by
        intro someEnv page
        rw [view]
        rfl
      workingSet := rfl
      tables := by
        intro table someNonzero
        have different : table ≠ .page owner (pdx address) := by
          rintro rfl
          rw [tableEntry_page index] at someNonzero
          exact someNonzero stillFree
        rw [view]
        simp [View.setTable, different]
      memory := by
        intro frame someEnv page held
        have different : frame ≠ result := by
          rintro rfl
          rw [new.handed.held, Finset.mem_singleton] at held
          contradiction
        simp [State.setPage, State.setDirectoryEntry, different]
      unmanaged := by
        intro frame outside
        have different : frame ≠ result := by
          rintro rfl
          exact outside (new.managed consistent)
        simp [State.setPage, State.setDirectoryEntry, different]
      idle := by
        intro frame free
        have different : frame ≠ result := by
          rintro rfl
          exact new.handed.taken free
        simp [State.setPage, State.setDirectoryEntry, different, free]
      apart := by
        intro frame _ noHeap
        have different : frame ≠ result := by
          rintro rfl
          exact noHeap _ (by rw [new.handed.held]; exact Finset.mem_singleton_self _)
        simp [State.setPage, State.setDirectoryEntry, different]
      modified := rfl
      settings := ⟨rfl, rfl, rfl⟩ }
  refine ⟨after, new.background.trans background consistent, ?_, ?_, ?_, ?_, new.records,
    new.only.envs, result, ppn newPT, grown.view, new.growth, new.handed, view⟩
  · refine new.only.sameFile.trans ⟨fun someEnv page => ?_, rfl, rfl, rfl, rfl⟩
    exact diskEntry_setPage (new.fresh consistent) (fun _ => 0) someEnv page
  · rw [directoryEntry, directory]
    exact present_tableWord result
  · rw [directoryEntry, directory, refers]
    exact (new.pointsTo consistent).congr rfl
  · intro table different
    rw [view, ← new.only.table]
    simp [View.setTable, different]

end Steps

end FosKernel
