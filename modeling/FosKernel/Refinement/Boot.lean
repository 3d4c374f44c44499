import FosKernel.Refinement.KernelHeap
import FosKernel.Refinement.BootForm
import FosKernel.Refinement.Unbuffered

/-! # The state after boot

`initialize_paging` leaves consistent memory: the frames outside the kernel are free,
nothing is mapped in the kernel heap and no environment exists.
-/

namespace FosKernel

open LinkedList

/-- The parts of the state that `initialize_paging` works on. -/
def BootOnly (state final : State) : Prop :=
  ∃ framesInfo frameLinks freeFrameList modifiedFrameList memory diskLinks diskFreeFrameList,
    final = { state with
      framesInfo, frameLinks, freeFrameList, modifiedFrameList, memory, diskLinks,
      diskFreeFrameList }

theorem BootOnly.refl (state : State) : BootOnly state state := ⟨_, _, _, _, _, _, _, rfl⟩

theorem BootOnly.trans {state middle final : State} (first : BootOnly state middle)
    (second : BootOnly middle final) : BootOnly state final := by
  rcases first with ⟨_, _, _, _, _, _, _, rfl⟩
  rcases second with ⟨_, _, _, _, _, _, _, rfl⟩
  exact ⟨_, _, _, _, _, _, _, rfl⟩

/-! ## Frames -/

/-- The memory manager as boot finds it: the frames it will manage are on no list yet. -/
def BootLayout.ghost (layout : BootLayout) : Ghost where
  free := []
  modified := []
  holders _ := ∅
  uncounted := ∅
  managed := (Finset.range layout.numberOfFrames).filter fun frame =>
    3 ≤ frame ∧ frame < ioFrame ∨ layout.kernelFrames ≤ frame
  active := ∅
  loose := ∅

theorem mem_counter {start stop value : Nat} :
    value ∈ counter start stop ↔ start ≤ value ∧ value < stop := by
  simp only [counter, List.mem_range'_1]
  omega

theorem counter_nodup (start stop : Nat) : (counter start stop).Nodup :=
  List.nodup_range'

section Boot

variable {layout : BootLayout} {contents : BootContents} {ghost : Ghost} {state final : State}

theorem BootLayout.bootTables_heap (layout : BootLayout) {page : Nat}
    (lower : ppn kernelHeapStart ≤ page) : layout.bootTables page = 0 := by
  have below := layout.belowHeap
  have envs := layout.envsTable
  unfold BootLayout.bootTables
  rw [if_neg, if_neg, if_neg]
  all_goals
    simp only [ppn, kernelBase, kernelHeapStart, userTop] at *
    omega

theorem BootLayout.directory_heap (layout : BootLayout) {index : Nat}
    (lower : pdx kernelHeapStart ≤ index) (upper : index < 1024) :
    layout.directory index =
      constructEntry (layout.tableFrame index) (permPresent ||| permWriteable) := by
  simp only [pdx, ppn, kernelHeapStart] at lower
  have table : hasBootTable index := by
    right; right
    simp only [pdx, ppn, kernelBase]
    omega
  have notUser : ¬index = pdx userTop := by
    simp only [pdx, ppn, userTop]
    omega
  rw [BootLayout.directory, if_neg (by omega), if_neg (by omega), if_neg notUser, if_pos table]

theorem BootLayout.directory_present (layout : BootLayout) {index : Nat}
    (lower : pdx kernelHeapStart ≤ index) (upper : index < 1024) :
    hasPerm (layout.directory index) permPresent = true := by
  rw [layout.directory_heap lower upper, hasPerm_present,
    getLsbD_constructEntry _ _ (by decide)]
  decide

theorem beforePaging_directory (owner : Directory) {index : Nat}
    (user : index < pdx userTop) :
    (layout.beforePaging contents).pageDirectory owner index = 0 := by
  cases owner with
  | kernel =>
      change layout.directory index = 0
      simp only [pdx, ppn, userTop] at user
      rw [BootLayout.directory, if_neg (by omega), if_neg (by omega), if_neg, if_neg]
      · simp only [hasBootTable, pdx, ppn, userTop, userLimit, kernelBase]
        omega
      · simp only [pdx, ppn, userTop]
        omega
  | env index => rfl

theorem userEntry_of_no_tables {state : State}
    (empty : ∀ owner index, index < pdx userTop → state.pageDirectory owner index = 0)
    (owner : Directory) (page : Nat) : state.view.entry (.user owner page) = 0 := by
  by_cases user : page < ppn userTop
  · simp only [State.view, State.slotEntry, empty owner (page / 1024) (page_table_lt user)]
    simp
  · simp [State.view, State.slotEntry, user]

/-- No page is mapped before the first allocation. -/
theorem beforePaging_entry (slot : Slot) :
    (layout.beforePaging contents).view.entry slot = 0 := by
  cases slot with
  | heap page =>
      simp only [State.view, State.slotEntry]
      split
      · next inside => exact layout.bootTables_heap inside.1
      · rfl
  | user owner page =>
      exact userEntry_of_no_tables (fun owner _ => beforePaging_directory owner) owner page

theorem beforePaging_table (table : Table) :
    (layout.beforePaging contents).view.table table = 0 := by
  cases table with
  | page owner index =>
      by_cases user : index < pdx userTop
      · rw [tableEntry_page user]
        exact beforePaging_directory owner user
      · simp [State.view, State.tableEntry, user]
  | disk env index => rfl

theorem beforePaging_consistent :
    Consistent layout.ghost (layout.beforePaging contents).view where
  lists := by
    have empty : Represents (layout.beforePaging contents).view.links ListHead.empty [] :=
      { linked := .nil _, nodup := .nil, first := rfl, last := rfl, size := rfl }
    exact ⟨empty, empty, by simp [BootLayout.ghost]⟩
  listedManaged := by simp [Ghost.Listed, BootLayout.ghost]
  bounded := by
    intro frame member
    have physical := layout.physical
    simp only [BootLayout.ghost, Finset.mem_filter, Finset.mem_range] at member
    omega
  anonymous _ := rfl
  holds := by
    intro frame slot
    rw [View.target_eq_some]
    simp only [beforePaging_entry, BootLayout.ghost]
    simp
  heldManaged := by simp [BootLayout.ghost]
  counted _ _ _ := rfl
  unbuffered _ _ _ := rfl
  present := by simp [BootLayout.ghost]
  idle _ _ _ := rfl
  buffered := by simp [BootLayout.ghost]
  modifiedBuffered := by simp [BootLayout.ghost]
  tablePresent table nonzero := absurd (beforePaging_table table) nonzero
  tableHeld table nonzero := absurd (beforePaging_table table) nonzero
  tableDistinct table _ nonzero := absurd (beforePaging_table table) nonzero
  window := by simp [BootLayout.ghost]
  resident := by simp [BootLayout.ghost]
  residentPage := by simp [BootLayout.ghost]
  residentOnce := by simp [BootLayout.ghost]
  windowPages := by simp [BootLayout.ghost]
  lastIndex := by simp [BootLayout.ghost]
  cleared := by simp [BootLayout.ghost]
  tracked := by simp [BootLayout.ghost]
  kernelTables index lower upper := by
    rw [kernelDirectory_heap lower]
    exact layout.directory_present lower upper
  startLower := le_rfl
  startUpper := (by decide : kernelHeapStart ≤ kernelHeapMax)
  startAligned := (by decide : kernelHeapStart % 4096 = 0)

theorem freeFrames_ok {frames : List Nat} (consistent : Consistent ghost state.view)
    (managed : ∀ frame ∈ frames, frame ∈ ghost.managed)
    (unlisted : ∀ frame ∈ frames, ¬ghost.Listed frame)
    (unheld : ∀ frame ∈ frames, ghost.holders frame = ∅) (nodup : frames.Nodup)
    (returned : Kernel.forEach freeFrame frames state = .ok ((), final)) :
    Consistent { ghost with free := frames.reverse ++ ghost.free } final.view ∧
      BootOnly state final := by
  induction frames generalizing state ghost with
  | nil =>
      rcases Kernel.pure_ok.mp returned with ⟨-, rfl⟩
      exact ⟨consistent, .refl state⟩
  | cons frame frames induction =>
      rcases Kernel.bind_ok.mp returned with ⟨_, middle, freed, rest⟩
      rcases freeFrame_ok freed with rfl
      rw [List.nodup_cons] at nodup
      have released := consistent.release (managed frame (by simp))
        (unlisted frame (by simp)) (unheld frame (by simp))
      rw [← State.view_release] at released
      have stillUnlisted : ∀ other ∈ frames,
          ¬({ ghost with free := frame :: ghost.free } : Ghost).Listed other := by
        intro other member
        have different : other ≠ frame := fun equal => nodup.1 (equal ▸ member)
        simpa [Ghost.Listed, different] using unlisted other (by simp [member])
      rcases induction released (fun other member => managed other (by simp [member]))
        stillUnlisted (fun other member => unheld other (by simp [member]))
        nodup.2 rest with ⟨later, only⟩
      refine ⟨?_, BootOnly.trans ⟨_, _, _, _, _, _, _, rfl⟩ only⟩
      simpa using later

/-- The count of a frame outside the lists and the entries. -/
theorem Consistent.setUnmanaged {view : View} {frame : Nat}
    (consistent : Consistent ghost view) (unmanaged : frame ∉ ghost.managed)
    (info : FrameInfo) (anonymous : info.environment = none) :
    Consistent ghost (view.setInfo frame info) := by
  have infoOf : ∀ other ∈ ghost.managed,
      (view.setInfo frame info).info other = view.info other := by
    intro other member
    have different : other ≠ frame := fun equal => unmanaged (equal ▸ member)
    simp [View.setInfo, different]
  exact
    { lists := consistent.lists
      listedManaged := consistent.listedManaged
      bounded := consistent.bounded
      anonymous := by
        intro other
        by_cases same : other = frame
        · simpa [View.setInfo, same] using anonymous
        · simpa [View.setInfo, same] using consistent.anonymous other
      holds := consistent.holds
      heldManaged := consistent.heldManaged
      counted := by
        intro other member unlisted
        rw [infoOf other member]
        exact consistent.counted other member unlisted
      unbuffered := by
        intro other member unlisted
        rw [infoOf other member]
        exact consistent.unbuffered other member unlisted
      present := consistent.present
      idle := by
        intro other listed
        rw [infoOf other (consistent.listedManaged other listed)]
        exact consistent.idle other listed
      buffered := by
        intro other listed
        rw [infoOf other (consistent.listedManaged other listed)]
        exact consistent.buffered other listed
      modifiedBuffered := by
        intro other inModified
        rw [infoOf other (consistent.listedManaged other (.inr inModified))]
        exact consistent.modifiedBuffered other inModified
      toPlacement := { consistent.toPlacement with }
      toResidency := { consistent.toResidency with }
      toHeapLayout := { consistent.toHeapLayout with } }

theorem setReferences_ok {frames : List Nat} {references : Nat}
    (consistent : Consistent ghost state.view)
    (unmanaged : ∀ frame ∈ frames, frame ∉ ghost.managed)
    (returned : Kernel.forEach (setReferences references) frames state = .ok ((), final)) :
    Consistent ghost final.view ∧ BootOnly state final := by
  induction frames generalizing state with
  | nil =>
      rcases Kernel.pure_ok.mp returned with ⟨-, rfl⟩
      exact ⟨consistent, .refl state⟩
  | cons frame frames induction =>
      rcases Kernel.bind_ok.mp returned with ⟨_, middle, counted, rest⟩
      rcases Kernel.modify_ok.mp counted with rfl
      have changed : Consistent ghost
          (state.setFrameInfo frame { state.framesInfo frame with references }).view :=
        consistent.setUnmanaged (unmanaged frame (by simp)) _ (consistent.anonymous frame)
      rcases induction changed (fun other member => unmanaged other (by simp [member])) rest
        with ⟨later, only⟩
      exact ⟨later, BootOnly.trans ⟨_, _, _, _, _, _, _, rfl⟩ only⟩

/-- The frames that will be managed keep cleared records. -/
def Blank (managed : Finset Nat) (state : State) : Prop :=
  ∀ frame ∈ managed, state.framesInfo frame = FrameInfo.zero

theorem freeFrames_blank {managed : Finset Nat} {frames : List Nat}
    (blank : Blank managed state)
    (returned : Kernel.forEach freeFrame frames state = .ok ((), final)) :
    Blank managed final := by
  induction frames generalizing state with
  | nil =>
      rcases Kernel.pure_ok.mp returned with ⟨-, rfl⟩
      exact blank
  | cons frame frames induction =>
      rcases Kernel.bind_ok.mp returned with ⟨_, middle, freed, rest⟩
      rcases freeFrame_ok freed with rfl
      refine induction ?_ rest
      intro other member
      by_cases same : other = frame
      · simp [State.release, State.withFree, same]
      · simpa [State.release, State.withFree, same] using blank other member

theorem setReferences_blank {managed : Finset Nat} {frames : List Nat} {references : Nat}
    (blank : Blank managed state) (unmanaged : ∀ frame ∈ frames, frame ∉ managed)
    (returned : Kernel.forEach (setReferences references) frames state = .ok ((), final)) :
    Blank managed final := by
  induction frames generalizing state with
  | nil =>
      rcases Kernel.pure_ok.mp returned with ⟨-, rfl⟩
      exact blank
  | cons frame frames induction =>
      rcases Kernel.bind_ok.mp returned with ⟨_, middle, counted, rest⟩
      rcases Kernel.modify_ok.mp counted with rfl
      refine induction ?_ (fun other member => unmanaged other (by simp [member])) rest
      intro other member
      have different : other ≠ frame := fun equal =>
        unmanaged frame (by simp) (equal ▸ member)
      simpa [State.setFrameInfo, different] using blank other member

/-- The disk frames concern neither memory nor its records. -/
theorem initializeDiskPageFile_ok
    (returned : initializeDiskPageFile state = .ok ((), final)) :
    BootOnly state final ∧ final.view = state.view := by
  replace returned := Kernel.bind_modify_ok.mp returned
  have step : ∀ {frames : List Nat} {state final : State},
      Kernel.forEach (fun dfn => do
        modify fun state =>
          { state with diskLinks := Function.update state.diskLinks dfn Link.null }
        modify fun state => state.withDiskFree (listInsertHead state.diskFree dfn))
        frames state = .ok ((), final) → BootOnly state final ∧ final.view = state.view := by
    intro frames
    induction frames with
    | nil =>
        intro state final ended
        rcases Kernel.pure_ok.mp ended with ⟨-, rfl⟩
        exact ⟨.refl state, rfl⟩
    | cons frame frames induction =>
        intro state final looped
        rcases Kernel.bind_ok.mp looped with ⟨_, middle, inserted, rest⟩
        rcases Kernel.modify_ok.mp (Kernel.bind_modify_ok.mp inserted) with rfl
        rcases induction rest with ⟨only, same⟩
        exact ⟨BootOnly.trans ⟨_, _, _, _, _, _, _, rfl⟩ only, same.trans rfl⟩
  rcases step returned with ⟨only, same⟩
  exact ⟨BootOnly.trans ⟨_, _, _, _, _, _, _, rfl⟩ only, same.trans rfl⟩

theorem BootOnly.userEntry (only : BootOnly (layout.beforePaging contents) state)
    (owner : Directory) (page : Nat) : state.view.entry (.user owner page) = 0 := by
  refine userEntry_of_no_tables ?_ owner page
  intro other index user
  rcases only with ⟨_, _, _, _, _, _, _, rfl⟩
  exact (beforePaging_directory other user :
    (layout.beforePaging contents).pageDirectory other index = 0)

/-- Without page directories no frame holds a page table. -/
theorem clearZeroPages_ok (only : BootOnly (layout.beforePaging contents) state)
    (returned : clearZeroPages state = .ok ((), final)) :
    final.view = state.view ∧ BootOnly (layout.beforePaging contents) final := by
  have onlyAfter : BootOnly (layout.beforePaging contents) final := by
    rcases only with ⟨_, _, _, _, _, _, _, rfl⟩
    rcases Kernel.modify_ok.mp returned with rfl
    exact ⟨_, _, _, _, _, _, _, rfl⟩
  refine ⟨?_, onlyAfter⟩
  have entries : ∀ owner page,
      final.view.entry (.user owner page) = state.view.entry (.user owner page) :=
    fun owner page => (onlyAfter.userEntry owner page).trans (only.userEntry owner page).symm
  rcases Kernel.modify_ok.mp returned with rfl
  apply View.ext <;> try rfl
  funext slot
  cases slot with
  | heap page => rfl
  | user owner page => exact entries owner page

/-- No page is mapped after boot. -/
structure Booted (layout : BootLayout) (contents : BootContents) (ghost : Ghost)
    (state : State) : Prop where
  consistent : Consistent ghost state.view
  only : BootOnly (layout.beforePaging contents) state
  empty : ∃ free, ghost = { layout.ghost with free }
  unbuffered : Unbuffered state
  blank : Blank ghost.managed state
  allFree : ∀ frame ∈ ghost.managed, frame ∈ ghost.free

theorem initializePaging_ok
    (returned : initializePaging layout.kernelFrames (layout.beforePaging contents) =
      .ok ((), state)) : ∃ ghost, Booted layout contents ghost state := by
  have kernelLower := layout.kernelLower
  have memManaged : ∀ frame, frame ∈ layout.ghost.managed ↔ frame < layout.numberOfFrames ∧
      (3 ≤ frame ∧ frame < ioFrame ∨ layout.kernelFrames ≤ frame) := by
    intro frame
    simp [BootLayout.ghost]
  have unbuffered := initializePaging_unbuffered _ _ _ _
    (beforePaging_unbuffered layout contents) returned
  unfold initializePaging at returned
  rcases Kernel.bind_ok.mp returned with ⟨_, emptied, initFree, returned⟩
  rcases Kernel.bind_ok.mp returned with ⟨_, ready, initModified, returned⟩
  have readyView : ready.view = (layout.beforePaging contents).view := by
    rw [← Kernel.modify_ok.mp initModified, ← Kernel.modify_ok.mp initFree]
    rfl
  have onlyReady : BootOnly (layout.beforePaging contents) ready := by
    rw [← Kernel.modify_ok.mp initModified, ← Kernel.modify_ok.mp initFree]
    exact ⟨_, _, _, _, _, _, _, rfl⟩
  have consistent : Consistent layout.ghost ready.view := by
    rw [readyView]
    exact beforePaging_consistent
  have blank : Blank layout.ghost.managed ready := by
    intro frame _
    exact congrArg (fun view => view.info frame) readyView
  rcases Kernel.bind_ok.mp returned with ⟨_, lowest, first, returned⟩
  have lowestOutside : ∀ frame ∈ counter 0 3, frame ∉ layout.ghost.managed := by
    intro frame member
    rw [mem_counter] at member
    rw [memManaged]
    simp only [ioFrame, extendedFrame] at *
    omega
  rcases setReferences_ok consistent lowestOutside first with ⟨consistent, onlyLowest⟩
  replace blank := setReferences_blank blank lowestOutside first
  rcases Kernel.bind_ok.mp returned with ⟨_, zeroed, cleared, returned⟩
  rcases clearZeroPages_ok (onlyReady.trans onlyLowest) cleared with ⟨zeroedView, onlyBoot⟩
  rw [← zeroedView] at consistent
  replace blank : Blank layout.ghost.managed zeroed := by
    intro frame member
    exact (congrArg (fun view => view.info frame) zeroedView).trans (blank frame member)
  rcases Kernel.bind_ok.mp returned with ⟨_, low, freedLow, returned⟩
  rcases freeFrames_ok consistent (fun frame member => by
      rw [mem_counter] at member
      rw [memManaged]
      have := layout.kernelUpper
      simp only [ioFrame, extendedFrame] at *
      omega) (by simp [Ghost.Listed, BootLayout.ghost]) (fun _ _ => rfl) (counter_nodup _ _)
    freedLow with ⟨consistent, onlyLow⟩
  replace onlyBoot := onlyBoot.trans onlyLow
  replace blank := freeFrames_blank blank freedLow
  have kernelOutside : ∀ frame, ioFrame ≤ frame → frame < layout.kernelFrames →
      frame ∉ layout.ghost.managed := by
    intro frame lower upper
    rw [memManaged]
    omega
  rcases Kernel.bind_ok.mp returned with ⟨_, io, countedIo, returned⟩
  have ioOutside : ∀ frame ∈ counter ioFrame extendedFrame,
      frame ∉ layout.ghost.managed := by
    intro frame member
    rw [mem_counter] at member
    exact kernelOutside frame member.1 (by omega)
  rcases setReferences_ok consistent ioOutside countedIo with ⟨consistent, onlyIo⟩
  replace onlyBoot := onlyBoot.trans onlyIo
  replace blank := setReferences_blank blank ioOutside countedIo
  rcases Kernel.bind_ok.mp returned with ⟨_, kernel, countedKernel, returned⟩
  have extendedOutside : ∀ frame ∈ counter extendedFrame layout.kernelFrames,
      frame ∉ layout.ghost.managed := by
    intro frame member
    rw [mem_counter] at member
    simp only [extendedFrame] at member
    exact kernelOutside frame (by simp only [ioFrame]; omega) member.2
  rcases setReferences_ok consistent extendedOutside countedKernel with
    ⟨consistent, onlyKernel⟩
  replace onlyBoot := onlyBoot.trans onlyKernel
  replace blank := setReferences_blank blank extendedOutside countedKernel
  replace returned := Kernel.bind_get_ok.mp returned
  rcases Kernel.bind_ok.mp returned with ⟨_, high, freedHigh, returned⟩
  have frames : kernel.numberOfFrames = layout.numberOfFrames := by
    rcases onlyBoot with ⟨_, _, _, _, _, _, _, rfl⟩
    rfl
  rw [frames] at freedHigh
  rcases freeFrames_ok consistent (fun frame member => by
      rw [mem_counter] at member
      simp only [memManaged]
      omega) (fun frame member => by
      rw [mem_counter] at member
      simp only [Ghost.Listed, BootLayout.ghost, List.append_nil, List.mem_reverse,
        mem_counter, List.not_mem_nil, or_false, ioFrame, extendedFrame] at *
      omega) (fun _ _ => rfl) (counter_nodup _ _) freedHigh with ⟨consistent, onlyHigh⟩
  replace blank := freeFrames_blank blank freedHigh
  rcases initializeDiskPageFile_ok returned with ⟨onlyDisk, diskView⟩
  refine ⟨_, diskView ▸ consistent, (onlyBoot.trans onlyHigh).trans onlyDisk, ⟨_, rfl⟩,
    unbuffered, ?_, ?_⟩
  · intro frame member
    exact (congrArg (fun view => view.info frame) diskView).trans (blank frame member)
  · intro frame member
    have range := (memManaged frame).mp member
    simp only [List.mem_append, List.mem_reverse, mem_counter]
    omega

theorem Booted.entry (booted : Booted layout contents ghost state) (slot : Slot) :
    state.view.entry slot = 0 := by
  cases slot with
  | heap page =>
      rcases booted.only with ⟨_, _, _, _, _, _, _, rfl⟩
      exact (beforePaging_entry (.heap page) :
        (layout.beforePaging contents).view.entry _ = 0)
  | user owner page => exact booted.only.userEntry owner page

theorem Booted.table (booted : Booted layout contents ghost state) (table : Table) :
    state.view.table table = 0 := by
  rcases booted.only with ⟨_, _, _, _, _, _, _, rfl⟩
  exact (beforePaging_table table : (layout.beforePaging contents).view.table table = 0)

end Boot

end FosKernel
