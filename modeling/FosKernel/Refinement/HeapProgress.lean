import FosKernel.Refinement.Boot

/-! # The kernel heap returns

Lookup of heap pages never panics when the frames in the tables exist. The search then
ends, and allocation returns as long as the free list is long enough.
-/

namespace FosKernel

/-- The frames of the boot tables and of the heap pages exist. -/
structure Serviceable (state : State) : Prop where
  tables : ∀ index, pdx kernelHeapStart ≤ index → index < 1024 →
    frameOf (state.pageDirectory .kernel index) < state.numberOfFrames
  frames : ∀ page, state.view.entry (.heap page) ≠ 0 →
    frameOf (state.view.entry (.heap page)) < state.numberOfFrames

section Lookup

variable {state : State} {address : Nat}

theorem kernelPageTable_present (heap : HeapAddress address)
    (present : hasPerm (state.pageDirectory .kernel (pdx address)) permPresent = true)
    (bound : frameOf (state.pageDirectory .kernel (pdx address)) < state.numberOfFrames) :
    kernelPageTable state .kernel address = .ok (.inMemory, .boot (pdx address)) := by
  have static : staticTable state .kernel address = .ok (.boot (pdx address)) := by
    simp [staticTable, Nat.not_le.mpr bound, heap.hasBootTable]
  rw [kernelPageTable, static]
  simp [bind, Except.bind, tableStatus, present]

theorem kernelPageTable_returns (layout : HeapLayout state.view)
    (serviceable : Serviceable state) (heap : HeapAddress address) :
    kernelPageTable state .kernel address = .ok (.inMemory, .boot (pdx address)) :=
  have index := heap.tableIndex
  kernelPageTable_present heap (layout.table_present index.1 index.2)
    (serviceable.tables (pdx address) index.1 index.2)

theorem load_boot (heap : HeapAddress address) :
    load state (.boot (pdx address)) (ptx address) =
      .ok (state.view.entry (.heap (ppn address))) := by
  simp only [load, pdx_mul_add_ptx]
  exact congrArg Except.ok heap.slotEntry.symm

theorem frameAt_returns (serviceable : Serviceable state) (heap : HeapAddress address) :
    frameAt state (.boot (pdx address)) address =
      .ok (entryFrame (state.view.entry (.heap (ppn address)))) := by
  simp only [bind, Except.bind, frameAt, reduceCtorEq, if_false, load_boot heap]
  by_cases zero : state.view.entry (.heap (ppn address)) = 0
  · simp [zero, entryFrame, pure, Except.pure]
  · have bound := serviceable.frames (ppn address) zero
    simp only [entryFrame, if_neg zero, toFrameInfo, if_neg (Nat.not_le.mpr bound), pure,
      Except.pure]

theorem heapFrameInfo_returns (layout : HeapLayout state.view)
    (serviceable : Serviceable state) (heap : HeapAddress address) :
    heapFrameInfo state address =
      .ok (entryFrame (state.view.entry (.heap (ppn address)))) := by
  rw [heapFrameInfo, kernelPageTable_returns layout serviceable heap]
  exact frameAt_returns serviceable heap

theorem getFrameInfo_returns (layout : HeapLayout state.view)
    (serviceable : Serviceable state) (heap : HeapAddress address) :
    getFrameInfo state .kernel address =
      .ok (entryFrame (state.view.entry (.heap (ppn address))), .boot (pdx address)) := by
  rw [getFrameInfo, getPageTable_kernel _ heap.kernel,
    kernelPageTable_returns layout serviceable heap]
  simp [bind, Except.bind, frameAt_returns serviceable heap, pure, Except.pure]

theorem kheapPhysicalAddress_returns (layout : HeapLayout state.view)
    (serviceable : Serviceable state) (heap : HeapAddress address) :
    kheapPhysicalAddress state address =
      .ok (frameOf (state.view.entry (.heap (ppn address)))) := by
  rw [kheapPhysicalAddress, getPageTable_kernel _ heap.kernel,
    kernelPageTable_returns layout serviceable heap]
  simp [bind, Except.bind, load_boot heap, pure, Except.pure]

/-- The reverse lookup finds the first page that maps the frame. -/
theorem findHeapPage_returns (layout : HeapLayout state.view)
    (serviceable : Serviceable state) {frame : Nat} {addresses : List Nat}
    (heap : ∀ address ∈ addresses, HeapAddress address) :
    findHeapPage state frame addresses = .ok ((addresses.find? fun address =>
      decide (entryFrame (state.view.entry (.heap (ppn address))) = some frame)).getD 0) := by
  induction addresses with
  | nil => rfl
  | cons head tail induction =>
      have rest := induction fun address member => heap address (by simp [member])
      rw [findHeapPage, heapFrameInfo_returns layout serviceable (heap head (by simp))]
      simp only [bind, Except.bind, rest]
      by_cases same : entryFrame (state.view.entry (.heap (ppn head))) = some frame
      · simp [same, pure, Except.pure]
      · simp [same]

theorem kheapVirtualAddress_returns (layout : HeapLayout state.view)
    (serviceable : Serviceable state) {frame : Nat} (bound : frame < state.numberOfFrames) :
    kheapVirtualAddress state frame =
      .ok (((pageRange kernelHeapStart state.startAdd).find? fun address =>
        decide (entryFrame (state.view.entry (.heap (ppn address))) = some frame)).getD 0) := by
  have heap : ∀ address ∈ pageRange kernelHeapStart state.startAdd, HeapAddress address :=
    fun address member => pageRange_heapAddress le_rfl layout.startUpper (by decide) member
  rw [kheapVirtualAddress]
  simp [bind, Except.bind, toFrameInfo, Nat.not_le.mpr bound,
    findHeapPage_returns layout serviceable heap]

end Lookup

/-! ## The search ends -/

section Scan

variable {state : State} {pages count run : Nat} {scan : HeapScan}

theorem exists_ok_ite {condition : Prop} [Decidable condition] {yes no : α} :
    ∃ result, (if condition then pure yes else pure no : Except Stop α) = .ok result := by
  split <;> exact ⟨_, rfl⟩

theorem bind_returns {first : Except Stop α} {rest : α → Except Stop β} {value : α}
    (returned : first = .ok value) (continues : ∃ result, rest value = .ok result) :
    ∃ result, (first >>= rest) = .ok result := by
  rw [returned]
  exact continues

theorem heapScanStep_returns (layout : HeapLayout state.view)
    (serviceable : Serviceable state) (position : scan.page = visitedPage state.view count) :
    ∃ outcome, heapScanStep state scan = .ok outcome := by
  have looked := getFrameInfo_returns layout serviceable
    (visitedPage_heapAddress state.view count)
  unfold heapScanStep
  dsimp only
  rw [show (if scan.i = kernelHeapMax then kernelHeapStart else scan.i) = scan.page from rfl]
  generalize (if scan.page = state.startAdd then scan.y + 1 else scan.y) = y
  by_cases second : y = 2 ∧ scan.x ≠ scan.record.size
  · rw [if_pos second]
    exact ⟨_, rfl⟩
  · rw [if_neg second, position]
    refine bind_returns looked ?_
    generalize entryFrame (state.view.entry (.heap (ppn (visitedPage state.view count)))) = info
    generalize visitedPage state.view count = page
    generalize (if info = none then (scan.x + 4096) % 2 ^ 32 else 0) = x
    exact exists_ok_ite

/-- The search ends within `bound` iterations if it meets a free run before, or if one
round has fewer. -/
theorem heapScanLoop_returns (layout : HeapLayout state.view) (serviceable : Serviceable state)
    (fits : pages < 2 ^ 20) {bound fuel : Nat}
    (ends : (state.view.startAdd < kernelHeapMax ∧ kernelHeapPages < bound) ∨
      ∃ start, FreeRun state.view start pages ∧ start + pages < bound)
    (sound : scan.Sound state.view pages count run) (enough : bound < count + fuel)
    (below : count ≤ bound) :
    ∃ result, heapScanLoop state fuel scan = .ok result := by
  induction fuel generalizing scan count run with
  | zero => omega
  | succ fuel induction =>
      rcases heapScanStep_returns layout serviceable sound.position with ⟨outcome, stepped⟩
      rcases heapScanStep_ok layout sound fits stepped with
        ⟨result, rfl, -⟩ | ⟨next, newRun, rfl, nextSound⟩
      · exact ⟨result, by simp [heapScanLoop, stepped, bind, Except.bind, pure, Except.pure]⟩
      · have inside : count + 1 ≤ bound := by
          rcases ends with ⟨inHeap, long⟩ | ⟨start, free, early⟩
          · have := nextSound.round inHeap
            omega
          · by_contra beyond
            exact nextSound.none start (by omega) free
        rcases induction nextSound (by omega) inside with ⟨result, ended⟩
        exact ⟨result, by simp [heapScanLoop, stepped, bind, Except.bind, ended]⟩

end Scan

/-! ## Allocation and release return -/

section Calls

variable {ghost : Ghost} {state final : State} {frame address : Nat}

theorem allocateFrame_returns (first : state.freeFrameList.first = some frame)
    (plain : (state.framesInfo frame).isBuffered = false) :
    allocateFrame state = .ok (frame, state.allocate frame) := by
  refine Kernel.bind_get_ok.mpr ?_
  rw [first]
  refine Kernel.bind_modify_ok.mpr (Kernel.bind_get_ok.mpr ?_)
  have info : (state.withFree (listRemove state.free frame)).framesInfo =
    state.framesInfo := rfl
  simp only [info, plain, Bool.false_eq_true, if_false]
  rfl

theorem mapHeapFrame_returns {nested : Nat → Kernel Nat} (layout : HeapLayout state.view)
    (serviceable : Serviceable state) (heap : HeapAddress address)
    (free : state.view.entry (.heap (ppn address)) = 0) :
    ∃ final, mapHeapFrame nested frame address state = .ok ((), final) := by
  refine ⟨state.mapHeap frame address, Kernel.bind_observe_ok.mpr
    ⟨(.inMemory, .boot (pdx address)), ?_, ?_⟩⟩
  · rw [getPageTable_kernel _ heap.kernel]
    exact kernelPageTable_returns layout serviceable heap
  · refine Kernel.bind_ok.mpr ⟨.boot (pdx address), state, Kernel.pure_ok.mpr ⟨rfl, rfl⟩, ?_⟩
    refine Kernel.bind_observe_ok.mpr ⟨0, (load_boot heap).trans (by rw [free]), ?_⟩
    refine Kernel.bind_ok.mpr ⟨(), state.addReferences frame 1, Kernel.modify_ok.mpr rfl, ?_⟩
    refine Kernel.modify_ok.mpr ?_
    rw [pdx_mul_add_ptx]
    rfl

/-- What allocation needs: existing frames, and free ones that are not buffered. -/
structure Supplied (ghost : Ghost) (state : State) : Prop where
  consistent : Consistent ghost state.view
  serviceable : Serviceable state
  managed : ∀ frame ∈ ghost.managed, frame < state.numberOfFrames
  plain : ∀ frame ∈ ghost.free, (state.framesInfo frame).isBuffered = false

theorem Supplied.congr (supplied : Supplied ghost state) (same : final.view = state.view) :
    Supplied ghost final where
  consistent := same ▸ supplied.consistent
  serviceable :=
    { tables := by
        intro index lower upper
        rw [← kernelDirectory_heap lower]
        change frameOf (final.view.kernelDirectory index) < final.view.numberOfFrames
        rw [same, kernelDirectory_heap lower]
        exact supplied.serviceable.tables index lower upper
      frames := by
        change ∀ page, _ → _ < final.view.numberOfFrames
        rw [same]
        exact supplied.serviceable.frames }
  managed := by
    change ∀ frame ∈ _, frame < final.view.numberOfFrames
    rw [same]
    exact supplied.managed
  plain := by
    change ∀ frame ∈ _, (final.view.info frame).isBuffered = false
    rw [same]
    exact supplied.plain

theorem Supplied.grow {after : Ghost} {pages : List Nat} (supplied : Supplied ghost state)
    (growth : HeapGrowth ghost state.view pages after final.view)
    (directory : final.pageDirectory = state.pageDirectory)
    (frames : final.numberOfFrames = state.numberOfFrames) : Supplied after final where
  consistent := growth.consistent
  serviceable :=
    { tables := by
        rw [directory, frames]
        exact supplied.serviceable.tables
      frames := by
        intro page mapped
        rw [frames]
        by_cases inside : page ∈ pages
        · rcases growth.handedOut page inside with ⟨frame, handed⟩
          have isManaged := supplied.consistent.listedManaged frame (.inl handed.free)
          rw [handed.entry, frameOf_heapEntry (supplied.consistent.bounded frame isManaged)]
          exact supplied.managed frame isManaged
        · have outside : ∀ other ∈ pages, Slot.heap page ≠ .heap other := by
            rintro other member ⟨rfl⟩
            exact inside member
          rw [growth.entries _ outside] at mapped ⊢
          exact supplied.serviceable.frames page mapped }
  managed := by
    rw [growth.managed, frames]
    exact supplied.managed
  plain := by
    intro frame member
    have same := (growth.kept frame (.inr member)).1
    rw [show final.framesInfo frame = final.view.info frame from rfl, same]
    exact supplied.plain frame (growth.subset frame member)

theorem heapRecord_returns (records : state.idx < 2 ^ 20) :
    heapRecord state = .ok (state.kHeapArr state.idx, state) := by
  refine Kernel.bind_get_ok.mpr ?_
  rw [if_neg (Nat.not_le.mpr records)]
  rfl

/-- A page is mapped as long as the free list is not empty. -/
theorem mapHeapPage_returns {nested : Nat → Kernel Nat} (supplied : Supplied ghost state)
    (heap : HeapAddress address) (free : state.view.entry (.heap (ppn address)) = 0)
    (nonempty : 0 < ghost.free.length) :
    ∃ final, mapHeapPage nested address state = .ok ((), final) := by
  have consistent := supplied.consistent
  rcases List.exists_cons_of_length_pos nonempty with ⟨frame, frames, list⟩
  have first : state.freeFrameList.first = some frame := by
    have head := consistent.lists.first.first
    rw [list] at head
    exact head
  have plain := supplied.plain frame (by simp [list])
  have allocated := allocateFrame_returns first plain
  have mapping : ∃ middle, mapHeapFrame nested frame address (state.allocate frame) =
      .ok ((), middle) :=
    mapHeapFrame_returns
      (allocateFrame_consistent consistent allocated).2.2.1.toHeapLayout
      { tables := supplied.serviceable.tables, frames := supplied.serviceable.frames }
      heap free
  rcases mapping with ⟨middle, mapped⟩
  exact ⟨middle, Kernel.bind_ok.mpr ⟨frame, _, allocated, mapped⟩⟩

theorem mapHeapPages_returns {nested : Nat → Kernel Nat} {fuel start last : Nat}
    (supplied : Supplied ghost state) (aligned : start % 4096 = 0)
    (records : state.idx < 2 ^ 20) (record : (state.kHeapArr state.idx).last = last)
    (heap : ∀ address ∈ pageRange start (last + 1), HeapAddress address)
    (free : ∀ address ∈ pageRange start (last + 1),
      state.view.entry (.heap (ppn address)) = 0)
    (enough : (pageRange start (last + 1)).length ≤ ghost.free.length)
    (long : (pageRange start (last + 1)).length < fuel) :
    ∃ final, mapHeapPages nested fuel start state = .ok ((), final) := by
  induction fuel generalizing state ghost start with
  | zero => exact absurd long (Nat.not_lt_zero _)
  | succ fuel induction =>
      by_cases inside : start ≤ last
      · have cons := pageRange_cons (show start < last + 1 by omega)
        have nodup : ((pageRange start (last + 1)).map ppn).Nodup := pageRange_ppn_nodup aligned
        rw [cons] at heap free nodup enough long
        rw [List.map_cons, List.nodup_cons] at nodup
        rw [List.length_cons] at enough long
        have heapPage := heap start (by simp)
        rcases mapHeapPage_returns supplied heapPage (free start (by simp)) (by omega) with
          ⟨middle, stepped⟩
        rcases mapHeapPage_ok supplied.consistent heapPage (free start (by simp)) stepped with
          ⟨after, _, -, growth, only⟩
        have later := supplied.grow growth (by rcases only with ⟨_, _, _, _, rfl⟩; rfl)
          (by rcases only with ⟨_, _, _, _, rfl⟩; rfl)
        have stillFree : ∀ other ∈ pageRange (start + 4096) (last + 1),
            middle.view.entry (.heap (ppn other)) = 0 := by
          intro other member
          have different : ppn other ≠ ppn start := fun equal =>
            nodup.1 (equal ▸ List.mem_map_of_mem member)
          rw [growth.entries (.heap (ppn other)) (by simpa using different)]
          exact free other (by simp [member])
        have sameRecord : (middle.kHeapArr middle.idx).last = last ∧ middle.idx < 2 ^ 20 := by
          rcases only with ⟨_, _, _, _, rfl⟩
          exact ⟨record, records⟩
        have length := growth.length
        simp only [List.length_cons, List.length_nil] at length
        have nextAligned : (start + 4096) % 4096 = 0 := by omega
        rcases induction later nextAligned sameRecord.2 sameRecord.1
          (fun other member => heap other (by simp [member])) stillFree
          (by omega) (by omega) with ⟨final, ended⟩
        refine ⟨final, Kernel.bind_ok.mpr ⟨_, state, heapRecord_returns records, ?_⟩⟩
        have bound := heapPage.upper
        rw [if_pos (record ▸ inside)]
        refine Kernel.bind_ok.mpr ⟨(), middle, stepped, ?_⟩
        rwa [Nat.mod_eq_of_lt (by simp only [kernelHeapMax] at bound; omega)]
      · refine ⟨state, Kernel.bind_ok.mpr ⟨_, state, heapRecord_returns records, ?_⟩⟩
        rw [if_neg (record ▸ inside)]
        rfl

theorem kmalloc_of_search {size : Nat} {value : Nat × State} (records : state.idx < 2 ^ 20)
    (strategy : state.kHeapPlacementStrategy = .nextFit)
    (search : nextFitAlgo (kmallocNested (2 ^ 20))
      (state.withHeapRecord (requestRecord state size)) = .ok value) :
    kmalloc size state = .ok value := by
  refine Kernel.bind_get_ok.mpr ?_
  rw [if_neg (Nat.not_le.mpr records)]
  refine Kernel.bind_ok.mpr ⟨(), _, Kernel.modify_ok.mpr rfl, ?_⟩
  rw [if_pos strategy]
  exact search

theorem nextFitAlgo_search {size : Nat} {outcome : HeapScanResult}
    (searched : heapSearch state size heapScanFuel = .ok outcome) :
    heapScanLoop (state.withHeapRecord (requestRecord state size)) heapScanFuel
      ⟨(state.withHeapRecord (requestRecord state size)).startAdd, 0, 0,
        (state.withHeapRecord (requestRecord state size)).kHeapArr
          (state.withHeapRecord (requestRecord state size)).idx⟩ = .ok outcome := by
  rw [← searched, heapSearch]
  simp [State.withHeapRecord]

/-- A search without result is a null pointer. -/
theorem kmalloc_null {size : Nat} {record : KernelHeapRecord} (records : state.idx < 2 ^ 20)
    (strategy : state.kHeapPlacementStrategy = .nextFit)
    (searched : heapSearch state size heapScanFuel = .ok (.null record)) :
    kmalloc size state = .ok (0, state.withHeapRecord record) := by
  refine kmalloc_of_search records strategy (Kernel.bind_get_ok.mpr (Kernel.bind_observe_ok.mpr
    ⟨.null record, nextFitAlgo_search searched, ?_⟩))
  refine Kernel.bind_ok.mpr ⟨(), _, Kernel.modify_ok.mpr rfl, Kernel.pure_ok.mpr ⟨rfl, ?_⟩⟩
  exact state.withHeapRecord_withHeapRecord _ _

/-- A run that was found is mapped as long as there are enough free frames. -/
theorem HeapScanned.returns {size pages start : Nat} {record : KernelHeapRecord}
    (scanned : HeapScanned state.view pages start record)
    (supplied : Supplied ghost state) (records : state.idx < 2 ^ 20)
    (strategy : state.kHeapPlacementStrategy = .nextFit)
    (searched : heapSearch state size heapScanFuel = .ok (.found record))
    (positive : 0 < pages) (fits : pages < 2 ^ 20) (enough : pages ≤ ghost.free.length) :
    ∃ final, kmalloc size state = .ok (record.first, final) := by
  let written := state.withHeapRecord record
  have suppliedNow : Supplied ghost written := supplied.congr rfl
  have recordWritten : written.kHeapArr written.idx = record := by
    simp [written, State.withHeapRecord]
  have lastWritten := congrArg KernelHeapRecord.last recordWritten
  have recordsWritten : written.idx < 2 ^ 20 := records
  have length := scanned.length_le positive
  rcases mapHeapPages_returns suppliedNow scanned.first_heapAddress.aligned recordsWritten
    lastWritten (fun address member => (scanned.free positive member).1)
    (fun address member => (scanned.free positive member).2)
    (length.trans enough) (show _ < heapMapFuel by simp only [heapMapFuel]; omega) with
    ⟨mapped, looped⟩
  have mappedRecord : mapped.idx < 2 ^ 20 ∧ mapped.kHeapArr mapped.idx = record := by
    rcases mapHeapPages_ok suppliedNow.consistent scanned.first_heapAddress.aligned
      lastWritten (fun address member => (scanned.free positive member).1)
      (fun address member => (scanned.free positive member).2) looped with
      ⟨-, -, _, _, _, _, rfl⟩
    exact ⟨records, recordWritten⟩
  refine ⟨{ mapped with
    startAdd := (record.last + 4096) % 2 ^ 32, idx := mapped.idx + 1 }, ?_⟩
  refine kmalloc_of_search records strategy (Kernel.bind_get_ok.mpr (Kernel.bind_observe_ok.mpr
    ⟨.found record, nextFitAlgo_search searched, ?_⟩))
  refine Kernel.bind_ok.mpr ⟨(), written, Kernel.modify_ok.mpr ?_, ?_⟩
  · exact state.withHeapRecord_withHeapRecord _ _
  · refine Kernel.bind_ok.mpr ⟨(), mapped, looped, ?_⟩
    refine Kernel.bind_ok.mpr ⟨record, mapped, ?_, ?_⟩
    · rw [heapRecord_returns mappedRecord.1, mappedRecord.2]
    · exact Kernel.bind_modify_ok.mpr (Kernel.pure_ok.mpr ⟨rfl, rfl⟩)

/-- The search of `kmalloc` ends within `bound` iterations. -/
theorem heapSearch_returns {size bound fuel : Nat} (layout : HeapLayout state.view)
    (serviceable : Serviceable state) (request : Request size)
    (ends : (state.view.startAdd < kernelHeapMax ∧ kernelHeapPages < bound) ∨
      ∃ start, FreeRun state.view start (roundUp size / 4096) ∧
        start + roundUp size / 4096 < bound)
    (short : bound < fuel) : ∃ outcome, heapSearch state size fuel = .ok outcome := by
  rcases request.roundUp with ⟨whole, positive, fits⟩
  have layoutThere : HeapLayout (state.withHeapRecord (requestRecord state size)).view := layout
  have serviceableThere : Serviceable (state.withHeapRecord (requestRecord state size)) :=
    ⟨serviceable.tables, serviceable.frames⟩
  have requested : (requestRecord state size).size = roundUp size / 4096 * 4096 := whole
  have begun := heapScan_start layoutThere positive requested
  exact heapScanLoop_returns layoutThere serviceableThere fits ends begun
    (by simpa using short) (Nat.zero_le bound)

/-- `kmalloc` returns when its search ends and there are enough free frames. -/
theorem kmalloc_returns {size bound : Nat} (supplied : Supplied ghost state)
    (request : Request size) (records : state.idx < 2 ^ 20)
    (strategy : state.kHeapPlacementStrategy = .nextFit)
    (ends : (state.view.startAdd < kernelHeapMax ∧ kernelHeapPages < bound) ∨
      ∃ start, FreeRun state.view start (roundUp size / 4096) ∧
        start + roundUp size / 4096 < bound)
    (short : bound < heapScanFuel) (enough : roundUp size / 4096 ≤ ghost.free.length) :
    ∃ result final, kmalloc size state = .ok (result, final) := by
  have layout := supplied.consistent.toHeapLayout
  rcases request.roundUp with ⟨-, positive, fits⟩
  rcases heapSearch_returns layout supplied.serviceable request ends short with
    ⟨outcome, searched⟩
  cases outcome with
  | null record => exact ⟨0, _, kmalloc_null records strategy searched⟩
  | found record =>
      rcases heapSearch_ok layout request searched with ⟨start, scanned⟩
      exact ⟨record.first, scanned.returns supplied records strategy searched positive fits
        enough⟩

/-- Where the next-fit pointer stands there is room for the request. -/
theorem kmalloc_fits {size : Nat} (supplied : Supplied ghost state) (request : Request size)
    (records : state.idx < 2 ^ 20) (strategy : state.kHeapPlacementStrategy = .nextFit)
    (room : FreeRun state.view 0 (roundUp size / 4096))
    (fits : roundUp size / 4096 ≤ kernelHeapPages)
    (enough : roundUp size / 4096 ≤ ghost.free.length) :
    ∃ record after final, kmalloc size state = .ok (record.first, final) ∧
      record.first = visitedPage state.view 0 ∧
      record.last = visitedPage state.view (roundUp size / 4096 - 1) ∧
      KernelAllocation ghost state size record after final := by
  rcases kmalloc_returns supplied request records strategy (.inr ⟨0, room, Nat.lt_succ_self _⟩)
    (by simp only [kernelHeapPages, heapScanFuel] at *; omega) enough with
    ⟨result, final, returned⟩
  rcases kmalloc_ok supplied.consistent request returned with
    ⟨-, full, -⟩ | ⟨record, after, rfl, allocation⟩
  · exact absurd room (full strategy 0 (by omega))
  · rcases allocation.scanned with ⟨start, scanned⟩
    have atPointer : start = 0 := by
      by_contra later
      exact scanned.run.first 0 (by omega) room
    subst atPointer
    refine ⟨record, after, final, returned, scanned.first, ?_, allocation⟩
    rw [scanned.last, Nat.zero_add]

theorem decrementReferences_returns (state : State) (frame : Nat) :
    ∃ final, decrementReferences frame state = .ok ((), final) := by
  by_cases zero : ((state.addReferences frame (2 ^ 16 - 1)).framesInfo frame).references = 0
  · refine ⟨(state.addReferences frame (2 ^ 16 - 1)).release frame, Kernel.bind_ok.mpr
      ⟨(), state.addReferences frame (2 ^ 16 - 1), Kernel.modify_ok.mpr rfl, ?_⟩⟩
    exact Kernel.bind_get_ok.mpr (Kernel.ite_ok.mpr (.inl ⟨zero, rfl⟩))
  · refine ⟨state.addReferences frame (2 ^ 16 - 1), Kernel.bind_ok.mpr
      ⟨(), state.addReferences frame (2 ^ 16 - 1), Kernel.modify_ok.mpr rfl, ?_⟩⟩
    exact Kernel.bind_get_ok.mpr (Kernel.ite_ok.mpr (.inr ⟨zero, rfl⟩))

theorem unmapHeapPage_returns (layout : HeapLayout state.view) (serviceable : Serviceable state)
    (heap : HeapAddress address) : ∃ final, unmapHeapPage address state = .ok ((), final) := by
  have looked := getFrameInfo_returns layout serviceable heap
  have unmapping : ∃ middle, unmapFrame .kernel address state = .ok ((), middle) := by
    by_cases zero : state.view.entry (.heap (ppn address)) = 0
    · refine ⟨state, Kernel.bind_observe_ok.mpr ⟨_, looked, ?_⟩⟩
      rw [entryFrame_eq_none.mpr zero]
      rfl
    · rcases decrementReferences_returns state
        (frameOf (state.view.entry (.heap (ppn address)))) with ⟨middle, decremented⟩
      refine ⟨middle.setBootEntry (pdx address * 1024 + ptx address) 0,
        Kernel.bind_observe_ok.mpr ⟨_, looked, ?_⟩⟩
      rw [entryFrame_eq_some.mpr ⟨zero, rfl⟩]
      exact Kernel.bind_ok.mpr ⟨(), middle, decremented, rfl⟩
  rcases unmapping with ⟨middle, unmapped⟩
  have middleState := unmapFrame_heap layout heap unmapped
  have tables : middle.pageDirectory = state.pageDirectory ∧
      middle.numberOfFrames = state.numberOfFrames := by
    rcases middleState with ⟨-, rfl⟩ | ⟨-, rfl⟩
    · exact ⟨rfl, rfl⟩
    · rw [State.unmapHeap, State.decrement_eq]
      exact ⟨rfl, rfl⟩
  have index := heap.tableIndex
  have found : kernelPageTable middle .kernel address = _ := kernelPageTable_present heap
    (by rw [tables.1]; exact layout.table_present index.1 index.2)
    (by rw [tables.1, tables.2]; exact serviceable.tables (pdx address) index.1 index.2)
  refine ⟨middle.setBootEntry (pdx address * 1024 + ptx address) 0,
    Kernel.bind_ok.mpr ⟨(), middle, unmapped, Kernel.bind_observe_ok.mpr
      ⟨(.inMemory, .boot (pdx address)), ?_, rfl⟩⟩⟩
  rw [getPageTable_kernel _ heap.kernel]
  exact found

theorem Supplied.shrink {after : Ghost} {pages : List Nat} (supplied : Supplied ghost state)
    (shrink : HeapShrink ghost state.view pages after final.view)
    (directory : final.pageDirectory = state.pageDirectory)
    (frames : final.numberOfFrames = state.numberOfFrames) : Supplied after final where
  consistent := shrink.consistent
  serviceable :=
    { tables := by
        rw [directory, frames]
        exact supplied.serviceable.tables
      frames := by
        intro page mapped
        have outside : ∀ other ∈ pages, Slot.heap page ≠ .heap other := by
          rintro other member ⟨rfl⟩
          exact mapped (shrink.cleared page member)
        rw [frames]
        rw [shrink.entries _ outside] at mapped ⊢
        exact supplied.serviceable.frames page mapped }
  managed := by
    rw [shrink.managed, frames]
    exact supplied.managed
  plain := by
    intro frame member
    refine shrink.unbuffered frame ?_
    by_cases inFree : frame ∈ ghost.free
    · exact supplied.plain frame inFree
    · have notModified : frame ∉ ghost.modified := by
        rw [← shrink.modified]
        exact shrink.consistent.lists.apart frame member
      refine supplied.consistent.unbuffered frame ?_ (not_or.mpr ⟨inFree, notModified⟩)
      rw [← shrink.managed]
      exact shrink.consistent.listedManaged frame (.inl member)

theorem Supplied.free_le {after : Ghost} {pages : List Nat} {view : View}
    (supplied : Supplied ghost state)
    (shrink : HeapShrink ghost state.view pages after view) :
    ghost.free.length ≤ after.free.length := by
  refine (supplied.consistent.lists.first.nodup.subperm fun frame member => ?_).length_le
  exact shrink.free_kept supplied.consistent member

theorem unmapHeapPages_returns {addresses : List Nat} (supplied : Supplied ghost state)
    (heap : ∀ address ∈ addresses, HeapAddress address)
    (releasable : ∀ address ∈ addresses, Releasable ghost state.view (ppn address)) :
    ∃ final, Kernel.forEach unmapHeapPage addresses state = .ok ((), final) := by
  induction addresses generalizing state ghost with
  | nil => exact ⟨state, rfl⟩
  | cons address addresses induction =>
      rcases unmapHeapPage_returns supplied.consistent.toHeapLayout supplied.serviceable
        (heap address (by simp)) with ⟨middle, unmapped⟩
      rcases unmapHeapPage_ok supplied.consistent (heap address (by simp))
        (releasable address (by simp)) unmapped with ⟨after, shrink, only⟩
      have later := supplied.shrink shrink (by rcases only with ⟨_, _, _, _, rfl⟩; rfl)
        (by rcases only with ⟨_, _, _, _, rfl⟩; rfl)
      rcases induction later (fun other member => heap other (by simp [member]))
        (fun other member => (releasable other (by simp [member])).after shrink) with
        ⟨final, ended⟩
      exact ⟨final, Kernel.bind_ok.mpr ⟨(), middle, unmapped, ended⟩⟩

theorem Booted.supplied {layout : BootLayout} {contents : BootContents}
    (booted : Booted layout contents ghost state) : Supplied ghost state where
  consistent := booted.consistent
  serviceable :=
    { tables := by
        intro index lower upper
        rcases booted.only with ⟨_, _, _, _, _, _, _, rfl⟩
        have tableBound := layout.tableBound index
        have kernelUpper := layout.kernelUpper
        have physical := layout.physical
        change frameOf (layout.directory index) < layout.numberOfFrames
        rw [layout.directory_heap lower upper, frameOf_constructEntry (by omega) (by decide)]
        omega
      frames := fun page mapped => absurd (booted.entry (.heap page)) mapped }
  managed := by
    intro frame member
    rcases booted.empty with ⟨free, rfl⟩
    rcases booted.only with ⟨_, _, _, _, _, _, _, rfl⟩
    exact Finset.mem_range.mp (Finset.mem_filter.mp member).1
  plain := fun frame _ => booted.unbuffered.plain frame

end Calls

end FosKernel
