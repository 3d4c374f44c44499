import FosKernel.Refinement.BootForm
import FosKernel.Refinement.HeapProgress
import FosKernel.Refinement.PageFile

/-! # The page file returns

At boot all disk frames are free. Adding pages returns as long as the kernel heap has
pages for the disk page tables; the heap is taken to be free from the next-fit pointer on,
so that the reverse lookup finds every table.
-/

namespace FosKernel

open LinkedList

/-! ## Boot -/

theorem ListState.empty_represents :
    Represents ListState.empty.links ListState.empty.head ([] : List Nat) :=
  represents_nil.mpr ⟨rfl, rfl, rfl⟩

theorem insertCleared_represents {list : ListState Nat} {values : List Nat} {element : Nat}
    (represents : Represents list.links list.head values) (fresh : element ∉ values)
    (room : values.length + 1 < 2 ^ 32) :
    Represents (insertCleared list element).links (insertCleared list element).head
      (element :: values) := by
  refine Represents.listInsertHead (represents.congr fun value member => ?_) fresh room
  have different : value ≠ element := by
    rintro rfl
    exact fresh member
  exact Function.update_of_ne different _ _

theorem insertRun_represents {start count : Nat} (room : count + 1 < 2 ^ 32) :
    Represents (insertRun ListState.empty start count).links
      (insertRun ListState.empty start count).head
      (List.range' start (count + 1)).reverse := by
  induction count with
  | zero =>
      rw [← insertRun_zero (by simp [ListState.empty, ListHead.empty])]
      exact insertCleared_represents ListState.empty_represents (by simp) (by simp)
  | succ count induction =>
      rw [← insertRun_succ, List.range'_concat, List.reverse_append]
      have before := induction (by omega)
      rw [Nat.one_mul, ← Nat.add_assoc]
      have fresh : start + count + 1 ∉ (List.range' start (count + 1)).reverse := by
        rw [List.mem_reverse, List.mem_range'_1]
        omega
      exact insertCleared_represents before fresh (by simpa using room)

theorem booted_pageFile (layout : BootLayout) (contents : BootContents) :
    PageFile (List.range' 1 (pagesPerFile - 1)).reverse (layout.booted contents) where
  list := insertRun_represents (by simp only [pagesPerFile]; omega)
  pool :=
    { nodup := List.nodup_reverse.mpr List.nodup_range'
      known := by
        intro dfn member
        simpa [pagesPerFile, Nat.lt_succ_iff] using member
      taken := by
        intro slot dfn owned
        cases slot <;> cases owned
      unique := by
        intro left right dfn owned
        cases left <;> cases owned
      complete := by
        intro dfn member
        left
        simpa [pagesPerFile, Nat.lt_succ_iff] using member }
  layout := ⟨fun _ _ _ => rfl, fun _ _ _ => rfl, fun _ _ _ => rfl, fun _ _ _ => rfl⟩

/-- Memory and the list of disk frames, which boot changes in one place each. -/
def BeforeDisk (memory : Nat → Nat → Word) (state : State) : Prop :=
  state.memory = memory ∧ state.diskFree = ListState.empty

theorem setReferences_beforeDisk (memory : Nat → Nat → Word) (references : Nat)
    (frames : List Nat) :
    Preserves (BeforeDisk memory) (Kernel.forEach (setReferences references) frames) := by
  refine Kernel.preserves_forEach (fun _ => ?_) frames
  exact .modify fun _ kept => kept

theorem freeFrames_beforeDisk (memory : Nat → Nat → Word) (frames : List Nat) :
    Preserves (BeforeDisk memory) (Kernel.forEach freeFrame frames) := by
  refine Kernel.preserves_forEach (fun _ => ?_) frames
  refine .bind ?_ fun _ => .modify fun _ kept => kept
  exact .modify fun _ kept => kept

/-- What every boot leaves in memory and in the list of disk frames. -/
theorem initializePaging_disk {layout : BootLayout} {contents : BootContents} {state : State}
    (returned : initializePaging layout.kernelFrames (layout.beforePaging contents) =
      .ok ((), state)) :
    state.memory = (layout.booted contents).memory ∧ state.diskFree = diskList := by
  unfold initializePaging at returned
  rcases Kernel.bind_ok.mp returned with ⟨_, emptied, initFree, returned⟩
  rcases Kernel.bind_ok.mp returned with ⟨_, ready, initModified, returned⟩
  have onlyReady : BeforeDisk contents.memory ready := by
    rw [← Kernel.modify_ok.mp initModified, ← Kernel.modify_ok.mp initFree]
    exact ⟨rfl, rfl⟩
  rcases Kernel.bind_ok.mp returned with ⟨_, counted, counting, returned⟩
  have beforeZero := setReferences_beforeDisk _ _ _ _ _ _ onlyReady counting
  rcases Kernel.bind_ok.mp returned with ⟨_, zeroed, zeroing, returned⟩
  have start : BeforeDisk (layout.booted contents).memory zeroed := by
    rw [← Kernel.modify_ok.mp zeroing]
    refine ⟨?_, beforeZero.2⟩
    simp only [beforeZero.1]
    rfl
  rcases Kernel.bind_ok.mp returned with ⟨_, low, freeing, returned⟩
  have afterLow := freeFrames_beforeDisk _ _ _ _ _ start freeing
  rcases Kernel.bind_ok.mp returned with ⟨_, io, counting, returned⟩
  have afterIo := setReferences_beforeDisk _ _ _ _ _ _ afterLow counting
  rcases Kernel.bind_ok.mp returned with ⟨_, kernel, counting, returned⟩
  have afterKernel := setReferences_beforeDisk _ _ _ _ _ _ afterIo counting
  replace returned := Kernel.bind_get_ok.mp returned
  rcases Kernel.bind_ok.mp returned with ⟨_, high, freeing, returned⟩
  have beforeDisk := freeFrames_beforeDisk _ _ _ _ _ afterKernel freeing
  replace returned := Kernel.bind_modify_ok.mp returned
  have empty : (high.withDiskFree (listInit high.diskFree)).diskFreeFrameList.first ≠
      some 1 := (nofun : none ≠ some 1)
  have pages : counter 1 pagesPerFile = List.range' 1 (pagesPerFile - 2 + 1) := rfl
  rw [pages, diskFrames_form empty] at returned
  cases returned
  refine ⟨beforeDisk.1, ?_⟩
  change insertRun (listInit high.diskFree) 1 (pagesPerFile - 2) = diskList
  rw [beforeDisk.2]
  rfl

/-- After every boot all disk frames are free. -/
theorem initializePaging_pageFile {layout : BootLayout} {contents : BootContents}
    {state : State}
    (returned : initializePaging layout.kernelFrames (layout.beforePaging contents) =
      .ok ((), state)) :
    PageFile (List.range' 1 (pagesPerFile - 1)).reverse state := by
  have list := (initializePaging_disk returned).2
  rcases initializePaging_ok returned with ⟨_, booted⟩
  have links : state.diskLinks = diskList.links := congrArg ListState.links list
  have head : state.diskFreeFrameList = diskList.head := congrArg ListState.head list
  have file : SameFile (layout.booted contents) state ∧ DiskLayout state := by
    rcases booted.only with ⟨_, _, _, _, _, _, _, rfl⟩
    exact ⟨⟨fun _ _ => rfl, rfl, rfl, links, head⟩,
      fun _ _ _ => rfl, fun _ _ _ => rfl, fun _ _ _ => rfl, fun _ _ _ => rfl⟩
  exact (booted_pageFile layout contents).congr file.1 file.2

/-! ## The kernel heap -/

/-- The kernel heap is free from the next-fit pointer on, with room for some more tables. -/
structure Roomy (state : State) (spare : Nat) : Prop where
  strategy : state.kHeapPlacementStrategy = .nextFit
  pointer : state.startAdd + spare * 4096 ≤ kernelHeapMax
  above : ∀ page, ppn state.startAdd ≤ page → state.view.entry (.heap page) = 0

/-- There are pages and frames for some more tables, and the heap is free from the next-fit
pointer on. -/
structure Stocked (ghost : Ghost) (free : List Nat) (state : State) (spare : Nat) : Prop where
  supplied : Supplied ghost state
  file : PageFile free state
  strategy : state.kHeapPlacementStrategy = .nextFit
  records : state.idx + spare ≤ 2 ^ 20
  pointer : state.startAdd + spare * 4096 ≤ kernelHeapMax
  above : ∀ page, ppn state.startAdd ≤ page → state.view.entry (.heap page) = 0
  enough : spare ≤ ghost.free.length

/-- The parts of the state that the page file works on. -/
def FileOnly (state final : State) : Prop :=
  ∃ memory envs diskDirectory sectors diskLinks diskFreeFrameList,
    final = { state with
      memory, envs, diskDirectory, sectors, diskLinks, diskFreeFrameList }

section Stock

variable {ghost after : Ghost} {state final : State} {free left : List Nat} {spare : Nat}

/-- An entry that refers to a frame on neither list is present. -/
theorem present_of_unlisted (consistent : Consistent ghost state.view) {slot : Slot}
    (nonzero : state.view.entry slot ≠ 0)
    (unlisted : ¬ghost.Listed (frameOf (state.view.entry slot))) :
    hasPerm (state.view.entry slot) permPresent = true := by
  by_cases hidden : slot ∈ ghost.uncounted
  · exact consistent.window slot hidden
  · exact consistent.present _ unlisted slot (consistent.mem_holders.mpr ⟨hidden, nonzero, rfl⟩)

theorem kernelFrame_returns {address : Nat} (heap : HeapAddress address)
    (present : hasPerm (state.view.entry (.heap (ppn address))) permPresent = true) :
    kernelFrame state address = .ok (frameOf (state.view.entry (.heap (ppn address)))) := by
  have entry : state.view.entry (.heap (ppn address)) = state.bootTables (ppn address) :=
    heap.slotEntry
  rw [entry] at present ⊢
  simp only [kernelFrame, present, if_true]

/-- What the reverse lookup returns for the frame of a table leads to that frame. -/
theorem table_translated (consistent : Consistent ghost state.view) {table : Table} {address : Nat}
    (nonzero : state.view.table table ≠ 0)
    (located : kheapVirtualAddress state (frameOf (state.view.table table)) = .ok address)
    (found : address ≠ 0) : HeapAddress address ∧
      kernelFrame state address = .ok (frameOf (state.view.table table)) := by
  rcases kheapVirtualAddress_ok consistent.toHeapLayout located with
    zero | ⟨heap, -, mapped, frame⟩
  · exact absurd zero found
  have slot : state.view.entry (.heap (ppn address)) = state.bootTables (ppn address) :=
    heap.slotEntry
  rw [← slot] at mapped frame
  have unlisted := consistent.table_not_listed nonzero
  rw [← frame] at unlisted
  have reached := kernelFrame_returns heap (present_of_unlisted consistent mapped unlisted)
  rw [frame] at reached
  exact ⟨heap, reached⟩

theorem heapPage_bounds {page : Nat} (nonzero : state.view.entry (.heap page) ≠ 0) :
    ppn kernelHeapStart ≤ page ∧ page < ppn kernelHeapMax := by
  by_contra outside
  exact nonzero (if_neg outside)

/-- One more directory or table may be missing. -/
def missing (absent : Prop) [Decidable absent] : Nat := if absent then 1 else 0

theorem NewHeapPage.kernelFrame {frame address : Nat}
    (new : NewHeapPage ghost state frame address after final)
    (consistent : Consistent ghost state.view) : kernelFrame final address = .ok frame := by
  have entry := new.handed.entry
  rw [kernelFrame_returns new.heap (by rw [entry]; exact present_heapEntry frame), entry,
    frameOf_heapEntry (new.bound consistent)]

/-- The new page becomes the disk page table. -/
theorem createDiskPageTable_run {env address table frame : Nat} {grown : State}
    (consistent : Consistent ghost state.view)
    (allocated : kmalloc 4096 state = .ok (table, grown)) (nonzero : table ≠ 0)
    (new : NewHeapPage ghost state frame table after grown) (serviceable : Serviceable grown) :
    createDiskPageTable env address state = .ok (.kernel table,
      grown.newDiskTable env (pdx address) frame (diskTableWord frame)) := by
  refine Kernel.bind_ok.mpr ⟨table, grown, allocated, ?_⟩
  rw [if_neg nonzero]
  have physical := kheapPhysicalAddress_returns new.growth.consistent.toHeapLayout serviceable
    new.heap
  rw [new.handed.entry, frameOf_heapEntry (new.bound consistent)] at physical
  have mapped := new.kernelFrame consistent
  refine Kernel.bind_observe_ok.mpr ⟨frame, physical, ?_⟩
  refine Kernel.bind_modify_ok.mpr (Kernel.bind_observe_ok.mpr ⟨frame, mapped, ?_⟩)
  rfl

/-- An entry without a disk frame gets the first free one. -/
theorem allocatePageFrame_run {table frame offset dfn : Nat} {between : State}
    (mapped : kernelFrame state table = .ok frame) (absent : state.memory frame offset = 0)
    (taken : allocateDiskFrame state = .ok (some dfn, between))
    (only : DiskListOnly state between) :
    allocatePageFrame (.kernel table) offset state = .ok (some (BitVec.ofNat 32 dfn),
      between.setMemory frame offset (BitVec.ofNat 32 dfn)) := by
  have loaded : load state (.kernel table) offset = .ok 0 := by
    refine Except.bind_ok.mpr ⟨frame, mapped, ?_⟩
    rw [absent]
    rfl
  refine Kernel.bind_observe_ok.mpr ⟨0, loaded, ?_⟩
  rw [if_neg (not_not.mpr rfl)]
  refine Kernel.bind_ok.mpr ⟨some dfn, between, taken, ?_⟩
  refine Kernel.bind_ok.mpr ⟨(), _, Kernel.bind_observe_ok.mpr ⟨frame, ?_, rfl⟩,
    Kernel.pure_ok.mpr ⟨rfl, rfl⟩⟩
  rcases only with ⟨_, _, rfl⟩
  exact mapped

/-- Below the search pointer of the kernel heap `kheap_virtual_address` finds every page. -/
structure Walkable (state : State) : Prop where
  serviceable : Serviceable state
  above : ∀ page, ppn state.startAdd ≤ page → state.view.entry (.heap page) = 0

theorem Walkable.table_located (walkable : Walkable state) (consistent : Consistent ghost state.view)
    {table : Table} (present : state.view.table table ≠ 0) :
    ∃ address, kheapVirtualAddress state (frameOf (state.view.table table)) = .ok address ∧
      HeapAddress address ∧ address ≠ 0 ∧
      kernelFrame state address = .ok (frameOf (state.view.table table)) := by
  have layout := consistent.toHeapLayout
  rcases consistent.tableHeld table present with ⟨page, held⟩
  have member : Slot.heap page ∈ ghost.holders (frameOf (state.view.table table)) := by
    simp [held]
  rcases consistent.mem_holders.mp member with ⟨-, nonzero, refers⟩
  have bounds := heapPage_bounds nonzero
  have below : page < ppn state.startAdd := by
    by_contra high
    exact nonzero (walkable.above page (not_lt.mp high))
  have managed : frameOf (state.view.table table) < state.numberOfFrames :=
    refers ▸ walkable.serviceable.frames page nonzero
  rw [kheapVirtualAddress_returns layout walkable.serviceable managed]
  cases found : (pageRange kernelHeapStart state.startAdd).find? fun address =>
      decide (entryFrame (state.view.entry (.heap (ppn address))) =
        some (frameOf (state.view.table table))) with
  | none =>
      have visited : page * 4096 ∈ pageRange kernelHeapStart state.startAdd := by
        refine mem_pageRange.mpr ⟨page - ppn kernelHeapStart, ?_, ?_⟩
        · simp only [ppn, kernelHeapStart] at bounds ⊢
          omega
        · simp only [ppn] at below
          omega
      have missed := List.find?_eq_none.mp found (page * 4096) visited
      rw [show ppn (page * 4096) = page from Nat.mul_div_cancel page (by decide)] at missed
      exact absurd (decide_eq_true (entryFrame_eq_some.mpr ⟨nonzero, refers⟩)) missed
  | some address =>
      have heap := pageRange_heapAddress le_rfl layout.startUpper (by decide)
        (List.mem_of_find?_eq_some found)
      have same := List.find?_some found
      rw [decide_eq_true_eq, entryFrame_eq_some] at same
      have unlisted := consistent.table_not_listed present
      rw [← same.2] at unlisted
      have isPresent := present_of_unlisted consistent same.1 unlisted
      have lower := heap.lower
      refine ⟨address, rfl, heap, ?_, ?_⟩
      · simp only [kernelHeapStart] at lower
        omega
      · rw [kernelFrame_returns heap isPresent, same.2]

theorem Walkable.diskTable_located (walkable : Walkable state)
    (consistent : Consistent ghost state.view) {env index : Nat}
    (present : state.diskDirectory env index ≠ 0) :
    ∃ table, kheapVirtualAddress state (frameOf (state.diskDirectory env index)) = .ok table ∧
      HeapAddress table ∧ table ≠ 0 ∧
      kernelFrame state table = .ok (frameOf (state.diskDirectory env index)) :=
  walkable.table_located consistent
    (show state.view.table (.disk env index) ≠ 0 from present)

namespace Roomy

theorem mono (roomy : Roomy state spare) {fewer : Nat} (less : fewer ≤ spare) :
    Roomy state fewer :=
  { roomy with
    pointer := (Nat.add_le_add_left (Nat.mul_le_mul_right 4096 less) _).trans roomy.pointer }

theorem congr (roomy : Roomy state spare)
    (strategy : final.kHeapPlacementStrategy = state.kHeapPlacementStrategy)
    (pointer : final.startAdd = state.startAdd)
    (heap : ∀ page, final.view.entry (.heap page) = state.view.entry (.heap page)) :
    Roomy final spare where
  strategy := strategy.trans roomy.strategy
  pointer := pointer ▸ roomy.pointer
  above page high := (heap page).trans (roomy.above page (pointer ▸ high))

theorem visited (roomy : Roomy state (spare + 1)) (layout : HeapLayout state.view) :
    visitedPage state.view 0 = state.startAdd := by
  have pointer := roomy.pointer
  have lower : kernelHeapStart ≤ state.startAdd := layout.startLower
  have aligned : state.startAdd % 4096 = 0 := layout.startAligned
  have same : state.view.startAdd = state.startAdd := rfl
  simp only [visitedPage, scanOffset, same, kernelHeapStart, kernelHeapMax, kernelHeapPages]
    at *
  omega

/-- The search ends where it begins. -/
theorem freeRun (roomy : Roomy state (spare + 1)) (layout : HeapLayout state.view) :
    FreeRun state.view 0 (roundUp 4096 / 4096) := by
  intro count _ below
  have first : count = 0 := by
    have single : roundUp 4096 / 4096 = 1 := rfl
    omega
  rw [first, roomy.visited layout]
  exact roomy.above _ le_rfl

/-- A page is allocated where the next-fit pointer stands. -/
theorem kmalloc (roomy : Roomy state (spare + 1)) (consistent : Consistent ghost state.view)
    {address : Nat} (allocated : kmalloc 4096 state = .ok (address, final)) :
    address ≠ 0 ∧ Roomy final spare := by
  have layout := consistent.toHeapLayout
  have pointer := roomy.pointer
  have lower : kernelHeapStart ≤ state.startAdd := layout.startLower
  have request : Request 4096 := ⟨by decide, by decide⟩
  have visited := roomy.visited layout
  have free := roomy.freeRun layout
  rcases kmalloc_ok consistent request allocated with
    ⟨-, full, -⟩ | ⟨record, after, rfl, allocation⟩
  · exact absurd free (full roomy.strategy 0 (by decide))
  rcases allocation.scanned with ⟨start, scanned⟩
  have atPointer : start = 0 := by
    by_contra later
    exact scanned.run.first 0 (by omega) free
  subst atPointer
  have first : record.first = state.startAdd := scanned.first.trans visited
  have last : record.last = state.startAdd := scanned.last.trans visited
  have nonzero : record.first ≠ 0 := by
    rw [first]
    simp only [kernelHeapStart] at lower
    omega
  rcases kmalloc_page consistent allocated nonzero with ⟨frame, later, new⟩
  have startAdd : final.startAdd = state.startAdd + 4096 := by rw [allocation.startAdd, last]
  refine ⟨nonzero, ?_, by omega, ?_⟩
  · rcases new.only with ⟨_, _, _, _, _, _, _, rfl⟩
    exact roomy.strategy
  · intro page high
    rw [startAdd] at high
    have different : page ≠ ppn record.first := by
      rw [first]
      simp only [ppn] at high ⊢
      omega
    rw [new.growth.entries (.heap page) (by simpa using different)]
    exact roomy.above page (by simp only [ppn] at high ⊢; omega)

end Roomy

namespace Stocked

theorem consistent (stocked : Stocked ghost free state spare) : Consistent ghost state.view :=
  stocked.supplied.consistent

theorem mono (stocked : Stocked ghost free state spare) {fewer : Nat} (less : fewer ≤ spare) :
    Stocked ghost free state fewer :=
  { stocked with
    records := by
      have := stocked.records
      omega
    pointer := (Nat.add_le_add_left (Nat.mul_le_mul_right 4096 less) _).trans stocked.pointer
    enough := less.trans stocked.enough }

theorem change (stocked : Stocked ghost free state spare) (only : FileOnly state final)
    (consistent : Consistent ghost final.view) (file : PageFile left final) :
    Stocked ghost left final spare := by
  rcases only with ⟨_, _, _, _, _, _, rfl⟩
  exact
    { supplied :=
        { consistent := consistent
          serviceable := ⟨stocked.supplied.serviceable.tables,
            stocked.supplied.serviceable.frames⟩
          managed := stocked.supplied.managed
          plain := stocked.supplied.plain }
      file := file
      strategy := stocked.strategy
      records := stocked.records
      pointer := stocked.pointer
      above := stocked.above
      enough := stocked.enough }

/-- Another environment runs. -/
theorem schedule (stocked : Stocked ghost free state spare) (curenv : Nat) :
    Stocked ghost free { state with curenv } spare where
  supplied := ⟨stocked.consistent, ⟨stocked.supplied.serviceable.tables,
    stocked.supplied.serviceable.frames⟩, stocked.supplied.managed, stocked.supplied.plain⟩
  file := ⟨stocked.file.list, stocked.file.pool, stocked.file.layout.congr rfl rfl
    (fun _ => id) fun _ => id⟩
  strategy := stocked.strategy
  records := stocked.records
  pointer := stocked.pointer
  above := stocked.above
  enough := stocked.enough

theorem roomy (stocked : Stocked ghost free state spare) : Roomy state spare :=
  ⟨stocked.strategy, stocked.pointer, stocked.above⟩

/-- There is a frame for the page, too. -/
theorem kmalloc (stocked : Stocked ghost free state (spare + 1)) :
    ∃ address frame after final, kmalloc 4096 state = .ok (address, final) ∧ address ≠ 0 ∧
      NewHeapPage ghost state frame address after final ∧ Stocked after free final spare := by
  have consistent := stocked.consistent
  have records := stocked.records
  have request : Request 4096 := ⟨by decide, by decide⟩
  rcases kmalloc_fits stocked.supplied request (by omega) stocked.strategy
    (stocked.roomy.freeRun consistent.toHeapLayout) (by decide)
    (show 1 ≤ ghost.free.length from (Nat.le_add_left _ _).trans stocked.enough) with
    ⟨record, _, final, returned, -, -, allocation⟩
  rcases stocked.roomy.kmalloc consistent returned with ⟨nonzero, roomy⟩
  rcases kmalloc_page consistent returned nonzero with ⟨frame, after, new⟩
  have idx := allocation.idx
  have length := new.growth.length
  refine ⟨record.first, frame, after, final, returned, nonzero, new, ?_⟩
  exact
    { supplied := stocked.supplied.grow new.growth new.only.pageDirectory (by
        rcases new.only with ⟨_, _, _, _, _, _, _, rfl⟩
        rfl)
      file := (new.fileKept consistent stocked.file).file
      strategy := roomy.strategy
      records := by omega
      pointer := roomy.pointer
      above := roomy.above
      enough := by
        have before := stocked.enough
        simp only [List.length_singleton] at length
        omega }

/-- The reverse lookup finds the frame of every disk page table. -/
theorem walkable (stocked : Stocked ghost free state spare) : Walkable state :=
  ⟨stocked.supplied.serviceable, stocked.above⟩

/-- A pointer to a disk page table through which entries are read and written. -/
def Reaches (state : State) (env address : Nat) (pointer : TablePointer) : Prop :=
  ∃ table, pointer = .kernel table ∧ HeapAddress table ∧
    kernelFrame state table = .ok (frameOf (state.diskDirectory env (pdx address)))

theorem diskTablePointer_returns (stocked : Stocked ghost free state spare) {env address : Nat}
    (user : address < userTop) :
    ∃ pointer, diskTablePointer state env address = .ok pointer ∧
      (state.diskDirectory env (pdx address) ≠ 0 → Reaches state env address pointer) := by
  have layout := stocked.consistent.toHeapLayout
  have kernelless : ¬checkIfKernelAddress address := not_le.mpr user
  by_cases absent : state.diskDirectory env (pdx address) = 0
  · have someTable := stocked.supplied.serviceable.tables (pdx kernelHeapStart) le_rfl (by decide)
    have bound : frameOf (state.diskDirectory env (pdx address)) < state.numberOfFrames := by
      have zero : frameOf (0 : Word) = 0 := by decide
      rw [absent, zero]
      omega
    obtain ⟨found, looked⟩ : ∃ found, kheapVirtualAddress state
        (frameOf (state.diskDirectory env (pdx address))) = .ok found :=
      ⟨_, kheapVirtualAddress_returns layout stocked.supplied.serviceable bound⟩
    refine ⟨.ofAddress found, ?_, fun present => absurd absent present⟩
    rw [diskTablePointer, if_neg kernelless, looked]
    rfl
  · rcases stocked.walkable.diskTable_located stocked.consistent absent with
      ⟨table, looked, heap, nonzero, frame⟩
    refine ⟨.kernel table, ?_, fun _ => ⟨table, rfl, heap, frame⟩⟩
    rw [diskTablePointer, if_neg kernelless, looked]
    simp [bind, Except.bind, pure, Except.pure, TablePointer.ofAddress, nonzero]

theorem getDiskPageDirectory_returns {env : Nat}
    (stocked : Stocked ghost free state
      (missing ((state.envs env).diskEnvPgdir = 0) + spare)) :
    ∃ after final, getDiskPageDirectory env state = .ok ((), final) ∧
      Stocked after free final spare ∧ (final.envs env).diskEnvPgdir ≠ 0 ∧
      final.diskDirectory = state.diskDirectory := by
  by_cases absent : (state.envs env).diskEnvPgdir = 0
  · rw [missing, if_pos absent, Nat.add_comm] at stocked
    rcases stocked.kmalloc with ⟨address, frame, after, grown, allocated, nonzero, new, later⟩
    have absentNow : (grown.envs env).diskEnvPgdir = 0 := by rw [new.only.envs, absent]
    have directory : grown.diskDirectory = state.diskDirectory := by
      rcases new.only with ⟨_, _, _, _, _, _, _, rfl⟩
      rfl
    have cleared : Function.update grown.diskDirectory env (fun _ => 0) =
        grown.diskDirectory := by
      rw [Function.update_eq_self_iff]
      funext index
      exact (later.file.layout.noPages env absentNow index).symm
    have kept : FileKept ghost free state after
        (grown.setDirectoryAddress (.pages env) address) :=
      new.directory stocked.consistent stocked.file absentNow
    refine ⟨after, grown.setEnv env { grown.envs env with diskEnvPgdir := address }, ?_,
      later.change ⟨_, _, _, _, _, _, rfl⟩ kept.consistent kept.file, ?_, directory⟩
    · refine Kernel.bind_get_ok.mpr ?_
      rw [if_neg (not_not.mpr absent)]
      refine Kernel.bind_ok.mpr ⟨address, grown, allocated, ?_⟩
      rw [if_neg nonzero]
      refine Kernel.bind_observe_ok.mpr ⟨frame, new.kernelFrame stocked.consistent, ?_⟩
      refine Kernel.modify_ok.mpr ?_
      rw [cleared]
      rfl
    · simpa [State.setEnv] using nonzero
  · rw [missing, if_neg absent, Nat.zero_add] at stocked
    refine ⟨ghost, state, Kernel.bind_get_ok.mpr ?_, stocked, absent, rfl⟩
    rw [if_pos absent]
    rfl

theorem createDiskPageTable_returns {env address : Nat} (user : address < userTop)
    (stocked : Stocked ghost free state (1 + spare))
    (directory : (state.envs env).diskEnvPgdir ≠ 0)
    (absent : state.diskDirectory env (pdx address) = 0) :
    ∃ pointer after final, createDiskPageTable env address state = .ok (pointer, final) ∧
      Stocked after free final spare ∧ (final.envs env).diskEnvPgdir ≠ 0 ∧
      final.diskDirectory env (pdx address) ≠ 0 ∧ Reaches final env address pointer ∧
      ∀ index, index ≠ pdx address →
        final.diskDirectory env index = state.diskDirectory env index := by
  rw [Nat.add_comm] at stocked
  rcases stocked.kmalloc with ⟨table, frame, after, grown, allocated, nonzero, new, later⟩
  have sameDirectory : grown.diskDirectory = state.diskDirectory := by
    rcases new.only with ⟨_, _, _, _, _, _, _, rfl⟩
    rfl
  have directoryNow : (grown.envs env).diskEnvPgdir ≠ 0 := by rwa [new.only.envs]
  have absentNow : grown.diskDirectory env (pdx address) = 0 := by rwa [sameDirectory]
  have kept := new.diskTable stocked.consistent stocked.file (address_user user).2 directoryNow
    absentNow
  have mapped := new.kernelFrame stocked.consistent
  have word := State.newDiskTable_directory grown env (pdx address) frame (diskTableWord frame)
  refine ⟨.kernel table, after, grown.newDiskTable env (pdx address) frame
    (diskTableWord frame), ?_, later.change ⟨_, _, _, _, _, _, rfl⟩ kept.consistent
    kept.file, directoryNow, ?_, ⟨table, rfl, new.heap, ?_⟩, ?_⟩
  · exact createDiskPageTable_run stocked.consistent allocated nonzero new
      later.supplied.serviceable
  · rw [word]
    exact ne_zero_of_present (present_diskTableWord frame)
  · rw [word, frameOf_constructEntry (new.bound stocked.consistent) (by decide)]
    exact mapped
  · intro index different
    rw [State.newDiskTable_others _ _ _ (by simp [different]), sameDirectory]

theorem getDiskPageTable_returns {env address : Nat} (user : address < userTop)
    (stocked : Stocked ghost free state
      (missing (state.diskDirectory env (pdx address) = 0) + spare))
    (directory : (state.envs env).diskEnvPgdir ≠ 0) :
    ∃ pointer after final, getDiskPageTable env address true state = .ok (pointer, final) ∧
      Stocked after free final spare ∧ (final.envs env).diskEnvPgdir ≠ 0 ∧
      final.diskDirectory env (pdx address) ≠ 0 ∧ Reaches final env address pointer ∧
      ∀ index, index ≠ pdx address →
        final.diskDirectory env index = state.diskDirectory env index := by
  rcases diskTablePointer_returns stocked user with ⟨located, looked, reaches⟩
  by_cases absent : state.diskDirectory env (pdx address) = 0
  · rw [missing, if_pos absent] at stocked
    rcases createDiskPageTable_returns user stocked directory absent with
      ⟨pointer, after, final, created, rest⟩
    refine ⟨pointer, after, final, Kernel.bind_observe_ok.mpr ⟨located, looked, ?_⟩, rest⟩
    refine Kernel.bind_get_ok.mpr ?_
    rw [if_pos absent, if_pos rfl]
    exact created
  · rw [missing, if_neg absent, Nat.zero_add] at stocked
    refine ⟨located, ghost, state, Kernel.bind_observe_ok.mpr ⟨located, looked, ?_⟩, stocked,
      directory, absent, reaches absent, fun _ _ => rfl⟩
    refine Kernel.bind_get_ok.mpr ?_
    rw [if_neg absent]
    rfl

theorem allocateDiskFrame_returns (state : State) :
    ∃ result final, allocateDiskFrame state = .ok (result, final) := by
  cases first : state.diskFreeFrameList.first with
  | none =>
      refine ⟨none, state, Kernel.bind_get_ok.mpr ?_⟩
      rw [first]
      rfl
  | some dfn =>
      refine ⟨some dfn, { state.withDiskFree (listRemove state.diskFree dfn) with
        diskLinks := Function.update
          (state.withDiskFree (listRemove state.diskFree dfn)).diskLinks dfn Link.null },
        Kernel.bind_get_ok.mpr ?_⟩
      rw [first]
      rfl

theorem allocatePageFrame_returns {env address : Nat} {pointer : TablePointer}
    (stocked : Stocked ghost free state spare)
    (present : state.diskDirectory env (pdx address) ≠ 0)
    (reaches : Reaches state env address pointer) :
    ∃ result left final, allocatePageFrame pointer (ptx address) state = .ok (result, final) ∧
      Stocked ghost left final spare ∧ final.diskDirectory = state.diskDirectory ∧
      final.envs = state.envs := by
  rcases reaches with ⟨table, rfl, heap, mapped⟩
  have consistent := stocked.consistent
  have loaded : load state (.kernel table) (ptx address) =
      .ok (state.diskEntry env (ppn address)) := by
    refine Except.bind_ok.mpr ⟨_, mapped, ?_⟩
    rw [diskEntry_of_ne present]
    rfl
  by_cases absent : state.diskEntry env (ppn address) = 0
  · rcases allocateDiskFrame_returns state with ⟨result, between, taken⟩
    rcases allocateDiskFrame_ok stocked.file.list stocked.file.room taken with
      ⟨rfl, -, rfl⟩ | ⟨dfn, left, rfl, -, -, only⟩
    · refine ⟨none, free, between, ?_, stocked, rfl, rfl⟩
      refine Kernel.bind_observe_ok.mpr ⟨_, loaded, ?_⟩
      rw [if_neg (not_not.mpr absent)]
      exact Kernel.bind_ok.mpr ⟨none, between, taken, rfl⟩
    · have allocated : allocatePageFrame (.kernel table) (ptx address) state =
          .ok (some (BitVec.ofNat 32 dfn), between.setMemory
            (frameOf (state.diskDirectory env (pdx address))) (ptx address)
            (BitVec.ofNat 32 dfn)) := by
        refine allocatePageFrame_run mapped ?_ taken only
        rw [diskEntry_of_ne present] at absent
        exact absent
      have points : PointsTo state (.kernel table)
          (frameOf (state.diskDirectory env (pdx address))) :=
        ⟨table, rfl, heap, (kernelFrame_ok mapped).2⟩
      rcases allocatePageFrame_ok consistent stocked.file ⟨present, points⟩ allocated with
        ⟨step, -, ⟨impossible, -⟩ | ⟨left, -, added⟩⟩
      · cases impossible
      · refine ⟨_, left, _, allocated, stocked.change ?_ step.consistent added.file, ?_, ?_⟩
        all_goals rcases only with ⟨_, _, rfl⟩
        · exact ⟨_, _, _, _, _, _, rfl⟩
        · rfl
        · rfl
  · refine ⟨some (state.diskEntry env (ppn address)), free, state,
      Kernel.bind_observe_ok.mpr ⟨_, loaded, ?_⟩, stocked, rfl, rfl⟩
    rw [if_pos absent]
    rfl

/-- The page file has the disk page directory and the disk page table of a page. -/
structure Opened (state : State) (env address : Nat) (final : State) : Prop where
  directory : (final.envs env).diskEnvPgdir ≠ 0
  table : final.diskDirectory env (pdx address) ≠ 0
  others : ∀ index, index ≠ pdx address →
    final.diskDirectory env index = state.diskDirectory env index

/-- The heap pages that adding a page may need. -/
abbrev needed (state : State) (env address : Nat) : Nat :=
  missing ((state.envs env).diskEnvPgdir = 0) +
    missing (state.diskDirectory env (pdx address) = 0)

theorem pfAddFrame_returns {env address : Nat} (user : address < userTop)
    (stocked : Stocked ghost free state (needed state env address + spare)) :
    ∃ result after left final, pfAddFrame env address state = .ok (result, final) ∧
      Stocked after left final spare ∧ Opened state env address final := by
  rw [needed, Nat.add_assoc] at stocked
  rcases stocked.getDiskPageDirectory_returns with
    ⟨ghostOne, opened, opening, first, directory, same⟩
  rw [← same] at first
  rcases getDiskPageTable_returns user first directory with
    ⟨pointer, ghostTwo, found, finding, second, directoryNow, present, reaches, others⟩
  rcases second.allocatePageFrame_returns present reaches with
    ⟨result, left, final, allocated, last, directories, envs⟩
  have low : ¬kernelBase ≤ address := by
    simp only [kernelBase, userTop] at user ⊢
    omega
  refine ⟨result, ghostTwo, left, final, ?_, last, ?_⟩
  · refine Kernel.ite_ok.mpr (.inr ⟨low, ?_⟩)
    exact Kernel.bind_ok.mpr ⟨(), opened, opening, Kernel.bind_ok.mpr
      ⟨pointer, found, finding, allocated⟩⟩
  · refine ⟨by rwa [envs], by rwa [directories], ?_⟩
    intro index different
    rw [directories, others index different, same]

theorem setSectors (stocked : Stocked ghost free state spare) (sectors : Nat → Nat → Word) :
    Stocked ghost free { state with sectors } spare :=
  stocked.change ⟨_, _, _, _, _, _, rfl⟩ stocked.consistent (stocked.file.setSectors sectors)

theorem pfAddEnvPage_returns {env address : Nat} {page : Nat → Word} (user : address < userTop)
    (stocked : Stocked ghost free state (needed state env address + spare)) :
    ∃ code after left final, pfAddEnvPage env address page state = .ok (code, final) ∧
      Stocked after left final spare ∧ Opened state env address final := by
  rcases pfAddFrame_returns user stocked with
    ⟨result, after, left, final, added, later, opened⟩
  cases result with
  | none =>
      exact ⟨.noSpace, after, left, final, Kernel.bind_ok.mpr ⟨none, final, added, rfl⟩, later,
        opened⟩
  | some dfn =>
      let sectors := ideWrite final.sectors (startSector dfn) page
      exact ⟨.success, after, left, { final with sectors },
        Kernel.bind_ok.mpr ⟨some dfn, final, added, rfl⟩, later.setSectors sectors,
        ⟨opened.directory, opened.table, opened.others⟩⟩

theorem pfAddEmptyEnvPage_returns {env address : Nat} (user : address < userTop)
    (stocked : Stocked ghost free state (needed state env address + spare)) :
    ∃ code after left final, pfAddEmptyEnvPage env address true state = .ok (code, final) ∧
      Stocked after left final spare ∧ Opened state env address final := by
  rcases stocked.pfAddEnvPage_returns user with ⟨code, after, left, final, added, rest⟩
  exact ⟨code, after, left, final, Kernel.bind_get_ok.mpr added, rest⟩

/-! ## Many pages -/

/-- The heap pages for the disk page directory and for the disk page tables with some
indices. -/
def budget (state : State) (env : Nat) (indices : Finset Nat) : Nat :=
  missing ((state.envs env).diskEnvPgdir = 0) +
    (indices.filter fun index => state.diskDirectory env index = 0).card

theorem needed_le_budget {env address : Nat} {indices : Finset Nat}
    (member : pdx address ∈ indices) :
    needed state env address ≤ budget state env indices := by
  refine Nat.add_le_add_left ?_ _
  unfold missing
  split
  · next absent =>
    exact Finset.card_pos.mpr ⟨pdx address, Finset.mem_filter.mpr ⟨member, absent⟩⟩
  · exact Nat.zero_le _

theorem Opened.budget_le {env address : Nat} (opened : Opened state env address final)
    {indices : Finset Nat} (member : pdx address ∈ indices) :
    budget final env indices ≤ budget state env indices - needed state env address := by
  have rest : (indices.filter fun index => final.diskDirectory env index = 0) ⊆
      (indices.filter fun index => state.diskDirectory env index = 0).erase (pdx address) := by
    intro index inside
    rcases Finset.mem_filter.mp inside with ⟨listed, absent⟩
    have different : index ≠ pdx address := by
      rintro rfl
      exact opened.table absent
    refine Finset.mem_erase.mpr ⟨different, Finset.mem_filter.mpr ⟨listed, ?_⟩⟩
    rwa [← opened.others index different]
  have fewer := Finset.card_le_card rest
  unfold budget needed
  rw [show missing ((final.envs env).diskEnvPgdir = 0) = 0 from if_neg opened.directory]
  by_cases absent : state.diskDirectory env (pdx address) = 0
  · rw [Finset.card_erase_of_mem (Finset.mem_filter.mpr ⟨member, absent⟩)] at fewer
    rw [show missing (state.diskDirectory env (pdx address) = 0) = 1 from if_pos absent]
    omega
  · have less := fewer.trans (Finset.card_erase_le)
    rw [show missing (state.diskDirectory env (pdx address) = 0) = 0 from if_neg absent]
    omega

theorem addPages_returns {env : Nat} {indices : Finset Nat} {addresses : List Nat}
    (user : ∀ address ∈ addresses, address < userTop ∧ pdx address ∈ indices)
    (stocked : Stocked ghost free state (budget state env indices + spare)) :
    ∃ after left final, Kernel.forEach (fun page => do let _ ← pfAddEmptyEnvPage env page true)
        addresses state = .ok ((), final) ∧ Stocked after left final spare := by
  induction addresses generalizing ghost free state with
  | nil => exact ⟨ghost, free, state, rfl, stocked.mono (Nat.le_add_left _ _)⟩
  | cons address addresses induction =>
      rcases user address (by simp) with ⟨below, member⟩
      have enough : Stocked ghost free state (needed state env address +
          (budget state env indices - needed state env address + spare)) := by
        have least : needed state env address ≤ budget state env indices :=
          needed_le_budget member
        rwa [← Nat.add_assoc, Nat.add_sub_cancel' least]
      rcases pfAddEmptyEnvPage_returns below enough with
        ⟨code, ghostMiddle, between, middle, added, later, opened⟩
      have supply := later.mono (Nat.add_le_add_right (opened.budget_le member) spare)
      rcases induction (fun other inside => user other (by simp [inside])) supply with
        ⟨after, left, final, returned, last⟩
      exact ⟨after, left, final, Kernel.bind_ok.mpr ⟨(), middle,
        Kernel.bind_ok.mpr ⟨code, middle, added, rfl⟩, returned⟩, last⟩

end Stocked

end Stock

end FosKernel
