import FosKernel.Abstract.Evolution

/-! # Lookup refines the abstract entries

What the lookup functions return, when they return, in terms of the entries of the
abstract memory. A pointer to a user page table leads to the frame in the directory
entry, whichever heap page the reverse lookup found.
-/

namespace FosKernel

/-- A page-aligned address of the kernel heap. -/
structure HeapAddress (address : Nat) : Prop where
  lower : kernelHeapStart ≤ address
  upper : address < kernelHeapMax
  aligned : address % 4096 = 0

/-- The frame in an entry, as `get_frame_info` reads it. -/
def entryFrame (word : Word) : Option Nat :=
  if word = 0 then none else some (frameOf word)

theorem entryFrame_eq_none {word : Word} : entryFrame word = none ↔ word = 0 := by
  unfold entryFrame
  split <;> simp_all

theorem entryFrame_eq_some {word : Word} {frame : Nat} :
    entryFrame word = some frame ↔ word ≠ 0 ∧ frameOf word = frame := by
  unfold entryFrame
  split <;> simp_all

theorem pdx_mul_add_ptx (address : Nat) : pdx address * 1024 + ptx address = ppn address :=
  Nat.div_add_mod' (ppn address) 1024

namespace HeapAddress

variable {address : Nat} {state : State}

theorem slotEntry (heap : HeapAddress address) :
    state.slotEntry (.heap (ppn address)) = state.bootTables (ppn address) := by
  have lower := heap.lower
  have upper := heap.upper
  have aligned := heap.aligned
  have inside : ppn kernelHeapStart ≤ ppn address ∧ ppn address < ppn kernelHeapMax := by
    grind
  simp only [State.slotEntry, inside, and_self, if_true]

theorem kernel (heap : HeapAddress address) : checkIfKernelAddress address := by
  have := heap.lower
  grind

theorem tableIndex (heap : HeapAddress address) :
    pdx kernelHeapStart ≤ pdx address ∧ pdx address < 1024 := by
  have := heap.lower
  have := heap.upper
  grind

theorem hasBootTable (heap : HeapAddress address) : hasBootTable (pdx address) := by
  have := heap.tableIndex
  right; right
  grind

end HeapAddress

theorem pageRange_heapAddress {start stop address : Nat}
    (lower : kernelHeapStart ≤ start) (upper : stop ≤ kernelHeapMax)
    (aligned : start % 4096 = 0) (member : address ∈ pageRange start stop) :
    HeapAddress address := by
  rcases mem_pageRange.mp member with ⟨index, rfl, bound⟩
  exact ⟨by grind, by grind, by omega⟩

section Lookup

variable {state : State} {address : Nat}

theorem toFrameInfo_ok {frame result : Nat}
    (returned : toFrameInfo state frame = .ok result) :
    result = frame ∧ frame < state.numberOfFrames := by
  unfold toFrameInfo at returned
  split at returned
  · simp at returned
  · next bound =>
    simp only [Except.ok.injEq] at returned
    exact ⟨returned.symm, by omega⟩

theorem kernelFrame_ok {frame : Nat} (returned : kernelFrame state address = .ok frame) :
    hasPerm (state.bootTables (ppn address)) permPresent = true ∧
      frameOf (state.bootTables (ppn address)) = frame := by
  simp only [kernelFrame] at returned
  split at returned
  · next present =>
    simp only [Except.ok.injEq] at returned
    exact ⟨present, returned⟩
  · simp at returned

theorem tableStatus_ok {entry : Word} {pointer result : TablePointer}
    {status : TableStatus} (returned : tableStatus entry pointer = .ok (status, result)) :
    (hasPerm entry permPresent = true ∧ status = .inMemory ∧ result = pointer) ∨
      (entry = 0 ∧ status = .notExist ∧ result = .null) := by
  unfold tableStatus at returned
  split at returned
  · next present =>
    simp only [Except.ok.injEq, Prod.mk.injEq] at returned
    exact .inl ⟨present, returned.1.symm, returned.2.symm⟩
  · split at returned
    · simp at returned
    · next zero =>
      simp only [Except.ok.injEq, Prod.mk.injEq] at returned
      exact .inr ⟨by simpa using zero, returned.1.symm, returned.2.symm⟩

theorem kernelDirectory_heap {index : Nat} (lower : pdx kernelHeapStart ≤ index) :
    state.view.kernelDirectory index = state.pageDirectory .kernel index := by
  simp only [State.view]
  rw [if_neg (by grind)]

theorem HeapLayout.table_present (layout : HeapLayout state.view) {index : Nat}
    (lower : pdx kernelHeapStart ≤ index) (upper : index < 1024) :
    hasPerm (state.pageDirectory .kernel index) permPresent = true := by
  rw [← kernelDirectory_heap lower]
  exact layout.kernelTables index lower upper

/-- A heap page is reached through its boot table. -/
theorem kernelPageTable_heap (layout : HeapLayout state.view) (heap : HeapAddress address)
    {status : TableStatus} {pointer : TablePointer}
    (returned : kernelPageTable state .kernel address = .ok (status, pointer)) :
    status = .inMemory ∧ pointer = .boot (pdx address) := by
  rcases Except.bind_ok.mp returned with ⟨static, found, ended⟩
  have index := heap.tableIndex
  have present := layout.table_present index.1 index.2
  have static_eq : static = .boot (pdx address) := by
    by_cases large : state.numberOfFrames ≤
        frameOf (state.pageDirectory .kernel (pdx address))
    · simp [staticTable, large] at found
    · simpa [staticTable, large, heap.hasBootTable] using found.symm
  rcases tableStatus_ok ended with ⟨-, rfl, rfl⟩ | ⟨zero, -⟩
  · exact ⟨rfl, static_eq⟩
  · exact absurd zero (ne_zero_of_present present)

theorem getPageTable_kernel (directory : Directory) (kernel : checkIfKernelAddress address) :
    getPageTable state directory address = kernelPageTable state directory address := by
  simp [getPageTable, kernelPageTable, tablePointer, kernel]

theorem frameAt_ok {pointer : TablePointer} {info : Option Nat}
    (returned : frameAt state pointer address = .ok info) :
    (pointer = .null ∧ info = none) ∨
      pointer ≠ .null ∧ ∃ word, load state pointer (ptx address) = .ok word ∧
        info = entryFrame word ∧ ∀ frame, info = some frame → frame < state.numberOfFrames := by
  unfold frameAt at returned
  split at returned
  · next null =>
    simp only [pure, Except.pure, Except.ok.injEq] at returned
    exact .inl ⟨null, returned.symm⟩
  · next nonnull =>
    rcases Except.bind_ok.mp returned with ⟨word, loaded, ended⟩
    refine .inr ⟨nonnull, word, loaded, ?_⟩
    split at ended
    · next zero =>
      simp only [pure, Except.pure, Except.ok.injEq] at ended
      subst ended
      simp [entryFrame_eq_none.mpr zero]
    · next nonzero =>
      rcases Except.bind_ok.mp ended with ⟨frame, converted, finished⟩
      rcases toFrameInfo_ok converted with ⟨rfl, bound⟩
      simp only [pure, Except.pure, Except.ok.injEq] at finished
      subst finished
      refine ⟨(entryFrame_eq_some.mpr ⟨nonzero, rfl⟩).symm, ?_⟩
      rintro _ ⟨rfl⟩
      exact bound

theorem heapFrameInfo_ok (layout : HeapLayout state.view) (heap : HeapAddress address)
    {info : Option Nat} (returned : heapFrameInfo state address = .ok info) :
    info = entryFrame (state.view.entry (.heap (ppn address))) ∧
      ∀ frame, info = some frame → frame < state.numberOfFrames := by
  rcases Except.bind_ok.mp returned with ⟨⟨status, pointer⟩, found, ended⟩
  rcases kernelPageTable_heap layout heap found with ⟨-, rfl⟩
  rcases frameAt_ok ended with ⟨null, -⟩ | ⟨-, word, loaded, equal, bound⟩
  · simp at null
  · simp only [load, Except.ok.injEq, pdx_mul_add_ptx] at loaded
    subst loaded
    refine ⟨?_, bound⟩
    rw [equal]
    exact congrArg entryFrame heap.slotEntry.symm

/-- `get_frame_info` reads the heap page. -/
theorem getFrameInfo_heap (layout : HeapLayout state.view) (heap : HeapAddress address)
    {info : Option Nat} {pointer : TablePointer}
    (returned : getFrameInfo state .kernel address = .ok (info, pointer)) :
    info = entryFrame (state.view.entry (.heap (ppn address))) := by
  rw [getFrameInfo, getPageTable_kernel _ heap.kernel] at returned
  rcases Except.bind_ok.mp returned with ⟨⟨status, located⟩, found, ended⟩
  rcases Except.bind_ok.mp ended with ⟨read, framed, finished⟩
  simp only [pure, Except.pure, Except.ok.injEq, Prod.mk.injEq] at finished
  rcases finished with ⟨rfl, rfl⟩
  refine (heapFrameInfo_ok layout heap ?_).1
  exact Except.bind_ok.mpr ⟨_, found, framed⟩

theorem findHeapPage_ok {frame result : Nat} {addresses : List Nat}
    (returned : findHeapPage state frame addresses = .ok result) :
    result = 0 ∨ result ∈ addresses ∧ heapFrameInfo state result = .ok (some frame) := by
  induction addresses with
  | nil =>
      simp only [findHeapPage, Except.ok.injEq] at returned
      exact .inl returned.symm
  | cons head tail induction =>
      rcases Except.bind_ok.mp returned with ⟨info, found, ended⟩
      split at ended
      · next same =>
        simp only [pure, Except.pure, Except.ok.injEq] at ended
        subst ended
        exact .inr ⟨by simp, same ▸ found⟩
      · rcases induction ended with zero | ⟨member, located⟩
        · exact .inl zero
        · exact .inr ⟨by simp [member], located⟩

/-- The reverse lookup returns a heap page that maps the frame, or zero. -/
theorem kheapVirtualAddress_ok (layout : HeapLayout state.view) {frame result : Nat}
    (returned : kheapVirtualAddress state frame = .ok result) :
    result = 0 ∨ HeapAddress result ∧ result < state.startAdd ∧
      state.bootTables (ppn result) ≠ 0 ∧
      frameOf (state.bootTables (ppn result)) = frame := by
  rcases Except.bind_ok.mp returned with ⟨same, converted, found⟩
  rcases toFrameInfo_ok converted with ⟨rfl, -⟩
  rcases findHeapPage_ok found with zero | ⟨member, located⟩
  · exact .inl zero
  · have heap := pageRange_heapAddress le_rfl layout.startUpper (by decide) member
    rcases mem_pageRange.mp member with ⟨_, _, below⟩
    have entry := (entryFrame_eq_some.mp (heapFrameInfo_ok layout heap located).1.symm)
    rw [show state.view.entry = state.slotEntry from rfl, heap.slotEntry] at entry
    exact .inr ⟨heap, below, entry⟩

/-- A pointer that leads to the words of a frame. -/
def PointsTo (state : State) (pointer : TablePointer) (frame : Nat) : Prop :=
  ∃ address, pointer = .kernel address ∧ HeapAddress address ∧
    frameOf (state.bootTables (ppn address)) = frame

/-- The directory entry of a user page. -/
abbrev directoryEntry (state : State) (owner : Directory) (address : Nat) : Word :=
  state.pageDirectory owner (pdx address)

theorem ofAddress_pointsTo (layout : HeapLayout state.view) {frame found : Nat}
    (located : kheapVirtualAddress state frame = .ok found) :
    TablePointer.ofAddress found = .null ∨
      PointsTo state (TablePointer.ofAddress found) frame := by
  unfold TablePointer.ofAddress
  split
  · exact .inl rfl
  · next nonzero =>
    rcases kheapVirtualAddress_ok layout located with zero | ⟨heap, -, -, frame⟩
    · exact absurd zero nonzero
    · exact .inr ⟨found, rfl, heap, frame⟩

theorem tablePointer_user (layout : HeapLayout state.view) {owner : Directory}
    {pointer : TablePointer} (user : address < userTop)
    (returned : tablePointer state owner address = .ok pointer) :
    pointer = .null ∨ PointsTo state pointer (frameOf (directoryEntry state owner address)) := by
  unfold tablePointer at returned
  rw [if_neg (not_le.mpr user)] at returned
  rcases Except.bind_ok.mp returned with ⟨found, located, ended⟩
  simp only [pure, Except.pure, Except.ok.injEq] at ended
  subst ended
  exact ofAddress_pointsTo layout located

/-! ## What lookup reads -/

/-- The parts of the state in which the reverse lookup finds heap pages. -/
structure SameHeap (before after : State) : Prop where
  numberOfFrames : after.numberOfFrames = before.numberOfFrames
  kernelDirectory : after.pageDirectory .kernel = before.pageDirectory .kernel
  bootTables : after.bootTables = before.bootTables
  startAdd : after.startAdd = before.startAdd

namespace SameHeap

variable {after : State}

theorem refl (state : State) : SameHeap state state := ⟨rfl, rfl, rfl, rfl⟩

theorem trans {middle : State} (first : SameHeap state middle) (second : SameHeap middle after) :
    SameHeap state after where
  numberOfFrames := second.numberOfFrames.trans first.numberOfFrames
  kernelDirectory := second.kernelDirectory.trans first.kernelDirectory
  bootTables := second.bootTables.trans first.bootTables
  startAdd := second.startAdd.trans first.startAdd

theorem kernelFrame (same : SameHeap state after) :
    kernelFrame after address = kernelFrame state address := by
  simp only [FosKernel.kernelFrame, same.bootTables]

theorem staticTable (same : SameHeap state after) :
    staticTable after .kernel address = staticTable state .kernel address := by
  simp only [FosKernel.staticTable, same.numberOfFrames, same.kernelDirectory]

/-- The page tables of kernel addresses are found in the boot tables. -/
theorem heapFrameInfo (same : SameHeap state after) (boot : hasBootTable (pdx address)) :
    heapFrameInfo after address = heapFrameInfo state address := by
  have found : kernelPageTable after .kernel address = kernelPageTable state .kernel address := by
    simp only [kernelPageTable, same.staticTable, same.kernelDirectory]
  have pointers : ∀ status pointer,
      kernelPageTable state .kernel address = .ok (status, pointer) →
        pointer = .null ∨ pointer = .boot (pdx address) := by
    intro status pointer located
    rcases Except.bind_ok.mp located with ⟨static, placed, ended⟩
    have static_eq : static = .boot (pdx address) := by
      by_cases large : state.numberOfFrames ≤
          frameOf (state.pageDirectory .kernel (pdx address))
      · simp [FosKernel.staticTable, large] at placed
      · simpa [FosKernel.staticTable, large, boot] using placed.symm
    rcases tableStatus_ok ended with ⟨-, -, rfl⟩ | ⟨-, -, rfl⟩
    · exact .inr static_eq
    · exact .inl rfl
  simp only [FosKernel.heapFrameInfo, found]
  cases located : kernelPageTable state .kernel address with
  | error stop => rfl
  | ok pair =>
      rcases pair with ⟨status, pointer⟩
      change frameAt after pointer address = frameAt state pointer address
      rcases pointers status pointer located with rfl | rfl
      · simp [frameAt]
      · simp only [frameAt, load, toFrameInfo, same.bootTables, same.numberOfFrames]

theorem findHeapPage (same : SameHeap state after) {frame : Nat} {addresses : List Nat}
    (boot : ∀ address ∈ addresses, hasBootTable (pdx address)) :
    findHeapPage after frame addresses = findHeapPage state frame addresses := by
  induction addresses with
  | nil => rfl
  | cons head tail induction =>
      simp only [FosKernel.findHeapPage, same.heapFrameInfo (boot head (by simp)),
        induction fun address member => boot address (by simp [member])]

theorem kheapVirtualAddress (same : SameHeap state after)
    (bounded : state.startAdd < 2 ^ 32) {frame : Nat} :
    kheapVirtualAddress after frame = kheapVirtualAddress state frame := by
  have boot : ∀ address ∈ pageRange kernelHeapStart state.startAdd,
      hasBootTable (pdx address) := by
    intro address member
    rcases mem_pageRange.mp member with ⟨index, equal, below⟩
    right; right
    grind
  simp only [FosKernel.kheapVirtualAddress, toFrameInfo, same.numberOfFrames, same.startAdd,
    same.findHeapPage boot]

end SameHeap

/-- The parts of the state in which lookup finds page tables. -/
structure SameTables (before after : State) : Prop where
  numberOfFrames : after.numberOfFrames = before.numberOfFrames
  pageDirectory : after.pageDirectory = before.pageDirectory
  bootTables : after.bootTables = before.bootTables
  startAdd : after.startAdd = before.startAdd

namespace SameTables

variable {after : State}

theorem heap (same : SameTables state after) : SameHeap state after :=
  ⟨same.numberOfFrames, congrFun same.pageDirectory .kernel, same.bootTables, same.startAdd⟩

theorem kernelFrame (same : SameTables state after) :
    kernelFrame after address = kernelFrame state address := same.heap.kernelFrame

theorem staticTable (same : SameTables state after) (directory : Directory) :
    staticTable after directory address = staticTable state directory address := by
  simp only [FosKernel.staticTable, same.numberOfFrames, same.pageDirectory]

theorem tablePointer (same : SameTables state after) (bounded : state.startAdd < 2 ^ 32)
    (directory : Directory) :
    tablePointer after directory address = tablePointer state directory address := by
  simp only [FosKernel.tablePointer, same.staticTable, same.pageDirectory,
    same.heap.kheapVirtualAddress bounded]

theorem getPageTable (same : SameTables state after) (bounded : state.startAdd < 2 ^ 32)
    (directory : Directory) :
    getPageTable after directory address = getPageTable state directory address := by
  simp only [FosKernel.getPageTable, same.tablePointer bounded, same.pageDirectory]

theorem permissionsTable (same : SameTables state after) (bounded : state.startAdd < 2 ^ 32)
    (name : String) (env : Nat) :
    permissionsTable after name env address = permissionsTable state name env address := by
  simp only [FosKernel.permissionsTable, same.tablePointer bounded, same.pageDirectory]

end SameTables

namespace PointsTo

variable {pointer : TablePointer} {frame index : Nat}

theorem ne_null (points : PointsTo state pointer frame) : pointer ≠ .null := by
  rcases points with ⟨address, rfl, -⟩
  simp

theorem congr (points : PointsTo state pointer frame) {after : State}
    (same : after.bootTables = state.bootTables) : PointsTo after pointer frame := by
  rcases points with ⟨address, rfl, heap, refers⟩
  exact ⟨address, rfl, heap, by rw [same, refers]⟩

theorem load_ok (points : PointsTo state pointer frame) {word : Word}
    (returned : load state pointer index = .ok word) : word = state.memory frame index := by
  rcases points with ⟨address, rfl, -, refers⟩
  rcases Except.bind_ok.mp returned with ⟨found, translated, ended⟩
  simp only [pure, Except.pure, Except.ok.injEq] at ended
  rw [← ended, ← (kernelFrame_ok translated).2, refers]

theorem store_ok (points : PointsTo state pointer frame) {word : Word} {final : State}
    (returned : store pointer index word state = .ok ((), final)) :
    final = state.setMemory frame index word := by
  rcases points with ⟨address, rfl, -, refers⟩
  rcases Kernel.bind_ok.mp returned with ⟨found, middle, translated, ended⟩
  rcases Kernel.observe_ok.mp translated with ⟨located, rfl⟩
  rw [← Kernel.modify_ok.mp ended, ← (kernelFrame_ok located).2, refers]

end PointsTo

end Lookup

end FosKernel
