import FosKernel.Memory.Frames

/-! # The kernel heap

`kmalloc` and `kfree` (`kern/kheap.c`), and the page tables that
`create_page_table` takes from the kernel heap.
-/

namespace FosKernel

/-- The local variables of the search loop of `nextFitAlgo`, with the record
`kHeapArr[IDX]` that it writes. -/
structure HeapScan where
  i : Nat
  x : Nat
  y : Nat
  record : KernelHeapRecord
  deriving DecidableEq

inductive HeapScanResult
  | null (record : KernelHeapRecord)
  | found (record : KernelHeapRecord)
  deriving DecidableEq

/-- One iteration: a result, or the variables at the next iteration. -/
def heapScanStep (state : State) (scan : HeapScan) :
    Except Stop (HeapScanResult ⊕ HeapScan) := do
  let i := if scan.i = kernelHeapMax then kernelHeapStart else scan.i
  let y := if i = state.startAdd then scan.y + 1 else scan.y
  if y = 2 ∧ scan.x ≠ scan.record.size then return .inl (.null scan.record)
  let (info, _) ← getFrameInfo state .kernel i
  let record := if info = none then
      { scan.record with first := if scan.x = 0 then i else scan.record.first, last := i }
    else scan.record
  let x := if info = none then (scan.x + 4096) % 2 ^ 32 else 0
  if x = record.size then return .inl (.found record)
  return .inr ⟨i + 4096, x, y, record⟩

/-- The loop has no bound in the source. When `startAdd` is `KERNEL_HEAP_MAX` the
second visit is never noticed; every lap is then like the one before. -/
def heapScanLoop (state : State) : Nat → HeapScan → Except Stop HeapScanResult
  | 0, _ => .error .endless
  | fuel + 1, scan => do
      match ← heapScanStep state scan with
      | .inl result => return result
      | .inr next => heapScanLoop state fuel next

/-- Enough iterations for the `2 ^ 20` pages a request can have. -/
abbrev heapScanFuel : Nat := 2 ^ 21

/-- Write `kHeapArr[IDX]`. -/
def setHeapRecord (record : KernelHeapRecord) : Kernel Unit :=
  modify fun state =>
    { state with kHeapArr := Function.update state.kHeapArr state.idx record }

/-- Read `kHeapArr[IDX]`. -/
def heapRecord : Kernel KernelHeapRecord := do
  let state ← get
  if 2 ^ 20 ≤ state.idx then throw .outOfBounds
  return state.kHeapArr state.idx

/-- `create_page_table`, with `kmalloc` as a parameter because that function creates
page tables itself. -/
def createPageTableWith (kmalloc : Nat → Kernel Nat) (directory : Directory)
    (address : Nat) : Kernel TablePointer := do
  let newPT ← kmalloc 4096
  if newPT = 0 then throw .badPointer
  let frame ← observe fun state => kheapPhysicalAddress state newPT
  modify fun state => state.setDirectoryEntry directory (pdx address)
    (constructEntry frame (permPresent ||| permWriteable ||| permUser))
  let frame ← observe fun state => kernelFrame state newPT
  modify fun state => state.setPage frame fun _ => 0
  return .kernel newPT

section NextFit

variable (kmalloc : Nat → Kernel Nat)

/-- The kernel directory has a table for every heap page, so that mapping a heap page
never creates one. -/
def mapHeapFrame (frame address : Nat) : Kernel Unit :=
  mapFrameWith (createPageTableWith kmalloc) .kernel frame address
    (permPresent ||| permWriteable)

/-- The body of the mapping loop of `nextFitAlgo`. -/
def mapHeapPage (address : Nat) : Kernel Unit := do
  let frame ← allocateFrame
  mapHeapFrame kmalloc frame address

/-- The mapping loop from `j` on. The end of the block is read again for each page, and
a nested call of `kmalloc` moves `IDX`. -/
def mapHeapPages : Nat → Nat → Kernel Unit
  | 0, _ => throw .endless
  | fuel + 1, j => do
      let record ← heapRecord
      if j ≤ record.last then
        mapHeapPage kmalloc j
        mapHeapPages fuel ((j + 4096) % 2 ^ 32)
      else return ()

/-- Enough iterations for all pages. -/
abbrev heapMapFuel : Nat := 2 ^ 20 + 1

/-- `nextFitAlgo`; a null pointer is zero. -/
def nextFitAlgo : Kernel Nat := do
  let state ← get
  let start : HeapScan := ⟨state.startAdd, 0, 0, state.kHeapArr state.idx⟩
  match ← observe fun state => heapScanLoop state heapScanFuel start with
  | .null record => do
      setHeapRecord record
      return 0
  | .found record => do
      setHeapRecord record
      mapHeapPages kmalloc heapMapFuel record.first
      let record ← heapRecord
      modify fun state =>
        { state with startAdd := (record.last + 4096) % 2 ^ 32, idx := state.idx + 1 }
      return record.first

def kmallocWith (size : Nat) : Kernel Nat := do
  let state ← get
  if 2 ^ 20 ≤ state.idx then throw .outOfBounds
  setHeapRecord { state.kHeapArr state.idx with size := roundUp size }
  if state.kHeapPlacementStrategy = .nextFit then nextFitAlgo kmalloc
  else return 0

end NextFit

/-- `kmalloc` with a bound on the depth of nested calls. -/
def kmallocNested : Nat → Nat → Kernel Nat
  | 0, _ => throw .endless
  | depth + 1, size => kmallocWith (kmallocNested depth) size

/-- Every call that waits for a nested one has taken a frame, so that `2 ^ 20` levels
are enough. -/
def kmalloc (size : Nat) : Kernel Nat := kmallocWith (kmallocNested (2 ^ 20)) size

/-- The record that the loop of `kfree` selects: the last one that matches. -/
def findHeapRecord (state : State) (address : Nat) : Option KernelHeapRecord :=
  ((List.range state.idx).reverse.find? fun index =>
    (state.kHeapArr index).first = address).map state.kHeapArr

/-- The body of the loop of `kfree`. -/
def unmapHeapPage (address : Nat) : Kernel Unit := do
  unmapFrame .kernel address
  let (_, pointer) ← observe fun state => getPageTable state .kernel address
  if pointer ≠ .null then store pointer (ptx address) 0

def kfree (address : Nat) : Kernel Unit := do
  match findHeapRecord (← get) address with
  | some record => Kernel.forEach unmapHeapPage (pageRange address (record.last + 1))
  | none => return ()

/-! ## Page tables from the kernel heap -/

def createPageTable (directory : Directory) (address : Nat) : Kernel TablePointer :=
  createPageTableWith kmalloc directory address

def mapFrame (directory : Directory) (frame address : Nat) (perm : Word) :
    Kernel Unit :=
  mapFrameWith createPageTable directory frame address perm

end FosKernel
