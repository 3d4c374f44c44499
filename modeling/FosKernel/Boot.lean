import FosKernel.Process.Environment

/-! # Boot

The memory state that `initialize_kernel_VM` leaves, and `initialize_paging` on top
of it. The places of the boot allocations depend on the kernel image and on the
size of the memory; they are collected in `BootLayout`.
-/

namespace FosKernel

open LinkedList

/-- `ROUNDUP(PHYS_IO_MEM, PAGE_SIZE) / PAGE_SIZE`. -/
abbrev ioFrame : Nat := 0xA0

/-- `PHYS_EXTENDED_MEM / PAGE_SIZE`. -/
abbrev extendedFrame : Nat := 0x100

/-- Frames from `extendedFrame` up to `kernelFrames` hold the kernel and everything
allocated by `boot_allocate_space`. -/
structure BootLayout where
  numberOfFrames : Nat
  kernelFrames : Nat
  directoryFrame : Nat
  tableFrame : Nat → Nat
  stackFrame : Nat
  envsFrame : Nat
  envsPages : Nat
  kernelLower : extendedFrame ≤ kernelFrames
  kernelUpper : kernelFrames ≤ numberOfFrames
  /-- The boot mapping ends below the kernel heap. -/
  belowHeap : kernelBase + kernelFrames * 4096 ≤ kernelHeapStart
  physical : numberOfFrames ≤ 2 ^ 20
  directoryBound : directoryFrame < kernelFrames
  tableBound : ∀ index, tableFrame index < kernelFrames
  stackBound : stackFrame + 8 ≤ kernelFrames
  envsBound : envsFrame + envsPages ≤ kernelFrames
  envsTable : envsPages ≤ 1024

/-- What boot does not determine: the contents of memory and of the disk, and the
settings of the command prompt. -/
structure BootContents where
  memory : Nat → Nat → Word
  sectors : Nat → Nat → Word
  modifiedBufferLength : Nat
  enableBuffering : Bool

def BootLayout.bootTables (layout : BootLayout) (page : Nat) : Word :=
  if ppn kernelBase ≤ page ∧ page < ppn kernelBase + layout.kernelFrames then
    constructEntry (page - ppn kernelBase) (permWriteable ||| permPresent)
  else if 0xEFBF8 ≤ page ∧ page < 0xEFC00 then
    constructEntry (layout.stackFrame + (page - 0xEFBF8)) (permWriteable ||| permPresent)
  else if ppn userTop ≤ page ∧ page < ppn userTop + layout.envsPages then
    constructEntry (layout.envsFrame + (page - ppn userTop)) (permUser ||| permPresent)
  else 0

def BootLayout.directory (layout : BootLayout) (index : Nat) : Word :=
  if index = 0x3BF then
    constructEntry layout.directoryFrame (permPresent ||| permWriteable)
  else if index = 0x3BD then
    constructEntry layout.directoryFrame (permUser ||| permPresent)
  else if index = pdx userTop then
    constructEntry (layout.tableFrame index) (permPresent ||| permWriteable ||| permUser)
  else if hasBootTable index then
    constructEntry (layout.tableFrame index) (permPresent ||| permWriteable)
  else 0

def Env.zero : Env where
  progName := ""
  pageWSMaxSize := 0
  pageLastWSIndex := 0
  tableLastWSIndex := 0
  pageWorkingSetAddress := 0
  ptrPageWorkingSet _ := ⟨0, false, 0⟩
  diskEnvPgdir := 0
  diskEnvTabledir := 0

def ListHead.empty : ListHead ι := ⟨none, none, none, 0⟩

/-- The state before `initialize_paging`: `frames_info`, `disk_frames_info`, `envs` and
the variables of `kern/kheap.c` are zero or have their initial values. -/
def BootLayout.beforePaging (layout : BootLayout) (contents : BootContents) : State where
  numberOfFrames := layout.numberOfFrames
  framesInfo _ := FrameInfo.zero
  frameLinks _ := Link.null
  freeFrameList := ListHead.empty
  modifiedFrameList := ListHead.empty
  memory := contents.memory
  bootTables := layout.bootTables
  pageDirectory
    | .kernel => layout.directory
    | .env _ => fun _ => 0
  startAdd := kernelHeapStart
  idx := 0
  kHeapArr _ := ⟨0, 0, 0⟩
  kHeapPlacementStrategy := .nextFit
  envs _ := Env.zero
  curenv := 0
  diskDirectory _ _ := 0
  diskTableDirectory _ _ := 0
  sectors := contents.sectors
  diskLinks _ := Link.null
  diskFreeFrameList := ListHead.empty
  modifiedBufferLength := contents.modifiedBufferLength
  enableBuffering := contents.enableBuffering

/-- The values of a counter from `start` up to `stop`. -/
def counter (start stop : Nat) : List Nat := List.range' start (stop - start)

def setReferences (references frame : Nat) : Kernel Unit :=
  modify fun state => state.setFrameInfo frame { state.framesInfo frame with references }

/-- The loop clears 1024 bytes of the zero page and of the temporary page. -/
def clearZeroPages : Kernel Unit :=
  modify fun state =>
    { state with
      memory := fun frame index =>
        if (frame = 1 ∨ frame = 2) ∧ index < 256 then 0 else state.memory frame index }

def initializeDiskPageFile : Kernel Unit := do
  modify fun state => state.withDiskFree (listInit state.diskFree)
  Kernel.forEach
    (fun dfn => do
      modify fun state =>
        { state with diskLinks := Function.update state.diskLinks dfn Link.null }
      modify fun state => state.withDiskFree (listInsertHead state.diskFree dfn))
    (counter 1 pagesPerFile)

/-- `initialize_paging`; `initialize_frame_info` followed by `LIST_INSERT_HEAD` is
`free_frame`. -/
def initializePaging (kernelFrames : Nat) : Kernel Unit := do
  modify fun state => state.withFree (listInit state.free)
  modify fun state => state.withModified (listInit state.modified)
  Kernel.forEach (setReferences 1) (counter 0 3)
  clearZeroPages
  Kernel.forEach freeFrame (counter 3 ioFrame)
  Kernel.forEach (setReferences 1) (counter ioFrame extendedFrame)
  Kernel.forEach (setReferences 1) (counter extendedFrame kernelFrames)
  Kernel.forEach freeFrame (counter kernelFrames (← get).numberOfFrames)
  initializeDiskPageFile

end FosKernel
