import FosKernel.Boot
import FosKernel.Process.EnvTable

/-! # The kernel part of the address space

`initialize_kernel_VM` with the boot allocator (`kern/memory_manager.c`) and
`check_boot_pgdir` (`kern/helpers.c`). Paging is off: a kernel pointer is a physical
address plus `KERNEL_BASE`, and page tables are plain memory.
-/

namespace FosKernel

/-! ## Boot memory -/

/-- What the linker determines: `ptr_stack_bottom` and `end_of_kernel`. -/
structure KernelImage where
  ptrStackBottom : Nat
  endOfKernel : Nat
  stackAligned : ptrStackBottom % 4096 = 0
  stackLower : kernelBase + extendedFrame * 4096 ≤ ptrStackBottom
  stackUpper : ptrStackBottom + 8 * 4096 ≤ endOfKernel
  endBound : endOfKernel < 2 ^ 32

/-- The addresses from `start` on, `size` bytes. -/
structure BootBlock where
  start : Nat
  size : Nat
  deriving DecidableEq

/-- The global variables that boot sets. A frame of `memory` is 1024 words. The
history `blocks` of `boot_allocate_space` is not in the source. -/
structure BootState where
  ptrFreeMem : Nat
  memory : Nat → Nat → Word
  ptrPageDirectory : Nat
  physPageDirectory : Nat
  framesInfo : Nat
  diskFramesInfo : Nat
  envs : Nat
  blocks : List BootBlock

/-- The global variables are zero. -/
def BootState.start (memory : Nat → Nat → Word) : BootState :=
  ⟨0, memory, 0, 0, 0, 0, 0, []⟩

abbrev Boot := StateT BootState (Except Stop)

/-- The frame that a kernel pointer points to. -/
def staticFrame (pointer : Nat) : Nat := (pointer - kernelBase) / 4096

def BootState.word (state : BootState) (pointer index : Nat) : Word :=
  state.memory (staticFrame pointer) index

def BootState.setWord (state : BootState) (pointer index : Nat) (word : Word) : BootState :=
  { state with
    memory := Function.update state.memory (staticFrame pointer)
      (Function.update (state.memory (staticFrame pointer)) index word) }

/-- `memset` with zero, on whole words. -/
def BootState.clear (state : BootState) (pointer size : Nat) : BootState :=
  { state with
    memory := fun frame index =>
      if pointer ≤ kernelBase + frame * 4096 + index * 4 ∧
          kernelBase + frame * 4096 + index * 4 < pointer + size then 0
      else state.memory frame index }

/-- `STATIC_KERNEL_PHYSICAL_ADDRESS`. -/
def staticKernelPhysicalAddress (address : Nat) : Boot Nat := do
  if address < kernelBase then
    throw (.panic "K_PHYSICAL_ADDRESS called with invalid kva")
  return address - kernelBase

/-- `STATIC_KERNEL_VIRTUAL_ADDRESS`. -/
def staticKernelVirtualAddress (numberOfFrames address : Nat) : Boot Nat := do
  if numberOfFrames ≤ ppn address then
    throw (.panic "K_VIRTUAL_ADDRESS called with invalid pa")
  return (address + kernelBase) % 2 ^ 32

/-! ## Mapping -/

section Mapping

variable (image : KernelImage) (numberOfFrames : Nat)

/-- `boot_allocate_space`. The memory is not cleared. -/
def bootAllocateSpace (size align : Nat) : Boot Nat := do
  if (← get).ptrFreeMem = 0 then
    modify fun state => { state with ptrFreeMem := image.endOfKernel }
  let rounded := ((← get).ptrFreeMem + (align - 1)) % 2 ^ 32
  let allocated := rounded - rounded % align
  modify fun state =>
    { state with
      ptrFreeMem := (allocated + size) % 2 ^ 32
      blocks := ⟨allocated, size⟩ :: state.blocks }
  return allocated

/-- `boot_get_page_table`; a null pointer is zero. -/
def bootGetPageTable (directory address : Nat) (create : Bool) : Boot Nat := do
  let entry := (← get).word directory (pdx address)
  let physical := frameOf entry * 4096
  let table ← staticKernelVirtualAddress numberOfFrames physical
  if physical = 0 then
    if create then
      let table ← bootAllocateSpace image 4096 4096
      let physical ← staticKernelPhysicalAddress table
      modify fun state => state.setWord directory (pdx address)
        (BitVec.ofNat 32 physical ||| (permPresent ||| permWriteable))
      return table
    else return 0
  else return table

/-- The body of the loop of `boot_map_range`. -/
def bootMapPage (directory address physical : Nat) (perm : Word) : Boot Unit := do
  let table ← bootGetPageTable image numberOfFrames directory address true
  modify fun state => state.setWord table (ptx address)
    (BitVec.ofNat 32 physical ||| (perm ||| permPresent))

def bootMapRange (directory address size physical : Nat) (perm : Word) : Boot Unit :=
  (pageRange 0 size).forM fun offset =>
    bootMapPage image numberOfFrames directory ((address + offset) % 2 ^ 32)
      ((physical + offset) % 2 ^ 32) perm

def setupListingToAllPageTablesEntries : Boot Unit := do
  let directory := (← get).ptrPageDirectory
  let physical ← staticKernelPhysicalAddress directory
  modify fun state => state.setWord directory 0x3BF
    (BitVec.ofNat 32 physical ||| (permPresent ||| permWriteable))
  let physical ← staticKernelPhysicalAddress directory
  modify fun state => state.setWord directory 0x3BD
    (BitVec.ofNat 32 physical ||| permUser ||| permPresent)

/-! ## The check of the directory -/

def assert (condition : Bool) (text : String) : Boot Unit := do
  if ¬condition then throw (.panic ("assertion failed: " ++ text))

/-- `check_va2pa`: the physical address, or all ones. -/
def checkVa2pa (directory address : Nat) : Boot Word := do
  let directoryEntry := (← get).word directory (pdx address)
  if ¬hasPerm directoryEntry permPresent then return ~~~0
  let table ← staticKernelVirtualAddress numberOfFrames (frameOf directoryEntry * 4096)
  let entry := (← get).word table (ptx address)
  if ¬hasPerm entry permPresent then return ~~~0
  return entry &&& ~~~0xFFF#32

/-- The `switch` of `check_boot_pgdir`. -/
def checkDirectoryEntry (directory index : Nat) : Boot Unit := do
  let entry := (← get).word directory index
  if index = 0x3BF ∨ index = 0x3BD ∨ index = pdx userLimit ∨ index = pdx userTop then
    assert (entry ≠ 0) "ptr_page_directory[i]"
  else if pdx kernelBase ≤ index then assert (entry ≠ 0) "ptr_page_directory[i]"
  else assert (entry = 0) "ptr_page_directory[i] == 0"

def checkBootPgdir : Boot Unit := do
  let directory := (← get).ptrPageDirectory
  (pageRange 0 ((← get).ptrFreeMem - kernelBase)).forM fun i => do
    assert ((← checkVa2pa numberOfFrames directory (kernelBase + i)) = BitVec.ofNat 32 i)
      "check_va2pa(ptr_page_directory, KERNEL_BASE + i) == i"
  (pageRange 0 (8 * 4096)).forM fun i => do
    let found ← checkVa2pa numberOfFrames directory (0xEFBF8000 + i)
    let physical ← staticKernelPhysicalAddress image.ptrStackBottom
    assert (found = BitVec.ofNat 32 (physical + i))
      ("check_va2pa(ptr_page_directory, KERNEL_STACK_TOP - KERNEL_STACK_SIZE + i) == " ++
        "STATIC_KERNEL_PHYSICAL_ADDRESS(ptr_stack_bottom) + i")
  (List.range 1024).forM fun index => checkDirectoryEntry directory index

/-! ## `initialize_kernel_VM` -/

/-- `sizeof(struct Frame_Info)` on the i386. -/
def sizeofFrameInfo : Nat := 24

/-- `ptr_page_directory` and the mapping of the kernel stack; the result is the
directory. -/
def mapKernelStack : Boot Nat := do
  let directory ← bootAllocateSpace image 4096 4096
  modify fun state => { state with ptrPageDirectory := directory }
  modify fun state => state.clear directory 4096
  let physical ← staticKernelPhysicalAddress directory
  modify fun state => { state with physPageDirectory := physical }
  let stack ← staticKernelPhysicalAddress image.ptrStackBottom
  bootMapRange image numberOfFrames directory 0xEFBF8000 (8 * 4096) stack permWriteable
  return directory

/-- The tables from `KERNEL_BASE` up to 4 GB; `sva` has 64 bits. -/
def allocateKernelTables (directory : Nat) : Boot Unit :=
  (List.range' (pdx kernelBase) 64).forM fun index => do
    let _ ← bootGetPageTable image numberOfFrames directory (index * 1024 * 4096) true

/-- The arrays `frames_info` and `disk_frames_info`. -/
def allocateFramesInfo : Boot Unit := do
  let arraySize := numberOfFrames * sizeofFrameInfo % 2 ^ 32
  let framesInfo ← bootAllocateSpace image arraySize 4096
  modify fun state => { state.clear framesInfo arraySize with framesInfo := framesInfo }
  let diskArraySize := pagesPerFile * sizeofFrameInfo
  let diskFramesInfo ← bootAllocateSpace image diskArraySize 4096
  modify fun state =>
    { state.clear diskFramesInfo diskArraySize with diskFramesInfo := diskFramesInfo }

/-- The array `envs` and its mapping at `UENVS`. -/
def mapEnvs (directory : Nat) : Boot Unit := do
  let envsSize := nenv * sizeofEnv
  let envs ← bootAllocateSpace image envsSize 4096
  modify fun state => { state.clear envs envsSize with envs := envs }
  let physical ← staticKernelPhysicalAddress envs
  bootMapRange image numberOfFrames directory userTop envsSize physical permUser
  modify fun state => state.setWord directory (pdx userTop)
    (state.word directory (pdx userTop) ||| (permUser ||| permPresent &&& ~~~permWriteable))

def initializeKernelVM : Boot Unit := do
  let directory ← mapKernelStack image numberOfFrames
  allocateKernelTables image numberOfFrames directory
  allocateFramesInfo image numberOfFrames
  setupListingToAllPageTablesEntries
  mapEnvs image numberOfFrames directory
  bootMapRange image numberOfFrames directory kernelBase
    ((← get).ptrFreeMem - kernelBase) 0 permWriteable
  checkBootPgdir image numberOfFrames

end Mapping

end FosKernel
