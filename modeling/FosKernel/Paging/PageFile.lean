import FosKernel.Memory.KernelHeap

/-! # The page file

Disk frames, the disk page tables of an environment and the transfer of pages
(`kern/file_manager.c`). A disk page directory belongs to its environment; disk
page tables are kernel heap pages.
-/

namespace FosKernel

open LinkedList

/-- The codes `0`, `E_PAGE_NOT_EXIST_IN_PF` and `E_NO_PAGE_FILE_SPACE`. -/
inductive PageFileCode
  | success
  | pageNotExist
  | noSpace
  deriving DecidableEq

/-! ## User memory through the MMU -/

/-- The page table and the entry that the MMU finds for a user address. -/
def walk (state : State) (env address : Nat) : Except Stop (Nat × Word) :=
  let directoryEntry := state.pageDirectory (.env env) (pdx address)
  let table := frameOf directoryEntry
  let entry := state.memory table (ptx address)
  if hasPerm directoryEntry permPresent ∧ hasPerm entry permPresent then
    .ok (table, entry)
  else .error .badPointer

/-- Write a user page: the MMU marks the entry as used and modified. -/
def writeUserPage (env address : Nat) (change : (Nat → Word) → Nat → Word) :
    Kernel Unit := do
  let (table, entry) ← observe fun state => walk state env address
  modify fun state => state.setMemory table (ptx address)
    (entry ||| permUsed ||| permModified)
  modify fun state => state.setPage (frameOf entry) (change (state.memory (frameOf entry)))

/-! ## Disk frames -/

def pagesPerFile : Nat := 133120

/-- `PAGE_FILE_START_SECTOR + dfn * SECTOR_PER_PAGE`, in 32-bit arithmetic. -/
def startSector (dfn : Word) : Nat := (0xA000#32 + dfn * 8#32).toNat

/-- `ide_write` of the 8 sectors of a page. -/
def ideWrite (sectors : Nat → Nat → Word) (start : Nat) (page : Nat → Word) :
    Nat → Nat → Word :=
  fun sector index =>
    if start ≤ sector ∧ sector < start + 8 then page ((sector - start) * 128 + index)
    else sectors sector index

/-- `ide_read` of one of the 1024 words in the 8 sectors of a page. -/
def ideRead (sectors : Nat → Nat → Word) (start index : Nat) : Word :=
  sectors (start + index / 128) (index % 128)

/-- The contents of a disk frame. -/
def State.diskPage (state : State) (dfn : Word) (index : Nat) : Word :=
  ideRead state.sectors (startSector dfn) index

def writeDiskPage (dfn : Word) (page : Nat → Word) : Kernel Unit :=
  modify fun state =>
    { state with sectors := ideWrite state.sectors (startSector dfn) page }

/-- `read_disk_page`: the kernel writes through the mapping of the running
environment. -/
def readDiskPage (dfn : Word) (address : Nat) : Kernel Unit := do
  let state ← get
  writeUserPage state.curenv address fun page index =>
    if index < 1024 then state.diskPage dfn index else page index

def State.diskFree (state : State) : ListState Nat :=
  ⟨state.diskLinks, state.diskFreeFrameList⟩

def State.withDiskFree (state : State) (result : ListState Nat) : State :=
  { state with diskLinks := result.links, diskFreeFrameList := result.head }

/-- The frame number, or `none` for `E_NO_PAGE_FILE_SPACE`. -/
def allocateDiskFrame : Kernel (Option Nat) := do
  match (← get).diskFreeFrameList.first with
  | none => return none
  | some dfn => do
      modify fun state => state.withDiskFree (listRemove state.diskFree dfn)
      modify fun state =>
        { state with diskLinks := Function.update state.diskLinks dfn Link.null }
      return some dfn

def freeDiskFrame (dfn : Nat) : Kernel Unit := do
  if dfn = 0 then return ()
  modify fun state => state.withDiskFree (listInsertHead state.diskFree dfn)

/-! ## Disk page tables -/

/-- `get_disk_page_directory`. When `kmalloc` fails the callers go on with a null
directory. -/
def getDiskPageDirectory (env : Nat) : Kernel Unit := do
  if ((← get).envs env).diskEnvPgdir ≠ 0 then return ()
  let address ← kmalloc 4096
  if address = 0 then throw .badPointer
  let _ ← observe fun state => kernelFrame state address
  modify fun state =>
    { state.setEnv env { state.envs env with diskEnvPgdir := address } with
      diskDirectory := Function.update state.diskDirectory env fun _ => 0 }

/-- The pointer computed from an entry of the disk page directory. -/
def diskTablePointer (state : State) (env address : Nat) :
    Except Stop TablePointer := do
  let frame := frameOf (state.diskDirectory env (pdx address))
  if checkIfKernelAddress address then
    if state.numberOfFrames ≤ frame then
      throw (.panic "K_VIRTUAL_ADDRESS called with invalid pa")
    return .kernel (kernelBase + frame * 4096)
  else return .ofAddress (← kheapVirtualAddress state frame)

/-- A new disk page table: a cleared kernel heap page. -/
def createDiskPageTable (env address : Nat) : Kernel TablePointer := do
  let table ← kmalloc 4096
  if table = 0 then return .null
  let frame ← observe fun state => kheapPhysicalAddress state table
  modify fun state =>
    { state with
      diskDirectory := Function.update state.diskDirectory env
        (Function.update (state.diskDirectory env) (pdx address)
          (constructEntry frame permPresent)) }
  let frame ← observe fun state => kernelFrame state table
  modify fun state => state.setPage frame fun _ => 0
  return .kernel table

def getDiskPageTable (env address : Nat) (create : Bool) : Kernel TablePointer := do
  let pointer ← observe fun state => diskTablePointer state env address
  if (← get).diskDirectory env (pdx address) = 0 then
    if create then createDiskPageTable env address else return .null
  else return pointer

/-! ## Pages of an environment -/

/-- The disk frame of a page, which is allocated if there is none. -/
def allocatePageFrame (pointer : TablePointer) (index : Nat) :
    Kernel (Option Word) := do
  let dfn ← observe fun state => load state pointer index
  if dfn ≠ 0 then return some dfn
  match ← allocateDiskFrame with
  | none => return none
  | some dfn => do
      store pointer index (BitVec.ofNat 32 dfn)
      return some (BitVec.ofNat 32 dfn)

/-- The common part of `pf_add_env_page` and `pf_add_empty_env_page`. -/
def pfAddFrame (env address : Nat) : Kernel (Option Word) := do
  if kernelBase ≤ address then
    throw (.panic "assertion failed: (uint32)virtual_address < KERNEL_BASE")
  getDiskPageDirectory env
  let pointer ← getDiskPageTable env address true
  allocatePageFrame pointer (ptx address)

def pfAddEnvPage (env address : Nat) (page : Nat → Word) : Kernel PageFileCode := do
  match ← pfAddFrame env address with
  | none => return .noSpace
  | some dfn => do
      writeDiskPage dfn page
      return .success

/-- With `initializeByZero` the page is a copy of `ptr_zero_page`, in frame 1. -/
def pfAddEmptyEnvPage (env address : Nat) (initializeByZero : Bool) :
    Kernel PageFileCode := do
  if initializeByZero then pfAddEnvPage env address ((← get).memory 1)
  else
    match ← pfAddFrame env address with
    | none => return .noSpace
    | some _ => return .success

/-- `pf_update_env_page` writes the frame through a temporary mapping at
`USER_LIMIT`. -/
def pfUpdateEnvPage (env address frame : Nat) : Kernel PageFileCode := do
  if kernelBase ≤ address then
    throw (.panic "assertion failed: (uint32)virtual_address < KERNEL_BASE")
  getDiskPageDirectory env
  let pointer ← getDiskPageTable env address false
  if pointer = .null then return .pageNotExist
  let dfn ← observe fun state => load state pointer (ptx address)
  if dfn = 0 then return .pageNotExist
  mapFrame (.env env) frame userLimit 0
  let mapped ← observe fun state => kernelFrame state userLimit
  writeDiskPage dfn ((← get).memory mapped)
  addReferences frame 1
  unmapFrame (.env env) userLimit
  addReferences frame (2 ^ 16 - 1)
  return .success

def pfReadEnvPage (env address : Nat) : Kernel PageFileCode := do
  let address := roundDown address
  if ((← get).envs env).diskEnvPgdir = 0 then return .pageNotExist
  let pointer ← getDiskPageTable env address false
  if pointer = .null then return .pageNotExist
  let dfn ← observe fun state => load state pointer (ptx address)
  if dfn = 0 then return .pageNotExist
  readDiskPage dfn address
  ptSetPagePermissions (← get).curenv address 0 permModified
  return .success

def pfRemoveEnvPage (env address : Nat) : Kernel Unit := do
  if ((← get).envs env).diskEnvPgdir = 0 then return ()
  let pointer ← getDiskPageTable env address false
  if pointer = .null then return ()
  let dfn ← observe fun state => load state pointer (ptx address)
  store pointer (ptx address) 0
  freeDiskFrame dfn.toNat

/-! ## Page tables in the page file -/

def State.setDiskTable (state : State) (env index : Nat) (dfn : Word) : State :=
  { state with
    diskTableDirectory := Function.update state.diskTableDirectory env
      (Function.update (state.diskTableDirectory env) index dfn) }

def getDiskTableDirectory (env : Nat) : Kernel Unit := do
  if ((← get).envs env).diskEnvTabledir ≠ 0 then return ()
  let address ← kmalloc 4096
  if address = 0 then throw .badPointer
  let _ ← observe fun state => kernelFrame state address
  modify fun state =>
    { state.setEnv env { state.envs env with diskEnvTabledir := address } with
      diskTableDirectory := Function.update state.diskTableDirectory env fun _ => 0 }

/-- The disk frame of a page table, which is allocated if there is none. -/
def allocateTableFrame (env index : Nat) : Kernel (Option Word) := do
  let dfn := (← get).diskTableDirectory env index
  if dfn ≠ 0 then return some dfn
  match ← allocateDiskFrame with
  | none => return none
  | some dfn => do
      modify fun state => state.setDiskTable env index (BitVec.ofNat 32 dfn)
      return some (BitVec.ofNat 32 dfn)

/-- `__pf_write_env_table`. -/
def pfWriteEnvTable (env address : Nat) (page : Nat → Word) : Kernel PageFileCode := do
  if kernelBase ≤ address then
    throw (.panic "assertion failed: (uint32)virtual_address < KERNEL_BASE")
  getDiskTableDirectory env
  match ← allocateTableFrame env (pdx address) with
  | none => return .noSpace
  | some dfn => do
      writeDiskPage dfn page
      return .success

/-- Give back the disk frame of a page table. -/
def removeDiskTable (env index : Nat) : Kernel Unit := do
  let dfn := (← get).diskTableDirectory env index
  modify fun state => state.setDiskTable env index 0
  freeDiskFrame dfn.toNat

/-- `__pf_remove_env_table`. -/
def pfRemoveEnvTable (env address : Nat) : Kernel Unit := do
  if ((← get).envs env).diskEnvTabledir = 0 then return ()
  removeDiskTable env (pdx address)

/-- `__pf_remove_env_all_tables`. -/
def pfRemoveEnvAllTables (env : Nat) : Kernel Unit := do
  if ((← get).envs env).diskEnvTabledir = 0 then return ()
  Kernel.forEach (removeDiskTable env) (List.range (pdx userTop))

/-! ## Release of an environment's pages -/

/-- Clear one entry of a disk page table and free its disk frame. -/
def freeDiskEntry (pointer : TablePointer) (index : Nat) : Kernel Unit := do
  let dfn ← observe fun state => load state pointer index
  store pointer index 0
  freeDiskFrame dfn.toNat

/-- The body of the loop of `pf_free_env`. -/
def freeDiskPageTable (env index : Nat) : Kernel Unit := do
  let entry := (← get).diskDirectory env index
  if ¬hasPerm entry permPresent then return ()
  let table ← observe fun state => kheapVirtualAddress state (frameOf entry)
  Kernel.forEach (freeDiskEntry (.ofAddress table)) (List.range 1024)
  modify fun state =>
    { state with
      diskDirectory := Function.update state.diskDirectory env
        (Function.update (state.diskDirectory env) index 0) }
  kfree table

def pfFreeEnv (env : Nat) : Kernel Unit := do
  if ((← get).envs env).diskEnvPgdir = 0 then throw .badPointer
  Kernel.forEach (freeDiskPageTable env) (List.range (pdx userTop))
  kfree ((← get).envs env).diskEnvPgdir
  modify fun state => state.setEnv env { state.envs env with diskEnvPgdir := 0 }
  if ((← get).envs env).diskEnvTabledir = 0 then return ()
  pfRemoveEnvAllTables env
  kfree ((← get).envs env).diskEnvTabledir
  modify fun state => state.setEnv env { state.envs env with diskEnvTabledir := 0 }

/-! ## Statistics -/

/-- The inner loop of `pf_calculate_allocated_pages`. -/
def countDiskEntries (state : State) (pointer : TablePointer) :
    List Nat → Nat → Except Stop Nat
  | [], counter => .ok counter
  | index :: indices, counter => do
      let dfn ← load state pointer index
      countDiskEntries state pointer indices (if dfn ≠ 0 then counter + 1 else counter)

def countDiskPages (state : State) (env : Nat) : List Nat → Nat → Except Stop Nat
  | [], counter => .ok counter
  | index :: indices, counter => do
      let entry := state.diskDirectory env index
      if ¬hasPerm entry permPresent then countDiskPages state env indices counter
      else
        let table ← kheapVirtualAddress state (frameOf entry)
        let counter ← countDiskEntries state (.ofAddress table) (List.range 1024) counter
        countDiskPages state env indices counter

def pfCalculateAllocatedPages (state : State) (env : Nat) : Except Stop Nat :=
  if (state.envs env).diskEnvPgdir = 0 then .error .badPointer
  else countDiskPages state env (List.range (pdx userTop)) 0

/-- `LIST_FOREACH` over `disk_free_frame_list`. -/
def countDiskFree : Nat → Option Nat → Nat → Kernel Nat
  | _, none, total => do
      modify fun state =>
        { state with diskFreeFrameList := { state.diskFreeFrameList with ptrNext := none } }
      return total
  | 0, some _, _ => throw .endless
  | fuel + 1, some dfn, total => do
      modify fun state =>
        { state with
          diskFreeFrameList :=
            { state.diskFreeFrameList with ptrNext := (state.diskLinks dfn).next } }
      countDiskFree fuel (← get).diskFreeFrameList.ptrNext (total + 1)

/-- A traversal of more elements than there are disk frames does not end. -/
def pfCalculateFreeFrames : Kernel Nat := do
  countDiskFree pagesPerFile (← get).diskFreeFrameList.first 0

end FosKernel
