import FosKernel.Paging.FaultHandler

/-! # User memory calls

`allocateMem` and `freeMem` (`kern/memory_manager.c`) with their system calls, and
the accesses of the running environment to its own pages.
-/

namespace FosKernel

/-- The comparison of the loop is unsigned, and the end is reduced modulo `2 ^ 32`. -/
def allocateMem (env address size : Nat) : Kernel Unit :=
  Kernel.forEach (fun page => do let _ ← pfAddEmptyEnvPage env page true)
    (pageRange address ((address + roundUp size) % 2 ^ 32))

/-! ## `freeMem` -/

/-- The loop of `freeMem` over the working set. -/
def removeFromWorkingSet (env address : Nat) : List Nat → Kernel Unit
  | [] => return ()
  | index :: indices => do
      if address = (← observe fun state => envPageWsGetVirtualAddress state env index) then
        envPageWsClearEntry env index
      else removeFromWorkingSet env address indices

/-- The kernel address in a page-table pointer. -/
def pointerAddress (state : State) : TablePointer → Nat
  | .null => 0
  | .boot index => kernelBase + frameOf (state.pageDirectory .kernel index) * 4096
  | .directory _ address => address
  | .kernel address => address

/-- Whether one of the entries is present. -/
def anyPresent (state : State) (pointer : TablePointer) : List Nat → Except Stop Bool
  | [] => .ok false
  | index :: indices => do
      if hasPerm (← load state pointer index) permPresent then return true
      anyPresent state pointer indices

/-- Give back a page table without present entries. The frame is freed directly,
not with `kfree`. -/
def removePageTable (env address : Nat) (pointer : TablePointer) : Kernel Unit := do
  let frame ← observe fun state =>
    kheapPhysicalAddress state (pointerAddress state pointer)
  let frame ← observe fun state => toFrameInfo state frame
  modify fun state => state.setFrameInfo frame
    { state.framesInfo frame with references := 0 }
  freeFrame frame
  modify fun state => state.setDirectoryEntry (.env env) (pdx address) 0

/-- The body of the loop of `freeMem`. -/
def freeMemPage (env address : Nat) : Kernel Unit := do
  pfRemoveEnvPage env address
  removeFromWorkingSet env address (List.range ((← get).envs env).pageWSMaxSize)
  unmapFrame (.env env) address
  let (_, pointer) ← observe fun state => getPageTable state (.env env) address
  if pointer ≠ .null then
    if ¬(← observe fun state => anyPresent state pointer (List.range 1024)) then
      removePageTable env address pointer

/-- The counter of the loop is a `uint32`: for a size above `0xFFFFF000` it passes
zero and the loop does not end. -/
def freeMem (env address size : Nat) : Kernel Unit := do
  Kernel.forEach (fun offset => freeMemPage env ((address + offset) % 2 ^ 32))
    (pageRange 0 size)
  if 0xFFFFF000 < size then throw .endless

/-- `__freeMem_with_buffering` has an empty body. -/
def sysFreeMem (address size : Nat) : Kernel Unit := do
  let state ← get
  if state.enableBuffering then return ()
  freeMem state.curenv address size

def sysAllocateMem (address size : Nat) : Kernel Unit := do
  allocateMem (← get).curenv address size

/-! ## `__sys_allocate_page` -/

/-- Bits of an entry that the kernel does not use. -/
def permAvailable : Word := 0xE00

inductive AllocatePageCode
  | success
  /-- `E_INVAL`. -/
  | inval
  deriving DecidableEq

/-- `allocate_frame` and `map_frame` never return `E_NO_MEM`. The frame is filled with
zeros at `USER_LIMIT`, and one reference more keeps `unmap_frame` from freeing it. -/
def sysAllocatePage (address : Nat) (perm : Word) : Kernel AllocatePageCode := do
  let env := (← get).curenv
  let frame ← allocateFrame
  if userTop ≤ address ∨ address % 4096 ≠ 0 then return .inval
  if perm &&& (~~~permAvailable &&& ~~~permWriteable) ≠ permUser then return .inval
  mapFrame (.env env) frame userLimit permWriteable
  let mapped ← observe fun state => kernelFrame state userLimit
  modify fun state => state.setPage mapped fun _ => 0
  addReferences frame 1
  unmapFrame (.env env) userLimit
  addReferences frame (2 ^ 16 - 1)
  mapFrame (.env env) frame address perm
  return .success

/-! ## `calculate_required_frames` -/

/-- A loop of `calculate_required_frames` over addresses, which are of type `uint32`. -/
def countMissing (missing : Nat → Except Stop Bool) (step bound : Nat) :
    Nat → Nat → Nat → Except Stop Nat
  | 0, _, _ => .error .endless
  | fuel + 1, address, number =>
      if address < bound then do
        let counted ← missing address
        countMissing missing step bound fuel ((address + step) % 2 ^ 32)
          (if counted then number + 1 else number)
      else .ok number

def tableMissing (state : State) (directory : Directory) (address : Nat) :
    Except Stop Bool := do
  let (_, pointer) ← getPageTable state directory address
  return pointer = .null

def pageMissing (state : State) (directory : Directory) (address : Nat) :
    Except Stop Bool := do
  let (info, _) ← getFrameInfo state directory address
  return info = none

/-- `PAGE_SIZE*1024`. -/
abbrev tableSpan : Nat := 4096 * 1024

/-- `calculate_required_frames`, where `fuel` bounds the rounds of each loop. The two numbers
are far below `2 ^ 32`. -/
def calculateRequiredFrames (fuel : Nat) (state : State) (directory : Directory)
    (start size : Nat) : Except Stop Nat := do
  let bound := (start + size) % 2 ^ 32
  let numberOfTables ← countMissing (tableMissing state directory) tableSpan bound fuel
    (start - start % tableSpan) 0
  let numberOfPages ← countMissing (pageMissing state directory) 4096 bound fuel
    (start - start % 4096) 0
  return numberOfTables + numberOfPages

/-! ## Accesses -/

/-- A user read that does not fault. -/
def userRead (env address : Nat) : Kernel Word := do
  let (table, entry) ← observe fun state => walk state env address
  modify fun state => state.setMemory table (ptx address) (entry ||| permUsed)
  return (← get).memory (frameOf entry) (address % 4096 / 4)

/-- A user write of one word that does not fault. -/
def userWrite (env address : Nat) (word : Word) : Kernel Unit := do
  let (_, entry) ← observe fun state => walk state env address
  if ¬hasPerm entry permWriteable then throw .badPointer
  writeUserPage env address fun page => Function.update page (address % 4096 / 4) word

end FosKernel
