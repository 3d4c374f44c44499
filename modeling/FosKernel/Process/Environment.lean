import FosKernel.Paging.UserMemory

/-! # Environments

Creation of an environment from a program and the clean-up at its exit
(`kern/user_environment.c`, `kern/sched.c`).
-/

namespace FosKernel

/-! ## Programs -/

/-- `struct ProgramSegment`; `data` are the bytes from `ptr_start` on. -/
structure ProgramSegment where
  virtualAddress : Nat
  sizeInFile : Nat
  sizeInMemory : Nat
  data : Nat → Byte

structure Program where
  name : String
  segments : List ProgramSegment

/-- A little-endian page of bytes. -/
def pageOfBytes (byte : Nat → Byte) : Nat → Word := fun index =>
  (byte (4 * index)).setWidth 32 |||
  (byte (4 * index + 1)).setWidth 32 <<< 8 |||
  (byte (4 * index + 2)).setWidth 32 <<< 16 |||
  (byte (4 * index + 3)).setWidth 32 <<< 24

def byteOfPage (page : Nat → Word) (offset : Nat) : Byte :=
  (page (offset / 4) >>> (8 * (offset % 4))).setWidth 8

/-! ## Working set and directory -/

def sizeofWorkingSetElement : Nat := 12

def createUserPageWS (numOfElements : Nat) : Kernel Nat :=
  kmalloc (sizeofWorkingSetElement * numOfElements % 2 ^ 32)

def createUserDirectory : Kernel Nat := do
  let address ← kmalloc 4096
  if address = 0 then throw (.panic "NOT ENOUGH KERNEL HEAP SPACE")
  return address

/-- Map one page of the working-set array at the user address `dva`, without
counting a reference. -/
def sharePage (env sva dva : Nat) : Kernel Unit := do
  let frame ← observe fun state => kheapPhysicalAddress state sva
  let (status, pointer) ← observe fun state => getPageTable state (.env env) dva
  let pointer ← if status = .notExist then createPageTable (.env env) dva
    else pure pointer
  store pointer (ptx dva) (constructEntry frame (permUser ||| permPresent))

/-- `ShareWSAtUserSpace`. A null working-set array is written to right after. The end of
the array is computed in 32 bits; past `0xFFFFF000` every address is below it. -/
def shareWSAtUserSpace (env : Nat) : Kernel Unit := do
  let maxSize := ((← get).envs env).pageWSMaxSize
  let address ← createUserPageWS maxSize
  if address = 0 then throw .badPointer
  modify fun state => state.setEnv env
    { state.envs env with pageWorkingSetAddress := address }
  let stop := (address + sizeofWorkingSetElement * maxSize) % 2 ^ 32
  if kernelHeapMax < stop then throw .endless
  Kernel.forEach (fun sva => sharePage env sva (userPagesWSStart + (sva - address)))
    (pageRange address stop)

/-- `initialize_environment` and `complete_environment_initialization`. -/
def initializeEnvironment (env address frame : Nat) : Kernel Unit := do
  let _ ← observe fun state => kernelFrame state address
  modify fun state =>
    { state with
      pageDirectory := Function.update state.pageDirectory (.env env) fun index =>
        if index < pdx userTop then 0 else state.pageDirectory .kernel index }
  shareWSAtUserSpace env
  modify fun state => state.setEnv env
    { state.envs env with
      ptrPageWorkingSet := fun index =>
        if index < (state.envs env).pageWSMaxSize then .cleared
        else (state.envs env).ptrPageWorkingSet index
      pageLastWSIndex := 0
      tableLastWSIndex := 0
      diskEnvPgdir := 0
      diskEnvTabledir := 0 }
  modify fun state => state.setDirectoryEntry (.env env) 0x3BF
    (constructEntry frame (permPresent ||| permWriteable))
  modify fun state => state.setDirectoryEntry (.env env) 0x3BD
    (constructEntry frame (permPresent ||| permUser))

/-! ## Loading -/

def loadtimeMapFrame (directory : Directory) (frame address : Nat) (perm : Word) :
    Kernel Unit := do
  let pointer ← observe fun state => tablePointer state directory address
  let pointer ← if (← get).pageDirectory directory (pdx address) = 0 then
      createPageTable directory address
    else pure pointer
  addReferences frame 1
  store pointer (ptx address) (constructEntry frame (perm ||| permPresent))

/-- `page_last_WS_index ++; page_last_WS_index %= page_WS_max_size`. -/
def nextLastWSIndex (env : Nat) : Kernel Unit := do
  let value := (← get).envs env
  if value.pageWSMaxSize = 0 then throw (.panic "Divide error")
  setLastWSIndex env ((value.pageLastWSIndex + 1) % value.pageWSMaxSize)

/-- `addTableToTableWorkingSet`, of which only the position is used. -/
def addTableToTableWorkingSet (env : Nat) : Kernel Unit := do
  modify fun state => state.setEnv env
    { state.envs env with
      tableLastWSIndex := ((state.envs env).tableLastWSIndex + 1) % 50 }
  if ((← get).envs env).tableLastWSIndex = 0 then
    throw (.panic ("env_create: Table working set become FULL during the application " ++
      "loading. Please increase the table working set size to be able to load the " ++
      "program successfully"))

/-- The allocation loop over the pages of a segment; the result is
`lastTableNumber`. -/
def loadPages (env lastTable : Nat) : List Nat → Kernel Nat
  | [] => return lastTable
  | address :: addresses => do
      let frame ← allocateFrame
      loadtimeMapFrame (.env env) frame address (permUser ||| permWriteable)
      modify fun state => state.setEnv env
        ((state.envs env).setElement (state.envs env).pageLastWSIndex ⟨address, false, 0⟩)
      nextLastWSIndex env
      if pdx address ≠ lastTable then addTableToTableWorkingSet env
      loadPages env (pdx address) addresses

/-- The pages of a segment that are loaded at once. -/
def residentPages (name : String) (segment : ProgramSegment) (remaining : Nat) :
    List Nat :=
  let start := roundDown segment.virtualAddress
  let stop := roundUp ((segment.virtualAddress + segment.sizeInMemory) % 2 ^ 32)
  let limit := if start = 0x200000 ∧ name ≠ "tpp" then min remaining 6 else remaining
  (pageRange start stop).take limit

/-- The bytes of a loaded page: those below the segment keep what the frame held. -/
def copySegmentPage (segment : ProgramSegment) (address : Nat) (page : Nat → Word) :
    Nat → Word :=
  pageOfBytes fun offset =>
    if address + offset < segment.virtualAddress then byteOfPage page offset
    else if address + offset < (segment.virtualAddress + segment.sizeInFile) % 2 ^ 32 then
      segment.data (address + offset - segment.virtualAddress)
    else 0

def programSegmentAllocMapCopyWorkingset (env lastTable : Nat) (segment : ProgramSegment)
    (pages : List Nat) : Kernel Nat := do
  let lastTable ← loadPages env lastTable pages
  Kernel.forEach (fun address => writeUserPage env address (copySegmentPage segment address))
    pages
  return lastTable

/-- Write a page of the program to the page file. -/
def addProgramPage (env address : Nat) (page : Nat → Word) : Kernel Unit := do
  if (← pfAddEnvPage env address page) = .noSpace then
    throw (.panic "ERROR: Page File OUT OF SPACE. can't load the program in Page file!!")

/-- The first page in the page file; nothing is copied when the segment is aligned. -/
def firstFilePage (segment : ProgramSegment) : Nat → Word :=
  let offset := segment.virtualAddress % 4096
  pageOfBytes fun index =>
    if offset ≠ 0 ∧ offset ≤ index then segment.data (index - offset) else 0

/-- Bytes of the program that the first page and `count` whole pages consumed. -/
def consumedBytes (segment : ProgramSegment) (count : Nat) : Nat :=
  (roundUp segment.virtualAddress - segment.virtualAddress) + count * 4096

def lastFilePage (segment : ProgramSegment) (count : Nat) : Nat → Word :=
  let stop := (segment.virtualAddress + segment.sizeInFile) % 2 ^ 32
  pageOfBytes fun index =>
    if index < stop - roundDown stop then
      segment.data (consumedBytes segment count + index)
    else 0

/-- The whole pages between the first and the last one. -/
def addWholePages (env : Nat) (segment : ProgramSegment) : Nat → List Nat → Kernel Nat
  | count, [] => return count
  | count, address :: addresses => do
      addProgramPage env address (pageOfBytes fun index =>
        segment.data (consumedBytes segment count + index))
      addWholePages env segment (count + 1) addresses

def addZeroPage (env address : Nat) : Kernel Unit := do
  if (← pfAddEmptyEnvPage env address true) = .noSpace then
    throw (.panic "ERROR: Page File OUT OF SPACE. can't load the program in Page file!!")

/-- The page-file part of the segment loop of `env_create`. -/
def addSegmentPages (env : Nat) (segment : ProgramSegment) : Kernel Unit := do
  let stop := (segment.virtualAddress + segment.sizeInFile) % 2 ^ 32
  addProgramPage env (roundDown segment.virtualAddress) (firstFilePage segment)
  let count ← addWholePages env segment 0
    (pageRange (roundUp segment.virtualAddress) (roundDown stop))
  addProgramPage env (roundDown stop) (lastFilePage segment count)
  let remaining := roundUp stop
  let length := (segment.virtualAddress + segment.sizeInMemory + 2 ^ 32 - remaining) % 2 ^ 32
  Kernel.forEach (fun offset => addZeroPage env (remaining + offset))
    (pageRange 0 (roundUp length))

def loadSegments (env remaining lastTable : Nat) : List ProgramSegment → Kernel Unit
  | [] => return ()
  | segment :: segments => do
      let pages := residentPages ((← get).envs env).progName segment remaining
      let lastTable ← programSegmentAllocMapCopyWorkingset env lastTable segment pages
      addSegmentPages env segment
      loadSegments env (remaining - pages.length) lastTable segments

/-- Reset the modified bit of the loaded pages. -/
def clearModified (env : Nat) : List Nat → Kernel Unit
  | [] => return ()
  | index :: indices => do
      let element := ((← get).envs env).ptrPageWorkingSet index
      if element.empty = false then
        let address := element.virtualAddress
        let (_, pointer) ← observe fun state => getPageTable state (.env env) address
        let entry ← observe fun state => load state pointer (ptx address)
        store pointer (ptx address) (changePerm entry 0 permModified)
      clearModified env indices

/-- The initial stack page. -/
def loadStack (env : Nat) : Kernel Unit := do
  let address := ustackTop - 4096
  let frame ← allocateFrame
  loadtimeMapFrame (.env env) frame address (permUser ||| permWriteable)
  writeUserPage env address fun _ _ => 0
  envPageWsSetEntry env ((← get).envs env).pageLastWSIndex address
  nextLastWSIndex env
  let _ ← pfAddEmptyEnvPage env address true

/-- `env_create` for the free environment `env`. -/
def envCreate (env : Nat) (program : Program) (pageWSSize : Nat) : Kernel Unit := do
  modify fun state => state.setEnv env { state.envs env with progName := program.name }
  let address ← createUserDirectory
  let frame ← observe fun state => kheapPhysicalAddress state address
  modify fun state => state.setEnv env { state.envs env with pageWSMaxSize := pageWSSize }
  initializeEnvironment env address frame
  loadSegments env ((pageWSSize + (2 ^ 32 - 1)) % 2 ^ 32) 0xFFFFFFFF program.segments
  clearModified env (List.range pageWSSize)
  loadStack env

/-! ## Exit -/

/-- The body of the loop of `cleanup_buffers`. -/
def cleanupFrame (env frame : Nat) : Kernel Unit := do
  let info := (← get).framesInfo frame
  if info.environment = some env then
    ptClearPageTableEntry info.environment info.va
    removeFromModified frame
    freeFrame frame

def cleanupBuffers (env : Nat) : Kernel Unit := do
  forEachModified (cleanupFrame env) foreachFuel (← get).modifiedFrameList.first

/-- The part of `sched_insert_exit` that concerns memory. -/
def schedInsertExit (env : Nat) : Kernel Unit := do
  if (← get).enableBuffering then cleanupBuffers env

end FosKernel
