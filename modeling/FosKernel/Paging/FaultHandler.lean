import FosKernel.Paging.PageFile

/-! # Page faults

The working-set helpers of `kern/memory_manager.c` and the fault handlers of
`kern/trap.c`.
-/

namespace FosKernel

/-! ## Working set -/

def WorkingSetElement.cleared : WorkingSetElement := ⟨0, true, 0⟩

def envPageWsGetSize (env : Env) : Nat :=
  ((List.range env.pageWSMaxSize).filter fun index =>
    (env.ptrPageWorkingSet index).empty = false).length

def Env.setElement (env : Env) (index : Nat) (element : WorkingSetElement) : Env :=
  { env with ptrPageWorkingSet := Function.update env.ptrPageWorkingSet index element }

def envPageWsSetEntry (env index address : Nat) : Kernel Unit := do
  let value := (← get).envs env
  if value.pageWSMaxSize ≤ index then
    throw (.panic ("assertion failed: entry_index >= 0 && entry_index < " ++
      "e->page_WS_max_size"))
  if userTop ≤ address then
    throw (.panic "assertion failed: virtual_address >= 0 && virtual_address < USER_TOP")
  modify fun state => state.setEnv env
    (value.setElement index ⟨roundDown address, false, 0x80000000⟩)

def envPageWsClearEntry (env index : Nat) : Kernel Unit := do
  let value := (← get).envs env
  if value.pageWSMaxSize ≤ index then
    throw (.panic ("assertion failed: entry_index >= 0 && entry_index < " ++
      "(e->page_WS_max_size)"))
  modify fun state => state.setEnv env (value.setElement index .cleared)

def envPageWsGetVirtualAddress (state : State) (env index : Nat) : Except Stop Nat :=
  if (state.envs env).pageWSMaxSize ≤ index then
    .error (.panic ("assertion failed: entry_index >= 0 && entry_index < " ++
      "(e->page_WS_max_size)"))
  else .ok (roundDown ((state.envs env).ptrPageWorkingSet index).virtualAddress)

def setLastWSIndex (env index : Nat) : Kernel Unit :=
  modify fun state => state.setEnv env { state.envs env with pageLastWSIndex := index }

/-- `page_last_WS_index++`, back to zero at the end of the working set. -/
def advanceLastWSIndex (env : Nat) : Kernel Unit := do
  let value := (← get).envs env
  let next := (value.pageLastWSIndex + 1) % 2 ^ 32
  setLastWSIndex env (if next = value.pageWSMaxSize then 0 else next)

/-- The end of both branches of `page_fault_handler`. -/
def setLastWSIndexAfter (env index : Nat) : Kernel Unit := do
  let size := ((← get).envs env).pageWSMaxSize
  setLastWSIndex env
    (if index = (size + (2 ^ 32 - 1)) % 2 ^ 32 then 0 else (index + 1) % 2 ^ 32)

/-! ## Placement -/

def missingPage : Stop :=
  .panic "=(PANIC)=> Page doesn't exist on PageFile or Stack"

/-- The loop of `placement` over the working set. -/
def placeInWorkingSet (env address : Nat) : List Nat → Kernel Unit
  | [] => return ()
  | index :: indices => do
      let value := (← get).envs env
      if (value.ptrPageWorkingSet index).empty then
        envPageWsSetEntry env index address
        setLastWSIndex env (if index + 1 = value.pageWSMaxSize then 0 else index + 1)
      else placeInWorkingSet env address indices

def placement (env faultVa : Nat) : Kernel Unit := do
  let frame ← allocateFrame
  mapFrame (.env env) frame faultVa (permUser ||| permWriteable)
  let code ← pfReadEnvPage env faultVa
  let faultVa := if code = .pageNotExist then roundDown faultVa else faultVa
  if code = .pageNotExist then
    if userHeapMax ≤ faultVa ∧ faultVa < ustackTop then
      let _ ← pfAddEmptyEnvPage env faultVa true
    else throw missingPage
  placeInWorkingSet env faultVa (List.range ((← get).envs env).pageWSMaxSize)

/-- The placement branch of `page_fault_handler`. Its inner test for a full working
set repeats the outer one and never holds. -/
def placementBranch (env faultVa lastIDX : Nat) : Kernel Unit := do
  placement env faultVa
  let permissions ← observe fun state => ptGetPagePermissions state env faultVa
  if ¬hasPerm permissions permBuffered then
    if (← pfReadEnvPage env faultVa) = .pageNotExist then
      if ustackBottom ≤ faultVa ∧ faultVa < ustackTop then
        let _ ← pfAddEmptyEnvPage env faultVa false
      else throw missingPage
  setLastWSIndexAfter env lastIDX

/-! ## Victim selection -/

/-- A victim page and its place in the working set. -/
structure Victim where
  address : Nat
  index : Nat
  deriving DecidableEq

/-- Take the page at `page_last_WS_index` out of the working set. -/
def takeVictim (env address : Nat) : Kernel Victim := do
  let index := ((← get).envs env).pageLastWSIndex
  envPageWsClearEntry env index
  advanceLastWSIndex env
  return ⟨address, index⟩

/-- The inner loop: the first page that is not used, clearing `PERM_USED` on the
way. It stops without a victim when it is back at `FP`. -/
def secondTrial (env fp : Nat) : Nat → Kernel (Option Victim)
  | 0 => throw .endless
  | fuel + 1 => do
      let index := ((← get).envs env).pageLastWSIndex
      let address ← observe fun state => envPageWsGetVirtualAddress state env index
      let permissions ← observe fun state => ptGetPagePermissions state env address
      if hasPerm permissions permUsed then
        ptSetPagePermissions env address 0 permUsed
        advanceLastWSIndex env
        if ((← get).envs env).pageLastWSIndex = fp then return none
        secondTrial env fp fuel
      else return some (← takeVictim env address)

/-- The outer loop: the first page that is neither used nor modified; back at `FP`
the inner loop has its turn. -/
def findVictim (env fp : Nat) : Nat → Kernel Victim
  | 0 => throw .endless
  | fuel + 1 => do
      let index := ((← get).envs env).pageLastWSIndex
      let address ← observe fun state => envPageWsGetVirtualAddress state env index
      let permissions ← observe fun state => ptGetPagePermissions state env address
      if ¬hasPerm permissions permUsed ∧ ¬hasPerm permissions permModified then
        takeVictim env address
      else do
        advanceLastWSIndex env
        let value := (← get).envs env
        if value.pageLastWSIndex = fp then
          match ← secondTrial env fp (value.pageWSMaxSize + 1) with
          | some victim => return victim
          | none => findVictim env fp fuel
        else findVictim env fp fuel

/-! ## Buffering -/

def setBuffered (frame : Nat) (isBuffered : Bool) : Kernel Unit :=
  modify fun state => state.setFrameInfo frame { state.framesInfo frame with isBuffered }

def addToFree (frame : Nat) : Kernel Unit :=
  modify fun state => state.withFree (listInsertTail state.free frame)

def addToModified (frame : Nat) : Kernel Unit :=
  modify fun state => state.withModified (listInsertTail state.modified frame)

def removeFromFree (frame : Nat) : Kernel Unit :=
  modify fun state => state.withFree (listRemove state.free frame)

def removeFromModified (frame : Nat) : Kernel Unit :=
  modify fun state => state.withModified (listRemove state.modified frame)

/-- `LIST_FOREACH` over `modified_frame_list`: the next element is saved in the list
head before the body runs. -/
def forEachModified (body : Nat → Kernel Unit) : Nat → Option Nat → Kernel Unit
  | _, none => modify fun state =>
      { state with modifiedFrameList := { state.modifiedFrameList with ptrNext := none } }
  | 0, some _ => throw .endless
  | fuel + 1, some frame => do
      modify fun state =>
        { state with
          modifiedFrameList :=
            { state.modifiedFrameList with ptrNext := (state.frameLinks frame).next } }
      body frame
      forEachModified body fuel (← get).modifiedFrameList.ptrNext

/-- Iterations after which a traversal has met some frame twice. -/
abbrev foreachFuel : Nat := 2 ^ 32

/-- Write one modified frame to the page file and move it to the free list. -/
def flushFrame (env frame : Nat) : Kernel Unit := do
  let address := ((← get).framesInfo frame).va
  let _ ← pfUpdateEnvPage env address frame
  ptSetPagePermissions env address 0 permModified
  removeFromModified frame
  addToFree frame

/-- Put the frame of the victim page on one of the two lists. -/
def bufferVictim (env victim frame : Nat) : Kernel Unit := do
  let length := (← get).modifiedBufferLength
  setBuffered frame true
  ptSetPagePermissions env victim permBuffered permPresent
  let permissions ← observe fun state => ptGetPagePermissions state env victim
  if hasPerm permissions permModified then
    addToModified frame
    let head := (← get).modifiedFrameList
    if length = head.size then forEachModified (flushFrame env) foreachFuel head.first
  else addToFree frame

/-- Bring a buffered page back. `frame` is what `get_frame_info` returned at the
start of `page_fault_handler`. -/
def restorePage (env faultVa : Nat) (permissions : Word) (frame : Option Nat) :
    Kernel Unit := do
  ptSetPagePermissions env faultVa permPresent permBuffered
  match frame with
  | none => throw .badPointer
  | some frame => do
      setBuffered frame false
      if hasPerm permissions permModified then removeFromModified frame
      else removeFromFree frame

/-- Load a page that is not buffered. -/
def loadPage (env faultVa : Nat) : Kernel Unit := do
  let frame ← allocateFrame
  mapFrame (.env env) frame faultVa (permPresent ||| permUser ||| permWriteable)
  if (← pfReadEnvPage env faultVa) = .pageNotExist then
    if ustackBottom ≤ faultVa ∧ faultVa < ustackTop then
      let _ ← pfAddEmptyEnvPage env faultVa false
    else throw missingPage

/-- The replacement branch of `page_fault_handler`. -/
def replacementBranch (env faultVa : Nat) (faultFrame : Option Nat) : Kernel Unit := do
  let value := (← get).envs env
  let victim ← findVictim env value.pageLastWSIndex (2 * value.pageWSMaxSize + 2)
  let (frame, _) ← observe fun state => getFrameInfo state (.env env) victim.address
  match frame with
  | none => throw .badPointer
  | some frame => bufferVictim env victim.address frame
  let permissions ← observe fun state => ptGetPagePermissions state env faultVa
  if hasPerm permissions permBuffered then restorePage env faultVa permissions faultFrame
  else loadPage env faultVa
  envPageWsSetEntry env victim.index faultVa
  setLastWSIndexAfter env victim.index

def pageFaultHandler (env faultVa : Nat) : Kernel Unit := do
  let value := (← get).envs env
  let (faultFrame, _) ← observe fun state => getFrameInfo state (.env env) faultVa
  if envPageWsGetSize value < value.pageWSMaxSize then
    placementBranch env faultVa value.pageLastWSIndex
  else replacementBranch env faultVa faultFrame

def tableFaultHandler (env faultVa : Nat) : Kernel Unit := do
  let _ ← createPageTable (.env env) faultVa

/-- `fault_handler` for a fault in user mode. -/
def faultHandler (faultVa : Nat) : Kernel Unit := do
  if ustackTop ≤ faultVa then throw (.panic "User: stack underflow exception!")
  let state ← get
  let env := state.curenv
  if ¬hasPerm (state.pageDirectory (.env env) (pdx faultVa)) permPresent then
    tableFaultHandler env faultVa
  else if state.enableBuffering then
    throw (.panic "this function is not required...!!")
  else pageFaultHandler env faultVa

end FosKernel
