import FosKernel.Memory.State

/-! # Page-table lookup

`get_page_table`, `get_frame_info` and the functions on the permission bits of an
entry, with the reverse lookup `kheap_virtual_address` on which they rest. A page
table is reached through a kernel pointer. The tables of kernel addresses are
the boot tables; a user page table is found by the kernel heap page that maps its
frame.
-/

namespace FosKernel

inductive TableStatus
  | inMemory
  | notExist
  deriving DecidableEq

/-- The value of a `uint32 *ptr_page_table`. -/
inductive TablePointer
  | null
  /-- The boot table of a directory index. -/
  | boot (index : Nat)
  /-- A page directory, seen as the page table of `VPT` and `UVPT`. -/
  | directory (directory : Directory) (address : Nat)
  /-- The page at a kernel address. -/
  | kernel (address : Nat)
  deriving DecidableEq

/-- A pointer computed by `kheap_virtual_address`. -/
def TablePointer.ofAddress (address : Nat) : TablePointer :=
  if address = 0 then .null else .kernel address

/-- The directory indices for which `initialize_kernel_VM` allocates a table. -/
def hasBootTable (index : Nat) : Prop :=
  index = pdx userTop ∨ index = pdx userLimit ∨ pdx kernelBase ≤ index ∧ index < 1024
  deriving Decidable

/-- The directory indices of `VPT` and `UVPT`. -/
def isSelfMap (index : Nat) : Prop := index = 0x3BF ∨ index = 0x3BD
  deriving Decidable

/-- The frame behind a kernel address, as the MMU finds it. -/
def kernelFrame (state : State) (address : Nat) : Except Stop Nat :=
  let entry := state.bootTables (ppn address)
  if hasPerm entry permPresent then .ok (frameOf entry) else .error .badPointer

def load (state : State) (pointer : TablePointer) (index : Nat) : Except Stop Word :=
  match pointer with
  | .null => .error .badPointer
  | .boot directoryIndex => .ok (state.bootTables (directoryIndex * 1024 + index))
  | .directory directory address => do
      let _ ← kernelFrame state address
      return state.pageDirectory directory index
  | .kernel address => do
      let frame ← kernelFrame state address
      return state.memory frame index

def store (pointer : TablePointer) (index : Nat) (word : Word) : Kernel Unit :=
  match pointer with
  | .null => throw .badPointer
  | .boot directoryIndex =>
      modify fun state => state.setBootEntry (directoryIndex * 1024 + index) word
  | .directory directory address => do
      let _ ← observe fun state => kernelFrame state address
      modify fun state => state.setDirectoryEntry directory index word
  | .kernel address => do
      let frame ← observe fun state => kernelFrame state address
      modify fun state => state.setMemory frame index word

/-- `to_frame_info` on the address of a frame. -/
def toFrameInfo (state : State) (frame : Nat) : Except Stop Nat :=
  if state.numberOfFrames ≤ frame then
    .error (.panic "to_frame_info called with invalid pa")
  else .ok frame

/-- `STATIC_KERNEL_VIRTUAL_ADDRESS(EXTRACT_ADDRESS(page_directory_entry))`. -/
def staticTable (state : State) (directory : Directory) (address : Nat) :
    Except Stop TablePointer :=
  let entry := state.pageDirectory directory (pdx address)
  if state.numberOfFrames ≤ frameOf entry then
    .error (.panic "K_VIRTUAL_ADDRESS called with invalid pa")
  else if hasBootTable (pdx address) ∧
      frameOf entry = frameOf (state.pageDirectory .kernel (pdx address)) then
    .ok (.boot (pdx address))
  else if isSelfMap (pdx address) then
    .ok (.directory directory (kernelBase + frameOf entry * 4096))
  else .ok (.kernel (kernelBase + frameOf entry * 4096))

/-- The end of `get_page_table`. An entry that is not present but not zero makes
the source call `fault_handler(NULL)`. -/
def tableStatus (entry : Word) (pointer : TablePointer) :
    Except Stop (TableStatus × TablePointer) :=
  if hasPerm entry permPresent then .ok (.inMemory, pointer)
  else if entry ≠ 0 then .error .badPointer
  else .ok (.notExist, .null)

/-- `get_page_table` at a kernel address. -/
def kernelPageTable (state : State) (directory : Directory) (address : Nat) :
    Except Stop (TableStatus × TablePointer) := do
  let pointer ← staticTable state directory address
  tableStatus (state.pageDirectory directory (pdx address)) pointer

/-- The end of `get_frame_info`. -/
def frameAt (state : State) (pointer : TablePointer) (address : Nat) :
    Except Stop (Option Nat) := do
  if pointer = .null then return none
  let entry ← load state pointer (ptx address)
  if entry = 0 then return none
  return some (← toFrameInfo state (frameOf entry))

/-- `get_frame_info` on a heap address of `ptr_page_directory`. -/
def heapFrameInfo (state : State) (address : Nat) : Except Stop (Option Nat) := do
  let (_, pointer) ← kernelPageTable state .kernel address
  frameAt state pointer address

/-- The loop of `kheap_virtual_address`. -/
def findHeapPage (state : State) (frame : Nat) : List Nat → Except Stop Nat
  | [] => .ok 0
  | address :: addresses => do
      let info ← heapFrameInfo state address
      if info = some frame then return address
      findHeapPage state frame addresses

/-- `kheap_virtual_address` of the address of a frame. The scan stops at the
next-fit pointer `startAdd`. -/
def kheapVirtualAddress (state : State) (frame : Nat) : Except Stop Nat := do
  let frame ← toFrameInfo state frame
  findHeapPage state frame (pageRange kernelHeapStart state.startAdd)

/-- The page-table pointer that lookup computes from a directory entry. -/
def tablePointer (state : State) (directory : Directory) (address : Nat) :
    Except Stop TablePointer :=
  if checkIfKernelAddress address then staticTable state directory address
  else do
    let entry := state.pageDirectory directory (pdx address)
    return .ofAddress (← kheapVirtualAddress state (frameOf entry))

def getPageTable (state : State) (directory : Directory) (address : Nat) :
    Except Stop (TableStatus × TablePointer) := do
  let pointer ← tablePointer state directory address
  tableStatus (state.pageDirectory directory (pdx address)) pointer

def getFrameInfo (state : State) (directory : Directory) (address : Nat) :
    Except Stop (Option Nat × TablePointer) := do
  let (_, pointer) ← getPageTable state directory address
  return (← frameAt state pointer address, pointer)

/-- `kheap_physical_address`: the frame, zero if there is no page table. -/
def kheapPhysicalAddress (state : State) (address : Nat) : Except Stop Nat := do
  let (_, pointer) ← getPageTable state .kernel address
  if pointer = .null then return 0
  return frameOf (← load state pointer (ptx address))

/-! ## Permission bits -/

/-- The page table of a user page for the functions on permission bits; `none` if
the directory entry is zero. A table on disk is never found there, because none is
ever written. -/
def permissionsTable (state : State) (name : String) (env address : Nat) :
    Except Stop (Option TablePointer) :=
  let entry := state.pageDirectory (.env env) (pdx address)
  if hasPerm entry permPresent then
    return some (← tablePointer state (.env env) address)
  else if entry ≠ 0 then
    .error (.panic (name ++ ": table not found in PF when expected to find one !"))
  else .ok none

def ptGetPagePermissions (state : State) (env address : Nat) : Except Stop Word := do
  match ← permissionsTable state "pt_get_page_permissions" env address with
  | some pointer => return (← load state pointer (ptx address)) &&& 0xFFF#32
  | none => return 0

def ptSetPagePermissions (env address : Nat) (set clear : Word) : Kernel Unit := do
  match ← observe fun state =>
      permissionsTable state "pt_set_page_permissions" env address with
  | some pointer => do
      let entry ← observe fun state => load state pointer (ptx address)
      store pointer (ptx address) (changePerm entry set clear)
  | none => throw (.panic ("function pt_set_page_permissions() called with invalid " ++
      "virtual address. The corresponding page table doesn't exist"))

/-- The environment pointer may be null. -/
def ptClearPageTableEntry (env : Option Nat) (address : Nat) : Kernel Unit :=
  match env with
  | none => throw .badPointer
  | some env => do
      match ← observe fun state =>
          permissionsTable state "pt_clear_page_table_entry" env address with
      | some pointer => store pointer (ptx address) 0
      | none => throw (.panic ("function pt_clear_page_table_entry() called with " ++
          "invalid virtual address. The corresponding page table doesn't exist"))

end FosKernel
