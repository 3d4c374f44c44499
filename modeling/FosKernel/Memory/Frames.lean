import FosKernel.Memory.PageTables

/-! # Frames

Allocation, release and mapping of physical frames (`kern/memory_manager.c`).
-/

namespace FosKernel

open LinkedList

/-- `initialize_frame_info`: all fields and both links become zero. -/
def initializeFrameInfo (frame : Nat) : Kernel Unit :=
  modify fun state =>
    { state with
      framesInfo := Function.update state.framesInfo frame FrameInfo.zero
      frameLinks := Function.update state.frameLinks frame Link.null }

def allocateFrame : Kernel Nat := do
  match (← get).freeFrameList.first with
  | none => throw (.panic ("ERROR: Kernel run out of memory... allocate_frame cannot " ++
      "find a free frame."))
  | some frame => do
      modify fun state => state.withFree (listRemove state.free frame)
      let info := (← get).framesInfo frame
      if info.isBuffered then ptClearPageTableEntry info.environment info.va
      initializeFrameInfo frame
      return frame

def freeFrame (frame : Nat) : Kernel Unit := do
  initializeFrameInfo frame
  modify fun state => state.withFree (listInsertHead state.free frame)

/-- Add to the 16-bit reference count of a frame. -/
def addReferences (frame amount : Nat) : Kernel Unit :=
  modify fun state =>
    let info := state.framesInfo frame
    state.setFrameInfo frame
      { info with references := (info.references + amount) % 2 ^ 16 }

def decrementReferences (frame : Nat) : Kernel Unit := do
  addReferences frame (2 ^ 16 - 1)
  if ((← get).framesInfo frame).references = 0 then freeFrame frame

def unmapFrame (directory : Directory) (address : Nat) : Kernel Unit := do
  let (info, pointer) ← observe fun state => getFrameInfo state directory address
  match info with
  | some frame => do
      decrementReferences frame
      store pointer (ptx address) 0
  | none => return ()

/-- `map_frame`, with `create_page_table` as a parameter because that function
calls `kmalloc`, which maps frames itself. -/
def mapFrameWith (createPageTable : Directory → Nat → Kernel TablePointer)
    (directory : Directory) (frame address : Nat) (perm : Word) : Kernel Unit := do
  let (status, pointer) ← observe fun state => getPageTable state directory address
  let pointer ← if status = .notExist then createPageTable directory address
    else pure pointer
  let entry ← observe fun state => load state pointer (ptx address)
  if hasPerm entry permPresent ∧ frameOf entry = frame then return ()
  if hasPerm entry permPresent then unmapFrame directory address
  addReferences frame 1
  store pointer (ptx address) (constructEntry frame (perm ||| permPresent))

end FosKernel
