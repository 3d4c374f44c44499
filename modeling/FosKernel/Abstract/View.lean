import FosKernel.Boot
import FosKernel.Foundation.Holders

/-! # Abstract memory

What the memory manager is about, without pointers: every page of the kernel heap
and of the user spaces has an entry, every environment has page tables and disk
page tables, every frame has its record, and the free and modified frames are two
lists. `State.view` reads this off a state; the functions of the kernel are later
shown to act on it by the updates defined here.
-/

namespace FosKernel

open LinkedList

instance : Coe Nat Directory := ⟨.env⟩

/-- A page whose entry may refer to a frame, given by its page number: a page of the
kernel heap, which all directories share, or a user page of one directory. -/
inductive Slot
  | heap (page : Nat)
  | user (owner : Directory) (page : Nat)
  deriving DecidableEq

/-- The page belongs to a page table. -/
def Slot.InTable (env index : Nat) : Slot → Prop
  | .heap _ => False
  | .user owner page => owner = .env env ∧ page / 1024 = index

instance (env index : Nat) (slot : Slot) : Decidable (slot.InTable env index) :=
  match slot with
  | .heap _ => inferInstanceAs (Decidable False)
  | .user owner page => inferInstanceAs (Decidable (owner = .env env ∧ page / 1024 = index))

/-- A page table of a directory or disk page table of an environment, by directory
index. -/
inductive Table
  | page (owner : Directory) (index : Nat)
  | disk (env index : Nat)
  deriving DecidableEq

structure WorkingSet where
  maxSize : Nat
  lastIndex : Nat
  element : Nat → WorkingSetElement

def WorkingSet.set (workingSet : WorkingSet) (index : Nat) (element : WorkingSetElement) :
    WorkingSet :=
  { workingSet with element := Function.update workingSet.element index element }

@[ext] structure View where
  links : Nat → Link Nat
  free : ListHead Nat
  modified : ListHead Nat
  info : Nat → FrameInfo
  entry : Slot → Word
  table : Table → Word
  workingSet : Nat → WorkingSet
  /-- The boot directory from `USER_TOP` on. -/
  kernelDirectory : Nat → Word
  startAdd : Nat
  numberOfFrames : Nat

def State.slotEntry (state : State) : Slot → Word
  | .heap page =>
      if ppn kernelHeapStart ≤ page ∧ page < ppn kernelHeapMax then state.bootTables page
      else 0
  | .user owner page =>
      let directoryEntry := state.pageDirectory owner (page / 1024)
      if page < ppn userTop ∧ hasPerm directoryEntry permPresent then
        state.memory (frameOf directoryEntry) (page % 1024)
      else 0

def State.tableEntry (state : State) : Table → Word
  | .page owner index =>
      if index < pdx userTop then state.pageDirectory owner index else 0
  | .disk env index => state.diskDirectory env index

def Env.workingSet (env : Env) : WorkingSet :=
  ⟨env.pageWSMaxSize, env.pageLastWSIndex, env.ptrPageWorkingSet⟩

def State.view (state : State) : View where
  links := state.frameLinks
  free := state.freeFrameList
  modified := state.modifiedFrameList
  info := state.framesInfo
  entry := state.slotEntry
  table := state.tableEntry
  workingSet env := (state.envs env).workingSet
  kernelDirectory index := if index < pdx userTop then 0 else state.pageDirectory .kernel index
  startAdd := state.startAdd
  numberOfFrames := state.numberOfFrames

namespace View

variable (view : View)

def setEntry (slot : Slot) (word : Word) : View :=
  { view with entry := Function.update view.entry slot word }

def setTable (table : Table) (word : Word) : View :=
  { view with table := Function.update view.table table word }

def setInfo (frame : Nat) (info : FrameInfo) : View :=
  { view with info := Function.update view.info frame info }

def setWorkingSet (env : Nat) (workingSet : WorkingSet) : View :=
  { view with workingSet := Function.update view.workingSet env workingSet }

def withFree (result : ListState Nat) : View :=
  { view with links := result.links, free := result.head }

def withModified (result : ListState Nat) : View :=
  { view with links := result.links, modified := result.head }

/-- `initialize_frame_info`. -/
def clearInfo (frame : Nat) : View :=
  { view with
    info := Function.update view.info frame FrameInfo.zero
    links := Function.update view.links frame Link.null }

/-- Take a frame off the free list. -/
def allocate (frame : Nat) : View :=
  (view.withFree (listRemove ⟨view.links, view.free⟩ frame)).clearInfo frame

/-- `free_frame`. -/
def release (frame : Nat) : View :=
  let cleared := view.clearInfo frame
  cleared.withFree (listInsertHead ⟨cleared.links, cleared.free⟩ frame)

/-- Change the 16-bit reference count of a frame. -/
def addReferences (frame amount : Nat) : View :=
  let info := view.info frame
  view.setInfo frame { info with references := (info.references + amount) % 2 ^ 16 }

/-- Count one more reference to a frame and enter it at a page. -/
def attach (frame : Nat) (slot : Slot) (word : Word) : View :=
  (view.addReferences frame 1).setEntry slot word

/-- `decrement_references`. -/
def decrement (frame : Nat) : View :=
  let counted := view.addReferences frame (2 ^ 16 - 1)
  if (counted.info frame).references = 0 then counted.release frame else counted

/-- Count one reference less and clear the entry of the page. -/
def detach (frame : Nat) (slot : Slot) : View :=
  (view.decrement frame).setEntry slot 0

def setBuffered (frame : Nat) (isBuffered : Bool) : View :=
  view.setInfo frame { view.info frame with isBuffered }

/-- Put the frame of an evicted page on a list and mark it in its entry. -/
def evict (frame : Nat) (slot : Slot) (word : Word) (toModified : Bool) : View :=
  let marked := (view.setBuffered frame true).setEntry slot word
  if toModified then
    marked.withModified (listInsertTail ⟨marked.links, marked.modified⟩ frame)
  else marked.withFree (listInsertTail ⟨marked.links, marked.free⟩ frame)

/-- Take the frame of a buffered page off its list. -/
def restore (frame : Nat) (slot : Slot) (word : Word) (fromModified : Bool) : View :=
  let marked := (view.setEntry slot word).setBuffered frame false
  if fromModified then
    marked.withModified (listRemove ⟨marked.links, marked.modified⟩ frame)
  else marked.withFree (listRemove ⟨marked.links, marked.free⟩ frame)

/-- The entries of a page table disappear with it. -/
def dropTable (env index : Nat) : View :=
  { view with
    table := Function.update view.table (.page env index) 0
    entry := fun slot => if slot.InTable env index then 0 else view.entry slot }

end View

end FosKernel
