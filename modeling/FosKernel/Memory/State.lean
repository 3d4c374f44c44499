import FosKernel.Queue
import FosKernel.Foundation.Preserves
import FosKernel.Memory.Layout

/-! # Kernel memory state

The global variables of the memory manager, the kernel heap and the page file,
with the contents of physical memory and of the disk. Kernel functions are state
transformers that either return or stop.
-/

namespace FosKernel

open LinkedList

/-- Ways in which a kernel function does not return to its caller. -/
inductive Stop
  | panic (message : String)
  /-- A null pointer or an unmapped kernel address is dereferenced. -/
  | badPointer
  /-- A static array is indexed outside its bounds. -/
  | outOfBounds
  /-- A loop does not end. -/
  | endless
  deriving DecidableEq

/-- `struct Frame_Info` without its links, which are kept in
`State.frameLinks` so that the list macros can share them. -/
structure FrameInfo where
  references : Nat
  va : Nat
  environment : Option Nat
  isBuffered : Bool
  deriving DecidableEq

/-- All fields zero, as `initialize_frame_info` leaves them. -/
@[reducible] def FrameInfo.zero : FrameInfo := ⟨0, 0, none, false⟩

/-- `struct KernelHEAP`. -/
structure KernelHeapRecord where
  first : Nat
  last : Nat
  size : Nat
  deriving DecidableEq

structure WorkingSetElement where
  virtualAddress : Nat
  empty : Bool
  timeStamp : Nat
  deriving DecidableEq

inductive PlacementStrategy
  | contalloc | firstFit | bestFit | nextFit | worstFit
  deriving DecidableEq

/-- The fields of `struct Env` that memory management uses. Page directories
are in `State.pageDirectory`, disk page directories in `State.diskDirectory` and disk
table directories in `State.diskTableDirectory`. -/
structure Env where
  progName : String
  pageWSMaxSize : Nat
  pageLastWSIndex : Nat
  tableLastWSIndex : Nat
  /-- Kernel address of the working-set array. -/
  pageWorkingSetAddress : Nat
  ptrPageWorkingSet : Nat → WorkingSetElement
  /-- Kernel address of the disk page directory, zero if there is none. -/
  diskEnvPgdir : Nat
  /-- Kernel address of the disk table directory, zero if there is none. -/
  diskEnvTabledir : Nat

/-- A page directory: the boot directory `ptr_page_directory`, or
`env_page_directory` of an environment. -/
inductive Directory
  | kernel
  | env (index : Nat)
  deriving DecidableEq

/-- The page tables of kernel addresses are allocated at boot and mapped in
`bootTables` by page number. All other page tables, the disk page tables and the
user pages share the frames of `memory`, a frame being 1024 words. A sector of the disk
is 128 words. -/
structure State where
  numberOfFrames : Nat
  framesInfo : Nat → FrameInfo
  frameLinks : Nat → Link Nat
  freeFrameList : ListHead Nat
  modifiedFrameList : ListHead Nat
  memory : Nat → Nat → Word
  bootTables : Nat → Word
  pageDirectory : Directory → Nat → Word
  startAdd : Nat
  idx : Nat
  kHeapArr : Nat → KernelHeapRecord
  kHeapPlacementStrategy : PlacementStrategy
  envs : Nat → Env
  curenv : Nat
  diskDirectory : Nat → Nat → Word
  diskTableDirectory : Nat → Nat → Word
  sectors : Nat → Nat → Word
  diskLinks : Nat → Link Nat
  diskFreeFrameList : ListHead Nat
  modifiedBufferLength : Nat
  enableBuffering : Bool

abbrev Kernel := StateT State (Except Stop)

/-- Run a function that only reads the state. -/
def observe (read : State → Except Stop α) : Kernel α :=
  fun state => (read state).map fun value => (value, state)

/-- A loop over the values of its counter. -/
def Kernel.forEach (body : α → Kernel Unit) : List α → Kernel Unit
  | [] => return ()
  | value :: values => do
      body value
      Kernel.forEach body values

namespace State

def setFrameInfo (state : State) (frame : Nat) (info : FrameInfo) : State :=
  { state with framesInfo := Function.update state.framesInfo frame info }

def setMemory (state : State) (frame index : Nat) (word : Word) : State :=
  { state with
    memory := Function.update state.memory frame
      (Function.update (state.memory frame) index word) }

def setPage (state : State) (frame : Nat) (page : Nat → Word) : State :=
  { state with memory := Function.update state.memory frame page }

def setBootEntry (state : State) (page : Nat) (word : Word) : State :=
  { state with bootTables := Function.update state.bootTables page word }

def setDirectoryEntry (state : State) (directory : Directory) (index : Nat)
    (word : Word) : State :=
  { state with
    pageDirectory := Function.update state.pageDirectory directory
      (Function.update (state.pageDirectory directory) index word) }

def setEnv (state : State) (env : Nat) (value : Env) : State :=
  { state with envs := Function.update state.envs env value }

/-- Replace the free list and the shared links by the result of a list macro. -/
def withFree (state : State) (result : ListState Nat) : State :=
  { state with frameLinks := result.links, freeFrameList := result.head }

def withModified (state : State) (result : ListState Nat) : State :=
  { state with frameLinks := result.links, modifiedFrameList := result.head }

def free (state : State) : ListState Nat := ⟨state.frameLinks, state.freeFrameList⟩

def modified (state : State) : ListState Nat :=
  ⟨state.frameLinks, state.modifiedFrameList⟩

end State

/-! ## Sequencing

A computation that returns went through a returning prefix. -/

namespace Kernel

theorem bind_ok {first : Kernel α} {rest : α → Kernel β} {state final : State}
    {result : β} :
    (first >>= rest) state = .ok (result, final) ↔
      ∃ value middle, first state = .ok (value, middle) ∧
        rest value middle = .ok (result, final) := by
  change (first state >>= fun pair => rest pair.1 pair.2) = _ ↔ _
  cases first state with
  | error stop => simp [bind, Except.bind]
  | ok pair =>
      rcases pair with ⟨value, middle⟩
      simp [bind, Except.bind]

/-- A returning prefix can be left out. -/
theorem bind_run {first : Kernel α} {rest : α → Kernel β} {state middle : State}
    {value : α} (returned : first state = .ok (value, middle)) :
    (first >>= rest) state = rest value middle := by
  change (first state >>= fun pair => rest pair.1 pair.2) = _
  rw [returned]
  rfl

theorem pure_ok {value result : α} {state final : State} :
    (pure value : Kernel α) state = .ok (result, final) ↔
      value = result ∧ state = final := by
  change Except.ok (value, state) = _ ↔ _
  simp

theorem throw_ok {stop : Stop} {result : α} {state final : State} :
    (throw stop : Kernel α) state = .ok (result, final) ↔ False := by
  change Except.error stop = _ ↔ _
  simp

theorem get_ok {result state final : State} :
    (get : Kernel State) state = .ok (result, final) ↔
      state = result ∧ state = final := by
  change Except.ok (state, state) = _ ↔ _
  simp

theorem set_ok {value state final : State} {result : PUnit} :
    (set value : Kernel PUnit) state = .ok (result, final) ↔ value = final := by
  change Except.ok (PUnit.unit, value) = _ ↔ _
  simp

theorem modify_ok {change : State → State} {state final : State} {result : PUnit} :
    (modify change : Kernel PUnit) state = .ok (result, final) ↔
      change state = final := by
  change Except.ok (PUnit.unit, change state) = _ ↔ _
  simp

theorem observe_ok {read : State → Except Stop α} {state final : State} {result : α} :
    observe read state = .ok (result, final) ↔
      read state = .ok result ∧ state = final := by
  unfold observe
  cases read state <;> simp [Except.map]

theorem bind_observe_ok {read : State → Except Stop α} {rest : α → Kernel β}
    {state final : State} {result : β} :
    (observe read >>= rest) state = .ok (result, final) ↔
      ∃ value, read state = .ok value ∧ rest value state = .ok (result, final) := by
  rw [bind_ok]
  constructor
  · rintro ⟨value, middle, observed, ended⟩
    rcases observe_ok.mp observed with ⟨value_eq, rfl⟩
    exact ⟨value, value_eq, ended⟩
  · rintro ⟨value, observed, ended⟩
    exact ⟨value, state, observe_ok.mpr ⟨observed, rfl⟩, ended⟩

theorem observe_run {read : State → Except Stop α} {rest : α → Kernel β} {state : State}
    {value : α} (returned : read state = .ok value) :
    (observe read >>= rest) state = rest value state :=
  bind_run (observe_ok.mpr ⟨returned, rfl⟩)

theorem bind_get_run {rest : State → Kernel β} {state : State} :
    (get >>= rest) state = rest state state := rfl

theorem bind_get_ok {rest : State → Kernel β} {state final : State} {result : β} :
    (get >>= rest) state = .ok (result, final) ↔
      rest state state = .ok (result, final) := Iff.rfl

theorem bind_modify_ok {change : State → State} {rest : PUnit → Kernel β}
    {state final : State} {result : β} :
    (modify change >>= rest) state = .ok (result, final) ↔
      rest PUnit.unit (change state) = .ok (result, final) := Iff.rfl

theorem ite_ok {condition : Prop} [Decidable condition] {yes no : Kernel α}
    {state final : State} {result : α} :
    (if condition then yes else no) state = .ok (result, final) ↔
      (condition ∧ yes state = .ok (result, final)) ∨
        (¬condition ∧ no state = .ok (result, final)) := by
  by_cases holds : condition <;> simp [holds]

theorem preserves_observe {invariant : State → Prop} (read : State → Except Stop α) :
    Preserves invariant (observe read) :=
  .readOnly fun _ _ _ returned => (observe_ok.mp returned).2.symm

theorem preserves_forEach {invariant : State → Prop} {body : α → Kernel Unit}
    (kept : ∀ value, Preserves invariant (body value)) (values : List α) :
    Preserves invariant (Kernel.forEach body values) := by
  induction values with
  | nil => exact .pure ()
  | cons value values induction => exact .bind (kept value) fun _ => induction

end Kernel

theorem Except.bind_ok {first : Except Stop α} {rest : α → Except Stop β}
    {result : β} :
    (first >>= rest) = .ok result ↔
      ∃ value, first = .ok value ∧ rest value = .ok result := by
  cases first <;> simp [bind, Except.bind]

end FosKernel
