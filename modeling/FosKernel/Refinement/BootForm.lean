import FosKernel.Boot

/-! # The free lists after boot

`initialize_paging` inserts runs of consecutive frames at the head of a list. What the
lists look like afterwards can be written down; concrete runs start from this form.
-/

namespace FosKernel

open LinkedList

/-- A list after `count + 1` consecutive elements have been inserted at its head. -/
def insertRun (list : ListState Nat) (start count : Nat) : ListState Nat where
  links element :=
    if start ≤ element ∧ element ≤ start + count then
      ⟨if element = start then list.head.first else some (element - 1),
        if element = start + count then none else some (element + 1)⟩
    else if list.head.first = some element then
      { list.links element with prev := some start }
    else list.links element
  head :=
    ⟨some (start + count), if list.head.first = none then some start else list.head.last,
      list.head.ptrNext, (list.head.size + (count + 1)) % 2 ^ 32⟩

/-- Clear the links of an element and insert it at the head. -/
def insertCleared (list : ListState Nat) (element : Nat) : ListState Nat :=
  listInsertHead ⟨Function.update list.links element Link.null, list.head⟩ element

section Runs

variable {list : ListState Nat} {start count : Nat}

theorem insertCleared_links (fresh : list.head.first ≠ some start) (other : Nat) :
    (insertCleared list start).links other =
      if other = start then ⟨list.head.first, none⟩
      else if list.head.first = some other then
        { list.links other with prev := some start }
      else list.links other := by
  have links := listInsertHead_links
    ⟨Function.update list.links start Link.null, list.head⟩ start fresh other
  rw [insertCleared, links]
  by_cases same : other = start
  · simp [same]
  · simp [same]

theorem insertRun_zero (fresh : list.head.first ≠ some start) :
    insertCleared list start = insertRun list start 0 := by
  have links : (insertCleared list start).links = (insertRun list start 0).links := by
    funext other
    rw [insertCleared_links fresh]
    by_cases same : other = start
    · simp [insertRun, same]
    · have outside : ¬(start ≤ other ∧ other ≤ start) := by omega
      simp only [insertRun, Nat.add_zero, outside, same, if_false]
  have head : (insertCleared list start).head = (insertRun list start 0).head := by
    rw [insertCleared, listInsertHead_head]
    cases first : list.head.first <;> simp [insertRun, first]
  exact ListState.ext links head

theorem insertRun_succ :
    insertCleared (insertRun list start count) (start + count + 1) =
      insertRun list start (count + 1) := by
  have differs : (insertRun list start count).head.first ≠ some (start + count + 1) := by
    simp [insertRun]
  have links : (insertCleared (insertRun list start count) (start + count + 1)).links =
      (insertRun list start (count + 1)).links := by
    funext other
    rw [insertCleared_links differs]
    simp only [insertRun, Option.some.injEq]
    by_cases last : other = start + count + 1
    · subst last
      have inside : start ≤ start + count + 1 ∧ start + count + 1 ≤ start + (count + 1) := by
        omega
      have notStart : ¬start + count + 1 = start := by omega
      have isLast : start + count + 1 = start + (count + 1) := rfl
      rw [if_pos rfl, if_pos inside, if_neg notStart, if_pos isLast, Nat.add_sub_cancel]
    · by_cases inside : start ≤ other ∧ other ≤ start + count
      · have insideLater : start ≤ other ∧ other ≤ start + (count + 1) := by omega
        have notLast : other ≠ start + (count + 1) := by omega
        by_cases previous : start + count = other
        · have lastBefore : other = start + count := previous.symm
          simp [lastBefore]
        · have notPrevious : other ≠ start + count := fun equal => previous equal.symm
          simp only [last, previous, inside, insideLater, notLast, notPrevious, and_self,
            if_true, if_false]
      · have outside : ¬(start ≤ other ∧ other ≤ start + (count + 1)) := by omega
        have notPrevious : ¬start + count = other := by omega
        simp only [last, notPrevious, inside, outside, if_false]
  have head : (insertCleared (insertRun list start count) (start + count + 1)).head =
      (insertRun list start (count + 1)).head := by
    rw [insertCleared, listInsertHead_head]
    have size : ((list.head.size + (count + 1)) % 2 ^ 32 + 1) % 2 ^ 32 =
        (list.head.size + (count + 1 + 1)) % 2 ^ 32 := by
      omega
    simp only [insertRun, reduceCtorEq, if_false, size]
    rfl
  exact ListState.ext links head

end Runs

/-! ## The loops of `initialize_paging` -/

section Loops

variable {state : State} {start count : Nat}

theorem forEach_concat {body : α → Kernel Unit} {values : List α} {value : α}
    {middle final : State} (looped : Kernel.forEach body values state = .ok ((), middle))
    (last : body value middle = .ok ((), final)) :
    Kernel.forEach body (values ++ [value]) state = .ok ((), final) := by
  induction values generalizing state with
  | nil =>
      rcases Kernel.pure_ok.mp looped with ⟨-, rfl⟩
      exact Kernel.bind_ok.mpr ⟨(), final, last, rfl⟩
  | cons head tail induction =>
      rcases Kernel.bind_ok.mp looped with ⟨_, next, first, rest⟩
      exact Kernel.bind_ok.mpr ⟨(), next, first, induction rest⟩

/-- The state after the frames of a run have been freed. -/
def freedRun (state : State) (start count : Nat) : State :=
  { state.withFree (insertRun state.free start count) with
    framesInfo := fun frame =>
      if start ≤ frame ∧ frame ≤ start + count then FrameInfo.zero
      else state.framesInfo frame }

theorem freeFrames_form (fresh : state.freeFrameList.first ≠ some start) :
    Kernel.forEach freeFrame (List.range' start (count + 1)) state =
      .ok ((), freedRun state start count) := by
  induction count with
  | zero =>
      refine Kernel.bind_ok.mpr ⟨(), freedRun state start 0, ?_, rfl⟩
      refine Kernel.bind_modify_ok.mpr (Kernel.modify_ok.mpr ?_)
      have list : insertCleared state.free start = insertRun state.free start 0 :=
        insertRun_zero fresh
      simp only [freedRun, ← list]
      have info : Function.update state.framesInfo start FrameInfo.zero = fun frame =>
          if start ≤ frame ∧ frame ≤ start + 0 then FrameInfo.zero
          else state.framesInfo frame := by
        funext frame
        by_cases same : frame = start
        · simp [same]
        · have outside : ¬(start ≤ frame ∧ frame ≤ start + 0) := by omega
          simp only [Function.update_of_ne same, outside, if_false]
      rw [← info]
      rfl
  | succ count induction =>
      rw [List.range'_concat, Nat.one_mul]
      refine forEach_concat induction ?_
      refine Kernel.bind_modify_ok.mpr (Kernel.modify_ok.mpr ?_)
      have list : insertCleared (insertRun state.free start count) (start + (count + 1)) =
        insertRun state.free start (count + 1) := insertRun_succ
      simp only [freedRun, ← list]
      have info : Function.update (freedRun state start count).framesInfo
          (start + (count + 1)) FrameInfo.zero = fun frame =>
          if start ≤ frame ∧ frame ≤ start + (count + 1) then FrameInfo.zero
          else state.framesInfo frame := by
        funext frame
        by_cases same : frame = start + (count + 1)
        · simp [same]
        · have bounds : (start ≤ frame ∧ frame ≤ start + (count + 1)) ↔
              (start ≤ frame ∧ frame ≤ start + count) := by omega
          simp only [freedRun, Function.update_of_ne same, bounds]
      rw [← info]
      rfl

/-- The state after the frames of a run have got one reference. -/
def countedRun (state : State) (start count : Nat) : State :=
  { state with
    framesInfo := fun frame =>
      if start ≤ frame ∧ frame < start + count then
        { state.framesInfo frame with references := 1 }
      else state.framesInfo frame }

theorem setReferences_form :
    Kernel.forEach (setReferences 1) (List.range' start count) state =
      .ok ((), countedRun state start count) := by
  induction count with
  | zero =>
      refine Kernel.pure_ok.mpr ⟨rfl, ?_⟩
      have outside : ∀ frame, ¬(start ≤ frame ∧ frame < start + 0) := by omega
      simp only [countedRun, outside, if_false]
  | succ count induction =>
      rw [List.range'_concat, Nat.one_mul]
      refine forEach_concat induction (Kernel.modify_ok.mpr ?_)
      have info : Function.update (countedRun state start count).framesInfo (start + count)
          { (countedRun state start count).framesInfo (start + count) with references := 1 } =
          fun frame => if start ≤ frame ∧ frame < start + (count + 1) then
            { state.framesInfo frame with references := 1 }
          else state.framesInfo frame := by
        funext frame
        by_cases same : frame = start + count
        · subst same
          simp [countedRun]
        · have bounds : (start ≤ frame ∧ frame < start + (count + 1)) ↔
              (start ≤ frame ∧ frame < start + count) := by omega
          simp only [countedRun, Function.update_of_ne same, bounds]
      simp only [State.setFrameInfo, info]
      rfl

theorem diskFrames_form (fresh : state.diskFreeFrameList.first ≠ some start) :
    Kernel.forEach
      (fun dfn => do
        modify fun state =>
          { state with diskLinks := Function.update state.diskLinks dfn Link.null }
        modify fun state => state.withDiskFree (listInsertHead state.diskFree dfn))
      (List.range' start (count + 1)) state =
      .ok ((), state.withDiskFree (insertRun state.diskFree start count)) := by
  induction count with
  | zero =>
      refine Kernel.bind_ok.mpr ⟨(), _, ?_, rfl⟩
      refine Kernel.bind_modify_ok.mpr (Kernel.modify_ok.mpr ?_)
      rw [← insertRun_zero fresh]
      rfl
  | succ count induction =>
      rw [List.range'_concat, Nat.one_mul]
      refine forEach_concat induction ?_
      refine Kernel.bind_modify_ok.mpr (Kernel.modify_ok.mpr ?_)
      have list : insertCleared (insertRun state.diskFree start count) (start + (count + 1)) =
        insertRun state.diskFree start (count + 1) := insertRun_succ
      rw [← list]
      rfl

end Loops

/-! ## The state after boot -/

/-- A list without elements. -/
def ListState.empty : ListState Nat := ⟨fun _ => Link.null, ListHead.empty⟩

/-- The free list: the frames below the I/O hole, then those above the kernel. -/
def BootLayout.freeList (layout : BootLayout) : ListState Nat :=
  insertRun (insertRun ListState.empty 3 (ioFrame - 4)) layout.kernelFrames
    (layout.numberOfFrames - layout.kernelFrames - 1)

/-- The disk frames from 1 on. -/
def diskList : ListState Nat := insertRun ListState.empty 1 (pagesPerFile - 2)

def BootLayout.booted (layout : BootLayout) (contents : BootContents) : State :=
  { layout.beforePaging contents with
    framesInfo := fun frame =>
      if frame < 3 ∨ ioFrame ≤ frame ∧ frame < layout.kernelFrames then
        { FrameInfo.zero with references := 1 }
      else FrameInfo.zero
    frameLinks := layout.freeList.links
    freeFrameList := layout.freeList.head
    memory := fun frame index =>
      if (frame = 1 ∨ frame = 2) ∧ index < 256 then 0 else contents.memory frame index
    diskLinks := diskList.links
    diskFreeFrameList := diskList.head }

theorem initializePaging_form (layout : BootLayout) (contents : BootContents)
    (extra : layout.kernelFrames < layout.numberOfFrames) :
    initializePaging layout.kernelFrames (layout.beforePaging contents) =
      .ok ((), layout.booted contents) := by
  have kernelLower := layout.kernelLower
  let counted := countedRun (layout.beforePaging contents) 0 3
  let zeroed : State := { counted with
    memory := fun frame index =>
      if (frame = 1 ∨ frame = 2) ∧ index < 256 then 0 else counted.memory frame index }
  let low := freedRun zeroed 3 156
  let io := countedRun low ioFrame (extendedFrame - ioFrame)
  let kernel := countedRun io extendedFrame (layout.kernelFrames - extendedFrame)
  let high := freedRun kernel layout.kernelFrames
    (layout.numberOfFrames - layout.kernelFrames - 1)
  refine Kernel.bind_modify_ok.mpr (Kernel.bind_modify_ok.mpr ?_)
  refine Kernel.bind_ok.mpr ⟨(), counted, setReferences_form, ?_⟩
  refine Kernel.bind_ok.mpr ⟨(), zeroed, rfl, ?_⟩
  have emptyList : zeroed.freeFrameList.first ≠ some 3 := (nofun : none ≠ some 3)
  refine Kernel.bind_ok.mpr ⟨(), low, freeFrames_form emptyList, ?_⟩
  refine Kernel.bind_ok.mpr ⟨(), io, setReferences_form, ?_⟩
  refine Kernel.bind_ok.mpr ⟨(), kernel, setReferences_form, Kernel.bind_get_ok.mpr ?_⟩
  have lowFirst : kernel.freeFrameList.first ≠ some layout.kernelFrames := by
    intro equal
    have same : (some 159 : Option Nat) = some layout.kernelFrames := equal
    rw [Option.some.injEq] at same
    simp only [extendedFrame] at kernelLower
    omega
  have length : layout.numberOfFrames - layout.kernelFrames =
      layout.numberOfFrames - layout.kernelFrames - 1 + 1 := by omega
  have freed : Kernel.forEach freeFrame
      (counter layout.kernelFrames layout.numberOfFrames) kernel = .ok ((), high) := by
    rw [counter, length]
    exact freeFrames_form lowFirst
  refine Kernel.bind_ok.mpr ⟨(), high, freed, Kernel.bind_modify_ok.mpr ?_⟩
  have pages : counter 1 pagesPerFile = List.range' 1 (pagesPerFile - 2 + 1) := rfl
  have emptyDisk : (high.withDiskFree (listInit high.diskFree)).diskFreeFrameList.first ≠
      some 1 := (nofun : none ≠ some 1)
  rw [pages, diskFrames_form emptyDisk]
  have info : high.framesInfo = (layout.booted contents).framesInfo := by
    funext frame
    simp only [high, kernel, io, low, zeroed, counted, freedRun, countedRun,
      BootLayout.booted, BootLayout.beforePaging, ioFrame, extendedFrame] at kernelLower ⊢
    split_ifs <;> first | rfl | omega
  have same : (high.withDiskFree (listInit high.diskFree)).withDiskFree
      (insertRun (high.withDiskFree (listInit high.diskFree)).diskFree 1 (pagesPerFile - 2)) =
      { layout.booted contents with framesInfo := high.framesInfo } := rfl
  rw [same, info]

/-- A machine with 256 MiB of memory. -/
def sampleLayout : BootLayout where
  numberOfFrames := 0x10000
  kernelFrames := 0x800
  directoryFrame := 0x200
  tableFrame index := 0x201 + index % 128
  stackFrame := 0x110
  envsFrame := 0x300
  envsPages := 0x100
  kernelLower := by decide
  kernelUpper := by decide
  belowHeap := by decide
  physical := by decide
  directoryBound := by decide
  tableBound := by
    intro index
    omega
  stackBound := by decide
  envsBound := by decide
  envsTable := by decide

def sampleContents : BootContents where
  memory _ _ := 0
  sectors _ _ := 0
  modifiedBufferLength := 1000
  enableBuffering := false

/-- A program with one segment inside a page. -/
def sampleProgram : Program :=
  ⟨"fos_add", [⟨0x800020, 0x100, 0x200, fun index => BitVec.ofNat 8 index⟩]⟩

def sampleState : State := sampleLayout.booted sampleContents

theorem sample_boots :
    initializePaging sampleLayout.kernelFrames (sampleLayout.beforePaging sampleContents) =
      .ok ((), sampleState) :=
  initializePaging_form sampleLayout sampleContents (by decide)

end FosKernel
