import FosKernel.Refinement.Lookup

/-! # Updates refine the abstract updates

The state updates that the kernel functions consist of, and what they do to the
abstract memory. A store into a page table changes one entry, because the frames of
page tables are distinct; a store into any other frame changes none.
-/

namespace FosKernel

open LinkedList

namespace State

variable (state : State)

/-- `allocate_frame` on an unbuffered frame. -/
def allocate (frame : Nat) : State :=
  let removed := state.withFree (listRemove state.free frame)
  { removed with
    framesInfo := Function.update removed.framesInfo frame FrameInfo.zero
    frameLinks := Function.update removed.frameLinks frame Link.null }

/-- `free_frame`. -/
def release (frame : Nat) : State :=
  let cleared : State :=
    { state with
      framesInfo := Function.update state.framesInfo frame FrameInfo.zero
      frameLinks := Function.update state.frameLinks frame Link.null }
  cleared.withFree (listInsertHead cleared.free frame)

def addReferences (frame amount : Nat) : State :=
  let info := state.framesInfo frame
  state.setFrameInfo frame
    { info with references := (info.references + amount) % 2 ^ 16 }

/-- `decrement_references`. -/
def decrement (frame : Nat) : State :=
  let counted := state.addReferences frame (2 ^ 16 - 1)
  if (counted.framesInfo frame).references = 0 then counted.release frame else counted

theorem view_allocate (frame : Nat) :
    (state.allocate frame).view = state.view.allocate frame := rfl

theorem view_release (frame : Nat) :
    (state.release frame).view = state.view.release frame := rfl

theorem view_addReferences (frame amount : Nat) :
    (state.addReferences frame amount).view = state.view.addReferences frame amount := rfl

theorem view_decrement (frame : Nat) :
    (state.decrement frame).view = state.view.decrement frame := by
  simp only [State.decrement, View.decrement]
  split
  · next zero => exact (if_pos zero).symm
  · next nonzero => exact (if_neg nonzero).symm

/-- `decrement_references` changes the record of the frame and the free list only. -/
theorem decrement_eq (frame : Nat) :
    state.decrement frame =
      { state with
        framesInfo := (state.decrement frame).framesInfo
        frameLinks := (state.decrement frame).frameLinks
        freeFrameList := (state.decrement frame).freeFrameList } := by
  simp only [State.decrement]
  split <;> rfl

end State

/-! ## Stores -/

section Stores

variable {ghost : Ghost} {state : State}

theorem State.view_setBootEntry {page : Nat} (lower : ppn kernelHeapStart ≤ page)
    (upper : page < ppn kernelHeapMax) (word : Word) :
    (state.setBootEntry page word).view = state.view.setEntry (.heap page) word := by
  apply View.ext <;> try rfl
  funext slot
  cases slot with
  | heap other =>
      by_cases same : other = page
      · subst same
        simp [State.view, View.setEntry, State.slotEntry, State.setBootEntry, lower, upper]
      · simp [State.view, View.setEntry, State.slotEntry, State.setBootEntry, same]
  | user env other => simp [State.view, View.setEntry, State.slotEntry, State.setBootEntry]

/-- A page table of a user page and its frame. -/
theorem tableEntry_page {owner : Directory} {index : Nat} (user : index < pdx userTop) :
    state.view.table (.page owner index) = state.pageDirectory owner index := by
  simp only [State.view, State.tableEntry, user, if_true]

theorem slotEntry_user {owner : Directory} {page : Nat} (user : page < ppn userTop)
    (present : hasPerm (state.pageDirectory owner (page / 1024)) permPresent = true) :
    state.view.entry (.user owner page) =
      state.memory (frameOf (state.pageDirectory owner (page / 1024))) (page % 1024) := by
  simp only [State.view, State.slotEntry, user, present, and_self, if_true]

theorem page_table_lt {page : Nat} (user : page < ppn userTop) :
    page / 1024 < pdx userTop := by
  grind

/-- Directory entries of the kernel in the directories of environments do not matter. -/
theorem State.view_directories {pageDirectory : Directory → Nat → Word}
    (user : ∀ owner index, index < pdx userTop →
      pageDirectory owner index = state.pageDirectory owner index)
    (kernel : ∀ index, pageDirectory .kernel index = state.pageDirectory .kernel index) :
    ({ state with pageDirectory } : State).view = state.view := by
  apply View.ext <;> try rfl
  · funext slot
    cases slot with
    | heap page => rfl
    | user owner page =>
        by_cases inside : page < ppn userTop
        · have same := user owner (page / 1024) (page_table_lt inside)
          simp only [State.view, State.slotEntry, same]
        · simp [State.view, State.slotEntry, inside]
  · funext table
    cases table with
    | disk env index => rfl
    | page owner index =>
        by_cases inside : index < pdx userTop
        · simp only [State.view, State.tableEntry, inside, if_true]
          exact user owner index inside
        · simp [State.view, State.tableEntry, inside]
  · funext index
    simp only [State.view, kernel]

/-- Writing a word of a page table. -/
theorem State.view_setMemory_table (placement : Placement ghost state.view)
    {owner : Directory} {index offset : Nat} (user : index < pdx userTop)
    (bound : offset < 1024)
    (present : hasPerm (state.pageDirectory owner index) permPresent = true)
    (word : Word) :
    (state.setMemory (frameOf (state.pageDirectory owner index)) offset word).view =
      state.view.setEntry (.user owner (index * 1024 + offset)) word := by
  apply View.ext <;> try rfl
  funext slot
  cases slot with
  | heap page => simp [State.view, View.setEntry, State.slotEntry, State.setMemory]
  | user other page =>
      by_cases inside : page < ppn userTop ∧
          hasPerm (state.pageDirectory other (page / 1024)) permPresent = true
      · by_cases same : frameOf (state.pageDirectory other (page / 1024)) =
            frameOf (state.pageDirectory owner index)
        · have tableIndex := page_table_lt inside.1
          have equal := placement.tableDistinct (.page other (page / 1024)) (.page owner index)
            (by rw [tableEntry_page tableIndex]; exact ne_zero_of_present inside.2)
            (by rw [tableEntry_page user]; exact ne_zero_of_present present)
            (by rw [tableEntry_page tableIndex, tableEntry_page user]; exact same)
          rw [Table.page.injEq] at equal
          rcases equal with ⟨rfl, rfl⟩
          by_cases here : page % 1024 = offset
          · have position : page / 1024 * 1024 + offset = page := by omega
            simp [State.view, View.setEntry, State.slotEntry, State.setMemory, inside,
              here, position]
          · have position : page ≠ page / 1024 * 1024 + offset := by omega
            simp [State.view, View.setEntry, State.slotEntry, State.setMemory, inside,
              here, position]
        · have position : ¬(other = owner ∧ page = index * 1024 + offset) := by
            rintro ⟨rfl, rfl⟩
            apply same
            rw [show (index * 1024 + offset) / 1024 = index by omega]
          simp [State.view, View.setEntry, State.slotEntry, State.setMemory, inside, same,
            position]
      · have position : ¬(other = owner ∧ page = index * 1024 + offset) := by
          rintro ⟨rfl, rfl⟩
          apply inside
          rw [show (index * 1024 + offset) / 1024 = index by omega]
          exact ⟨by grind, present⟩
        simp [State.view, View.setEntry, State.slotEntry, State.setMemory, inside, position]

/-- A frame that holds no page table. -/
def NoPageTable (view : View) (frame : Nat) : Prop :=
  ∀ owner index, view.table (.page owner index) ≠ 0 →
    frameOf (view.table (.page owner index)) ≠ frame

/-- Writing a frame that holds no page table. -/
theorem State.view_setPage (noTable : NoPageTable state.view frame)
    (page : Nat → Word) : (state.setPage frame page).view = state.view := by
  apply View.ext <;> try rfl
  funext slot
  cases slot with
  | heap other => rfl
  | user owner other =>
      by_cases inside : other < ppn userTop ∧
          hasPerm (state.pageDirectory owner (other / 1024)) permPresent = true
      · have tableIndex := page_table_lt inside.1
        have different := noTable owner (other / 1024)
          (by rw [tableEntry_page tableIndex]; exact ne_zero_of_present inside.2)
        rw [tableEntry_page tableIndex] at different
        simp [State.view, State.slotEntry, State.setPage, inside, different]
      · simp [State.view, State.slotEntry, State.setPage, inside]

theorem State.setMemory_eq_setPage (frame offset : Nat) (word : Word) :
    state.setMemory frame offset word =
      state.setPage frame (Function.update (state.memory frame) offset word) := rfl

end Stores

end FosKernel
