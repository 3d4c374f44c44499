import FosKernel.Refinement.Entries

/-! # Frame functions

The states in which the functions on frames return.
-/

namespace FosKernel

open LinkedList

variable {ghost : Ghost} {state final : State} {frame address : Nat}

/-! ## Allocation and release -/

/-- With no owner recorded in a buffered frame, only other frames are handed out. -/
theorem allocateFrame_ok
    (anonymous : ∀ frame, (state.framesInfo frame).isBuffered = true →
      (state.framesInfo frame).environment = none)
    (returned : allocateFrame state = .ok (frame, final)) :
    state.freeFrameList.first = some frame ∧
      (state.framesInfo frame).isBuffered = false ∧ final = state.allocate frame := by
  have ended := Kernel.bind_get_ok.mp returned
  cases first : state.freeFrameList.first with
  | none =>
      rw [first] at ended
      exact (Kernel.throw_ok.mp ended).elim
  | some head =>
      rw [first] at ended
      replace ended := Kernel.bind_get_ok.mp (Kernel.bind_modify_ok.mp ended)
      have info : (state.withFree (listRemove state.free head)).framesInfo =
        state.framesInfo := rfl
      by_cases buffered : (state.framesInfo head).isBuffered = true
      · simp only [info, buffered, if_true, anonymous head buffered] at ended
        rcases Kernel.bind_ok.mp ended with ⟨_, _, cleared, -⟩
        exact (Kernel.throw_ok.mp cleared).elim
      · simp only [info, buffered, Bool.false_eq_true, if_false] at ended
        rcases Kernel.bind_ok.mp ended with ⟨_, _, cleared, ended⟩
        rcases Kernel.pure_ok.mp ended with ⟨rfl, rfl⟩
        exact ⟨rfl, by simpa using buffered, (Kernel.modify_ok.mp cleared).symm⟩

theorem freeFrame_ok (returned : freeFrame frame state = .ok ((), final)) :
    final = state.release frame := by
  exact (Kernel.modify_ok.mp (Kernel.bind_modify_ok.mp returned)).symm

theorem addReferences_ok {amount : Nat}
    (returned : addReferences frame amount state = .ok ((), final)) :
    final = state.addReferences frame amount :=
  (Kernel.modify_ok.mp returned).symm

theorem decrementReferences_ok
    (returned : decrementReferences frame state = .ok ((), final)) :
    final = state.decrement frame := by
  rcases Kernel.bind_ok.mp returned with ⟨_, middle, counted, ended⟩
  rcases addReferences_ok counted with rfl
  rcases Kernel.ite_ok.mp (Kernel.bind_get_ok.mp ended) with ⟨zero, freed⟩ | ⟨nonzero, kept⟩
  · simp only [State.decrement, zero, if_true]
    exact freeFrame_ok freed
  · simp only [State.decrement, nonzero, if_false]
    exact (Kernel.pure_ok.mp kept).2.symm

/-- An allocated frame is off the lists and nothing refers to it. -/
structure Fresh (ghost : Ghost) (view : View) (frame : Nat) : Prop where
  managed : frame ∈ ghost.managed
  unlisted : ¬ghost.Listed frame
  unheld : ghost.holders frame = ∅
  zero : view.info frame = FrameInfo.zero

theorem allocateFrame_consistent (consistent : Consistent ghost state.view)
    (returned : allocateFrame state = .ok (frame, final)) :
    frame ∈ ghost.free ∧ final = state.allocate frame ∧
      Consistent { ghost with free := ghost.free.erase frame } final.view ∧
      Fresh { ghost with free := ghost.free.erase frame } final.view frame := by
  rcases allocateFrame_ok (fun frame _ => consistent.anonymous frame) returned with
    ⟨first, plain, rfl⟩
  have member : frame ∈ ghost.free := consistent.lists.first.first_mem first
  refine ⟨member, rfl, consistent.allocate member plain, ?_⟩
  exact
    { managed := consistent.listedManaged frame (.inl member)
      unlisted := by
        rintro (inFree | inModified)
        · rw [consistent.lists.first.nodup.mem_erase_iff] at inFree
          exact inFree.1 rfl
        · exact consistent.lists.apart frame member inModified
      unheld := consistent.idle frame (.inl member) plain
      zero := by
        simp [State.view, State.allocate] }

/-! ## Lookup of user entries -/

theorem address_user {address : Nat} (user : address < userTop) :
    ppn address < ppn userTop ∧ pdx address < pdx userTop := by
  grind

/-- A user entry, through the page table. -/
theorem entry_user {owner : Directory} (user : address < userTop)
    (present : hasPerm (directoryEntry state owner address) permPresent = true) :
    state.view.entry (.user owner (ppn address)) =
      state.memory (frameOf (directoryEntry state owner address)) (ptx address) :=
  slotEntry_user (address_user user).1 present

theorem entry_user_absent {owner : Directory}
    (absent : directoryEntry state owner address = 0) :
    state.view.entry (.user owner (ppn address)) = 0 := by
  have notPresent : hasPerm (state.pageDirectory owner (ppn address / 1024))
      permPresent = false := by
    rw [show state.pageDirectory owner (ppn address / 1024) = 0 from absent]
    decide
  simp [State.view, State.slotEntry, notPresent]

/-- The page table that `get_page_table` finds for a user page. -/
theorem getPageTable_user (layout : HeapLayout state.view) {owner : Directory}
    (user : address < userTop) {status : TableStatus} {pointer : TablePointer}
    (returned : getPageTable state owner address = .ok (status, pointer)) :
    (directoryEntry state owner address = 0 ∧ status = .notExist ∧ pointer = .null) ∨
      hasPerm (directoryEntry state owner address) permPresent = true ∧ status = .inMemory ∧
        tablePointer state owner address = .ok pointer ∧
        (pointer = .null ∨
          PointsTo state pointer (frameOf (directoryEntry state owner address))) := by
  rcases Except.bind_ok.mp returned with ⟨found, located, ended⟩
  rcases tableStatus_ok ended with ⟨present, rfl, rfl⟩ | ⟨zero, rfl, rfl⟩
  · exact .inr ⟨present, rfl, located, tablePointer_user layout user located⟩
  · exact .inl ⟨zero, rfl, rfl⟩

/-- What `get_frame_info` finds for a user page: the entry, unless the reverse lookup
of the page table failed. -/
theorem getFrameInfo_user (layout : HeapLayout state.view) {owner : Directory}
    (user : address < userTop) {info : Option Nat} {pointer : TablePointer}
    (returned : getFrameInfo state owner address = .ok (info, pointer)) :
    (info = none ∧ pointer = .null ∧
        (directoryEntry state owner address = 0 ∨
          tablePointer state owner address = .ok .null)) ∨
      hasPerm (directoryEntry state owner address) permPresent = true ∧
        PointsTo state pointer (frameOf (directoryEntry state owner address)) ∧
        info = entryFrame (state.view.entry (.user owner (ppn address))) := by
  rcases Except.bind_ok.mp returned with ⟨⟨status, found⟩, located, ended⟩
  rcases Except.bind_ok.mp ended with ⟨frameInfo, read, finished⟩
  simp only [pure, Except.pure, Except.ok.injEq, Prod.mk.injEq] at finished
  rcases finished with ⟨rfl, rfl⟩
  rcases getPageTable_user layout user located with
    ⟨zero, rfl, rfl⟩ | ⟨present, rfl, pointerFound, null | points⟩
  · rcases frameAt_ok read with ⟨-, rfl⟩ | ⟨nonnull, -⟩
    · exact .inl ⟨rfl, rfl, .inl zero⟩
    · exact absurd rfl nonnull
  · subst null
    rcases frameAt_ok read with ⟨-, rfl⟩ | ⟨nonnull, -⟩
    · exact .inl ⟨rfl, rfl, .inr pointerFound⟩
    · exact absurd rfl nonnull
  · rcases frameAt_ok read with ⟨null, -⟩ | ⟨-, word, loaded, equal, -⟩
    · exact absurd null points.ne_null
    · rw [points.load_ok loaded, ← entry_user user present] at equal
      exact .inr ⟨present, points, equal⟩

/-! ## Permission bits -/

theorem permissionsTable_ok (layout : HeapLayout state.view) {env : Nat} {name : String}
    (user : address < userTop) {found : Option TablePointer}
    (returned : permissionsTable state name env address = .ok found) :
    (found = none ∧ directoryEntry state env address = 0) ∨
      ∃ pointer, found = some pointer ∧
        hasPerm (directoryEntry state env address) permPresent = true ∧
        (pointer = .null ∨
          PointsTo state pointer (frameOf (directoryEntry state env address))) := by
  simp only [permissionsTable] at returned
  split at returned
  · next present =>
    rcases Except.bind_ok.mp returned with ⟨pointer, located, ended⟩
    simp only [pure, Except.pure, Except.ok.injEq] at ended
    exact .inr ⟨pointer, ended.symm, present, tablePointer_user layout user located⟩
  · split at returned
    · simp at returned
    · next zero =>
      simp only [Except.ok.injEq] at returned
      exact .inl ⟨returned.symm, by simpa using zero⟩

theorem ptGetPagePermissions_ok (layout : HeapLayout state.view) {env : Nat}
    (user : address < userTop) {permissions : Word}
    (returned : ptGetPagePermissions state env address = .ok permissions) :
    permissions = state.view.entry (.user env (ppn address)) &&& 0xFFF#32 := by
  rcases Except.bind_ok.mp returned with ⟨found, located, ended⟩
  rcases permissionsTable_ok layout user located with
    ⟨rfl, zero⟩ | ⟨pointer, rfl, present, null | points⟩
  · simp only [pure, Except.pure, Except.ok.injEq] at ended
    rw [entry_user_absent zero, ← ended]
    decide
  · subst null
    rcases Except.bind_ok.mp ended with ⟨word, loaded, -⟩
    simp [load] at loaded
  · rcases Except.bind_ok.mp ended with ⟨word, loaded, finished⟩
    simp only [pure, Except.pure, Except.ok.injEq] at finished
    rw [← finished, points.load_ok loaded, entry_user user present]

theorem ptSetPagePermissions_ok (layout : HeapLayout state.view) {env : Nat}
    (user : address < userTop) {set clear : Word}
    (returned : ptSetPagePermissions env address set clear state = .ok ((), final)) :
    hasPerm (directoryEntry state env address) permPresent = true ∧
      final = state.setMemory (frameOf (directoryEntry state env address)) (ptx address)
        (changePerm (state.view.entry (.user env (ppn address))) set clear) := by
  rcases Kernel.bind_observe_ok.mp returned with ⟨found, located, ended⟩
  rcases permissionsTable_ok layout user located with
    ⟨rfl, -⟩ | ⟨pointer, rfl, present, null | points⟩
  · exact (Kernel.throw_ok.mp ended).elim
  · subst null
    rcases Kernel.bind_observe_ok.mp ended with ⟨word, loaded, -⟩
    simp [load] at loaded
  · rcases Kernel.bind_observe_ok.mp ended with ⟨word, loaded, stored⟩
    refine ⟨present, ?_⟩
    rw [points.store_ok stored, points.load_ok loaded, entry_user user present]

/-! ## Unmapping and mapping -/

theorem store_boot_ok {index offset : Nat} {word : Word}
    (returned : store (.boot index) offset word state = .ok ((), final)) :
    final = state.setBootEntry (index * 1024 + offset) word :=
  (Kernel.modify_ok.mp returned).symm

/-- Clear the entry of a heap page. -/
def State.unmapHeap (state : State) (frame address : Nat) : State :=
  (state.decrement frame).setBootEntry (ppn address) 0

theorem unmapFrame_heap (layout : HeapLayout state.view) (heap : HeapAddress address)
    (returned : unmapFrame .kernel address state = .ok ((), final)) :
    (state.view.entry (.heap (ppn address)) = 0 ∧ final = state) ∨
      state.view.entry (.heap (ppn address)) ≠ 0 ∧
        final = state.unmapHeap (frameOf (state.view.entry (.heap (ppn address)))) address := by
  rcases Kernel.bind_observe_ok.mp returned with ⟨⟨info, pointer⟩, looked, ended⟩
  rcases Except.bind_ok.mp looked with ⟨⟨status, found⟩, located, read⟩
  rw [getPageTable_kernel _ heap.kernel] at located
  rcases kernelPageTable_heap layout heap located with ⟨rfl, rfl⟩
  rcases Except.bind_ok.mp read with ⟨frameInfo, entryRead, finished⟩
  simp only [pure, Except.pure, Except.ok.injEq, Prod.mk.injEq] at finished
  rcases finished with ⟨rfl, rfl⟩
  rcases frameAt_ok entryRead with ⟨null, -⟩ | ⟨-, word, loaded, equal, -⟩
  · simp at null
  · simp only [load, Except.ok.injEq, pdx_mul_add_ptx] at loaded
    have entry : state.view.entry (.heap (ppn address)) = word :=
      heap.slotEntry.trans loaded
    rw [entry]
    cases frameInfo with
    | none =>
        refine .inl ⟨entryFrame_eq_none.mp equal.symm, ?_⟩
        exact (Kernel.pure_ok.mp ended).2.symm
    | some frame =>
        rcases entryFrame_eq_some.mp equal.symm with ⟨nonzero, rfl⟩
        rcases Kernel.bind_ok.mp ended with ⟨_, middle, decremented, stored⟩
        rcases decrementReferences_ok decremented with rfl
        refine .inr ⟨nonzero, ?_⟩
        rw [store_boot_ok stored, pdx_mul_add_ptx]
        rfl

/-- Clear the entry of a user page. -/
def State.unmapUser (state : State) (owner : Directory) (frame address : Nat) : State :=
  (state.decrement frame).setMemory (frameOf (directoryEntry state owner address))
    (ptx address) 0

theorem unmapFrame_user (layout : HeapLayout state.view) {owner : Directory}
    (user : address < userTop)
    (returned : unmapFrame owner address state = .ok ((), final)) :
    (final = state ∧
        (state.view.entry (.user owner (ppn address)) = 0 ∨
          tablePointer state owner address = .ok .null)) ∨
      hasPerm (directoryEntry state owner address) permPresent = true ∧
        state.view.entry (.user owner (ppn address)) ≠ 0 ∧
        final = state.unmapUser owner
          (frameOf (state.view.entry (.user owner (ppn address)))) address := by
  rcases Kernel.bind_observe_ok.mp returned with ⟨⟨info, pointer⟩, looked, ended⟩
  rcases getFrameInfo_user layout user looked with
    ⟨rfl, rfl, missing⟩ | ⟨present, points, rfl⟩
  · exact .inl ⟨(Kernel.pure_ok.mp ended).2.symm, missing.imp entry_user_absent id⟩
  · by_cases zero : state.view.entry (.user owner (ppn address)) = 0
    · rw [entryFrame_eq_none.mpr zero] at ended
      exact .inl ⟨(Kernel.pure_ok.mp ended).2.symm, .inl zero⟩
    · rw [entryFrame_eq_some.mpr ⟨zero, rfl⟩] at ended
      rcases Kernel.bind_ok.mp ended with ⟨_, middle, decremented, stored⟩
      rcases decrementReferences_ok decremented with rfl
      have kept : PointsTo (state.decrement
          (frameOf (state.view.entry (.user owner (ppn address))))) pointer
          (frameOf (directoryEntry state owner address)) := by
        refine points.congr ?_
        rw [State.decrement_eq]
      exact .inr ⟨present, zero, kept.store_ok stored⟩

/-- Enter a frame at a heap page. -/
def State.mapHeap (state : State) (frame address : Nat) : State :=
  (state.addReferences frame 1).setBootEntry (ppn address)
    (constructEntry frame (permPresent ||| permWriteable ||| permPresent))

/-- Mapping a heap page that is free. -/
theorem mapHeapFrame_ok (layout : HeapLayout state.view) (heap : HeapAddress address)
    (free : state.view.entry (.heap (ppn address)) = 0) {nested : Nat → Kernel Nat}
    (returned : mapHeapFrame nested frame address state = .ok ((), final)) :
    final = state.mapHeap frame address := by
  rcases Kernel.bind_observe_ok.mp returned with ⟨⟨status, pointer⟩, looked, ended⟩
  rw [getPageTable_kernel _ heap.kernel] at looked
  rcases kernelPageTable_heap layout heap looked with ⟨rfl, rfl⟩
  rcases Kernel.bind_ok.mp ended with ⟨pointer, _, kept, ended⟩
  rcases Kernel.pure_ok.mp kept with ⟨rfl, rfl⟩
  rcases Kernel.bind_observe_ok.mp ended with ⟨word, loaded, ended⟩
  simp only [load, Except.ok.injEq, pdx_mul_add_ptx] at loaded
  have zero : word = 0 := loaded.symm.trans (heap.slotEntry.symm.trans free)
  have absent : hasPerm word permPresent = false := by
    rw [zero]
    decide
  simp only [absent, Bool.false_eq_true, false_and, if_false] at ended
  rcases Kernel.bind_ok.mp ended with ⟨_, middle, counted, stored⟩
  rcases addReferences_ok counted with rfl
  rw [store_boot_ok stored, pdx_mul_add_ptx]
  rfl

end FosKernel
