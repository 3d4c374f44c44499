import FosKernel.Refinement.Tables

/-! # Mapping of pages

`map_frame` and `unmap_frame` on user pages of any directory and on pages of the
kernel heap, in terms of the abstract entries.
-/

namespace FosKernel

/-- The entry that `map_frame` writes. -/
abbrev mapWord (frame : Nat) (perm : Word) : Word :=
  constructEntry frame (perm ||| permPresent)

/-- Enter a frame at a user page. -/
def State.mapUser (state : State) (owner : Directory) (frame address : Nat)
    (perm : Word) : State :=
  (state.addReferences frame 1).setMemory (frameOf (directoryEntry state owner address))
    (ptx address) (mapWord frame perm)

/-- The ways in which a page gets a frame, on the abstract entries. -/
inductive PageMapping (view : View) (slot : Slot) (frame : Nat) (word : Word) : View → Prop
  /-- The page has this frame already. -/
  | same : hasPerm (view.entry slot) permPresent = true → frameOf (view.entry slot) = frame →
      PageMapping view slot frame word view
  /-- The page has no frame, or a buffered one that is forgotten. -/
  | new : hasPerm (view.entry slot) permPresent = false →
      PageMapping view slot frame word (view.attach frame slot word)
  | replaced : hasPerm (view.entry slot) permPresent = true →
      frameOf (view.entry slot) ≠ frame →
      PageMapping view slot frame word
        ((view.detach (frameOf (view.entry slot)) slot).attach frame slot word)

theorem present_mapWord (frame : Nat) (perm : Word) :
    hasPerm (mapWord frame perm) permPresent = true := by
  have bit : permPresent.getLsbD 0 = true := by decide
  rw [hasPerm_present, getLsbD_constructEntry _ _ (by decide), BitVec.getLsbD_or, bit,
    Bool.or_true]

theorem frameOf_mapWord {frame : Nat} {perm : Word} (bound : frame < 2 ^ 20)
    (low : Low perm) : frameOf (mapWord frame perm) = frame :=
  frameOf_constructEntry bound (low.or (by decide))

section Mapping

variable {ghost : Ghost} {state final : State} {owner : Directory}
variable {frame address : Nat} {perm : Word}

theorem State.view_mapUser (placement : Placement ghost state.view) (user : address < userTop)
    (present : hasPerm (directoryEntry state owner address) permPresent = true) :
    (state.mapUser owner frame address perm).view =
      state.view.attach frame (.user owner (ppn address)) (mapWord frame perm) := by
  have counted : Placement ghost (state.addReferences frame 1).view :=
    placement.congr rfl fun _ _ => rfl
  have offset : ptx address < 1024 := Nat.mod_lt _ (by decide)
  have stored := State.view_setMemory_table counted (address_user user).2 offset present
    (mapWord frame perm)
  rw [pdx_mul_add_ptx] at stored
  exact stored

theorem State.decrement_table (frame : Nat) :
    (state.decrement frame).view.table = state.view.table := by
  rw [State.decrement_eq]
  rfl

theorem State.view_unmapUser (placement : Placement ghost state.view)
    (user : address < userTop)
    (present : hasPerm (directoryEntry state owner address) permPresent = true) :
    (state.unmapUser owner frame address).view =
      state.view.detach frame (.user owner (ppn address)) := by
  have counted : Placement ghost (state.decrement frame).view :=
    placement.congr (State.decrement_table frame) fun _ _ => rfl
  have offset : ptx address < 1024 := Nat.mod_lt _ (by decide)
  have same : (state.decrement frame).pageDirectory = state.pageDirectory := by
    rw [State.decrement_eq]
  have presentAfter : hasPerm ((state.decrement frame).pageDirectory owner (pdx address))
      permPresent = true := by
    rw [same]
    exact present
  have stored := State.view_setMemory_table counted (address_user user).2 offset presentAfter 0
  rw [pdx_mul_add_ptx, same, State.view_decrement] at stored
  exact stored

/-! ## `map_frame` on a user page -/

/-- The ways in which a user page gets a frame when its page table exists. -/
inductive UserMapping (state : State) (owner : Directory) (frame address : Nat) (perm : Word) :
    State → Prop
  | same : hasPerm (state.view.entry (.user owner (ppn address))) permPresent = true →
      frameOf (state.view.entry (.user owner (ppn address))) = frame →
      UserMapping state owner frame address perm state
  | new : hasPerm (state.view.entry (.user owner (ppn address))) permPresent = false →
      UserMapping state owner frame address perm (state.mapUser owner frame address perm)
  | replaced : hasPerm (state.view.entry (.user owner (ppn address))) permPresent = true →
      frameOf (state.view.entry (.user owner (ppn address))) ≠ frame →
      UserMapping state owner frame address perm
        ((state.unmapUser owner (frameOf (state.view.entry (.user owner (ppn address))))
          address).mapUser owner frame address perm)

theorem State.unmapUser_pageDirectory (old : Nat) :
    (state.unmapUser owner old address).pageDirectory = state.pageDirectory := by
  rw [State.unmapUser, State.decrement_eq]
  rfl

theorem View.detach_table (view : View) (slot : Slot) :
    (view.detach frame slot).table = view.table := by
  simp only [View.detach, View.setEntry, View.decrement]
  split <;> rfl

theorem View.attach_entry {view : View} {slot other : Slot} {word : Word}
    (different : other ≠ slot) :
    (view.attach frame slot word).entry other = view.entry other := by
  simp [View.attach, View.setEntry, View.addReferences, View.setInfo, different]

theorem View.detach_entry {view : View} {slot other : Slot} (different : other ≠ slot) :
    (view.detach frame slot).entry other = view.entry other := by
  have kept : (view.decrement frame).entry = view.entry := by
    simp only [View.decrement]
    split <;> rfl
  simp [View.detach, View.setEntry, different, kept]

theorem UserMapping.pageMapping (placement : Placement ghost state.view)
    (user : address < userTop)
    (present : hasPerm (directoryEntry state owner address) permPresent = true)
    (mapping : UserMapping state owner frame address perm final) :
    PageMapping state.view (.user owner (ppn address)) frame (mapWord frame perm)
      final.view := by
  cases mapping with
  | same mapped equal => exact .same mapped equal
  | new absent =>
      rw [State.view_mapUser placement user present]
      exact .new absent
  | replaced mapped different =>
      have unmapped : (state.unmapUser owner
          (frameOf (state.view.entry (.user owner (ppn address)))) address).view =
            state.view.detach (frameOf (state.view.entry (.user owner (ppn address))))
              (.user owner (ppn address)) := State.view_unmapUser placement user present
      have placementAfter : Placement ghost (state.unmapUser owner
          (frameOf (state.view.entry (.user owner (ppn address)))) address).view := by
        rw [unmapped]
        exact placement.congr (View.detach_table _ _) fun _ _ => rfl
      have presentAfter : hasPerm (directoryEntry (state.unmapUser owner
          (frameOf (state.view.entry (.user owner (ppn address)))) address) owner address)
          permPresent = true := by
        rw [directoryEntry, State.unmapUser_pageDirectory]
        exact present
      rw [State.view_mapUser placementAfter user presentAfter, unmapped]
      exact .replaced mapped different

/-- The rest of `map_frame` when the page table is known. -/
theorem mapEntry_ok (layout : HeapLayout state.view) (user : address < userTop)
    (present : hasPerm (directoryEntry state owner address) permPresent = true)
    {pointer : TablePointer}
    (points : PointsTo state pointer (frameOf (directoryEntry state owner address)))
    (located : hasPerm (state.view.entry (.user owner (ppn address))) permPresent = true →
      tablePointer state owner address = .ok pointer)
    (returned : (do
      let entry ← observe fun state => load state pointer (ptx address)
      if hasPerm entry permPresent ∧ frameOf entry = frame then return ()
      if hasPerm entry permPresent then unmapFrame owner address
      addReferences frame 1
      store pointer (ptx address) (constructEntry frame (perm ||| permPresent)) :
        Kernel Unit) state = .ok ((), final)) :
    UserMapping state owner frame address perm final := by
  rcases Kernel.bind_observe_ok.mp returned with ⟨word, loaded, ended⟩
  have entry : state.view.entry (.user owner (ppn address)) = word := by
    rw [points.load_ok loaded, entry_user user present]
  by_cases mapped : hasPerm word permPresent = true
  · by_cases same : frameOf word = frame
    · rw [if_pos ⟨mapped, same⟩] at ended
      rcases Kernel.pure_ok.mp ended with ⟨-, rfl⟩
      exact .same (entry ▸ mapped) (entry ▸ same)
    · rw [if_neg fun both => same both.2, if_pos mapped] at ended
      rcases Kernel.bind_ok.mp ended with ⟨_, unmapped, removed, ended⟩
      rcases Kernel.bind_ok.mp ended with ⟨_, counted, referred, stored⟩
      rcases addReferences_ok referred with rfl
      rcases unmapFrame_user layout user removed with
        ⟨rfl, zero | missing⟩ | ⟨-, -, rfl⟩
      · exact absurd (entry ▸ zero) (ne_zero_of_present mapped)
      · rw [located (entry ▸ mapped)] at missing
        exact absurd (Except.ok.inj missing) points.ne_null
      · have directory : directoryEntry (state.unmapUser owner
            (frameOf (state.view.entry (.user owner (ppn address)))) address) owner address =
              directoryEntry state owner address := by
          rw [directoryEntry, State.unmapUser_pageDirectory]
        have kept : PointsTo ((state.unmapUser owner
            (frameOf (state.view.entry (.user owner (ppn address)))) address).addReferences
              frame 1) pointer (frameOf (directoryEntry state owner address)) := by
          refine points.congr ?_
          rw [State.unmapUser, State.decrement_eq]
          rfl
        rw [kept.store_ok stored, ← directory]
        exact .replaced (entry ▸ mapped) (entry ▸ same)
  · rw [if_neg fun both => mapped both.1, if_neg mapped] at ended
    rcases Kernel.bind_ok.mp ended with ⟨_, counted, referred, stored⟩
    rcases addReferences_ok referred with rfl
    have kept : PointsTo (state.addReferences frame 1) pointer
        (frameOf (directoryEntry state owner address)) := points.congr rfl
    rw [kept.store_ok stored]
    exact .new (by rw [entry]; simpa using mapped)

/-- A page without a frame gets one. -/
theorem mapFrame_new (layout : HeapLayout state.view) (user : address < userTop)
    (table : hasPerm (directoryEntry state owner address) permPresent = true)
    (empty : state.view.entry (.user owner (ppn address)) = 0)
    (returned : mapFrame owner frame address perm state = .ok ((), final)) :
    final = state.mapUser owner frame address perm := by
  rcases Kernel.bind_observe_ok.mp returned with ⟨⟨status, pointer⟩, looked, ended⟩
  rcases getPageTable_user layout user looked with
    ⟨zero, -⟩ | ⟨-, rfl, located, found⟩
  · exact absurd zero (ne_zero_of_present table)
  rcases Kernel.bind_ok.mp ended with ⟨same, middle, kept, ended⟩
  rcases Kernel.pure_ok.mp kept with ⟨rfl, rfl⟩
  rcases found with rfl | points
  · rcases Kernel.bind_observe_ok.mp ended with ⟨word, loaded, -⟩
    simp [load] at loaded
  have absent : ¬hasPerm (state.view.entry (.user owner (ppn address))) permPresent = true := by
    rw [empty]
    decide
  rcases mapEntry_ok layout user table points (fun _ => located) ended with mapped | - | mapped
  · exact absurd mapped absent
  · rfl
  · exact absurd mapped absent

/-- A page table is found, or an empty one is made first. -/
theorem mapFrame_user (consistent : Consistent ghost state.view) (user : address < userTop)
    (returned : mapFrame owner frame address perm state = .ok ((), final)) :
    (hasPerm (directoryEntry state owner address) permPresent = true ∧
      UserMapping state owner frame address perm final) ∨
    (directoryEntry state owner address = 0 ∧ ∃ pointer after middle,
      NewTable ghost state owner address pointer after middle ∧
      final = middle.mapUser owner frame address perm) := by
  rcases Kernel.bind_observe_ok.mp returned with ⟨⟨status, pointer⟩, looked, ended⟩
  rcases getPageTable_user consistent.toHeapLayout user looked with
    ⟨zero, rfl, rfl⟩ | ⟨present, rfl, located, found⟩
  · rcases Kernel.bind_ok.mp ended with ⟨table, middle, created, ended⟩
    rcases createPageTable_ok consistent user zero created with ⟨after, new⟩
    have empty : middle.view.entry (.user owner (ppn address)) = 0 := by
      rw [new.background.userEntry]
      exact entry_user_absent zero
    have absent : ¬hasPerm (middle.view.entry (.user owner (ppn address))) permPresent =
        true := by
      rw [empty]
      decide
    refine .inr ⟨zero, table, after, middle, new, ?_⟩
    rcases mapEntry_ok new.background.evolves.consistent.toHeapLayout user new.present
      new.points (fun mapped => absurd mapped absent) ended with mapped | - | mapped
    · exact absurd mapped absent
    · rfl
    · exact absurd mapped absent
  · rcases Kernel.bind_ok.mp ended with ⟨same, middle, kept, ended⟩
    rcases Kernel.pure_ok.mp kept with ⟨rfl, rfl⟩
    rcases found with rfl | points
    · rcases Kernel.bind_observe_ok.mp ended with ⟨word, loaded, -⟩
      simp [load] at loaded
    · exact .inl ⟨present, mapEntry_ok consistent.toHeapLayout user present points
        (fun _ => located) ended⟩

/-! ## Pages of the kernel heap -/

/-- Lookup at a kernel address depends on the page of the address only. -/
theorem getPageTable_roundDown (kernel : checkIfKernelAddress address) :
    getPageTable state owner (roundDown address) = getPageTable state owner address := by
  have page : ppn (roundDown address) = ppn address := by
    simp only [roundDown, ppn]
    omega
  have kernelDown : checkIfKernelAddress (roundDown address) := by
    simp only [checkIfKernelAddress, userTop, roundDown] at kernel ⊢
    omega
  rw [getPageTable_kernel owner kernel, getPageTable_kernel owner kernelDown]
  simp only [kernelPageTable, staticTable, pdx, page]

theorem unmapFrame_roundDown (kernel : checkIfKernelAddress address) :
    unmapFrame owner (roundDown address) = unmapFrame owner address := by
  have page : ppn (roundDown address) = ppn address := by
    simp only [roundDown, ppn]
    omega
  simp only [unmapFrame, getFrameInfo, getPageTable_roundDown kernel, frameAt, ptx, page]

theorem mapFrame_roundDown (heap : HeapAddress (roundDown address))
    (layout : HeapLayout state.view) (kernel : checkIfKernelAddress address)
    (returned : mapFrame .kernel frame address perm state = .ok ((), final)) :
    mapFrame .kernel frame (roundDown address) perm state = .ok ((), final) := by
  have page : ptx (roundDown address) = ptx address := by
    simp only [roundDown, ppn, ptx]
    omega
  rcases Kernel.bind_observe_ok.mp returned with ⟨⟨status, pointer⟩, looked, ended⟩
  rw [← getPageTable_roundDown kernel] at looked
  refine Kernel.bind_observe_ok.mpr ⟨(status, pointer), looked, ?_⟩
  rw [getPageTable_kernel _ heap.kernel] at looked
  rcases kernelPageTable_heap layout heap looked with ⟨rfl, rfl⟩
  simp only [reduceCtorEq, if_false] at ended ⊢
  simp only [page, unmapFrame_roundDown kernel]
  exact ended

theorem mapFrame_heap (layout : HeapLayout state.view) (heap : HeapAddress address)
    (returned : mapFrame .kernel frame address perm state = .ok ((), final)) :
    PageMapping state.view (.heap (ppn address)) frame (mapWord frame perm) final.view ∧
      MapOnly state final := by
  rcases Kernel.bind_observe_ok.mp returned with ⟨⟨status, pointer⟩, looked, ended⟩
  rw [getPageTable_kernel _ heap.kernel] at looked
  rcases kernelPageTable_heap layout heap looked with ⟨rfl, rfl⟩
  rcases Kernel.bind_ok.mp ended with ⟨pointer, _, kept, ended⟩
  rcases Kernel.pure_ok.mp kept with ⟨rfl, rfl⟩
  rcases Kernel.bind_observe_ok.mp ended with ⟨word, loaded, ended⟩
  simp only [load, Except.ok.injEq, pdx_mul_add_ptx] at loaded
  have entry : state.view.entry (.heap (ppn address)) = word :=
    heap.slotEntry.trans loaded
  have page := heapAddress_page heap
  by_cases mapped : hasPerm word permPresent = true
  · by_cases same : frameOf word = frame
    · rw [if_pos ⟨mapped, same⟩] at ended
      rcases Kernel.pure_ok.mp ended with ⟨-, rfl⟩
      exact ⟨.same (entry ▸ mapped) (entry ▸ same), .refl _⟩
    · rw [if_neg fun both => same both.2, if_pos mapped] at ended
      rcases Kernel.bind_ok.mp ended with ⟨_, unmapped, removed, ended⟩
      rcases Kernel.bind_ok.mp ended with ⟨_, counted, referred, stored⟩
      rcases addReferences_ok referred with rfl
      rcases store_boot_ok stored with rfl
      rcases unmapFrame_heap layout heap removed with ⟨zero, -⟩ | ⟨-, rfl⟩
      · exact absurd (entry ▸ zero) (ne_zero_of_present mapped)
      · have view : ((((state.unmapHeap (frameOf (state.view.entry (.heap (ppn address))))
            address).addReferences frame 1).setBootEntry (pdx address * 1024 + ptx address)
              (mapWord frame perm)).view) =
            (state.view.detach (frameOf (state.view.entry (.heap (ppn address))))
              (.heap (ppn address))).attach frame (.heap (ppn address))
                (mapWord frame perm) := by
          rw [pdx_mul_add_ptx, State.view_setBootEntry page.1 page.2,
            State.view_addReferences, State.unmapHeap,
            State.view_setBootEntry page.1 page.2, State.view_decrement]
          rfl
        refine ⟨?_, ?_⟩
        · rw [view]
          exact .replaced (entry ▸ mapped) (entry ▸ same)
        · rw [State.unmapHeap, State.decrement_eq]
          exact ⟨_, _, _, _, rfl⟩
  · rw [if_neg fun both => mapped both.1, if_neg mapped] at ended
    rcases Kernel.bind_ok.mp ended with ⟨_, counted, referred, stored⟩
    rcases addReferences_ok referred with rfl
    rcases store_boot_ok stored with rfl
    refine ⟨?_, ⟨_, _, _, _, rfl⟩⟩
    rw [pdx_mul_add_ptx, State.view_setBootEntry page.1 page.2, State.view_addReferences]
    exact .new (by rw [entry]; simpa using mapped)

end Mapping

end FosKernel
