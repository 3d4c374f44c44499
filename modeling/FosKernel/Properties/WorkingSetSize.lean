import FosKernel.Properties.ClockHand
import FosKernel.Properties.NextFit
import FosKernel.Refinement.BootForm
import FosKernel.Refinement.NewEnvironment
import FosKernel.Refinement.Stops

/-! # The size of a working set

`env_create` takes the size from the user: as a modulus, as a factor in a 32-bit product
and as the length of the window in which the user sees the array.
-/

namespace FosKernel.WorkingSetSize

/-! ## Division by zero -/

section Stops

variable {allowed : Stop → Prop} (admits : Admits allowed)

include admits

theorem addTableToTableWorkingSet_raises (env : Nat) :
    Raises allowed (addTableToTableWorkingSet env) :=
  .bind (.modify _) fun _ => .bind .get fun _ =>
    .ite (.throw (admits.panic _ (by decide) (by decide))) (.pure _)

theorem clearModified_raises (env : Nat) (indices : List Nat) :
    Raises allowed (clearModified env indices) := by
  induction indices with
  | nil => exact .pure _
  | cons index indices induction =>
      refine .bind .get fun _ => .ite ?_ induction
      exact .bind (raises_observe fun _ => getPageTable_raises admits _ _ _) fun _ =>
        .bind (raises_observe fun _ => load_raises admits _ _ _) fun _ =>
          .bind (store_raises admits _ _ _) fun _ => induction

variable (endless : allowed .endless)

include endless

theorem createUserDirectory_raises : Raises allowed createUserDirectory := by
  refine .bind (kmalloc_raises admits endless _) fun address => ?_
  have stop : Raises allowed
      (throw (.panic "NOT ENOUGH KERNEL HEAP SPACE") : Kernel PUnit) :=
    .throw (admits.panic _ (by decide) (by decide))
  exact .ite (.bind stop fun _ => .pure _) (.pure _)

theorem prepareEnvironment_raises (env : Nat) (program : Program) (pageWSSize : Nat) :
    Raises allowed (prepareEnvironment env program pageWSSize) :=
  .bind (.modify _) fun _ => .bind (createUserDirectory_raises admits endless) fun _ =>
    .bind (raises_observe fun _ => kheapPhysicalAddress_raises admits _ _) fun _ =>
      .bind (.modify _) fun _ =>
        .bind (raises_observe fun _ => kernelFrame_raises admits _ _) fun _ =>
          .bind (.modify _) fun _ => .pure _

theorem sharePage_raises (env sva dva : Nat) : Raises allowed (sharePage env sva dva) :=
  .bind (raises_observe fun _ => kheapPhysicalAddress_raises admits _ _) fun _ =>
    .bind (raises_observe fun _ => getPageTable_raises admits _ _ _) fun _ =>
      .ite (.bind (createPageTable_raises admits endless _ _) fun _ => store_raises admits _ _ _)
        (.bind (.pure _) fun _ => store_raises admits _ _ _)

theorem shareWSAtUserSpace_raises (env : Nat) : Raises allowed (shareWSAtUserSpace env) := by
  refine .bind .get fun state => .bind (kmalloc_raises admits endless _) fun address => ?_
  have pages : ∀ addresses, Raises allowed (Kernel.forEach
      (fun sva => sharePage env sva (userPagesWSStart + (sva - address))) addresses) :=
    fun addresses => raises_forEach (fun _ => sharePage_raises admits endless _ _ _) addresses
  exact .ite (.bind (.throw admits.badPointer) fun _ => .bind (.modify _) fun _ =>
      .ite (.bind (.throw endless) fun _ => pages _) (pages _))
    (.bind (.modify _) fun _ => .ite (.bind (.throw endless) fun _ => pages _) (pages _))

theorem loadtimeMapFrame_raises (directory : Directory) (frame address : Nat) (perm : Word) :
    Raises allowed (loadtimeMapFrame directory frame address perm) := by
  have entered : ∀ pointer, Raises allowed (do
      addReferences frame 1
      store pointer (ptx address) (constructEntry frame (perm ||| permPresent))) :=
    fun pointer => .bind (addReferences_raises _ _) fun _ => store_raises admits _ _ _
  exact .bind (raises_observe fun _ => tablePointer_raises admits _ _ _) fun _ =>
    .bind .get fun _ => .ite (.bind (createPageTable_raises admits endless _ _) entered) (.bind (.pure _) entered)

theorem addProgramPage_raises (env address : Nat) (page : Nat → Word) :
    Raises allowed (addProgramPage env address page) :=
  .bind (pfAddEnvPage_raises admits endless _ _ _) fun _ =>
    .ite (.throw (admits.panic _ (by decide) (by decide))) (.pure _)

theorem addZeroPage_raises (env address : Nat) : Raises allowed (addZeroPage env address) :=
  .bind (pfAddEmptyEnvPage_raises admits endless _ _ _) fun _ =>
    .ite (.throw (admits.panic _ (by decide) (by decide))) (.pure _)

theorem addWholePages_raises (env : Nat) (segment : ProgramSegment) (count : Nat)
    (addresses : List Nat) : Raises allowed (addWholePages env segment count addresses) := by
  induction addresses generalizing count with
  | nil => exact .pure _
  | cons address addresses induction =>
      exact .bind (addProgramPage_raises admits endless _ _ _) fun _ => induction _

theorem addSegmentPages_raises (env : Nat) (segment : ProgramSegment) :
    Raises allowed (addSegmentPages env segment) :=
  .bind (addProgramPage_raises admits endless _ _ _) fun _ =>
    .bind (addWholePages_raises admits endless _ _ _ _) fun _ =>
      .bind (addProgramPage_raises admits endless _ _ _) fun _ =>
        raises_forEach (fun _ => addZeroPage_raises admits endless _ _) _

end Stops

section Division

variable {env size : Nat}

/-- The size of the working set during the creation. -/
def HasSize (env size : Nat) (state : State) : Prop := (state.envs env).pageWSMaxSize = size

theorem hasSize_loading (env size : Nat) : Loading env (HasSize env size) where
  quiet before after quiet holds := by
    rw [HasSize, quiet.envs]
    exact holds
  record state value same holds := by
    rw [HasSize, ← holds, ← same]
    simp [State.setEnv]

/-- Only a division by zero needs a size of zero. -/
def NoDivision (stop : Stop) : Prop := stop ≠ divideError

theorem noDivision_endless : NoDivision .endless := nofun

variable (positive : size ≠ 0)

include positive

theorem nextLastWSIndex_within :
    RaisesWithin (HasSize env size) NoDivision (nextLastWSIndex env) := by
  intro state holds stop raised
  have nonzero : (state.envs env).pageWSMaxSize ≠ 0 := holds ▸ positive
  change (if (state.envs env).pageWSMaxSize = 0 then _ else setLastWSIndex env _) state = _
    at raised
  rw [if_neg nonzero] at raised
  cases raised

theorem loadPages_within (lastTable : Nat) (addresses : List Nat) :
    RaisesWithin (HasSize env size) NoDivision (loadPages env lastTable addresses) := by
  have loading := hasSize_loading env size
  induction addresses generalizing lastTable with
  | nil => exact .ofRaises (.pure _)
  | cons address addresses induction =>
      refine .bind (.ofRaises (allocateFrame_raises admits_divideError))
        (loading.ofQuiet allocateFrame_quiet) fun _ => ?_
      refine .bind
        (.ofRaises (loadtimeMapFrame_raises admits_divideError noDivision_endless _ _ _ _))
        (loading.loadtimeMapFrame _ _ _ _) fun _ => ?_
      refine .bind (.ofRaises (.modify _)) (loading.setRecord fun _ => rfl) fun _ => ?_
      refine .bind (nextLastWSIndex_within positive) loading.nextLastWSIndex fun _ => ?_
      refine .ite ?_ (induction _)
      exact .bind (.ofRaises (addTableToTableWorkingSet_raises admits_divideError _))
        loading.addTableToTableWorkingSet fun _ => induction _

theorem loadSegments_within (remaining lastTable : Nat) (segments : List ProgramSegment) :
    RaisesWithin (HasSize env size) NoDivision
      (loadSegments env remaining lastTable segments) := by
  have loading := hasSize_loading env size
  induction segments generalizing remaining lastTable with
  | nil => exact .ofRaises (.pure _)
  | cons segment segments induction =>
      refine .bind (.ofRaises .get) .get fun _ => ?_
      refine .bind ?_ (loading.programSegmentAllocMapCopyWorkingset _ segment _) fun _ => ?_
      · refine .bind (loadPages_within positive _ _) (loading.loadPages _ _) fun _ => ?_
        exact .ofRaises (.bind (raises_forEach (fun _ =>
          writeUserPage_raises admits_divideError _ _ _) _) fun _ => .pure _)
      · exact .bind (.ofRaises (addSegmentPages_raises admits_divideError noDivision_endless _ _))
          (loading.addSegmentPages segment) fun _ => induction _ _

theorem loadStack_within : RaisesWithin (HasSize env size) NoDivision (loadStack env) := by
  have loading := hasSize_loading env size
  refine .bind (.ofRaises (allocateFrame_raises admits_divideError))
    (loading.ofQuiet allocateFrame_quiet) fun _ => ?_
  refine .bind (.ofRaises (loadtimeMapFrame_raises admits_divideError noDivision_endless _ _ _ _))
    (loading.loadtimeMapFrame _ _ _ _) fun _ => ?_
  refine .bind (.ofRaises (writeUserPage_raises admits_divideError _ _ _))
    (loading.ofQuiet (writeUserPage_quiet _ _ _)) fun _ => ?_
  refine .bind (.ofRaises .get) .get fun _ => ?_
  refine .bind (.ofRaises (envPageWsSetEntry_raises admits_divideError _ _ _))
    (loading.envPageWsSetEntry _ _) fun _ => ?_
  refine .bind (nextLastWSIndex_within positive) loading.nextLastWSIndex fun _ => ?_
  exact .ofRaises (.bind (pfAddEmptyEnvPage_raises admits_divideError noDivision_endless _ _ _)
    fun _ => .pure _)

end Division

/-! ## A safe size -/

/-- The array of `size` elements is on pages of the kernel heap that were free before. -/
structure Room (before : State) (address size : Nat) (after : State) : Prop where
  inside : address + sizeofWorkingSetElement * size ≤ kernelHeapMax
  free : ∀ index, index * 4096 < sizeofWorkingSetElement * size →
    before.bootTables (ppn address + index) = 0
  mapped : ∀ index, index * 4096 < sizeofWorkingSetElement * size →
    after.bootTables (ppn address + index) ≠ 0

/-- `env_create` divides by nothing, its array has room for the elements, and the user
sees it below the stack. -/
structure SizeSafe (env : Nat) (program : Program) (size : Nat) (state : State) : Prop where
  divides : envCreate env program size state ≠ .error divideError
  room : ∀ frame middle address allocated,
    prepareEnvironment env program size state = .ok (frame, middle) →
    createUserPageWS size middle = .ok (address, allocated) → Room middle address size allocated
  window : ∀ frame middle shared,
    prepareEnvironment env program size state = .ok (frame, middle) →
    shareWSAtUserSpace env middle = .ok ((), shared) →
    ∀ page, ReadOnly (shared.view.entry (.user env page)) → page < ppn ustackBottom

/-- The environment is created, or the processor stops at a division by zero. -/
def Decided (env : Nat) (program : Program) (size : Nat) (state : State) : Prop :=
  (∃ final, envCreate env program size state = .ok ((), final)) ∨
    envCreate env program size state = .error divideError

/-- A size from 1 to 16725 whose array the search of `kmalloc` does not put across the end
of the kernel heap. -/
structure SizeFits (env : Nat) (program : Program) (size : Nat) (state : State) : Prop where
  positive : 1 ≤ size
  bound : size ≤ 16725
  inside : ∀ frame middle, prepareEnvironment env program size state = .ok (frame, middle) →
    ¬WrapsAround middle.view (roundUp (sizeofWorkingSetElement * size))

section Sizes

variable {ghost : Ghost} {state : State} {env : Nat} {program : Program} {size : Nat}

theorem completeEnvironment_hasSize (frame : Nat) :
    Preserves (HasSize env size) (completeEnvironment env frame) := by
  have loading := hasSize_loading env size
  exact .bind (loading.setRecord fun _ => rfl) fun _ =>
    .bind (loading.setTables fun state => { Quiet.refl state with }) fun _ =>
      loading.setTables fun state => { Quiet.refl state with }

theorem envCreate_parts {final : State}
    (returned : envCreate env program size state = .ok ((), final)) :
    ∃ frame middle shared complete,
      prepareEnvironment env program size state = .ok (frame, middle) ∧
      shareWSAtUserSpace env middle = .ok ((), shared) ∧
      completeEnvironment env frame shared = .ok ((), complete) ∧
      loadProgram env program size complete = .ok ((), final) := by
  rw [envCreate_eq] at returned
  rcases Kernel.bind_ok.mp returned with ⟨frame, middle, prepared, returned⟩
  rcases Kernel.bind_ok.mp returned with ⟨_, shared, window, returned⟩
  rcases Kernel.bind_ok.mp returned with ⟨_, complete, completed, returned⟩
  exact ⟨frame, middle, shared, complete, prepared, window, completed, returned⟩

/-- The stack page needs an element of the array. -/
theorem loadProgram_positive {final : State} (sized : HasSize env size state)
    (returned : loadProgram env program size state = .ok ((), final)) : size ≠ 0 := by
  have loading := hasSize_loading env size
  rcases Kernel.bind_ok.mp returned with ⟨_, loaded, segments, returned⟩
  rcases Kernel.bind_ok.mp returned with ⟨_, clean, cleared, returned⟩
  rcases Kernel.bind_ok.mp returned with ⟨frame, allocated, first, returned⟩
  rcases Kernel.bind_ok.mp returned with ⟨_, mapped, second, returned⟩
  rcases Kernel.bind_ok.mp returned with ⟨_, written, third, returned⟩
  replace returned := Kernel.bind_get_ok.mp returned
  rcases Kernel.bind_ok.mp returned with ⟨_, entered, entry, -⟩
  have sizedLoaded := loading.loadSegments _ _ _ _ _ _ sized segments
  have sizedClean := loading.clearModified _ _ _ _ sizedLoaded cleared
  have sizedAllocated := loading.ofQuiet allocateFrame_quiet _ _ _ sizedClean first
  have sizedMapped := loading.loadtimeMapFrame _ _ _ _ _ _ _ sizedAllocated second
  have sizedWritten := loading.ofQuiet (writeUserPage_quiet _ _ _) _ _ _ sizedMapped third
  have slot := ClockHand.envPageWsSetEntry_slot entry
  rw [sizedWritten] at slot
  omega

section Created

variable (consistent : Consistent ghost state.view) (free : FreeEnv ghost state env)

include consistent free

theorem prepared_hasSize {frame : Nat} {middle : State}
    (prepared : prepareEnvironment env program size state = .ok (frame, middle)) :
    HasSize env size middle := by
  rcases free.prepare consistent prepared with ⟨after, mapped, keeps, tables, record⟩
  rw [HasSize, record]

theorem envCreate_divides (positive : size ≠ 0) :
    envCreate env program size state ≠ .error divideError := by
  intro stopped
  rw [envCreate_eq] at stopped
  change (prepareEnvironment env program size state >>= fun pair => _) = _ at stopped
  cases prepared : prepareEnvironment env program size state with
  | error stop =>
      rw [prepared] at stopped
      cases stopped
      exact prepareEnvironment_raises admits_divideError noDivision_endless env program size state
        _ prepared rfl
  | ok pair =>
      rw [prepared] at stopped
      have loading := hasSize_loading env size
      have rest : RaisesWithin (HasSize env size) NoDivision (do
          shareWSAtUserSpace env
          completeEnvironment env pair.1
          loadProgram env program size) := by
        refine .bind
          (.ofRaises (shareWSAtUserSpace_raises admits_divideError noDivision_endless env))
          loading.shareWSAtUserSpace fun _ => ?_
        refine .bind (.ofRaises (.bind (.modify _) fun _ => .bind (.modify _) fun _ => .modify _))
          (completeEnvironment_hasSize _) fun _ => ?_
        refine .bind (loadSegments_within positive _ _ _) (loading.loadSegments _ _ _) fun _ => ?_
        exact .bind (.ofRaises (clearModified_raises admits_divideError _ _))
          (loading.clearModified _) fun _ => loadStack_within positive
      exact rest pair.2 (prepared_hasSize consistent free prepared) _ stopped rfl

theorem envCreate_positive {final : State}
    (returned : envCreate env program size state = .ok ((), final)) : size ≠ 0 := by
  rcases envCreate_parts returned with
    ⟨frame, middle, shared, complete, prepared, window, completed, loaded⟩
  have sized := prepared_hasSize consistent free prepared
  have sizedShared := (hasSize_loading env size).shareWSAtUserSpace _ _ _ sized window
  exact loadProgram_positive (completeEnvironment_hasSize frame _ _ _ sizedShared completed) loaded

end Created

theorem le_roundUp {bytes : Nat} (request : Request bytes) :
    bytes ≤ roundUp bytes / 4096 * 4096 := by
  have bounded := request.bounded
  simp only [roundUp, roundDown]
  omega

theorem room_of_block {middle allocated : State} {address : Nat}
    (consistent : Consistent ghost middle.view)
    (request : Request (sizeofWorkingSetElement * size))
    (inside : ¬WrapsAround middle.view (roundUp (sizeofWorkingSetElement * size)))
    (array : kmalloc (sizeofWorkingSetElement * size) middle = .ok (address, allocated))
    (nonzero : address ≠ 0) : Room middle address size allocated := by
  rcases kmalloc_ok consistent request array with
    ⟨zero, -⟩ | ⟨record, after, rfl, allocation⟩
  · exact absurd zero nonzero
  rcases allocation.scanned with ⟨start, scanned⟩
  have block := scanned.block request.roundUp.2.1 fun crosses =>
    inside ⟨start, scanned.run, crosses⟩
  have covers := le_roundUp request
  have visited : ∀ index, index * 4096 < sizeofWorkingSetElement * size →
      HeapAddress (record.first + index * 4096) ∧
      ppn (record.first + index * 4096) = ppn record.first + index ∧
      ppn (record.first + index * 4096) ∈
        (pageRange record.first (record.last + 1)).map ppn := by
    intro index small
    have heap := scanned.first_heapAddress
    have lower := heap.lower
    have aligned := heap.aligned
    refine ⟨⟨by omega, by omega, by omega⟩, Nat.add_mul_div_right _ _ (by decide), ?_⟩
    exact List.mem_map_of_mem (mem_pageRange.mpr ⟨index, rfl, by omega⟩)
  refine ⟨by omega, fun index small => ?_, fun index small => ?_⟩
  · rcases visited index small with ⟨heap, page, member⟩
    have empty := allocation.growth.wasFree _ member
    rw [← page]
    exact heap.slotEntry.symm.trans empty
  · rcases visited index small with ⟨heap, page, member⟩
    rcases allocation.growth.handedOut _ member with ⟨frame, handed⟩
    have entry := handed.entry
    have nonzero : allocated.view.entry (.heap (ppn (record.first + index * 4096))) ≠ 0 := by
      rw [entry]
      exact ne_zero_of_present (present_heapEntry frame)
    rw [← page]
    exact fun zero => nonzero (heap.slotEntry.trans zero)

/-- A block that the search puts across the end of the heap has no room. -/
theorem inside_of_room {middle allocated : State} {address : Nat}
    (consistent : Consistent ghost middle.view)
    (request : Request (sizeofWorkingSetElement * size))
    (array : kmalloc (sizeofWorkingSetElement * size) middle = .ok (address, allocated))
    (nonzero : address ≠ 0) (room : Room middle address size allocated) :
    ¬WrapsAround middle.view (roundUp (sizeofWorkingSetElement * size)) := by
  rintro ⟨start, run, crosses⟩
  rcases kmalloc_ok consistent request array with
    ⟨zero, -⟩ | ⟨record, after, rfl, allocation⟩
  · exact absurd zero nonzero
  rcases allocation.scanned with ⟨other, scanned⟩
  rw [NextFit.FirstRun.unique run scanned.run] at crosses
  have beyond := NextFit.crosses_end scanned crosses
  have aligned := scanned.first_heapAddress.aligned
  have inside := room.inside
  have bounded := request.bounded
  simp only [roundUp, roundDown, kernelHeapMax] at *
  omega

/-- The pages of the window. -/
theorem window_iff {middle shared : State} (tables : ∀ index < pdx userTop,
      middle.pageDirectory (.env env) index = 0)
    {address : Nat} {allocated : State} (only : HeapOnly middle allocated)
    (pages : ArrayShared middle env address allocated shared) (page : Nat) :
    ReadOnly (shared.view.entry (.user env page)) ↔
      page ∈ windowPages address (middle.envs env).pageWSMaxSize := by
  constructor
  · intro readOnly
    by_contra outside
    rw [pages.pages.others page outside] at readOnly
    have none : ∀ index < pdx userTop, allocated.pageDirectory (.env env) index = 0 :=
      fun index user =>
        (congrFun (congrFun only.pageDirectory _) index).trans (tables index user)
    have empty := entry_of_no_tables none page
    have same : (allocated.setEnv env { allocated.envs env with pageWorkingSetAddress := address
        }).view.entry (.user env page) = 0 := empty
    rw [same] at readOnly
    exact absurd readOnly.present (by decide)
  · exact pages.pages.shared page

theorem window_bound {address : Nat}
    (inside : address + sizeofWorkingSetElement * size ≤ kernelHeapMax) :
    (∀ page ∈ windowPages address size, page < ppn ustackBottom) ↔ size ≤ 16725 := by
  have stop : (address + sizeofWorkingSetElement * size) % 2 ^ 32 =
      address + sizeofWorkingSetElement * size :=
    Nat.mod_eq_of_lt (Nat.lt_of_le_of_lt inside (by decide))
  have shifted : ∀ index, ppn (userPagesWSStart + (address + index * 4096 - address)) =
      ppn userPagesWSStart + index := by
    intro index
    rw [Nat.add_sub_cancel_left]
    exact Nat.add_mul_div_right _ _ (by decide)
  simp only [windowPages, stop, List.mem_map]
  simp only [sizeofWorkingSetElement]
  constructor
  · intro below
    by_contra large
    have last := below _ ⟨address + 49 * 4096, mem_pageRange.mpr ⟨49, rfl, by omega⟩, rfl⟩
    rw [shifted] at last
    exact absurd last (by decide)
  · rintro bound page ⟨sva, member, rfl⟩
    rcases mem_pageRange.mp member with ⟨index, rfl, upper⟩
    rw [shifted]
    have before : index < 49 := by omega
    have last : ppn ustackBottom = ppn userPagesWSStart + 49 := by decide
    omega

section Created

variable (consistent : Consistent ghost state.view) (free : FreeEnv ghost state env)

include consistent free

theorem window_of_room {frame : Nat} {middle shared allocated : State} {address : Nat}
    (prepared : prepareEnvironment env program size state = .ok (frame, middle))
    (request : Request (sizeofWorkingSetElement * size))
    (array : createUserPageWS size middle = .ok (address, allocated))
    (inside : address + sizeofWorkingSetElement * size ≤ kernelHeapMax)
    (window : shareWSAtUserSpace env middle = .ok ((), shared)) :
    (∀ page, ReadOnly (shared.view.entry (.user env page)) → page < ppn ustackBottom) ↔
      size ≤ 16725 := by
  rcases free.prepare consistent prepared with ⟨after, mapped, keeps, tables, record⟩
  have sized : (middle.envs env).pageWSMaxSize = size :=
    prepared_hasSize consistent free prepared
  have small : sizeofWorkingSetElement * size % 2 ^ 32 = sizeofWorkingSetElement * size :=
    Nat.mod_eq_of_lt (Nat.lt_of_le_of_lt request.bounded (by decide))
  rcases (mapped (fun _ => 0) fun _ _ => 0).shareWSAtUserSpace tables
    (by rwa [sized, small]) window with ⟨found, taken, later, mapped, keeps, only, pages⟩
  have same := pages.array
  rw [sized, array, Except.ok.injEq, Prod.mk.injEq] at same
  rw [← same.1, ← same.2] at pages
  rw [← same.2] at only
  have readOnly := fun page => window_iff tables only pages page
  rw [sized] at readOnly
  simp only [readOnly]
  exact window_bound inside

end Created

end Sizes

/-! ## Two sizes -/

theorem one_page_inside (view : View) : ¬WrapsAround view 4096 := by
  rintro ⟨start, -, crosses⟩
  have below : (scanOffset view + start) % kernelHeapPages < kernelHeapPages :=
    Nat.mod_lt _ (by decide)
  exact absurd crosses (Nat.not_lt.mpr below)

theorem sample_freeEnv :
    ∃ ghost, Consistent ghost sampleState.view ∧ FreeEnv ghost sampleState 0 := by
  rcases initializePaging_ok sample_boots with ⟨ghost, booted⟩
  refine ⟨ghost, booted.consistent, ?_, fun _ _ => rfl, rfl, rfl⟩
  rcases booted.empty with ⟨free, rfl⟩
  simp [BootLayout.ghost]

theorem clearModified_empty {state : State} {env : Nat} {indices : List Nat}
    (empty : ∀ index ∈ indices, ((state.envs env).ptrPageWorkingSet index).empty) :
    clearModified env indices state = .ok ((), state) := by
  induction indices with
  | nil => rfl
  | cons index indices induction =>
      refine Kernel.bind_get_ok.mpr ?_
      rw [if_neg (by simp [empty index List.mem_cons_self])]
      exact induction fun other member => empty other (List.mem_cons_of_mem _ member)

theorem completeEnvironment_elements {state complete : State} {env frame : Nat}
    (completed : completeEnvironment env frame state = .ok ((), complete)) :
    ∀ index < (complete.envs env).pageWSMaxSize,
      (complete.envs env).ptrPageWorkingSet index = .cleared := by
  replace completed := Kernel.bind_modify_ok.mp completed
  replace completed := Kernel.bind_modify_ok.mp completed
  rw [← Kernel.modify_ok.mp completed]
  intro index inside
  simp only [State.setDirectoryEntry, State.setEnv, Function.update_self] at inside ⊢
  rw [if_pos inside]

/-- The creation of an environment without segments. -/
def createEmpty (env size : Nat) : Kernel Unit := do
  let frame ← prepareEnvironment env ⟨"fos_empty", []⟩ size
  shareWSAtUserSpace env
  completeEnvironment env frame
  loadStack env

theorem envCreate_empty {ghost : Ghost} {state final : State} {env size : Nat}
    (consistent : Consistent ghost state.view) (free : FreeEnv ghost state env)
    (returned : createEmpty env size state = .ok ((), final)) :
    envCreate env ⟨"fos_empty", []⟩ size state = .ok ((), final) := by
  rcases Kernel.bind_ok.mp returned with ⟨frame, middle, prepared, returned⟩
  rcases Kernel.bind_ok.mp returned with ⟨_, shared, window, returned⟩
  rcases Kernel.bind_ok.mp returned with ⟨_, complete, completed, stacked⟩
  have sized : HasSize env size complete :=
    completeEnvironment_hasSize frame _ _ _ ((hasSize_loading env size).shareWSAtUserSpace _ _ _
      (prepared_hasSize consistent free prepared) window) completed
  have cleared : clearModified env (List.range size) complete = .ok ((), complete) := by
    have elements := completeEnvironment_elements completed
    rw [HasSize] at sized
    refine clearModified_empty fun index member => ?_
    rw [elements index (by rwa [sized, ← List.mem_range])]
    rfl
  rw [envCreate_eq]
  refine Kernel.bind_ok.mpr ⟨_, _, prepared, Kernel.bind_ok.mpr ⟨_, _, window, ?_⟩⟩
  refine Kernel.bind_ok.mpr ⟨_, _, completed, ?_⟩
  exact Kernel.bind_ok.mpr ⟨_, _, rfl, Kernel.bind_ok.mpr ⟨_, _, cleared, stacked⟩⟩

end FosKernel.WorkingSetSize
