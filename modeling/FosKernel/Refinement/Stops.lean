import FosKernel.Foundation.Raises
import FosKernel.Paging.UserMemory

/-! # How the memory functions stop

The functions on frames, page tables, the kernel heap and the page file stop at null
pointers, at the bounds of an array and with messages of their own. They raise neither the
panic of an invalid access nor a division by zero, and only those that search the kernel
heap may fail to end.
-/

namespace FosKernel

def divideError : Stop := .panic "Divide error"

/-- The stops of the functions below are among those admitted. -/
structure Admits (allowed : Stop → Prop) : Prop where
  badPointer : allowed .badPointer
  outOfBounds : allowed .outOfBounds
  panic : ∀ message, Stop.panic message ≠ missingPage → Stop.panic message ≠ divideError →
    allowed (.panic message)

theorem admits_missingPage : Admits (· ≠ missingPage) where
  badPointer := nofun
  outOfBounds := nofun
  panic _ different _ := different

theorem admits_divideError : Admits (· ≠ divideError) where
  badPointer := nofun
  outOfBounds := nofun
  panic _ _ different := different

theorem admits_endless : Admits (· ≠ .endless) where
  badPointer := nofun
  outOfBounds := nofun
  panic _ _ _ := nofun

theorem raises_observe {allowed : Stop → Prop} {read : State → Except Stop α}
    (reads : ∀ state, RaisesOnly allowed (read state)) : Raises allowed (observe read) := by
  intro state stop raised
  unfold observe at raised
  cases outcome : read state with
  | error other =>
      rw [outcome] at raised
      cases raised
      exact reads state stop outcome
  | ok value =>
      rw [outcome] at raised
      cases raised

theorem raises_forEach {allowed : Stop → Prop} {body : α → Kernel Unit}
    (raises : ∀ value, Raises allowed (body value)) (values : List α) :
    Raises allowed (Kernel.forEach body values) := by
  induction values with
  | nil => exact .pure ()
  | cons value values induction => exact .bind (raises value) fun _ => induction

section Stops

variable {allowed : Stop → Prop} (admits : Admits allowed)

include admits

/-! ## Lookup -/

theorem kernelFrame_raises (state : State) (address : Nat) :
    RaisesOnly allowed (kernelFrame state address) :=
  .ite (.ok _) (.error admits.badPointer)

theorem load_raises (state : State) (pointer : TablePointer) (index : Nat) :
    RaisesOnly allowed (load state pointer index) := by
  cases pointer with
  | null => exact .error admits.badPointer
  | boot _ => exact .ok _
  | directory _ _ => exact .bind (kernelFrame_raises admits _ _) fun _ => .pure _
  | kernel _ => exact .bind (kernelFrame_raises admits _ _) fun _ => .pure _

theorem toFrameInfo_raises (state : State) (frame : Nat) :
    RaisesOnly allowed (toFrameInfo state frame) :=
  .ite (.error (admits.panic _ (by decide) (by decide))) (.ok _)

theorem staticTable_raises (state : State) (directory : Directory) (address : Nat) :
    RaisesOnly allowed (staticTable state directory address) :=
  .ite (.error (admits.panic _ (by decide) (by decide)))
    (.ite (.ok _) (.ite (.ok _) (.ok _)))

theorem tableStatus_raises (entry : Word) (pointer : TablePointer) :
    RaisesOnly allowed (tableStatus entry pointer) :=
  .ite (.ok _) (.ite (.error admits.badPointer) (.ok _))

theorem frameAt_raises (state : State) (pointer : TablePointer) (address : Nat) :
    RaisesOnly allowed (frameAt state pointer address) :=
  .ite (.pure _) (.bind (load_raises admits _ _ _) fun _ =>
    .ite (.pure _) (.bind (toFrameInfo_raises admits _ _) fun _ => .pure _))

theorem kernelPageTable_raises (state : State) (directory : Directory) (address : Nat) :
    RaisesOnly allowed (kernelPageTable state directory address) :=
  .bind (staticTable_raises admits _ _ _) fun _ => tableStatus_raises admits _ _

theorem heapFrameInfo_raises (state : State) (address : Nat) :
    RaisesOnly allowed (heapFrameInfo state address) :=
  .bind (kernelPageTable_raises admits _ _ _) fun _ => frameAt_raises admits _ _ _

theorem findHeapPage_raises (state : State) (frame : Nat) (addresses : List Nat) :
    RaisesOnly allowed (findHeapPage state frame addresses) := by
  induction addresses with
  | nil => exact .ok _
  | cons address addresses induction =>
      exact .bind (heapFrameInfo_raises admits _ _) fun _ => .ite (.pure _) induction

theorem kheapVirtualAddress_raises (state : State) (frame : Nat) :
    RaisesOnly allowed (kheapVirtualAddress state frame) :=
  .bind (toFrameInfo_raises admits _ _) fun _ => findHeapPage_raises admits _ _ _

theorem tablePointer_raises (state : State) (directory : Directory) (address : Nat) :
    RaisesOnly allowed (tablePointer state directory address) :=
  .ite (staticTable_raises admits _ _ _)
    (.bind (kheapVirtualAddress_raises admits _ _) fun _ => .pure _)

theorem getPageTable_raises (state : State) (directory : Directory) (address : Nat) :
    RaisesOnly allowed (getPageTable state directory address) :=
  .bind (tablePointer_raises admits _ _ _) fun _ => tableStatus_raises admits _ _

theorem getFrameInfo_raises (state : State) (directory : Directory) (address : Nat) :
    RaisesOnly allowed (getFrameInfo state directory address) :=
  .bind (getPageTable_raises admits _ _ _) fun _ =>
    .bind (frameAt_raises admits _ _ _) fun _ => .pure _

theorem kheapPhysicalAddress_raises (state : State) (address : Nat) :
    RaisesOnly allowed (kheapPhysicalAddress state address) :=
  .bind (getPageTable_raises admits _ _ _) fun _ =>
    .ite (.pure _) (.bind (load_raises admits _ _ _) fun _ => .pure _)

theorem permissionsTable_raises (state : State) (name : String) (env address : Nat)
    (message : allowed
      (.panic (name ++ ": table not found in PF when expected to find one !"))) :
    RaisesOnly allowed (permissionsTable state name env address) :=
  .ite (.bind (tablePointer_raises admits _ _ _) fun _ => .pure _)
    (.ite (.error message) (.ok _))

theorem ptGetPagePermissions_raises (state : State) (env address : Nat) :
    RaisesOnly allowed (ptGetPagePermissions state env address) := by
  refine .bind (permissionsTable_raises admits _ _ _ _
    (admits.panic _ (by decide) (by decide))) fun found => ?_
  cases found with
  | none => exact .pure _
  | some pointer => exact .bind (load_raises admits _ _ _) fun _ => .pure _

theorem store_raises (pointer : TablePointer) (index : Nat) (word : Word) :
    Raises allowed (store pointer index word) := by
  cases pointer with
  | null => exact .throw admits.badPointer
  | boot _ => exact .modify _
  | directory _ _ =>
      exact .bind (raises_observe fun _ => kernelFrame_raises admits _ _) fun _ => .modify _
  | kernel _ =>
      exact .bind (raises_observe fun _ => kernelFrame_raises admits _ _) fun _ => .modify _

theorem ptSetPagePermissions_raises (env address : Nat) (set clear : Word) :
    Raises allowed (ptSetPagePermissions env address set clear) := by
  refine .bind (raises_observe fun _ => permissionsTable_raises admits _ _ _ _
    (admits.panic _ (by decide) (by decide))) fun found => ?_
  cases found with
  | none => exact .throw (admits.panic _ (by decide) (by decide))
  | some pointer =>
      exact .bind (raises_observe fun _ => load_raises admits _ _ _) fun _ =>
        store_raises admits _ _ _

theorem ptClearPageTableEntry_raises (env : Option Nat) (address : Nat) :
    Raises allowed (ptClearPageTableEntry env address) := by
  cases env with
  | none => exact .throw admits.badPointer
  | some env =>
      refine .bind (raises_observe fun _ => permissionsTable_raises admits _ _ _ _
        (admits.panic _ (by decide) (by decide))) fun found => ?_
      cases found with
      | none => exact .throw (admits.panic _ (by decide) (by decide))
      | some pointer => exact store_raises admits _ _ _

/-! ## Frames -/

theorem allocateFrame_raises : Raises allowed allocateFrame := by
  refine .bind .get fun state => ?_
  cases state.freeFrameList.first with
  | none => exact .throw (admits.panic _ (by decide) (by decide))
  | some frame =>
      refine .bind (.modify _) fun _ => .bind .get fun _ => .ite ?_ ?_
      · exact .bind (ptClearPageTableEntry_raises admits _ _) fun _ =>
          .bind (.modify _) fun _ => .pure _
      · exact .bind (.modify _) fun _ => .pure _

omit admits in
theorem freeFrame_raises (frame : Nat) : Raises allowed (freeFrame frame) :=
  .bind (.modify _) fun _ => .modify _

omit admits in
theorem addReferences_raises (frame amount : Nat) :
    Raises allowed (addReferences frame amount) := .modify _

omit admits in
theorem decrementReferences_raises (frame : Nat) :
    Raises allowed (decrementReferences frame) :=
  .bind (addReferences_raises _ _) fun _ => .bind .get fun _ =>
    .ite (freeFrame_raises frame) (.pure _)

theorem unmapFrame_raises (directory : Directory) (address : Nat) :
    Raises allowed (unmapFrame directory address) := by
  refine .bind (raises_observe fun _ => getFrameInfo_raises admits _ _ _) fun found => ?_
  rcases found with ⟨info, pointer⟩
  cases info with
  | none => exact .pure _
  | some frame => exact .bind (decrementReferences_raises frame) fun _ => store_raises admits _ _ _

theorem mapFrameWith_raises {createPageTable : Directory → Nat → Kernel TablePointer}
    (created : ∀ directory address, Raises allowed (createPageTable directory address))
    (directory : Directory) (frame address : Nat) (perm : Word) :
    Raises allowed (mapFrameWith createPageTable directory frame address perm) := by
  refine .bind (raises_observe fun _ => getPageTable_raises admits _ _ _) fun found => ?_
  rcases found with ⟨status, pointer⟩
  have mapped : ∀ pointer, Raises allowed (do
      addReferences frame 1
      store pointer (ptx address) (constructEntry frame (perm ||| permPresent))) :=
    fun pointer => .bind (addReferences_raises _ _) fun _ => store_raises admits _ _ _
  have entered : ∀ pointer, Raises allowed (do
      let entry ← observe fun state => load state pointer (ptx address)
      if hasPerm entry permPresent ∧ frameOf entry = frame then return ()
      if hasPerm entry permPresent then unmapFrame directory address
      addReferences frame 1
      store pointer (ptx address) (constructEntry frame (perm ||| permPresent))) :=
    fun pointer => .bind (raises_observe fun _ => load_raises admits _ _ _) fun entry =>
      .ite (.pure _) (.ite (.bind (unmapFrame_raises admits directory address) fun _ =>
        mapped pointer) (mapped pointer))
  exact .ite (.bind (created directory address) entered) (.bind (.pure _) entered)

end Stops

/-! ## The kernel heap -/

section Heap

variable {allowed : Stop → Prop} (admits : Admits allowed) (endless : allowed .endless)

include admits endless

theorem heapScanLoop_raises (state : State) (fuel : Nat) (scan : HeapScan) :
    RaisesOnly allowed (heapScanLoop state fuel scan) := by
  induction fuel generalizing scan with
  | zero => exact .error endless
  | succ fuel induction =>
      have step : RaisesOnly allowed (heapScanStep state scan) :=
        .ite (.pure _) (.bind (getFrameInfo_raises admits _ _ _) fun _ => .ite (.pure _) (.pure _))
      refine .bind step fun outcome => ?_
      cases outcome with
      | inl result => exact .pure _
      | inr next => exact induction next

omit endless in
theorem heapRecord_raises : Raises allowed heapRecord :=
  .bind .get fun _ => .ite (.bind (.throw admits.outOfBounds) fun _ => .pure _) (.pure _)

omit endless in
theorem createPageTableWith_raises {kmalloc : Nat → Kernel Nat}
    (allocated : ∀ size, Raises allowed (kmalloc size)) (directory : Directory) (address : Nat) :
    Raises allowed (createPageTableWith kmalloc directory address) := by
  have filled : ∀ newPT, Raises allowed (do
      let frame ← observe fun state => kheapPhysicalAddress state newPT
      modify fun state => state.setDirectoryEntry directory (pdx address)
        (constructEntry frame (permPresent ||| permWriteable ||| permUser))
      let frame ← observe fun state => kernelFrame state newPT
      modify fun state => state.setPage frame fun _ => 0
      return TablePointer.kernel newPT) := fun newPT =>
    .bind (raises_observe fun _ => kheapPhysicalAddress_raises admits _ _) fun _ =>
      .bind (.modify _) fun _ => .bind (raises_observe fun _ => kernelFrame_raises admits _ _)
        fun _ => .bind (.modify _) fun _ => .pure _
  exact .bind (allocated _) fun newPT =>
    .ite (.bind (.throw admits.badPointer) fun _ => filled newPT) (filled newPT)

theorem mapHeapPages_raises {kmalloc : Nat → Kernel Nat}
    (allocated : ∀ size, Raises allowed (kmalloc size)) (fuel address : Nat) :
    Raises allowed (mapHeapPages kmalloc fuel address) := by
  induction fuel generalizing address with
  | zero => exact .throw endless
  | succ fuel induction =>
      have mapped : Raises allowed (mapHeapPage kmalloc address) :=
        .bind (allocateFrame_raises admits) fun _ =>
          mapFrameWith_raises admits (createPageTableWith_raises admits allocated) _ _ _ _
      exact .bind (heapRecord_raises admits) fun _ =>
        .ite (.bind mapped fun _ => induction _) (.pure _)

theorem kmallocWith_raises {kmalloc : Nat → Kernel Nat}
    (allocated : ∀ size, Raises allowed (kmalloc size)) (size : Nat) :
    Raises allowed (kmallocWith kmalloc size) := by
  have searched : Raises allowed (nextFitAlgo kmalloc) := by
    refine .bind .get fun state => .bind
      (raises_observe fun _ => heapScanLoop_raises admits endless _ _ _) fun result => ?_
    cases result with
    | null record => exact .bind (.modify _) fun _ => .pure _
    | found record =>
        exact .bind (.modify _) fun _ =>
          .bind (mapHeapPages_raises admits endless allocated _ _) fun _ =>
            .bind (heapRecord_raises admits) fun _ => .bind (.modify _) fun _ => .pure _
  refine .bind .get fun state => .ite (.bind (.throw admits.outOfBounds) fun _ => ?_) ?_
  all_goals exact .bind (.modify _) fun _ => .ite searched (.pure _)

theorem kmalloc_raises (size : Nat) : Raises allowed (kmalloc size) := by
  have nested : ∀ depth size, Raises allowed (kmallocNested depth size) := by
    intro depth
    induction depth with
    | zero => exact fun _ => .throw endless
    | succ depth induction => exact kmallocWith_raises admits endless induction
  exact kmallocWith_raises admits endless (nested _) size

theorem createPageTable_raises (directory : Directory) (address : Nat) :
    Raises allowed (createPageTable directory address) :=
  createPageTableWith_raises admits (kmalloc_raises admits endless) directory address

theorem mapFrame_raises (directory : Directory) (frame address : Nat) (perm : Word) :
    Raises allowed (mapFrame directory frame address perm) :=
  mapFrameWith_raises admits (createPageTable_raises admits endless) _ _ _ _

/-! ## The page file -/

omit endless in
theorem diskTablePointer_raises (state : State) (env address : Nat) :
    RaisesOnly allowed (diskTablePointer state env address) :=
  .ite (.ite (.bind (.error (admits.panic _ (by decide) (by decide))) fun _ => .pure _)
    (.pure _)) (.bind (kheapVirtualAddress_raises admits _ _) fun _ => .pure _)

omit endless in
theorem writeUserPage_raises (env address : Nat) (change : (Nat → Word) → Nat → Word) :
    Raises allowed (writeUserPage env address change) :=
  .bind (raises_observe fun _ => .ite (.ok _) (.error admits.badPointer)) fun _ =>
    .bind (.modify _) fun _ => .modify _

omit admits endless in
theorem allocateDiskFrame_raises : Raises allowed allocateDiskFrame := by
  refine .bind .get fun state => ?_
  cases state.diskFreeFrameList.first with
  | none => exact .pure _
  | some dfn => exact .bind (.modify _) fun _ => .bind (.modify _) fun _ => .pure _

theorem getDiskPageDirectory_raises (env : Nat) :
    Raises allowed (getDiskPageDirectory env) := by
  have entered : ∀ address, Raises allowed (do
      let _ ← observe fun state => kernelFrame state address
      modify fun state =>
        { state.setEnv env { state.envs env with diskEnvPgdir := address } with
          diskDirectory := Function.update state.diskDirectory env fun _ => 0 }) :=
    fun address => .bind (raises_observe fun _ => kernelFrame_raises admits _ _) fun _ =>
      .modify _
  exact .bind .get fun _ => .ite (.pure _) (.bind (kmalloc_raises admits endless _) fun address =>
    .ite (.bind (.throw admits.badPointer) fun _ => entered address) (entered address))

theorem createDiskPageTable_raises (env address : Nat) :
    Raises allowed (createDiskPageTable env address) := by
  refine .bind (kmalloc_raises admits endless _) fun table => .ite (.pure _) ?_
  exact .bind (raises_observe fun _ => kheapPhysicalAddress_raises admits _ _) fun _ =>
    .bind (.modify _) fun _ => .bind (raises_observe fun _ => kernelFrame_raises admits _ _)
      fun _ => .bind (.modify _) fun _ => .pure _

omit endless in
theorem findDiskPageTable_raises (env address : Nat) :
    Raises allowed (getDiskPageTable env address false) := by
  refine .bind (raises_observe fun _ => diskTablePointer_raises admits _ _ _) fun _ => ?_
  refine .bind .get fun _ => .ite ?_ (.pure _)
  rw [if_neg Bool.false_ne_true]
  exact .pure _

theorem getDiskPageTable_raises (env address : Nat) (create : Bool) :
    Raises allowed (getDiskPageTable env address create) :=
  .bind (raises_observe fun _ => diskTablePointer_raises admits _ _ _) fun _ => .bind .get
    fun _ => .ite (.ite (createDiskPageTable_raises admits endless env address) (.pure _))
      (.pure _)

theorem pfAddFrame_raises (env address : Nat) : Raises allowed (pfAddFrame env address) := by
  have allocated : ∀ pointer, Raises allowed (allocatePageFrame pointer (ptx address)) := by
    intro pointer
    refine .bind (raises_observe fun _ => load_raises admits _ _ _) fun _ => .ite (.pure _) ?_
    refine .bind allocateDiskFrame_raises fun found => ?_
    cases found with
    | none => exact .pure _
    | some dfn => exact .bind (store_raises admits _ _ _) fun _ => .pure _
  have added : Raises allowed (do
      getDiskPageDirectory env
      let pointer ← getDiskPageTable env address true
      allocatePageFrame pointer (ptx address)) :=
    .bind (getDiskPageDirectory_raises admits endless env) fun _ =>
      .bind (getDiskPageTable_raises admits endless _ _ _) allocated
  exact .ite (.bind (.throw (admits.panic _ (by decide) (by decide))) fun _ => added) added

theorem pfAddEnvPage_raises (env address : Nat) (page : Nat → Word) :
    Raises allowed (pfAddEnvPage env address page) := by
  refine .bind (pfAddFrame_raises admits endless env address) fun frame => ?_
  cases frame with
  | none => exact .pure _
  | some dfn => exact .bind (.modify _) fun _ => .pure _

theorem pfAddEmptyEnvPage_raises (env address : Nat) (initializeByZero : Bool) :
    Raises allowed (pfAddEmptyEnvPage env address initializeByZero) := by
  refine .ite (.bind .get fun _ => pfAddEnvPage_raises admits endless _ _ _) ?_
  refine .bind (pfAddFrame_raises admits endless env address) fun frame => ?_
  cases frame <;> exact .pure _

omit endless in
theorem pfReadEnvPage_raises (env address : Nat) :
    Raises allowed (pfReadEnvPage env address) := by
  refine .bind .get fun _ => .ite (.pure _) ?_
  refine .bind (findDiskPageTable_raises admits _ _) fun _ => .ite (.pure _) ?_
  refine .bind (raises_observe fun _ => load_raises admits _ _ _) fun _ => .ite (.pure _) ?_
  refine .bind (.bind .get fun _ => writeUserPage_raises admits _ _ _) fun _ => ?_
  exact .bind .get fun _ => .bind (ptSetPagePermissions_raises admits _ _ _ _) fun _ => .pure _

theorem pfUpdateEnvPage_raises (env address frame : Nat) :
    Raises allowed (pfUpdateEnvPage env address frame) := by
  have written : ∀ dfn, Raises allowed (do
      mapFrame (.env env) frame userLimit 0
      let mapped ← observe fun state => kernelFrame state userLimit
      writeDiskPage dfn ((← get).memory mapped)
      addReferences frame 1
      unmapFrame (.env env) userLimit
      addReferences frame (2 ^ 16 - 1)
      return PageFileCode.success) := fun dfn =>
    .bind (mapFrame_raises admits endless _ _ _ _) fun _ =>
      .bind (raises_observe fun _ => kernelFrame_raises admits _ _) fun _ =>
        .bind .get fun _ => .bind (.modify _) fun _ => .bind (addReferences_raises _ _) fun _ =>
          .bind (unmapFrame_raises admits _ _) fun _ => .bind (addReferences_raises _ _)
            fun _ => .pure _
  have updated : Raises allowed (do
      getDiskPageDirectory env
      let pointer ← getDiskPageTable env address false
      if pointer = .null then return .pageNotExist
      let dfn ← observe fun state => load state pointer (ptx address)
      if dfn = 0 then return .pageNotExist
      mapFrame (.env env) frame userLimit 0
      let mapped ← observe fun state => kernelFrame state userLimit
      writeDiskPage dfn ((← get).memory mapped)
      addReferences frame 1
      unmapFrame (.env env) userLimit
      addReferences frame (2 ^ 16 - 1)
      return PageFileCode.success) :=
    .bind (getDiskPageDirectory_raises admits endless env) fun _ =>
      .bind (findDiskPageTable_raises admits _ _) fun _ => .ite (.pure _)
        (.bind (raises_observe fun _ => load_raises admits _ _ _) fun dfn =>
          .ite (.pure _) (written dfn))
  exact .ite (.bind (.throw (admits.panic _ (by decide) (by decide))) fun _ => updated) updated

omit endless in
theorem pfRemoveEnvPage_raises (env address : Nat) :
    Raises allowed (pfRemoveEnvPage env address) :=
  .bind .get fun _ => .ite (.pure _) (.bind (findDiskPageTable_raises admits _ _) fun _ =>
    .ite (.pure _) (.bind (raises_observe fun _ => load_raises admits _ _ _) fun _ =>
      .bind (store_raises admits _ _ _) fun _ => .ite (.pure _) (.modify _)))

/-! ## The working set -/

omit endless in
theorem envPageWsGetVirtualAddress_raises (state : State) (env index : Nat) :
    RaisesOnly allowed (envPageWsGetVirtualAddress state env index) :=
  .ite (.error (admits.panic _ (by decide) (by decide))) (.ok _)

omit endless in
theorem envPageWsSetEntry_raises (env index address : Nat) :
    Raises allowed (envPageWsSetEntry env index address) := by
  refine .bind .get fun state => .ite
    (.bind (.throw (admits.panic _ (by decide) (by decide))) fun _ => ?_) ?_
  all_goals exact .ite (.bind (.throw (admits.panic _ (by decide) (by decide)))
      fun _ => .modify _) (.modify _)

omit endless in
theorem envPageWsClearEntry_raises (env index : Nat) :
    Raises allowed (envPageWsClearEntry env index) :=
  .bind .get fun _ => .ite (.bind (.throw (admits.panic _ (by decide) (by decide)))
    fun _ => .modify _) (.modify _)

omit admits endless in
theorem advanceLastWSIndex_raises (env : Nat) : Raises allowed (advanceLastWSIndex env) :=
  .bind .get fun _ => .modify _

omit admits endless in
theorem setLastWSIndexAfter_raises (env index : Nat) :
    Raises allowed (setLastWSIndexAfter env index) :=
  .bind .get fun _ => .modify _

omit endless in
theorem placeInWorkingSet_raises (env address : Nat) (indices : List Nat) :
    Raises allowed (placeInWorkingSet env address indices) := by
  induction indices with
  | nil => exact .pure _
  | cons index indices induction =>
      exact .bind .get fun _ => .ite (.bind (envPageWsSetEntry_raises admits _ _ _) fun _ =>
        .modify _) induction

omit endless in
theorem removeFromWorkingSet_raises (env address : Nat) (indices : List Nat) :
    Raises allowed (removeFromWorkingSet env address indices) := by
  induction indices with
  | nil => exact .pure _
  | cons index indices induction =>
      exact .bind (raises_observe fun _ => envPageWsGetVirtualAddress_raises admits _ _ _)
        fun _ => .ite (envPageWsClearEntry_raises admits _ _) induction

/-! ## Replacement -/

omit endless in
theorem takeVictim_raises (env address : Nat) : Raises allowed (takeVictim env address) :=
  .bind .get fun _ => .bind (envPageWsClearEntry_raises admits _ _) fun _ =>
    .bind (advanceLastWSIndex_raises _) fun _ => .pure _

theorem secondTrial_raises (env fp fuel : Nat) : Raises allowed (secondTrial env fp fuel) := by
  induction fuel with
  | zero => exact .throw endless
  | succ fuel induction =>
      refine .bind .get fun _ =>
        .bind (raises_observe fun _ => envPageWsGetVirtualAddress_raises admits _ _ _) fun _ =>
        .bind (raises_observe fun _ => ptGetPagePermissions_raises admits _ _ _) fun _ =>
        .ite ?_ ?_
      · exact .bind (ptSetPagePermissions_raises admits _ _ _ _) fun _ =>
          .bind (advanceLastWSIndex_raises _) fun _ => .bind .get fun _ =>
            .ite (.pure _) induction
      · exact .bind (takeVictim_raises admits _ _) fun _ => .pure _

theorem findVictim_raises (env fp fuel : Nat) : Raises allowed (findVictim env fp fuel) := by
  induction fuel with
  | zero => exact .throw endless
  | succ fuel induction =>
      refine .bind .get fun _ =>
        .bind (raises_observe fun _ => envPageWsGetVirtualAddress_raises admits _ _ _) fun _ =>
        .bind (raises_observe fun _ => ptGetPagePermissions_raises admits _ _ _) fun _ =>
        .ite (takeVictim_raises admits _ _) ?_
      refine .bind (advanceLastWSIndex_raises _) fun _ => .bind .get fun _ =>
        .ite (.bind (secondTrial_raises admits endless _ _ _) fun found => ?_) induction
      cases found with
      | none => exact induction
      | some victim => exact .pure _

omit admits in
theorem forEachModified_raises {body : Nat → Kernel Unit}
    (raises : ∀ frame, Raises allowed (body frame)) (fuel : Nat) (next : Option Nat) :
    Raises allowed (forEachModified body fuel next) := by
  induction fuel generalizing next with
  | zero =>
      cases next with
      | none => exact .modify _
      | some frame => exact .throw endless
  | succ fuel induction =>
      cases next with
      | none => exact .modify _
      | some frame =>
          exact .bind (.modify _) fun _ => .bind (raises frame) fun _ => .bind .get fun _ =>
            induction _

theorem bufferVictim_raises (env victim frame : Nat) :
    Raises allowed (bufferVictim env victim frame) := by
  have flushed : ∀ frame, Raises allowed (flushFrame env frame) := fun frame =>
    .bind .get fun _ => .bind (pfUpdateEnvPage_raises admits endless _ _ _) fun _ =>
      .bind (ptSetPagePermissions_raises admits _ _ _ _) fun _ =>
        .bind (.modify _) fun _ => .modify _
  refine .bind .get fun _ => .bind (.modify _) fun _ => ?_
  refine .bind (ptSetPagePermissions_raises admits _ _ _ _) fun _ => ?_
  refine .bind (raises_observe fun _ => ptGetPagePermissions_raises admits _ _ _) fun _ =>
    .ite ?_ (.modify _)
  refine .bind (.modify _) fun _ => .bind .get fun _ => ?_
  exact .ite (forEachModified_raises endless flushed _ _) (.pure _)

omit endless in
theorem restorePage_raises (env faultVa : Nat) (permissions : Word) (frame : Option Nat) :
    Raises allowed (restorePage env faultVa permissions frame) := by
  refine .bind (ptSetPagePermissions_raises admits _ _ _ _) fun _ => ?_
  cases frame with
  | none => exact .throw admits.badPointer
  | some frame => exact .bind (.modify _) fun _ => .ite (.modify _) (.modify _)

end Heap

end FosKernel
