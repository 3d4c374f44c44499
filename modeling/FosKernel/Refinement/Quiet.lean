import FosKernel.Paging.PageFile

/-! # What the memory functions leave alone

The functions on frames, page tables, the kernel heap and the page file change neither
the working sets nor the modified list, mark no frame as buffered and record no page in
one.
-/

namespace FosKernel

open Kernel

/-- From one state to a later one nothing changed but frames, tables, the kernel heap,
the page file and the disk page directories. -/
structure Quiet (before after : State) : Prop where
  numberOfFrames : after.numberOfFrames = before.numberOfFrames
  curenv : after.curenv = before.curenv
  strategy : after.kHeapPlacementStrategy = before.kHeapPlacementStrategy
  bufferLength : after.modifiedBufferLength = before.modifiedBufferLength
  buffering : after.enableBuffering = before.enableBuffering
  diskTableDirectory : after.diskTableDirectory = before.diskTableDirectory
  modified : after.modifiedFrameList = before.modifiedFrameList
  envs : ∀ env, after.envs env =
    { before.envs env with diskEnvPgdir := (after.envs env).diskEnvPgdir }
  plain : ∀ frame, (before.framesInfo frame).isBuffered = false →
    (after.framesInfo frame).isBuffered = false
  unrecorded : ∀ frame, (before.framesInfo frame).va = 0 → (after.framesInfo frame).va = 0

namespace Quiet

theorem refl (state : State) : Quiet state state where
  numberOfFrames := rfl
  curenv := rfl
  strategy := rfl
  bufferLength := rfl
  buffering := rfl
  diskTableDirectory := rfl
  modified := rfl
  envs _ := rfl
  plain _ unbuffered := unbuffered
  unrecorded _ zero := zero

theorem trans {first second third : State} (left : Quiet first second)
    (right : Quiet second third) : Quiet first third where
  numberOfFrames := right.numberOfFrames.trans left.numberOfFrames
  curenv := right.curenv.trans left.curenv
  strategy := right.strategy.trans left.strategy
  bufferLength := right.bufferLength.trans left.bufferLength
  buffering := right.buffering.trans left.buffering
  diskTableDirectory := right.diskTableDirectory.trans left.diskTableDirectory
  modified := right.modified.trans left.modified
  envs env := by
    rw [right.envs env, left.envs env]
  plain frame unbuffered := right.plain frame (left.plain frame unbuffered)
  unrecorded frame zero := right.unrecorded frame (left.unrecorded frame zero)

theorem setFrameInfo (state : State) (frame : Nat) {info : FrameInfo}
    (plain : (state.framesInfo frame).isBuffered = false → info.isBuffered = false)
    (unrecorded : (state.framesInfo frame).va = 0 → info.va = 0) :
    Quiet state (state.setFrameInfo frame info) :=
  { refl state with
    plain := by
      intro other unbuffered
      by_cases same : other = frame
      · subst same
        simpa [State.setFrameInfo] using plain unbuffered
      · simpa [State.setFrameInfo, same] using unbuffered
    unrecorded := by
      intro other zero
      by_cases same : other = frame
      · subst same
        simpa [State.setFrameInfo] using unrecorded zero
      · simpa [State.setFrameInfo, same] using zero }

theorem setHeapPosition (state : State) (startAdd idx : Nat) :
    Quiet state { state with startAdd, idx } := { refl state with }

theorem setDiskDirectory (state : State) (env address : Nat) :
    Quiet state (state.setEnv env { state.envs env with diskEnvPgdir := address }) :=
  { refl state with
    envs := by
      intro other
      by_cases same : other = env
      · subst same
        simp [State.setEnv]
      · simp [State.setEnv, same] }

end Quiet

theorem quiet_modify {base : State} {change : State → State}
    (step : ∀ state, Quiet state (change state)) :
    Preserves (Quiet base) (modify change : Kernel PUnit) :=
  .modify fun state quiet => quiet.trans (step state)

variable {base : State}

/-! ## Page tables and frames -/

theorem store_quiet (pointer : TablePointer) (index : Nat) (word : Word) :
    Preserves (Quiet base) (store pointer index word) := by
  cases pointer with
  | null => exact .throw _
  | boot _ => exact quiet_modify fun state => { Quiet.refl state with }
  | directory _ _ =>
      exact .bind (preserves_observe _) fun _ =>
        quiet_modify fun state => { Quiet.refl state with }
  | kernel _ =>
      exact .bind (preserves_observe _) fun _ =>
        quiet_modify fun state => { Quiet.refl state with }

theorem ptSetPagePermissions_quiet (env address : Nat) (set clear : Word) :
    Preserves (Quiet base) (ptSetPagePermissions env address set clear) := by
  refine .bind (preserves_observe _) fun found => ?_
  cases found with
  | none => exact .throw _
  | some pointer => exact .bind (preserves_observe _) fun _ => store_quiet _ _ _

theorem ptClearPageTableEntry_quiet (env : Option Nat) (address : Nat) :
    Preserves (Quiet base) (ptClearPageTableEntry env address) := by
  cases env with
  | none => exact .throw _
  | some env =>
      refine .bind (preserves_observe _) fun found => ?_
      cases found with
      | none => exact .throw _
      | some pointer => exact store_quiet _ _ _

theorem initializeFrameInfo_quiet (frame : Nat) :
    Preserves (Quiet base) (initializeFrameInfo frame) := by
  refine quiet_modify fun state => ?_
  exact { Quiet.setFrameInfo state frame (fun _ => rfl : _ → FrameInfo.zero.isBuffered = false)
    (fun _ => rfl) with }

theorem allocateFrame_quiet : Preserves (Quiet base) allocateFrame := by
  refine .bind .get fun state => ?_
  cases state.freeFrameList.first with
  | none => exact .throw _
  | some frame =>
      refine .bind (quiet_modify fun state => { Quiet.refl state with }) fun _ => ?_
      refine .bind .get fun _ => .ite ?_ ?_
      · exact .bind (ptClearPageTableEntry_quiet _ _) fun _ =>
          .bind (initializeFrameInfo_quiet frame) fun _ => .pure _
      · exact .bind (initializeFrameInfo_quiet frame) fun _ => .pure _

theorem freeFrame_quiet (frame : Nat) : Preserves (Quiet base) (freeFrame frame) :=
  .bind (initializeFrameInfo_quiet frame) fun _ =>
    quiet_modify fun state => { Quiet.refl state with }

theorem addReferences_quiet (frame amount : Nat) :
    Preserves (Quiet base) (addReferences frame amount) :=
  quiet_modify fun state => Quiet.setFrameInfo state frame id id

theorem decrementReferences_quiet (frame : Nat) :
    Preserves (Quiet base) (decrementReferences frame) :=
  .bind (addReferences_quiet _ _) fun _ => .bind .get fun _ =>
    .ite (freeFrame_quiet frame) (.pure _)

theorem unmapFrame_quiet (directory : Directory) (address : Nat) :
    Preserves (Quiet base) (unmapFrame directory address) := by
  refine .bind (preserves_observe _) fun found => ?_
  rcases found with ⟨info, pointer⟩
  cases info with
  | none => exact .pure _
  | some frame =>
      exact .bind (decrementReferences_quiet frame) fun _ => store_quiet _ _ _

theorem mapFrameWith_quiet
    {createPageTable : Directory → Nat → Kernel TablePointer}
    (created : ∀ directory address, Preserves (Quiet base) (createPageTable directory address))
    (directory : Directory) (frame address : Nat) (perm : Word) :
    Preserves (Quiet base) (mapFrameWith createPageTable directory frame address perm) := by
  refine .bind (preserves_observe _) fun found => ?_
  rcases found with ⟨status, pointer⟩
  have mapped : ∀ pointer, Preserves (Quiet base) (do
      addReferences frame 1
      store pointer (ptx address) (constructEntry frame (perm ||| permPresent))) :=
    fun pointer => .bind (addReferences_quiet _ _) fun _ => store_quiet _ _ _
  have entered : ∀ pointer, Preserves (Quiet base) (do
      let entry ← observe fun state => load state pointer (ptx address)
      if hasPerm entry permPresent ∧ frameOf entry = frame then return ()
      if hasPerm entry permPresent then unmapFrame directory address
      addReferences frame 1
      store pointer (ptx address) (constructEntry frame (perm ||| permPresent))) :=
    fun pointer => .bind (preserves_observe _) fun entry => .ite (.pure _)
      (.ite (.bind (unmapFrame_quiet directory address) fun _ => mapped pointer)
        (mapped pointer))
  exact .ite (.bind (created directory address) entered) (.bind (.pure _) entered)

/-! ## The kernel heap -/

theorem setHeapRecord_quiet (record : KernelHeapRecord) :
    Preserves (Quiet base) (setHeapRecord record) :=
  quiet_modify fun state => { Quiet.refl state with }

theorem heapRecord_quiet : Preserves (Quiet base) heapRecord :=
  .bind .get fun _ => .ite (.bind (.throw _) fun _ => .pure _) (.pure _)

section Nested

variable {kmalloc : Nat → Kernel Nat}
  (allocated : ∀ size, Preserves (Quiet base) (kmalloc size))
include allocated

theorem createPageTableWith_quiet (directory : Directory) (address : Nat) :
    Preserves (Quiet base) (createPageTableWith kmalloc directory address) := by
  have filled : ∀ newPT, Preserves (Quiet base) (do
      let frame ← observe fun state => kheapPhysicalAddress state newPT
      modify fun state => state.setDirectoryEntry directory (pdx address)
        (constructEntry frame (permPresent ||| permWriteable ||| permUser))
      let frame ← observe fun state => kernelFrame state newPT
      modify fun state => state.setPage frame fun _ => 0
      return TablePointer.kernel newPT) := fun newPT =>
    .bind (preserves_observe _) fun _ => .bind (quiet_modify fun state => { Quiet.refl state with })
      fun _ => .bind (preserves_observe _) fun _ =>
        .bind (quiet_modify fun state => { Quiet.refl state with }) fun _ => .pure _
  exact .bind (allocated _) fun newPT =>
    .ite (.bind (.throw _) fun _ => filled newPT) (filled newPT)

theorem mapHeapPage_quiet (address : Nat) :
    Preserves (Quiet base) (mapHeapPage kmalloc address) :=
  .bind allocateFrame_quiet fun _ =>
    mapFrameWith_quiet (createPageTableWith_quiet allocated) _ _ _ _

theorem mapHeapPages_quiet (fuel address : Nat) :
    Preserves (Quiet base) (mapHeapPages kmalloc fuel address) := by
  induction fuel generalizing address with
  | zero => exact .throw _
  | succ fuel induction =>
      exact .bind heapRecord_quiet fun _ => .ite
        (.bind (mapHeapPage_quiet allocated address) fun _ => induction _) (.pure _)

theorem nextFitAlgo_quiet : Preserves (Quiet base) (nextFitAlgo kmalloc) := by
  refine .bind .get fun state => .bind (preserves_observe _) fun result => ?_
  cases result with
  | null record => exact .bind (setHeapRecord_quiet record) fun _ => .pure _
  | found record =>
      exact .bind (setHeapRecord_quiet record) fun _ =>
        .bind (mapHeapPages_quiet allocated _ _) fun _ =>
          .bind heapRecord_quiet fun _ => .bind (quiet_modify fun state =>
            Quiet.setHeapPosition state _ _) fun _ => .pure _

theorem kmallocWith_quiet (size : Nat) :
    Preserves (Quiet base) (kmallocWith kmalloc size) := by
  refine .bind .get fun state => .ite (.bind (.throw _) fun _ => ?_) ?_
  all_goals
    exact .bind (setHeapRecord_quiet _) fun _ =>
      .ite (nextFitAlgo_quiet allocated) (.pure _)

end Nested

theorem kmallocNested_quiet (depth size : Nat) :
    Preserves (Quiet base) (kmallocNested depth size) := by
  induction depth generalizing size with
  | zero => exact .throw _
  | succ depth induction => exact kmallocWith_quiet induction size

theorem kmalloc_quiet (size : Nat) : Preserves (Quiet base) (kmalloc size) :=
  kmallocWith_quiet (kmallocNested_quiet _) size

theorem unmapHeapPage_quiet (address : Nat) :
    Preserves (Quiet base) (unmapHeapPage address) := by
  refine .bind (unmapFrame_quiet _ _) fun _ => .bind (preserves_observe _) fun found => ?_
  rcases found with ⟨status, pointer⟩
  exact .ite (store_quiet _ _ _) (.pure _)

theorem kfree_quiet (address : Nat) : Preserves (Quiet base) (kfree address) := by
  refine .bind .get fun state => ?_
  cases findHeapRecord state address with
  | none => exact .pure _
  | some record => exact preserves_forEach unmapHeapPage_quiet _

theorem createPageTable_quiet (directory : Directory) (address : Nat) :
    Preserves (Quiet base) (createPageTable directory address) :=
  createPageTableWith_quiet kmalloc_quiet directory address

theorem mapFrame_quiet (directory : Directory) (frame address : Nat) (perm : Word) :
    Preserves (Quiet base) (mapFrame directory frame address perm) :=
  mapFrameWith_quiet createPageTable_quiet _ _ _ _

/-! ## The page file -/

theorem writeUserPage_quiet (env address : Nat) (change : (Nat → Word) → Nat → Word) :
    Preserves (Quiet base) (writeUserPage env address change) := by
  refine .bind (preserves_observe _) fun found => ?_
  exact .bind (quiet_modify fun state => { Quiet.refl state with }) fun _ =>
    quiet_modify fun state => { Quiet.refl state with }

theorem allocateDiskFrame_quiet : Preserves (Quiet base) allocateDiskFrame := by
  refine .bind .get fun state => ?_
  cases state.diskFreeFrameList.first with
  | none => exact .pure _
  | some dfn =>
      exact .bind (quiet_modify fun state => { Quiet.refl state with }) fun _ =>
        .bind (quiet_modify fun state => { Quiet.refl state with }) fun _ => .pure _

theorem freeDiskFrame_quiet (dfn : Nat) : Preserves (Quiet base) (freeDiskFrame dfn) :=
  .ite (.pure _) (quiet_modify fun state => { Quiet.refl state with })

theorem getDiskPageDirectory_quiet (env : Nat) :
    Preserves (Quiet base) (getDiskPageDirectory env) := by
  have entered : ∀ address, Preserves (Quiet base) (do
      let _ ← observe fun state => kernelFrame state address
      modify fun state =>
        { state.setEnv env { state.envs env with diskEnvPgdir := address } with
          diskDirectory := Function.update state.diskDirectory env fun _ => 0 }) :=
    fun address => .bind (preserves_observe _) fun _ => quiet_modify fun state =>
      { Quiet.setDiskDirectory state env address with }
  exact .bind .get fun _ => .ite (.pure _) (.bind (kmalloc_quiet _) fun address =>
    .ite (.bind (.throw _) fun _ => entered address) (entered address))

theorem createDiskPageTable_quiet (env address : Nat) :
    Preserves (Quiet base) (createDiskPageTable env address) := by
  refine .bind (kmalloc_quiet _) fun table => .ite (.pure _) ?_
  exact .bind (preserves_observe _) fun _ =>
    .bind (quiet_modify fun state => { Quiet.refl state with }) fun _ =>
      .bind (preserves_observe _) fun _ =>
        .bind (quiet_modify fun state => { Quiet.refl state with }) fun _ => .pure _

theorem getDiskPageTable_quiet (env address : Nat) (create : Bool) :
    Preserves (Quiet base) (getDiskPageTable env address create) :=
  .bind (preserves_observe _) fun _ => .bind .get fun _ =>
    .ite (.ite (createDiskPageTable_quiet env address) (.pure _)) (.pure _)

theorem allocatePageFrame_quiet (pointer : TablePointer) (index : Nat) :
    Preserves (Quiet base) (allocatePageFrame pointer index) := by
  refine .bind (preserves_observe _) fun _ => .ite (.pure _) ?_
  refine .bind allocateDiskFrame_quiet fun allocated => ?_
  cases allocated with
  | none => exact .pure _
  | some dfn => exact .bind (store_quiet _ _ _) fun _ => .pure _

theorem pfAddFrame_quiet (env address : Nat) :
    Preserves (Quiet base) (pfAddFrame env address) := by
  have added : Preserves (Quiet base) (do
      getDiskPageDirectory env
      let pointer ← getDiskPageTable env address true
      allocatePageFrame pointer (ptx address)) :=
    .bind (getDiskPageDirectory_quiet env) fun _ =>
      .bind (getDiskPageTable_quiet _ _ _) fun _ => allocatePageFrame_quiet _ _
  exact .ite (.bind (.throw _) fun _ => added) added

theorem pfAddEnvPage_quiet (env address : Nat) (page : Nat → Word) :
    Preserves (Quiet base) (pfAddEnvPage env address page) := by
  refine .bind (pfAddFrame_quiet env address) fun frame => ?_
  cases frame with
  | none => exact .pure _
  | some dfn =>
      exact .bind (quiet_modify fun state => { Quiet.refl state with }) fun _ => .pure _

theorem pfAddEmptyEnvPage_quiet (env address : Nat) (initializeByZero : Bool) :
    Preserves (Quiet base) (pfAddEmptyEnvPage env address initializeByZero) := by
  refine .ite (.bind .get fun _ => pfAddEnvPage_quiet _ _ _) ?_
  refine .bind (pfAddFrame_quiet env address) fun frame => ?_
  cases frame <;> exact .pure _

theorem pfReadEnvPage_quiet (env address : Nat) :
    Preserves (Quiet base) (pfReadEnvPage env address) := by
  refine .bind .get fun _ => .ite (.pure _) ?_
  refine .bind (getDiskPageTable_quiet _ _ _) fun _ => .ite (.pure _) ?_
  refine .bind (preserves_observe _) fun _ => .ite (.pure _) ?_
  refine .bind (.bind .get fun _ => writeUserPage_quiet _ _ _) fun _ => ?_
  exact .bind .get fun _ => .bind (ptSetPagePermissions_quiet _ _ _ _) fun _ => .pure _

theorem pfUpdateEnvPage_quiet (env address frame : Nat) :
    Preserves (Quiet base) (pfUpdateEnvPage env address frame) := by
  have written : ∀ dfn, Preserves (Quiet base) (do
      mapFrame (.env env) frame userLimit 0
      let mapped ← observe fun state => kernelFrame state userLimit
      writeDiskPage dfn ((← get).memory mapped)
      addReferences frame 1
      unmapFrame (.env env) userLimit
      addReferences frame (2 ^ 16 - 1)
      return PageFileCode.success) := fun dfn =>
    .bind (mapFrame_quiet _ _ _ _) fun _ => .bind (preserves_observe _) fun _ =>
      .bind .get fun _ => .bind (quiet_modify fun state => { Quiet.refl state with }) fun _ =>
        .bind (addReferences_quiet _ _) fun _ => .bind (unmapFrame_quiet _ _) fun _ =>
          .bind (addReferences_quiet _ _) fun _ => .pure _
  have updated : Preserves (Quiet base) (do
      getDiskPageDirectory env
      let pointer ← getDiskPageTable env address false
      if pointer = .null then return .pageNotExist
      let dfn ← observe fun state => load state pointer (ptx address)
      if dfn = 0 then return .pageNotExist
      mapFrame (.env env) frame userLimit 0
      let mapped ← observe fun state => kernelFrame state userLimit
      writeDiskPage dfn ((← get).memory mapped)
      addReferences frame 1
      unmapFrame (.env env) userLimit
      addReferences frame (2 ^ 16 - 1)
      return PageFileCode.success) :=
    .bind (getDiskPageDirectory_quiet env) fun _ =>
      .bind (getDiskPageTable_quiet _ _ _) fun _ => .ite (.pure _)
        (.bind (preserves_observe _) fun dfn => .ite (.pure _) (written dfn))
  exact .ite (.bind (.throw _) fun _ => updated) updated

theorem pfRemoveEnvPage_quiet (env address : Nat) :
    Preserves (Quiet base) (pfRemoveEnvPage env address) :=
  .bind .get fun _ => .ite (.pure _) (.bind (getDiskPageTable_quiet _ _ _) fun _ =>
    .ite (.pure _) (.bind (preserves_observe _) fun _ =>
      .bind (store_quiet _ _ _) fun _ => freeDiskFrame_quiet _))

end FosKernel
