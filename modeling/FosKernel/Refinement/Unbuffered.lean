import FosKernel.Boot
import FosKernel.Refinement.Creation

/-! # Memory without buffered frames

Only the replacement branch of the fault handler marks frames as buffered or puts them
on the modified list. Every other function keeps both empty.
-/

namespace FosKernel

open Kernel

structure Unbuffered (state : State) : Prop where
  plain : ∀ frame, (state.framesInfo frame).isBuffered = false
  modified : state.modifiedFrameList = ListHead.empty

theorem Unbuffered.setFrameInfo {state : State} (unbuffered : Unbuffered state) (frame : Nat)
    {info : FrameInfo} (plain : info.isBuffered = false) :
    Unbuffered (state.setFrameInfo frame info) where
  plain := by
    intro other
    by_cases same : other = frame
    · simpa [State.setFrameInfo, same] using plain
    · simpa [State.setFrameInfo, same] using unbuffered.plain other
  modified := unbuffered.modified

/-- A change of the state that concerns neither frame records nor the modified list. -/
theorem unbuffered_modify {change : State → State}
    (info : ∀ state, (change state).framesInfo = state.framesInfo)
    (modified : ∀ state, (change state).modifiedFrameList = state.modifiedFrameList) :
    Preserves Unbuffered (modify change : Kernel PUnit) :=
  .modify fun state unbuffered =>
    ⟨by rw [info]; exact unbuffered.plain, by rw [modified]; exact unbuffered.modified⟩

theorem Preserves.ofQuiet {action : Kernel α}
    (quiet : ∀ {base}, Preserves (Quiet base) action) : Preserves Unbuffered action := by
  intro state result final unbuffered returned
  have step := quiet state result final (Quiet.refl state) returned
  refine ⟨fun frame => step.plain frame (unbuffered.plain frame), ?_⟩
  rw [step.modified, unbuffered.modified]

/-! ## Placement -/

theorem envPageWsSetEntry_unbuffered (env index address : Nat) :
    Preserves Unbuffered (envPageWsSetEntry env index address) := by
  refine .bind .get fun state => ?_
  have entered : Preserves Unbuffered (modify fun after : State => after.setEnv env
      ((state.envs env).setElement index ⟨roundDown address, false, 0x80000000⟩) :
        Kernel PUnit) :=
    unbuffered_modify (fun _ => rfl) fun _ => rfl
  have checked : Preserves Unbuffered (do
      if userTop ≤ address then
        throw (.panic "assertion failed: virtual_address >= 0 && virtual_address < USER_TOP")
      modify fun after : State => after.setEnv env
        ((state.envs env).setElement index ⟨roundDown address, false, 0x80000000⟩) :
          Kernel PUnit) :=
    .ite (.bind (.throw _) fun _ => entered) entered
  exact .ite (.bind (.throw _) fun _ => checked) checked

theorem envPageWsClearEntry_unbuffered (env index : Nat) :
    Preserves Unbuffered (envPageWsClearEntry env index) := by
  refine .bind .get fun state => ?_
  have cleared : Preserves Unbuffered (modify fun after : State => after.setEnv env
      ((state.envs env).setElement index .cleared) : Kernel PUnit) :=
    unbuffered_modify (fun _ => rfl) fun _ => rfl
  exact .ite (.bind (.throw _) fun _ => cleared) cleared

theorem setLastWSIndex_unbuffered (env index : Nat) :
    Preserves Unbuffered (setLastWSIndex env index) :=
  unbuffered_modify (fun _ => rfl) fun _ => rfl

theorem placeInWorkingSet_unbuffered (env address : Nat) (indices : List Nat) :
    Preserves Unbuffered (placeInWorkingSet env address indices) := by
  induction indices with
  | nil => exact .pure _
  | cons index indices induction =>
      exact .bind .get fun _ => .ite (.bind (envPageWsSetEntry_unbuffered _ _ _) fun _ =>
        setLastWSIndex_unbuffered _ _) induction

theorem placement_unbuffered (env faultVa : Nat) :
    Preserves Unbuffered (placement env faultVa) := by
  refine .bind (.ofQuiet allocateFrame_quiet) fun _ =>
    .bind (.ofQuiet (mapFrame_quiet _ _ _ _)) fun _ => ?_
  refine .bind (.ofQuiet (pfReadEnvPage_quiet _ _)) fun _ => ?_
  have placed : ∀ address, Preserves Unbuffered (do
      placeInWorkingSet env address
        (List.range ((← getThe State).envs env).pageWSMaxSize) : Kernel Unit) :=
    fun address => .bind .get fun _ => placeInWorkingSet_unbuffered _ _ _
  refine .ite (.ite ?_ ?_) (placed _)
  · exact .bind (.ofQuiet (pfAddEmptyEnvPage_quiet _ _ _)) fun _ => placed _
  · exact .bind (.throw _) fun _ => placed _

theorem placementBranch_unbuffered (env faultVa lastIDX : Nat) :
    Preserves Unbuffered (placementBranch env faultVa lastIDX) := by
  have ended : Preserves Unbuffered (setLastWSIndexAfter env lastIDX) :=
    .bind .get fun _ => setLastWSIndex_unbuffered _ _
  refine .bind (placement_unbuffered env faultVa) fun _ =>
    .bind (preserves_observe _) fun _ => .ite ?_ ended
  refine .bind (.ofQuiet (pfReadEnvPage_quiet _ _)) fun _ => .ite (.ite ?_ ?_) ended
  · exact .bind (.ofQuiet (pfAddEmptyEnvPage_quiet _ _ _)) fun _ => ended
  · exact .bind (.throw _) fun _ => ended

/-! ## User memory -/

theorem allocateMem_unbuffered (env address size : Nat) :
    Preserves Unbuffered (allocateMem env address size) :=
  preserves_forEach (fun _ => .bind (.ofQuiet (pfAddEmptyEnvPage_quiet _ _ _)) fun _ => .pure _) _

theorem removeFromWorkingSet_unbuffered (env address : Nat) (indices : List Nat) :
    Preserves Unbuffered (removeFromWorkingSet env address indices) := by
  induction indices with
  | nil => exact .pure _
  | cons index indices induction =>
      exact .bind (preserves_observe _) fun _ =>
        .ite (envPageWsClearEntry_unbuffered _ _) induction

theorem removePageTable_unbuffered (env address : Nat) (pointer : TablePointer) :
    Preserves Unbuffered (removePageTable env address pointer) := by
  refine .bind (preserves_observe _) fun _ => .bind (preserves_observe _) fun frame => ?_
  refine .bind (.modify fun _ unbuffered =>
    unbuffered.setFrameInfo frame (unbuffered.plain frame)) fun _ => ?_
  exact .bind (.ofQuiet (freeFrame_quiet _)) fun _ => unbuffered_modify (fun _ => rfl) fun _ => rfl

theorem freeMemPage_unbuffered (env address : Nat) :
    Preserves Unbuffered (freeMemPage env address) := by
  refine .bind (.ofQuiet (pfRemoveEnvPage_quiet _ _)) fun _ => .bind .get fun _ => ?_
  refine .bind (removeFromWorkingSet_unbuffered _ _ _) fun _ => ?_
  refine .bind (.ofQuiet (unmapFrame_quiet _ _)) fun _ =>
    .bind (preserves_observe _) fun found => ?_
  rcases found with ⟨status, pointer⟩
  exact .ite (.bind (preserves_observe _) fun _ =>
    .ite (removePageTable_unbuffered _ _ _) (.pure _)) (.pure _)

theorem freeMem_unbuffered (env address size : Nat) :
    Preserves Unbuffered (freeMem env address size) :=
  .bind (preserves_forEach (fun _ => freeMemPage_unbuffered _ _) _) fun _ =>
    .ite (.throw _) (.pure _)

/-! ## Environments -/

theorem unbuffered_loading (env : Nat) : Loading env Unbuffered where
  quiet := by
    intro before after quiet unbuffered
    refine ⟨fun frame => quiet.plain frame (unbuffered.plain frame), ?_⟩
    rw [quiet.modified, unbuffered.modified]
  record := by
    intro state value _ unbuffered
    exact ⟨unbuffered.plain, unbuffered.modified⟩

theorem envCreate_unbuffered (env : Nat) (program : Program) (pageWSSize : Nat) :
    Preserves Unbuffered (envCreate env program pageWSSize) := by
  have loading := unbuffered_loading env
  refine .bind (unbuffered_modify (fun _ => rfl) fun _ => rfl) fun _ =>
    .bind loading.createUserDirectory fun _ => .bind (preserves_observe _) fun _ => ?_
  exact .bind (unbuffered_modify (fun _ => rfl) fun _ => rfl) fun _ =>
    .bind (loading.initializeEnvironment _ _) fun _ => .bind (loading.loadSegments _ _ _) fun _ =>
      .bind (loading.clearModified _) fun _ => loading.loadStack

/-- There is nothing to clean up. -/
theorem cleanupBuffers_unbuffered (env : Nat) :
    Preserves Unbuffered (cleanupBuffers env) := by
  intro state result final unbuffered returned
  replace returned := Kernel.bind_get_ok.mp returned
  have first : state.modifiedFrameList.first = none := by rw [unbuffered.modified]; rfl
  rw [first] at returned
  rcases Kernel.modify_ok.mp returned with rfl
  refine ⟨unbuffered.plain, ?_⟩
  rw [unbuffered.modified]
  rfl

theorem schedInsertExit_unbuffered (env : Nat) :
    Preserves Unbuffered (schedInsertExit env) :=
  .bind .get fun _ => .ite (cleanupBuffers_unbuffered env) (.pure _)

/-! ## Boot -/

theorem beforePaging_unbuffered (layout : BootLayout) (contents : BootContents) :
    Unbuffered (layout.beforePaging contents) := ⟨fun _ => rfl, rfl⟩

theorem initializePaging_unbuffered (kernelFrames : Nat) :
    Preserves Unbuffered (initializePaging kernelFrames) := by
  have counted : ∀ frames, Preserves Unbuffered (Kernel.forEach (setReferences 1) frames) :=
    preserves_forEach fun frame => .modify fun _ unbuffered =>
      unbuffered.setFrameInfo frame (unbuffered.plain frame)
  have freed : ∀ frames, Preserves Unbuffered (Kernel.forEach freeFrame frames) :=
    preserves_forEach fun frame => .ofQuiet (freeFrame_quiet frame)
  refine .bind (unbuffered_modify (fun _ => rfl) fun _ => rfl) fun _ => ?_
  refine .bind (.modify fun state unbuffered => ⟨unbuffered.plain, ?_⟩) fun _ => ?_
  · simp only [State.withModified, listInit, State.modified, unbuffered.modified]
    rfl
  refine .bind (counted _) fun _ => .bind (unbuffered_modify (fun _ => rfl) fun _ => rfl)
    fun _ => .bind (freed _) fun _ => .bind (counted _) fun _ => .bind (counted _) fun _ =>
      .bind .get fun _ => .bind (freed _) fun _ => ?_
  refine .bind (unbuffered_modify (fun _ => rfl) fun _ => rfl) fun _ =>
    preserves_forEach (fun _ => ?_) _
  exact .bind (unbuffered_modify (fun _ => rfl) fun _ => rfl) fun _ =>
    unbuffered_modify (fun _ => rfl) fun _ => rfl

end FosKernel
