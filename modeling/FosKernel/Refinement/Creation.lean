import FosKernel.Process.Environment
import FosKernel.Refinement.Replacement

/-! # What the creation of an environment leaves alone

After its size is set, `env_create` works on frames, tables and the page file and on the
record of the new environment, whose size stays.
-/

namespace FosKernel

open Kernel

/-- What does not depend on the record of an environment but for the size of its working
set. -/
structure Loading (env : Nat) (invariant : State → Prop) : Prop where
  quiet : ∀ before after, Quiet before after → invariant before → invariant after
  record : ∀ state value, value.pageWSMaxSize = (state.envs env).pageWSMaxSize →
    invariant state → invariant (state.setEnv env value)

namespace Loading

variable {env : Nat} {invariant : State → Prop} (loading : Loading env invariant)

include loading

theorem ofQuiet {action : Kernel α} (quiet : ∀ {base}, Preserves (Quiet base) action) :
    Preserves invariant action := by
  intro state result final holds returned
  exact loading.quiet state final (quiet state result final (.refl state) returned) holds

theorem setRecord {change : State → Env}
    (size : ∀ state, (change state).pageWSMaxSize = (state.envs env).pageWSMaxSize) :
    Preserves invariant (modify fun state => state.setEnv env (change state) : Kernel PUnit) :=
  .modify fun state holds => loading.record state _ (size state) holds

theorem setTables {change : State → State} (step : ∀ state, Quiet state (change state)) :
    Preserves invariant (modify change : Kernel PUnit) :=
  .modify fun state holds => loading.quiet state _ (step state) holds

/-! ## The shared working set -/

theorem sharePage (sva dva : Nat) : Preserves invariant (sharePage env sva dva) := by
  refine .bind (preserves_observe _) fun frame => .bind (preserves_observe _) fun found => ?_
  rcases found with ⟨status, pointer⟩
  exact .ite (.bind (loading.ofQuiet (createPageTable_quiet _ _)) fun _ =>
      loading.ofQuiet (store_quiet _ _ _))
    (.bind (.pure _) fun _ => loading.ofQuiet (store_quiet _ _ _))

theorem shareWSAtUserSpace : Preserves invariant (shareWSAtUserSpace env) := by
  refine .bind .get fun state => .bind (loading.ofQuiet (kmalloc_quiet _)) fun address => ?_
  have pages : Preserves invariant (Kernel.forEach
      (fun sva => FosKernel.sharePage env sva (userPagesWSStart + (sva - address)))
      (pageRange address
        ((address + sizeofWorkingSetElement * (state.envs env).pageWSMaxSize) % 2 ^ 32))) :=
    preserves_forEach (fun _ => loading.sharePage _ _) _
  have shared : Preserves invariant (do
      modify fun state => state.setEnv env
        { state.envs env with pageWorkingSetAddress := address }
      if kernelHeapMax <
          (address + sizeofWorkingSetElement * (state.envs env).pageWSMaxSize) % 2 ^ 32 then
        throw .endless
      Kernel.forEach
        (fun sva => FosKernel.sharePage env sva (userPagesWSStart + (sva - address)))
        (pageRange address
          ((address + sizeofWorkingSetElement * (state.envs env).pageWSMaxSize) % 2 ^ 32)) :
          Kernel Unit) :=
    .bind (loading.setRecord fun _ => rfl) fun _ =>
      .ite (.bind (.throw _) fun _ => pages) pages
  exact .ite (.bind (.throw _) fun _ => shared) shared

theorem initializeEnvironment (address frame : Nat) :
    Preserves invariant (initializeEnvironment env address frame) :=
  .bind (preserves_observe _) fun _ =>
    .bind (loading.setTables fun state => { Quiet.refl state with }) fun _ =>
      .bind loading.shareWSAtUserSpace fun _ => .bind (loading.setRecord fun _ => rfl) fun _ =>
        .bind (loading.setTables fun state => { Quiet.refl state with }) fun _ =>
          loading.setTables fun state => { Quiet.refl state with }

/-! ## Segments -/

theorem loadtimeMapFrame (directory : Directory) (frame address : Nat) (perm : Word) :
    Preserves invariant (loadtimeMapFrame directory frame address perm) := by
  have entered : ∀ pointer, Preserves invariant (do
      addReferences frame 1
      store pointer (ptx address) (constructEntry frame (perm ||| permPresent))) :=
    fun pointer => .bind (loading.ofQuiet (addReferences_quiet _ _)) fun _ =>
      loading.ofQuiet (store_quiet _ _ _)
  exact .bind (preserves_observe _) fun _ => .bind .get fun _ =>
    .ite (.bind (loading.ofQuiet (createPageTable_quiet _ _)) entered) (.bind (.pure _) entered)

theorem setLastWSIndex (index : Nat) : Preserves invariant (setLastWSIndex env index) :=
  loading.setRecord fun _ => rfl

theorem nextLastWSIndex : Preserves invariant (nextLastWSIndex env) :=
  .bind .get fun _ => .ite (.bind (.throw _) fun _ => loading.setLastWSIndex _)
    (loading.setLastWSIndex _)

theorem addTableToTableWorkingSet : Preserves invariant (addTableToTableWorkingSet env) :=
  .bind (loading.setRecord fun _ => rfl) fun _ => .bind .get fun _ => .ite (.throw _) (.pure _)

theorem loadPages (lastTable : Nat) (addresses : List Nat) :
    Preserves invariant (loadPages env lastTable addresses) := by
  induction addresses generalizing lastTable with
  | nil => exact .pure _
  | cons address addresses induction =>
      refine .bind (loading.ofQuiet allocateFrame_quiet) fun _ =>
        .bind (loading.loadtimeMapFrame _ _ _ _) fun _ =>
          .bind (loading.setRecord fun _ => rfl) fun _ =>
            .bind loading.nextLastWSIndex fun _ => .ite ?_ (induction _)
      exact .bind loading.addTableToTableWorkingSet fun _ => induction _

theorem programSegmentAllocMapCopyWorkingset (lastTable : Nat) (segment : ProgramSegment)
    (pages : List Nat) :
    Preserves invariant (programSegmentAllocMapCopyWorkingset env lastTable segment pages) :=
  .bind (loading.loadPages _ _) fun _ =>
    .bind (preserves_forEach (fun _ => loading.ofQuiet (writeUserPage_quiet _ _ _)) _) fun _ =>
      .pure _

theorem addProgramPage (address : Nat) (page : Nat → Word) :
    Preserves invariant (addProgramPage env address page) :=
  .bind (loading.ofQuiet (pfAddEnvPage_quiet _ _ _)) fun _ => .ite (.throw _) (.pure _)

theorem addZeroPage (address : Nat) : Preserves invariant (addZeroPage env address) :=
  .bind (loading.ofQuiet (pfAddEmptyEnvPage_quiet _ _ _)) fun _ => .ite (.throw _) (.pure _)

theorem addWholePages (segment : ProgramSegment) (count : Nat) (addresses : List Nat) :
    Preserves invariant (addWholePages env segment count addresses) := by
  induction addresses generalizing count with
  | nil => exact .pure _
  | cons address addresses induction =>
      exact .bind (loading.addProgramPage _ _) fun _ => induction _

theorem addSegmentPages (segment : ProgramSegment) :
    Preserves invariant (addSegmentPages env segment) :=
  .bind (loading.addProgramPage _ _) fun _ => .bind (loading.addWholePages _ _ _) fun _ =>
    .bind (loading.addProgramPage _ _) fun _ => preserves_forEach (fun _ => loading.addZeroPage _) _

theorem loadSegments (remaining lastTable : Nat) (segments : List ProgramSegment) :
    Preserves invariant (loadSegments env remaining lastTable segments) := by
  induction segments generalizing remaining lastTable with
  | nil => exact .pure _
  | cons segment segments induction =>
      exact .bind .get fun _ =>
        .bind (loading.programSegmentAllocMapCopyWorkingset _ segment _) fun _ =>
          .bind (loading.addSegmentPages segment) fun _ => induction _ _

theorem clearModified (indices : List Nat) :
    Preserves invariant (clearModified env indices) := by
  induction indices with
  | nil => exact .pure _
  | cons index indices induction =>
      refine .bind .get fun _ => .ite ?_ induction
      exact .bind (preserves_observe _) fun _ => .bind (preserves_observe _) fun _ =>
        .bind (loading.ofQuiet (store_quiet _ _ _)) fun _ => induction

/-! ## The stack page -/

theorem envPageWsSetEntry (index address : Nat) :
    Preserves invariant (envPageWsSetEntry env index address) := by
  intro state result final holds returned
  rw [envPageWsSetEntry_ok returned]
  exact loading.record state ((state.envs env).setElement index _) rfl holds

theorem loadStack : Preserves invariant (loadStack env) :=
  .bind (loading.ofQuiet allocateFrame_quiet) fun _ =>
    .bind (loading.loadtimeMapFrame _ _ _ _) fun _ =>
      .bind (loading.ofQuiet (writeUserPage_quiet _ _ _)) fun _ => .bind .get fun _ =>
        .bind (loading.envPageWsSetEntry _ _) fun _ => .bind loading.nextLastWSIndex fun _ =>
          .bind (loading.ofQuiet (pfAddEmptyEnvPage_quiet _ _ _)) fun _ => .pure _

theorem createUserDirectory : Preserves invariant createUserDirectory :=
  .bind (loading.ofQuiet (kmalloc_quiet _)) fun _ => .ite (.bind (.throw _) fun _ => .pure _)
    (.pure _)

end Loading

end FosKernel
