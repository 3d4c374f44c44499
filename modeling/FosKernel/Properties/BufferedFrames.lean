import FosKernel.Refinement.Boot
import FosKernel.System

/-! # Owners of buffered frames

`allocate_frame`, the flush loop and `cleanup_buffers` find the page of a buffered
frame in the fields `environment` and `va` of its record. The fault handler, which puts
frames on the lists when it replaces a page, does not write these fields.
-/

namespace FosKernel.BufferedFrames

open Kernel

/-- The record of the frame names the page that was evicted from it. -/
def Owned (state : State) (frame : Nat) : Prop :=
  ∃ env, (state.framesInfo frame).environment = some env ∧
    let entry := state.slotEntry (.user env (ppn (state.framesInfo frame).va))
    hasPerm entry permBuffered = true ∧ hasPerm entry permPresent = false ∧
      frameOf entry = frame

structure AllOwned (state : State) : Prop where
  modified : ∀ frame, OnList state.frameLinks state.modifiedFrameList frame →
    Owned state frame
  free : ∀ frame, OnList state.frameLinks state.freeFrameList frame →
    (state.framesInfo frame).isBuffered = true → Owned state frame

/-- The page that the record of a frame names. -/
def recordedSlot (state : State) (frame : Nat) : Option Slot :=
  (state.framesInfo frame).environment.map fun env =>
    .user env (ppn (state.framesInfo frame).va)

/-- `allocate_frame` clears the entry that still refers to the frame, and no other. -/
def AllocationClears (state : State) : Prop :=
  ∀ frame final, allocateFrame state = .ok (frame, final) → ∀ slot,
    final.slotEntry slot =
      if (state.framesInfo frame).isBuffered = true ∧ recordedSlot state frame = some slot
      then 0 else state.slotEntry slot

/-- The flush loop writes every modified frame to the page of its owner. -/
def FlushWritesBack (state : State) : Prop :=
  ∀ env final, forEachModified (flushFrame env) foreachFuel state.modifiedFrameList.first
      state = .ok ((), final) →
    ∀ frame, OnList state.frameLinks state.modifiedFrameList frame →
      ∃ owner dfn, (state.framesInfo frame).environment = some owner ∧
        final.memory (frameOf (final.diskDirectory owner
          (pdx (state.framesInfo frame).va))) (ptx (state.framesInfo frame).va) = dfn ∧
        ∀ index < 1024, final.diskPage dfn index = state.memory frame index

/-- `cleanup_buffers` leaves no modified frame of the environment. -/
def CleanupRemoves (state : State) : Prop :=
  ∀ env final, cleanupBuffers env state = .ok ((), final) →
    ∀ frame, OnList final.frameLinks final.modifiedFrameList frame →
      (final.framesInfo frame).environment ≠ some env

/-- The call is a fault that finds the working set full. -/
def Replaces (state : State) : Call → Prop
  | .fault address =>
      hasPerm (state.pageDirectory (.env state.curenv) (pdx address)) permPresent = true ∧
        (state.envs state.curenv).pageWSMaxSize ≤ envPageWsGetSize (state.envs state.curenv)
  | _ => False

instance (state : State) : DecidablePred (Replaces state)
  | .fault _ => inferInstanceAs (Decidable (_ ∧ _))
  | .allocateFrame | .freeFrame _ | .mapFrame _ _ _ _ | .unmapFrame _ _ | .kmalloc _
  | .kfree _ | .envCreate _ _ _ | .schedule _ | .sysAllocateMem _ _ | .sysFreeMem _ _
  | .read _ | .write _ _ | .exit _ => inferInstanceAs (Decidable False)

theorem discard_unbuffered {action : Kernel α} (kept : Preserves Unbuffered action) :
    Preserves Unbuffered (discard action) := .bind kept fun _ => .pure ()

theorem faultHandler_unbuffered {state final : State} {address : Nat}
    (unbuffered : Unbuffered state) (room : ¬Replaces state (.fault address))
    (returned : faultHandler address state = .ok ((), final)) : Unbuffered final := by
  rcases Kernel.ite_ok.mp returned with ⟨-, stopped⟩ | ⟨-, returned⟩
  · rcases Kernel.bind_ok.mp stopped with ⟨_, _, thrown, -⟩
    exact (Kernel.throw_ok.mp thrown).elim
  replace returned := Kernel.bind_get_ok.mp returned
  rcases Kernel.ite_ok.mp returned with ⟨-, created⟩ | ⟨present, returned⟩
  · exact (Preserves.bind (.ofQuiet (createPageTable_quiet _ _)) fun _ => .pure _)
      state () final unbuffered created
  rcases Kernel.ite_ok.mp returned with ⟨-, stopped⟩ | ⟨-, returned⟩
  · exact (Kernel.throw_ok.mp stopped).elim
  replace returned := Kernel.bind_get_ok.mp returned
  rcases Kernel.bind_observe_ok.mp returned with ⟨_, -, returned⟩
  rcases Kernel.ite_ok.mp returned with ⟨-, placed⟩ | ⟨full, -⟩
  · exact placementBranch_unbuffered _ _ _ state () final unbuffered placed
  · exact absurd ⟨not_not.mp present, Nat.not_lt.mp full⟩ room

theorem call_unbuffered {state final : State} {call : Call} (unbuffered : Unbuffered state)
    (room : ¬Replaces state call) (returned : call.run state = .ok ((), final)) :
    Unbuffered final := by
  cases call with
  | allocateFrame =>
      exact discard_unbuffered (.ofQuiet allocateFrame_quiet) _ _ _ unbuffered returned
  | freeFrame frame => exact Preserves.ofQuiet (freeFrame_quiet _) _ _ _ unbuffered returned
  | mapFrame env frame address perm =>
      exact Preserves.ofQuiet (mapFrame_quiet _ _ _ _) _ _ _ unbuffered returned
  | unmapFrame env address =>
      exact Preserves.ofQuiet (unmapFrame_quiet _ _) _ _ _ unbuffered returned
  | kmalloc size =>
      exact discard_unbuffered (.ofQuiet (kmalloc_quiet size)) _ _ _ unbuffered returned
  | kfree address => exact Preserves.ofQuiet (kfree_quiet _) _ _ _ unbuffered returned
  | envCreate env program pageWSSize =>
      exact envCreate_unbuffered _ _ _ _ _ _ unbuffered returned
  | schedule env =>
      rcases Kernel.modify_ok.mp returned with rfl
      exact ⟨unbuffered.plain, unbuffered.modified⟩
  | fault address => exact faultHandler_unbuffered unbuffered room returned
  | sysAllocateMem address size =>
      exact Preserves.bind .get (fun _ => allocateMem_unbuffered _ _ _) _ _ _ unbuffered returned
  | sysFreeMem address size =>
      exact Preserves.bind .get (fun _ => .ite (.pure _) (freeMem_unbuffered _ _ _)) _ _ _
        unbuffered returned
  | read address =>
      refine Preserves.bind .get (fun _ => discard_unbuffered ?_) _ _ _ unbuffered returned
      exact .bind (preserves_observe _) fun _ =>
        .bind (unbuffered_modify (fun _ => rfl) fun _ => rfl) fun _ => .bind .get fun _ => .pure _
  | write address word =>
      refine Preserves.bind .get (fun _ => ?_) _ _ _ unbuffered returned
      exact .bind (preserves_observe _) fun _ =>
        .ite (.bind (.throw _) fun _ => .ofQuiet (writeUserPage_quiet _ _ _))
          (.ofQuiet (writeUserPage_quiet _ _ _))
  | exit env => exact schedInsertExit_unbuffered _ _ _ _ unbuffered returned

section Runs

variable {layout : BootLayout} {contents : BootContents} {state : State}

theorem reachable_unbuffered
    (reachable : Reachable layout contents (fun state call => ¬Replaces state call) state) :
    Unbuffered state := by
  induction reachable with
  | boot returned =>
      exact initializePaging_unbuffered _ _ _ _ (beforePaging_unbuffered layout contents) returned
  | call _ room returned induction => exact call_unbuffered induction room returned

theorem not_onList_modified (unbuffered : Unbuffered state) {frame : Nat} :
    ¬OnList state.frameLinks state.modifiedFrameList frame := by
  rw [unbuffered.modified]
  intro onList
  induction onList with
  | first first => cases first
  | next _ _ induction => exact induction

theorem allocationClears (unbuffered : Unbuffered state) : AllocationClears state := by
  intro frame final returned slot
  have plain := unbuffered.plain
  rcases allocateFrame_ok (fun frame buffered => absurd buffered (by simp [plain frame]))
    returned with ⟨-, -, rfl⟩
  rw [if_neg (by simp [plain frame])]
  rfl

/-- As long as no fault finds its working set full, every buffered frame has its owner. -/
theorem all_owned_of_no_replacement
    (reachable : Reachable layout contents (fun state call => ¬Replaces state call) state) :
    AllOwned state ∧ AllocationClears state ∧ FlushWritesBack state ∧ CleanupRemoves state := by
  have unbuffered := reachable_unbuffered reachable
  refine ⟨⟨?_, ?_⟩, allocationClears unbuffered, ?_, ?_⟩
  · exact fun frame onList => absurd onList (not_onList_modified unbuffered)
  · intro frame _ buffered
    rw [unbuffered.plain] at buffered
    cases buffered
  · exact fun env final _ frame onList => absurd onList (not_onList_modified unbuffered)
  · intro env final returned frame onList
    have later := cleanupBuffers_unbuffered env state () final unbuffered returned
    exact absurd onList (not_onList_modified later)

end Runs

/-! ## Runs of one program -/

/-- Two pages of the user heap are allocated and the first is touched. -/
def touchCalls (pageWSSize : Nat) : List Call :=
  [.envCreate 0 sampleProgram pageWSSize, .schedule 0, .sysAllocateMem 0x80000000 0x2000,
    .fault 0x80000000, .fault 0x80000000]

theorem all_owned_of_room :
    ∃ state, Reachable sampleLayout sampleContents (fun state call => ¬Replaces state call)
      state ∧ AllOwned state := by
  have ran : (runCalls (fun state call => !decide (Replaces state call)) (touchCalls 3)
      sampleState).isSome = true := by decide +kernel
  rcases Option.isSome_iff_exists.mp ran with ⟨state, reached⟩
  have reachable : Reachable sampleLayout sampleContents
      (fun state call => ¬Replaces state call) state :=
    .calls (by simp) (.boot sample_boots) reached
  exact ⟨state, reachable, (all_owned_of_no_replacement reachable).1⟩

/-- With room for one page only, the stack page is evicted and its frame has no owner. -/
theorem not_all_owned_after_replacement :
    ∃ state, Reachable sampleLayout sampleContents (fun _ _ => True) state ∧
      ¬AllOwned state := by
  have ran : ((runCalls (fun _ _ => true) (touchCalls 1) sampleState).any fun state =>
      state.modifiedFrameList.first.any fun frame =>
        (state.framesInfo frame).environment = none) = true := by decide +kernel
  rcases (Option.any_eq_true _ _).mp ran with ⟨state, reached, lost⟩
  rcases (Option.any_eq_true _ _).mp lost with ⟨frame, first, anonymous⟩
  refine ⟨state, .calls (fun _ _ _ => trivial) (.boot sample_boots) reached, fun owned => ?_⟩
  rcases owned.modified frame (.first first) with ⟨env, recorded, -⟩
  rw [decide_eq_true_iff.mp anonymous] at recorded
  cases recorded

end FosKernel.BufferedFrames
