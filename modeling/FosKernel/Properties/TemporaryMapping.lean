import FosKernel.Properties.AllocatePage
import FosKernel.Properties.ZeroPages

/-! # The mapping at `USER_LIMIT` is neutral

`pf_update_env_page` writes a frame to the disk through a mapping at `USER_LIMIT`. The
reference that it takes by hand keeps the frame from being freed when the mapping goes.
-/

namespace FosKernel.TemporaryMapping

open AllocatePage

section Sequence

variable {state : State} {env frame : Nat} {dfn : Word}

/-- The end of `pf_update_env_page`. -/
def writeAtLimit (env frame : Nat) (dfn : Word) : Kernel PageFileCode := do
  mapFrame (.env env) frame userLimit 0
  let mapped ← observe fun state => kernelFrame state userLimit
  writeDiskPage dfn ((← get).memory mapped)
  addReferences frame 1
  unmapFrame (.env env) userLimit
  addReferences frame (2 ^ 16 - 1)
  return .success

/-- The frame is on the disk, and nothing else differs. -/
def onDisk (state : State) (frame : Nat) (dfn : Word) : State :=
  { state with sectors := ideWrite state.sectors (startSector dfn) (state.memory frame) }

theorem pfUpdateEnvPage_writes {start : State} {address : Nat} {pointer : TablePointer}
    (user : address < kernelBase) (directory : getDiskPageDirectory env start = .ok ((), state))
    (table : getDiskPageTable env address false state = .ok (pointer, state))
    (nonnull : pointer ≠ .null) (found : load state pointer (ptx address) = .ok dfn)
    (stored : dfn ≠ 0) :
    pfUpdateEnvPage env address frame start = writeAtLimit env frame dfn state := by
  have inside : ¬kernelBase ≤ address := Nat.not_le.mpr user
  rw [pfUpdateEnvPage]
  simp only [inside, if_false]
  rw [Kernel.bind_run directory, Kernel.bind_run table]
  simp only [nonnull, if_false]
  rw [Kernel.observe_run found]
  simp only [stored, if_false]
  rfl

theorem writeAtLimit_run (limit : LimitTable state env)
    (empty : state.bootTables (ppn userLimit) = 0) (inside : frame < state.numberOfFrames)
    (physical : state.numberOfFrames ≤ 2 ^ 20)
    (few : (state.framesInfo frame).references < 2 ^ 16 - 1) :
    writeAtLimit env frame dfn state = .ok (.success, onDisk state frame dfn) := by
  have bound : frame < 2 ^ 20 := Nat.lt_of_lt_of_le inside physical
  rcases @LimitTable.enter _ _ _ 0 limit bound (by decide) empty with ⟨mapped, reached⟩
  let sectors := ideWrite state.sectors (startSector dfn) (state.memory frame)
  let counted := ({ mappedAtLimit state frame 0 with sectors } : State).addReferences frame 1
  have table : LimitTable counted env := @LimitTable.atLimit _ _ _ 0 limit state.memory sectors
  have word : counted.bootTables (ppn userLimit) = mapWord frame 0 :=
    @atLimit_occupied state frame 0 state.memory sectors
  have occupied := ne_zero_of_present (present_mapWord frame 0)
  have refers : frameOf (mapWord frame 0) = frame := frameOf_mapWord bound (by decide)
  have found : getFrameInfo counted (.env env) userLimit =
      .ok (some frame, .boot (pdx userLimit)) := by
    have loaded := (limitEntryAt counted (.env env)).loaded
    rw [limitEntry, word] at loaded
    have framed : toFrameInfo counted frame = .ok frame := if_neg (Nat.not_le.mpr inside)
    rw [getFrameInfo, table]
    simp only [frameAt, loaded, bind, Except.bind, occupied, if_false, refers, framed]
    rfl
  have unmapped := unmapFrame_run found (fun null => by cases null)
    (limitEntryAt counted (.env env)) (by rwa [limitEntry, word])
  have neutral := @limit_neutral state env frame 0 bound (by decide) empty few state.memory sectors
  have wrote : writeDiskPage dfn ((mappedAtLimit state frame 0).memory frame)
      (mappedAtLimit state frame 0) =
        .ok ((), { mappedAtLimit state frame 0 with sectors }) := rfl
  have added : addReferences frame 1 { mappedAtLimit state frame 0 with sectors } =
      .ok ((), counted) := rfl
  have dropped : addReferences frame (2 ^ 16 - 1) (counted.clearEntry (.env env) userLimit) =
      .ok ((), onDisk state frame dfn) := congrArg (fun final => Except.ok ((), final)) neutral
  rw [writeAtLimit, Kernel.bind_run mapped, Kernel.observe_run reached, Kernel.bind_get_run,
    Kernel.bind_run wrote, Kernel.bind_run added, Kernel.bind_run unmapped,
    Kernel.bind_run dropped]
  rfl

end Sequence

/-- Memory management is as it was: the entries of all pages, the counts and the buffered
frames, and both lists of frames. -/
structure Neutral (before after : State) : Prop where
  entries : ∀ owner page, after.pageEntry owner page = before.pageEntry owner page
  bootTables : after.bootTables = before.bootTables
  directories : after.pageDirectory = before.pageDirectory
  info : after.framesInfo = before.framesInfo
  links : after.frameLinks = before.frameLinks
  free : after.freeFrameList = before.freeFrameList
  modified : after.modifiedFrameList = before.modifiedFrameList
  memory : after.memory = before.memory

/-- The sequence at `USER_LIMIT` is neutral for every frame with less than 65535 references,
and the frame is written to the disk. -/
theorem temporary_mapping_neutral {state : State} {env frame : Nat} {dfn : Word}
    (limit : LimitTable state env) (empty : state.bootTables (ppn userLimit) = 0)
    (inside : frame < state.numberOfFrames) (physical : state.numberOfFrames ≤ 2 ^ 20)
    (few : (state.framesInfo frame).references < 65535) :
    ∃ final, writeAtLimit env frame dfn state = .ok (.success, final) ∧ Neutral state final ∧
      (∀ index < 1024, final.diskPage dfn index = state.memory frame index) ∧
      ∀ {start : State} {address : Nat} {pointer : TablePointer}, address < kernelBase →
        getDiskPageDirectory env start = .ok ((), state) →
        getDiskPageTable env address false state = .ok (pointer, state) → pointer ≠ .null →
        load state pointer (ptx address) = .ok dfn → dfn ≠ 0 →
          pfUpdateEnvPage env address frame start = .ok (.success, final) := by
  have run := @writeAtLimit_run state env frame dfn limit empty inside physical few
  refine ⟨onDisk state frame dfn, run, ?_, ?_, ?_⟩
  · exact ⟨fun _ _ => rfl, rfl, rfl, rfl, rfl, rfl, rfl, rfl⟩
  · exact fun index below => ZeroPages.ideRead_ideWrite _ _ _ below
  · intro start address pointer user directory table nonnull found stored
    exact (pfUpdateEnvPage_writes user directory table nonnull found stored).trans run

/-- A frame of the kernel, which has one reference -/
theorem temporary_mapping_kernel_frame : ∃ final : State,
    writeAtLimit 0 0x100 1 sampleEnvironments = .ok (.success, final) ∧
      (final.framesInfo 0x100).references = 1 ∧
        final.freeFrameList = sampleEnvironments.freeFrameList := by
  rcases @temporary_mapping_neutral sampleEnvironments 0 0x100 1 (sampleEnvironments_limit 0) rfl
    (by decide) (by decide) (by decide) with ⟨final, run, neutral, _⟩
  refine ⟨final, run, ?_, neutral.free⟩
  rw [neutral.info]
  rfl

end FosKernel.TemporaryMapping
