import FosKernel.Properties.BackedAllocations
import FosKernel.Refinement.PageRelease

/-! # Zero pages of the page file

`pf_add_empty_env_page` copies `ptr_zero_page`, a frame that no function writes after boot.
`initialize_paging` clears 1024 bytes of it; the other 3072 keep what memory held before.
-/

namespace FosKernel.ZeroPages

open Kernel

section Sectors

/-- What is read is what was written last. -/
theorem ideRead_ideWrite (sectors : Nat → Nat → Word) (start : Nat) (page : Nat → Word)
    {index : Nat} (inside : index < 1024) :
    ideRead (ideWrite sectors start page) start index = page index := by
  have sector : start ≤ start + index / 128 ∧ start + index / 128 < start + 8 := by omega
  have offset : (start + index / 128 - start) * 128 + index % 128 = index := by omega
  simp only [ideRead, ideWrite, sector, and_self, if_true, offset]

end Sectors

/-! ## Runs of the page file -/

inductive FileCall
  | addPage (env address : Nat) (page : Nat → Word)
  | addEmptyPage (env address : Nat) (initializeByZero : Bool)
  | removePage (env address : Nat)
  | allocateMem (env address size : Nat)

def FileCall.run : FileCall → Kernel Unit
  | .addPage env address page => do
      let _ ← pfAddEnvPage env address page
  | .addEmptyPage env address initializeByZero => do
      let _ ← pfAddEmptyEnvPage env address initializeByZero
  | .removePage env address => pfRemoveEnvPage env address
  | .allocateMem env address size => FosKernel.allocateMem env address size

/-- The pages of a call lie below `USER_TOP`. -/
def FileCall.User : FileCall → Prop
  | .addPage _ address _ => address < userTop
  | .addEmptyPage _ address _ => address < userTop
  | .removePage _ address => address < userTop
  | .allocateMem _ address size => (address + roundUp size) % 2 ^ 32 ≤ userTop

/-- The states after boot and any calls. -/
inductive Run (layout : BootLayout) (contents : BootContents) : State → Prop
  | boot {state} :
      initializePaging layout.kernelFrames (layout.beforePaging contents) = .ok ((), state) →
      Run layout contents state
  | call {state call final} :
      Run layout contents state → FileCall.User call → call.run state = .ok ((), final) →
      Run layout contents final

section Runs

variable {layout : BootLayout} {contents : BootContents} {state middle final : State}
  {env address : Nat}

/-- The page file is in order, and the frame of `ptr_zero_page` is as boot left it. -/
def ZeroFrameKept (zeroFrame : Nat → Word) (state : State) : Prop :=
  ∃ ghost free, Consistent ghost state.view ∧ PageFile free state ∧ 1 ∉ ghost.managed ∧
    state.memory 1 = zeroFrame

theorem ZeroFrameKept.step {ghost after : Ghost} {free : List Nat} {zeroFrame : Nat → Word}
    (step : FileStep ghost state after final) (file : PageFile free final)
    (outside : 1 ∉ ghost.managed) (kept : state.memory 1 = zeroFrame) :
    ZeroFrameKept zeroFrame final := by
  refine ⟨after, free, step.consistent, file, ?_, ?_⟩
  · rwa [step.background.evolves.managed]
  · rw [step.background.unmanaged 1 outside, kept]

theorem AddOutcome.pageFile {ghost after : Ghost} {free left : List Nat} {page : Nat}
    {succeeded : Prop}
    (outcome : AddOutcome ghost free state env page succeeded after left final) :
    PageFile left final := by
  rcases outcome.outcome with ⟨-, added⟩ | ⟨-, -, rfl, -, -, file⟩
  · exact added.file
  · exact file

variable {zeroFrame : Nat → Word}

theorem addPage_kept {page : Nat → Word} {code : PageFileCode} (user : address < userTop)
    (kept : ZeroFrameKept zeroFrame state)
    (returned : pfAddEnvPage env address page state = .ok (code, final)) :
    ZeroFrameKept zeroFrame final := by
  rcases kept with ⟨ghost, free, consistent, file, outside, same⟩
  rcases pfAddEnvPage_ok consistent file user returned with ⟨after, left, outcome, -⟩
  exact .step outcome.step (AddOutcome.pageFile outcome) outside same

theorem addEmptyPage_kept {initializeByZero : Bool} {code : PageFileCode}
    (user : address < userTop) (kept : ZeroFrameKept zeroFrame state)
    (returned : pfAddEmptyEnvPage env address initializeByZero state = .ok (code, final)) :
    ZeroFrameKept zeroFrame final := by
  rcases kept with ⟨ghost, free, consistent, file, outside, same⟩
  rcases pfAddEmptyEnvPage_ok consistent file user returned with ⟨after, left, outcome⟩
  exact .step outcome.step (AddOutcome.pageFile outcome) outside same

theorem removePage_kept (user : address < userTop) (kept : ZeroFrameKept zeroFrame state)
    (returned : pfRemoveEnvPage env address state = .ok ((), final)) :
    ZeroFrameKept zeroFrame final := by
  rcases kept with ⟨ghost, free, consistent, file, outside, same⟩
  rcases pfRemoveEnvPage_ok consistent file user returned with ⟨left, step, later⟩
  exact .step step later outside same

theorem addPages_kept {addresses : List Nat} (user : ∀ page ∈ addresses, page < userTop)
    (kept : ZeroFrameKept zeroFrame state)
    (returned : Kernel.forEach (fun page => do let _ ← pfAddEmptyEnvPage env page true)
      addresses state = .ok ((), final)) : ZeroFrameKept zeroFrame final := by
  induction addresses generalizing state with
  | nil =>
      rcases pure_ok.mp returned with ⟨-, rfl⟩
      exact kept
  | cons page pages induction =>
      rcases bind_ok.mp returned with ⟨_, stepped, first, rest⟩
      rcases bind_ok.mp first with ⟨code, added, adding, ended⟩
      rcases pure_ok.mp ended with ⟨-, rfl⟩
      refine induction (fun other member => user other (List.mem_cons_of_mem _ member)) ?_ rest
      exact addEmptyPage_kept (user page (List.mem_cons_self ..)) kept adding

theorem FileCall.kept {call : FileCall} (user : call.User)
    (kept : ZeroFrameKept zeroFrame state) (returned : call.run state = .ok ((), final)) :
    ZeroFrameKept zeroFrame final := by
  cases call with
  | addPage env address page =>
      rcases bind_ok.mp returned with ⟨code, added, adding, ended⟩
      rcases pure_ok.mp ended with ⟨-, rfl⟩
      exact addPage_kept user kept adding
  | addEmptyPage env address initializeByZero =>
      rcases bind_ok.mp returned with ⟨code, added, adding, ended⟩
      rcases pure_ok.mp ended with ⟨-, rfl⟩
      exact addEmptyPage_kept user kept adding
  | removePage env address => exact removePage_kept user kept returned
  | allocateMem env address size =>
      refine addPages_kept (fun page member => ?_) kept returned
      rcases mem_pageRange.mp member with ⟨_, -, below⟩
      exact lt_of_lt_of_le below user

/-- The frame of `ptr_zero_page` is not handed out. -/
theorem booted_unmanaged {ghost : Ghost} (booted : Booted layout contents ghost state) :
    1 ∉ ghost.managed := by
  rcases booted.empty with ⟨free, rfl⟩
  have lower := layout.kernelLower
  simp only [BootLayout.ghost, Finset.mem_filter, Finset.mem_range]
  simp only [extendedFrame] at lower
  omega

/-- `initialize_paging` keeps the words of the zero page from 256 on. -/
theorem boot_kept
    (returned : initializePaging layout.kernelFrames (layout.beforePaging contents) =
      .ok ((), state)) :
    ZeroFrameKept (fun index => if index < 256 then 0 else contents.memory 1 index) state := by
  rcases initializePaging_ok returned with ⟨ghost, booted⟩
  refine ⟨ghost, _, booted.consistent, initializePaging_pageFile returned,
    booted_unmanaged booted, ?_⟩
  rw [(initializePaging_disk returned).1]
  funext index
  simp [BootLayout.booted]

theorem Run.kept (run : Run layout contents state) :
    ZeroFrameKept (fun index => if index < 256 then 0 else contents.memory 1 index) state := by
  induction run with
  | boot returned => exact boot_kept returned
  | call _ user returned induction => exact FileCall.kept user induction returned

/-- The page reads back as zeros from its disk frame. -/
def ReadsZero (state : State) (env address : Nat) : Prop :=
  ∀ index, index < 1024 → state.diskPage (state.diskEntry env (ppn address)) index = 0

/-- The added page is a copy of the zero page. -/
theorem addEmptyPage_copies (user : address < userTop) (kept : ZeroFrameKept zeroFrame state)
    (returned : pfAddEmptyEnvPage env address true state = .ok (.success, final))
    {index : Nat} (inside : index < 1024) :
    final.diskPage (final.diskEntry env (ppn address)) index = zeroFrame index := by
  rcases kept with ⟨ghost, free, consistent, file, -, same⟩
  have adding : pfAddEnvPage env address (state.memory 1) state = .ok (.success, final) :=
    returned
  rcases pfAddEnvPage_ok consistent file user adding with ⟨_, _, -, -, sectors⟩
  rw [if_pos rfl] at sectors
  rw [State.diskPage, sectors, ideRead_ideWrite _ _ _ inside, same]

/-- After boot and any calls of the page file, an added zero page is zero exactly when the
part of the zero page that `initialize_paging` does not clear was zero before. -/
theorem reads_zero_iff (run : Run layout contents state) (user : address < userTop)
    (returned : pfAddEmptyEnvPage env address true state = .ok (.success, final)) :
    ReadsZero final env address ↔
      ∀ index, 256 ≤ index → index < 1024 → contents.memory 1 index = 0 := by
  have copies : ∀ index, index < 1024 →
      final.diskPage (final.diskEntry env (ppn address)) index =
        if index < 256 then 0 else contents.memory 1 index :=
    fun index inside => addEmptyPage_copies user run.kept returned inside
  constructor
  · intro zero index above inside
    have word := zero index inside
    rwa [copies index inside, if_neg (by omega)] at word
  · intro rest index inside
    rw [copies index inside]
    split
    · rfl
    · next above => exact rest index (by omega) inside

end Runs

/-! ## After boot -/

/-- A heap page can be added right after boot. -/
theorem boot_adds (contents : BootContents) :
    ∃ final, pfAddEmptyEnvPage 0 0x80000000 true (sampleLayout.booted contents) =
      .ok (.success, final) := by
  rcases BackedAllocations.boot_stocked contents (show 2 ≤ 40000 by decide) with ⟨ghost, stocked⟩
  have user : 0x80000000 < userTop := by decide
  have enough : Stocked ghost (List.range' 1 (pagesPerFile - 1)).reverse
      (sampleLayout.booted contents)
      (Stocked.needed (sampleLayout.booted contents) 0 0x80000000 + 0) := stocked
  rcases enough.pfAddEmptyEnvPage_returns user with ⟨code, _, _, final, returned, -⟩
  rcases pfAddEmptyEnvPage_ok stocked.consistent stocked.file user returned with
    ⟨_, _, outcome⟩
  rcases outcome.outcome with ⟨rfl, -⟩ | ⟨-, full, -⟩
  · exact ⟨final, returned⟩
  · have length := congrArg List.length full
    rw [List.length_reverse, List.length_range'] at length
    exact absurd length (by decide)

theorem boot_run (contents : BootContents) :
    Run sampleLayout contents (sampleLayout.booted contents) :=
  .boot (initializePaging_form sampleLayout contents (by decide))

/-- Memory is zero at boot. -/
theorem reads_zero_in_cleared_memory :
    ∃ final, pfAddEmptyEnvPage 0 0x80000000 true sampleState = .ok (.success, final) ∧
      ReadsZero final 0 0x80000000 := by
  rcases boot_adds sampleContents with ⟨final, returned⟩
  refine ⟨final, returned, ?_⟩
  exact (reads_zero_iff (boot_run sampleContents) (by decide) returned).mpr fun _ _ _ => rfl

/-- Byte 1200 of frame 1 is not zero when the kernel boots. -/
def usedContents : BootContents :=
  { sampleContents with
    memory := fun frame index => if frame = 1 ∧ index = 300 then 1 else 0 }

/-- A heap page that was added as a zero page holds this byte. -/
theorem used_memory_shows :
    ∃ state final, Run sampleLayout usedContents state ∧
      pfAddEmptyEnvPage 0 0x80000000 true state = .ok (.success, final) ∧
      final.diskPage (final.diskEntry 0 (ppn 0x80000000)) 300 = 1 ∧
      ¬ReadsZero final 0 0x80000000 := by
  rcases boot_adds usedContents with ⟨final, returned⟩
  have run := boot_run usedContents
  have word : final.diskPage (final.diskEntry 0 (ppn 0x80000000)) 300 = 1 :=
    addEmptyPage_copies (by decide) run.kept returned (by decide)
  refine ⟨_, final, run, returned, word, fun zero => ?_⟩
  rw [zero 300 (by decide)] at word
  exact absurd word (by decide)

end FosKernel.ZeroPages
