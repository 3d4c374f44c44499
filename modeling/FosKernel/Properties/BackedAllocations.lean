import FosKernel.Properties.KernelHeap
import FosKernel.Refinement.PageFileProgress
import FosKernel.System
import FosKernel.UserHeap

/-! # Backing of allocations

`malloc` finds a place in the user heap and asks the kernel for its pages. `allocateMem`
drops the result of `pf_add_empty_env_page`, so that a pointer is returned also when the
page file is full.
-/

namespace FosKernel.BackedAllocations

open Kernel
open KernelHeap (boot_cleared)

/-- The pages of a list that are not in the page file. -/
def missingPages (state : State) (env : Nat) (addresses : List Nat) : Nat :=
  addresses.countP fun address => state.diskEntry env (ppn address) = 0

section Kernel

variable {ghost : Ghost} {state final : State} {free : List Nat} {env : Nat}

theorem missingPages_congr {addresses : List Nat}
    (same : ∀ address ∈ addresses,
      final.diskEntry env (ppn address) = state.diskEntry env (ppn address)) :
    missingPages final env addresses = missingPages state env addresses := by
  refine List.countP_congr fun address member => ?_
  rw [same address member]

/-- The loop of `allocateMem` gives pages a disk frame as long as there is one. -/
theorem allocatePages_ok (consistent : Consistent ghost state.view) (file : PageFile free state)
    {addresses : List Nat} (user : ∀ address ∈ addresses, address < userTop)
    (distinct : (addresses.map ppn).Nodup)
    (returned : Kernel.forEach (fun page => do let _ ← pfAddEmptyEnvPage env page true)
      addresses state = .ok ((), final)) :
    ∃ after left, FileStep ghost state after final ∧ PageFile left final ∧
      left.length = free.length - missingPages state env addresses ∧
      missingPages final env addresses = missingPages state env addresses - free.length ∧
      ∀ someEnv page, ¬(someEnv = env ∧ page ∈ addresses.map ppn) →
        final.diskEntry someEnv page = state.diskEntry someEnv page := by
  induction addresses generalizing ghost state free with
  | nil =>
      rcases pure_ok.mp returned with ⟨-, rfl⟩
      exact ⟨ghost, free, .refl consistent, file, rfl, by simp [missingPages], by simp⟩
  | cons address addresses induction =>
      rcases bind_ok.mp returned with ⟨_, stepped, first, rest⟩
      rcases bind_ok.mp first with ⟨code, middle, adding, ended⟩
      rcases pure_ok.mp ended with ⟨-, rfl⟩
      rw [List.map_cons, List.nodup_cons] at distinct
      rcases pfAddEmptyEnvPage_ok consistent file (user address (by simp)) adding with
        ⟨ghostMiddle, between, outcome⟩
      have count : ∀ someState : State, missingPages someState env (address :: addresses) =
          missingPages someState env addresses +
            if someState.diskEntry env (ppn address) = 0 then 1 else 0 := by
        intro someState
        simp only [missingPages, List.countP_cons, decide_eq_true_eq]
      have others : ∀ someEnv page, ¬(someEnv = env ∧ page = ppn address) →
          middle.diskEntry someEnv page = state.diskEntry someEnv page := by
        rcases outcome.outcome with ⟨-, placed⟩ | ⟨-, -, -, -, same, -⟩
        · exact placed.others
        · exact fun someEnv page _ => same.diskEntry someEnv page
      have later : missingPages middle env addresses = missingPages state env addresses := by
        refine missingPages_congr fun other member => others _ _ ?_
        rintro ⟨-, equal⟩
        exact distinct.1 (equal ▸ List.mem_map_of_mem member)
      have lastFile : PageFile between middle := by
        rcases outcome.outcome with ⟨-, placed⟩ | ⟨-, -, rfl, -, -, nothing⟩
        · exact placed.file
        · exact nothing
      rcases induction outcome.step.consistent lastFile
        (fun other member => user other (by simp [member])) distinct.2 rest with
        ⟨after, left, step, finalFile, length, missing, untouched⟩
      have own := untouched env (ppn address) (by simpa using distinct.1)
      rw [later] at length missing
      refine ⟨after, left, outcome.step.trans step consistent, finalFile, ?_, ?_, ?_⟩
      · rw [count]
        rcases outcome.outcome with ⟨-, placed⟩ | ⟨-, rfl, rfl, -, -, -⟩
        · rcases placed.own with ⟨present, kept, -⟩ | ⟨absent, dfn, taken, -⟩
          · rw [if_neg present, length, kept, Nat.add_zero]
          · rw [if_pos absent, length, taken, List.length_cons]
            omega
        · rw [length]
          simp
      · rw [count, count, own, missing]
        rcases outcome.outcome with ⟨-, placed⟩ | ⟨-, rfl, rfl, absent, same, -⟩
        · rw [if_neg (placed.present file)]
          rcases placed.own with ⟨present, kept, -⟩ | ⟨absent, dfn, taken, -⟩
          · rw [if_neg present, kept]
            rfl
          · rw [if_pos absent, taken, List.length_cons]
            omega
        · rw [same.diskEntry, if_pos absent]
          simp
      · intro someEnv page outside
        have apart : ¬(someEnv = env ∧ page ∈ addresses.map ppn) := by
          rintro ⟨same, member⟩
          exact outside ⟨same, by simp [member]⟩
        have different : ¬(someEnv = env ∧ page = ppn address) := by
          rintro ⟨same, rfl⟩
          exact outside ⟨same, by simp⟩
        rw [untouched someEnv page apart, others someEnv page different]

end Kernel

/-! ## `malloc` with its system calls -/

def runSystemCall : UserHeap.SystemCall → Kernel Unit
  | .allocateMem address size => sysAllocateMem address size
  | .freeMem address size => sysFreeMem address size

/-- `malloc` finds a pointer, and the system calls it makes return. -/
def Returns (nextFit : Bool) (heap : UserHeap.Heap) (state : State) (size pointer : Nat)
    (after : UserHeap.Heap) (final : State) : Prop :=
  ∃ calls, UserHeap.malloc nextFit heap size = some (pointer, after, calls) ∧
    Kernel.forEach runSystemCall calls state = .ok ((), final)

/-- The pages of `[pointer, pointer + ROUNDUP(size, PAGE_SIZE))`. -/
def blockPages (pointer size : Nat) : List Nat := pageRange pointer (pointer + roundUp size)

/-- There are free disk frames for all pages of the block that `malloc` finds. -/
def CanHold (nextFit : Bool) (heap : UserHeap.Heap) (state : State) (free : List Nat)
    (size : Nat) : Prop :=
  ∀ pointer after calls, UserHeap.malloc nextFit heap size = some (pointer, after, calls) →
    pointer ≠ 0 → missingPages state state.curenv (blockPages pointer size) ≤ free.length

/-- A returned block is in the page file, and if the page file cannot hold it `malloc`
returns `NULL` and changes neither the page file nor the heap. -/
structure FullyBacked (nextFit : Bool) (heap : UserHeap.Heap) (state : State)
    (free : List Nat) (size : Nat) : Prop where
  backed : ∀ pointer after final, Returns nextFit heap state size pointer after final →
    pointer ≠ 0 → ∀ page ∈ blockPages pointer size,
      final.diskEntry state.curenv (ppn page) ≠ 0
  refused : ¬CanHold nextFit heap state free size →
    ∃ final, Returns nextFit heap state size 0 heap final ∧ SameFile state final

section Malloc

variable {ghost : Ghost} {state : State} {free : List Nat} {heap : UserHeap.Heap}
  {live : List UserHeap.Record} {size : Nat}

theorem blockPages_of_zero (zero : roundUp size = 0) (pointer : Nat) :
    blockPages pointer size = [] := by
  rw [blockPages, zero]
  exact pageRange_nil le_rfl

/-- A block that `malloc` returns lies in the user heap, and its pages are requested. -/
theorem malloc_request {nextFit : Bool} (valid : heap.Valid live) (positive : 0 < size)
    (upper : size ≤ 0xFFFFF000) {pointer : Nat} {after : UserHeap.Heap}
    {calls : List UserHeap.SystemCall}
    (found : UserHeap.malloc nextFit heap size = some (pointer, after, calls))
    (nonzero : pointer ≠ 0) :
    calls = [.allocateMem pointer (roundUp size)] ∧
      UserHeap.Record.WellPlaced ⟨pointer, roundUp size⟩ := by
  cases nextFit with
  | false =>
      simp only [UserHeap.malloc, Bool.false_eq_true, if_false, Option.some.injEq,
        Prod.mk.injEq] at found
      exact absurd found.1.symm nonzero
  | true =>
      rcases UserHeap.malloc_valid valid positive upper with null | ⟨place, later, block, -, ok⟩
      · rw [null, Option.some.injEq, Prod.mk.injEq] at found
        exact absurd found.1.symm nonzero
      · rw [block, Option.some.injEq, Prod.mk.injEq, Prod.mk.injEq] at found
        rcases found with ⟨rfl, rfl, rfl⟩
        exact ⟨rfl, ok.placed _ (by simp)⟩

theorem allocateMem_pages {address : Nat}
    (placed : UserHeap.Record.WellPlaced ⟨address, roundUp size⟩) :
    pageRange address ((address + roundUp (roundUp size)) % 2 ^ 32) =
      blockPages address size := by
  have pages := placed.pages
  have upper := placed.upper
  have again : roundUp (roundUp size) = roundUp size := by
    rw [UserHeap.roundUp_eq (by simp only [userHeapMax] at upper; omega)]
    simp only at pages
    omega
  rw [again, blockPages, Nat.mod_eq_of_lt (by simp only [userHeapMax] at upper; omega)]

theorem missingPages_eq_zero {env : Nat} {addresses : List Nat} :
    missingPages state env addresses = 0 ↔
      ∀ page ∈ addresses, state.diskEntry env (ppn page) ≠ 0 := by
  simp [missingPages, List.countP_eq_zero]

/-- The block that was returned is in the page file exactly when there were free disk
frames for it. -/
theorem backed_iff_canHold {nextFit : Bool} {pointer : Nat} {after : UserHeap.Heap}
    {final : State} (consistent : Consistent ghost state.view) (file : PageFile free state)
    (valid : heap.Valid live) (word : size < 2 ^ 32)
    (returned : Returns nextFit heap state size pointer after final) (nonzero : pointer ≠ 0) :
    (∀ page ∈ blockPages pointer size, final.diskEntry state.curenv (ppn page) ≠ 0) ↔
      CanHold nextFit heap state free size := by
  rcases returned with ⟨calls, found, ran⟩
  have holds_iff : CanHold nextFit heap state free size ↔
      missingPages state state.curenv (blockPages pointer size) ≤ free.length := by
    constructor
    · intro holds
      exact holds pointer after calls found nonzero
    · intro enough place later someCalls same _
      rw [found, Option.some.injEq, Prod.mk.injEq] at same
      exact same.1 ▸ enough
  rw [holds_iff]
  by_cases zero : roundUp size = 0
  · simp [blockPages_of_zero zero, missingPages]
  have bounds : 0 < size ∧ size ≤ 0xFFFFF000 := by
    unfold roundUp roundDown at zero
    omega
  rcases malloc_request valid bounds.1 bounds.2 found nonzero with ⟨rfl, placed⟩
  rcases bind_ok.mp ran with ⟨_, middle, allocating, ended⟩
  rcases pure_ok.mp ended with ⟨-, rfl⟩
  replace allocating := bind_get_ok.mp allocating
  rw [allocateMem, allocateMem_pages placed] at allocating
  have user : ∀ address ∈ blockPages pointer size, address < userTop := by
    intro address member
    rcases mem_pageRange.mp member with ⟨index, -, below⟩
    have upper := placed.upper
    simp only [userHeapMax, userTop] at upper ⊢
    omega
  rcases allocatePages_ok consistent file user (pageRange_ppn_nodup placed.aligned) allocating
    with ⟨_, _, -, -, -, missing, -⟩
  rw [← missingPages_eq_zero, missing, Nat.sub_eq_zero_iff_le]

/-- In every state of the page file and of the user heap an allocation is fully backed
exactly when there are disk frames for it; without them a returned block has a page that
is not in the page file. -/
theorem fully_backed_iff {nextFit : Bool} (consistent : Consistent ghost state.view)
    (file : PageFile free state) (valid : heap.Valid live) (word : size < 2 ^ 32) :
    (FullyBacked nextFit heap state free size ↔ CanHold nextFit heap state free size) ∧
      ∀ pointer after final, Returns nextFit heap state size pointer after final →
        pointer ≠ 0 →
          ((∀ page ∈ blockPages pointer size, final.diskEntry state.curenv (ppn page) ≠ 0) ↔
            CanHold nextFit heap state free size) := by
  have parts : ∀ pointer after final, Returns nextFit heap state size pointer after final →
      pointer ≠ 0 →
        ((∀ page ∈ blockPages pointer size, final.diskEntry state.curenv (ppn page) ≠ 0) ↔
          CanHold nextFit heap state free size) :=
    fun _ _ _ => backed_iff_canHold consistent file valid word
  refine ⟨⟨?_, ?_⟩, parts⟩
  · intro backed
    by_contra full
    rcases backed.refused full with ⟨final, ⟨calls, null, -⟩, -⟩
    refine full fun pointer after someCalls found nonzero => ?_
    rw [null, Option.some.injEq, Prod.mk.injEq] at found
    exact absurd found.1.symm nonzero
  · intro holds
    refine ⟨fun pointer after final returned nonzero => ?_, fun full => absurd holds full⟩
    exact (parts pointer after final returned nonzero).mpr holds

end Malloc

/-! ## From boot -/

section Sample

variable {ghost : Ghost} {state : State} {free : List Nat} {spare env address size : Nat}

theorem boot_stocked (contents : BootContents) (enough : spare ≤ 40000) :
    ∃ ghost, Stocked ghost (List.range' 1 (pagesPerFile - 1)).reverse
      (sampleLayout.booted contents) spare := by
  rcases boot_cleared contents with ⟨ghost, cleared, length⟩
  exact ⟨ghost,
    { supplied := cleared.sound.supplied
      file := booted_pageFile sampleLayout contents
      strategy := cleared.strategy
      records := by
        rw [show (sampleLayout.booted contents).idx = 0 from rfl]
        omega
      pointer := by
        rw [cleared.startAdd]
        simp only [kernelHeapStart, kernelHeapMax]
        omega
      above := fun page _ => cleared.free page
      enough := by omega }⟩

theorem sample_stocked (enough : spare ≤ 40000) :
    ∃ ghost, Stocked ghost (List.range' 1 (pagesPerFile - 1)).reverse sampleState spare :=
  boot_stocked sampleContents enough

theorem sample_diskEntry (env page : Nat) : sampleState.diskEntry env page = 0 :=
  diskEntry_of_zero rfl

theorem budget_le (state : State) (env : Nat) :
    Stocked.budget state env (Finset.range 1024) ≤ 1025 := by
  have tables := Finset.card_filter_le (Finset.range 1024) fun index =>
    state.diskDirectory env index = 0
  rw [Finset.card_range] at tables
  have directory : missing ((state.envs env).diskEnvPgdir = 0) ≤ 1 := by
    unfold missing
    split <;> omega
  unfold Stocked.budget
  omega

/-- An environment without pages allocates memory. -/
theorem allocateMem_returns (stocked : Stocked ghost free state (1025 + spare))
    (aligned : address % 4096 = 0) (whole : size % 4096 = 0) (upper : address + size ≤ userTop)
    (empty : ∀ page, state.diskEntry env page = 0) :
    ∃ after left final, allocateMem env address size state = .ok ((), final) ∧
      Stocked after left final spare ∧ left.length = free.length - size / 4096 ∧
      ∀ someEnv page, someEnv ≠ env →
        final.diskEntry someEnv page = state.diskEntry someEnv page := by
  have stop : (address + roundUp size) % 2 ^ 32 = address + size := by
    simp only [userTop] at upper
    unfold roundUp roundDown
    omega
  have user : ∀ page ∈ pageRange address (address + size),
      page < userTop ∧ pdx page ∈ Finset.range 1024 := by
    intro page member
    rcases mem_pageRange.mp member with ⟨_, -, below⟩
    refine ⟨by omega, ?_⟩
    simp only [userTop, pdx, ppn, Finset.mem_range] at upper ⊢
    omega
  have enough := stocked.mono (Nat.add_le_add_right (budget_le state env) spare)
  rcases Stocked.addPages_returns user enough with ⟨after, left, final, returned, later⟩
  rcases allocatePages_ok stocked.consistent stocked.file (fun page member => (user page member).1)
    (pageRange_ppn_nodup aligned) returned with ⟨_, someLeft, -, file, length, -, others⟩
  have absent : missingPages state env (pageRange address (address + size)) = size / 4096 := by
    have all : missingPages state env (pageRange address (address + size)) =
        (pageRange address (address + size)).length := by
      refine List.countP_eq_length.mpr fun page _ => ?_
      simpa using empty (ppn page)
    rw [all, pageRange, List.length_map, List.length_range]
    omega
  have sameLength : left.length = someLeft.length :=
    later.file.list.size.symm.trans file.list.size
  refine ⟨after, left, final, ?_, later, ?_, ?_⟩
  · rw [allocateMem, stop]
    exact returned
  · rw [sameLength, length, absent]
  · intro someEnv page different
    exact others someEnv page fun same => different same.1

theorem initial_malloc : UserHeap.malloc true UserHeap.initial 4096 =
    some (0x80000000, UserHeap.initial.place 0x80000000 4096,
      [.allocateMem 0x80000000 4096]) :=
  UserHeap.nextFitAlgo_found
    (rfl : UserHeap.searchLoop UserHeap.initial 4096 (2 ^ 32)
      (UserHeap.Search.start UserHeap.initial) =
        some ⟨0x80001000, 4096, 0x80000000, true, true, 131071, 0x80000000⟩) rfl (by decide)

/-- The first allocation after boot. -/
theorem fully_backed_at_boot :
    FullyBacked true UserHeap.initial sampleState (List.range' 1 (pagesPerFile - 1)).reverse
      4096 := by
  rcases sample_stocked (Nat.zero_le _) with ⟨ghost, stocked⟩
  refine (fully_backed_iff stocked.consistent stocked.file UserHeap.initial_valid
    (by decide)).1.mpr ?_
  intro pointer after calls found _
  rw [initial_malloc, Option.some.injEq, Prod.mk.injEq] at found
  rw [← found.1]
  refine (List.countP_le_length).trans ?_
  rw [List.length_reverse, List.length_range']
  decide

/-- An environment without pages runs and allocates memory. -/
theorem reachable_allocates {supply : Nat}
    (reachable : Reachable sampleLayout sampleContents (fun _ _ => True) state)
    (stocked : Stocked ghost free state supply) (enough : 1025 + spare ≤ supply)
    (aligned : address % 4096 = 0) (whole : size % 4096 = 0) (upper : address + size ≤ userTop)
    (empty : ∀ page, state.diskEntry env page = 0) :
    ∃ after left final, Reachable sampleLayout sampleContents (fun _ _ => True) final ∧
      Stocked after left final spare ∧ left.length = free.length - size / 4096 ∧
      ∀ someEnv page, someEnv ≠ env →
        final.diskEntry someEnv page = state.diskEntry someEnv page := by
  have running := reachable.call trivial
    (show (Call.schedule env).run state = .ok ((), { state with curenv := env }) from rfl)
  rcases allocateMem_returns ((stocked.schedule env).mono enough) aligned whole upper empty with
    ⟨after, left, final, returned, later, length, others⟩
  exact ⟨after, left, final, running.call trivial
    (show (Call.sysAllocateMem address size).run { state with curenv := env } = .ok ((), final)
      from Kernel.bind_get_ok.mpr returned), later, length, others⟩

/-- Two environments fill the page file. The pointer that a third one gets from `malloc`
leads to a page without a disk frame. -/
theorem not_backed_in_full_page_file :
    ∃ ghost free state after final,
      Reachable sampleLayout sampleContents (fun _ _ => True) state ∧
      Consistent ghost state.view ∧ PageFile free state ∧
      Returns true UserHeap.initial state 4096 0x80000000 after final ∧
      final.diskEntry state.curenv (ppn 0x80000000) = 0 ∧
      ¬FullyBacked true UserHeap.initial state free 4096 := by
  have page : (0x80000000 : Nat) % 4096 = 0 := by decide
  rcases sample_stocked (show 4000 ≤ 40000 by decide) with ⟨_, booted⟩
  rcases reachable_allocates (.boot sample_boots) booted (show 1025 + 2100 ≤ 4000 by decide)
    page (show 0x20000000 % 4096 = 0 by decide) (by decide) (sample_diskEntry 1) with
    ⟨_, leftOne, stateOne, reachableOne, stockedOne, lengthOne, othersOne⟩
  have emptyOne : ∀ someEnv page, someEnv ≠ 1 → stateOne.diskEntry someEnv page = 0 := by
    intro someEnv page different
    rw [othersOne someEnv page different, sample_diskEntry]
  rcases reachable_allocates reachableOne stockedOne (show 1025 + 1050 ≤ 2100 by decide)
    page (show 0x7FF000 % 4096 = 0 by decide) (by decide)
    (fun page => emptyOne 2 page (by decide)) with
    ⟨ghost, leftTwo, stateTwo, reachableTwo, stockedTwo, lengthTwo, othersTwo⟩
  have full : leftTwo = [] := by
    rw [lengthOne, List.length_reverse, List.length_range'] at lengthTwo
    exact List.eq_nil_of_length_eq_zero (lengthTwo.trans (by decide))
  rw [full] at stockedTwo
  have empty : ∀ page, stateTwo.diskEntry 3 page = 0 := by
    intro page
    rw [othersTwo 3 page (by decide), emptyOne 3 page (by decide)]
  have running := reachableTwo.call trivial
    (show (Call.schedule 3).run stateTwo = .ok ((), { stateTwo with curenv := 3 }) from rfl)
  have stocked := stockedTwo.schedule 3
  rcases allocateMem_returns (stocked.mono (show 1025 + 0 ≤ 1050 by decide)) page
    (show 4096 % 4096 = 0 by decide) (by decide) empty with ⟨_, _, final, ran, -⟩
  have returned : Returns true UserHeap.initial { stateTwo with curenv := 3 } 4096 0x80000000
      (UserHeap.initial.place 0x80000000 4096) final :=
    ⟨_, initial_malloc, Kernel.bind_ok.mpr ⟨(), final, Kernel.bind_get_ok.mpr ran, rfl⟩⟩
  have single : blockPages 0x80000000 4096 = [0x80000000] := rfl
  have cannot : ¬CanHold true UserHeap.initial { stateTwo with curenv := 3 } [] 4096 := by
    intro holds
    have few := holds _ _ _ initial_malloc (by decide)
    have one : missingPages { stateTwo with curenv := 3 } 3 [0x80000000] = 1 := by
      simp only [missingPages, List.countP_singleton]
      exact if_pos (decide_eq_true (empty _))
    rw [single, one] at few
    exact absurd few (by decide)
  refine ⟨ghost, [], { stateTwo with curenv := 3 }, _, final, running, stocked.consistent,
    stocked.file, returned, ?_, ?_⟩
  · by_contra present
    refine cannot ((backed_iff_canHold stocked.consistent stocked.file UserHeap.initial_valid
      (by decide) returned (by decide)).mp ?_)
    rw [single]
    simpa using present
  · intro backed
    exact cannot ((fully_backed_iff stocked.consistent stocked.file UserHeap.initial_valid
      (by decide)).1.mp backed)

end Sample

end FosKernel.BackedAllocations
