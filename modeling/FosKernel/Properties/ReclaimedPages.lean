import FosKernel.Properties.BackedAllocations
import FosKernel.Refinement.PageCalls

/-! # What `pf_free_env` gives back

`pf_add_env_page` and `pf_add_empty_env_page` take every address below `KERNEL_BASE`, while
`pf_free_env` goes through the disk page tables below `USER_TOP`.
-/

namespace FosKernel.ReclaimedPages

open Kernel PageTrace

/-- A call of `pf_add_env_page` or `pf_add_empty_env_page`. -/
inductive AddCall
  | page (address : Nat) (contents : Nat → Word)
  | emptyPage (address : Nat) (initializeByZero : Bool)

def AddCall.address : AddCall → Nat
  | .page address _ => address
  | .emptyPage address _ => address

def AddCall.run (env : Nat) : AddCall → Kernel PageFileCode
  | .page address contents => pfAddEnvPage env address contents
  | .emptyPage address initializeByZero => pfAddEmptyEnvPage env address initializeByZero

/-- The calls of an environment, in their order. -/
def addPages (env : Nat) (calls : List AddCall) : Kernel Unit :=
  Kernel.forEach (fun call => do let _ ← call.run env) calls

section Runs

variable {begin ghost after : Ghost} {start state grown final : State} {free left : List Nat}
variable {env address frame : Nat}

/-- The calls of an environment keep the other environments' words; the pages of the kernel
heap and the frames of memory that they took belong to the environment. -/
structure Traced (begin : Ghost) (start : State) (env : Nat) (ghost : Ghost) (state : State) :
    Prop where
  heap : ∀ page, start.view.entry (.heap page) = 0 → state.view.entry (.heap page) ≠ 0 →
    Occupied state env page
  words : ∀ cell : DiskSlot, cell.env ≠ env → state.diskWord cell = start.diskWord cell
  frames : ∀ frame ∈ begin.free, frame ∈ ghost.free ∨
    ∃ page, Occupied state env page ∧ state.view.entry (.heap page) ≠ 0 ∧
      frameOf (state.view.entry (.heap page)) = frame

namespace Traced

theorem new (begin : Ghost) (start : State) (env : Nat) : Traced begin start env begin start where
  heap _ absent mapped := absurd absent mapped
  words _ _ := rfl
  frames _ inFree := .inl inFree

theorem take (traced : Traced begin start env ghost state) (orderly : Orderly ghost free state)
    (taken : Taken ghost state env frame address after grown final) :
    Traced begin start env after final := by
  constructor
  · intro page absent mapped
    by_cases here : page = ppn address
    · rw [here]
      exact taken.occupied
    · rw [taken.entry_other here] at mapped
      exact taken.kept page mapped (traced.heap page absent mapped)
  · intro cell other
    rw [← traced.words cell other]
    cases cell with
    | page someEnv page => exact taken.same.diskEntry someEnv page
    | table someEnv index => exact congrFun (congrFun taken.same.diskTables someEnv) index
  · intro someFrame member
    rcases traced.frames someFrame member with inFree | ⟨page, occupied, mapped, same⟩
    · by_cases still : someFrame ∈ after.free
      · exact .inl still
      · rcases taken.new.growth.taken someFrame inFree still with ⟨page, here, handed⟩
        rw [List.mem_singleton] at here
        subst here
        have equal : someFrame = frame := by
          have entry := handed.entry.symm.trans taken.new.handed.entry
          have bound := orderly.consistent.bounded someFrame
            (orderly.consistent.listedManaged someFrame (.inl inFree))
          rw [← frameOf_heapEntry bound, entry,
            frameOf_heapEntry (taken.new.bound orderly.consistent)]
        rw [equal]
        exact .inr ⟨ppn address, taken.occupied, taken.entry_own orderly.consistent⟩
    · by_cases here : page = ppn address
      · rw [here] at mapped
        exact absurd (taken.new.growth.wasFree (ppn address) (by simp)) mapped
      · refine .inr ⟨page, taken.kept page mapped occupied, ?_⟩
        rw [taken.entry_other here]
        exact ⟨mapped, same⟩

/-- A page of the kernel heap is given back and its frame is free. -/
theorem shrink (traced : Traced begin start env ghost state) {view : View} {gone : Nat}
    (consistent : Consistent ghost view)
    (shrink : HeapShrink ghost view [gone] after final.view)
    (entries : view.entry = state.view.entry)
    (held : ghost.holders (frameOf (state.view.entry (.heap gone))) = {.heap gone})
    (occupied : ∀ page, page ≠ gone → state.view.entry (.heap page) ≠ 0 →
      Occupied state env page → Occupied final env page)
    (words : ∀ cell : DiskSlot, cell.env ≠ env → final.diskWord cell = state.diskWord cell) :
    Traced begin start env after final := by
  have entry : ∀ page, page ≠ gone →
      final.view.entry (.heap page) = state.view.entry (.heap page) := by
    intro page other
    rw [shrink.entries _ (by simpa using other), entries]
  constructor
  · intro page absent mapped
    have other : page ≠ gone := by
      rintro rfl
      exact mapped (shrink.cleared _ (List.mem_singleton_self _))
    rw [entry page other] at mapped
    exact occupied page other mapped (traced.heap page absent mapped)
  · intro cell other
    exact (words cell other).trans (traced.words cell other)
  · intro someFrame member
    rcases traced.frames someFrame member with inFree | ⟨page, before, mapped, same⟩
    · exact .inl (shrink.free_kept consistent inFree)
    · by_cases here : page = gone
      · rw [here] at same
        rw [same] at held
        exact .inl (shrink.freed consistent (List.mem_singleton_self _) held)
      · refine .inr ⟨page, occupied page here mapped before, ?_⟩
        rw [entry page here]
        exact ⟨mapped, same⟩

theorem move (traced : Traced begin start env ghost state) (orderly : Orderly ghost free state)
    (move : Move env ghost free state after left final) : Traced begin start env after final := by
  cases move with
  | take taken => exact traced.take orderly taken
  | write step words =>
      have occupied : ∀ page, Occupied state env page → Occupied final env page := by
        intro page before
        cases before with
        | directory slot own present here =>
            rw [← step.directoryAddress] at present here
            exact .directory slot own present here
        | table index present here =>
            rw [← step.diskDirectory, ← step.view] at *
            exact .table index present here
      constructor
      · rw [step.view]
        exact fun page absent mapped => occupied page (traced.heap page absent mapped)
      · exact fun cell other => (words cell other).trans (traced.words cell other)
      · intro someFrame member
        rw [step.view]
        rcases traced.frames someFrame member with inFree | ⟨page, before, there⟩
        · exact .inl inFree
        · exact .inr ⟨page, occupied page before, there⟩
  | @freeTable index table _ _ _ present freed =>
      have entry : ∀ page, page ≠ ppn table →
          final.view.entry (.heap page) = state.view.entry (.heap page) := by
        intro page other
        exact freed.shrink.entries _ (by simpa using other)
      refine traced.shrink (orderly.consistent.clearTable (.disk env index)) freed.shrink rfl ?_
        ?_ ?_
      · rw [freed.frame]
        exact freed.held
      · intro page other mapped before
        cases before with
        | directory slot own there here =>
            rw [← freed.directoryAddress] at there here
            exact .directory slot own there here
        | table someIndex there here =>
            have different : someIndex ≠ index := by
              rintro rfl
              have held := orderly.table_page there mapped here
              rw [freed.held, Finset.singleton_inj, Slot.heap.injEq] at held
              exact other held.symm
            have same := freed.directory env someIndex
            rw [if_neg fun equal => different equal.2] at same
            rw [← same] at there here
            rw [← entry page other] at here
            exact .table someIndex there here
      · intro cell other
        refine freed.words cell ?_
        rintro page rfl
        exact other rfl
  | @freeDirectory slot _ _ own freed =>
      refine traced.shrink orderly.consistent freed.shrink rfl (orderly.pages.held _ freed.present)
        ?_ fun cell _ => freed.words cell
      intro page other mapped before
      cases before with
      | directory someSlot mine there here =>
          have different : someSlot ≠ slot := by
            rintro rfl
            exact other here
          have same := freed.directories someSlot
          rw [if_neg different] at same
          rw [← same] at there here
          exact .directory someSlot mine there here
      | table index there here =>
          rw [← freed.diskDirectory] at there here
          rw [← freed.shrink.entries (.heap page) (by simpa using other)] at here
          exact .table index there here

theorem moves (traced : Traced begin start env ghost state) (orderly : Orderly ghost free state)
    (moves : Moves env ghost free state after left final) : Traced begin start env after final :=
  Moves.keep (fun before holds step => Traced.move holds before step) moves orderly traced

end Traced

theorem runAdd (orderly : Orderly ghost free state) {call : AddCall} {code : PageFileCode}
    (user : call.address < userTop) (returned : call.run env state = .ok (code, final)) :
    ∃ after left, Moves env ghost free state after left final := by
  cases call with
  | page address contents => exact addEnvPage orderly user returned
  | emptyPage address initializeByZero => exact addEmptyEnvPage orderly user returned

theorem addPages_moves {calls : List AddCall} (orderly : Orderly ghost free state)
    (user : ∀ call ∈ calls, call.address < userTop)
    (returned : addPages env calls state = .ok ((), final)) :
    ∃ after left, Moves env ghost free state after left final := by
  induction calls generalizing ghost free state with
  | nil =>
      rcases pure_ok.mp returned with ⟨-, rfl⟩
      exact ⟨ghost, free, .refl⟩
  | cons call calls induction =>
      rcases bind_ok.mp returned with ⟨_, between, first, rest⟩
      rcases bind_ok.mp first with ⟨code, added, run, ended⟩
      rcases pure_ok.mp ended with ⟨-, rfl⟩
      rcases runAdd orderly (user call (by simp)) run with ⟨ghostOne, leftOne, one⟩
      rcases induction (one.orderly orderly) (fun other member => user other (by simp [member]))
        rest with ⟨after, left, others⟩
      exact ⟨after, left, one.trans others⟩

end Runs

section Reclaim

variable {ghost : Ghost} {start middle final : State} {free : List Nat} {env : Nat}
variable {calls : List AddCall}

/-- The disk frames that were free are free, each of them once; the pages of the kernel heap
that were free are free, and so are the frames of memory. -/
structure Reclaimed (start final : State) : Prop where
  diskFrames : ∃ before after, Represents start.diskLinks start.diskFreeFrameList before ∧
    Represents final.diskLinks final.diskFreeFrameList after ∧ after.Nodup ∧ after.Perm before
  heapPages : ∀ page, start.view.entry (.heap page) = 0 → final.view.entry (.heap page) = 0
  frames : ∃ before after, Represents start.frameLinks start.freeFrameList before ∧
    Represents final.frameLinks final.freeFrameList after ∧ ∀ frame ∈ before, frame ∈ after

/-- An environment that has nothing in the page file, where no page of the kernel heap is
stale. -/
structure Newcomer (ghost : Ghost) (free : List Nat) (env : Nat) (start : State) : Prop where
  orderly : Orderly ghost free start
  noPages : (start.envs env).diskEnvPgdir = 0
  noTables : (start.envs env).diskEnvTabledir = 0

/-- An environment without directories has no words in the page file. -/
theorem diskWord_of_absent (file : PageFile free start)
    (noPages : start.directoryAddress (.pages env) = 0)
    (noTables : start.directoryAddress (.tables env) = 0) {cell : DiskSlot}
    (own : cell.env = env) : start.diskWord cell = 0 := by
  subst own
  cases cell with
  | page env page => exact diskEntry_of_zero (file.layout.noPages env noPages _)
  | table env index => exact file.layout.noTables env noTables index

theorem Newcomer.reclaimed {after : Ghost} {left : List Nat}
    (new : Newcomer ghost free env start) (orderly : Orderly after left final)
    (traced : Traced ghost start env after final)
    (noPages : final.directoryAddress (.pages env) = 0)
    (noTables : final.directoryAddress (.tables env) = 0) : Reclaimed start final := by
  have unoccupied : ∀ page, ¬Occupied final env page := by
    intro page occupied
    cases occupied with
    | directory slot own present here =>
        cases slot with
        | pages someEnv =>
            cases own
            exact present noPages
        | tables someEnv =>
            cases own
            exact present noTables
    | table index present here => exact present (orderly.file.layout.noPages env noPages index)
  constructor
  · refine ⟨free, left, new.orderly.file.list, orderly.file.list, orderly.file.pool.nodup, ?_⟩
    refine new.orderly.file.pool.perm orderly.file.pool fun cell => ?_
    simp only [State.diskOwned]
    by_cases own : cell.env = env
    · rw [diskWord_of_absent new.orderly.file new.noPages new.noTables own,
        diskWord_of_absent orderly.file noPages noTables own]
    · rw [traced.words cell own]
  · intro page absent
    by_contra mapped
    exact unoccupied page (traced.heap page absent mapped)
  · refine ⟨ghost.free, after.free, new.orderly.consistent.lists.first,
      orderly.consistent.lists.first, fun frame member => ?_⟩
    rcases traced.frames frame member with inFree | ⟨page, occupied, -⟩
    · exact inFree
    · exact absurd occupied (unoccupied page)

/-- A newcomer has no blocks of the kernel heap. -/
theorem Newcomer.documented (new : Newcomer ghost free env start) :
    Documented (fun other => other = env) start start where
  since := ⟨le_rfl, fun index after below => absurd after (Nat.not_le.mpr below)⟩
  directories := by
    intro slot own present
    cases slot with
    | pages someEnv =>
        cases own
        exact absurd new.noPages present
    | tables someEnv =>
        cases own
        exact absurd new.noTables present
  tables := by
    rintro _ rfl index present
    exact absurd (new.orderly.file.layout.noPages _ new.noPages index) present

/-- The life of an environment in the page file. -/
def addAndFree (env : Nat) (calls : List AddCall) : Kernel Unit := do
  addPages env calls
  pfFreeEnv env

/-- Memory after boot. -/
theorem sample_newcomer (env : Nat) :
    ∃ ghost, Newcomer ghost (List.range' 1 (pagesPerFile - 1)).reverse env sampleState := by
  rcases boot_orderly (initializePaging_form sampleLayout sampleContents (by decide)) with
    ⟨ghost, orderly, none⟩
  exact ⟨ghost, orderly, none (.pages env), none (.tables env)⟩

/-- Pages below `USER_TOP` are reclaimed: the tables of all of them are in the part of the
disk page directory that `pf_free_env` goes through. -/
theorem reclaimed_below_user_top (new : Newcomer ghost free env start)
    (below : ∀ call ∈ calls, call.address < userTop)
    (returned : addAndFree env calls start = .ok ((), final)) : Reclaimed start final := by
  rcases bind_ok.mp returned with ⟨_, added, adding, freeing⟩
  rcases addPages_moves new.orderly below adding with ⟨after, left, first⟩
  rcases freeEnv (first.orderly new.orderly) (new.documented.moves new.orderly first) rfl freeing
    with ⟨last, rest, second, noPages, noTables⟩
  have moves := first.trans second
  exact new.reclaimed (moves.orderly new.orderly)
    ((Traced.new ghost start env).moves new.orderly moves) noPages noTables

/-- The first environment adds a page at address zero. -/
theorem page_at_zero_reclaimed :
    ∃ final, addAndFree 0 [.emptyPage 0 true] sampleState = .ok ((), final) ∧
      Reclaimed sampleState final := by
  rcases sample_newcomer 0 with ⟨ghost, new⟩
  rcases BackedAllocations.sample_stocked (show 2 ≤ 40000 by decide) with ⟨base, stocked⟩
  have needed : Stocked.needed sampleState 0 0 + 0 ≤ 2 := by
    simp only [Stocked.needed, missing]
    split <;> split <;> omega
  rcases (stocked.mono needed).pfAddEmptyEnvPage_returns (by decide) with
    ⟨code, _, _, added, adding, stockedNow, opened⟩
  have ran : addPages 0 [.emptyPage 0 true] sampleState = .ok ((), added) :=
    bind_ok.mpr ⟨(), added, bind_ok.mpr ⟨code, added, adding, rfl⟩, rfl⟩
  have below : ∀ call ∈ [AddCall.emptyPage 0 true], call.address < userTop := by
    intro call member
    rw [List.mem_singleton.mp member]
    decide
  rcases addPages_moves new.orderly below ran with ⟨after, left, moves⟩
  rcases freeEnv_returns (moves.orderly new.orderly) (new.documented.moves new.orderly moves) rfl
    stockedNow.walkable opened.directory with ⟨final, freed⟩
  have returned : addAndFree 0 [.emptyPage 0 true] sampleState = .ok ((), final) :=
    bind_ok.mpr ⟨(), added, ran, freed⟩
  exact ⟨final, returned, reclaimed_below_user_top new below returned⟩

/-! ## Pages above `USER_TOP` -/

variable {base after : Ghost} {state grown emptied : State} {rest : List Nat}
variable {address table frame dfn : Nat}

/-- `get_disk_page_table` takes the address for one of the kernel and makes a table. -/
theorem openHighTable (consistent : Consistent ghost state.view) (high : userTop ≤ address)
    (absent : state.diskDirectory env (pdx address) = 0) (serviceable : Serviceable state)
    (allocated : kmalloc 4096 state = .ok (table, grown)) (nonzero : table ≠ 0)
    (new : NewHeapPage ghost state frame table after grown) (serviceableNow : Serviceable grown) :
    getDiskPageTable env address true state = .ok (.kernel table,
      grown.newDiskTable env (pdx address) frame (diskTableWord frame)) := by
  have positive : ¬state.numberOfFrames ≤ frameOf (0 : Word) := by
    have bound := serviceable.tables (pdx kernelHeapStart) (Nat.le_refl _) (by decide)
    rw [show frameOf (0 : Word) = 0 from rfl]
    omega
  have pointer : diskTablePointer state env address =
      .ok (.kernel (kernelBase + frameOf (0 : Word) * 4096)) := by
    unfold diskTablePointer
    rw [absent, if_pos high]
    simp only [if_neg positive]
    rfl
  refine bind_observe_ok.mpr ⟨_, pointer, bind_get_ok.mpr ?_⟩
  rw [if_pos absent, if_pos rfl]
  exact createDiskPageTable_run consistent allocated nonzero new serviceableNow

/-- The loop of `pf_free_env` finds no table. -/
theorem skipTables {indices : List Nat}
    (absent : ∀ index ∈ indices, state.diskDirectory env index = 0) :
    Kernel.forEach (freeDiskPageTable env) indices state = .ok ((), state) := by
  induction indices with
  | nil => rfl
  | cons index indices induction =>
      exact bind_ok.mpr ⟨(), state, freeDiskPageTable_absent (absent index (by simp)),
        induction fun other member => absent other (by simp [member])⟩

/-- The state after a disk frame has been taken for a page from `USER_TOP` on. -/
structure HighPage (env : Nat) (rest : List Nat) (final : State) : Prop where
  list : Represents final.diskLinks final.diskFreeFrameList rest
  records : HeapRecords final
  layout : HeapLayout final.view
  serviceable : Serviceable final
  present : final.directoryAddress (.pages env) ≠ 0
  heap : HeapAddress (final.directoryAddress (.pages env))
  newest : NewestSingle final (final.directoryAddress (.pages env))
  absent : ∀ index < pdx userTop, final.diskDirectory env index = 0
  noTables : final.directoryAddress (.tables env) = 0

theorem addHighPage (orderly : Orderly ghost (dfn :: rest) state)
    (documented : Documented (fun other => other = env) start state)
    (serviceable : Serviceable state) (noTables : state.directoryAddress (.tables env) = 0)
    (present : state.directoryAddress (.pages env) ≠ 0) (high : userTop ≤ address)
    (none : ∀ index, state.diskDirectory env index = 0)
    (allocated : kmalloc 4096 state = .ok (table, grown)) (nonzero : table ≠ 0)
    (serviceableNow : Serviceable grown) :
    ∃ pointer located result final, getDiskPageTable env address true state =
        .ok (pointer, located) ∧
      allocatePageFrame pointer (ptx address) located = .ok (result, final) ∧
      HighPage env rest final := by
  rcases kmalloc_page orderly.consistent allocated nonzero with ⟨frame, after, page⟩
  have opened := openHighTable orderly.consistent high (none _) serviceable allocated nonzero page
    serviceableNow
  have mapped : kernelFrame (grown.newDiskTable env (pdx address) frame (diskTableWord frame))
      table = .ok frame := page.kernelFrame orderly.consistent
  have cleared : (grown.newDiskTable env (pdx address) frame (diskTableWord frame)).memory frame
      (ptx address) = 0 := by
    simp [State.newDiskTable, State.setPage]
  have list : Represents
      (grown.newDiskTable env (pdx address) frame (diskTableWord frame)).diskLinks
      (grown.newDiskTable env (pdx address) frame (diskTableWord frame)).diskFreeFrameList
      (dfn :: rest) := by
    rcases page.only with ⟨_, _, _, _, _, _, _, rfl⟩
    exact orderly.file.list
  have record := kmalloc_record orderly.consistent allocated nonzero
  have newest := ((documented.directories (.pages env) rfl present).add record).newest
    (documented.since.add record)
  have layout := page.growth.consistent.toHeapLayout
  have above : pdx userTop ≤ pdx address := Nat.div_le_div_right (Nat.div_le_div_right high)
  have lower : ∀ index < pdx userTop, (grown.newDiskTable env (pdx address) frame
      (diskTableWord frame)).diskDirectory env index = 0 := by
    intro index user
    have different : ¬(env = env ∧ index = pdx address) := by
      rintro ⟨-, same⟩
      omega
    rw [State.newDiskTable_others _ _ _ different]
    rcases page.only with ⟨_, _, _, _, _, _, _, rfl⟩
    exact none index
  rcases Stocked.allocateDiskFrame_returns (grown.newDiskTable env (pdx address) frame
    (diskTableWord frame)) with ⟨number, between, taken⟩
  rcases allocateDiskFrame_ok list orderly.file.room taken with
    ⟨-, empty, -⟩ | ⟨first, others, rfl, same, left, only⟩
  · cases empty
  cases same
  have stored := allocatePageFrame_run mapped cleared taken only
  refine ⟨_, _, _, _, opened, stored, ?_⟩
  have addresses := page.only.directoryAddress
  rcases only with ⟨_, _, rfl⟩
  exact
    { list := left
      records := (page.records orderly.records).congr rfl rfl
      layout := ⟨layout.kernelTables, layout.startLower, layout.startUpper, layout.startAligned⟩
      serviceable := ⟨serviceableNow.tables, serviceableNow.frames⟩
      present := by
        change grown.directoryAddress (.pages env) ≠ 0
        rw [addresses]
        exact present
      heap := by
        change HeapAddress (grown.directoryAddress (.pages env))
        rw [addresses]
        exact orderly.pages.heap _ present
      newest := by
        change NewestSingle _ (grown.directoryAddress (.pages env))
        rw [addresses]
        exact newest.congr rfl rfl
      absent := lower
      noTables := (congrFun addresses (.tables env)).trans noTables }

/-- Without tables below `USER_TOP` the disk page directory alone is given back. -/
theorem freeEnv_high (page : HighPage env rest state) :
    ∃ final, pfFreeEnv env state = .ok ((), final) ∧ final.diskLinks = state.diskLinks ∧
      final.diskFreeFrameList = state.diskFreeFrameList := by
  rcases kfree_returns page.layout page.serviceable page.heap page.newest with ⟨released, freed⟩
  have looped : Kernel.forEach (freeDiskPageTable env) (List.range (pdx userTop)) state =
      .ok ((), state) :=
    skipTables fun index member => page.absent index (List.mem_range.mp member)
  rcases kfree_only page.layout page.records freed with ⟨_, _, _, _, rfl⟩
  exact ⟨_, pfFreeEnv_run page.present looped freed page.noTables, rfl, rfl⟩

theorem getDiskPageDirectory_tables (consistent : Consistent ghost start.view)
    (layout : DiskLayout start) (returned : getDiskPageDirectory env start = .ok ((), final)) :
    final.directoryAddress (.tables env) = start.directoryAddress (.tables env) := by
  rcases getDiskPageDirectory_cases consistent layout returned with
    ⟨-, rfl⟩ | ⟨-, address, grown, allocated, nonzero, rfl⟩
  · rfl
  · rcases kmalloc_page consistent allocated nonzero with ⟨frame, after, new⟩
    rw [State.directoryAddress_set, if_neg (by simp), new.only.directoryAddress]

/-- A page from `USER_TOP` on takes a disk frame that does not come back. -/
theorem leaked_above_user_top (new : Newcomer ghost (dfn :: rest) env start)
    (stocked : Stocked base (dfn :: rest) start 2) (high : userTop ≤ address)
    (accepted : address < kernelBase) :
    ∃ final, addAndFree env [.emptyPage address false] start = .ok ((), final) ∧
      ¬Reclaimed start final := by
  have needed : missing ((start.envs env).diskEnvPgdir = 0) + 1 ≤ 2 := by
    simp only [missing]
    split <;> omega
  rcases (stocked.mono needed).getDiskPageDirectory_returns with
    ⟨later, entered, opening, stockedNow, directory, pages⟩
  rcases openDirectory new.orderly opening with ⟨middle, moves, -⟩
  have noTables : entered.directoryAddress (.tables env) = 0 := by
    rw [getDiskPageDirectory_tables new.orderly.consistent new.orderly.file.layout opening]
    exact new.noTables
  have untabled : ∀ index, entered.diskDirectory env index = 0 := by
    intro index
    rw [pages]
    exact new.orderly.file.layout.noPages env new.noPages index
  rcases stockedNow.kmalloc with ⟨table, _, _, grown, allocated, nonzero, -, stockedGrown⟩
  rcases addHighPage (moves.orderly new.orderly) (new.documented.moves new.orderly moves)
    stockedNow.supplied.serviceable noTables directory high untabled allocated nonzero
    stockedGrown.supplied.serviceable with
    ⟨pointer, located, result, added, locating, allocating, page⟩
  rcases freeEnv_high page with ⟨final, freed, links, list⟩
  have adding : pfAddFrame env address start = .ok (result, added) := by
    refine ite_ok.mpr (.inr ⟨Nat.not_le.mpr accepted, ?_⟩)
    refine bind_ok.mpr ⟨(), entered, opening, ?_⟩
    exact bind_ok.mpr ⟨pointer, located, locating, allocating⟩
  have ran : ∃ code, pfAddEmptyEnvPage env address false start = .ok (code, added) := by
    cases result with
    | none => exact ⟨.noSpace, bind_ok.mpr ⟨none, added, adding, rfl⟩⟩
    | some word => exact ⟨.success, bind_ok.mpr ⟨some word, added, adding, rfl⟩⟩
  rcases ran with ⟨code, ran⟩
  have calls : addPages env [.emptyPage address false] start = .ok ((), added) :=
    bind_ok.mpr ⟨(), added, bind_ok.mpr ⟨code, added, ran, rfl⟩, rfl⟩
  refine ⟨final, bind_ok.mpr ⟨(), added, calls, freed⟩, fun reclaimed => ?_⟩
  rcases reclaimed.diskFrames with ⟨first, last, before, listed, -, perm⟩
  have lost := page.list
  rw [← links, ← list] at lost
  have sizes := perm.length_eq
  rw [← listed.size, ← before.size, lost.size, new.orderly.file.list.size] at sizes
  simp at sizes

theorem frame_lost_above_user_top :
    ∃ final, addAndFree 0 [.emptyPage userTop false] sampleState = .ok ((), final) ∧
      ¬Reclaimed sampleState final := by
  rcases sample_newcomer 0 with ⟨ghost, new⟩
  rcases BackedAllocations.sample_stocked (show 2 ≤ 40000 by decide) with ⟨base, stocked⟩
  have frames : (List.range' 1 (pagesPerFile - 1)).reverse =
      133119 :: (List.range' 1 (pagesPerFile - 2)).reverse := by
    rw [show pagesPerFile - 1 = pagesPerFile - 2 + 1 from rfl, List.range'_concat,
      List.reverse_append, List.reverse_singleton, List.singleton_append]
    rfl
  rw [frames] at new stocked
  exact leaked_above_user_top new stocked (Nat.le_refl _) (by decide)

end Reclaim

end FosKernel.ReclaimedPages
