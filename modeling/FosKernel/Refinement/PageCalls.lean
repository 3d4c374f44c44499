import FosKernel.Refinement.PageTrace

/-! # Calls of the page file are moves

The functions on the page file are sequences of moves. The release of an environment finds
the blocks of its directories and disk page tables by their records.
-/

namespace FosKernel.PageTrace

open Kernel

section Calls

variable {ghost after : Ghost} {start state between final : State} {free left : List Nat}
variable {env address index : Nat} {mine : Nat → Prop}

theorem Move.cleared {cell : Nat → DiskSlot} {indices : List Nat}
    (own : ∀ index, (cell index).env = env)
    (cleared : WordsCleared (fun slot => ∃ index ∈ indices, slot = cell index) state left final) :
    Move env ghost free state ghost left final := by
  refine .write cleared.step fun other different => cleared.kept other ?_
  rintro ⟨index, -, rfl⟩
  exact different (own index)

/-! ## Directories and tables -/

theorem openSlot {slot : DirectorySlot} (orderly : Orderly ghost free state)
    (own : slot.env = env)
    (opened : (state.directoryAddress slot ≠ 0 ∧ final = state) ∨
      state.directoryAddress slot = 0 ∧ ∃ address grown,
        kmalloc 4096 state = .ok (address, grown) ∧ address ≠ 0 ∧
          final = grown.setDirectoryAddress slot address) :
    ∃ after, Moves env ghost free state after free final ∧ final.directoryAddress slot ≠ 0 := by
  rcases opened with ⟨present, rfl⟩ | ⟨absent, address, grown, allocated, nonzero, rfl⟩
  · exact ⟨ghost, .refl, present⟩
  · rcases Taken.ofDirectory orderly own absent allocated nonzero with
      ⟨frame, after, taken, later⟩
    refine ⟨after, .single (.take taken) later, ?_⟩
    rw [State.directoryAddress_set, if_pos rfl]
    exact nonzero

theorem openDirectory (orderly : Orderly ghost free state)
    (returned : getDiskPageDirectory env state = .ok ((), final)) :
    ∃ after, Moves env ghost free state after free final ∧
      final.directoryAddress (.pages env) ≠ 0 :=
  openSlot orderly rfl
    (getDiskPageDirectory_cases orderly.consistent orderly.file.layout returned)

theorem openTableDirectory (orderly : Orderly ghost free state)
    (returned : getDiskTableDirectory env state = .ok ((), final)) :
    ∃ after, Moves env ghost free state after free final ∧
      final.directoryAddress (.tables env) ≠ 0 :=
  openSlot orderly rfl
    (getDiskTableDirectory_cases orderly.consistent orderly.file.layout returned)

theorem openTable (orderly : Orderly ghost free state) {pointer : TablePointer}
    (user : address < userTop) (directory : state.directoryAddress (.pages env) ≠ 0)
    (returned : getDiskPageTable env address true state = .ok (pointer, final)) :
    pointer = .null ∨ ∃ after, Moves env ghost free state after free final ∧
      DiskTableFound final env address pointer := by
  have found := getDiskPageTable_ok orderly.consistent orderly.file user directory returned
  rcases bind_observe_ok.mp returned with ⟨located, looked, returned⟩
  replace returned := bind_get_ok.mp returned
  rcases ite_ok.mp returned with ⟨absent, created⟩ | ⟨present, ended⟩
  · rw [if_pos rfl] at created
    rcases createDiskPageTable_cases orderly.consistent created with
      ⟨null, -⟩ | ⟨table, frame, after, grown, rfl, allocated, nonzero, new, rfl⟩
    · exact .inl null
    · rcases Taken.ofTable orderly (address_user user).2 directory absent allocated nonzero new
        with ⟨taken, later⟩
      rcases found with ⟨_, -, null | found⟩
      · cases null
      · exact .inr ⟨after, .single (.take taken) later, found⟩
  · rcases pure_ok.mp ended with ⟨rfl, rfl⟩
    rcases found with ⟨_, -, null | found⟩
    · exact .inl null
    · exact .inr ⟨ghost, .refl, found⟩

/-! ## Adding pages -/

theorem allocatePageFrame_word (consistent : Consistent ghost state.view)
    (file : PageFile free state) {pointer : TablePointer} {result : Option Word}
    (found : DiskTableFound state env address pointer)
    (returned : allocatePageFrame pointer (ptx address) state = .ok (result, final)) :
    WordStep state final := by
  rcases bind_observe_ok.mp returned with ⟨dfn, loaded, returned⟩
  rcases ite_ok.mp returned with ⟨present, ended⟩ | ⟨absent, returned⟩
  · rcases pure_ok.mp ended with ⟨-, rfl⟩
    exact .refl state
  rcases bind_ok.mp returned with ⟨allocated, between, taken, continued⟩
  rcases allocateDiskFrame_ok file.list file.room taken with
    ⟨rfl, -, rfl⟩ | ⟨number, left, rfl, -, -, only⟩
  · rcases pure_ok.mp continued with ⟨-, rfl⟩
    exact .refl _
  · rcases bind_ok.mp continued with ⟨_, stored, storing, ended⟩
    rcases pure_ok.mp ended with ⟨-, rfl⟩
    have first := WordStep.ofList only
    exact first.trans
      ((found.later first).word (first.consistent consistent) storing)

theorem addFrame (orderly : Orderly ghost free state) {result : Option Word}
    (user : address < userTop)
    (returned : pfAddFrame env address state = .ok (result, final)) :
    ∃ after left, Moves env ghost free state after left final := by
  rcases ite_ok.mp returned with ⟨high, -⟩ | ⟨-, returned⟩
  · exact absurd high (by grind)
  rcases bind_ok.mp returned with ⟨_, entered, opening, returned⟩
  rcases openDirectory orderly opening with ⟨ghostOne, first, directory⟩
  rcases bind_ok.mp returned with ⟨pointer, located, locating, allocating⟩
  rcases openTable (first.orderly orderly) user directory locating with
    rfl | ⟨ghostTwo, second, found⟩
  · rcases bind_observe_ok.mp allocating with ⟨_, loaded, -⟩
    cases loaded
  have opened := first.trans second
  have later := opened.orderly orderly
  have step := allocatePageFrame_word later.consistent later.file found allocating
  rcases allocatePageFrame_ok later.consistent later.file found allocating with
    ⟨files, -, ⟨-, -, -, rfl⟩ | ⟨left, -, added⟩⟩
  · exact ⟨ghostTwo, free, opened⟩
  · refine ⟨ghostTwo, left, opened.trans (.single (.write step ?_) (later.word step added.file))⟩
    intro cell other
    cases cell with
    | page someEnv page => exact added.others someEnv page fun same => other same.1
    | table someEnv index => exact congrFun (congrFun files.diskTables someEnv) index

/-- Contents of a disk frame are written. -/
theorem Moves.setSectors (moves : Moves env ghost free state after left between)
    (orderly : Orderly ghost free state) (sectors : Nat → Nat → Word) :
    Moves env ghost free state after left { between with sectors } := by
  have step := WordStep.setSectors between sectors
  have later := moves.orderly orderly
  refine .tail moves (.write step ?_) (later.word step (later.file.setSectors _))
  intro cell _
  cases cell with
  | page someEnv page => rfl
  | table someEnv index => rfl

theorem addEnvPage (orderly : Orderly ghost free state) {page : Nat → Word} {code : PageFileCode}
    (user : address < userTop)
    (returned : pfAddEnvPage env address page state = .ok (code, final)) :
    ∃ after left, Moves env ghost free state after left final := by
  rcases bind_ok.mp returned with ⟨result, added, adding, returned⟩
  rcases addFrame orderly user adding with ⟨after, left, moves⟩
  cases result with
  | none =>
      rcases pure_ok.mp returned with ⟨-, rfl⟩
      exact ⟨after, left, moves⟩
  | some dfn =>
      replace returned := bind_modify_ok.mp returned
      rcases pure_ok.mp returned with ⟨-, rfl⟩
      exact ⟨after, left, moves.setSectors orderly _⟩

theorem addEmptyEnvPage (orderly : Orderly ghost free state) {initializeByZero : Bool}
    {code : PageFileCode} (user : address < userTop)
    (returned : pfAddEmptyEnvPage env address initializeByZero state = .ok (code, final)) :
    ∃ after left, Moves env ghost free state after left final := by
  rcases ite_ok.mp returned with ⟨-, cleared⟩ | ⟨-, returned⟩
  · exact addEnvPage orderly user (bind_get_ok.mp cleared)
  · rcases bind_ok.mp returned with ⟨result, added, adding, returned⟩
    rcases addFrame orderly user adding with ⟨after, left, moves⟩
    cases result with
    | none =>
        rcases pure_ok.mp returned with ⟨-, rfl⟩
        exact ⟨after, left, moves⟩
    | some dfn =>
        rcases pure_ok.mp returned with ⟨-, rfl⟩
        exact ⟨after, left, moves⟩

theorem removeEnvPage (orderly : Orderly ghost free state) (user : address < userTop)
    (returned : pfRemoveEnvPage env address state = .ok ((), final)) :
    ∃ left, Moves env ghost free state ghost left final := by
  rcases ite_ok.mp (bind_get_ok.mp returned) with ⟨-, ended⟩ | ⟨-, opened⟩
  · rcases pure_ok.mp ended with ⟨-, rfl⟩
    exact ⟨free, .refl⟩
  rcases bind_ok.mp opened with ⟨pointer, same, located, removed⟩
  rcases findDiskPageTable_ok orderly.consistent.toHeapLayout user located with
    ⟨rfl, ⟨rfl, -⟩ | found⟩
  · rcases pure_ok.mp removed with ⟨-, rfl⟩
    exact ⟨free, .refl⟩
  · rcases ite_ok.mp removed with ⟨null, -⟩ | ⟨-, freed⟩
    · exact absurd null found.ne_null
    · rcases freeDiskEntry_word orderly.consistent orderly.file found freed with ⟨left, cleared⟩
      refine ⟨left, .single (.write cleared.step ?_) (orderly.word cleared.step cleared.file)⟩
      exact fun other different => cleared.kept other fun same => different (same ▸ rfl)

/-! ## Page tables in the page file -/

theorem allocateTableFrame_word (file : PageFile free state) {result : Option Word}
    (user : index < pdx userTop) (directory : state.directoryAddress (.tables env) ≠ 0)
    (returned : allocateTableFrame env index state = .ok (result, final)) :
    ∃ left, WordStep state final ∧ PageFile left final ∧
      ∀ cell, cell ≠ .table env index → final.diskWord cell = state.diskWord cell := by
  replace returned := bind_get_ok.mp returned
  rcases ite_ok.mp returned with ⟨-, ended⟩ | ⟨absent, returned⟩
  · rcases pure_ok.mp ended with ⟨-, rfl⟩
    exact ⟨free, .refl state, file, fun _ _ => rfl⟩
  replace absent := not_not.mp absent
  rcases bind_ok.mp returned with ⟨allocated, between, taken, continued⟩
  rcases allocateDiskFrame_ok file.list file.room taken with
    ⟨rfl, -, rfl⟩ | ⟨number, left, rfl, rfl, list, only⟩
  · rcases pure_ok.mp continued with ⟨-, rfl⟩
    exact ⟨free, .refl _, file, fun _ _ => rfl⟩
  have ended := bind_modify_ok.mp continued
  rcases pure_ok.mp ended with ⟨-, rfl⟩
  have bound := file.known (List.mem_cons_self ..)
  have words : ∀ cell,
      (between.setDiskTable env index (BitVec.ofNat 32 number)).diskWord cell =
        if cell = .table env index then BitVec.ofNat 32 number else state.diskWord cell := by
    intro cell
    rw [State.diskWord_setDiskTable]
    rcases only with ⟨_, _, rfl⟩
    cases cell with
    | page someEnv page => rfl
    | table someEnv someIndex => rfl
  refine ⟨left, (WordStep.ofList only).trans (.setDiskTable _ _ _ _), ⟨list, ?_, ?_⟩, ?_⟩
  · have empty : state.diskOwned (.table env index) = none := diskNumber_eq_none.mpr absent
    refine file.pool.take empty ?_ fun other different => ?_
    · rw [State.diskOwned, words, if_pos rfl, diskNumber_ofNat bound.1 bound.2]
    · rw [State.diskOwned, words, if_neg different]
      rfl
  · have layout : DiskLayout between := by
      rcases only with ⟨_, _, rfl⟩
      exact file.layout.congr rfl rfl (fun _ => id) fun _ => id
    refine layout.setDiskTable fun _ => ⟨user, ?_⟩
    rcases only with ⟨_, _, rfl⟩
    exact directory
  · intro cell different
    rw [words, if_neg different]

theorem writeEnvTable (orderly : Orderly ghost free state) {page : Nat → Word}
    {code : PageFileCode} (user : address < userTop)
    (returned : pfWriteEnvTable env address page state = .ok (code, final)) :
    ∃ after left, Moves env ghost free state after left final := by
  rcases ite_ok.mp returned with ⟨high, -⟩ | ⟨-, returned⟩
  · exact absurd high (by grind)
  rcases bind_ok.mp returned with ⟨_, entered, opening, returned⟩
  rcases openTableDirectory orderly opening with ⟨after, first, directory⟩
  have later := first.orderly orderly
  rcases bind_ok.mp returned with ⟨result, allocated, allocating, returned⟩
  rcases allocateTableFrame_word later.file (address_user user).2 directory allocating with
    ⟨left, step, file, words⟩
  have second : Moves env ghost free state after left allocated := by
    refine .tail first (.write step fun cell other => words cell ?_) (later.word step file)
    rintro rfl
    exact other rfl
  cases result with
  | none =>
      rcases pure_ok.mp returned with ⟨-, rfl⟩
      exact ⟨after, left, second⟩
  | some dfn =>
      replace returned := bind_modify_ok.mp returned
      rcases pure_ok.mp returned with ⟨-, rfl⟩
      exact ⟨after, left, second.setSectors orderly _⟩

theorem removeEnvTable (orderly : Orderly ghost free state)
    (returned : pfRemoveEnvTable env address state = .ok ((), final)) :
    ∃ left, Moves env ghost free state ghost left final := by
  rcases ite_ok.mp (bind_get_ok.mp returned) with ⟨-, ended⟩ | ⟨-, removed⟩
  · rcases pure_ok.mp ended with ⟨-, rfl⟩
    exact ⟨free, .refl⟩
  · rcases removeDiskTable_word orderly.file removed with ⟨left, cleared⟩
    refine ⟨left, .single (.write cleared.step ?_) (orderly.word cleared.step cleared.file)⟩
    exact fun other different => cleared.kept other fun same => different (same ▸ rfl)

theorem removeEnvAllTables (orderly : Orderly ghost free state)
    (returned : pfRemoveEnvAllTables env state = .ok ((), final)) :
    ∃ left, Moves env ghost free state ghost left final ∧
      WordStep state final ∧ ∀ index, final.diskTableDirectory env index = 0 := by
  rcases ite_ok.mp (bind_get_ok.mp returned) with ⟨absent, ended⟩ | ⟨-, removed⟩
  · rcases pure_ok.mp ended with ⟨-, rfl⟩
    exact ⟨free, .refl, .refl _, orderly.file.layout.noTables env absent⟩
  · rcases removeDiskTables_word orderly.file removed with ⟨left, cleared⟩
    have later := orderly.word cleared.step cleared.file
    refine ⟨left, .single (.cleared (fun _ => rfl) cleared) later, cleared.step,
      fun index => ?_⟩
    by_cases user : index < pdx userTop
    · exact cleared.word (.table env index) ⟨index, List.mem_range.mpr user, rfl⟩
    · exact later.file.layout.userTables env index (Nat.le_of_not_lt user)

/-! ## Release of an environment -/

/-- The loop of `pf_free_env`. -/
theorem freeTables {indices : List Nat} (orderly : Orderly ghost free state)
    (documented : Documented mine start state) (own : mine env)
    (returned : Kernel.forEach (freeDiskPageTable env) indices state = .ok ((), final)) :
    ∃ after left, Moves env ghost free state after left final ∧
      final.directoryAddress = state.directoryAddress ∧
      ∀ index, final.diskDirectory env index =
        if index ∈ indices then 0 else state.diskDirectory env index := by
  induction indices generalizing ghost free state with
  | nil =>
      rcases pure_ok.mp returned with ⟨-, rfl⟩
      exact ⟨ghost, free, .refl, rfl, fun _ => rfl⟩
  | cons index indices induction =>
      rcases bind_ok.mp returned with ⟨_, between, first, rest⟩
      by_cases absent : state.diskDirectory env index = 0
      · rw [freeDiskPageTable_absent absent] at first
        cases first
        rcases induction orderly documented rest with ⟨after, left, moves, addresses, directory⟩
        refine ⟨after, left, moves, addresses, fun someIndex => ?_⟩
        rw [directory someIndex]
        by_cases here : someIndex = index
        · simp [here, absent]
        · simp [here]
      · have newest : ∀ address, HeapAddress address →
            ghost.holders (frameOf (state.diskDirectory env index)) = {.heap (ppn address)} →
              NewestSingle state address :=
          fun address heap held => documented.newest_table orderly own absent heap held
        rcases orderly.freeTable absent newest first with ⟨address, middle, rest', freed⟩
        have move : Move env ghost free state middle rest' between := .freeTable absent freed
        rcases induction freed.orderly (documented.move orderly move) rest with
          ⟨after, left, moves, addresses, directory⟩
        refine ⟨after, left, (Moves.single move freed.orderly).trans moves,
          addresses.trans (funext freed.directoryAddress), fun someIndex => ?_⟩
        rw [directory someIndex, freed.directory]
        by_cases here : someIndex = index
        · simp [here]
        · simp [here]

theorem emptied_words (orderly : Orderly ghost free final)
    (directory : ∀ index, final.diskDirectory env index =
      if index ∈ List.range (pdx userTop) then 0 else state.diskDirectory env index)
    (index : Nat) : final.directoryWord (.pages env) index = 0 := by
  by_cases user : index < pdx userTop
  · exact (directory index).trans (if_pos (List.mem_range.mpr user))
  · exact orderly.file.layout.userPages env index (Nat.le_of_not_lt user)

/-- A directory without words goes. -/
theorem freeSlot (slot : DirectorySlot) (orderly : Orderly ghost free state)
    (documented : Documented mine start state) (own : mine slot.env)
    (present : state.directoryAddress slot ≠ 0)
    (empty : ∀ index, state.directoryWord slot index = 0)
    (returned : kfree (state.directoryAddress slot) state = .ok ((), between)) :
    ∃ after, Moves slot.env ghost free state after free (between.setDirectoryAddress slot 0) ∧
      ∀ other, (between.setDirectoryAddress slot 0).directoryAddress other =
        if other = slot then 0 else state.directoryAddress other := by
  rcases orderly.freeDirectory present (documented.newest_directory own present) empty returned
    with ⟨after, freed, later⟩
  exact ⟨after, .single (.freeDirectory rfl freed) later, freed.directories⟩

/-- `pf_free_env` gives back all that the environment has in the page file. -/
theorem freeEnv (orderly : Orderly ghost free state) (documented : Documented mine start state)
    (own : mine env) (returned : pfFreeEnv env state = .ok ((), final)) :
    ∃ after left, Moves env ghost free state after left final ∧
      final.directoryAddress (.pages env) = 0 ∧ final.directoryAddress (.tables env) = 0 := by
  rcases ite_ok.mp (bind_get_ok.mp returned) with ⟨-, stopped⟩ | ⟨present, returned⟩
  · rcases bind_ok.mp stopped with ⟨_, _, thrown, -⟩
    exact (throw_ok.mp thrown).elim
  rcases bind_ok.mp returned with ⟨_, emptied, looped, returned⟩
  rcases freeTables orderly documented own looped with
    ⟨ghostOne, leftOne, first, addresses, directory⟩
  have orderlyOne := first.orderly orderly
  have documentedOne := documented.moves orderly first
  have presentNow : emptied.directoryAddress (.pages env) ≠ 0 := by
    rw [addresses]
    exact present
  have empty := emptied_words orderlyOne directory
  rcases bind_ok.mp (bind_get_ok.mp returned) with ⟨_, released, freed, returned⟩
  rcases freeSlot (.pages env) orderlyOne documentedOne own presentNow empty freed with
    ⟨ghostTwo, second, cleared⟩
  have two := first.trans second
  have noPages : (released.setDirectoryAddress (.pages env) 0).directoryAddress
      (.pages env) = 0 := by
    rw [cleared, if_pos rfl]
  rcases ite_ok.mp (bind_get_ok.mp (bind_modify_ok.mp returned)) with
    ⟨noTables, ended⟩ | ⟨tables, returned⟩
  · rcases pure_ok.mp ended with ⟨-, rfl⟩
    exact ⟨ghostTwo, leftOne, two, noPages, noTables⟩
  rcases bind_ok.mp returned with ⟨_, removed, removing, returned⟩
  rcases removeEnvAllTables (two.orderly orderly) removing with ⟨leftTwo, third, step, words⟩
  have three := two.trans third
  have tablesNow : removed.directoryAddress (.tables env) ≠ 0 := by
    rw [step.directoryAddress]
    exact tables
  rcases bind_ok.mp (bind_get_ok.mp returned) with ⟨_, last, freedTables, returned⟩
  have ended := modify_ok.mp returned
  rcases freeSlot (.tables env) (three.orderly orderly) (documented.moves orderly three) own
    tablesNow words freedTables with ⟨after, fourth, clearedLast⟩
  have result : last.setDirectoryAddress (.tables env) 0 = final := ended
  rw [result] at fourth clearedLast
  refine ⟨after, leftTwo, three.trans fourth, ?_, ?_⟩
  · rw [clearedLast, if_neg (by simp), step.directoryAddress]
    exact noPages
  · rw [clearedLast, if_pos rfl]

/-! ## The release ends -/

theorem freeTables_returns {indices : List Nat} (orderly : Orderly ghost free state)
    (documented : Documented mine start state) (own : mine env) (walkable : Walkable state) :
    ∃ final, Kernel.forEach (freeDiskPageTable env) indices state = .ok ((), final) ∧
      Walkable final := by
  induction indices generalizing ghost free state with
  | nil => exact ⟨state, rfl, walkable⟩
  | cons index indices induction =>
      by_cases absent : state.diskDirectory env index = 0
      · rcases induction orderly documented walkable with ⟨final, rest, later⟩
        exact ⟨final, bind_ok.mpr ⟨(), state, freeDiskPageTable_absent absent, rest⟩, later⟩
      · have newest : ∀ address, HeapAddress address →
            ghost.holders (frameOf (state.diskDirectory env index)) = {.heap (ppn address)} →
              NewestSingle state address :=
          fun address heap held => documented.newest_table orderly own absent heap held
        rcases orderly.freeTable_returns walkable absent newest with ⟨between, first⟩
        rcases orderly.freeTable absent newest first with ⟨address, middle, left, freed⟩
        have move : Move env ghost free state middle left between := .freeTable absent freed
        rcases induction freed.orderly (documented.move orderly move) (freed.walkable walkable) with
          ⟨final, rest, later⟩
        exact ⟨final, bind_ok.mpr ⟨(), between, first, rest⟩, later⟩

theorem freeSlot_returns (slot : DirectorySlot) (orderly : Orderly ghost free state)
    (documented : Documented mine start state) (own : mine slot.env) (walkable : Walkable state)
    (present : state.directoryAddress slot ≠ 0)
    (empty : ∀ index, state.directoryWord slot index = 0) :
    ∃ released, kfree (state.directoryAddress slot) state = .ok ((), released) ∧
      Walkable (released.setDirectoryAddress slot 0) := by
  have newest := documented.newest_directory own present
  rcases kfree_returns orderly.consistent.toHeapLayout walkable.serviceable
    (orderly.pages.heap _ present) newest with ⟨released, freed⟩
  rcases orderly.freeDirectory present newest empty freed with ⟨after, page, -⟩
  exact ⟨released, freed, page.walkable walkable⟩

theorem removeEnvAllTables_returns (env : Nat) (state : State) :
    ∃ final, pfRemoveEnvAllTables env state = .ok ((), final) := by
  by_cases absent : (state.envs env).diskEnvTabledir = 0
  · exact ⟨state, bind_get_ok.mpr (ite_ok.mpr (.inl ⟨absent, rfl⟩))⟩
  · rcases removeDiskTables_returns (List.range (pdx userTop)) state with ⟨final, removed⟩
    exact ⟨final, bind_get_ok.mpr (ite_ok.mpr (.inr ⟨absent, removed⟩))⟩

theorem freeEnv_returns (orderly : Orderly ghost free state)
    (documented : Documented mine start state) (own : mine env) (walkable : Walkable state)
    (present : state.directoryAddress (.pages env) ≠ 0) :
    ∃ final, pfFreeEnv env state = .ok ((), final) := by
  rcases freeTables_returns orderly documented own walkable with ⟨emptied, looped, walkableOne⟩
  rcases freeTables orderly documented own looped with
    ⟨ghostOne, leftOne, first, addresses, directory⟩
  have orderlyOne := first.orderly orderly
  have documentedOne := documented.moves orderly first
  have presentNow : emptied.directoryAddress (.pages env) ≠ 0 := by
    rw [addresses]
    exact present
  have empty := emptied_words orderlyOne directory
  rcases freeSlot_returns (.pages env) orderlyOne documentedOne own walkableOne presentNow empty
    with ⟨released, freed, walkableTwo⟩
  by_cases noTables : (released.setDirectoryAddress (.pages env) 0).directoryAddress
      (.tables env) = 0
  · have kept := State.directoryAddress_set released (.pages env) (.tables env) 0
    rw [if_neg (by simp)] at kept
    exact ⟨_, pfFreeEnv_run present looped freed (kept.symm.trans noTables)⟩
  · rcases freeSlot (.pages env) orderlyOne documentedOne own presentNow empty freed with
      ⟨ghostTwo, second, -⟩
    have two := first.trans second
    rcases removeEnvAllTables_returns env (released.setDirectoryAddress (.pages env) 0) with
      ⟨removed, removing⟩
    rcases removeEnvAllTables (two.orderly orderly) removing with
      ⟨leftTwo, third, step, words⟩
    have three := two.trans third
    have tablesNow : removed.directoryAddress (.tables env) ≠ 0 := by
      rw [step.directoryAddress]
      exact noTables
    rcases freeSlot_returns (.tables env) (three.orderly orderly) (documented.moves orderly three)
      own (step.walkable walkableTwo) tablesNow words with ⟨last, freedTables, -⟩
    refine ⟨last.setDirectoryAddress (.tables env) 0, bind_get_ok.mpr ?_⟩
    rw [show (state.envs env).diskEnvPgdir = state.directoryAddress (.pages env) from rfl,
      if_neg present]
    refine bind_ok.mpr ⟨(), emptied, looped, bind_get_ok.mpr ?_⟩
    refine bind_ok.mpr ⟨(), released, freed, bind_modify_ok.mpr (bind_get_ok.mpr ?_)⟩
    refine ite_ok.mpr (.inr ⟨noTables, bind_ok.mpr ⟨(), removed, removing, ?_⟩⟩)
    exact bind_get_ok.mpr (bind_ok.mpr ⟨(), last, freedTables, rfl⟩)

end Calls

end FosKernel.PageTrace
