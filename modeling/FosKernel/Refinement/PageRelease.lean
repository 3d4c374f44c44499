import FosKernel.Refinement.PageFile

/-! # Release of disk frames

Removing a page from the page file clears its entry and puts its disk frame back on the
free list.
-/

namespace FosKernel

open Kernel

section Release

variable {ghost after : Ghost} {state middle final : State} {free : List Nat}

/-- A word of the page file is cleared. -/
structure WordCleared (state : State) (slot : DiskSlot) (final : State) : Prop where
  word : final.diskWord slot = 0
  others : ∀ other, other ≠ slot → final.diskWord other = state.diskWord other
  diskLinks : final.diskLinks = state.diskLinks
  diskFree : final.diskFreeFrameList = state.diskFreeFrameList
  layout : DiskLayout state → DiskLayout final

/-- The disk frame of the cleared word is freed. -/
theorem PageFile.give {slot : DiskSlot} (file : PageFile free state)
    (cleared : WordCleared state slot middle)
    (freed : freeDiskFrame (state.diskWord slot).toNat middle = .ok ((), final)) :
    ∃ left, PageFile left final ∧ DiskListOnly middle final := by
  have own : middle.diskOwned slot = none := diskNumber_eq_none.mpr cleared.word
  have others : ∀ other, other ≠ slot → middle.diskOwned other = state.diskOwned other := by
    intro other different
    simp only [State.diskOwned, cleared.others other different]
  have list : Represents middle.diskLinks middle.diskFreeFrameList free := by
    rw [cleared.diskLinks, cleared.diskFree]
    exact file.list
  have layout := cleared.layout file.layout
  rcases freeDiskFrame_ok freed with ⟨zero, rfl⟩ | ⟨nonzero, rfl⟩
  · refine ⟨free, ⟨list, file.pool.congr ?_, layout⟩, _, _, rfl⟩
    intro other
    by_cases same : other = slot
    · subst same
      have before : state.diskOwned other = none := by
        apply diskNumber_eq_none.mpr
        exact BitVec.eq_of_toNat_eq zero
      rw [own, before]
    · exact others other same
  · have has : state.diskOwned slot = some (state.diskWord slot).toNat := by
      apply diskNumber_of_ne
      intro zero
      rw [zero] at nonzero
      exact nonzero rfl
    have fresh := (file.pool.taken slot _ has).2
    refine ⟨(state.diskWord slot).toNat :: free, ⟨?_, file.pool.give has own others, ?_⟩,
      _, _, rfl⟩
    · exact list.listInsertHead fresh file.room
    · exact layout.congr rfl rfl (fun _ => id) fun _ => id

/-! ## Pages -/

theorem DiskTableFound.cleared {env address : Nat} {pointer : TablePointer}
    (consistent : Consistent ghost state.view)
    (found : DiskTableFound state env address pointer)
    (stored : store pointer (ptx address) 0 state = .ok ((), final)) :
    FileStep ghost state ghost final ∧ WordCleared state (.page env (ppn address)) final := by
  rcases found.store_ok consistent stored with ⟨step, written, equal⟩
  refine ⟨step, ⟨written.entry, ?_, ?_, ?_, ?_⟩⟩
  · intro other different
    cases other with
    | page someEnv page =>
        apply written.others
        rintro ⟨rfl, rfl⟩
        exact different rfl
    | table someEnv index => exact congrFun (congrFun step.diskTables someEnv) index
  · rw [equal]
    rfl
  · rw [equal]
    rfl
  · intro layout
    rw [equal]
    exact layout.congr rfl rfl (fun _ => id) fun _ => id

/-- The body of `pf_remove_env_page` and of the inner loop of `pf_free_env`. -/
theorem freeDiskEntry_ok {env address : Nat} {pointer : TablePointer}
    (consistent : Consistent ghost state.view) (file : PageFile free state)
    (found : DiskTableFound state env address pointer)
    (returned : freeDiskEntry pointer (ptx address) state = .ok ((), final)) :
    ∃ left, FileStep ghost state ghost final ∧ PageFile left final ∧
      final.diskEntry env (ppn address) = 0 ∧
      final.diskDirectory = state.diskDirectory ∧ final.bootTables = state.bootTables := by
  rcases bind_observe_ok.mp returned with ⟨dfn, loaded, continued⟩
  rcases bind_ok.mp continued with ⟨_, cleared, storing, freed⟩
  rcases found.cleared consistent storing with ⟨first, word⟩
  rw [found.load_ok loaded] at freed
  rcases file.give word freed with ⟨left, later, only⟩
  have equal := (found.store_ok consistent storing).2.2
  refine ⟨left, first.trans (only.step first.consistent) consistent, later, ?_, ?_, ?_⟩
  · have empty := word.word
    rcases only with ⟨_, _, rfl⟩
    exact empty
  · rcases only with ⟨_, _, rfl⟩
    rw [equal]
    rfl
  · rcases only with ⟨_, _, rfl⟩
    rw [equal]
    rfl

theorem pfRemoveEnvPage_ok {env address : Nat} (consistent : Consistent ghost state.view)
    (file : PageFile free state) (user : address < userTop)
    (returned : pfRemoveEnvPage env address state = .ok ((), final)) :
    ∃ left, FileStep ghost state ghost final ∧ PageFile left final := by
  rcases ite_ok.mp (bind_get_ok.mp returned) with ⟨-, ended⟩ | ⟨-, opened⟩
  · rcases pure_ok.mp ended with ⟨-, rfl⟩
    exact ⟨free, .refl consistent, file⟩
  rcases bind_ok.mp opened with ⟨pointer, same, located, removed⟩
  rcases findDiskPageTable_ok consistent.toHeapLayout user located with
    ⟨rfl, ⟨rfl, -⟩ | found⟩
  · rcases pure_ok.mp removed with ⟨-, rfl⟩
    exact ⟨free, .refl consistent, file⟩
  · rcases ite_ok.mp removed with ⟨null, -⟩ | ⟨-, freed⟩
    · exact absurd null found.ne_null
    · rcases freeDiskEntry_ok consistent file found freed with ⟨left, step, later, -⟩
      exact ⟨left, step, later⟩

/-! ## Words -/

/-- A step that writes words of the page file, contents of disk frames and the list of the
free ones. -/
structure WordStep (state final : State) : Prop where
  only : ∃ memory sectors diskLinks diskFreeFrameList diskTableDirectory,
    final = { state with memory, sectors, diskLinks, diskFreeFrameList, diskTableDirectory }
  view : final.view = state.view

namespace WordStep

variable {between : State}

theorem refl (state : State) : WordStep state state := ⟨⟨_, _, _, _, _, rfl⟩, rfl⟩

theorem trans (first : WordStep state between) (second : WordStep between final) :
    WordStep state final := by
  rcases first.only with ⟨_, _, _, _, _, rfl⟩
  rcases second.only with ⟨_, _, _, _, _, same⟩
  exact ⟨⟨_, _, _, _, _, same⟩, second.view.trans first.view⟩

theorem ofList (only : DiskListOnly state final) : WordStep state final := by
  rcases only with ⟨_, _, rfl⟩
  exact ⟨⟨_, _, _, _, _, rfl⟩, rfl⟩

theorem setSectors (state : State) (sectors : Nat → Nat → Word) :
    WordStep state { state with sectors } := ⟨⟨_, _, _, _, _, rfl⟩, rfl⟩

variable (step : WordStep state final)
include step

theorem consistent (before : Consistent ghost state.view) : Consistent ghost final.view := by
  rw [step.view]
  exact before

theorem envs : final.envs = state.envs := by
  rcases step.only with ⟨_, _, _, _, _, rfl⟩
  rfl

theorem diskDirectory : final.diskDirectory = state.diskDirectory := by
  rcases step.only with ⟨_, _, _, _, _, rfl⟩
  rfl

theorem bootTables : final.bootTables = state.bootTables := by
  rcases step.only with ⟨_, _, _, _, _, rfl⟩
  rfl

theorem pageDirectory : final.pageDirectory = state.pageDirectory := by
  rcases step.only with ⟨_, _, _, _, _, rfl⟩
  rfl

theorem numberOfFrames : final.numberOfFrames = state.numberOfFrames := by
  rcases step.only with ⟨_, _, _, _, _, rfl⟩
  rfl

theorem idx : final.idx = state.idx := by
  rcases step.only with ⟨_, _, _, _, _, rfl⟩
  rfl

theorem kHeapArr : final.kHeapArr = state.kHeapArr := by
  rcases step.only with ⟨_, _, _, _, _, rfl⟩
  rfl

theorem directoryAddress : final.directoryAddress = state.directoryAddress := by
  rcases step.only with ⟨_, _, _, _, _, rfl⟩
  rfl

end WordStep

/-- The address of the page whose word is at an offset of a disk page table. -/
def diskPageAddress (index offset : Nat) : Nat := index * 4194304 + offset * 4096

theorem ppn_diskPageAddress (index offset : Nat) :
    ppn (diskPageAddress index offset) = index * 1024 + offset := by
  simp only [ppn, diskPageAddress]
  omega

theorem pdx_diskPageAddress (bound : offset < 1024) :
    pdx (diskPageAddress index offset) = index := by
  simp only [pdx, ppn, diskPageAddress]
  omega

theorem ptx_diskPageAddress (bound : offset < 1024) :
    ptx (diskPageAddress index offset) = offset := by
  simp only [ptx, ppn, diskPageAddress]
  omega

theorem DiskTableFound.word {env address : Nat} {pointer : TablePointer} {word : Word}
    (consistent : Consistent ghost state.view)
    (found : DiskTableFound state env address pointer)
    (stored : store pointer (ptx address) word state = .ok ((), final)) :
    WordStep state final := by
  rw [found.points.store_ok stored]
  exact ⟨⟨_, _, _, _, _, rfl⟩, State.view_setMemory_disk consistent.toPlacement found.present
    (ptx address) word⟩

theorem DiskTableFound.later {env address : Nat} {pointer : TablePointer}
    (found : DiskTableFound state env address pointer) (step : WordStep state final) :
    DiskTableFound final env address pointer where
  present := by
    rw [step.diskDirectory]
    exact found.present
  points := by
    rw [step.diskDirectory]
    exact found.points.congr step.bootTables

/-- Some words of the page file are cleared and their disk frames are free. -/
structure WordsCleared (cleared : DiskSlot → Prop) (state : State) (left : List Nat)
    (final : State) : Prop where
  step : WordStep state final
  file : PageFile left final
  word : ∀ slot, cleared slot → final.diskWord slot = 0
  kept : ∀ slot, ¬cleared slot → final.diskWord slot = state.diskWord slot

theorem freeDiskEntry_word {env address : Nat} {pointer : TablePointer}
    (consistent : Consistent ghost state.view) (file : PageFile free state)
    (found : DiskTableFound state env address pointer)
    (returned : freeDiskEntry pointer (ptx address) state = .ok ((), final)) :
    ∃ left, WordsCleared (fun slot => slot = .page env (ppn address)) state left final := by
  rcases bind_observe_ok.mp returned with ⟨dfn, loaded, continued⟩
  rcases bind_ok.mp continued with ⟨_, between, storing, freed⟩
  have cleared := (found.cleared consistent storing).2
  rw [found.load_ok loaded] at freed
  rcases file.give cleared freed with ⟨left, later, only⟩
  have step := (found.word consistent storing).trans (.ofList only)
  have same : ∀ slot, final.diskWord slot = between.diskWord slot := by
    intro slot
    rcases only with ⟨_, _, rfl⟩
    cases slot with
    | page someEnv page => rfl
    | table someEnv index => rfl
  refine ⟨left, step, later, ?_, ?_⟩
  · intro slot own
    rw [same, own]
    exact cleared.word
  · intro slot other
    rw [same]
    exact cleared.others slot other

/-- A loop whose body clears one word clears the words of its indices. -/
theorem forEach_cleared (ready : State → Prop) {body : Nat → Kernel Unit}
    {cell : Nat → DiskSlot} {indices : List Nat}
    (kept : ∀ {state final}, ready state → WordStep state final → ready final)
    (one : ∀ index ∈ indices, ∀ {state free final}, ready state → PageFile free state →
      body index state = .ok ((), final) →
        ∃ left, WordsCleared (fun slot => slot = cell index) state left final)
    (before : ready state) (file : PageFile free state)
    (returned : Kernel.forEach body indices state = .ok ((), final)) :
    ∃ left, WordsCleared (fun slot => ∃ index ∈ indices, slot = cell index) state left final := by
  induction indices generalizing state free with
  | nil =>
      rcases pure_ok.mp returned with ⟨-, rfl⟩
      refine ⟨free, .refl state, file, ?_, fun _ _ => rfl⟩
      rintro slot ⟨index, member, -⟩
      cases member
  | cons index indices induction =>
      rcases bind_ok.mp returned with ⟨_, between, ran, rest⟩
      rcases one index (by simp) before file ran with ⟨middle, first⟩
      rcases induction (fun other member => one other (by simp [member]))
        (kept before first.step) first.file rest with ⟨left, second⟩
      refine ⟨left, first.step.trans second.step, second.file, ?_, ?_⟩
      · rintro slot ⟨other, member, own⟩
        by_cases again : ∃ someIndex ∈ indices, slot = cell someIndex
        · exact second.word slot again
        · rw [second.kept slot again]
          rcases List.mem_cons.mp member with same | tail
          · rw [same] at own
            exact first.word slot own
          · exact absurd ⟨other, tail, own⟩ again
      · intro slot outside
        have notLater : ¬∃ someIndex ∈ indices, slot = cell someIndex := by
          rintro ⟨other, member, own⟩
          exact outside ⟨other, by simp [member], own⟩
        have notFirst : slot ≠ cell index := by
          intro own
          exact outside ⟨index, by simp, own⟩
        rw [second.kept slot notLater, first.kept slot notFirst]

/-- The inner loop of `pf_free_env`. -/
theorem freeDiskEntries_ok {env index : Nat} {pointer : TablePointer} {offsets : List Nat}
    (consistent : Consistent ghost state.view) (file : PageFile free state)
    (bounded : ∀ offset ∈ offsets, offset < 1024)
    (found : ∀ offset < 1024, DiskTableFound state env (diskPageAddress index offset) pointer)
    (returned : Kernel.forEach (freeDiskEntry pointer) offsets state = .ok ((), final)) :
    ∃ left, WordsCleared (fun slot => ∃ offset ∈ offsets, slot = .page env (index * 1024 + offset))
      state left final := by
  refine forEach_cleared (fun state => Consistent ghost state.view ∧ ∀ offset < 1024,
    DiskTableFound state env (diskPageAddress index offset) pointer) ?_ ?_ ⟨consistent, found⟩
    file returned
  · rintro _ _ ⟨before, there⟩ step
    exact ⟨step.consistent before, fun offset bound => (there offset bound).later step⟩
  · rintro offset member _ _ _ ⟨before, there⟩ someFile freed
    have bound := bounded offset member
    have own : ptx (diskPageAddress index offset) = offset := ptx_diskPageAddress bound
    rw [← own] at freed
    have cleared := freeDiskEntry_word before someFile (there offset bound) freed
    rwa [ppn_diskPageAddress] at cleared

/-! ## Disk frames of page tables -/

theorem WordStep.setDiskTable (state : State) (env index : Nat) (dfn : Word) :
    WordStep state (state.setDiskTable env index dfn) := ⟨⟨_, _, _, _, _, rfl⟩, rfl⟩

theorem State.diskWord_setDiskTable (state : State) (env index : Nat) (dfn : Word)
    (slot : DiskSlot) : (state.setDiskTable env index dfn).diskWord slot =
      if slot = .table env index then dfn else state.diskWord slot := by
  cases slot with
  | page someEnv page => rfl
  | table someEnv someIndex =>
      by_cases same : someEnv = env
      · subst same
        by_cases here : someIndex = index
        · simp [State.diskWord, State.setDiskTable, here]
        · simp [State.diskWord, State.setDiskTable, here]
      · simp [State.diskWord, State.setDiskTable, same]

theorem DiskLayout.setDiskTable {env index : Nat} {dfn : Word} (layout : DiskLayout state)
    (inside : dfn ≠ 0 → index < pdx userTop ∧ (state.envs env).diskEnvTabledir ≠ 0) :
    DiskLayout (state.setDiskTable env index dfn) where
  userPages := layout.userPages
  userTables := by
    intro someEnv someIndex high
    have word := state.diskWord_setDiskTable env index dfn (.table someEnv someIndex)
    refine word.trans ?_
    split
    · next own =>
      rw [DiskSlot.table.injEq] at own
      by_contra nonzero
      have := (inside nonzero).1
      omega
    · exact layout.userTables someEnv someIndex high
  noPages := layout.noPages
  noTables := by
    intro someEnv none someIndex
    have word := state.diskWord_setDiskTable env index dfn (.table someEnv someIndex)
    refine word.trans ?_
    split
    · next own =>
      rw [DiskSlot.table.injEq] at own
      by_contra nonzero
      exact (inside nonzero).2 (own.1 ▸ none)
    · exact layout.noTables someEnv none someIndex

theorem removeDiskTable_word {env index : Nat} (file : PageFile free state)
    (returned : removeDiskTable env index state = .ok ((), final)) :
    ∃ left, WordsCleared (fun slot => slot = .table env index) state left final := by
  have freed := bind_modify_ok.mp (bind_get_ok.mp returned)
  have cleared : WordCleared state (.table env index) (state.setDiskTable env index 0) :=
    { word := by rw [State.diskWord_setDiskTable, if_pos rfl]
      others := fun other different => by rw [State.diskWord_setDiskTable, if_neg different]
      diskLinks := rfl
      diskFree := rfl
      layout := fun layout => layout.setDiskTable (absurd rfl) }
  rcases file.give cleared freed with ⟨left, later, only⟩
  have same : ∀ slot, final.diskWord slot = (state.setDiskTable env index 0).diskWord slot := by
    intro slot
    rcases only with ⟨_, _, rfl⟩
    cases slot with
    | page someEnv page => rfl
    | table someEnv someIndex => rfl
  refine ⟨left, (WordStep.setDiskTable state env index 0).trans (.ofList only), later, ?_, ?_⟩
  · intro slot own
    rw [same, own]
    exact cleared.word
  · intro slot other
    rw [same]
    exact cleared.others slot other

/-- `__pf_remove_env_all_tables`. -/
theorem removeDiskTables_word {env : Nat} {indices : List Nat} (file : PageFile free state)
    (returned : Kernel.forEach (removeDiskTable env) indices state = .ok ((), final)) :
    ∃ left, WordsCleared (fun slot => ∃ index ∈ indices, slot = .table env index) state left
      final :=
  forEach_cleared (fun _ => True) (fun _ _ => trivial)
    (fun _ _ _ _ _ _ someFile removed => removeDiskTable_word someFile removed) trivial file
    returned

/-! ## Tables -/

/-- The entry of a disk page table is cleared. -/
def State.dropDiskTable (state : State) (env index : Nat) : State :=
  { state with
    diskDirectory := Function.update state.diskDirectory env
      (Function.update (state.diskDirectory env) index 0) }

theorem State.dropDiskTable_directory (state : State) (env index someEnv someIndex : Nat) :
    (state.dropDiskTable env index).diskDirectory someEnv someIndex =
      if someEnv = env ∧ someIndex = index then 0 else state.diskDirectory someEnv someIndex := by
  simp only [dropDiskTable]
  by_cases same : someEnv = env
  · subst same
    by_cases here : someIndex = index
    · simp [here]
    · simp [here]
  · simp [same]

theorem State.view_dropDiskTable (state : State) (env index : Nat) :
    (state.dropDiskTable env index).view = state.view.setTable (.disk env index) 0 := by
  apply View.ext <;> try rfl
  funext table
  cases table with
  | page owner someIndex => simp [State.view, State.tableEntry, View.setTable, dropDiskTable]
  | disk someEnv someIndex =>
      have own := state.dropDiskTable_directory env index someEnv someIndex
      by_cases here : someEnv = env ∧ someIndex = index
      · rcases here with ⟨rfl, rfl⟩
        rw [if_pos ⟨rfl, rfl⟩] at own
        simpa [State.view, State.tableEntry, View.setTable] using own
      · rw [if_neg here] at own
        have other : Table.disk someEnv someIndex ≠ .disk env index := by
          intro equal
          rw [Table.disk.injEq] at equal
          exact here equal
        simp only [View.setTable, Function.update_of_ne other]
        exact own

/-- The pages of a dropped table had no disk frames. -/
theorem State.dropDiskTable_words {env index : Nat}
    (empty : ∀ offset < 1024, state.diskEntry env (index * 1024 + offset) = 0) (slot : DiskSlot) :
    (state.dropDiskTable env index).diskWord slot = state.diskWord slot := by
  cases slot with
  | table someEnv someIndex => rfl
  | page someEnv page =>
      have own := state.dropDiskTable_directory env index someEnv (page / 1024)
      by_cases here : someEnv = env ∧ page / 1024 = index
      · rw [if_pos here] at own
        rcases here with ⟨rfl, rfl⟩
        have before := empty (page % 1024) (Nat.mod_lt _ (by decide))
        rw [Nat.div_add_mod'] at before
        exact (diskEntry_of_zero own).trans before.symm
      · rw [if_neg here] at own
        simp only [State.diskWord, State.diskEntry, own]
        rfl

theorem DiskLayout.dropDiskTable (layout : DiskLayout state) (env index : Nat) :
    DiskLayout (state.dropDiskTable env index) where
  userPages := by
    intro someEnv someIndex high
    rw [State.dropDiskTable_directory, layout.userPages someEnv someIndex high, ite_self]
  userTables := layout.userTables
  noPages := by
    intro someEnv none someIndex
    rw [State.dropDiskTable_directory, layout.noPages someEnv none someIndex, ite_self]
  noTables := layout.noTables

theorem PageFile.dropDiskTable {env index : Nat} (file : PageFile free state)
    (empty : ∀ offset < 1024, state.diskEntry env (index * 1024 + offset) = 0) :
    PageFile free (state.dropDiskTable env index) where
  list := file.list
  pool := file.pool.congr fun slot => by
    simp only [State.diskOwned, State.dropDiskTable_words empty]
  layout := file.layout.dropDiskTable env index

/-! ## Pages of the kernel heap -/

/-- A page of the heap is given back. -/
structure PageFreed (ghost : Ghost) (state : State) (address : Nat) (after : Ghost)
    (final : State) : Prop where
  shrink : HeapShrink ghost state.view [ppn address] after final.view
  only : MapOnly state final

/-- The newest record of an address says that its block has one page. -/
def NewestSingle (state : State) (address : Nat) : Prop :=
  ∃ record, findHeapRecord state address = some record ∧ record.last = address

theorem kfree_page {address : Nat} (consistent : Consistent ghost state.view)
    (records : HeapRecords state) (newest : NewestSingle state address)
    (visible : Slot.heap (ppn address) ∉ ghost.uncounted)
    (held : ghost.holders (frameOf (state.view.entry (.heap (ppn address)))) =
      {.heap (ppn address)})
    (apart : ∀ table, state.view.table table ≠ 0 → frameOf (state.view.table table) ≠
      frameOf (state.view.entry (.heap (ppn address))))
    (returned : kfree address state = .ok ((), final)) :
    ∃ after, PageFreed ghost state address after final := by
  rcases newest with ⟨record, found, last⟩
  rcases kfree_ok records returned with ⟨none, -⟩ | ⟨same, found', heap, unmapped⟩
  · rw [found] at none
    cases none
  · rw [found, Option.some.injEq] at found'
    subst found'
    have single : pageRange address (record.last + 1) = [address] := by
      rw [last, pageRange_cons (Nat.lt_succ_self address), pageRange_nil (by omega)]
    rw [single] at heap unmapped
    have releasable : Releasable ghost state.view (ppn address) := by
      right
      rw [held, Finset.card_singleton]
      exact ⟨visible, by decide, apart⟩
    rcases unmapHeapPages_ok consistent heap (by simpa using releasable) unmapped with
      ⟨after, shrink, only⟩
    exact ⟨after, shrink, only⟩

namespace PageFreed

variable {address : Nat} (freed : PageFreed ghost state address after final)
include freed

theorem consistent : Consistent after final.view := freed.shrink.consistent

theorem diskWord (slot : DiskSlot) : final.diskWord slot = state.diskWord slot := by
  rcases freed.only with ⟨_, _, _, _, rfl⟩
  cases slot with
  | page env page => rfl
  | table env index => rfl

theorem pageFile (file : PageFile free state) : PageFile free final := by
  have words := freed.diskWord
  rcases freed.only with ⟨_, _, _, _, rfl⟩
  refine ⟨file.list, file.pool.congr fun slot => ?_, ?_⟩
  · simp only [State.diskOwned, words]
  · exact file.layout.congr rfl rfl (fun _ => id) fun _ => id

theorem records (before : HeapRecords state) : HeapRecords final := by
  rcases freed.only with ⟨_, _, _, _, rfl⟩
  exact before.congr rfl rfl

/-- The other directories keep their pages. -/
theorem directories {final' : State} (pages : DirectoryPages ghost state)
    (view : final'.view = final.view)
    (kept : ∀ slot, final'.directoryAddress slot ≠ 0 →
      final'.directoryAddress slot = state.directoryAddress slot ∧
        ppn (state.directoryAddress slot) ≠ ppn address) : DirectoryPages after final' := by
  have entry : ∀ slot, final'.directoryAddress slot ≠ 0 →
      final'.view.entry (.heap (ppn (state.directoryAddress slot))) =
        state.view.entry (.heap (ppn (state.directoryAddress slot))) := by
    intro slot present
    have different := (kept slot present).2
    rw [view]
    exact freed.shrink.entries _ (by simpa using different)
  have before : ∀ slot, final'.directoryAddress slot ≠ 0 → state.directoryAddress slot ≠ 0 := by
    intro slot present
    rw [← (kept slot present).1]
    exact present
  constructor
  · intro slot present
    rw [(kept slot present).1]
    exact pages.heap slot (before slot present)
  · intro slot present
    rw [(kept slot present).1, entry slot present]
    exact pages.mapped slot (before slot present)
  · intro slot present
    have held := pages.held slot (before slot present)
    rw [(kept slot present).1, entry slot present]
    have different := (kept slot present).2
    have outside : ∀ page ∈ [ppn address], Slot.heap page ∉ ghost.holders
        (frameOf (state.view.entry (.heap (ppn (state.directoryAddress slot))))) := by
      rw [held]
      simpa using different.symm
    rw [(freed.shrink.kept _ outside).2.1]
    exact held
  · intro slot present table nonzero
    rw [(kept slot present).1, entry slot present]
    rw [view, freed.shrink.table] at nonzero ⊢
    exact pages.apart slot (before slot present) table nonzero
  · intro left right present equal
    have rightPresent : final'.directoryAddress right ≠ 0 := equal ▸ present
    refine pages.distinct left right (before left present) ?_
    rw [← (kept left present).1, ← (kept right rightPresent).1]
    exact equal

end PageFreed

theorem NewestSingle.congr {address : Nat} (newest : NewestSingle state address)
    (idx : final.idx = state.idx) (kHeapArr : final.kHeapArr = state.kHeapArr) :
    NewestSingle final address := by
  rcases newest with ⟨record, found, last⟩
  refine ⟨record, ?_, last⟩
  rw [findHeapRecord, idx, kHeapArr]
  exact found

/-! ## Directories without words -/

/-- The words of a directory. -/
def State.directoryWord (state : State) : DirectorySlot → Nat → Word
  | .pages env, index => state.diskDirectory env index
  | .tables env, index => state.diskTableDirectory env index

theorem DiskLayout.directoryWord (layout : DiskLayout state) {slot : DirectorySlot}
    (absent : state.directoryAddress slot = 0) (index : Nat) :
    state.directoryWord slot index = 0 := by
  cases slot with
  | pages env => exact layout.noPages env absent index
  | tables env => exact layout.noTables env absent index

theorem State.diskWord_setDirectoryAddress (state : State) (slot : DirectorySlot) (address : Nat)
    (cell : DiskSlot) : (state.setDirectoryAddress slot address).diskWord cell =
      state.diskWord cell := by
  rcases state.setDirectoryAddress_only slot address with ⟨envs, only⟩
  rw [only]
  cases cell with
  | page env page => rfl
  | table env index => rfl

theorem PageFile.clearDirectory {slot : DirectorySlot} (file : PageFile free state)
    (empty : ∀ index, state.directoryWord slot index = 0) :
    PageFile free (state.setDirectoryAddress slot 0) := by
  have layout := file.layout
  have addresses := state.directoryAddress_set slot
  have words := state.diskWord_setDirectoryAddress slot 0
  rcases state.setDirectoryAddress_only slot 0 with ⟨envs, only⟩
  have kept : ∀ other, (state.setDirectoryAddress slot 0).directoryAddress other = 0 →
      ∀ index, state.directoryWord other index = 0 := by
    intro other absent index
    by_cases own : other = slot
    · rw [own]
      exact empty index
    · rw [addresses other 0, if_neg own] at absent
      exact layout.directoryWord absent index
  have equal : ∀ cell, (state.setDirectoryAddress slot 0).diskOwned cell =
      state.diskOwned cell := by
    intro cell
    simp only [State.diskOwned, words]
  rw [only] at kept equal ⊢
  exact
    { list := file.list
      pool := file.pool.congr equal
      layout :=
        { userPages := layout.userPages
          userTables := layout.userTables
          noPages := fun env => kept (.pages env)
          noTables := fun env => kept (.tables env) } }

/-! ## Orderly states -/

/-- The disk frames are divided, and the pages of the kernel heap that the page file uses
are the only ones that map their frames. -/
structure Orderly (ghost : Ghost) (free : List Nat) (state : State) : Prop where
  consistent : Consistent ghost state.view
  file : PageFile free state
  pages : DirectoryPages ghost state
  records : HeapRecords state
  visible : ∀ page, Slot.heap page ∉ ghost.uncounted

/-- The disk frames of a table are free and its entry is cleared. -/
structure TableEmptied (ghost : Ghost) (state : State) (env index address : Nat)
    (left : List Nat) (emptied : State) : Prop where
  step : WordStep state emptied
  orderly : Orderly ghost left (emptied.dropDiskTable env index)
  view : (emptied.dropDiskTable env index).view = state.view.setTable (.disk env index) 0
  apart : ∀ table, (emptied.dropDiskTable env index).view.table table ≠ 0 →
    frameOf ((emptied.dropDiskTable env index).view.table table) ≠
      frameOf ((emptied.dropDiskTable env index).view.entry (.heap (ppn address)))
  held : ghost.holders (frameOf ((emptied.dropDiskTable env index).view.entry
    (.heap (ppn address)))) = {.heap (ppn address)}
  words : ∀ slot, (∀ page, slot ≠ .page env page) →
    (emptied.dropDiskTable env index).diskWord slot = state.diskWord slot

/-- A disk page table of an environment is given back with the disk frames in it. -/
structure TableFreed (ghost : Ghost) (state : State) (env index address : Nat) (after : Ghost)
    (left : List Nat) (final : State) : Prop where
  heap : HeapAddress address
  mapped : state.view.entry (.heap (ppn address)) ≠ 0
  frame : frameOf (state.view.entry (.heap (ppn address))) =
    frameOf (state.diskDirectory env index)
  held : ghost.holders (frameOf (state.diskDirectory env index)) = {.heap (ppn address)}
  orderly : Orderly after left final
  shrink : HeapShrink ghost (state.view.setTable (.disk env index) 0) [ppn address] after
    final.view
  envs : final.envs = state.envs
  idx : final.idx = state.idx
  kHeapArr : final.kHeapArr = state.kHeapArr
  pageDirectory : final.pageDirectory = state.pageDirectory
  numberOfFrames : final.numberOfFrames = state.numberOfFrames
  directory : ∀ someEnv someIndex, final.diskDirectory someEnv someIndex =
    if someEnv = env ∧ someIndex = index then 0 else state.diskDirectory someEnv someIndex
  words : ∀ slot, (∀ page, slot ≠ .page env page) → final.diskWord slot = state.diskWord slot

theorem TableFreed.directoryAddress {env index address : Nat} {left : List Nat}
    (freed : TableFreed ghost state env index address after left final) (slot : DirectorySlot) :
    final.directoryAddress slot = state.directoryAddress slot := by
  cases slot with
  | pages someEnv => exact congrArg Env.diskEnvPgdir (congrFun freed.envs someEnv)
  | tables someEnv => exact congrArg Env.diskEnvTabledir (congrFun freed.envs someEnv)

/-- A directory is given back. -/
structure DirectoryFreed (ghost : Ghost) (state : State) (slot : DirectorySlot) (after : Ghost)
    (final : State) : Prop where
  present : state.directoryAddress slot ≠ 0
  shrink : HeapShrink ghost state.view [ppn (state.directoryAddress slot)] after final.view
  idx : final.idx = state.idx
  kHeapArr : final.kHeapArr = state.kHeapArr
  pageDirectory : final.pageDirectory = state.pageDirectory
  numberOfFrames : final.numberOfFrames = state.numberOfFrames
  diskDirectory : final.diskDirectory = state.diskDirectory
  directories : ∀ other, final.directoryAddress other =
    if other = slot then 0 else state.directoryAddress other
  words : ∀ cell, final.diskWord cell = state.diskWord cell

namespace Orderly

variable {env index : Nat}

theorem step (orderly : Orderly ghost free state) {left : List Nat}
    (step : FileStep ghost state after final) (file : PageFile left final) :
    Orderly after left final where
  consistent := step.consistent
  file := file
  pages := step.pages orderly.pages
  records := step.records orderly.records
  visible page hidden := orderly.visible page (step.background.evolves.stale page hidden)

theorem word (orderly : Orderly ghost free state) {left : List Nat}
    (step : WordStep state final) (file : PageFile left final) : Orderly ghost left final where
  consistent := step.consistent orderly.consistent
  file := file
  pages := orderly.pages.congr step.view step.directoryAddress
  records := orderly.records.congr step.idx step.kHeapArr
  visible := orderly.visible

theorem dropDiskTable (orderly : Orderly ghost free state)
    (empty : ∀ offset < 1024, state.diskEntry env (index * 1024 + offset) = 0) :
    Orderly ghost free (state.dropDiskTable env index) := by
  have view := state.view_dropDiskTable env index
  have cleared := orderly.consistent.clearTable (.disk env index)
  exact
    { consistent := by
        rw [view]
        exact cleared
      file := orderly.file.dropDiskTable empty
      pages := by
        have evolves : Evolves (fun _ => False) ghost state.view ghost
            (state.dropDiskTable env index).view := by
          rw [view]
          exact .ofSetTable cleared
        refine orderly.pages.evolve orderly.consistent evolves rfl ?_
        intro table nonzero
        left
        rw [view] at nonzero ⊢
        by_cases own : table = .disk env index
        · subst own
          simp [View.setTable] at nonzero
        · simp [View.setTable, own]
      records := orderly.records.congr rfl rfl
      visible := orderly.visible }

/-- A heap page with the frame of a disk page table holds that frame alone. -/
theorem table_page (orderly : Orderly ghost free state) {page : Nat}
    (present : state.diskDirectory env index ≠ 0) (mapped : state.view.entry (.heap page) ≠ 0)
    (frame : frameOf (state.view.entry (.heap page)) = frameOf (state.diskDirectory env index)) :
    ghost.holders (frameOf (state.diskDirectory env index)) = {.heap page} := by
  rcases orderly.consistent.tableHeld (.disk env index) present with ⟨holder, held⟩
  rw [diskDirectory_table] at held
  have member : Slot.heap page ∈ ghost.holders (frameOf (state.diskDirectory env index)) :=
    orderly.consistent.mem_holders.mpr ⟨orderly.visible page, mapped, frame⟩
  rw [held, Finset.mem_singleton] at member
  rw [held, member]

theorem table_pointer {address : Nat} (heap : HeapAddress address) :
    TablePointer.ofAddress address = .kernel address := by
  have lower := heap.lower
  exact if_neg (by grind)

/-- The entries of a disk page table are cleared and the table is dropped. -/
theorem emptyTable (orderly : Orderly ghost free state)
    (present : state.diskDirectory env index ≠ 0) {address : Nat} {emptied : State}
    (heap : HeapAddress address) (mapped : state.view.entry (.heap (ppn address)) ≠ 0)
    (frame : frameOf (state.view.entry (.heap (ppn address))) =
      frameOf (state.diskDirectory env index))
    (looped : Kernel.forEach (freeDiskEntry (.kernel address)) (List.range 1024) state =
      .ok ((), emptied)) :
    ∃ left, TableEmptied ghost state env index address left emptied := by
  have consistent := orderly.consistent
  have found : ∀ offset < 1024,
      DiskTableFound state env (diskPageAddress index offset) (.kernel address) := by
    intro offset bound
    constructor
    · rw [pdx_diskPageAddress bound]
      exact present
    · rw [pdx_diskPageAddress bound]
      exact ⟨address, rfl, heap, (congrArg frameOf heap.slotEntry.symm).trans frame⟩
  rcases freeDiskEntries_ok consistent orderly.file (fun _ => List.mem_range.mp) found looped with
    ⟨left, cleared⟩
  have empty : ∀ offset < 1024, emptied.diskEntry env (index * 1024 + offset) = 0 := by
    intro offset bound
    exact cleared.word (.page env (index * 1024 + offset)) ⟨offset, by simpa using bound, rfl⟩
  have view : (emptied.dropDiskTable env index).view =
      state.view.setTable (.disk env index) 0 := by
    rw [State.view_dropDiskTable, cleared.step.view]
  have entry : (emptied.dropDiskTable env index).view.entry = state.view.entry := by
    rw [view]
    rfl
  refine ⟨left, cleared.step, (orderly.word cleared.step cleared.file).dropDiskTable empty, view,
    ?_, ?_, ?_⟩
  · intro table nonzero same
    rw [entry, frame, view] at same
    rw [view] at nonzero
    by_cases own : table = .disk env index
    · subst own
      simp [View.setTable] at nonzero
    · simp only [View.setTable, Function.update_of_ne own] at nonzero same
      exact own (consistent.tableDistinct table (.disk env index) nonzero present same)
  · rw [entry, frame]
    exact orderly.table_page present mapped frame
  · intro slot other
    have outside : ¬∃ offset ∈ List.range 1024, slot = .page env (index * 1024 + offset) := by
      rintro ⟨offset, -, own⟩
      exact other _ own
    rw [State.dropDiskTable_words empty, cleared.kept slot outside]

/-- The iteration of the loop of `pf_free_env` for a table that exists. -/
theorem freeTable (orderly : Orderly ghost free state)
    (present : state.diskDirectory env index ≠ 0)
    (newest : ∀ address, HeapAddress address →
      ghost.holders (frameOf (state.diskDirectory env index)) = {.heap (ppn address)} →
        NewestSingle state address)
    (returned : freeDiskPageTable env index state = .ok ((), final)) :
    ∃ address after left, TableFreed ghost state env index address after left final := by
  have entryPresent : hasPerm (state.diskDirectory env index) permPresent = true :=
    orderly.consistent.tablePresent (.disk env index) present
  rcases ite_ok.mp (bind_get_ok.mp returned) with ⟨absent, -⟩ | ⟨-, returned⟩
  · exact absurd entryPresent absent
  rcases bind_observe_ok.mp returned with ⟨address, located, returned⟩
  rcases bind_ok.mp returned with ⟨_, emptied, looped, returned⟩
  have freed : kfree address (emptied.dropDiskTable env index) = .ok ((), final) :=
    bind_modify_ok.mp returned
  rcases kheapVirtualAddress_ok orderly.consistent.toHeapLayout located with
    rfl | ⟨heap, -, mapped, frame⟩
  · rw [show List.range 1024 = 0 :: (List.range 1023).map Nat.succ from
      List.range_succ_eq_map] at looped
    rcases bind_ok.mp looped with ⟨_, _, first, -⟩
    rcases bind_observe_ok.mp first with ⟨_, loaded, -⟩
    cases loaded
  have slot : state.view.entry (.heap (ppn address)) = state.bootTables (ppn address) :=
    heap.slotEntry
  rw [← slot] at mapped frame
  rw [table_pointer heap] at looped
  have held := orderly.table_page present mapped frame
  rcases orderly.emptyTable present heap mapped frame looped with ⟨left, dropped⟩
  rcases kfree_page dropped.orderly.consistent dropped.orderly.records
    ((newest address heap held).congr dropped.step.idx dropped.step.kHeapArr)
    (orderly.visible _) dropped.held dropped.apart freed with ⟨after, page⟩
  have addresses : (emptied.dropDiskTable env index).directoryAddress = state.directoryAddress :=
    dropped.step.directoryAddress
  have kept : ∀ directory, final.directoryAddress directory ≠ 0 →
      final.directoryAddress directory =
        (emptied.dropDiskTable env index).directoryAddress directory ∧
      ppn ((emptied.dropDiskTable env index).directoryAddress directory) ≠ ppn address := by
    intro directory there
    have same : final.directoryAddress directory = state.directoryAddress directory := by
      rcases page.only with ⟨_, _, _, _, rfl⟩
      exact congrFun dropped.step.directoryAddress directory
    rw [addresses]
    refine ⟨same, fun equal => ?_⟩
    rw [same] at there
    have different := orderly.pages.apart directory there (.disk env index) present
    rw [equal, frame] at different
    exact different rfl
  refine ⟨address, after, left, heap, mapped, frame, held,
    ⟨page.consistent, page.pageFile dropped.orderly.file,
      page.directories dropped.orderly.pages rfl kept, page.records dropped.orderly.records, ?_⟩,
    ?_, ?_, ?_, ?_, ?_, ?_, ?_, ?_⟩
  · intro somePage
    rw [page.shrink.uncounted]
    exact orderly.visible somePage
  · rw [← dropped.view]
    exact page.shrink
  · rcases page.only with ⟨_, _, _, _, rfl⟩
    exact dropped.step.envs
  · rcases page.only with ⟨_, _, _, _, rfl⟩
    exact dropped.step.idx
  · rcases page.only with ⟨_, _, _, _, rfl⟩
    exact dropped.step.kHeapArr
  · rcases page.only with ⟨_, _, _, _, rfl⟩
    exact dropped.step.pageDirectory
  · rcases page.only with ⟨_, _, _, _, rfl⟩
    exact dropped.step.numberOfFrames
  · intro someEnv someIndex
    have own := emptied.dropDiskTable_directory env index someEnv someIndex
    rw [dropped.step.diskDirectory] at own
    rcases page.only with ⟨_, _, _, _, rfl⟩
    exact own
  · intro slot other
    exact (page.diskWord slot).trans (dropped.words slot other)

/-- A directory without words is given back. -/
theorem freeDirectory {slot : DirectorySlot} (orderly : Orderly ghost free state)
    (present : state.directoryAddress slot ≠ 0)
    (newest : NewestSingle state (state.directoryAddress slot))
    (empty : ∀ index, state.directoryWord slot index = 0)
    (returned : kfree (state.directoryAddress slot) state = .ok ((), middle)) :
    ∃ after, DirectoryFreed ghost state slot after (middle.setDirectoryAddress slot 0) ∧
      Orderly after free (middle.setDirectoryAddress slot 0) := by
  rcases kfree_page orderly.consistent orderly.records newest (orderly.visible _)
    (orderly.pages.held _ present) (orderly.pages.apart _ present) returned with ⟨after, page⟩
  have view := middle.view_setDirectoryAddress slot 0
  have addresses : middle.directoryAddress = state.directoryAddress := by
    rcases page.only with ⟨_, _, _, _, rfl⟩
    rfl
  have later := page.pageFile orderly.file
  have emptyNow : ∀ index, middle.directoryWord slot index = 0 := by
    rcases page.only with ⟨_, _, _, _, rfl⟩
    cases slot with
    | pages env => exact empty
    | tables env => exact empty
  refine ⟨after, ⟨present, ?_, ?_, ?_, ?_, ?_, ?_, ?_, ?_⟩, ⟨?_, ?_, ?_, ?_, ?_⟩⟩
  · rw [view]
    exact page.shrink
  · rcases middle.setDirectoryAddress_only slot 0 with ⟨envs, only⟩
    rw [only]
    rcases page.only with ⟨_, _, _, _, rfl⟩
    rfl
  · rcases middle.setDirectoryAddress_only slot 0 with ⟨envs, only⟩
    rw [only]
    rcases page.only with ⟨_, _, _, _, rfl⟩
    rfl
  · rcases middle.setDirectoryAddress_only slot 0 with ⟨envs, only⟩
    rw [only]
    rcases page.only with ⟨_, _, _, _, rfl⟩
    rfl
  · rcases middle.setDirectoryAddress_only slot 0 with ⟨envs, only⟩
    rw [only]
    rcases page.only with ⟨_, _, _, _, rfl⟩
    rfl
  · rcases middle.setDirectoryAddress_only slot 0 with ⟨envs, only⟩
    rw [only]
    rcases page.only with ⟨_, _, _, _, rfl⟩
    rfl
  · intro other
    rw [State.directoryAddress_set, addresses]
  · intro cell
    rw [State.diskWord_setDirectoryAddress, page.diskWord]
  · rw [view]
    exact page.consistent
  · exact later.clearDirectory emptyNow
  · refine page.directories orderly.pages view ?_
    intro other there
    rw [State.directoryAddress_set] at there ⊢
    by_cases own : other = slot
    · rw [if_pos own] at there
      exact absurd rfl there
    · rw [if_neg own, addresses] at there ⊢
      refine ⟨rfl, fun same => own ?_⟩
      have left := (orderly.pages.heap other there).aligned
      have right := (orderly.pages.heap _ present).aligned
      refine orderly.pages.distinct other slot there ?_
      simp only [ppn] at same
      omega
  · rcases middle.setDirectoryAddress_only slot 0 with ⟨envs, only⟩
    rw [only]
    exact (page.records orderly.records).congr rfl rfl
  · intro somePage
    rw [page.shrink.uncounted]
    exact orderly.visible somePage

end Orderly

end Release

end FosKernel
