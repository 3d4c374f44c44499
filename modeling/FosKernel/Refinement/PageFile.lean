import FosKernel.Refinement.DiskTables
import FosKernel.Refinement.Quiet

/-! # The page file refines its entries

What the functions on the page file do to the entries of the pages, when they return.
Disk page directories and disk page tables come from the kernel heap; getting one
changes no entry.
-/

namespace FosKernel

open Kernel

section Steps

variable {ghost middle after : Ghost} {state between final : State} {free : List Nat}

theorem DiskLayout.congr (layout : DiskLayout state)
    (pages : final.diskDirectory = state.diskDirectory)
    (tables : final.diskTableDirectory = state.diskTableDirectory)
    (noPages : ∀ env, (final.envs env).diskEnvPgdir = 0 → (state.envs env).diskEnvPgdir = 0)
    (noTables : ∀ env, (final.envs env).diskEnvTabledir = 0 →
      (state.envs env).diskEnvTabledir = 0) : DiskLayout final where
  userPages := by
    rw [pages]
    exact layout.userPages
  userTables := by
    rw [tables]
    exact layout.userTables
  noPages env absent := by
    rw [pages]
    exact layout.noPages env (noPages env absent)
  noTables env absent := by
    rw [tables]
    exact layout.noTables env (noTables env absent)

theorem SameFile.diskOwned (same : SameFile state final) (slot : DiskSlot) :
    final.diskOwned slot = state.diskOwned slot := by
  cases slot with
  | page env page => simp only [State.diskOwned, State.diskWord, same.diskEntry]
  | table env index => simp only [State.diskOwned, State.diskWord, same.diskTables]

theorem PageFile.congr (file : PageFile free state) (same : SameFile state final)
    (layout : DiskLayout final) : PageFile free final where
  list := by
    rw [same.diskLinks, same.diskFree]
    exact file.list
  pool := file.pool.congr same.diskOwned
  layout := layout

/-! ## Directories -/

/-- The disk page directory and the disk table directory of an environment. -/
inductive DirectorySlot
  | pages (env : Nat)
  | tables (env : Nat)
  deriving DecidableEq

def State.directoryAddress (state : State) : DirectorySlot → Nat
  | .pages env => (state.envs env).diskEnvPgdir
  | .tables env => (state.envs env).diskEnvTabledir

/-- Every directory has a page of the kernel heap to itself. -/
structure DirectoryPages (ghost : Ghost) (state : State) : Prop where
  heap : ∀ slot, state.directoryAddress slot ≠ 0 → HeapAddress (state.directoryAddress slot)
  mapped : ∀ slot, state.directoryAddress slot ≠ 0 →
    state.view.entry (.heap (ppn (state.directoryAddress slot))) ≠ 0
  held : ∀ slot, state.directoryAddress slot ≠ 0 →
    ghost.holders (frameOf (state.view.entry (.heap (ppn (state.directoryAddress slot))))) =
      {.heap (ppn (state.directoryAddress slot))}
  apart : ∀ slot, state.directoryAddress slot ≠ 0 → ∀ table, state.view.table table ≠ 0 →
    frameOf (state.view.table table) ≠
      frameOf (state.view.entry (.heap (ppn (state.directoryAddress slot))))
  distinct : ∀ left right, state.directoryAddress left ≠ 0 →
    state.directoryAddress left = state.directoryAddress right → left = right

namespace DirectoryPages

theorem unlisted (pages : DirectoryPages ghost state) (consistent : Consistent ghost state.view)
    {slot : DirectorySlot} (present : state.directoryAddress slot ≠ 0) :
    ¬ghost.Listed (frameOf (state.view.entry (.heap (ppn (state.directoryAddress slot))))) := by
  intro listed
  have member : Slot.heap (ppn (state.directoryAddress slot)) ∈ ghost.holders
      (frameOf (state.view.entry (.heap (ppn (state.directoryAddress slot))))) := by
    rw [pages.held slot present]
    exact Finset.mem_singleton_self _
  rcases (consistent.buffered _ listed _ member).1 with ⟨_, _, equal⟩
  contradiction

theorem congr (pages : DirectoryPages ghost state) (view : final.view = state.view)
    (same : final.directoryAddress = state.directoryAddress) : DirectoryPages ghost final := by
  constructor
  · rw [same]
    exact pages.heap
  · rw [same, view]
    exact pages.mapped
  · rw [same, view]
    exact pages.held
  · rw [same, view]
    exact pages.apart
  · rw [same]
    exact pages.distinct

/-- The pages stay where they are when new tables get frames that no page refers to. -/
theorem evolve (pages : DirectoryPages ghost state) (consistent : Consistent ghost state.view)
    (evolves : Evolves (fun _ => False) ghost state.view after final.view)
    (same : final.directoryAddress = state.directoryAddress)
    (tables : ∀ table, final.view.table table ≠ 0 →
      final.view.table table = state.view.table table ∨
        ghost.holders (frameOf (final.view.table table)) = ∅) : DirectoryPages after final := by
  have entry : ∀ slot, state.directoryAddress slot ≠ 0 →
      final.view.entry (.heap (ppn (state.directoryAddress slot))) =
        state.view.entry (.heap (ppn (state.directoryAddress slot))) :=
    fun slot present => evolves.heap _ (pages.mapped slot present)
  constructor
  · rw [same]
    exact pages.heap
  · rw [same]
    intro slot present
    rw [entry slot present]
    exact pages.mapped slot present
  · rw [same]
    intro slot present
    rw [entry slot present,
      (evolves.kept _ (pages.unlisted consistent present) (fun touched => touched)).2.1]
    exact pages.held slot present
  · rw [same]
    intro slot present table nonzero
    rw [entry slot present]
    rcases tables table nonzero with kept | unheld
    · rw [kept] at nonzero ⊢
      exact pages.apart slot present table nonzero
    · intro equal
      rw [equal, pages.held slot present] at unheld
      exact Finset.singleton_ne_empty _ unheld
  · rw [same]
    exact pages.distinct

end DirectoryPages

/-- A step that leaves every entry of the page file as it is. -/
structure FileKept (ghost : Ghost) (free : List Nat) (state : State) (after : Ghost)
    (final : State) : Prop where
  background : Background ghost state after final
  same : SameFile state final
  file : PageFile free final
  pages : DirectoryPages ghost state → DirectoryPages after final
  records : HeapRecords state → HeapRecords final
  single : SingleRecords state → SingleRecords final

namespace FileKept

theorem consistent (kept : FileKept ghost free state after final) :
    Consistent after final.view := kept.background.evolves.consistent

theorem refl (consistent : Consistent ghost state.view) (file : PageFile free state) :
    FileKept ghost free state ghost state where
  background := .refl consistent
  same := .refl state
  file := file
  pages := id
  records := id
  single := id

theorem trans (first : FileKept ghost free state middle between)
    (second : FileKept middle free between after final)
    (consistent : Consistent ghost state.view) : FileKept ghost free state after final where
  background := first.background.trans second.background consistent
  same := first.same.trans second.same
  file := second.file
  pages before := second.pages (first.pages before)
  records before := second.records (first.records before)
  single before := second.single (first.single before)

end FileKept

/-! ## Pages of the kernel heap -/

theorem HeapOnly.diskLayout (only : HeapOnly state final) (layout : DiskLayout state) :
    DiskLayout final := by
  rcases only with ⟨_, _, _, _, _, _, _, rfl⟩
  exact layout.congr rfl rfl (fun _ => id) fun _ => id

theorem HeapOnly.directoryAddress (only : HeapOnly state final) :
    final.directoryAddress = state.directoryAddress := by
  rcases only with ⟨_, _, _, _, _, _, _, rfl⟩
  rfl

theorem NewHeapPage.fileKept {frame address : Nat}
    (new : NewHeapPage ghost state frame address after final)
    (consistent : Consistent ghost state.view) (file : PageFile free state) :
    FileKept ghost free state after final where
  background := new.background
  same := new.only.sameFile
  file := file.congr new.only.sameFile (new.only.diskLayout file.layout)
  pages before := by
    refine before.evolve consistent new.growth.evolves new.only.directoryAddress
      fun table _ => .inl ?_
    rw [new.only.table]
  records := new.records
  single := new.single

/-- A failed `kmalloc` writes one record. -/
theorem kmalloc_null_kept (consistent : Consistent ghost state.view) (file : PageFile free state)
    (returned : kmalloc 4096 state = .ok (0, final)) : FileKept ghost free state ghost final := by
  have request : Request 4096 := ⟨by decide, by decide⟩
  rcases kmalloc_ok consistent request returned with
    ⟨-, -, record, rfl⟩ | ⟨record, after, zero, allocation⟩
  · have same : SameFile state { state with
        kHeapArr := Function.update state.kHeapArr state.idx record } :=
      ⟨fun _ _ => rfl, rfl, rfl, rfl, rfl⟩
    exact
      { background := { Background.refl consistent with settings := ⟨rfl, rfl, rfl⟩ }
        same := same
        file := file.congr same (file.layout.congr rfl rfl (fun _ => id) fun _ => id)
        pages := fun before => { before with }
        records := fun before index bound => by
          have different : index ≠ state.idx := Nat.ne_of_lt bound
          simpa [different] using before index bound
        single := fun before index bound => by
          have different : index ≠ state.idx := Nat.ne_of_lt bound
          simpa [different] using before index bound }
  · rcases allocation.scanned with ⟨start, scanned⟩
    have lower := scanned.first_heapAddress.lower
    rw [← zero] at lower
    exact absurd lower (by decide)

/-! ## New directories -/

def State.setDirectoryAddress (state : State) (slot : DirectorySlot) (address : Nat) : State :=
  match slot with
  | .pages env => state.setEnv env { state.envs env with diskEnvPgdir := address }
  | .tables env => state.setEnv env { state.envs env with diskEnvTabledir := address }

theorem State.directoryAddress_set (state : State) (slot other : DirectorySlot)
    (address : Nat) : (state.setDirectoryAddress slot address).directoryAddress other =
      if other = slot then address else state.directoryAddress other := by
  cases slot with
  | pages env =>
      cases other with
      | pages someEnv =>
          by_cases same : someEnv = env
          · simp [setDirectoryAddress, directoryAddress, setEnv, same]
          · simp [setDirectoryAddress, directoryAddress, setEnv, same]
      | tables someEnv =>
          by_cases same : someEnv = env
          · simp [setDirectoryAddress, directoryAddress, setEnv, same]
          · simp [setDirectoryAddress, directoryAddress, setEnv, same]
  | tables env =>
      cases other with
      | pages someEnv =>
          by_cases same : someEnv = env
          · simp [setDirectoryAddress, directoryAddress, setEnv, same]
          · simp [setDirectoryAddress, directoryAddress, setEnv, same]
      | tables someEnv =>
          by_cases same : someEnv = env
          · simp [setDirectoryAddress, directoryAddress, setEnv, same]
          · simp [setDirectoryAddress, directoryAddress, setEnv, same]

/-- Only the environments change. -/
theorem State.setDirectoryAddress_only (state : State) (slot : DirectorySlot) (address : Nat) :
    ∃ envs, state.setDirectoryAddress slot address = { state with envs } := by
  cases slot with
  | pages env => exact ⟨_, rfl⟩
  | tables env => exact ⟨_, rfl⟩

/-- The addresses of the directories are no part of the memory manager's view. -/
theorem State.view_setDirectoryAddress (state : State) (slot : DirectorySlot) (address : Nat) :
    (state.setDirectoryAddress slot address).view = state.view := by
  cases slot with
  | pages env =>
      apply View.ext <;> try rfl
      funext other
      by_cases same : other = env
      · subst same
        simp [State.view, setDirectoryAddress, State.setEnv, Env.workingSet]
      · simp [State.view, setDirectoryAddress, State.setEnv, same]
  | tables env =>
      apply View.ext <;> try rfl
      funext other
      by_cases same : other = env
      · subst same
        simp [State.view, setDirectoryAddress, State.setEnv, Env.workingSet]
      · simp [State.view, setDirectoryAddress, State.setEnv, same]

theorem DiskLayout.setDirectoryAddress (layout : DiskLayout state) {slot : DirectorySlot}
    (absent : state.directoryAddress slot = 0) (address : Nat) :
    DiskLayout (state.setDirectoryAddress slot address) := by
  have kept : ∀ other, (state.setDirectoryAddress slot address).directoryAddress other = 0 →
      state.directoryAddress other = 0 := by
    intro other none
    rw [State.directoryAddress_set] at none
    split at none
    · next same => exact same ▸ absent
    · exact none
  rcases state.setDirectoryAddress_only slot address with ⟨envs, only⟩
  rw [only] at kept ⊢
  exact layout.congr rfl rfl (fun env => kept (.pages env)) fun env => kept (.tables env)

/-- A new heap page becomes a directory. -/
theorem NewHeapPage.directory {slot : DirectorySlot} {frame address : Nat}
    (new : NewHeapPage ghost state frame address after between)
    (consistent : Consistent ghost state.view) (file : PageFile free state)
    (absent : between.directoryAddress slot = 0) :
    FileKept ghost free state after (between.setDirectoryAddress slot address) := by
  have first := new.fileKept consistent file
  have view := between.view_setDirectoryAddress slot address
  have own : (between.setDirectoryAddress slot address).directoryAddress slot = address := by
    rw [State.directoryAddress_set, if_pos rfl]
  have others : ∀ other, other ≠ slot →
      (between.setDirectoryAddress slot address).directoryAddress other =
        between.directoryAddress other := by
    intro other different
    rw [State.directoryAddress_set, if_neg different]
  have refers : frameOf (between.view.entry (.heap (ppn address))) = frame := by
    rw [new.handed.entry, frameOf_heapEntry (new.bound consistent)]
  have same : SameFile between (between.setDirectoryAddress slot address) := by
    rcases between.setDirectoryAddress_only slot address with ⟨envs, only⟩
    rw [only]
    exact ⟨fun _ _ => rfl, rfl, rfl, rfl, rfl⟩
  have background : Background after between after (between.setDirectoryAddress slot address) :=
    { evolves := by
        rw [view]
        exact .refl first.consistent
      shared := fun _ _ hidden => hidden
      userEntry := fun _ _ => by rw [view]
      workingSet := by rw [view]
      tables := fun _ _ => by rw [view]
      memory := by
        rcases between.setDirectoryAddress_only slot address with ⟨envs, only⟩
        rw [only]
        exact fun _ _ _ _ => rfl
      unmanaged := by
        rcases between.setDirectoryAddress_only slot address with ⟨envs, only⟩
        rw [only]
        exact fun _ _ => rfl
      idle := by
        rcases between.setDirectoryAddress_only slot address with ⟨envs, only⟩
        rw [only]
        exact fun _ free => ⟨free, rfl⟩
      apart := by
        rcases between.setDirectoryAddress_only slot address with ⟨envs, only⟩
        rw [only]
        exact fun _ _ _ => rfl
      modified := by
        rcases between.setDirectoryAddress_only slot address with ⟨envs, only⟩
        rw [only]
      settings := by
        rcases between.setDirectoryAddress_only slot address with ⟨envs, only⟩
        rw [only]
        exact ⟨rfl, rfl, rfl⟩ }
  refine
    { background := first.background.trans background consistent
      same := first.same.trans same
      file := first.file.congr same (first.file.layout.setDirectoryAddress absent address)
      pages := fun before => ?_
      records := fun before => ?_
      single := fun before => ?_ }
  · have grown := first.pages before
    -- the new page was free before, so that no directory is there
    have fresh : ∀ other, between.directoryAddress other ≠ 0 →
        between.directoryAddress other ≠ address := by
      intro other present equal
      rw [new.only.directoryAddress] at present equal
      have mapped := before.mapped other present
      rw [equal] at mapped
      exact mapped (new.growth.wasFree (ppn address) (by simp))
    constructor
    · intro other present
      by_cases here : other = slot
      · rw [here, own]
        exact new.heap
      · rw [others other here] at present ⊢
        exact grown.heap other present
    · intro other present
      rw [view]
      by_cases here : other = slot
      · rw [here, own, new.handed.entry]
        exact ne_zero_of_present (present_heapEntry frame)
      · rw [others other here] at present ⊢
        exact grown.mapped other present
    · intro other present
      rw [view]
      by_cases here : other = slot
      · rw [here, own, refers]
        exact new.handed.held
      · rw [others other here] at present ⊢
        exact grown.held other present
    · intro other present table nonzero
      rw [view] at nonzero ⊢
      by_cases here : other = slot
      · rw [here, own, refers]
        exact new.fresh consistent table nonzero
      · rw [others other here] at present ⊢
        exact grown.apart other present table nonzero
    · intro left right present equal
      by_cases leftHere : left = slot
      · by_cases rightHere : right = slot
        · rw [leftHere, rightHere]
        · rw [leftHere, own] at present equal
          rw [others right rightHere] at equal
          exact absurd equal.symm (fresh right (equal ▸ present))
      · rw [others left leftHere] at present equal
        by_cases rightHere : right = slot
        · rw [rightHere, own] at equal
          exact absurd equal (fresh left present)
        · rw [others right rightHere] at equal
          exact grown.distinct left right present equal
  · rcases between.setDirectoryAddress_only slot address with ⟨envs, only⟩
    rw [only]
    exact (first.records before).congr rfl rfl
  · rcases between.setDirectoryAddress_only slot address with ⟨envs, only⟩
    rw [only]
    exact (first.single before).congr rfl rfl

/-- A new directory is a new page of the kernel heap. -/
theorem newDirectory_cases (consistent : Consistent ghost state.view) {change : Nat → State → State}
    (returned : (do
      let address ← kmalloc 4096
      if address = 0 then throw .badPointer
      let _ ← observe fun state => kernelFrame state address
      modify (change address) : Kernel Unit) state = .ok ((), final)) :
    ∃ address grown frame after, kmalloc 4096 state = .ok (address, grown) ∧ address ≠ 0 ∧
      NewHeapPage ghost state frame address after grown ∧ final = change address grown := by
  rcases bind_ok.mp returned with ⟨address, grown, allocated, returned⟩
  rcases ite_ok.mp returned with ⟨-, stopped⟩ | ⟨nonzero, returned⟩
  · rcases bind_ok.mp stopped with ⟨_, _, thrown, -⟩
    exact (throw_ok.mp thrown).elim
  rcases kmalloc_page consistent allocated nonzero with ⟨frame, after, new⟩
  rcases bind_observe_ok.mp returned with ⟨_, -, returned⟩
  exact ⟨address, grown, frame, after, allocated, nonzero, new, (modify_ok.mp returned).symm⟩

theorem getDiskPageDirectory_cases (consistent : Consistent ghost state.view)
    (layout : DiskLayout state) {env : Nat}
    (returned : getDiskPageDirectory env state = .ok ((), final)) :
    ((state.envs env).diskEnvPgdir ≠ 0 ∧ final = state) ∨
      (state.envs env).diskEnvPgdir = 0 ∧ ∃ address grown,
        kmalloc 4096 state = .ok (address, grown) ∧ address ≠ 0 ∧
          final = grown.setDirectoryAddress (.pages env) address := by
  replace returned := bind_get_ok.mp returned
  rcases ite_ok.mp returned with ⟨present, ended⟩ | ⟨absent, returned⟩
  · rcases pure_ok.mp ended with ⟨-, rfl⟩
    exact .inl ⟨present, rfl⟩
  replace absent := not_not.mp absent
  rcases newDirectory_cases consistent returned with
    ⟨address, grown, frame, after, allocated, nonzero, new, rfl⟩
  have absentNow : (grown.envs env).diskEnvPgdir = 0 := by rw [new.only.envs, absent]
  have cleared : Function.update grown.diskDirectory env (fun _ => 0) = grown.diskDirectory := by
    rw [Function.update_eq_self_iff]
    funext index
    exact ((new.only.diskLayout layout).noPages env absentNow index).symm
  rw [cleared]
  exact .inr ⟨absent, address, grown, allocated, nonzero, rfl⟩

theorem getDiskTableDirectory_cases (consistent : Consistent ghost state.view)
    (layout : DiskLayout state) {env : Nat}
    (returned : getDiskTableDirectory env state = .ok ((), final)) :
    ((state.envs env).diskEnvTabledir ≠ 0 ∧ final = state) ∨
      (state.envs env).diskEnvTabledir = 0 ∧ ∃ address grown,
        kmalloc 4096 state = .ok (address, grown) ∧ address ≠ 0 ∧
          final = grown.setDirectoryAddress (.tables env) address := by
  replace returned := bind_get_ok.mp returned
  rcases ite_ok.mp returned with ⟨present, ended⟩ | ⟨absent, returned⟩
  · rcases pure_ok.mp ended with ⟨-, rfl⟩
    exact .inl ⟨present, rfl⟩
  replace absent := not_not.mp absent
  rcases newDirectory_cases consistent returned with
    ⟨address, grown, frame, after, allocated, nonzero, new, rfl⟩
  have absentNow : (grown.envs env).diskEnvTabledir = 0 := by rw [new.only.envs, absent]
  have cleared : Function.update grown.diskTableDirectory env (fun _ => 0) =
      grown.diskTableDirectory := by
    rw [Function.update_eq_self_iff]
    funext index
    exact ((new.only.diskLayout layout).noTables env absentNow index).symm
  rw [cleared]
  exact .inr ⟨absent, address, grown, allocated, nonzero, rfl⟩

theorem getDiskPageDirectory_ok (consistent : Consistent ghost state.view)
    (file : PageFile free state) {env : Nat}
    (returned : getDiskPageDirectory env state = .ok ((), final)) :
    ∃ after, FileKept ghost free state after final ∧ (final.envs env).diskEnvPgdir ≠ 0 := by
  rcases getDiskPageDirectory_cases consistent file.layout returned with
    ⟨present, rfl⟩ | ⟨absent, address, grown, allocated, nonzero, rfl⟩
  · exact ⟨ghost, .refl consistent file, present⟩
  rcases kmalloc_page consistent allocated nonzero with ⟨frame, after, new⟩
  have absentNow : grown.directoryAddress (.pages env) = 0 := by
    rw [new.only.directoryAddress]
    exact absent
  refine ⟨after, new.directory consistent file absentNow, ?_⟩
  simpa [State.setDirectoryAddress, State.setEnv] using nonzero

/-! ## Disk page tables -/

/-- An empty disk page table in a frame. -/
def State.newDiskTable (state : State) (env index frame : Nat) (word : Word) : State :=
  { state with
    diskDirectory := Function.update state.diskDirectory env
      (Function.update (state.diskDirectory env) index word) }.setPage frame fun _ => 0

theorem State.newDiskTable_directory (state : State) (env index frame : Nat) (word : Word) :
    (state.newDiskTable env index frame word).diskDirectory env index = word := by
  simp [newDiskTable, setPage]

theorem State.newDiskTable_others (state : State) {env index someEnv someIndex : Nat}
    (frame : Nat) (word : Word) (different : ¬(someEnv = env ∧ someIndex = index)) :
    (state.newDiskTable env index frame word).diskDirectory someEnv someIndex =
      state.diskDirectory someEnv someIndex := by
  simp only [newDiskTable, setPage]
  by_cases same : someEnv = env
  · subst same
    have other : someIndex ≠ index := fun equal => different ⟨rfl, equal⟩
    simp [other]
  · simp [same]

theorem State.view_newDiskTable {env index frame : Nat} {word : Word}
    (noTable : NoPageTable state.view frame) :
    (state.newDiskTable env index frame word).view =
      state.view.setTable (.disk env index) word := by
  have same : (state.newDiskTable env index frame word).view.entry = state.view.entry := by
    have kept : (state.setPage frame fun _ => 0).view.entry = state.view.entry := by
      rw [State.view_setPage noTable]
    exact kept
  apply View.ext <;> try rfl
  · exact same
  · funext table
    cases table with
    | page owner someIndex => simp [State.view, State.tableEntry, View.setTable, newDiskTable,
        setPage]
    | disk someEnv someIndex =>
        by_cases here : someEnv = env ∧ someIndex = index
        · rcases here with ⟨rfl, rfl⟩
          simp [State.view, State.tableEntry, View.setTable, newDiskTable, setPage]
        · have other : Table.disk someEnv someIndex ≠ .disk env index := by
            intro equal
            rw [Table.disk.injEq] at equal
            exact here equal
          simp only [View.setTable, Function.update_of_ne other]
          exact newDiskTable_others state frame word here

/-- The pages of an empty disk page table have no disk frames. -/
theorem diskEntry_newDiskTable {env index frame : Nat} {word : Word}
    (absent : state.diskDirectory env index = 0) (refers : frameOf word = frame)
    (noTable : ∀ table, state.view.table table ≠ 0 → frameOf (state.view.table table) ≠ frame)
    (someEnv page : Nat) :
    (state.newDiskTable env index frame word).diskEntry someEnv page =
      state.diskEntry someEnv page := by
  by_cases here : someEnv = env ∧ page / 1024 = index
  · rcases here with ⟨rfl, rfl⟩
    rw [diskEntry_of_zero absent]
    unfold State.diskEntry
    rw [State.newDiskTable_directory]
    split
    · rfl
    · simp [State.newDiskTable, State.setPage, refers]
  · have directory := State.newDiskTable_others state frame word here
    have before := diskEntry_setPage noTable (fun _ => 0) someEnv page
    unfold State.diskEntry at before ⊢
    rw [directory]
    exact before

/-- The disk page table of an address, reached through a pointer. -/
structure DiskTableFound (state : State) (env address : Nat) (pointer : TablePointer) :
    Prop where
  present : state.diskDirectory env (pdx address) ≠ 0
  points : PointsTo state pointer (frameOf (state.diskDirectory env (pdx address)))

theorem present_diskTableWord (frame : Nat) :
    hasPerm (diskTableWord frame) permPresent = true := by
  rw [hasPerm_present, getLsbD_constructEntry _ _ (by decide)]
  decide

/-- A new heap page becomes a disk page table. -/
theorem NewHeapPage.diskTable {env index frame table : Nat}
    (new : NewHeapPage ghost state frame table after between)
    (consistent : Consistent ghost state.view) (file : PageFile free state)
    (user : index < pdx userTop) (directory : (between.envs env).diskEnvPgdir ≠ 0)
    (absent : between.diskDirectory env index = 0) :
    FileKept ghost free state after
      (between.newDiskTable env index frame (diskTableWord frame)) := by
  have first := new.fileKept consistent file
  have refers : frameOf (diskTableWord frame) = frame :=
    frameOf_constructEntry (new.bound consistent) (by decide)
  have fresh := new.fresh consistent
  have view : (between.newDiskTable env index frame (diskTableWord frame)).view =
      between.view.setTable (.disk env index) (diskTableWord frame) :=
    State.view_newDiskTable fun owner index => fresh (.page owner index)
  have entered : Consistent after (between.view.setTable (.disk env index)
      (diskTableWord frame)) := by
    have held : after.holders (frameOf (diskTableWord frame)) = {.heap (ppn table)} := by
      rw [refers]
      exact new.handed.held
    refine new.growth.consistent.setTable absent (present_diskTableWord frame) held ?_
    rw [refers]
    exact fresh
  have same : SameFile between
      (between.newDiskTable env index frame (diskTableWord frame)) :=
    ⟨diskEntry_newDiskTable absent refers fresh, rfl, rfl, rfl, rfl⟩
  have layout : DiskLayout
      (between.newDiskTable env index frame (diskTableWord frame)) :=
    { userPages := by
        intro someEnv someIndex high
        have different : ¬(someEnv = env ∧ someIndex = index) := by
          rintro ⟨-, rfl⟩
          omega
        rw [State.newDiskTable_others _ _ _ different]
        exact first.file.layout.userPages someEnv someIndex high
      userTables := first.file.layout.userTables
      noPages := by
        intro someEnv none someIndex
        have different : ¬(someEnv = env ∧ someIndex = index) := by
          rintro ⟨rfl, -⟩
          exact directory none
        rw [State.newDiskTable_others _ _ _ different]
        exact first.file.layout.noPages someEnv none someIndex
      noTables := first.file.layout.noTables }
  have second : Background after between after
      (between.newDiskTable env index frame (diskTableWord frame)) :=
    { evolves := by
        rw [view]
        exact .ofSetTable entered
      shared := fun _ _ hidden => hidden
      userEntry := fun _ _ => by
        rw [view]
        rfl
      workingSet := rfl
      tables := by
        intro someTable someNonzero
        have different : someTable ≠ .disk env index := by
          rintro rfl
          exact someNonzero absent
        rw [view]
        simp [View.setTable, different]
      memory := by
        intro someFrame someEnv page held
        have different : someFrame ≠ frame := by
          rintro rfl
          rw [new.handed.held, Finset.mem_singleton] at held
          contradiction
        simp [State.newDiskTable, State.setPage, different]
      unmanaged := by
        intro someFrame outside
        have different : someFrame ≠ frame := by
          rintro rfl
          exact outside (new.managed consistent)
        simp [State.newDiskTable, State.setPage, different]
      idle := by
        intro someFrame free
        have different : someFrame ≠ frame := by
          rintro rfl
          exact new.handed.taken free
        simp [State.newDiskTable, State.setPage, different, free]
      apart := by
        intro someFrame _ noHeap
        have different : someFrame ≠ frame := by
          rintro rfl
          exact noHeap _ (by rw [new.handed.held]; exact Finset.mem_singleton_self _)
        simp [State.newDiskTable, State.setPage, different]
      modified := rfl
      settings := ⟨rfl, rfl, rfl⟩ }
  have background := first.background.trans second consistent
  exact
    { background := background
      same := first.same.trans same
      file := first.file.congr same layout
      pages := fun before => by
        refine before.evolve consistent background.evolves new.only.directoryAddress ?_
        intro someTable nonzero
        rw [view] at nonzero ⊢
        by_cases own : someTable = .disk env index
        · right
          simpa [View.setTable, own, refers] using new.handed.unheld
        · left
          simp [View.setTable, own, new.only.table]
      records := fun before => (first.records before).congr rfl rfl
      single := fun before => (first.single before).congr rfl rfl }

/-- A new disk page table is a new page of the kernel heap. -/
theorem createDiskPageTable_cases (consistent : Consistent ghost state.view) {env address : Nat}
    {pointer : TablePointer}
    (returned : createDiskPageTable env address state = .ok (pointer, final)) :
    (pointer = .null ∧ kmalloc 4096 state = .ok (0, final)) ∨
      ∃ table frame after grown, pointer = .kernel table ∧
        kmalloc 4096 state = .ok (table, grown) ∧ table ≠ 0 ∧
        NewHeapPage ghost state frame table after grown ∧
        final = grown.newDiskTable env (pdx address) frame (diskTableWord frame) := by
  rcases bind_ok.mp returned with ⟨table, grown, allocated, returned⟩
  rcases ite_ok.mp returned with ⟨rfl, ended⟩ | ⟨nonzero, returned⟩
  · rcases pure_ok.mp ended with ⟨rfl, rfl⟩
    exact .inl ⟨rfl, allocated⟩
  rcases kmalloc_page consistent allocated nonzero with ⟨frame, after, new⟩
  rcases bind_observe_ok.mp returned with ⟨physical, looked, returned⟩
  rcases new.physical consistent looked with rfl
  replace returned := bind_modify_ok.mp returned
  rcases bind_observe_ok.mp returned with ⟨mapped, found, returned⟩
  rcases new.mapped consistent found with rfl
  replace returned := bind_modify_ok.mp returned
  rcases pure_ok.mp returned with ⟨rfl, rfl⟩
  exact .inr ⟨table, mapped, after, grown, rfl, allocated, nonzero, new, rfl⟩

theorem createDiskPageTable_ok (consistent : Consistent ghost state.view)
    (file : PageFile free state) {env address : Nat} {pointer : TablePointer}
    (user : address < userTop) (directory : (state.envs env).diskEnvPgdir ≠ 0)
    (absent : state.diskDirectory env (pdx address) = 0)
    (returned : createDiskPageTable env address state = .ok (pointer, final)) :
    ∃ after, FileKept ghost free state after final ∧
      (pointer = .null ∨ DiskTableFound final env address pointer) := by
  rcases createDiskPageTable_cases consistent returned with
    ⟨rfl, allocated⟩ | ⟨table, frame, after, grown, rfl, allocated, nonzero, new, rfl⟩
  · exact ⟨ghost, kmalloc_null_kept consistent file allocated, .inl rfl⟩
  have absentNow : grown.diskDirectory env (pdx address) = 0 := by
    rcases new.only with ⟨_, _, _, _, _, _, _, rfl⟩
    exact absent
  have directoryNow : (grown.envs env).diskEnvPgdir ≠ 0 := by rwa [new.only.envs]
  have kept := new.diskTable consistent file (address_user user).2 directoryNow absentNow
  have word := State.newDiskTable_directory grown env (pdx address) frame (diskTableWord frame)
  have nonzeroWord : (grown.newDiskTable env (pdx address) frame
      (diskTableWord frame)).diskDirectory env (pdx address) ≠ 0 := by
    rw [word]
    exact ne_zero_of_present (present_diskTableWord frame)
  have points : PointsTo (grown.newDiskTable env (pdx address) frame (diskTableWord frame))
      (.kernel table) (frameOf ((grown.newDiskTable env (pdx address) frame
        (diskTableWord frame)).diskDirectory env (pdx address))) := by
    rw [word, frameOf_constructEntry (new.bound consistent) (by decide)]
    exact (new.pointsTo consistent).congr rfl
  exact ⟨after, kept, .inr ⟨nonzeroWord, points⟩⟩

theorem diskTablePointer_user (layout : HeapLayout state.view) {env address : Nat}
    {pointer : TablePointer} (user : address < userTop)
    (returned : diskTablePointer state env address = .ok pointer) :
    pointer = .null ∨
      PointsTo state pointer (frameOf (state.diskDirectory env (pdx address))) := by
  unfold diskTablePointer at returned
  rw [if_neg (not_le.mpr user)] at returned
  rcases Except.bind_ok.mp returned with ⟨found, located, ended⟩
  simp only [pure, Except.pure, Except.ok.injEq] at ended
  subst ended
  exact ofAddress_pointsTo layout located

theorem getDiskPageTable_ok (consistent : Consistent ghost state.view)
    (file : PageFile free state) {env address : Nat} {pointer : TablePointer}
    (user : address < userTop) (directory : (state.envs env).diskEnvPgdir ≠ 0)
    (returned : getDiskPageTable env address true state = .ok (pointer, final)) :
    ∃ after, FileKept ghost free state after final ∧
      (pointer = .null ∨ DiskTableFound final env address pointer) := by
  rcases bind_observe_ok.mp returned with ⟨located, looked, returned⟩
  replace returned := bind_get_ok.mp returned
  rcases ite_ok.mp returned with ⟨absent, created⟩ | ⟨present, ended⟩
  · rw [if_pos rfl] at created
    exact createDiskPageTable_ok consistent file user directory absent created
  · rcases pure_ok.mp ended with ⟨rfl, rfl⟩
    refine ⟨ghost, .refl consistent file, ?_⟩
    rcases diskTablePointer_user consistent.toHeapLayout user looked with null | points
    · exact .inl null
    · exact .inr ⟨present, points⟩

/-- Why no disk page table is found. -/
def NoDiskTable (state : State) (env address : Nat) : Prop :=
  state.diskDirectory env (pdx address) = 0 ∨ diskTablePointer state env address = .ok .null

/-- Without creation of a table nothing changes. -/
theorem findDiskPageTable_ok (layout : HeapLayout state.view) {env address : Nat}
    {pointer : TablePointer} (user : address < userTop)
    (returned : getDiskPageTable env address false state = .ok (pointer, final)) :
    final = state ∧ ((pointer = .null ∧ NoDiskTable state env address) ∨
      DiskTableFound state env address pointer) := by
  rcases bind_observe_ok.mp returned with ⟨located, looked, returned⟩
  replace returned := bind_get_ok.mp returned
  rcases ite_ok.mp returned with ⟨absent, ended⟩ | ⟨present, ended⟩
  · rw [if_neg (by decide)] at ended
    rcases pure_ok.mp ended with ⟨rfl, rfl⟩
    exact ⟨rfl, .inl ⟨rfl, .inl absent⟩⟩
  · rcases pure_ok.mp ended with ⟨rfl, rfl⟩
    refine ⟨rfl, ?_⟩
    rcases diskTablePointer_user layout user looked with rfl | points
    · exact .inl ⟨rfl, .inr looked⟩
    · exact .inr ⟨present, points⟩

/-! ## Entries -/

/-- A step of the page file. -/
structure FileStep (ghost : Ghost) (state : State) (after : Ghost) (final : State) : Prop where
  background : Background ghost state after final
  diskTables : final.diskTableDirectory = state.diskTableDirectory
  pages : DirectoryPages ghost state → DirectoryPages after final
  records : HeapRecords state → HeapRecords final
  single : SingleRecords state → SingleRecords final

theorem FileKept.step (kept : FileKept ghost free state after final) :
    FileStep ghost state after final :=
  ⟨kept.background, kept.same.diskTables, kept.pages, kept.records, kept.single⟩

namespace FileStep

theorem consistent (step : FileStep ghost state after final) : Consistent after final.view :=
  step.background.evolves.consistent

theorem refl (consistent : Consistent ghost state.view) : FileStep ghost state ghost state :=
  ⟨.refl consistent, rfl, id, id, id⟩

theorem trans (first : FileStep ghost state middle between)
    (second : FileStep middle between after final) (consistent : Consistent ghost state.view) :
    FileStep ghost state after final where
  background := first.background.trans second.background consistent
  diskTables := second.diskTables.trans first.diskTables
  pages before := second.pages (first.pages before)
  records before := second.records (first.records before)
  single before := second.single (first.single before)

end FileStep

theorem DiskTableFound.load_ok {env address : Nat} {pointer : TablePointer} {word : Word}
    (found : DiskTableFound state env address pointer)
    (returned : load state pointer (ptx address) = .ok word) :
    word = state.diskEntry env (ppn address) := by
  rw [found.points.load_ok returned]
  exact (diskEntry_of_ne found.present).symm

/-- An entry of the page file is written. -/
structure EntryWritten (state : State) (env page : Nat) (word : Word) (final : State) :
    Prop where
  entry : final.diskEntry env page = word
  others : ∀ someEnv somePage, ¬(someEnv = env ∧ somePage = page) →
    final.diskEntry someEnv somePage = state.diskEntry someEnv somePage

theorem DiskTableFound.store_ok {env address : Nat} {pointer : TablePointer} {word : Word}
    (consistent : Consistent ghost state.view)
    (found : DiskTableFound state env address pointer)
    (returned : store pointer (ptx address) word state = .ok ((), final)) :
    FileStep ghost state ghost final ∧ EntryWritten state env (ppn address) word final ∧
      final = state.setMemory (frameOf (state.diskDirectory env (pdx address))) (ptx address)
        word := by
  have final_eq := found.points.store_ok returned
  have bound : ptx address < 1024 := Nat.mod_lt _ (by decide)
  have written := diskEntry_setMemory consistent.toPlacement found.present bound word
  have view := State.view_setMemory_disk consistent.toPlacement found.present (ptx address) word
  rw [pdx_mul_add_ptx] at written
  refine ⟨?_, ⟨?_, ?_⟩, final_eq⟩
  · have untouched : ∀ frame someEnv page, Slot.user someEnv page ∈ ghost.holders frame →
        frame ≠ frameOf (state.diskDirectory env (pdx address)) := by
      rintro frame someEnv page held rfl
      rcases consistent.tableHeld (.disk env (pdx address)) found.present with ⟨heapPage, only⟩
      rw [diskDirectory_table] at only
      rw [only, Finset.mem_singleton] at held
      contradiction
    subst final_eq
    exact
      { background :=
          { evolves := by
              rw [view]
              exact .refl consistent
            shared := fun _ _ hidden => hidden
            userEntry := fun _ _ => by rw [view]
            workingSet := rfl
            tables := fun _ _ => by rw [view]
            memory := fun frame someEnv page held => by
              simp [State.setMemory, untouched frame someEnv page held]
            unmanaged := by
              intro frame outside
              have different : frame ≠ frameOf (state.diskDirectory env (pdx address)) := by
                rintro rfl
                exact outside (consistent.tableManaged (.disk env (pdx address)) found.present)
              simp [State.setMemory, different]
            idle := by
              intro frame free
              have different : frame ≠ frameOf (state.diskDirectory env (pdx address)) := by
                rintro rfl
                exact @Consistent.table_not_listed _ _ consistent (.disk env (pdx address))
                  found.present (.inl free)
              simp [State.setMemory, different, free]
            apart := by
              intro frame _ noHeap
              have different : frame ≠ frameOf (state.diskDirectory env (pdx address)) := by
                rintro rfl
                rcases consistent.tableHeld (.disk env (pdx address)) found.present with
                  ⟨heapPage, only⟩
                rw [diskDirectory_table] at only
                exact noHeap heapPage (by rw [only]; exact Finset.mem_singleton_self _)
              simp [State.setMemory, different]
            modified := rfl
            settings := ⟨rfl, rfl, rfl⟩ }
        diskTables := rfl
        pages := fun before => before.congr view rfl
        records := fun before => before.congr rfl rfl
        single := fun before => before.congr rfl rfl }
  · rw [final_eq, written, if_pos ⟨rfl, rfl⟩]
  · intro someEnv somePage different
    rw [final_eq, written, if_neg different]

/-- Taking a disk frame off the free list concerns nothing else. -/
theorem DiskListOnly.step (consistent : Consistent ghost state.view)
    (only : DiskListOnly state final) : FileStep ghost state ghost final := by
  rcases only with ⟨_, _, rfl⟩
  exact
    { background := { Background.refl consistent with settings := ⟨rfl, rfl, rfl⟩ }
      diskTables := rfl
      pages := fun before => before.congr rfl rfl
      records := fun before => before.congr rfl rfl
      single := fun before => before.congr rfl rfl }

/-! ## Adding a page -/

/-- A page has a disk frame, the one it had or the first free one. -/
structure PageAdded (free : List Nat) (state : State) (env page : Nat) (left : List Nat)
    (final : State) : Prop where
  others : ∀ someEnv somePage, ¬(someEnv = env ∧ somePage = page) →
    final.diskEntry someEnv somePage = state.diskEntry someEnv somePage
  own : (state.diskEntry env page ≠ 0 ∧ left = free ∧
      final.diskEntry env page = state.diskEntry env page) ∨
    (state.diskEntry env page = 0 ∧ ∃ dfn, free = dfn :: left ∧
      final.diskEntry env page = BitVec.ofNat 32 dfn)
  file : PageFile left final

theorem PageAdded.present {env page : Nat} {left : List Nat}
    (added : PageAdded free state env page left final) (file : PageFile free state) :
    final.diskEntry env page ≠ 0 := by
  rcases added.own with ⟨present, -, same⟩ | ⟨-, dfn, equal, taken⟩
  · rwa [same]
  · have bound := file.known (show dfn ∈ free by simp [equal])
    have number := diskNumber_ofNat bound.1 bound.2
    intro zero
    rw [← taken, zero] at number
    cases number

theorem allocatePageFrame_ok (consistent : Consistent ghost state.view)
    (file : PageFile free state) {env address : Nat} {pointer : TablePointer}
    {result : Option Word} (found : DiskTableFound state env address pointer)
    (returned : allocatePageFrame pointer (ptx address) state = .ok (result, final)) :
    FileStep ghost state ghost final ∧ final.sectors = state.sectors ∧
      ((result = none ∧ free = [] ∧ state.diskEntry env (ppn address) = 0 ∧ final = state) ∨
        ∃ left, result = some (final.diskEntry env (ppn address)) ∧
          PageAdded free state env (ppn address) left final) := by
  rcases bind_observe_ok.mp returned with ⟨dfn, loaded, returned⟩
  have entry := found.load_ok loaded
  rcases ite_ok.mp returned with ⟨present, ended⟩ | ⟨absent, returned⟩
  · rcases pure_ok.mp ended with ⟨rfl, rfl⟩
    refine ⟨.refl consistent, rfl, .inr ⟨free, by rw [entry], ?_⟩⟩
    exact ⟨fun _ _ _ => rfl, .inl ⟨entry ▸ present, rfl, rfl⟩, file⟩
  replace absent := entry.symm.trans (not_not.mp absent)
  rcases bind_ok.mp returned with ⟨allocated, between, taken, continued⟩
  rcases allocateDiskFrame_ok file.list file.room taken with
    ⟨rfl, nothing, unchanged⟩ | ⟨number, left, rfl, rfl, list, only⟩
  · rcases pure_ok.mp continued with ⟨rfl, rfl⟩
    rw [unchanged]
    exact ⟨.refl consistent, rfl, .inl ⟨rfl, nothing, absent, rfl⟩⟩
  rcases bind_ok.mp continued with ⟨_, stored, storing, ended⟩
  rcases pure_ok.mp ended with ⟨rfl, rfl⟩
  have first := only.step consistent
  have foundNow : DiskTableFound between env address pointer := by
    rcases only with ⟨_, _, rfl⟩
    exact ⟨found.present, found.points.congr rfl⟩
  rcases foundNow.store_ok first.consistent storing with ⟨second, written, stored_eq⟩
  have number_bound := file.known (List.mem_cons_self ..)
  have sameWords : ∀ someEnv page, between.diskEntry someEnv page =
      state.diskEntry someEnv page := by
    rcases only with ⟨_, _, rfl⟩
    exact fun _ _ => rfl
  have others : ∀ someEnv somePage, ¬(someEnv = env ∧ somePage = ppn address) →
      stored.diskEntry someEnv somePage = state.diskEntry someEnv somePage := by
    intro someEnv somePage different
    rw [written.others someEnv somePage different, sameWords]
  have tables : stored.diskTableDirectory = state.diskTableDirectory :=
    second.diskTables.trans first.diskTables
  have sectors : stored.sectors = state.sectors := by
    rw [stored_eq]
    rcases only with ⟨_, _, rfl⟩
    rfl
  refine ⟨first.trans second consistent, sectors, .inr ⟨left, by rw [written.entry], others,
    .inr ⟨absent, number, rfl, written.entry⟩, ?_⟩⟩
  refine ⟨?_, ?_, ?_⟩
  · rw [stored_eq]
    exact list
  · have empty : state.diskOwned (.page env (ppn address)) = none := diskNumber_eq_none.mpr absent
    refine file.pool.take empty ?_ ?_
    · have own : stored.diskWord (.page env (ppn address)) = BitVec.ofNat 32 number :=
        written.entry
      rw [State.diskOwned, own, diskNumber_ofNat number_bound.1 number_bound.2]
    · intro slot different
      cases slot with
      | page someEnv somePage =>
          have apart : ¬(someEnv = env ∧ somePage = ppn address) := by
            rintro ⟨rfl, rfl⟩
            exact different rfl
          simp only [State.diskOwned, State.diskWord, others someEnv somePage apart]
      | table someEnv index => simp only [State.diskOwned, State.diskWord, tables]
  · have layout : DiskLayout between := by
      rcases only with ⟨_, _, rfl⟩
      exact file.layout.congr rfl rfl (fun _ => id) fun _ => id
    rw [stored_eq]
    exact layout.congr rfl rfl (fun _ => id) fun _ => id

theorem PageAdded.ofSame {env page : Nat} {left : List Nat} (same : SameFile state between)
    (added : PageAdded free between env page left final) :
    PageAdded free state env page left final where
  others someEnv somePage different := by
    rw [added.others someEnv somePage different, same.diskEntry]
  own := by
    rw [← same.diskEntry]
    exact added.own
  file := added.file

/-- A page is in the page file, or there is no disk frame for it. -/
structure AddOutcome (ghost : Ghost) (free : List Nat) (state : State) (env page : Nat)
    (succeeded : Prop) (after : Ghost) (left : List Nat) (final : State) : Prop where
  step : FileStep ghost state after final
  outcome : (succeeded ∧ PageAdded free state env page left final) ∨
    (¬succeeded ∧ free = [] ∧ left = [] ∧ state.diskEntry env page = 0 ∧ SameFile state final ∧
      PageFile [] final)

theorem pfAddFrame_ok (consistent : Consistent ghost state.view) (file : PageFile free state)
    {env address : Nat} {result : Option Word} (user : address < userTop)
    (returned : pfAddFrame env address state = .ok (result, final)) :
    ∃ after left, AddOutcome ghost free state env (ppn address) (result ≠ none) after left final ∧
      final.sectors = state.sectors ∧
      ∀ dfn, result = some dfn → dfn = final.diskEntry env (ppn address) := by
  rcases ite_ok.mp returned with ⟨high, -⟩ | ⟨-, returned⟩
  · exact absurd high (by grind)
  rcases bind_ok.mp returned with ⟨_, entered, opening, returned⟩
  rcases getDiskPageDirectory_ok consistent file opening with ⟨ghostOne, first, directory⟩
  rcases bind_ok.mp returned with ⟨pointer, located, locating, allocating⟩
  rcases getDiskPageTable_ok first.consistent first.file user directory locating with
    ⟨ghostTwo, second, rfl | found⟩
  · rcases bind_observe_ok.mp allocating with ⟨_, loaded, -⟩
    cases loaded
  have prepared := first.trans second consistent
  rcases allocatePageFrame_ok prepared.consistent prepared.file found allocating with
    ⟨last, sectors, ⟨rfl, nothing, absent, unchanged⟩ | ⟨left, rfl, added⟩⟩
  · subst unchanged
    have same := prepared.same
    refine ⟨ghostTwo, [], ⟨prepared.step, .inr ⟨by simp, nothing, rfl, ?_, same, ?_⟩⟩,
      same.sectors, by simp⟩
    · rw [← same.diskEntry, absent]
    · exact nothing ▸ prepared.file
  · exact ⟨ghostTwo, left, ⟨prepared.step.trans last consistent,
      .inl ⟨by simp, added.ofSame prepared.same⟩⟩, sectors.trans prepared.same.sectors,
      by simp⟩

/-- Writing the contents of a disk frame concerns no entry. -/
theorem State.setSectors_step (consistent : Consistent ghost state.view)
    (sectors : Nat → Nat → Word) : FileStep ghost state ghost { state with sectors } where
  background := { Background.refl consistent with settings := ⟨rfl, rfl, rfl⟩ }
  diskTables := rfl
  pages before := before.congr rfl rfl
  records before := before.congr rfl rfl
  single before := before.congr rfl rfl

theorem PageFile.setSectors (file : PageFile free state) (sectors : Nat → Nat → Word) :
    PageFile free { state with sectors } where
  list := file.list
  pool := file.pool
  layout := file.layout.congr rfl rfl (fun _ => id) fun _ => id

theorem pfAddEnvPage_ok (consistent : Consistent ghost state.view) (file : PageFile free state)
    {env address : Nat} {page : Nat → Word} {code : PageFileCode} (user : address < userTop)
    (returned : pfAddEnvPage env address page state = .ok (code, final)) :
    ∃ after left, AddOutcome ghost free state env (ppn address) (code = .success) after left
        final ∧ (code = .success ∨ code = .noSpace) ∧
      final.sectors = if code = .success then ideWrite state.sectors
          (startSector (final.diskEntry env (ppn address))) page
        else state.sectors := by
  rcases bind_ok.mp returned with ⟨result, added, adding, returned⟩
  rcases pfAddFrame_ok consistent file user adding with ⟨after, left, outcome, sectors, frame⟩
  cases result with
  | none =>
      rcases pure_ok.mp returned with ⟨rfl, rfl⟩
      refine ⟨after, left, ⟨outcome.step, ?_⟩, .inr rfl, by simpa using sectors⟩
      rcases outcome.outcome with ⟨succeeded, -⟩ | ⟨-, failed⟩
      · exact absurd rfl succeeded
      · exact .inr ⟨by simp, failed⟩
  | some dfn =>
      replace returned := bind_modify_ok.mp returned
      rcases pure_ok.mp returned with ⟨rfl, rfl⟩
      have written := added.setSectors_step outcome.step.consistent
        (ideWrite added.sectors (startSector dfn) page)
      refine ⟨after, left, ⟨outcome.step.trans written consistent, ?_⟩, .inl rfl, ?_⟩
      · rcases outcome.outcome with ⟨-, placed⟩ | ⟨failed, -⟩
        · exact .inl ⟨rfl, { placed with file := placed.file.setSectors _ }⟩
        · exact absurd (by simp) failed
      · rw [if_pos rfl, frame dfn rfl, ← sectors]
        rfl

theorem pfAddEmptyEnvPage_ok (consistent : Consistent ghost state.view)
    (file : PageFile free state) {env address : Nat} {initializeByZero : Bool}
    {code : PageFileCode} (user : address < userTop)
    (returned : pfAddEmptyEnvPage env address initializeByZero state = .ok (code, final)) :
    ∃ after left, AddOutcome ghost free state env (ppn address) (code = .success) after left
      final := by
  rcases ite_ok.mp returned with ⟨-, cleared⟩ | ⟨-, returned⟩
  · replace cleared := bind_get_ok.mp cleared
    rcases pfAddEnvPage_ok consistent file user cleared with ⟨after, left, outcome, -⟩
    exact ⟨after, left, outcome⟩
  · rcases bind_ok.mp returned with ⟨result, added, adding, returned⟩
    rcases pfAddFrame_ok consistent file user adding with ⟨after, left, outcome, -⟩
    refine ⟨after, left, ?_⟩
    cases result with
    | none =>
        rcases pure_ok.mp returned with ⟨rfl, rfl⟩
        simpa using outcome
    | some dfn =>
        rcases pure_ok.mp returned with ⟨rfl, rfl⟩
        simpa using outcome

/-! ## Removing a page -/

theorem DiskTableFound.ne_null {env address : Nat} {pointer : TablePointer}
    (found : DiskTableFound state env address pointer) : pointer ≠ .null := found.points.ne_null

/-- The entry of the page is cleared and its disk frame is freed, unless there is no disk
page table or the reverse lookup misses it. -/
theorem pfRemoveEnvPage_cases (layout : HeapLayout state.view) {env address : Nat}
    (user : address < userTop)
    (returned : pfRemoveEnvPage env address state = .ok ((), final)) :
    (final = state ∧ ((state.envs env).diskEnvPgdir = 0 ∨ NoDiskTable state env address)) ∨
      state.diskDirectory env (pdx address) ≠ 0 ∧
        freeDiskFrame (state.diskEntry env (ppn address)).toNat
          (state.setMemory (frameOf (state.diskDirectory env (pdx address))) (ptx address) 0) =
            .ok ((), final) := by
  rcases ite_ok.mp (bind_get_ok.mp returned) with ⟨absent, ended⟩ | ⟨-, opened⟩
  · exact .inl ⟨(pure_ok.mp ended).2.symm, .inl absent⟩
  rcases bind_ok.mp opened with ⟨pointer, same, located, removed⟩
  rcases findDiskPageTable_ok layout user located with ⟨rfl, ⟨rfl, missing⟩ | found⟩
  · exact .inl ⟨(pure_ok.mp removed).2.symm, .inr missing⟩
  rcases ite_ok.mp removed with ⟨null, -⟩ | ⟨-, read⟩
  · exact absurd null found.ne_null
  rcases bind_observe_ok.mp read with ⟨dfn, loaded, written⟩
  rcases bind_ok.mp written with ⟨_, stored, storing, freed⟩
  rw [found.points.store_ok storing, found.load_ok loaded] at freed
  exact .inr ⟨found.present, freed⟩

end Steps

end FosKernel
