import FosKernel.Foundation.Journal
import FosKernel.Refinement.HeapRoom
import FosKernel.Refinement.NewEnvironment
import FosKernel.Refinement.PageCalls
import FosKernel.Refinement.PageFileProgress
import FosKernel.Properties.ModifiedClock
import FosKernel.Properties.ReferenceCounts
import FosKernel.Properties.TemporaryMapping

/-! # The page file is a map from pages to contents

A page that is read has the contents that were stored last, and a page that was removed or
never added is not there. The contents go through disk page tables, which come from the
kernel heap, and through disk frames, which are used again.
-/

namespace FosKernel.PageContents

open Kernel

/-! ## The map -/

abbrev Page := Fin 1024 → Word

/-- The contents on the disk, by environment and page. -/
def stored (state : State) : Nat × Nat → Option Page := fun (env, page) =>
  if state.diskEntry env page = 0 then none
  else some fun index => state.diskPage (state.diskEntry env page) index

section Map

variable {state final : State} {free left : List Nat} {env page : Nat}

theorem stored_eq_none : stored state (env, page) = none ↔ state.diskEntry env page = 0 := by
  rw [stored]
  split <;> simp_all

theorem stored_congr (same : SameFile state final) : stored final = stored state := by
  funext ⟨env, page⟩
  simp only [stored, State.diskPage, same.diskEntry, same.sectors]

theorem startSector_toNat {dfn : Word} (bound : dfn.toNat < pagesPerFile) :
    startSector dfn = 0xA000 + dfn.toNat * 8 := by
  simp only [pagesPerFile] at bound
  rw [startSector]
  bv_omega

/-- The sectors of two disk frames are different. -/
theorem ideRead_ideWrite_apart (sectors : Nat → Nat → Word) {dfn other : Word}
    (contents : Nat → Word) {index : Nat} (inside : index < 1024)
    (bound : dfn.toNat < pagesPerFile) (otherBound : other.toNat < pagesPerFile)
    (different : other ≠ dfn) :
    ideRead (ideWrite sectors (startSector dfn) contents) (startSector other) index =
      ideRead sectors (startSector other) index := by
  have numbers : other.toNat ≠ dfn.toNat := fun equal => different (BitVec.eq_of_toNat_eq equal)
  have apart : ¬(startSector dfn ≤ startSector other + index / 128 ∧
      startSector other + index / 128 < startSector dfn + 8) := by
    rw [startSector_toNat bound, startSector_toNat otherBound]
    omega
  simp only [ideRead, ideWrite, apart, if_false]

theorem diskEntry_bound (file : PageFile free state) (nonzero : state.diskEntry env page ≠ 0) :
    (state.diskEntry env page).toNat < pagesPerFile := by
  have owned : state.diskOwned (.page env page) = some (state.diskEntry env page).toNat :=
    diskNumber_of_ne nonzero
  exact (Finset.mem_Ico.mp (file.pool.taken _ _ owned).1).2

theorem diskEntry_distinct (file : PageFile free state) {someEnv somePage : Nat}
    (nonzero : state.diskEntry env page ≠ 0)
    (same : state.diskEntry someEnv somePage = state.diskEntry env page) :
    someEnv = env ∧ somePage = page := by
  have owned : state.diskOwned (.page env page) = some (state.diskEntry env page).toNat :=
    diskNumber_of_ne nonzero
  have again : state.diskOwned (.page someEnv somePage) =
      some (state.diskEntry env page).toNat := by
    rw [← same]
    exact diskNumber_of_ne fun zero => nonzero (same.symm.trans zero)
  cases file.pool.unique _ _ _ again owned
  exact ⟨rfl, rfl⟩

/-- Contents are written to the disk frame of a page. -/
theorem stored_written (file : PageFile left final) {contents : Nat → Word}
    (others : ∀ someEnv somePage, ¬(someEnv = env ∧ somePage = page) →
      final.diskEntry someEnv somePage = state.diskEntry someEnv somePage)
    (present : final.diskEntry env page ≠ 0)
    (sectors : final.sectors =
      ideWrite state.sectors (startSector (final.diskEntry env page)) contents) :
    stored final = Function.update (stored state) (env, page)
      (some fun index => contents index) := by
  funext ⟨someEnv, somePage⟩
  by_cases same : someEnv = env ∧ somePage = page
  · rcases same with ⟨rfl, rfl⟩
    rw [Function.update_self, stored, if_neg present]
    congr 1
    funext index
    rw [State.diskPage, sectors, ZeroPages.ideRead_ideWrite _ _ _ index.isLt]
  · rw [Function.update_of_ne fun equal => same (Prod.mk.injEq .. ▸ equal)]
    by_cases zero : final.diskEntry someEnv somePage = 0
    · rw [stored_eq_none.mpr zero, stored_eq_none.mpr (others someEnv somePage same ▸ zero)]
    · have different : final.diskEntry someEnv somePage ≠ final.diskEntry env page :=
        fun equal => same (diskEntry_distinct file present equal)
      rw [stored, stored, if_neg zero, if_neg (others someEnv somePage same ▸ zero),
        ← others someEnv somePage same]
      congr 1
      funext index
      rw [State.diskPage, sectors, ideRead_ideWrite_apart _ _ index.isLt
        (diskEntry_bound file present) (diskEntry_bound file zero) different]
      rfl

/-- The entry of a page is cleared. -/
theorem stored_cleared (cleared : final.diskEntry env page = 0)
    (others : ∀ someEnv somePage, ¬(someEnv = env ∧ somePage = page) →
      final.diskEntry someEnv somePage = state.diskEntry someEnv somePage)
    (sectors : final.sectors = state.sectors) :
    stored final = Function.update (stored state) (env, page) none := by
  funext ⟨someEnv, somePage⟩
  by_cases same : someEnv = env ∧ somePage = page
  · rcases same with ⟨rfl, rfl⟩
    rw [Function.update_self, stored_eq_none.mpr cleared]
  · rw [Function.update_of_ne fun equal => same (Prod.mk.injEq .. ▸ equal), stored, stored,
      others someEnv somePage same]
    simp only [State.diskPage, sectors]

end Map

/-! ## The kernel's side -/

/-- The page directories are the same, and so is the entry at `USER_LIMIT`. -/
structure KernelSide (state final : State) : Prop where
  numberOfFrames : final.numberOfFrames = state.numberOfFrames
  pageDirectory : final.pageDirectory = state.pageDirectory
  limit : final.bootTables (ppn userLimit) = state.bootTables (ppn userLimit)
  curenv : final.curenv = state.curenv

namespace KernelSide

variable {ghost : Ghost} {state middle final : State} {free : List Nat} {env address : Nat}

theorem refl (state : State) : KernelSide state state := ⟨rfl, rfl, rfl, rfl⟩

theorem trans (first : KernelSide state middle) (second : KernelSide middle final) :
    KernelSide state final where
  numberOfFrames := second.numberOfFrames.trans first.numberOfFrames
  pageDirectory := second.pageDirectory.trans first.pageDirectory
  limit := second.limit.trans first.limit
  curenv := second.curenv.trans first.curenv

theorem upper (side : KernelSide state final) : KernelPart state final :=
  ⟨side.numberOfFrames, fun _ _ _ => by rw [side.pageDirectory]⟩

theorem ofWord (step : WordStep state final) : KernelSide state final where
  numberOfFrames := step.numberOfFrames
  pageDirectory := step.pageDirectory
  limit := by rw [step.bootTables]
  curenv := by
    rcases step.only with ⟨_, _, _, _, _, rfl⟩
    rfl

theorem kmalloc (consistent : Consistent ghost state.view)
    (allocated : kmalloc 4096 state = .ok (address, final)) (nonzero : address ≠ 0) :
    KernelSide state final := by
  rcases kmalloc_page consistent allocated nonzero with ⟨frame, after, new⟩
  have outside : ppn userLimit ≠ ppn address := by
    have lower := new.heap.lower
    intro same
    simp only [ppn, userLimit, kernelHeapStart] at same lower
    omega
  have limit := kmalloc_others consistent allocated nonzero outside
  rcases new.only with ⟨_, _, _, _, _, _, _, rfl⟩
  exact ⟨rfl, rfl, limit, rfl⟩

theorem getDiskPageDirectory (consistent : Consistent ghost state.view)
    (file : PageFile free state) (returned : getDiskPageDirectory env state = .ok ((), final)) :
    KernelSide state final := by
  rcases getDiskPageDirectory_cases consistent file.layout returned with
    ⟨-, rfl⟩ | ⟨-, table, grown, allocated, nonzero, rfl⟩
  · exact .refl _
  · exact (kmalloc consistent allocated nonzero).trans ⟨rfl, rfl, rfl, rfl⟩

theorem getDiskPageTable (consistent : Consistent ghost state.view) {create : Bool}
    {pointer : TablePointer}
    (returned : getDiskPageTable env address create state = .ok (pointer, final)) :
    pointer = .null ∨ KernelSide state final := by
  rcases bind_observe_ok.mp returned with ⟨located, looked, continued⟩
  replace continued := bind_get_ok.mp continued
  rcases ite_ok.mp continued with ⟨-, absent⟩ | ⟨-, ended⟩
  · rcases ite_ok.mp absent with ⟨-, created⟩ | ⟨-, ended⟩
    · rcases createDiskPageTable_cases consistent created with
        ⟨null, -⟩ | ⟨table, frame, after, grown, rfl, allocated, nonzero, -, rfl⟩
      · exact .inl null
      · exact .inr ((kmalloc consistent allocated nonzero).trans ⟨rfl, rfl, rfl, rfl⟩)
    · rcases pure_ok.mp ended with ⟨rfl, -⟩
      exact .inl rfl
  · rcases pure_ok.mp ended with ⟨-, rfl⟩
    exact .inr (.refl _)

theorem pfAddFrame (consistent : Consistent ghost state.view) (file : PageFile free state)
    {result : Option Word} (user : address < userTop)
    (returned : pfAddFrame env address state = .ok (result, final)) : KernelSide state final := by
  rcases ite_ok.mp returned with ⟨high, -⟩ | ⟨-, opened⟩
  · exact absurd high (by grind)
  rcases bind_ok.mp opened with ⟨_, entered, opening, continued⟩
  rcases getDiskPageDirectory_ok consistent file opening with ⟨middle, first, directory⟩
  rcases bind_ok.mp continued with ⟨pointer, between, locating, allocating⟩
  rcases getDiskPageTable_ok first.consistent first.file user directory locating with
    ⟨after, second, rfl | found⟩
  · rcases bind_observe_ok.mp allocating with ⟨_, loaded, -⟩
    cases loaded
  have located := (getDiskPageTable first.consistent locating).resolve_left found.ne_null
  have written := PageTrace.allocatePageFrame_word second.consistent second.file found allocating
  exact (getDiskPageDirectory consistent file opening).trans (located.trans (.ofWord written))

theorem pfAddEnvPage (consistent : Consistent ghost state.view) (file : PageFile free state)
    {page : Nat → Word} {code : PageFileCode} (user : address < userTop)
    (returned : pfAddEnvPage env address page state = .ok (code, final)) :
    KernelSide state final := by
  rcases bind_ok.mp returned with ⟨result, added, adding, continued⟩
  have first := pfAddFrame consistent file user adding
  cases result with
  | none =>
      rcases pure_ok.mp continued with ⟨-, rfl⟩
      exact first
  | some dfn =>
      replace continued := bind_modify_ok.mp continued
      rcases pure_ok.mp continued with ⟨-, rfl⟩
      exact first.trans ⟨rfl, rfl, rfl, rfl⟩

end KernelSide

/-! ## Reading into a page -/

section Read

variable {ghost : Ghost} {state final : State} {env address page frame : Nat} {dfn : Word}

/-- The page can be written; the processor checks this for the kernel, too. -/
structure Writeable (state : State) (env address : Nat) : Prop where
  table : hasPerm (directoryEntry state env address) permPresent = true
  present : hasPerm (state.view.entry (.user env (ppn address))) permPresent = true
  writeable : hasPerm (state.view.entry (.user env (ppn address))) permWriteable = true

/-- The pages of the read-only windows cannot be written. -/
def WindowsReadOnly (ghost : Ghost) (state : State) : Prop :=
  ∀ env page, Slot.user env page ∈ ghost.uncounted →
    hasPerm (state.view.entry (.user env page)) permWriteable = false

theorem Writeable.visible (there : Writeable state env address)
    (readOnly : WindowsReadOnly ghost state) : Slot.user env (ppn address) ∉ ghost.uncounted := by
  intro hidden
  have readable := readOnly _ _ hidden
  rw [there.writeable] at readable
  cases readable

/-- The frame of a page that can be written is no table. -/
theorem Writeable.apart (there : Writeable state env address)
    (consistent : Consistent ghost state.view) (readOnly : WindowsReadOnly ghost state)
    {table : Table} (nonzero : state.view.table table ≠ 0) :
    frameOf (state.view.table table) ≠
      frameOf (state.view.entry (.user env (ppn address))) := by
  intro same
  rcases consistent.tableHeld table nonzero with ⟨heapPage, held⟩
  have visible := there.visible readOnly
  have mapped := ne_zero_of_present there.present
  have member : Slot.user env (ppn address) ∈ ghost.holders (frameOf (state.view.table table)) :=
    consistent.mem_holders.mpr ⟨visible, mapped, same.symm⟩
  rw [held, Finset.mem_singleton] at member
  cases member

/-- The entry of a page after it has been written by the kernel. -/
def writtenEntry (entry : Word) : Word := entry ||| permUsed ||| permModified

/-- The entry of a page after it has been read from the disk. -/
def readEntry (entry : Word) : Word := changePerm (writtenEntry entry) 0 permModified

theorem readEntry_frame (entry : Word) : frameOf (readEntry entry) = frameOf entry := by
  rw [readEntry, frameOf_changePerm _ (by decide) (by decide)]
  refine frameOf_congr fun bit high => ?_
  have used : Low permUsed := by decide
  have modified : Low permModified := by decide
  rw [writtenEntry, BitVec.getLsbD_or, BitVec.getLsbD_or, used.getLsbD high,
    modified.getLsbD high]
  simp

theorem readEntry_present {entry : Word} (present : hasPerm entry permPresent = true) :
    hasPerm (readEntry entry) permPresent = true := by
  rw [hasPerm_present] at present ⊢
  rw [readEntry, getLsbD_changePerm _ _ _ (by decide), writtenEntry, BitVec.getLsbD_or,
    BitVec.getLsbD_or, present]
  decide

theorem readEntry_writeable {entry : Word} (writeable : hasPerm entry permWriteable = true) :
    hasPerm (readEntry entry) permWriteable = true := by
  rw [hasPerm_writeable] at writeable ⊢
  rw [readEntry, getLsbD_changePerm _ _ _ (by decide), writtenEntry, BitVec.getLsbD_or,
    BitVec.getLsbD_or, writeable]
  decide

/-- The state after the entry of a user page and then the page itself have been written. -/
def fill (state : State) (env address : Nat) (entry dfn : Word) : State :=
  let frame := frameOf (state.view.entry (.user env (ppn address)))
  let marked := state.setMemory (frameOf (directoryEntry state env address)) (ptx address) entry
  marked.setPage frame fun index =>
    if index < 1024 then state.diskPage dfn index else marked.memory frame index

theorem readDiskPage_run (user : address < userTop) (there : Writeable state state.curenv address) :
    readDiskPage dfn address state = .ok ((), fill state state.curenv address
      (writtenEntry (state.view.entry (.user state.curenv (ppn address)))) dfn) := by
  have entry := entry_user user there.table
  have walked : walk state state.curenv address =
      .ok (frameOf (directoryEntry state state.curenv address),
        state.view.entry (.user state.curenv (ppn address))) := by
    have found := there.present
    rw [entry] at found ⊢
    exact if_pos ⟨there.table, found⟩
  exact bind_get_ok.mpr (bind_observe_ok.mpr ⟨_, walked, rfl⟩)

section Fill

variable {entry : Word}

theorem fill_view (consistent : Consistent ghost state.view)
    (readOnly : WindowsReadOnly ghost state) (user : address < userTop)
    (there : Writeable state env address) :
    (fill state env address entry dfn).view =
      state.view.setEntry (.user env (ppn address)) entry := by
  have marked := State.view_storeEntry consistent.toPlacement user there.table entry
  have noTable : NoPageTable (state.setMemory (frameOf (directoryEntry state env address))
      (ptx address) entry).view (frameOf (state.view.entry (.user env (ppn address)))) := by
    rw [marked]
    exact fun owner index nonzero => there.apart consistent readOnly nonzero
  exact (State.view_setPage noTable _).trans marked

theorem fill_sameFile (consistent : Consistent ghost state.view)
    (readOnly : WindowsReadOnly ghost state) (user : address < userTop)
    (there : Writeable state env address) : SameFile state (fill state env address entry dfn) := by
  refine ⟨fun someEnv page => ?_, rfl, rfl, rfl, rfl⟩
  have marked := State.view_storeEntry consistent.toPlacement user there.table entry
  have noTable : ∀ table, (state.setMemory (frameOf (directoryEntry state env address))
      (ptx address) entry).view.table table ≠ 0 →
        frameOf ((state.setMemory (frameOf (directoryEntry state env address))
          (ptx address) entry).view.table table) ≠
            frameOf (state.view.entry (.user env (ppn address))) := by
    rw [marked]
    exact fun table nonzero => there.apart consistent readOnly nonzero
  exact (diskEntry_setPage noTable _ someEnv page).trans
    (diskEntry_setMemory_table consistent.toPlacement (address_user user).2 there.table _ _ _ _)

/-- The contents of the disk frame are in the page. -/
theorem fill_contents {index : Nat} (bound : index < 1024) :
    (fill state env address entry dfn).memory
        (frameOf (state.view.entry (.user env (ppn address)))) index =
      state.diskPage dfn index := by
  simp [fill, State.setPage, bound]

@[simp] theorem fill_pageDirectory :
    (fill state env address entry dfn).pageDirectory = state.pageDirectory := rfl

theorem fill_memory (apart : frameOf (directoryEntry state env address) ≠
      frameOf (state.view.entry (.user env (ppn address)))) :
    (fill state env address entry dfn).memory (frameOf (directoryEntry state env address))
      (ptx address) = entry := by
  simp [fill, State.setPage, State.setMemory, apart]

/-- The entry is written once more. -/
theorem fill_again (apart : frameOf (directoryEntry state env address) ≠
      frameOf (state.view.entry (.user env (ppn address)))) (last : Word) :
    (fill state env address entry dfn).setMemory (frameOf (directoryEntry state env address))
      (ptx address) last = fill state env address last dfn := by
  have memory : ((fill state env address entry dfn).setMemory
      (frameOf (directoryEntry state env address)) (ptx address) last).memory =
        (fill state env address last dfn).memory := by
    simp only [fill, State.setMemory, State.setPage]
    rw [Function.update_of_ne apart, Function.update_self, Function.update_idem,
      Function.update_comm apart.symm, Function.update_idem, Function.update_of_ne apart.symm,
      Function.update_of_ne apart.symm, Function.update_comm apart]
  exact congrArg (fun memory => { state with memory }) memory

end Fill

/-- The page table of a user page is found. -/
theorem tableFound_of_present (consistent : Consistent ghost state.view)
    (found : TablesFound state) (user : address < userTop)
    (present : hasPerm (directoryEntry state env address) permPresent = true) :
    TableFound state env address := by
  have table : state.view.table (.page env (pdx address)) = directoryEntry state env address :=
    tableEntry_page (address_user user).2
  have nonzero : state.view.table (.page env (pdx address)) ≠ 0 := by
    rw [table]
    exact ne_zero_of_present present
  rcases found (.page env (pdx address)) nonzero with ⟨pointer, positive, located⟩
  rcases table_translated consistent nonzero located positive with ⟨heap, reached⟩
  rw [table] at located reached
  refine ⟨present, pointer, ?_, reached⟩
  rw [tablePointer, if_neg (not_le.mpr user)]
  exact Except.bind_ok.mpr ⟨pointer, located, congrArg Except.ok (Orderly.table_pointer heap)⟩

/-- The end of `pf_read_env_page`. -/
def readFrame (dfn : Word) (address : Nat) : Kernel PageFileCode := do
  readDiskPage dfn address
  ptSetPagePermissions (← get).curenv address 0 permModified
  return .success

/-- The page holds the contents of the disk frame and counts as unmodified. -/
theorem readFrame_run (consistent : Consistent ghost state.view) (found : TablesFound state)
    (readOnly : WindowsReadOnly ghost state) (user : address < userTop)
    (there : Writeable state state.curenv address) :
    readFrame dfn address state = .ok (.success, fill state state.curenv address
      (readEntry (state.view.entry (.user state.curenv (ppn address)))) dfn) := by
  have table : state.view.table (.page state.curenv (pdx address)) =
      directoryEntry state state.curenv address := tableEntry_page (address_user user).2
  have nonzero : state.view.table (.page state.curenv (pdx address)) ≠ 0 := by
    rw [table]
    exact ne_zero_of_present there.table
  have apart := there.apart consistent readOnly nonzero
  rw [table] at apart
  have filled := (tableFound_of_present consistent found user there.table).congr
    (⟨rfl, rfl, rfl, rfl⟩ : SameTables state (fill state state.curenv address
      (writtenEntry (state.view.entry (.user state.curenv (ppn address)))) dfn))
    consistent.toHeapLayout.bounded
  have marked := filled.ptSetPagePermissions 0 permModified
  rw [pageEntry, State.setPageEntry, fill_pageDirectory] at marked
  rw [directoryEntry] at apart
  rw [fill_memory apart, fill_again apart] at marked
  rw [readFrame, Kernel.bind_run (readDiskPage_run user there), Kernel.bind_get_run]
  exact Kernel.bind_run marked

end Read

/-! ## Between the calls -/

/-- What holds of memory between two calls. -/
structure Ready (ghost : Ghost) (free : List Nat) (state : State) : Prop where
  consistent : Consistent ghost state.view
  file : PageFile free state
  serviceable : Serviceable state
  managed : ∀ frame ∈ ghost.managed, frame < state.numberOfFrames
  physical : state.numberOfFrames ≤ 2 ^ 20
  limit : state.bootTables (ppn userLimit) = 0
  readOnly : WindowsReadOnly ghost state

section Calls

variable {ghost after : Ghost} {free left : List Nat} {state final : State}
variable {env address frame : Nat} {code : PageFileCode}

/-- New heap pages have frames of the memory manager. -/
theorem serviceable_evolves (ready : Ready ghost free state)
    (evolves : Evolves (fun _ => False) ghost state.view after final.view)
    (kept : KernelPart state final) : Serviceable final := by
  refine ⟨fun index lower upper => ?_, fun page mapped => ?_⟩
  · have above : pdx userTop ≤ index := le_trans (by decide) lower
    rw [kept.directory .kernel index above, kept.numberOfFrames]
    exact ready.serviceable.tables index lower upper
  rw [kept.numberOfFrames]
  by_cases hidden : Slot.heap page ∈ after.uncounted
  · have present := ready.consistent.window _ (evolves.stale page hidden)
    rw [evolves.heap page (ne_zero_of_present present)]
    exact ready.serviceable.frames page (ne_zero_of_present present)
  · have held := evolves.consistent.mem_holders.mpr ⟨hidden, mapped, rfl⟩
    have managed := evolves.consistent.heldManaged _ ⟨_, held⟩
    rw [evolves.managed] at managed
    exact ready.managed _ managed

theorem Ready.step (ready : Ready ghost free state)
    (background : Background ghost state after final) (kept : KernelPart state final)
    (limit : final.bootTables (ppn userLimit) = state.bootTables (ppn userLimit))
    (file : PageFile left final) : Ready after left final where
  consistent := background.evolves.consistent
  file := file
  serviceable := serviceable_evolves ready background.evolves kept
  managed := by
    rw [background.evolves.managed, kept.numberOfFrames]
    exact ready.managed
  physical := by
    rw [kept.numberOfFrames]
    exact ready.physical
  limit := limit.trans ready.limit
  readOnly owner page hidden := by
    rw [background.userEntry]
    exact ready.readOnly owner page (background.shared owner page hidden)

/-! ## Lookup of a page -/

theorem ppn_roundDown : ppn (roundDown address) = ppn address := by
  simp only [roundDown, ppn]
  omega

/-- The lookup returns even where there is no disk page table. -/
theorem diskTablePointer_absent (ready : Ready ghost free state) (user : address < userTop)
    (absent : state.diskDirectory env (pdx address) = 0) :
    ∃ pointer, diskTablePointer state env address = .ok pointer := by
  have kernelless : ¬checkIfKernelAddress address := not_le.mpr user
  have someTable := ready.serviceable.tables (pdx kernelHeapStart) le_rfl (by decide)
  have bound : frameOf (state.diskDirectory env (pdx address)) < state.numberOfFrames := by
    have zero : frameOf (0 : Word) = 0 := by decide
    rw [absent, zero]
    omega
  rw [diskTablePointer, if_neg kernelless,
    kheapVirtualAddress_returns ready.consistent.toHeapLayout ready.serviceable bound]
  exact ⟨_, rfl⟩

/-- Without a disk page table the page is not in the page file. -/
theorem findTable_absent (ready : Ready ghost free state) (user : address < userTop)
    (absent : state.diskDirectory env (pdx address) = 0) :
    getDiskPageTable env address false state = .ok (.null, state) := by
  rcases diskTablePointer_absent ready user absent with ⟨pointer, looked⟩
  refine bind_observe_ok.mpr ⟨pointer, looked, bind_get_ok.mpr ?_⟩
  rw [if_pos absent]
  rfl

theorem findTable_present (consistent : Consistent ghost state.view) (found : TablesFound state)
    (user : address < userTop) (present : state.diskDirectory env (pdx address) ≠ 0) :
    ∃ table, getDiskPageTable env address false state = .ok (.kernel table, state) ∧
      kernelFrame state table = .ok (frameOf (state.diskDirectory env (pdx address))) := by
  have listed : state.view.table (.disk env (pdx address)) ≠ 0 := present
  rcases found _ listed with ⟨table, nonzero, located⟩
  rcases table_translated consistent listed located nonzero with ⟨heap, reached⟩
  rw [diskDirectory_table] at located reached
  have looked : diskTablePointer state env address = .ok (.kernel table) := by
    rw [diskTablePointer, if_neg (not_le.mpr user), located, ← Orderly.table_pointer heap]
    rfl
  refine ⟨table, bind_observe_ok.mpr ⟨_, looked, bind_get_ok.mpr ?_⟩, reached⟩
  rw [if_neg present]
  rfl

theorem load_entry {table : Nat} (present : state.diskDirectory env (pdx address) ≠ 0)
    (reached : kernelFrame state table = .ok (frameOf (state.diskDirectory env (pdx address)))) :
    load state (.kernel table) (ptx address) = .ok (state.diskEntry env (ppn address)) := by
  refine Except.bind_ok.mpr ⟨_, reached, ?_⟩
  rw [diskEntry_of_ne present]
  rfl

end Calls

/-! ## A frame for the page -/

section Frame

variable {ghost : Ghost} {free : List Nat} {state final : State} {env address frame : Nat}
variable {perm : Word}

/-- The invariant says nothing of a working set that is not in use. -/
theorem Ready.deactivate (ready : Ready ghost free state) (env : Nat) :
    Ready { ghost with active := ghost.active.erase env } free state :=
  { ready with consistent := ready.consistent.deactivate env }

theorem Ready.setEnv (ready : Ready ghost free state) (inactive : env ∉ ghost.active)
    {value : Env} (pages : value.diskEnvPgdir = (state.envs env).diskEnvPgdir)
    (tables : value.diskEnvTabledir = (state.envs env).diskEnvTabledir) :
    Ready ghost free (state.setEnv env value) where
  consistent := by
    have view : (state.setEnv env value).view =
        state.view.setWorkingSet env value.workingSet := by
      apply View.ext <;> try rfl
      funext other
      by_cases same : other = env
      · rw [same]
        simp [State.view, State.setEnv, View.setWorkingSet]
      · simp [State.view, State.setEnv, View.setWorkingSet, same]
    rw [view]
    exact ready.consistent.setInactive inactive
  file := by
    refine ready.file.congr ⟨fun _ _ => rfl, rfl, rfl, rfl, rfl⟩
      (ready.file.layout.congr rfl rfl (fun other none => ?_) fun other none => ?_)
    · by_cases same : other = env
      · subst same
        simpa [State.setEnv, pages] using none
      · simpa [State.setEnv, same] using none
    · by_cases same : other = env
      · subst same
        simpa [State.setEnv, tables] using none
      · simpa [State.setEnv, same] using none
  serviceable := ⟨ready.serviceable.tables, ready.serviceable.frames⟩
  managed := ready.managed
  physical := ready.physical
  limit := ready.limit
  readOnly := ready.readOnly

theorem Ready.allocate (ready : Ready ghost free state)
    (returned : allocateFrame state = .ok (frame, final)) :
    Ready { ghost with free := ghost.free.erase frame } free final ∧
      Fresh { ghost with free := ghost.free.erase frame } final.view frame ∧
      final = state.allocate frame := by
  rcases allocateFrame_consistent ready.consistent returned with ⟨-, rfl, consistent, fresh⟩
  refine ⟨?_, fresh, rfl⟩
  exact
    { consistent := consistent
      file := ready.file.congr ⟨fun _ _ => rfl, rfl, rfl, rfl, rfl⟩
        (ready.file.layout.congr rfl rfl (fun _ => id) fun _ => id)
      serviceable := ⟨ready.serviceable.tables, ready.serviceable.frames⟩
      managed := ready.managed
      physical := ready.physical
      limit := ready.limit
      readOnly := ready.readOnly }

/-- A page that has a page table and no frame gets one. -/
theorem Ready.mapUser (ready : Ready ghost free state) (inactive : env ∉ ghost.active)
    (fresh : Fresh ghost state.view frame) (user : address < userTop)
    (table : hasPerm (directoryEntry state env address) permPresent = true)
    (empty : state.view.entry (.user env (ppn address)) = 0) (low : Low perm) :
    Ready (ghost.attach frame (.user env (ppn address))) free
      (state.mapUser env frame address perm) := by
  have consistent := ready.consistent
  have view := @State.view_mapUser ghost state env frame address perm consistent.toPlacement
    user table
  have counting : Placement ghost (state.addReferences frame 1).view :=
    State.addReferences_placement consistent.toPlacement
  have words := diskEntry_setMemory_table counting (address_user user).2 table (ptx address)
    (mapWord frame perm)
  have other : ∀ slot, slot ≠ .user env (ppn address) →
      (state.mapUser env frame address perm).view.entry slot = state.view.entry slot := by
    intro slot different
    rw [view, View.attach_entry different]
  have attached := consistent.attach fresh.managed fresh.unlisted empty
    (ne_zero_of_present (present_mapWord frame perm))
    (frameOf_mapWord (consistent.bounded frame fresh.managed) low) (present_mapWord frame perm)
    (by rw [fresh.unheld]; decide)
    (fun someTable nonzero => consistent.table_frame_ne fresh.unheld nonzero)
    (fun someEnv active page resident =>
      consistent.resident_frame_ne fresh.unheld active resident)
    (fun someEnv page same active => by
      cases same
      exact absurd active inactive)
  exact
    { consistent := by
        rw [view]
        exact attached
      file := ready.file.congr ⟨words, rfl, rfl, rfl, rfl⟩
        (ready.file.layout.congr rfl rfl (fun _ => id) fun _ => id)
      serviceable := by
        refine ⟨ready.serviceable.tables, fun page nonzero => ?_⟩
        rw [other (.heap page) nofun] at nonzero ⊢
        exact ready.serviceable.frames page nonzero
      managed := ready.managed
      physical := ready.physical
      limit := ready.limit
      readOnly := by
        intro owner page hidden
        have different : Slot.user owner page ≠ .user env (ppn address) := by
          intro same
          rw [same] at hidden
          exact consistent.visible_of_empty empty hidden
        rw [other _ different]
        exact ready.readOnly owner page hidden }

end Frame

/-! ## The calls -/

section Effects

variable {ghost after : Ghost} {free left : List Nat} {state final : State}
variable {env address frame : Nat} {code : PageFileCode}

/-- A call left the page file with other contents, and memory ready for the next one. -/
structure Leaves (state : State) (store : Nat × Nat → Option Page) (final : State) : Prop where
  stored : PageContents.stored final = store
  ready : ∃ ghost free, Ready ghost free final
  writeable : ∀ page, Writeable state state.curenv page → Writeable final final.curenv page

theorem Ready.leaves (ready : Ready ghost free state)
    (background : Background ghost state after final) (side : KernelSide state final)
    (file : PageFile left final) {store : Nat × Nat → Option Page}
    (contents : stored final = store) : Leaves state store final where
  stored := contents
  ready := ⟨after, left, ready.step background side.upper side.limit file⟩
  writeable page there := by
    rw [side.curenv]
    constructor
    · rw [directoryEntry, side.pageDirectory]
      exact there.table
    · rw [background.userEntry]
      exact there.present
    · rw [background.userEntry]
      exact there.writeable

theorem Ready.unchanged (ready : Ready ghost free state) : Leaves state (stored state) state :=
  ⟨rfl, ⟨ghost, free, ready⟩, fun _ there => there⟩

theorem addPage_leaves (ready : Ready ghost free state) {page : Nat → Word}
    (user : address < userTop)
    (returned : pfAddEnvPage env address page state = .ok (code, final)) :
    Leaves state (if code = .success then
      Function.update (stored state) (env, ppn address) (some fun index => page index)
        else stored state) final := by
  have side := KernelSide.pfAddEnvPage ready.consistent ready.file user returned
  rcases pfAddEnvPage_ok ready.consistent ready.file user returned with
    ⟨after, left, outcome, -, sectors⟩
  rcases outcome.outcome with ⟨succeeded, added⟩ | ⟨failed, -, rfl, -, same, file⟩
  · rw [if_pos succeeded] at sectors ⊢
    have present := added.present ready.file
    exact ready.leaves outcome.step.background side added.file
      (stored_written added.file added.others present sectors)
  · rw [if_neg failed]
    exact ready.leaves outcome.step.background side file (stored_congr same)

theorem removePage_leaves (ready : Ready ghost free state) (found : TablesFound state)
    (user : address < userTop)
    (returned : pfRemoveEnvPage env address state = .ok ((), final)) :
    Leaves state (Function.update (stored state) (env, ppn address) none) final := by
  have sectors : final.sectors = state.sectors := by
    rcases pfRemoveEnvPage_cases ready.consistent.toHeapLayout user returned with
      ⟨rfl, -⟩ | ⟨-, freed⟩
    · rfl
    · rcases freeDiskFrame_ok freed with ⟨-, rfl⟩ | ⟨-, rfl⟩
      · rfl
      · rfl
  have absent : state.diskEntry env (ppn address) = 0 → final = state →
      Leaves state (Function.update (stored state) (env, ppn address) none) final := by
    rintro none rfl
    rw [← stored_cleared none (fun _ _ _ => rfl) rfl]
    exact ready.unchanged
  rcases ite_ok.mp (bind_get_ok.mp returned) with ⟨missing, ended⟩ | ⟨-, opened⟩
  · rcases pure_ok.mp ended with ⟨-, rfl⟩
    exact absent (diskEntry_of_zero (ready.file.layout.noPages env missing _)) rfl
  by_cases missing : state.diskDirectory env (pdx address) = 0
  · rw [Kernel.bind_run (findTable_absent ready user missing)] at opened
    rcases pure_ok.mp (opened : (pure () : Kernel Unit) state = _) with ⟨-, rfl⟩
    exact absent (diskEntry_of_zero missing) rfl
  · rcases findTable_present ready.consistent found user missing with ⟨table, located, reached⟩
    rw [Kernel.bind_run located] at opened
    rcases findDiskPageTable_ok ready.consistent.toHeapLayout user located with
      ⟨-, ⟨null, -⟩ | points⟩
    · cases null
    rcases freeDiskEntry_word ready.consistent ready.file points opened with ⟨_, cleared⟩
    rcases pfRemoveEnvPage_ok ready.consistent ready.file user returned with ⟨left, step, file⟩
    refine ready.leaves step.background (.ofWord cleared.step) file
      (stored_cleared (cleared.word _ rfl) (fun someEnv somePage other => ?_) sectors)
    refine cleared.kept (.page someEnv somePage) fun same => other ?_
    cases same
    exact ⟨rfl, rfl⟩

/-- A frame that a heap page gets has one reference. -/
theorem few_references {page : Nat} (consistent : Consistent ghost state.view)
    (growth : HeapGrowth ghost state.view [page] after final.view)
    (few : (state.framesInfo frame).references < 65535) :
    (final.framesInfo frame).references < 65535 := by
  by_cases kept : frame ∉ ghost.free ∨ frame ∈ after.free
  · have info : final.framesInfo frame = state.framesInfo frame := (growth.kept frame kept).1
    rw [info]
    exact few
  · rw [not_or, not_not] at kept
    rcases growth.taken frame kept.1 kept.2 with ⟨heapPage, -, handed⟩
    have unlisted : ¬after.Listed frame := by
      intro listed
      have member : Slot.heap heapPage ∈ after.holders frame := by
        rw [handed.held]
        exact Finset.mem_singleton_self _
      rcases (growth.consistent.buffered frame listed _ member).1 with ⟨_, _, equal⟩
      cases equal
    have managed : frame ∈ after.managed := by
      rw [growth.managed]
      exact consistent.listedManaged frame (.inl kept.1)
    have references : (final.framesInfo frame).references = (after.holders frame).card :=
      growth.consistent.counted frame managed unlisted
    rw [references, handed.held, Finset.card_singleton]
    decide

/-- Getting the directory takes nothing from the page that is written. -/
theorem directory_frame (ready : Ready ghost free state)
    (few : (state.framesInfo frame).references < 65535)
    (returned : getDiskPageDirectory env state = .ok ((), final)) :
    final.memory = state.memory ∧ (final.framesInfo frame).references < 65535 := by
  rcases getDiskPageDirectory_cases ready.consistent ready.file.layout returned with
    ⟨-, rfl⟩ | ⟨-, table, grown, allocated, nonzero, rfl⟩
  · exact ⟨rfl, few⟩
  · rcases kmalloc_page ready.consistent allocated nonzero with ⟨_, _, new⟩
    have counted : (grown.framesInfo frame).references < 65535 :=
      few_references ready.consistent new.growth few
    exact ⟨new.only.memory, counted⟩

theorem updatePage_leaves (ready : Ready ghost free state) (user : address < userTop)
    (limit : AllocatePage.LimitTable state env) (inside : frame < state.numberOfFrames)
    (few : (state.framesInfo frame).references < 65535)
    (returned : pfUpdateEnvPage env address frame state = .ok (code, final)) :
    (code = .success → stored state (env, ppn address) ≠ none) ∧
      Leaves state (if code = .success then
        Function.update (stored state) (env, ppn address)
          (some fun index => state.memory frame index)
        else stored state) final := by
  rcases ite_ok.mp returned with ⟨high, -⟩ | ⟨-, opened⟩
  · exact absurd high (by grind)
  rcases bind_ok.mp opened with ⟨_, middle, opening, continued⟩
  rcases getDiskPageDirectory_ok ready.consistent ready.file opening with ⟨after, kept, -⟩
  rcases directory_frame ready few opening with ⟨memory, fewer⟩
  have side := KernelSide.getDiskPageDirectory ready.consistent ready.file opening
  have leaves := ready.leaves kept.background side kept.file (stored_congr kept.same)
  have between := ready.step kept.background side.upper side.limit kept.file
  have nothing : code = .pageNotExist → final = middle →
      (code = .success → stored state (env, ppn address) ≠ none) ∧
        Leaves state (if code = .success then
          Function.update (stored state) (env, ppn address)
            (some fun index => state.memory frame index)
          else stored state) final := by
    rintro rfl rfl
    refine ⟨nofun, ?_⟩
    rw [if_neg (by decide)]
    exact leaves
  rcases bind_ok.mp continued with ⟨pointer, same, located, looked⟩
  rcases findDiskPageTable_ok kept.consistent.toHeapLayout user located with
    ⟨rfl, ⟨rfl, -⟩ | found⟩
  · rcases pure_ok.mp looked with ⟨rfl, rfl⟩
    exact nothing rfl rfl
  rcases ite_ok.mp looked with ⟨null, -⟩ | ⟨-, loading⟩
  · exact absurd null found.ne_null
  rcases bind_observe_ok.mp loading with ⟨dfn, loaded, writing⟩
  have entry := found.load_ok loaded
  rcases ite_ok.mp writing with ⟨-, ended⟩ | ⟨nonzero, written⟩
  · rcases pure_ok.mp ended with ⟨rfl, rfl⟩
    exact nothing rfl rfl
  have limitNow : AllocatePage.LimitTable same env := limit.congr side.upper
  have insideNow : frame < same.numberOfFrames := by rwa [side.numberOfFrames]
  have run := @TemporaryMapping.writeAtLimit_run same env frame dfn limitNow between.limit
    insideNow between.physical fewer
  have ran : TemporaryMapping.writeAtLimit env frame dfn same = .ok (code, final) := written
  rw [run] at ran
  cases ran
  rw [entry] at nonzero
  have onDisk : Leaves same (stored (TemporaryMapping.onDisk same frame dfn))
      (TemporaryMapping.onDisk same frame dfn) :=
    between.leaves (State.setSectors_step between.consistent
      (ideWrite same.sectors (startSector dfn) (same.memory frame))).background
      ⟨rfl, rfl, rfl, rfl⟩ (between.file.setSectors _) rfl
  refine ⟨fun _ => ?_, ?_, onDisk.ready,
    fun page there => onDisk.writeable page (leaves.writeable page there)⟩
  · rw [← stored_congr kept.same]
    exact fun none => nonzero (stored_eq_none.mp none)
  · rw [if_pos rfl, ← stored_congr kept.same, ← memory]
    refine stored_written (between.file.setSectors _) (fun _ _ _ => rfl) nonzero ?_
    rw [entry]
    rfl

theorem readPage_absent (ready : Ready ghost free state) (found : TablesFound state)
    (user : address < userTop) (absent : stored state (env, ppn address) = none) :
    pfReadEnvPage env address state = .ok (.pageNotExist, state) := by
  rw [stored_eq_none] at absent
  have down : roundDown address < userTop := Nat.lt_of_le_of_lt (Nat.sub_le _ _) user
  refine bind_get_ok.mpr (ite_ok.mpr ?_)
  by_cases directory : (state.envs env).diskEnvPgdir = 0
  · exact .inl ⟨directory, rfl⟩
  refine .inr ⟨directory, ?_⟩
  by_cases missing : state.diskDirectory env (pdx (roundDown address)) = 0
  · rw [Kernel.bind_run (findTable_absent ready down missing)]
    rfl
  · rcases findTable_present ready.consistent found down missing with ⟨table, located, reached⟩
    have loaded := load_entry missing reached
    rw [ppn_roundDown, absent] at loaded
    rw [Kernel.bind_run located, if_neg nofun, Kernel.observe_run loaded]
    rfl

theorem readPage_present (ready : Ready ghost free state) (found : TablesFound state)
    (user : address < userTop) (present : state.diskEntry env (ppn address) ≠ 0) :
    pfReadEnvPage env address state =
      readFrame (state.diskEntry env (ppn address)) (roundDown address) state := by
  have down : roundDown address < userTop := Nat.lt_of_le_of_lt (Nat.sub_le _ _) user
  have table : state.diskDirectory env (pdx (roundDown address)) ≠ 0 := by
    intro missing
    rw [← ppn_roundDown] at present
    exact present (diskEntry_of_zero missing)
  have directory : (state.envs env).diskEnvPgdir ≠ 0 := fun missing =>
    table (ready.file.layout.noPages env missing _)
  rcases findTable_present ready.consistent found down table with ⟨pointer, located, reached⟩
  have loaded := load_entry table reached
  rw [ppn_roundDown] at loaded
  rw [pfReadEnvPage, Kernel.bind_get_run, if_neg directory, Kernel.bind_run located,
    if_neg nofun, Kernel.observe_run loaded, if_neg present]
  rfl

/-- The frame of a page of the running environment. -/
def pageFrame (state : State) (address : Nat) : Nat :=
  frameOf (state.view.entry (.user state.curenv (ppn address)))

theorem Ready.fill (ready : Ready ghost free state) (user : address < userTop) {dfn : Word}
    (there : Writeable state state.curenv address) :
    Ready ghost free (fill state state.curenv address
      (readEntry (state.view.entry (.user state.curenv (ppn address)))) dfn) := by
  have view := @fill_view ghost state state.curenv address dfn
    (readEntry (state.view.entry (.user state.curenv (ppn address)))) ready.consistent
    ready.readOnly user there
  have same := @fill_sameFile ghost state state.curenv address dfn
    (readEntry (state.view.entry (.user state.curenv (ppn address)))) ready.consistent
    ready.readOnly user there
  exact
    { consistent := by
        rw [view]
        exact ready.consistent.reflag there.present (readEntry_present there.present)
          (readEntry_frame _)
      file := ready.file.congr same (ready.file.layout.congr rfl rfl (fun _ => id) fun _ => id)
      serviceable := ⟨ready.serviceable.tables, ready.serviceable.frames⟩
      managed := ready.managed
      physical := ready.physical
      limit := ready.limit
      readOnly := by
        rw [WindowsReadOnly, view]
        intro owner page hidden
        have other : Slot.user owner page ≠ .user state.curenv (ppn address) := by
          intro same
          rw [same] at hidden
          exact there.visible ready.readOnly hidden
        have kept : (state.view.setEntry (.user state.curenv (ppn address))
            (readEntry (state.view.entry (.user state.curenv (ppn address))))).entry
              (.user owner page) = state.view.entry (.user owner page) :=
          Function.update_of_ne other _ _
        rw [kept]
        exact ready.readOnly owner page hidden }

/-- Reading into a page leaves every page writeable that was. -/
theorem Ready.fill_writeable (ready : Ready ghost free state) (user : address < userTop)
    {dfn : Word} (there : Writeable state state.curenv address) {other : Nat}
    (before : Writeable state state.curenv other) :
    Writeable (PageContents.fill state state.curenv address
      (readEntry (state.view.entry (.user state.curenv (ppn address)))) dfn)
        state.curenv other := by
  have view := @fill_view ghost state state.curenv address dfn
    (readEntry (state.view.entry (.user state.curenv (ppn address)))) ready.consistent
    ready.readOnly user there
  by_cases same : ppn other = ppn address
  · have entry : (PageContents.fill state state.curenv address
        (readEntry (state.view.entry (.user state.curenv (ppn address)))) dfn).view.entry
          (.user state.curenv (ppn other)) =
            readEntry (state.view.entry (.user state.curenv (ppn address))) := by
      rw [view, same]
      exact Function.update_self _ _ _
    refine ⟨before.table, ?_, ?_⟩
    · rw [entry]
      exact readEntry_present there.present
    · rw [entry]
      exact readEntry_writeable there.writeable
  · have entry : (PageContents.fill state state.curenv address
        (readEntry (state.view.entry (.user state.curenv (ppn address)))) dfn).view.entry
          (.user state.curenv (ppn other)) = state.view.entry (.user state.curenv (ppn other)) := by
      rw [view]
      exact Function.update_of_ne (fun equal => same (Slot.user.inj equal).2) _ _
    refine ⟨before.table, ?_, ?_⟩
    · rw [entry]
      exact before.present
    · rw [entry]
      exact before.writeable

theorem pageFrame_roundDown : pageFrame state (roundDown address) = pageFrame state address := by
  rw [pageFrame, pageFrame, ppn_roundDown]

theorem pageFrame_fill (ready : Ready ghost free state) (user : address < userTop) {dfn : Word}
    (there : Writeable state state.curenv address) :
    pageFrame (fill state state.curenv address
      (readEntry (state.view.entry (.user state.curenv (ppn address)))) dfn) address =
        pageFrame state address := by
  have entry : (state.view.setEntry (.user state.curenv (ppn address))
      (readEntry (state.view.entry (.user state.curenv (ppn address))))).entry
        (.user state.curenv (ppn address)) =
          readEntry (state.view.entry (.user state.curenv (ppn address))) :=
    Function.update_self _ _ _
  rw [pageFrame, fill_view ready.consistent ready.readOnly user there]
  exact (congrArg frameOf entry).trans (readEntry_frame _)

/-- The page is read into memory, and its entry refers to the frame as before. -/
theorem readPage_run (ready : Ready ghost free state) (found : TablesFound state)
    (user : address < userTop) (there : Writeable state state.curenv address)
    (present : state.diskEntry env (ppn address) ≠ 0) :
    ∃ final, pfReadEnvPage env address state = .ok (.success, final) ∧
      Leaves state (stored state) final ∧ pageFrame final address = pageFrame state address ∧
      ∀ index < 1024, final.memory (pageFrame state address) index =
        state.diskPage (state.diskEntry env (ppn address)) index := by
  have down : roundDown address < userTop := Nat.lt_of_le_of_lt (Nat.sub_le _ _) user
  have thereDown : Writeable state state.curenv (roundDown address) := by
    rcases there with ⟨table, entry, writeable⟩
    constructor
    · rwa [directoryEntry, pdx, ppn_roundDown]
    · rwa [ppn_roundDown]
    · rwa [ppn_roundDown]
  have run := @readFrame_run ghost state (roundDown address)
    (state.diskEntry env (ppn address)) ready.consistent found ready.readOnly down thereDown
  refine ⟨_, (readPage_present ready found user present).trans run, ⟨stored_congr ?_,
    ⟨ghost, free, ready.fill down thereDown⟩,
    fun page => ready.fill_writeable down thereDown⟩, ?_, fun index bound => ?_⟩
  · exact fill_sameFile ready.consistent ready.readOnly down thereDown
  · rw [← pageFrame_roundDown, pageFrame_fill ready down thereDown, pageFrame_roundDown]
  · rw [← pageFrame_roundDown]
    exact fill_contents bound

theorem readPage_leaves (ready : Ready ghost free state) (found : TablesFound state)
    (user : address < userTop) (there : Writeable state state.curenv address)
    (returned : pfReadEnvPage env address state = .ok (code, final)) :
    Leaves state (stored state) final := by
  by_cases absent : stored state (env, ppn address) = none
  · rw [readPage_absent ready found user absent] at returned
    cases returned
    exact ready.unchanged
  · rw [stored_eq_none] at absent
    rcases readPage_run ready found user there absent with ⟨_, run, leaves, -⟩
    rw [run] at returned
    cases returned
    exact leaves

end Effects

/-! ## Runs -/

inductive Call
  | add (env address : Nat) (page : Nat → Word)
  | update (env address frame : Nat)
  | remove (env address : Nat)
  | read (env address : Nat)

namespace Call

def run : Call → Kernel PageFileCode
  | .add env address page => pfAddEnvPage env address page
  | .update env address frame => pfUpdateEnvPage env address frame
  | .remove env address => do
      pfRemoveEnvPage env address
      return .success
  | .read env address => pfReadEnvPage env address

/-- The environment and the page. -/
def key : Call → Nat × Nat
  | .add env address _ => (env, ppn address)
  | .update env address _ => (env, ppn address)
  | .remove env address => (env, ppn address)
  | .read env address => (env, ppn address)

/-- What the callers see to: a user address, a frame that can be counted once more and an
environment with the boot table of `USER_LIMIT`, a page to read into. -/
def Proper (state : State) : Call → Prop
  | .add _ address _ => address < userTop
  | .update env address frame =>
      address < userTop ∧ AllocatePage.LimitTable state env ∧ frame < state.numberOfFrames ∧
        (state.framesInfo frame).references < 65535
  | .remove _ address => address < userTop
  | .read _ address => address < userTop ∧ Writeable state state.curenv address

/-- What a call that returned a code did to the map. -/
def events (state : State) (code : PageFileCode) : Call → List (Journal.Event (Nat × Nat) Page)
  | .add env address page =>
      if code = .success then [.added (env, ppn address) fun index => page index] else []
  | .update env address frame =>
      if code = .success then
        [.updated (env, ppn address) fun index => state.memory frame index]
      else []
  | .remove env address => [.removed (env, ppn address)]
  | .read _ _ => []

end Call

/-- Between the calls the kernel may do what leaves the page file as it is. The translation
of frames to pages of the kernel heap is exact before every call. -/
inductive Run (start : State) : List (Journal.Event (Nat × Nat) Page) → State → Prop
  | start : Run start [] start
  | call {journal state call code final} :
      Run start journal state → TablesFound state → Call.Proper state call →
      call.run state = .ok (code, final) →
      Run start (call.events state code ++ journal) final
  | other {journal state final ghost free} :
      Run start journal state → SameFile state final → Ready ghost free final →
      Run start journal final

section Runs

variable {ghost : Ghost} {free : List Nat} {start state final : State} {call : Call}
variable {journal : List (Journal.Event (Nat × Nat) Page)} {env address : Nat}
variable {code : PageFileCode}

theorem Call.events_key :
    ∀ event ∈ call.events state code, event.key = call.key := by
  intro event member
  cases call with
  | add env address page =>
      simp only [events] at member
      split at member
      · rw [List.mem_singleton.mp member]
        rfl
      · cases member
  | update env address frame =>
      simp only [events] at member
      split at member
      · rw [List.mem_singleton.mp member]
        rfl
      · cases member
  | remove env address =>
      rw [List.mem_singleton.mp member]
      rfl
  | read env address => cases member

theorem Call.leaves (ready : Ready ghost free state) (found : TablesFound state)
    (proper : call.Proper state) (returned : call.run state = .ok (code, final)) :
    Leaves state (Journal.last (stored state) (call.events state code)) final ∧
      Journal.Sound (stored state) (call.events state code) := by
  cases call with
  | add env address page =>
      have leaves := addPage_leaves ready proper returned
      by_cases succeeded : code = .success
      · rw [if_pos succeeded] at leaves
        rw [events, if_pos succeeded]
        exact ⟨leaves, trivial⟩
      · rw [if_neg succeeded] at leaves
        rw [events, if_neg succeeded]
        exact ⟨leaves, trivial⟩
  | update env address frame =>
      rcases proper with ⟨user, limit, inside, few⟩
      rcases updatePage_leaves ready user limit inside few returned with ⟨present, leaves⟩
      by_cases succeeded : code = .success
      · rw [if_pos succeeded] at leaves
        rw [events, if_pos succeeded]
        exact ⟨leaves, present succeeded, trivial⟩
      · rw [if_neg succeeded] at leaves
        rw [events, if_neg succeeded]
        exact ⟨leaves, trivial⟩
  | remove env address =>
      rcases bind_ok.mp returned with ⟨_, removed, removing, ended⟩
      rcases pure_ok.mp ended with ⟨-, rfl⟩
      exact ⟨removePage_leaves ready found proper removing, trivial⟩
  | read env address => exact ⟨readPage_leaves ready found proper.1 proper.2 returned, trivial⟩

/-- The contents on the disk are those of the journal. -/
structure Journaled (start : State) (journal : List (Journal.Event (Nat × Nat) Page))
    (state : State) : Prop where
  stored : stored state = Journal.last (stored start) journal
  sound : Journal.Sound (PageContents.stored start) journal
  ready : ∃ ghost free, Ready ghost free state

theorem Run.journaled (ready : Ready ghost free start) (run : Run start journal state) :
    Journaled start journal state := by
  induction run with
  | start => exact ⟨rfl, trivial, ghost, free, ready⟩
  | call _ found proper returned before =>
      rcases before.ready with ⟨_, _, readyThere⟩
      rcases Call.leaves readyThere found proper returned with ⟨⟨contents, later, -⟩, sound⟩
      rw [before.stored] at contents sound
      exact ⟨contents.trans Journal.last_append.symm, sound.append before.sound, later⟩
  | other _ same later before =>
      exact ⟨(stored_congr same).trans before.stored, before.sound, _, _, later⟩

/-- Reading a page yields the expected contents, or there are none. -/
structure Reads (state : State) (env address : Nat) (expected : Option Page) : Prop where
  missing : (∃ final, pfReadEnvPage env address state = .ok (.pageNotExist, final)) ↔
    expected = none
  contents : ∀ contents, expected = some contents →
    ∃ final, pfReadEnvPage env address state = .ok (.success, final) ∧
      ∀ index : Fin 1024, final.memory (pageFrame final address) index = contents index

theorem Ready.reads (ready : Ready ghost free state) (found : TablesFound state)
    (user : address < userTop) (there : Writeable state state.curenv address) :
    Reads state env address (stored state (env, ppn address)) := by
  by_cases absent : stored state (env, ppn address) = none
  · have run := readPage_absent ready found user absent
    rw [absent]
    exact ⟨⟨fun _ => rfl, fun _ => ⟨state, run⟩⟩, nofun⟩
  · have present := mt stored_eq_none.mpr absent
    rcases readPage_run ready found user there present with ⟨final, run, -, frame, contents⟩
    refine ⟨⟨?_, fun none => absurd none absent⟩, fun expected same => ⟨final, run, ?_⟩⟩
    · rintro ⟨other, returned⟩
      rw [run] at returned
      cases returned
    · intro index
      rw [stored, if_neg present, Option.some.injEq] at same
      rw [frame, contents index index.isLt, ← same]

/-- A read yields what was stored last for the page, the page is missing exactly when it was
not added since it was last removed, and a call for one page does not matter to another. -/
theorem page_file_is_map (ready : Ready ghost free start) (run : Run start journal state)
    (found : TablesFound state) (user : address < userTop)
    (there : Writeable state state.curenv address) :
    Reads state env address (Journal.last (stored start) journal (env, ppn address)) ∧
      ((∃ final, pfReadEnvPage env address state = .ok (.pageNotExist, final)) ↔
        ¬Journal.Present (stored start) (env, ppn address) journal) ∧
      ∀ call code after, Call.Proper state call → call.run state = .ok (code, after) →
        call.key ≠ (env, ppn address) → TablesFound after →
          Reads after env address (Journal.last (stored start) journal (env, ppn address)) := by
  have journaled := run.journaled ready
  rcases journaled.ready with ⟨_, _, readyThere⟩
  have reads := @Ready.reads _ _ _ env _ readyThere found user there
  rw [journaled.stored] at reads
  refine ⟨reads, ?_, ?_⟩
  · rw [reads.missing, Journal.present_iff journaled.sound, not_not]
  · intro call code after proper returned other foundAfter
    have later := (run.call found proper returned).journaled ready
    rcases later.ready with ⟨_, _, readyAfter⟩
    have thereAfter := (Call.leaves readyThere found proper returned).1.writeable address there
    have readsAfter := @Ready.reads _ _ _ env _ readyAfter foundAfter user thereAfter
    have unconcerned : ∀ event ∈ call.events state code, event.key ≠ (env, ppn address) :=
      fun event member same => other ((Call.events_key event member).symm.trans same)
    rw [later.stored, Journal.last_others unconcerned] at readsAfter
    exact readsAfter

end Runs

/-! ## A page of the first environment -/

section Sample

variable {ghost after last : Ghost} {free : List Nat} {state middle : State}
variable {owner : Directory} {frame newPT address : Nat} {perm : Word}

/-- A user page whose page table was made gets a frame. -/
theorem Ready.newPage (ready : Ready ghost free state) (user : address < userTop)
    (made : MadeTable ghost state owner address newPT after middle)
    (consistent : Consistent last (middle.enterFrame owner frame address perm).view)
    (managed : last.managed = ghost.managed) (counted : last.uncounted = ∅) :
    Ready last free (middle.enterFrame owner frame address perm) := by
  have background := made.table.background
  have serviceable := serviceable_evolves ready background.evolves made.upper
  have limit : middle.bootTables (ppn userLimit) = state.bootTables (ppn userLimit) := by
    have outside : ppn userLimit ≠ ppn newPT := by
      have lower := made.heap.lower
      intro same
      simp only [ppn, userLimit, kernelHeapStart] at same lower
      omega
    have kernel : ¬ppn userLimit < ppn userTop := by decide
    have same := made.others .kernel _ outside
    rwa [State.pageEntry, State.pageEntry, if_neg kernel, if_neg kernel] at same
  have directories : middle.diskDirectory = state.diskDirectory := by
    funext env index
    refine made.table.otherTables (.disk env index) fun same => ?_
    cases same
  have counting : Placement after (middle.addReferences frame 1).view :=
    State.addReferences_placement background.evolves.consistent.toPlacement
  have words := diskEntry_setMemory_table counting (address_user user).2 made.table.present
    (ptx address) (mapWord frame perm)
  have unmapped : ¬hasPerm (middle.pageEntry owner (ppn address)) permPresent = true :=
    fun mapped => absurd made.empty (ne_zero_of_present mapped)
  rw [State.enterFrame_adds unmapped, State.putPageEntry_user user] at consistent ⊢
  exact
    { consistent := consistent
      file := by
        refine ready.file.congr (made.table.file.trans ⟨words, rfl, rfl, rfl, rfl⟩)
          (ready.file.layout.congr directories made.table.file.diskTables ?_ ?_)
        · exact fun env none => made.table.envs ▸ none
        · exact fun env none => made.table.envs ▸ none
      serviceable := ⟨serviceable.tables, serviceable.frames⟩
      managed := by
        rw [managed]
        exact fun someFrame member => made.upper.numberOfFrames ▸ ready.managed someFrame member
      physical := made.upper.numberOfFrames ▸ ready.physical
      limit := limit.trans ready.limit
      readOnly := by
        intro someEnv page hidden
        rw [counted] at hidden
        cases hidden }

/-- The last frame is allocated after boot. -/
theorem sample_allocated :
    ∃ ghost free, ReferenceCounts.Settled ghost (sampleState.allocate 0xFFFF).view ∧
      HeapRecords (sampleState.allocate 0xFFFF) ∧
      ReferenceCounts.Mappable ghost (sampleState.allocate 0xFFFF).view 0xFFFF ∧
      Ready ghost free (sampleState.allocate 0xFFFF) ∧ 1 ∉ ghost.managed ∧ free ≠ [] := by
  rcases initializePaging_ok sample_boots with ⟨ghost, booted⟩
  have sound : ReferenceCounts.Sound ghost sampleState fun _ => False :=
    ⟨ReferenceCounts.boot_settled booted, ReferenceCounts.boot_records booted, by simp⟩
  have allocated : allocateFrame sampleState = .ok (0xFFFF, sampleState.allocate 0xFFFF) := rfl
  rcases sound.allocateFrame allocated with ⟨after, soundAfter, managed, -⟩
  have mappable := soundAfter.mappable 0xFFFF ⟨.inr rfl, ReferenceCounts.sample_obtained⟩
  refine ⟨after, (List.range' 1 (pagesPerFile - 1)).reverse, soundAfter.settled,
    soundAfter.records, mappable, ?_, managed ▸ ZeroPages.booted_unmanaged booted, ?_⟩
  · have file := booted_pageFile sampleLayout sampleContents
    exact
      { consistent := soundAfter.settled.consistent
        file := file.congr ⟨fun _ _ => rfl, rfl, rfl, rfl, rfl⟩
          (file.layout.congr rfl rfl (fun _ => id) fun _ => id)
        serviceable := ⟨booted.supplied.serviceable.tables,
          fun page mapped => absurd (booted.entry (.heap page)) mapped⟩
        managed := managed ▸ booted.supplied.managed
        physical := by decide
        limit := rfl
        readOnly := by
          intro env page hidden
          rw [soundAfter.settled.counted] at hidden
          cases hidden }
  · intro empty
    have length := congrArg List.length empty
    rw [List.length_reverse, List.length_range'] at length
    exact absurd length (by decide)

theorem sample_unrecorded (frame : Nat) :
    ((sampleState.allocate 0xFFFF).framesInfo frame).va = 0 := by
  by_cases taken : frame = 0xFFFF
  · subst taken
    simp [State.allocate, FrameInfo.zero]
  · simp only [State.allocate, State.withFree, Function.update_of_ne taken, sampleState,
      BootLayout.booted]
    split <;> rfl

/-- After boot the first environment got one page, and the kernel heap has room for disk page
tables. -/
structure OnePage (address : Nat) (state : State) : Prop where
  ready : ∃ ghost free, ReferenceCounts.Settled ghost state.view ∧ Ready ghost free state ∧
    Stocked ghost free state 4 ∧ 1 ∉ ghost.managed ∧ free ≠ []
  unrecorded : ∀ frame, (state.framesInfo frame).va = 0
  curenv : state.curenv = 0
  writeable : Writeable state 0 address
  kernel : ∀ page, ppn userTop ≤ page → page ≠ 0xF6000 →
    state.bootTables page = sampleState.bootTables page

/-- The parts of that state which are computed. -/
def hasOnePage (address : Nat) (state : State) : Bool :=
  state.startAdd = 0xF6001000 && state.idx = 1 &&
    state.kHeapPlacementStrategy = .nextFit && 4 ≤ state.freeFrameList.size &&
    state.bootTables 0xF6000 ≠ 0 && state.curenv = 0 &&
    hasPerm (directoryEntry state (.env 0) address) permPresent &&
    hasPerm (state.view.entry (.user (.env 0) (ppn address))) permPresent &&
    hasPerm (state.view.entry (.user (.env 0) (ppn address))) permWriteable

theorem sample_onePage {address : Nat} {checks : State → Bool} (user : address < userTop)
    (ran : (mapFrame (.env 0) 0xFFFF address (permUser ||| permWriteable)
      (sampleState.allocate 0xFFFF)).toOption.any (fun result =>
        hasOnePage address result.2 && checks result.2) = true) :
    ∃ state, OnePage address state ∧ checks state = true := by
  rcases sample_allocated with
    ⟨ghost, free, settled, records, mappable, ready, outside, nonempty⟩
  rcases KernelHeap.sample_cleared with ⟨_, cleared, -⟩
  have low : Low (permUser ||| permWriteable) := by decide
  cases mapped : mapFrame (.env 0) 0xFFFF address (permUser ||| permWriteable)
      (sampleState.allocate 0xFFFF) with
  | error stop =>
      rw [mapped] at ran
      cases ran
  | ok pair =>
      rcases pair with ⟨_, final⟩
      rw [mapped] at ran
      simp only [hasOnePage, Except.toOption, Option.any_some, Bool.and_eq_true,
        decide_eq_true_eq] at ran
      rcases ran with ⟨⟨⟨⟨⟨⟨⟨⟨⟨startAdd, idx⟩, strategy⟩, supply⟩, first⟩, curenv⟩, table⟩,
        present⟩, writeable⟩, checked⟩
      rcases settled.mapFrame_user records mappable user low (by decide) mapped with
        ⟨last, stage, -⟩
      rcases mapFrame_cases ready.consistent user mapped with
        ⟨found, -⟩ | ⟨-, newPT, after, middle, made, rfl⟩
      · have absent : directoryEntry (sampleState.allocate 0xFFFF) (.env 0) address = 0 := rfl
        rw [absent] at found
        exact absurd found (by decide)
      have readyLast := ready.newPage user made stage.settled.consistent stage.managed
        stage.settled.counted
      have boot := (@State.enterFrame_user middle (.env 0) 0xFFFF address
        (permUser ||| permWriteable) user).1
      have entries : ∀ page, ppn userTop ≤ page → page ≠ ppn newPT →
          (middle.enterFrame (.env 0) 0xFFFF address
            (permUser ||| permWriteable)).bootTables page = sampleState.bootTables page := by
        intro page lower outside
        have same := made.others .kernel page outside
        rw [State.pageEntry, State.pageEntry, if_neg (not_lt.mpr lower),
          if_neg (not_lt.mpr lower)] at same
        rw [boot]
        exact same
      have heapKernel : ppn userTop ≤ ppn kernelHeapStart := by decide
      have place : ppn newPT = 0xF6000 := by
        by_contra outside
        rw [entries 0xF6000 (by decide) (Ne.symm outside)] at first
        exact first rfl
      have stocked : Stocked last free (middle.enterFrame (.env 0) 0xFFFF address
          (permUser ||| permWriteable)) 4 :=
        { supplied := ⟨readyLast.consistent, readyLast.serviceable, readyLast.managed,
            fun frame member => by
              have blank := stage.settled.blank frame member
              exact congrArg FrameInfo.isBuffered blank⟩
          file := readyLast.file
          strategy := strategy
          records := by
            rw [idx]
            decide
          pointer := by
            rw [startAdd]
            decide
          above := by
            intro page above
            rw [startAdd] at above
            simp only [ppn] at above
            by_contra nonzero
            have bounds := heapPage_bounds nonzero
            refine nonzero ((if_pos bounds).trans ?_)
            rw [entries page (heapKernel.trans bounds.1) (by omega)]
            exact (if_pos bounds).symm.trans (cleared.free page)
          enough := by
            rw [readyLast.consistent.lists.first.size.symm]
            exact supply }
      have quiet := mapFrame_quiet (.env 0) 0xFFFF address (permUser ||| permWriteable) _ _ _
        (Quiet.refl _) mapped
      refine ⟨_, ⟨⟨last, free, stage.settled, readyLast, stocked, ?_, nonempty⟩,
        fun frame => quiet.unrecorded frame (sample_unrecorded frame), curenv,
        ⟨table, present, writeable⟩, fun page lower outside => entries page lower ?_⟩, checked⟩
      · rwa [stage.managed]
      · rwa [place]

theorem tablesFound {ghost : Ghost} {free : List Nat} {state : State} {spare : Nat}
    (stocked : Stocked ghost free state spare) : TablesFound state :=
  stocked.roomy.tablesFound stocked.consistent stocked.supplied.serviceable

/-- A page is added and read again through an address in its middle. -/
theorem page_file_is_map_one_page :
    ∃ state after final, pfAddEnvPage 0 0x80000000 (BitVec.ofNat 32) state =
        .ok (.success, after) ∧
      pfReadEnvPage 0 0x80000123 after = .ok (.success, final) ∧
      ∀ index : Fin 1024, final.memory (pageFrame final 0x80000123) index =
        BitVec.ofNat 32 index := by
  have user : 0x80000000 < userTop := by decide
  have ran : (mapFrame (.env 0) 0xFFFF 0x80000000 (permUser ||| permWriteable)
      (sampleState.allocate 0xFFFF)).toOption.any (fun result =>
        hasOnePage 0x80000000 result.2 && true) = true := by decide +kernel
  rcases @sample_onePage 0x80000000 (fun _ => true) user ran with
    ⟨state, ⟨⟨ghost, free, -, ready, stocked, -, nonempty⟩, -, curenv, there, -⟩, -⟩
  have needed : Stocked.needed state 0 0x80000000 + 0 ≤ 4 := by
    simp only [Stocked.needed, missing]
    split <;> split <;> omega
  rcases (stocked.mono needed).pfAddEnvPage_returns user with
    ⟨code, _, _, after, added, stockedAfter, -⟩
  have succeeded : code = .success := by
    rcases pfAddEnvPage_ok ready.consistent ready.file user added with ⟨_, _, outcome, -, -⟩
    rcases outcome.outcome with ⟨succeeded, -⟩ | ⟨-, nothing, -⟩
    · exact succeeded
    · exact absurd nothing nonempty
  subst succeeded
  have run := Run.call .start (tablesFound stocked)
    (show Call.Proper state (.add 0 0x80000000 (BitVec.ofNat 32)) from user) added
  have inside : Writeable state state.curenv 0x80000123 := by
    rw [curenv]
    exact ⟨there.table, there.present, there.writeable⟩
  have insideAfter := (addPage_leaves ready user added).writeable 0x80000123 inside
  have reads := (@page_file_is_map _ _ _ _ _ 0 _ ready run (tablesFound stockedAfter)
    (show 0x80000123 < userTop by decide) insideAfter).1
  rcases reads.contents (fun index => BitVec.ofNat 32 index) (Function.update_self _ _ _) with
    ⟨final, read, contents⟩
  exact ⟨state, after, final, added, read, contents⟩

end Sample

end FosKernel.PageContents
