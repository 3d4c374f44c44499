import FosKernel.Refinement.HeapRoom
import FosKernel.Refinement.Stops
import FosKernel.Properties.PageContents

/-! # Fresh pages of the stack

A page of the stack that is in the page file nowhere is created by `page_fault_handler`.
`placement` writes the zero page to the page file and reads it back. The replacement branch
adds the page without contents, and what the frame held before shows through.
-/

namespace FosKernel.FreshPages

open Kernel PageContents

section Page

variable {ghost : Ghost} {free : List Nat} {state final : State} {env address frame : Nat}
variable {perm : Word} {code : PageFileCode}

/-- A page without a disk frame is not read. -/
theorem readPage_missing (layout : HeapLayout state.view) (user : address < userTop)
    (absent : state.diskEntry env (ppn address) = 0)
    (returned : pfReadEnvPage env address state = .ok (code, final)) :
    code = .pageNotExist ∧ final = state := by
  have down : roundDown address < userTop := Nat.lt_of_le_of_lt (Nat.sub_le _ _) user
  rcases ite_ok.mp (bind_get_ok.mp returned) with ⟨-, ended⟩ | ⟨-, opened⟩
  · rcases pure_ok.mp ended with ⟨rfl, rfl⟩
    exact ⟨rfl, rfl⟩
  rcases bind_ok.mp opened with ⟨pointer, same, located, looked⟩
  rcases findDiskPageTable_ok layout down located with ⟨rfl, ⟨rfl, -⟩ | found⟩
  · rcases pure_ok.mp looked with ⟨rfl, rfl⟩
    exact ⟨rfl, rfl⟩
  rcases ite_ok.mp looked with ⟨null, -⟩ | ⟨-, loading⟩
  · exact absurd null found.ne_null
  rcases bind_observe_ok.mp loading with ⟨dfn, loaded, reading⟩
  have entry := found.load_ok loaded
  rw [ppn_roundDown, absent] at entry
  rcases ite_ok.mp reading with ⟨-, ended⟩ | ⟨nonzero, -⟩
  · rcases pure_ok.mp ended with ⟨rfl, rfl⟩
    exact ⟨rfl, rfl⟩
  · exact absurd entry nonzero

end Page

/-! ## Placement -/

section Placement

variable {ghost : Ghost} {free : List Nat} {state middle final : State} {address frame : Nat}
variable {perm : Word} {code : PageFileCode}

/-- A page of the running environment that has neither a frame nor a disk frame. It has a page
table, without which `fault_handler` does not get to `page_fault_handler`. -/
structure Faulting (ghost : Ghost) (free : List Nat) (state : State) (address : Nat) : Prop where
  ready : Ready ghost free state
  zeroFrame : 1 ∉ ghost.managed
  table : hasPerm (directoryEntry state state.curenv address) permPresent = true
  empty : state.view.entry (.user state.curenv (ppn address)) = 0
  absent : state.diskEntry state.curenv (ppn address) = 0

/-- The page has got a frame. -/
structure Entered (free : List Nat) (state : State) (address : Nat) (middle : State) : Prop where
  ready : ∃ ghost, Ready ghost free middle ∧ state.curenv ∉ ghost.active ∧ 1 ∉ ghost.managed
  roomy : ∀ spare, Roomy state spare → Roomy middle spare
  curenv : middle.curenv = state.curenv
  zeroFrame : middle.memory 1 = state.memory 1
  writeable : Writeable middle middle.curenv address
  plain : hasPerm (middle.view.entry (.user middle.curenv (ppn address))) permBuffered = false
  absent : middle.diskEntry middle.curenv (ppn address) = 0

theorem writeable_mapWord :
    hasPerm (mapWord frame (permUser ||| permWriteable)) permWriteable = true := by
  rw [hasPerm_writeable, getLsbD_constructEntry _ _ (by decide)]
  decide

theorem plain_mapWord :
    hasPerm (mapWord frame (permUser ||| permWriteable)) permBuffered = false := by
  rw [hasPerm_buffered, getLsbD_constructEntry _ _ (by decide)]
  decide

theorem Faulting.entered {allowed : Stop → Prop} (admits : Admits allowed)
    (endless : allowed .endless) (faulting : Faulting ghost free state address)
    (user : address < userTop) {rest : PageFileCode → Kernel α} {returned : α → State → Prop}
    (tail : ∀ middle, Entered free state address middle →
      Ensures (rest .pageNotExist) middle returned allowed) :
    Ensures (do
      let frame ← allocateFrame
      mapFrame state.curenv frame address (permUser ||| permWriteable)
      let code ← pfReadEnvPage state.curenv address
      rest code) state returned allowed := by
  have idle := faulting.ready.deactivate state.curenv
  refine .bind ((allocateFrame_raises admits).ensures fun _ _ => id)
    fun frame one allocating => ?_
  rcases idle.allocate allocating with ⟨readyOne, fresh, rfl⟩
  refine .bind ((mapFrame_raises admits endless _ _ _ _).ensures fun _ _ => id)
    fun _ two mapping => ?_
  have table : hasPerm (directoryEntry (state.allocate frame) state.curenv address) permPresent =
      true := faulting.table
  have empty : (state.allocate frame).view.entry (.user state.curenv (ppn address)) = 0 :=
    faulting.empty
  have inactive : state.curenv ∉ ghost.active.erase state.curenv := Finset.notMem_erase _ _
  rcases mapFrame_new readyOne.consistent.toHeapLayout user table empty mapping with rfl
  have readyTwo := readyOne.mapUser inactive fresh user table empty
    (show Low (permUser ||| permWriteable) by decide)
  refine .bind ((pfReadEnvPage_raises admits _ _).ensures fun _ _ => id)
    fun code three reading => ?_
  have view := @State.view_mapUser _ (state.allocate frame) state.curenv frame address
    (permUser ||| permWriteable) readyOne.consistent.toPlacement user table
  have word : ((state.allocate frame).mapUser state.curenv frame address
      (permUser ||| permWriteable)).view.entry (.user state.curenv (ppn address)) =
        mapWord frame (permUser ||| permWriteable) := by
    rw [view]
    exact Function.update_self _ _ _
  have absent : ((state.allocate frame).mapUser state.curenv frame address
      (permUser ||| permWriteable)).diskEntry state.curenv (ppn address) = 0 := by
    have counting : Placement _ ((state.allocate frame).addReferences frame 1).view :=
      State.addReferences_placement readyOne.consistent.toPlacement
    exact (diskEntry_setMemory_table counting (address_user user).2 table (ptx address)
      (mapWord frame (permUser ||| permWriteable)) _ _).trans faulting.absent
  rcases readPage_missing readyTwo.consistent.toHeapLayout user absent reading with ⟨rfl, rfl⟩
  refine tail _
    { ready := ⟨_, readyTwo, inactive, faulting.zeroFrame⟩
      roomy := ?_
      curenv := rfl
      zeroFrame := ?_
      writeable := ⟨table, ?_, ?_⟩
      plain := ?_
      absent := absent }
  · refine fun spare roomy => roomy.congr rfl rfl fun page => ?_
    rw [view]
    exact View.attach_entry nofun
  · have nonzero : state.view.table (.page state.curenv (pdx address)) ≠ 0 := by
      rw [tableEntry_page (address_user user).2]
      exact ne_zero_of_present table
    have managed := faulting.ready.consistent.tableManaged _ nonzero
    rw [tableEntry_page (address_user user).2] at managed
    have different : 1 ≠ frameOf (state.pageDirectory state.curenv (pdx address)) := by
      intro same
      exact faulting.zeroFrame (same ▸ managed)
    exact Function.update_of_ne different _ _
  · exact word ▸ present_mapWord _ _
  · exact word ▸ writeable_mapWord
  · exact word ▸ plain_mapWord

/-- The page has a frame and is in the page file. -/
structure Backed (env address : Nat) (contents : Nat → Word) (state : State) : Prop where
  ready : ∃ ghost free, Ready ghost free state ∧ env ∉ ghost.active
  roomy : Roomy state 0
  curenv : state.curenv = env
  writeable : Writeable state env address
  plain : hasPerm (state.view.entry (.user env (ppn address))) permBuffered = false
  stored : PageContents.stored state (env, ppn address) =
    some fun index : Fin 1024 => contents index

/-- The page is added as a copy of the zero page. -/
theorem Entered.addEmpty (entered : Entered free state address middle) (roomy : Roomy state 2)
    (user : address < userTop) (nonempty : free ≠ [])
    (returned : pfAddEmptyEnvPage state.curenv (roundDown address) true middle =
      .ok (code, final)) : Backed state.curenv address (state.memory 1) final := by
  rcases entered.ready with ⟨ghost, ready, inactive, -⟩
  have down : roundDown address < userTop := Nat.lt_of_le_of_lt (Nat.sub_le _ _) user
  have added : pfAddEnvPage state.curenv (roundDown address) (middle.memory 1) middle =
      .ok (code, final) := bind_get_ok.mp returned
  have side := KernelSide.pfAddEnvPage ready.consistent ready.file down added
  have leaves := addPage_leaves ready down added
  rcases pfAddEnvPage_ok ready.consistent ready.file down added with ⟨after, left, outcome, -⟩
  have background := outcome.step.background
  have succeeded : code = .success := by
    rcases outcome.outcome with ⟨succeeded, -⟩ | ⟨-, nothing, -⟩
    · exact succeeded
    · exact absurd nothing nonempty
  have file : PageFile left final := ZeroPages.AddOutcome.pageFile outcome
  have curenv : final.curenv = state.curenv := side.curenv.trans entered.curenv
  have writeable := leaves.writeable address entered.writeable
  have plain := entered.plain
  have contents := leaves.stored
  rw [if_pos succeeded, ppn_roundDown, entered.zeroFrame] at contents
  rw [curenv] at writeable
  rw [entered.curenv] at plain
  refine
    { ready := ⟨after, left, ready.step background side.upper side.limit file, ?_⟩
      roomy := (entered.roomy 2 roomy).pfAddEnvPage ready.consistent ready.file down added
      curenv := curenv
      writeable := writeable
      plain := ?_
      stored := ?_ }
  · rwa [background.evolves.active]
  · rwa [background.userEntry]
  · rw [contents, Function.update_self]

/-- The working set does not matter to the page file. -/
theorem Backed.setEnv {env : Nat} {contents : Nat → Word} {value : Env}
    (backed : Backed env address contents state)
    (pages : value.diskEnvPgdir = (state.envs env).diskEnvPgdir)
    (tables : value.diskEnvTabledir = (state.envs env).diskEnvTabledir) :
    Backed env address contents (state.setEnv env value) where
  ready := by
    rcases backed.ready with ⟨ghost, free, ready, inactive⟩
    exact ⟨ghost, free, ready.setEnv inactive pages tables, inactive⟩
  roomy := backed.roomy.congr rfl rfl fun _ => rfl
  curenv := backed.curenv
  writeable := ⟨backed.writeable.table, backed.writeable.present, backed.writeable.writeable⟩
  plain := backed.plain
  stored := backed.stored

theorem placeInWorkingSet_backed {env page : Nat} {contents : Nat → Word} (indices : List Nat) :
    Preserves (Backed env address contents) (placeInWorkingSet env page indices) := by
  induction indices with
  | nil => exact .pure ()
  | cons index indices induction =>
      refine .bind .get fun _ => .ite ?_ induction
      refine .bind ?_ fun _ => .modify fun _ backed => backed.setEnv rfl rfl
      intro state result final backed returned
      rw [envPageWsSetEntry_ok returned]
      exact backed.setEnv rfl rfl

/-- The addresses that `placement` adds to the page file. -/
def Addable (address : Nat) : Prop := userHeapMax ≤ address ∧ address < ustackTop

theorem Addable.user (inside : Addable address) : address < userTop :=
  inside.2.trans (by decide)

theorem addable_roundDown :
    (userHeapMax ≤ roundDown address ∧ roundDown address < ustackTop) ↔ Addable address := by
  simp only [Addable, roundDown, userHeapMax, ustackTop]
  omega

theorem Faulting.placement_ensures (faulting : Faulting ghost free state address)
    (roomy : Roomy state 2) (inside : Addable address) (nonempty : free ≠ []) :
    Ensures (placement state.curenv address) state
      (fun _ => Backed state.curenv address (state.memory 1)) (· ≠ missingPage) := by
  refine faulting.entered admits_missingPage nofun inside.user fun middle entered => ?_
  refine .ite (fun _ => ?_) fun found => absurd rfl found
  refine .ite (fun _ => ?_) fun outside => absurd (addable_roundDown.mpr inside) outside
  refine .bind ((pfAddEmptyEnvPage_raises admits_missingPage nofun _ _ _).ensures
    fun _ _ => id) fun code added adding => ?_
  have backed := entered.addEmpty roomy inside.user nonempty adding
  refine .bind_get ((placeInWorkingSet_raises admits_missingPage _ _ _).ensures
    fun _ final placing => ?_)
  exact placeInWorkingSet_backed _ added _ final backed placing

/-- What the running environment sees in a page. -/
def seen (state : State) (address : Nat) : Page := fun index =>
  state.memory (pageFrame state address) index

/-- The second look at the page file reads the page. -/
theorem Backed.read {env : Nat} {contents : Nat → Word}
    (backed : Backed env address contents state) (user : address < userTop) :
    ∃ final, pfReadEnvPage env address state = .ok (.success, final) ∧
      seen final address = fun index : Fin 1024 => contents index := by
  rcases backed.ready with ⟨ghost, free, ready, -⟩
  have found := backed.roomy.tablesFound ready.consistent ready.serviceable
  have contents := backed.stored
  have present : state.diskEntry env (ppn address) ≠ 0 := by
    rw [Ne, ← stored_eq_none, contents]
    nofun
  have there := backed.writeable
  rw [← backed.curenv] at there
  rcases readPage_run ready found user there present with ⟨final, run, -, frame, words⟩
  refine ⟨final, run, ?_⟩
  rw [PageContents.stored, if_neg present, Option.some.injEq] at contents
  rw [← contents]
  funext index
  rw [seen, frame, words index index.isLt]

theorem setLastWSIndexAfter_seen (env index : Nat) (contents : Page) :
    Preserves (fun state => seen state address = contents) (setLastWSIndexAfter env index) :=
  .bind .get fun _ => .modify fun _ same => same

/-- With room in the working set and a free disk frame, the page holds what the zero page
holds. -/
theorem Faulting.placementBranch_ensures (faulting : Faulting ghost free state address)
    (roomy : Roomy state 2) (inside : Addable address) (nonempty : free ≠ []) (lastIDX : Nat) :
    Ensures (placementBranch state.curenv address lastIDX) state
      (fun _ final => seen final address = fun index : Fin 1024 => state.memory 1 index)
      (· ≠ missingPage) := by
  refine .bind (faulting.placement_ensures roomy inside nonempty) fun _ placed backed => ?_
  refine .bind ((raises_observe fun _ =>
    ptGetPagePermissions_raises admits_missingPage _ _ _).ensures fun _ _ => id)
    fun permissions same reading => ?_
  rcases observe_ok.mp reading with ⟨looked, rfl⟩
  rcases backed.ready with ⟨_, _, ready, -⟩
  have plain : hasPerm permissions permBuffered = false := by
    rw [ptGetPagePermissions_ok ready.consistent.toHeapLayout inside.user looked]
    have word := backed.plain
    rw [hasPerm_buffered] at word ⊢
    rw [BitVec.getLsbD_and, word, Bool.false_and]
  rcases backed.read inside.user with ⟨final, run, contents⟩
  refine .ite (fun _ => ?_) fun buffered => absurd buffered (by simp [plain])
  refine .bind_ok run ?_
  refine .ite (fun missing => absurd missing nofun) fun _ => ?_
  exact (setLastWSIndexAfter_raises _ _).ensures fun _ last moving =>
    setLastWSIndexAfter_seen _ _ _ final _ last contents moving

/-- With room in the working set and a free disk frame `page_fault_handler` places the page. -/
theorem Faulting.handler_ensures (faulting : Faulting ghost free state address)
    (roomy : Roomy state 2) (inside : Addable address)
    (room : envPageWsGetSize (state.envs state.curenv) <
      (state.envs state.curenv).pageWSMaxSize) (nonempty : free ≠ []) :
    Ensures (pageFaultHandler state.curenv address) state
      (fun _ final => seen final address = fun index : Fin 1024 => state.memory 1 index)
      (· ≠ missingPage) := by
  refine .bind_get (.bind ((raises_observe fun _ =>
    getFrameInfo_raises admits_missingPage _ _ _).ensures fun _ _ => id)
    fun info same looking => ?_)
  rcases observe_ok.mp looking with ⟨-, rfl⟩
  exact .ite (fun _ => faulting.placementBranch_ensures roomy inside nonempty _) fun full =>
    absurd room full

end Placement

/-! ## Two runs -/

section Runs

variable {ghost : Ghost} {free : List Nat} {left right : State} {address : Nat}

/-- The running environment maps the frame, in its own part of memory or in that of the kernel. -/
def Mapped (state : State) (frame : Nat) : Prop :=
  (∃ page, hasPerm (state.view.entry (.user state.curenv page)) permPresent = true ∧
      frameOf (state.view.entry (.user state.curenv page)) = frame) ∨
    ∃ page, ppn userTop ≤ page ∧ hasPerm (state.bootTables page) permPresent = true ∧
      frameOf (state.bootTables page) = frame

/-- The states differ in the contents of frames that the running environment does not map and
of free disk frames. -/
structure Alike (left right : State) : Prop where
  only : ∃ memory sectors, right = { left with memory, sectors }
  memory : ∀ frame, Mapped left frame → right.memory frame = left.memory frame
  disk : ∀ dfn, ¬OnList left.diskLinks left.diskFreeFrameList dfn → ∀ index < 1024,
    right.diskPage (BitVec.ofNat 32 dfn) index = left.diskPage (BitVec.ofNat 32 dfn) index

/-- The frames of page tables are mapped in the kernel heap. -/
theorem table_mapped (consistent : Consistent ghost left.view) {table : Table}
    (nonzero : left.view.table table ≠ 0) : Mapped left (frameOf (left.view.table table)) := by
  rcases consistent.tableHeld table nonzero with ⟨page, held⟩
  have member : Slot.heap page ∈ ghost.holders (frameOf (left.view.table table)) := by
    simp [held]
  rcases consistent.mem_holders.mp member with ⟨-, mapped, refers⟩
  have present := consistent.present _ (consistent.table_not_listed nonzero) _ member
  have word : left.view.entry (.heap page) = left.bootTables page :=
    if_pos (heapPage_bounds mapped)
  rw [word] at present refers
  exact .inr ⟨page, le_trans (by decide) (heapPage_bounds mapped).1, present, refers⟩

theorem Alike.table (alike : Alike left right) (consistent : Consistent ghost left.view)
    {table : Table} (nonzero : left.view.table table ≠ 0) :
    right.memory (frameOf (left.view.table table)) =
      left.memory (frameOf (left.view.table table)) :=
  alike.memory _ (table_mapped consistent nonzero)

theorem Alike.view (alike : Alike left right) (consistent : Consistent ghost left.view) :
    right.view = left.view := by
  have tables := @Alike.table ghost left right alike consistent
  rcases alike.only with ⟨memory, sectors, rfl⟩
  apply View.ext <;> try rfl
  funext slot
  cases slot with
  | heap page => rfl
  | user owner page =>
      by_cases inside : page < ppn userTop ∧
          hasPerm (left.pageDirectory owner (page / 1024)) permPresent = true
      · have word := @tableEntry_page left owner (page / 1024) (page_table_lt inside.1)
        have same := @tables (.page owner (page / 1024)) (by
          rw [word]
          exact ne_zero_of_present inside.2)
        rw [word] at same
        exact (if_pos inside).trans ((congrFun same _).trans (if_pos inside).symm)
      · exact (if_neg inside).trans (if_neg inside).symm

theorem Alike.diskEntry (alike : Alike left right) (consistent : Consistent ghost left.view)
    (env page : Nat) : right.diskEntry env page = left.diskEntry env page := by
  have tables := @Alike.table ghost left right alike consistent
  rcases alike.only with ⟨memory, sectors, rfl⟩
  by_cases absent : left.diskDirectory env (page / 1024) = 0
  · exact (if_pos absent).trans (if_pos absent).symm
  · have same := @tables (.disk env (page / 1024)) absent
    exact (if_neg absent).trans ((congrFun same _).trans (if_neg absent).symm)

theorem Faulting.alike (faulting : Faulting ghost free left address) (alike : Alike left right) :
    Faulting ghost free right address := by
  have consistent := faulting.ready.consistent
  have view := alike.view consistent
  have words := alike.diskEntry consistent
  have owned : ∀ slot, right.diskOwned slot = left.diskOwned slot := by
    intro slot
    cases slot with
    | page env page => simp only [State.diskOwned, State.diskWord, words]
    | table env index =>
        rcases alike.only with ⟨memory, sectors, rfl⟩
        rfl
  rcases alike.only with ⟨memory, sectors, rfl⟩
  have ready := faulting.ready
  exact
    { ready :=
        { consistent := view ▸ consistent
          file := ⟨ready.file.list, ready.file.pool.congr owned,
            ready.file.layout.congr rfl rfl (fun _ => id) fun _ => id⟩
          serviceable := ⟨ready.serviceable.tables, ready.serviceable.frames⟩
          managed := ready.managed
          physical := ready.physical
          limit := ready.limit
          readOnly := by
            rw [WindowsReadOnly, view]
            exact ready.readOnly }
      zeroFrame := faulting.zeroFrame
      table := faulting.table
      empty := by
        rw [view]
        exact faulting.empty
      absent := (words _ _).trans faulting.absent }

def InStack (address : Nat) : Prop := ustackBottom ≤ address ∧ address < ustackTop

theorem InStack.addable (stack : InStack address) : Addable address :=
  ⟨le_trans (by decide) stack.1, stack.2⟩

end Runs

/-! ## The first environment with one page of its stack -/

section Sample

/-- The working set of the first environment has this size and a page in its first slot. -/
def withWorkingSet (page size : Nat) (state : State) : State :=
  state.setEnv 0
    { state.envs 0 with
      pageWSMaxSize := size
      ptrPageWorkingSet := fun index =>
        if index = 0 then ⟨page, false, 0x80000000⟩ else .cleared }

/-- The frame that is handed out next held this word before. -/
def withStale (word : Word) (state : State) : State := state.setPage 0xFFFD fun _ => word

/-- The topmost page of the stack. -/
abbrev topPage : Nat := ustackTop - 4096

/-- The page below it. -/
abbrev samplePage : Nat := ustackTop - 8192

/-- The page sees a word after it was brought in. -/
def bringsIn (word : Word) (state : State) : Bool :=
  (pageFaultHandler 0 samplePage state).toOption.any fun result =>
    seen result.2 samplePage 0 = word

theorem bringsIn_iff {word : Word} {state : State} : bringsIn word state = true ↔
    ∃ final, pageFaultHandler 0 samplePage state = .ok ((), final) ∧
      seen final samplePage 0 = word := by
  rw [bringsIn]
  cases ended : pageFaultHandler 0 samplePage state with
  | error stop => simp [Except.toOption]
  | ok pair =>
      rcases pair with ⟨⟨⟩, final⟩
      simp [Except.toOption]

/-- Nothing is mapped at the page, the zero page is zero, and the page is brought in with room
in the working set and without. -/
def sampleChecks (state : State) : Bool :=
  state.view.entry (.user (.env 0) (ppn samplePage)) = 0 &&
    state.diskEntry 0 (ppn samplePage) = 0 && state.freeFrameList.first = some 0xFFFD &&
    (List.range 1024).all (fun index => state.memory 1 index = 0) &&
    bringsIn 0 (withWorkingSet topPage 2 state) &&
    bringsIn 0 (withWorkingSet topPage 2 (withStale 7 state)) &&
    bringsIn 0 (withWorkingSet topPage 1 state) &&
    bringsIn 7 (withWorkingSet topPage 1 (withStale 7 state))

theorem sample_ran : (mapFrame (.env 0) 0xFFFF topPage (permUser ||| permWriteable)
    (sampleState.allocate 0xFFFF)).toOption.any (fun result =>
      hasOnePage topPage result.2 && sampleChecks result.2) = true := by
  decide +kernel

theorem onePage_faulting {state : State} (one : OnePage topPage state)
    (empty : state.view.entry (.user (.env 0) (ppn samplePage)) = 0)
    (absent : state.diskEntry 0 (ppn samplePage) = 0) (size : Nat) :
    ∃ ghost free, Faulting ghost free (withWorkingSet topPage size state) samplePage ∧
      Roomy (withWorkingSet topPage size state) 2 ∧ free ≠ [] := by
  rcases one.ready with ⟨ghost, free, settled, ready, stocked, outside, nonempty⟩
  have idle : (0 : Nat) ∉ ghost.active := by
    rw [settled.inactive]
    exact Finset.notMem_empty 0
  have curenv : (withWorkingSet topPage size state).curenv = 0 := one.curenv
  refine ⟨ghost, free, ?_, (stocked.mono (by decide)).roomy.congr rfl rfl fun _ => rfl,
    nonempty⟩
  exact
    { ready := ready.setEnv idle rfl rfl
      zeroFrame := outside
      table := by
        rw [curenv]
        exact one.writeable.table
      empty := by
        rw [curenv]
        exact empty
      absent := by
        rw [curenv]
        exact absent }

/-- Boot maps frames below the end of the kernel. -/
theorem sample_bootTables (page : Nat) : frameOf (sampleState.bootTables page) < 0x800 := by
  have word : sampleState.bootTables page = sampleLayout.bootTables page := rfl
  rw [word, BootLayout.bootTables]
  have bounded : ∀ frame perm, frame < 0x800 → Low perm →
      frameOf (constructEntry frame perm) < 0x800 := by
    intro frame perm below low
    rwa [frameOf_constructEntry (below.trans (by decide)) low]
  split
  · next inside =>
    refine bounded _ _ ?_ (by decide)
    have upper := inside.2
    simp only [sampleLayout] at upper
    omega
  · split
    · refine bounded _ _ ?_ (by decide)
      simp only [sampleLayout]
      omega
    · split
      · next inside =>
        refine bounded _ _ ?_ (by decide)
        have upper := inside.2
        simp only [sampleLayout] at upper ⊢
        omega
      · exact (by decide : frameOf 0 < 0x800)

/-- The frame that is handed out next is not mapped. -/
theorem onePage_unmapped {state : State} (one : OnePage topPage state)
    (first : state.freeFrameList.first = some 0xFFFD) : ¬Mapped state 0xFFFD := by
  rcases one.ready with ⟨ghost, free, settled, -⟩
  have listed : ghost.Listed 0xFFFD := .inl (settled.consistent.lists.first.first_mem first)
  have nowhere : ∀ slot, state.view.entry slot ≠ 0 →
      frameOf (state.view.entry slot) ≠ 0xFFFD := by
    intro slot nonzero refers
    have held := settled.mem_holders.mpr ⟨nonzero, refers⟩
    rw [settled.idle listed] at held
    cases held
  rintro (⟨page, present, refers⟩ | ⟨page, lower, present, refers⟩)
  · exact nowhere _ (ne_zero_of_present present) refers
  by_cases heap : ppn kernelHeapStart ≤ page ∧ page < ppn kernelHeapMax
  · have word : state.view.entry (.heap page) = state.bootTables page := if_pos heap
    rw [← word] at present refers
    exact nowhere _ (ne_zero_of_present present) refers
  · have outside : page ≠ 0xF6000 := by
      rintro rfl
      exact heap (by decide)
    rw [one.kernel page lower outside] at refers
    have below := sample_bootTables page
    rw [refers] at below
    exact absurd below (by decide)

theorem onePage_alike {state : State} (one : OnePage topPage state)
    (first : state.freeFrameList.first = some 0xFFFD) (size : Nat) :
    Alike (withWorkingSet topPage size state)
      (withWorkingSet topPage size (withStale 7 state)) where
  only := ⟨_, _, rfl⟩
  memory := by
    intro frame mapped
    have different : frame ≠ 0xFFFD := by
      rintro rfl
      exact onePage_unmapped one first mapped
    exact Function.update_of_ne different _ _
  disk _ _ _ _ := rfl

theorem inStack_samplePage : InStack samplePage := ⟨by decide, by decide⟩

/-- Two states that differ in what the environment cannot see. -/
structure SamplePair (ghost : Ghost) (free : List Nat) (left right : State) : Prop where
  curenv : left.curenv = 0 ∧ right.curenv = 0
  faulting : Faulting ghost free left samplePage
  roomy : Roomy left 2
  nonempty : free ≠ []
  alike : Alike left right
  leftZero : ∀ index < 1024, left.memory 1 index = 0
  rightZero : ∀ index < 1024, right.memory 1 index = 0

theorem sample_pairs : ∃ state,
    (∀ size, ∃ ghost free, SamplePair ghost free (withWorkingSet topPage size state)
      (withWorkingSet topPage size (withStale 7 state))) ∧
    bringsIn 0 (withWorkingSet topPage 2 state) = true ∧
    bringsIn 0 (withWorkingSet topPage 2 (withStale 7 state)) = true ∧
    bringsIn 0 (withWorkingSet topPage 1 state) = true ∧
    bringsIn 7 (withWorkingSet topPage 1 (withStale 7 state)) = true := by
  rcases sample_onePage (by decide) sample_ran with ⟨state, one, checked⟩
  simp only [sampleChecks, Bool.and_eq_true, decide_eq_true_eq, List.all_eq_true,
    List.mem_range] at checked
  rcases checked with ⟨⟨⟨⟨⟨⟨⟨empty, absent⟩, first⟩, zero⟩, roomLeft⟩, roomRight⟩, fullLeft⟩,
    fullRight⟩
  refine ⟨state, fun size => ?_, roomLeft, roomRight, fullLeft, fullRight⟩
  rcases onePage_faulting one empty absent size with ⟨ghost, free, faulting, roomy, nonempty⟩
  have alike := onePage_alike one first size
  have rightZero : ∀ index < 1024,
      (withWorkingSet topPage size (withStale 7 state)).memory 1 index = 0 := by
    intro index below
    have same : (withWorkingSet topPage size (withStale 7 state)).memory 1 = state.memory 1 := by
      simp [withWorkingSet, withStale, State.setPage, State.setEnv]
    rw [same]
    exact zero index below
  exact ⟨ghost, free, ⟨one.curenv, one.curenv⟩, faulting, roomy, nonempty, alike, zero, rightZero⟩

end Sample

end FosKernel.FreshPages
