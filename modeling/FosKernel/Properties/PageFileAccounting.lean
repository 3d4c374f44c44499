import FosKernel.Properties.ReclaimedPages
import Mathlib.Algebra.BigOperators.Group.Finset.Piecewise
import Mathlib.Algebra.BigOperators.Group.Finset.Sigma
import Mathlib.Data.Nat.Count

/-! # The disk frames are accounted for

After any calls of the page file every disk frame but number 0 is free or belongs to one
page or page table of one environment, and the functions that count frames and pages add up
to all of them.
-/

namespace FosKernel.PageFileAccounting

open Kernel PageTrace LinkedList

/-! ## Counting -/

section Counting

variable {state : State} {env : Nat}

theorem countDiskFree_ok {fuel total : Nat} {done rest : List Nat} {head : ListHead Nat}
    (list : Represents state.diskLinks head (done ++ rest))
    (enough : rest.length ≤ fuel) :
    ∃ final, countDiskFree fuel rest[0]? total state = .ok (total + rest.length, final) := by
  induction rest generalizing fuel total done state with
  | nil =>
      cases fuel with
      | zero => exact ⟨_, rfl⟩
      | succ fuel => exact ⟨_, rfl⟩
  | cons dfn rest induction =>
      cases fuel with
      | zero => simp at enough
      | succ fuel =>
          have next : (state.diskLinks dfn).next = rest[0]? := by
            have own := list.linked done.length dfn (by simp)
            rw [own.1, List.getElem?_append_right (by omega)]
            simp
          have later : Represents state.diskLinks head ((done ++ [dfn]) ++ rest) := by
            simpa using list
          rcases @induction { state with diskFreeFrameList :=
              { state.diskFreeFrameList with ptrNext := rest[0]? } } fuel (total + 1) _ later
            (by simpa using enough) with ⟨final, counted⟩
          refine ⟨final, bind_modify_ok.mpr (bind_get_ok.mpr ?_)⟩
          simp only [next]
          rw [counted, List.length_cons, Nat.add_assoc, Nat.add_comm 1]

theorem pfCalculateFreeFrames_ok {free : List Nat} (file : PageFile free state) :
    ∃ final, pfCalculateFreeFrames state = .ok (free.length, final) := by
  have room : free.length ≤ pagesPerFile := by
    have within : free ⊆ List.range pagesPerFile := fun dfn member =>
      List.mem_range.mpr (file.known member).2
    simpa using (file.list.nodup.subperm within).length_le
  rcases @countDiskFree_ok state pagesPerFile 0 [] free _ file.list room with ⟨final, counted⟩
  refine ⟨final, bind_get_ok.mpr ?_⟩
  rw [file.list.first, counted, Nat.zero_add]

theorem countDiskEntries_ok {pointer : TablePointer} {word : Nat → Word} {indices : List Nat}
    {counter : Nat} (loaded : ∀ index ∈ indices, load state pointer index = .ok (word index)) :
    countDiskEntries state pointer indices counter =
      .ok (counter + indices.countP fun index => word index ≠ 0) := by
  induction indices generalizing counter with
  | nil => rfl
  | cons index indices induction =>
      rw [countDiskEntries, loaded index (by simp)]
      simp only [bind, Except.bind]
      rw [induction fun other member => loaded other (by simp [member]), List.countP_cons]
      congr 1
      by_cases zero : word index = 0
      · simp [zero]
      · simp only [zero, ne_eq, not_false_eq_true, if_true, decide_true]
        omega

theorem countP_range (test : Nat → Prop) [DecidablePred test] (bound : Nat) :
    (List.range bound).countP (fun index => test index) = Nat.count test bound := by
  induction bound with
  | zero => rfl
  | succ bound induction =>
      rw [List.range_succ, List.countP_append, induction, Nat.count_succ]
      simp [List.countP_singleton]

/-- Counting table by table. -/
theorem count_tables (test : Nat → Prop) [DecidablePred test] (tables size : Nat) :
    ((List.range tables).map fun index =>
      Nat.count (fun offset => test (index * size + offset)) size).sum =
        Nat.count test (tables * size) := by
  induction tables with
  | zero => simp
  | succ tables induction =>
      rw [List.range_succ, List.map_append, List.sum_append, induction, Nat.add_mul, Nat.one_mul,
        Nat.count_add]
      simp

/-- `kheap_virtual_address` finds every disk page table. -/
def TablesTranslated (state : State) : Prop :=
  ∀ env index, state.diskDirectory env index ≠ 0 → ∃ table,
    kheapVirtualAddress state (frameOf (state.diskDirectory env index)) = .ok table ∧ table ≠ 0

theorem table_loaded {ghost : Ghost} {index table : Nat} (consistent : Consistent ghost state.view)
    (present : state.diskDirectory env index ≠ 0)
    (located : kheapVirtualAddress state (frameOf (state.diskDirectory env index)) = .ok table)
    (nonzero : table ≠ 0) {offset : Nat} (bound : offset < 1024) :
    load state (.ofAddress table) offset =
      .ok (state.diskEntry env (index * 1024 + offset)) := by
  rcases @table_translated _ _ consistent (.disk env index) _ present located nonzero with
    ⟨heap, reached⟩
  have directory : (index * 1024 + offset) / 1024 = index := by omega
  have within : (index * 1024 + offset) % 1024 = offset := by omega
  rw [Orderly.table_pointer heap, diskEntry_of_ne (by rwa [directory]), directory, within]
  exact Except.bind_ok.mpr ⟨_, reached, rfl⟩

theorem countDiskPages_ok {ghost : Ghost} {indices : List Nat} {counter : Nat}
    (consistent : Consistent ghost state.view) (translated : TablesTranslated state) :
    countDiskPages state env indices counter = .ok (counter + (indices.map fun index =>
      Nat.count (fun offset => state.diskEntry env (index * 1024 + offset) ≠ 0) 1024).sum) := by
  induction indices generalizing counter with
  | nil => rfl
  | cons index indices induction =>
      rw [countDiskPages, List.map_cons, List.sum_cons, ← Nat.add_assoc]
      by_cases absent : state.diskDirectory env index = 0
      · have none : Nat.count (fun offset => state.diskEntry env (index * 1024 + offset) ≠ 0)
            1024 = 0 := by
          refine Nat.count_iff_forall_not.mpr fun offset bound stored => stored ?_
          refine diskEntry_of_zero ?_
          rw [show (index * 1024 + offset) / 1024 = index by omega, absent]
        rw [if_pos (by rw [absent]; decide), induction, none, Nat.add_zero]
      · rcases translated env index absent with ⟨table, located, nonzero⟩
        have present : hasPerm (state.diskDirectory env index) permPresent = true :=
          consistent.tablePresent (.disk env index) absent
        have counted := @countDiskEntries_ok state (.ofAddress table)
          (fun offset => state.diskEntry env (index * 1024 + offset)) (List.range 1024) counter
          fun offset member => table_loaded consistent absent located nonzero
            (List.mem_range.mp member)
        rw [if_neg (not_not.mpr present), located]
        simp only [bind, Except.bind]
        rw [counted, countP_range]
        exact induction

/-- The pages of an environment in the page file. -/
def storedPages (state : State) (env : Nat) : Nat :=
  Nat.count (fun page => state.diskEntry env page ≠ 0) (pdx userTop * 1024)

theorem pfCalculateAllocatedPages_ok {ghost : Ghost} (consistent : Consistent ghost state.view)
    (translated : TablesTranslated state) (present : (state.envs env).diskEnvPgdir ≠ 0) :
    pfCalculateAllocatedPages state env = .ok (storedPages state env) := by
  rw [pfCalculateAllocatedPages, if_neg present, countDiskPages_ok consistent translated,
    Nat.zero_add]
  exact congrArg Except.ok
    (count_tables (fun page => state.diskEntry env page ≠ 0) (pdx userTop) 1024)

end Counting

/-! ## All disk frames -/

section Cells

variable {state : State}

/-- The cells of some environments that have a disk frame. -/
def cells (state : State) (cell : Nat → Nat → DiskSlot) (bound : Nat) (environments : Finset Nat) :
    Finset DiskSlot :=
  ((environments ×ˢ Finset.range bound).filter fun place =>
    state.diskWord (cell place.1 place.2) ≠ 0).image fun place => cell place.1 place.2

theorem mem_cells {cell : Nat → Nat → DiskSlot} {bound : Nat} {environments : Finset Nat}
    {slot : DiskSlot} : slot ∈ cells state cell bound environments ↔
      ∃ env ∈ environments, ∃ index < bound, cell env index = slot ∧ state.diskWord slot ≠ 0 := by
  simp only [cells, Finset.mem_image, Finset.mem_filter, Finset.mem_product, Finset.mem_range,
    Prod.exists]
  constructor
  · rintro ⟨env, index, ⟨⟨member, below⟩, stored⟩, rfl⟩
    exact ⟨env, member, index, below, rfl, stored⟩
  · rintro ⟨env, member, index, below, rfl, stored⟩
    exact ⟨env, index, ⟨⟨member, below⟩, stored⟩, rfl⟩

theorem card_cells {cell : Nat → Nat → DiskSlot} (bound : Nat) (environments : Finset Nat)
    (injective : Function.Injective fun place : Nat × Nat => cell place.1 place.2) :
    (cells state cell bound environments).card =
      ∑ env ∈ environments, Nat.count (fun index => state.diskWord (cell env index) ≠ 0) bound := by
  rw [cells, Finset.card_image_of_injective _ injective, Finset.card_filter, Finset.sum_product]
  refine Finset.sum_congr rfl fun env _ => ?_
  rw [Nat.count_eq_card_filter_range, Finset.card_filter]

/-- The entries of the disk table directory of an environment. -/
def storedTables (state : State) (env : Nat) : Nat :=
  Nat.count (fun index => state.diskTableDirectory env index ≠ 0) 1024

/-- The free disk frames, the stored pages and the stored page tables make up all. -/
theorem frames_add_up {free : List Nat} {environments : Finset Nat} (file : PageFile free state)
    (others : ∀ cell : DiskSlot, cell.env ∉ environments → state.diskWord cell = 0) :
    free.length + ∑ env ∈ environments, storedPages state env +
      ∑ env ∈ environments, storedTables state env = pagesPerFile - 1 := by
  have pages := @card_cells state .page (pdx userTop * 1024) environments
    fun left right same => by simpa [Prod.ext_iff] using same
  have tables := @card_cells state .table 1024 environments
    fun left right same => by simpa [Prod.ext_iff] using same
  have owners : ∀ slot, slot ∈ cells state .page (pdx userTop * 1024) environments ∪
      cells state .table 1024 environments ↔ state.diskOwned slot ≠ none := by
    intro slot
    have owned : state.diskOwned slot ≠ none ↔ state.diskWord slot ≠ 0 :=
      not_congr diskNumber_eq_none
    rw [Finset.mem_union, mem_cells, mem_cells, owned]
    constructor
    · rintro (⟨_, -, _, -, -, stored⟩ | ⟨_, -, _, -, -, stored⟩)
      · exact stored
      · exact stored
    · intro stored
      have member : slot.env ∈ environments := by
        by_contra other
        exact stored (others slot other)
      cases slot with
      | page env page =>
          refine .inl ⟨env, member, page, ?_, rfl, stored⟩
          by_contra above
          refine stored (diskEntry_of_zero (file.layout.userPages env _ ?_))
          omega
      | table env index =>
          refine .inr ⟨env, member, index, ?_, rfl, stored⟩
          by_contra above
          refine stored (file.layout.userTables env index (le_trans ?_ (not_lt.mp above)))
          decide
  have apart : Disjoint (cells state .page (pdx userTop * 1024) environments)
      (cells state .table 1024 environments) := by
    rw [Finset.disjoint_left]
    intro slot page table
    rcases mem_cells.mp page with ⟨_, -, _, -, rfl, -⟩
    rcases mem_cells.mp table with ⟨_, -, _, -, same, -⟩
    cases same
  have all := file.pool.count owners
  rw [Finset.card_union_of_disjoint apart, pages, tables, Nat.card_Ico] at all
  rw [Nat.add_assoc]
  exact all

end Cells

/-! ## Runs -/

/-- A call of an environment. -/
inductive FileCall
  | addPage (address : Nat) (page : Nat → Word)
  | addEmptyPage (address : Nat) (initializeByZero : Bool)
  | removePage (address : Nat)
  | freeEnv
  | writeTable (address : Nat) (page : Nat → Word)
  | removeTable (address : Nat)
  | removeAllTables

def FileCall.run (env : Nat) : FileCall → Kernel Unit
  | .addPage address page => do
      let _ ← pfAddEnvPage env address page
  | .addEmptyPage address initializeByZero => do
      let _ ← pfAddEmptyEnvPage env address initializeByZero
  | .removePage address => pfRemoveEnvPage env address
  | .freeEnv => pfFreeEnv env
  | .writeTable address page => do
      let _ ← pfWriteEnvTable env address page
  | .removeTable address => pfRemoveEnvTable env address
  | .removeAllTables => pfRemoveEnvAllTables env

/-- The address of a call lies below `USER_TOP`. -/
def FileCall.User : FileCall → Prop
  | .addPage address _ => address < userTop
  | .addEmptyPage address _ => address < userTop
  | .removePage address => address < userTop
  | .freeEnv => True
  | .writeTable address _ => address < userTop
  | .removeTable address => address < userTop
  | .removeAllTables => True

/-- The states after boot and any calls of the environments. A call in which `kmalloc` fails
does not return. -/
inductive Run (layout : BootLayout) (contents : BootContents) (environments : Finset Nat) :
    State → Prop
  | boot {state} :
      initializePaging layout.kernelFrames (layout.beforePaging contents) = .ok ((), state) →
      Run layout contents environments state
  | call {state env call final} :
      Run layout contents environments state → env ∈ environments → FileCall.User call →
      call.run env state = .ok ((), final) → Run layout contents environments final

section Runs

variable {layout : BootLayout} {contents : BootContents} {environments : Finset Nat}
variable {ghost : Ghost} {start state final : State} {free : List Nat} {env : Nat}

theorem FileCall.moves {call : FileCall} (orderly : Orderly ghost free state)
    (documented : Documented (fun _ => True) start state) (user : call.User)
    (returned : call.run env state = .ok ((), final)) :
    ∃ after left, Moves env ghost free state after left final := by
  cases call with
  | addPage address page =>
      rcases bind_ok.mp returned with ⟨code, added, adding, ended⟩
      rcases pure_ok.mp ended with ⟨-, rfl⟩
      exact addEnvPage orderly user adding
  | addEmptyPage address initializeByZero =>
      rcases bind_ok.mp returned with ⟨code, added, adding, ended⟩
      rcases pure_ok.mp ended with ⟨-, rfl⟩
      exact addEmptyEnvPage orderly user adding
  | removePage address => exact ⟨ghost, removeEnvPage orderly user returned⟩
  | freeEnv =>
      rcases PageTrace.freeEnv orderly documented trivial returned with ⟨after, left, moves, -⟩
      exact ⟨after, left, moves⟩
  | writeTable address page =>
      rcases bind_ok.mp returned with ⟨code, written, writing, ended⟩
      rcases pure_ok.mp ended with ⟨-, rfl⟩
      exact writeEnvTable orderly user writing
  | removeTable address => exact ⟨ghost, removeEnvTable orderly returned⟩
  | removeAllTables =>
      rcases removeEnvAllTables orderly returned with ⟨left, moves, -⟩
      exact ⟨ghost, left, moves⟩

/-- The blocks of all environments are recorded, and no other environment has disk frames. -/
structure Accounted (environments : Finset Nat) (ghost : Ghost) (free : List Nat)
    (start state : State) : Prop where
  orderly : Orderly ghost free state
  documented : Documented (fun _ => True) start state
  others : ∀ cell : DiskSlot, cell.env ∉ environments → state.diskWord cell = 0

theorem boot_accounted (environments : Finset Nat)
    (returned : initializePaging layout.kernelFrames (layout.beforePaging contents) =
      .ok ((), state)) :
    ∃ ghost free, Accounted environments ghost free state state := by
  rcases boot_orderly returned with ⟨ghost, orderly, none⟩
  refine ⟨ghost, _, orderly, ⟨⟨le_rfl, ?_⟩, ?_, ?_⟩, ?_⟩
  · exact fun index after below => absurd after (not_le.mpr below)
  · exact fun slot _ present => absurd (none slot) present
  · exact fun env _ index present =>
      absurd (orderly.file.layout.noPages env (none (.pages env)) index) present
  · exact fun cell _ =>
      ReclaimedPages.diskWord_of_absent orderly.file (none _) (none _) rfl

theorem Accounted.call {call : FileCall} (accounted : Accounted environments ghost free start state)
    (member : env ∈ environments) (user : call.User)
    (returned : call.run env state = .ok ((), final)) :
    ∃ after left, Accounted environments after left start final := by
  rcases call.moves accounted.orderly accounted.documented user returned with
    ⟨after, left, moves⟩
  have traced := (ReclaimedPages.Traced.new ghost state env).moves accounted.orderly moves
  refine ⟨after, left, moves.orderly accounted.orderly,
    accounted.documented.moves accounted.orderly moves, fun cell other => ?_⟩
  have different : cell.env ≠ env := by
    rintro rfl
    exact other member
  rw [traced.words cell different]
  exact accounted.others cell other

theorem Run.accounted (run : Run layout contents environments state) :
    ∃ ghost free start, Accounted environments ghost free start state := by
  induction run with
  | boot returned =>
      rcases boot_accounted environments returned with ⟨ghost, free, accounted⟩
      exact ⟨ghost, free, _, accounted⟩
  | call _ member user returned induction =>
      rcases induction with ⟨ghost, free, start, accounted⟩
      rcases accounted.call member user returned with ⟨after, left, later⟩
      exact ⟨after, left, start, later⟩

/-! ## Accounting -/

/-- Every disk frame from number 1 on is free, once, or the entry of one page or page table;
number 0 is never handed out. -/
structure Partitioned (state : State) : Prop where
  divided : ∃ free, Represents state.diskLinks state.diskFreeFrameList free ∧
    ∀ dfn, 1 ≤ dfn → dfn < pagesPerFile →
      (free.count dfn = 1 ∧ ∀ cell, state.diskOwned cell ≠ some dfn) ∨
        (dfn ∉ free ∧ ∃! cell, state.diskOwned cell = some dfn)
  entries : ∀ cell dfn, state.diskOwned cell = some dfn → 1 ≤ dfn ∧ dfn < pagesPerFile
  handedOut : ∀ dfn final, allocateDiskFrame state = .ok (some dfn, final) → dfn ≠ 0

theorem PageFile.partitioned (file : PageFile free state) : Partitioned state where
  divided := by
    refine ⟨free, file.list, fun dfn lower upper => ?_⟩
    rcases file.pool.complete dfn (Finset.mem_Ico.mpr ⟨lower, upper⟩) with inFree | ⟨cell, has⟩
    · refine .inl ⟨List.count_eq_one_of_mem file.pool.nodup inFree, fun cell has => ?_⟩
      exact (file.pool.taken cell dfn has).2 inFree
    · refine .inr ⟨(file.pool.taken cell dfn has).2, cell, has, fun other also => ?_⟩
      exact file.pool.unique other cell dfn also has
  entries cell dfn has := Finset.mem_Ico.mp (file.pool.taken cell dfn has).1
  handedOut := by
    intro dfn final taken
    rcases allocateDiskFrame_ok file.list file.room taken with
      ⟨absent, -⟩ | ⟨number, rest, same, rfl, -⟩
    · cases absent
    · cases same
      exact Nat.one_le_iff_ne_zero.mp (file.known (List.mem_cons_self ..)).1

/-- The counting functions add up to all disk frames but number 0;
`pf_calculate_allocated_pages` is for environments with a disk page directory. -/
def Balanced (environments : Finset Nat) (state : State) : Prop :=
  ∃ free final, ∃ pages : Nat → Nat,
    pfCalculateFreeFrames state = .ok (free, final) ∧
    (∀ env, (state.envs env).diskEnvPgdir ≠ 0 →
      pfCalculateAllocatedPages state env = .ok (pages env)) ∧
    free + ∑ env ∈ environments with (state.envs env).diskEnvPgdir ≠ 0, pages env +
      ∑ env ∈ environments, storedTables state env = pagesPerFile - 1

theorem Accounted.balanced (accounted : Accounted environments ghost free start state)
    (translated : TablesTranslated state) : Balanced environments state := by
  rcases pfCalculateFreeFrames_ok accounted.orderly.file with ⟨final, counted⟩
  refine ⟨free.length, final, storedPages state, counted, fun env present =>
    pfCalculateAllocatedPages_ok accounted.orderly.consistent translated present, ?_⟩
  rw [← frames_add_up accounted.orderly.file accounted.others, Finset.sum_filter_of_ne]
  intro env _ stored absent
  refine stored (Nat.count_iff_forall_not.mpr fun page _ there => there ?_)
  exact diskEntry_of_zero (accounted.orderly.file.layout.noPages env absent _)

/-- The page map is as it was. -/
def SamePages (state final : State) : Prop :=
  ∀ env page, final.diskEntry env page = state.diskEntry env page

theorem AddOutcome.samePages {after : Ghost} {left : List Nat} {page : Nat} {succeeded : Prop}
    (outcome : AddOutcome ghost free state env page succeeded after left final)
    (failed : ¬succeeded) : SamePages state final := by
  rcases outcome.outcome with ⟨added, -⟩ | ⟨-, -, -, -, same, -⟩
  · exact absurd added failed
  · exact same.diskEntry

/-- What a call that finds no disk frame leaves. -/
structure FullKeeps (state : State) : Prop where
  page : ∀ env address page final, address < userTop →
    pfAddEnvPage env address page state = .ok (.noSpace, final) → SamePages state final
  emptyPage : ∀ env address initializeByZero final, address < userTop →
    pfAddEmptyEnvPage env address initializeByZero state = .ok (.noSpace, final) →
      SamePages state final

theorem Orderly.fullKeeps (orderly : Orderly ghost free state) : FullKeeps state where
  page := by
    intro env address page final user returned
    rcases pfAddEnvPage_ok orderly.consistent orderly.file user returned with ⟨_, _, outcome, -⟩
    exact AddOutcome.samePages outcome (by simp)
  emptyPage := by
    intro env address initializeByZero final user returned
    rcases pfAddEmptyEnvPage_ok orderly.consistent orderly.file user returned with
      ⟨_, _, outcome⟩
    exact AddOutcome.samePages outcome (by simp)

/-- The accounts of the page file hold in every state of every run. -/
theorem disk_frames_accounted (run : Run layout contents environments state) :
    Partitioned state ∧ (TablesTranslated state → Balanced environments state) ∧
      FullKeeps state := by
  rcases run.accounted with ⟨ghost, free, start, accounted⟩
  exact ⟨PageFile.partitioned accounted.orderly.file, accounted.balanced,
    Orderly.fullKeeps accounted.orderly⟩

/-- The first environment has a page. -/
theorem disk_frames_accounted_one_page : ∃ state, Run sampleLayout sampleContents {0} state ∧
    Partitioned state ∧ Balanced {0} state ∧ FullKeeps state := by
  rcases BackedAllocations.sample_stocked (show 2 ≤ 40000 by decide) with ⟨ghost, stocked⟩
  have needed : Stocked.needed sampleState 0 0x80000000 + 0 ≤ 2 := by
    simp only [Stocked.needed, missing]
    split <;> split <;> omega
  rcases (stocked.mono needed).pfAddEmptyEnvPage_returns (by decide) with
    ⟨code, _, _, state, adding, stockedNow, -⟩
  have boot : Run sampleLayout sampleContents {0} sampleState :=
    .boot (initializePaging_form sampleLayout sampleContents (by decide))
  have user : (FileCall.addEmptyPage 0x80000000 true).User := show 0x80000000 < userTop by decide
  have added : (FileCall.addEmptyPage 0x80000000 true).run 0 sampleState = .ok ((), state) :=
    bind_ok.mpr ⟨code, state, adding, rfl⟩
  have run : Run sampleLayout sampleContents {0} state :=
    boot.call (Finset.mem_singleton_self 0) user added
  have translated : TablesTranslated state := by
    intro env index present
    rcases stockedNow.walkable.diskTable_located stockedNow.consistent present with
      ⟨table, located, -, nonzero, -⟩
    exact ⟨table, located, nonzero⟩
  rcases disk_frames_accounted run with ⟨partitioned, balanced, keeps⟩
  exact ⟨state, run, partitioned, balanced translated, keeps⟩

end Runs

end FosKernel.PageFileAccounting
