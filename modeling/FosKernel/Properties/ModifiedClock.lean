import FosKernel.Foundation.Cycle
import FosKernel.Refinement.Lookup
import FosKernel.Refinement.Replacement
import FosKernel.Refinement.BootForm
import FosKernel.System

/-! # Modified clock

The choice of a victim on a full working set. The nested loops of the fault handler are
followed from one position of the hand to the next; between two positions the state
differs from the first one in the hand and in the `PERM_USED` bits that are cleared.
-/

namespace FosKernel

open Kernel

/-! ## Bits of the pages in the working set -/

/-- The page table of a user page is in memory, and lookup finds it. -/
structure TableFound (state : State) (env address : Nat) : Prop where
  present : hasPerm (state.pageDirectory (.env env) (pdx address)) permPresent = true
  located : ∃ table, tablePointer state (.env env) address = .ok (.kernel table) ∧
    kernelFrame state table = .ok (frameOf (state.pageDirectory (.env env) (pdx address)))

/-- The entry of a page in its page table. -/
def pageEntry (state : State) (env address : Nat) : Word :=
  state.memory (frameOf (state.pageDirectory (.env env) (pdx address))) (ptx address)

def State.setPageEntry (state : State) (env address : Nat) (word : Word) : State :=
  state.setMemory (frameOf (state.pageDirectory (.env env) (pdx address))) (ptx address) word

namespace TableFound

variable {state after : State} {env address : Nat}

theorem congr (found : TableFound state env address) (same : SameTables state after)
    (bounded : state.startAdd < 2 ^ 32) : TableFound after env address := by
  rcases found with ⟨present, table, pointer, frame⟩
  refine ⟨by rw [same.pageDirectory]; exact present, table, ?_, ?_⟩
  · rw [same.tablePointer bounded, pointer]
  · rw [same.kernelFrame, frame, same.pageDirectory]

theorem permissionsTable (found : TableFound state env address) (name : String) :
    ∃ table, permissionsTable state name env address = .ok (some (.kernel table)) ∧
      kernelFrame state table =
        .ok (frameOf (state.pageDirectory (.env env) (pdx address))) := by
  rcases found with ⟨present, table, pointer, frame⟩
  refine ⟨table, ?_, frame⟩
  simp only [FosKernel.permissionsTable, present, if_true, pointer]
  rfl

theorem ptGetPagePermissions (found : TableFound state env address) :
    ptGetPagePermissions state env address =
      .ok (pageEntry state env address &&& 0xFFF#32) := by
  rcases found.permissionsTable "pt_get_page_permissions" with ⟨table, located, frame⟩
  have loaded : load state (.kernel table) (ptx address) = .ok (pageEntry state env address) :=
    Except.bind_ok.mpr ⟨_, frame, rfl⟩
  refine Except.bind_ok.mpr ⟨_, located, ?_⟩
  exact Except.bind_ok.mpr ⟨_, loaded, rfl⟩

theorem ptSetPagePermissions (found : TableFound state env address) (set clear : Word) :
    ptSetPagePermissions env address set clear state = .ok ((), state.setPageEntry env address
      (changePerm (pageEntry state env address) set clear)) := by
  rcases found.permissionsTable "pt_set_page_permissions" with ⟨table, located, frame⟩
  have loaded : load state (.kernel table) (ptx address) = .ok (pageEntry state env address) :=
    Except.bind_ok.mpr ⟨_, frame, rfl⟩
  refine bind_observe_ok.mpr ⟨_, located, ?_⟩
  refine bind_observe_ok.mpr ⟨_, loaded, ?_⟩
  exact bind_observe_ok.mpr ⟨_, frame, rfl⟩

end TableFound

theorem hasPerm_permissions (entry : Word) :
    hasPerm (entry &&& 0xFFF#32) permUsed = hasPerm entry permUsed ∧
      hasPerm (entry &&& 0xFFF#32) permModified = hasPerm entry permModified := by
  constructor
  · rw [hasPerm_used, hasPerm_used, BitVec.getLsbD_and]
    simp
  · rw [hasPerm_modified, hasPerm_modified, BitVec.getLsbD_and]
    simp

theorem hasPerm_clearUsed (entry : Word) :
    hasPerm (changePerm entry 0 permUsed) permUsed = false ∧
      hasPerm (changePerm entry 0 permUsed) permModified = hasPerm entry permModified := by
  constructor
  · rw [hasPerm_used, getLsbD_changePerm _ _ _ (by decide)]
    simp [permUsed]
  · rw [hasPerm_modified, hasPerm_modified, getLsbD_changePerm _ _ _ (by decide)]
    simp [permUsed]

namespace ModifiedClock

/-- The page in a slot of the working set. -/
def slotAddress (state : State) (env slot : Nat) : Nat :=
  roundDown ((state.envs env).ptrPageWorkingSet slot).virtualAddress

/-- The page-table entry of the page in a slot. -/
def slotEntry (state : State) (env slot : Nat) : Word :=
  pageEntry state env (slotAddress state env slot)

def Used (state : State) (env slot : Nat) : Prop :=
  hasPerm (slotEntry state env slot) permUsed = true

def Modified (state : State) (env slot : Nat) : Prop :=
  hasPerm (slotEntry state env slot) permModified = true

/-- Every slot holds a page, the pages are distinct and their page tables exist. -/
structure FullWorkingSet (state : State) (env : Nat) : Prop where
  bounded : (state.envs env).pageWSMaxSize < 2 ^ 32
  startBounded : state.startAdd < 2 ^ 32
  hand : (state.envs env).pageLastWSIndex < (state.envs env).pageWSMaxSize
  filled : ∀ slot < (state.envs env).pageWSMaxSize,
    ((state.envs env).ptrPageWorkingSet slot).empty = false
  distinct : ∀ left < (state.envs env).pageWSMaxSize,
    ∀ right < (state.envs env).pageWSMaxSize,
      slotAddress state env left = slotAddress state env right → left = right
  table : ∀ slot < (state.envs env).pageWSMaxSize,
    TableFound state env (slotAddress state env slot)
  tablesApart : ∀ left < (state.envs env).pageWSMaxSize,
    ∀ right < (state.envs env).pageWSMaxSize,
      frameOf (state.pageDirectory (.env env) (pdx (slotAddress state env left))) =
        frameOf (state.pageDirectory (.env env) (pdx (slotAddress state env right))) →
      pdx (slotAddress state env left) = pdx (slotAddress state env right)

/-- The victim of the modified clock, and the slots whose `PERM_USED` is cleared. -/
inductive Chosen (size hand : Nat) (used modified : Nat → Prop) : Nat → Finset Nat → Prop
  | clean (steps : Nat)
      (first : FirstAhead size hand (fun slot => ¬used slot ∧ ¬modified slot) steps) :
      Chosen size hand used modified (ahead size hand steps) ∅
  | unused (steps : Nat) (dirty : ∀ slot < size, ¬(¬used slot ∧ ¬modified slot))
      (first : FirstAhead size hand (fun slot => ¬used slot) steps) :
      Chosen size hand used modified (ahead size hand steps) (passed size hand steps)
  | unmodified (steps : Nat) (allUsed : ∀ slot < size, used slot)
      (first : FirstAhead size hand (fun slot => ¬modified slot) steps) :
      Chosen size hand used modified (ahead size hand steps) (Finset.range size)
  | first (allUsed : ∀ slot < size, used slot) (allModified : ∀ slot < size, modified slot) :
      Chosen size hand used modified hand (Finset.range size)

/-! ## Positions of the hand -/

theorem advanceLastWSIndex_eq {state : State} {env : Nat}
    (inside : (state.envs env).pageLastWSIndex < (state.envs env).pageWSMaxSize)
    (bounded : (state.envs env).pageWSMaxSize < 2 ^ 32) :
    advanceLastWSIndex env state = .ok ((), state.setEnv env
      { state.envs env with
        pageLastWSIndex :=
          ((state.envs env).pageLastWSIndex + 1) % (state.envs env).pageWSMaxSize }) := by
  have next : (if ((state.envs env).pageLastWSIndex + 1) % 2 ^ 32 =
        (state.envs env).pageWSMaxSize then 0
      else ((state.envs env).pageLastWSIndex + 1) % 2 ^ 32) =
      ((state.envs env).pageLastWSIndex + 1) % (state.envs env).pageWSMaxSize := by
    rw [Nat.mod_eq_of_lt (show (state.envs env).pageLastWSIndex + 1 < 2 ^ 32 by omega)]
    split
    · next wrapped => rw [wrapped, Nat.mod_self]
    · exact (Nat.mod_eq_of_lt (by omega)).symm
  refine bind_get_ok.mpr ?_
  rw [next]
  rfl

/-- The page tables after `PERM_USED` was cleared for some slots. -/
def clearUsed (state : State) (env : Nat) (cleared : Finset Nat) : State :=
  { state with
    memory := fun frame index =>
      if ∃ slot ∈ cleared, ptx (slotAddress state env slot) = index ∧
          frameOf (state.pageDirectory (.env env) (pdx (slotAddress state env slot))) = frame
      then changePerm (state.memory frame index) 0 permUsed
      else state.memory frame index }

/-- The hand at a slot, with `PERM_USED` cleared for some slots. -/
def sweep (state : State) (env : Nat) (cleared : Finset Nat) (hand : Nat) : State :=
  (clearUsed state env cleared).setEnv env { state.envs env with pageLastWSIndex := hand }

/-- The page in the slot at the hand was taken out. -/
def taken (state : State) (env : Nat) (cleared : Finset Nat) (victim : Nat) : State :=
  (clearUsed state env cleared).setEnv env
    { (state.envs env).setElement victim .cleared with
      pageLastWSIndex := (victim + 1) % (state.envs env).pageWSMaxSize }

section Sweep

variable {state : State} {env hand slot : Nat} {cleared : Finset Nat}

theorem sweep_same : SameTables state (sweep state env cleared hand) := ⟨rfl, rfl, rfl, rfl⟩

theorem sweep_env : (sweep state env cleared hand).envs env =
    { state.envs env with pageLastWSIndex := hand } := by
  simp [sweep, State.setEnv]

theorem clearUsed_empty : clearUsed state env ∅ = state := by
  simp [clearUsed]

theorem sweep_start : sweep state env ∅ (state.envs env).pageLastWSIndex = state := by
  simp [sweep, clearUsed_empty, State.setEnv]

theorem sweep_address (inside : slot < (state.envs env).pageWSMaxSize) :
    envPageWsGetVirtualAddress (sweep state env cleared hand) env slot =
      .ok (slotAddress state env slot) := by
  simp only [envPageWsGetVirtualAddress, sweep_env]
  rw [if_neg (by omega)]
  rfl

variable (full : FullWorkingSet state env)
include full

theorem sweep_table (inside : slot < (state.envs env).pageWSMaxSize) (cleared : Finset Nat)
    (hand : Nat) :
    TableFound (sweep state env cleared hand) env (slotAddress state env slot) :=
  (full.table slot inside).congr sweep_same full.startBounded

/-- The entry of a slot is cleared with the slot and with no other one. -/
theorem sweep_entry (inside : slot < (state.envs env).pageWSMaxSize)
    (within : ∀ other ∈ cleared, other < (state.envs env).pageWSMaxSize) (hand : Nat) :
    pageEntry (sweep state env cleared hand) env (slotAddress state env slot) =
      if slot ∈ cleared then changePerm (slotEntry state env slot) 0 permUsed
      else slotEntry state env slot := by
  have same : (∃ other ∈ cleared,
      ptx (slotAddress state env other) = ptx (slotAddress state env slot) ∧
        frameOf (state.pageDirectory (.env env) (pdx (slotAddress state env other))) =
          frameOf (state.pageDirectory (.env env) (pdx (slotAddress state env slot)))) ↔
      slot ∈ cleared := by
    constructor
    · rintro ⟨other, member, offset, table⟩
      have directory := full.tablesApart other (within other member) slot inside table
      have page : ppn (slotAddress state env other) = ppn (slotAddress state env slot) := by
        rw [← pdx_mul_add_ptx, ← pdx_mul_add_ptx, directory, offset]
      have equal : slotAddress state env other = slotAddress state env slot := by
        simp only [slotAddress, roundDown, ppn] at page ⊢
        omega
      rwa [← full.distinct other (within other member) slot inside equal]
    · intro member
      exact ⟨slot, member, rfl, rfl⟩
  simp only [pageEntry, slotEntry, sweep, State.setEnv, clearUsed, same]

/-- The bits of a slot at a position of the hand. -/
theorem sweep_bits (inside : slot < (state.envs env).pageWSMaxSize)
    (within : ∀ other ∈ cleared, other < (state.envs env).pageWSMaxSize) (hand : Nat) :
    ∃ permissions,
      ptGetPagePermissions (sweep state env cleared hand) env (slotAddress state env slot) =
        .ok permissions ∧
      (hasPerm permissions permUsed = true ↔ Used state env slot ∧ slot ∉ cleared) ∧
      (hasPerm permissions permModified = true ↔ Modified state env slot) := by
  have found := sweep_table full inside cleared hand
  refine ⟨_, found.ptGetPagePermissions, ?_⟩
  rw [(hasPerm_permissions _).1, (hasPerm_permissions _).2, sweep_entry full inside within hand]
  split
  · next member =>
    rw [(hasPerm_clearUsed _).1, (hasPerm_clearUsed _).2]
    simp [member, Modified]
  · next absent => simp [absent, Used, Modified]

theorem sweep_clear (inside : slot < (state.envs env).pageWSMaxSize)
    (within : ∀ other ∈ cleared, other < (state.envs env).pageWSMaxSize)
    (fresh : slot ∉ cleared) :
    ptSetPagePermissions env (slotAddress state env slot) 0 permUsed
        (sweep state env cleared hand) =
      .ok ((), sweep state env (insert slot cleared) hand) := by
  have found := sweep_table full inside cleared hand
  rw [found.ptSetPagePermissions, sweep_entry full inside within hand, if_neg fresh]
  have memory : ((sweep state env cleared hand).setPageEntry env (slotAddress state env slot)
      (changePerm (slotEntry state env slot) 0 permUsed)).memory =
        (sweep state env (insert slot cleared) hand).memory := by
    funext frame index
    simp only [State.setPageEntry, State.setMemory, sweep, State.setEnv, clearUsed,
      Finset.exists_mem_insert]
    by_cases sameFrame : frame =
        frameOf (state.pageDirectory (.env env) (pdx (slotAddress state env slot)))
    · subst sameFrame
      by_cases sameIndex : index = ptx (slotAddress state env slot)
      · subst sameIndex
        simp [slotEntry, pageEntry]
      · simp [sameIndex, Ne.symm sameIndex]
    · simp [sameFrame, Ne.symm sameFrame]
  exact congrArg (fun memory => Except.ok ((), { sweep state env cleared hand with memory }))
    memory

theorem sweep_advance (inside : hand < (state.envs env).pageWSMaxSize) :
    advanceLastWSIndex env (sweep state env cleared hand) =
      .ok ((), sweep state env cleared ((hand + 1) % (state.envs env).pageWSMaxSize)) := by
  rw [advanceLastWSIndex_eq (by rw [sweep_env]; exact inside)
    (by rw [sweep_env]; exact full.bounded)]
  simp [sweep, State.setEnv]

theorem sweep_take (inside : hand < (state.envs env).pageWSMaxSize) (address : Nat) :
    takeVictim env address (sweep state env cleared hand) =
      .ok (⟨address, hand⟩, taken state env cleared hand) := by
  have removed : envPageWsClearEntry env hand (sweep state env cleared hand) =
      .ok ((), (sweep state env cleared hand).setEnv env
        (((sweep state env cleared hand).envs env).setElement hand .cleared)) := by
    refine bind_get_ok.mpr ?_
    rw [if_neg (by rw [sweep_env]; simpa using inside)]
    rfl
  refine bind_get_ok.mpr ?_
  simp only [sweep_env]
  refine bind_ok.mpr ⟨_, _, removed, ?_⟩
  refine bind_ok.mpr ⟨_, _, advanceLastWSIndex_eq ?_ ?_, ?_⟩
  · simpa [State.setEnv, Env.setElement, sweep_env] using inside
  · simpa [State.setEnv, Env.setElement, sweep_env] using full.bounded
  · refine pure_ok.mpr ⟨rfl, ?_⟩
    simp [sweep, taken, State.setEnv, Env.setElement]

end Sweep

/-! ## The inner loop -/

/-- The slot at which the hand is after a number of steps. -/
abbrev position (state : State) (env steps : Nat) : Nat :=
  ahead (state.envs env).pageWSMaxSize (state.envs env).pageLastWSIndex steps

/-- The slots before it. -/
abbrev behind (state : State) (env steps : Nat) : Finset Nat :=
  passed (state.envs env).pageWSMaxSize (state.envs env).pageLastWSIndex steps

/-- The victim in a slot. -/
abbrev victimAt (state : State) (env slot : Nat) : Victim := ⟨slotAddress state env slot, slot⟩

section Loops

variable {state : State} {env fp fuel slot : Nat} {cleared : Finset Nat}
  (full : FullWorkingSet state env)
include full

theorem secondTrial_used (inside : slot < (state.envs env).pageWSMaxSize)
    (within : ∀ other ∈ cleared, other < (state.envs env).pageWSMaxSize)
    (used : Used state env slot) (fresh : slot ∉ cleared) :
    secondTrial env fp (fuel + 1) (sweep state env cleared slot) =
      if (slot + 1) % (state.envs env).pageWSMaxSize = fp then
        .ok (none, sweep state env (insert slot cleared)
          ((slot + 1) % (state.envs env).pageWSMaxSize))
      else secondTrial env fp fuel (sweep state env (insert slot cleared)
        ((slot + 1) % (state.envs env).pageWSMaxSize)) := by
  rcases sweep_bits full inside within slot with ⟨permissions, read, isUsed, -⟩
  have start : ((sweep state env cleared slot).envs env).pageLastWSIndex = slot := by
    rw [sweep_env]
  refine bind_get_run.trans ?_
  rw [start]
  refine (observe_run (sweep_address inside)).trans ?_
  refine (observe_run read).trans ?_
  rw [if_pos (isUsed.mpr ⟨used, fresh⟩)]
  refine (bind_run (sweep_clear full inside within fresh)).trans ?_
  refine (bind_run (sweep_advance full inside)).trans ?_
  refine bind_get_run.trans ?_
  rw [sweep_env]
  split <;> rfl

theorem secondTrial_unused (inside : slot < (state.envs env).pageWSMaxSize)
    (within : ∀ other ∈ cleared, other < (state.envs env).pageWSMaxSize)
    (unused : ¬(Used state env slot ∧ slot ∉ cleared)) :
    secondTrial env fp (fuel + 1) (sweep state env cleared slot) =
      .ok (some ⟨slotAddress state env slot, slot⟩, taken state env cleared slot) := by
  rcases sweep_bits full inside within slot with ⟨permissions, read, isUsed, -⟩
  have start : ((sweep state env cleared slot).envs env).pageLastWSIndex = slot := by
    rw [sweep_env]
  refine bind_get_run.trans ?_
  rw [start]
  refine (observe_run (sweep_address inside)).trans ?_
  refine (observe_run read).trans ?_
  rw [if_neg (by rw [isUsed]; exact unused)]
  exact bind_run (sweep_take full inside _)

theorem position_inside (steps : Nat) :
    position state env steps < (state.envs env).pageWSMaxSize := ahead_lt full.hand

theorem behind_inside (steps : Nat) :
    ∀ slot ∈ behind state env steps, slot < (state.envs env).pageWSMaxSize := by
  intro slot member
  rcases Finset.mem_image.mp member with ⟨earlier, -, rfl⟩
  exact position_inside full earlier

/-- The hand is back at its start only after a whole round. -/
theorem position_ne_start {steps : Nat} (inside : steps + 1 < (state.envs env).pageWSMaxSize) :
    (position state env steps + 1) % (state.envs env).pageWSMaxSize ≠
      (state.envs env).pageLastWSIndex := by
  rw [← ahead_succ]
  intro back
  have zero := ahead_injective inside (by omega) (back.trans (ahead_zero full.hand).symm)
  omega

theorem position_eq_start {steps : Nat} (last : steps + 1 = (state.envs env).pageWSMaxSize) :
    (position state env steps + 1) % (state.envs env).pageWSMaxSize =
      (state.envs env).pageLastWSIndex := by
  rw [← ahead_succ, last, ahead_size full.hand]

/-- The inner loop finds the first page that is not used, and clears `PERM_USED` of the
pages before it. -/
theorem secondTrial_finds {steps start : Nat}
    (inside : steps < (state.envs env).pageWSMaxSize)
    (unused : ¬Used state env (position state env steps))
    (used : ∀ earlier < steps, Used state env (position state env earlier))
    (below : start ≤ steps) (enough : steps < start + fuel) :
    secondTrial env (state.envs env).pageLastWSIndex fuel
      (sweep state env (behind state env start) (position state env start)) =
      .ok (some (victimAt state env (position state env steps)),
        taken state env (behind state env steps) (position state env steps)) := by
  induction fuel generalizing start with
  | zero => omega
  | succ fuel induction =>
      rcases Nat.eq_or_lt_of_le below with rfl | before
      · exact secondTrial_unused full (position_inside full _) (behind_inside full _)
          fun both => unused both.1
      · rw [secondTrial_used full (position_inside full start) (behind_inside full start)
          (used start before) (ahead_notMem_passed (by omega)),
          if_neg (position_ne_start full (by omega)), ← passed_succ, ← ahead_succ]
        exact induction (by omega) (by omega)

/-- The inner loop clears `PERM_USED` everywhere when all pages are used. -/
theorem secondTrial_none {start : Nat}
    (used : ∀ slot < (state.envs env).pageWSMaxSize, Used state env slot)
    (below : start < (state.envs env).pageWSMaxSize)
    (enough : (state.envs env).pageWSMaxSize ≤ start + fuel) :
    secondTrial env (state.envs env).pageLastWSIndex fuel
      (sweep state env (behind state env start) (position state env start)) =
      .ok (none, sweep state env (Finset.range (state.envs env).pageWSMaxSize)
        (state.envs env).pageLastWSIndex) := by
  induction fuel generalizing start with
  | zero => omega
  | succ fuel induction =>
      rw [secondTrial_used full (position_inside full start) (behind_inside full start)
        (used _ (position_inside full start)) (ahead_notMem_passed below)]
      rcases Nat.eq_or_lt_of_le (Nat.succ_le_of_lt below) with last | before
      · rw [if_pos (position_eq_start full last), ← passed_succ, position_eq_start full last]
        rw [show start + 1 = (state.envs env).pageWSMaxSize from last, passed_size full.hand]
      · rw [if_neg (position_ne_start full before), ← passed_succ, ← ahead_succ]
        exact induction before (by omega)

/-! ## The outer loop -/

/-- A page that the outer loop takes. -/
def Clean (state : State) (env : Nat) (cleared : Finset Nat) (slot : Nat) : Prop :=
  ¬(Used state env slot ∧ slot ∉ cleared) ∧ ¬Modified state env slot

omit full in
/-- The outer loop after the inner one. -/
def retry (env fp fuel : Nat) : Option Victim → Kernel Victim
  | some victim => return victim
  | none => findVictim env fp fuel

theorem findVictim_clean (inside : slot < (state.envs env).pageWSMaxSize)
    (within : ∀ other ∈ cleared, other < (state.envs env).pageWSMaxSize)
    (clean : Clean state env cleared slot) :
    findVictim env fp (fuel + 1) (sweep state env cleared slot) =
      .ok (victimAt state env slot, taken state env cleared slot) := by
  rcases sweep_bits full inside within slot with ⟨permissions, read, isUsed, isModified⟩
  have start : ((sweep state env cleared slot).envs env).pageLastWSIndex = slot := by
    rw [sweep_env]
  refine bind_get_run.trans ?_
  rw [start]
  refine (observe_run (sweep_address inside)).trans ?_
  refine (observe_run read).trans ?_
  rw [if_pos (by rw [isUsed, isModified]; exact clean)]
  exact sweep_take full inside _

theorem findVictim_dirty (inside : slot < (state.envs env).pageWSMaxSize)
    (within : ∀ other ∈ cleared, other < (state.envs env).pageWSMaxSize)
    (dirty : ¬Clean state env cleared slot) :
    findVictim env fp (fuel + 1) (sweep state env cleared slot) =
      if (slot + 1) % (state.envs env).pageWSMaxSize = fp then
        (secondTrial env fp ((state.envs env).pageWSMaxSize + 1) >>= retry env fp fuel)
          (sweep state env cleared ((slot + 1) % (state.envs env).pageWSMaxSize))
      else findVictim env fp fuel
        (sweep state env cleared ((slot + 1) % (state.envs env).pageWSMaxSize)) := by
  rcases sweep_bits full inside within slot with ⟨permissions, read, isUsed, isModified⟩
  have start : ((sweep state env cleared slot).envs env).pageLastWSIndex = slot := by
    rw [sweep_env]
  refine bind_get_run.trans ?_
  rw [start]
  refine (observe_run (sweep_address inside)).trans ?_
  refine (observe_run read).trans ?_
  rw [if_neg (by rw [isUsed, isModified]; exact dirty)]
  refine (bind_run (sweep_advance full inside)).trans ?_
  refine bind_get_run.trans ?_
  simp only [sweep_env]
  split
  · rfl
  · rfl

theorem findVictim_finds {steps start : Nat}
    (within : ∀ other ∈ cleared, other < (state.envs env).pageWSMaxSize)
    (first : FirstAhead (state.envs env).pageWSMaxSize (state.envs env).pageLastWSIndex
      (Clean state env cleared) steps)
    (below : start ≤ steps) (enough : steps < start + fuel) :
    findVictim env (state.envs env).pageLastWSIndex fuel
      (sweep state env cleared (position state env start)) =
      .ok (victimAt state env (position state env steps),
        taken state env cleared (position state env steps)) := by
  induction fuel generalizing start with
  | zero => omega
  | succ fuel induction =>
      rcases Nat.eq_or_lt_of_le below with rfl | before
      · exact findVictim_clean full (position_inside full _) within first.met
      · have inside := first.inside
        rw [findVictim_dirty full (position_inside full start) within
          (first.before start before), if_neg (position_ne_start full (by omega)),
          ← ahead_succ]
        exact induction (by omega) (by omega)

theorem findVictim_wraps {start : Nat}
    (within : ∀ other ∈ cleared, other < (state.envs env).pageWSMaxSize)
    (dirty : ∀ slot < (state.envs env).pageWSMaxSize, ¬Clean state env cleared slot)
    (below : start < (state.envs env).pageWSMaxSize) :
    findVictim env (state.envs env).pageLastWSIndex
      ((state.envs env).pageWSMaxSize - start + fuel)
      (sweep state env cleared (position state env start)) =
      (secondTrial env (state.envs env).pageLastWSIndex ((state.envs env).pageWSMaxSize + 1) >>=
        retry env (state.envs env).pageLastWSIndex fuel)
        (sweep state env cleared (state.envs env).pageLastWSIndex) := by
  obtain ⟨left, sum⟩ : ∃ left, (state.envs env).pageWSMaxSize = start + 1 + left :=
    ⟨_, (Nat.add_sub_of_le below).symm⟩
  induction left generalizing start with
  | zero =>
      rw [show (state.envs env).pageWSMaxSize - start + fuel = fuel + 1 by omega,
        findVictim_dirty full (position_inside full start) within
          (dirty _ (position_inside full start)), if_pos (position_eq_start full (by omega)),
        position_eq_start full (by omega)]
  | succ left induction =>
      rw [show (state.envs env).pageWSMaxSize - start + fuel =
          ((state.envs env).pageWSMaxSize - (start + 1) + fuel) + 1 by omega,
        findVictim_dirty full (position_inside full start) within
          (dirty _ (position_inside full start)), if_neg (position_ne_start full (by omega)),
        ← ahead_succ]
      exact induction (by omega) (by omega)

theorem sweep_position_zero :
    sweep state env cleared (position state env 0) =
      sweep state env cleared (state.envs env).pageLastWSIndex := by
  rw [position, ahead_zero full.hand]

/-- The outer loop on pages that are no longer used. -/
theorem findVictim_cleared
    (used : ∀ slot < (state.envs env).pageWSMaxSize, Used state env slot) :
    ∃ victim, Chosen (state.envs env).pageWSMaxSize (state.envs env).pageLastWSIndex
        (Used state env) (Modified state env) victim
        (Finset.range (state.envs env).pageWSMaxSize) ∧
      findVictim env (state.envs env).pageLastWSIndex
          ((state.envs env).pageWSMaxSize - 0 + 2)
          (sweep state env (Finset.range (state.envs env).pageWSMaxSize)
            (state.envs env).pageLastWSIndex) =
        .ok (victimAt state env victim,
          taken state env (Finset.range (state.envs env).pageWSMaxSize) victim) := by
  have hand := full.hand
  have within : ∀ slot ∈ Finset.range (state.envs env).pageWSMaxSize,
      slot < (state.envs env).pageWSMaxSize := fun slot => Finset.mem_range.mp
  have cleanIff : ∀ steps, Clean state env (Finset.range (state.envs env).pageWSMaxSize)
      (position state env steps) ↔ ¬Modified state env (position state env steps) := by
    intro steps
    simp [Clean, position_inside full steps]
  rcases firstAhead_or hand (Clean state env (Finset.range (state.envs env).pageWSMaxSize))
    with ⟨steps, first⟩ | modified
  · have inside := first.inside
    have unmodified : FirstAhead (state.envs env).pageWSMaxSize
        (state.envs env).pageLastWSIndex (fun slot => ¬Modified state env slot) steps :=
      ⟨inside, (cleanIff steps).mp first.met, fun earlier below clean =>
        first.before earlier below ((cleanIff earlier).mpr clean)⟩
    refine ⟨_, .unmodified steps used unmodified, ?_⟩
    rw [← sweep_position_zero full]
    exact findVictim_finds full within first (Nat.zero_le _) (by omega)
  · refine ⟨_, .first used fun slot inside => ?_, ?_⟩
    · rcases exists_ahead hand inside with ⟨steps, -, rfl⟩
      by_contra unmodified
      exact modified _ inside ((cleanIff steps).mpr unmodified)
    · rw [← sweep_position_zero full, findVictim_wraps full within modified (by omega)]
      refine bind_run (secondTrial_unused full hand within ?_)
      exact fun both => both.2 (Finset.mem_range.mpr hand)

/-- The search ends, with the victim of the modified clock. -/
theorem findVictim_chosen :
    ∃ victim cleared, Chosen (state.envs env).pageWSMaxSize (state.envs env).pageLastWSIndex
        (Used state env) (Modified state env) victim cleared ∧
      findVictim env (state.envs env).pageLastWSIndex
          (2 * (state.envs env).pageWSMaxSize + 2) state =
        .ok (victimAt state env victim, taken state env cleared victim) := by
  have hand := full.hand
  have start : sweep state env ∅ (position state env 0) = state := by
    rw [sweep_position_zero full, sweep_start]
  have back : sweep state env (behind state env 0) (position state env 0) =
      sweep state env ∅ (state.envs env).pageLastWSIndex := by
    rw [behind, passed_zero, sweep_position_zero full]
  rcases firstAhead_or hand (Clean state env ∅) with ⟨steps, first⟩ | dirty
  · have inside := first.inside
    refine ⟨_, _, .clean steps ⟨inside, by simpa [Clean] using first.met, ?_⟩, ?_⟩
    · intro earlier below
      simpa [Clean] using first.before earlier below
    · rw [← findVictim_finds full (by simp) first (Nat.zero_le _)
        (show steps < 0 + (2 * (state.envs env).pageWSMaxSize + 2) by omega), start]
  have round : findVictim env (state.envs env).pageLastWSIndex
      ((state.envs env).pageWSMaxSize - 0 + ((state.envs env).pageWSMaxSize - 0 + 2))
      (sweep state env ∅ (position state env 0)) = _ :=
    findVictim_wraps full (by simp) dirty (by omega)
  rw [start, show (state.envs env).pageWSMaxSize - 0 +
    ((state.envs env).pageWSMaxSize - 0 + 2) = 2 * (state.envs env).pageWSMaxSize + 2 by omega]
    at round
  rw [round]
  rcases firstAhead_or hand (fun slot => ¬Used state env slot) with ⟨steps, first⟩ | used
  · have inside := first.inside
    refine ⟨_, _, .unused steps (fun slot bound => ?_) first, ?_⟩
    · simpa [Clean] using dirty slot bound
    · have found := secondTrial_finds full inside first.met
        (fun earlier below => not_not.mp (first.before earlier below)) (Nat.zero_le steps)
        (show steps < 0 + ((state.envs env).pageWSMaxSize + 1) by omega)
      rw [back] at found
      exact bind_run found
  · have allUsed : ∀ slot < (state.envs env).pageWSMaxSize, Used state env slot :=
      fun slot inside => not_not.mp (used slot inside)
    have swept : secondTrial env (state.envs env).pageLastWSIndex
        ((state.envs env).pageWSMaxSize + 1)
        (sweep state env (behind state env 0) (position state env 0)) = _ :=
      secondTrial_none full allUsed (by omega) (by omega)
    rw [back] at swept
    rcases findVictim_cleared full allUsed with ⟨victim, chosen, found⟩
    refine ⟨victim, _, chosen, ?_⟩
    rw [bind_run swept, retry, found]

end Loops

/-! ## The fault handler -/

/-- The working sets of two states are the same. -/
structure SameWorkingSets (before after : State) : Prop where
  elements : ∀ env, (after.envs env).ptrPageWorkingSet = (before.envs env).ptrPageWorkingSet
  size : ∀ env, (after.envs env).pageWSMaxSize = (before.envs env).pageWSMaxSize

theorem SameWorkingSets.andThen {before middle after : State}
    (first : SameWorkingSets before middle)
    (second : SameEnvs middle after) : SameWorkingSets before after := by
  constructor
  · intro env
    rw [second.elements, first.elements]
  · intro env
    rw [second.size, first.size]

theorem Chosen.inside {size hand victim : Nat} {used modified : Nat → Prop}
    {cleared : Finset Nat} (bound : hand < size)
    (chosen : Chosen size hand used modified victim cleared) :
    victim < size ∧ ∀ slot ∈ cleared, slot < size := by
  cases chosen with
  | clean steps first => exact ⟨ahead_lt bound, by simp⟩
  | unused steps dirty first =>
      refine ⟨ahead_lt bound, ?_⟩
      intro slot member
      rcases Finset.mem_image.mp member with ⟨earlier, -, rfl⟩
      exact ahead_lt bound
  | unmodified steps allUsed first => exact ⟨ahead_lt bound, by simp⟩
  | first allUsed allModified => exact ⟨bound, by simp⟩

theorem FullWorkingSet.size {state : State} {env : Nat} (full : FullWorkingSet state env) :
    envPageWsGetSize (state.envs env) = (state.envs env).pageWSMaxSize := by
  have all : (List.range (state.envs env).pageWSMaxSize).filter (fun index =>
      ((state.envs env).ptrPageWorkingSet index).empty = false) =
        List.range (state.envs env).pageWSMaxSize := by
    refine List.filter_eq_self.mpr fun slot member => ?_
    simpa using full.filled slot (List.mem_range.mp member)
  rw [envPageWsGetSize, all, List.length_range]

/-- The faulting page enters the slot of the victim. -/
theorem enterVictim_ok {state middle final : State} {env faultVa victim : Nat}
    {cleared : Finset Nat} (full : FullWorkingSet state env)
    (inside : victim < (state.envs env).pageWSMaxSize)
    (same : SameWorkingSets (taken state env cleared victim) middle)
    (returned : (do
      envPageWsSetEntry env victim faultVa
      setLastWSIndexAfter env victim) middle = .ok ((), final)) :
    (final.envs env).ptrPageWorkingSet =
        Function.update (state.envs env).ptrPageWorkingSet victim
          ⟨roundDown faultVa, false, 0x80000000⟩ ∧
      (final.envs env).pageLastWSIndex = (victim + 1) % (state.envs env).pageWSMaxSize := by
  have size : (middle.envs env).pageWSMaxSize = (state.envs env).pageWSMaxSize := by
    simp [same.size env, taken, State.setEnv, Env.setElement]
  have elements : (middle.envs env).ptrPageWorkingSet =
      Function.update (state.envs env).ptrPageWorkingSet victim .cleared := by
    simp [same.elements env, taken, State.setEnv, Env.setElement]
  rcases bind_ok.mp returned with ⟨_, entered, entering, moving⟩
  have entered_eq := envPageWsSetEntry_ok entering
  have enteredSize : (entered.envs env).pageWSMaxSize = (state.envs env).pageWSMaxSize := by
    simp [entered_eq, State.setEnv, Env.setElement, size]
  have final_eq := setLastWSIndexAfter_ok (by rw [enteredSize]; exact inside)
    (by rw [enteredSize]; exact full.bounded) moving
  constructor
  · simp [final_eq, entered_eq, State.setEnv, Env.setElement, elements]
  · simp [final_eq, State.setEnv, enteredSize]

/-- The handler replaces the victim, in whatever way it gets the faulting page. -/
theorem pageFaultHandler_replaces {state final : State} {env faultVa victim : Nat}
    {cleared : Finset Nat} (full : FullWorkingSet state env)
    (inside : victim < (state.envs env).pageWSMaxSize)
    (found : findVictim env (state.envs env).pageLastWSIndex
        (2 * (state.envs env).pageWSMaxSize + 2) state =
      .ok (victimAt state env victim, taken state env cleared victim))
    (returned : pageFaultHandler env faultVa state = .ok ((), final)) :
    (final.envs env).ptrPageWorkingSet =
        Function.update (state.envs env).ptrPageWorkingSet victim
          ⟨roundDown faultVa, false, 0x80000000⟩ ∧
      (final.envs env).pageLastWSIndex = (victim + 1) % (state.envs env).pageWSMaxSize := by
  replace returned := bind_get_ok.mp returned
  rcases bind_observe_ok.mp returned with ⟨⟨faultFrame, _⟩, -, branched⟩
  rcases ite_ok.mp branched with ⟨room, -⟩ | ⟨-, replaced⟩
  · rw [full.size] at room
    omega
  replace replaced := bind_get_ok.mp replaced
  rw [bind_run found] at replaced
  rcases bind_observe_ok.mp replaced with ⟨⟨frame, _⟩, -, rest⟩
  have start : SameWorkingSets (taken state env cleared victim)
      (taken state env cleared victim) := ⟨fun _ => rfl, fun _ => rfl⟩
  cases frame with
  | none =>
      rcases bind_ok.mp rest with ⟨_, _, thrown, -⟩
      exact absurd thrown (by simp [throw_ok])
  | some frame =>
      rcases bind_ok.mp rest with ⟨_, buffered, buffering, rest⟩
      have same : SameWorkingSets (taken state env cleared victim) buffered :=
        .andThen start (bufferVictim_sameEnvs _ _ _ _ _ _ (.refl _) buffering)
      rcases bind_observe_ok.mp rest with ⟨permissions, -, rest⟩
      rcases ite_ok.mp rest with ⟨-, restored⟩ | ⟨-, loaded⟩
      · rcases bind_ok.mp restored with ⟨_, middle, restoring, entering⟩
        exact enterVictim_ok full inside (.andThen same
          (restorePage_sameEnvs _ _ _ _ _ _ _ (.refl _) restoring)) entering
      · rcases bind_ok.mp loaded with ⟨_, middle, loading, entering⟩
        exact enterVictim_ok full inside (.andThen same
          (loadPage_sameEnvs _ _ _ _ _ (.refl _) loading)) entering

/-! ## Main result -/

/-- On every full working set the search ends with the victim of the modified clock and
clears `PERM_USED` of the slots it has passed, and a fault that is served leaves the page
in the slot of the victim and the hand behind it. -/
theorem modified_clock_replaces {state : State} {env : Nat} (full : FullWorkingSet state env)
    (faultVa : Nat) :
    ∃ victim cleared, Chosen (state.envs env).pageWSMaxSize (state.envs env).pageLastWSIndex
        (Used state env) (Modified state env) victim cleared ∧
      findVictim env (state.envs env).pageLastWSIndex
          (2 * (state.envs env).pageWSMaxSize + 2) state =
        .ok (victimAt state env victim, taken state env cleared victim) ∧
      (∀ slot < (state.envs env).pageWSMaxSize,
        pageEntry (taken state env cleared victim) env (slotAddress state env slot) =
          if slot ∈ cleared then changePerm (slotEntry state env slot) 0 permUsed
          else slotEntry state env slot) ∧
      ∀ final, pageFaultHandler env faultVa state = .ok ((), final) →
        (final.envs env).ptrPageWorkingSet =
            Function.update (state.envs env).ptrPageWorkingSet victim
              ⟨roundDown faultVa, false, 0x80000000⟩ ∧
          (final.envs env).pageLastWSIndex =
            (victim + 1) % (state.envs env).pageWSMaxSize := by
  rcases findVictim_chosen full with ⟨victim, cleared, chosen, found⟩
  rcases chosen.inside full.hand with ⟨inside, within⟩
  refine ⟨victim, cleared, chosen, found, ?_, ?_⟩
  · intro slot bound
    exact sweep_entry full bound within 0
  · intro final returned
    exact pageFaultHandler_replaces full inside found returned

/-- The lookup of a page table succeeds. -/
def tableFound (state : State) (env address : Nat) : Bool :=
  hasPerm (state.pageDirectory (.env env) (pdx address)) permPresent &&
    match tablePointer state (.env env) address with
    | .ok (.kernel table) => kernelFrame state table =
        .ok (frameOf (state.pageDirectory (.env env) (pdx address)))
    | _ => false

theorem tableFound_iff {state : State} {env address : Nat}
    (found : tableFound state env address = true) : TableFound state env address := by
  rcases Bool.and_eq_true_iff.mp found with ⟨present, located⟩
  refine ⟨present, ?_⟩
  split at located
  · next table pointer => exact ⟨table, pointer, by simpa using located⟩
  · cases located

/-- A program with room for one page faults on a page of its heap. -/
def sampleCalls : List Call :=
  [.envCreate 0 sampleProgram 1, .schedule 0, .sysAllocateMem 0x80000000 0x2000,
    .fault 0x80000000]

/-- The stack page is the victim. -/
theorem modified_clock_replaces_stack :
    ∃ state final victim, FullWorkingSet state 0 ∧
      pageFaultHandler 0 0x80000000 state = .ok ((), final) ∧
      (final.envs 0).ptrPageWorkingSet = Function.update (state.envs 0).ptrPageWorkingSet
        victim ⟨0x80000000, false, 0x80000000⟩ := by
  have ran : ((runCalls (fun _ _ => true) sampleCalls sampleState).any fun state =>
      (state.envs 0).pageWSMaxSize = 1 && (state.envs 0).pageLastWSIndex = 0 &&
      ((state.envs 0).ptrPageWorkingSet 0).empty = false && state.startAdd < 2 ^ 32 &&
      tableFound state 0 (slotAddress state 0 0) &&
      (pageFaultHandler 0 0x80000000 state).isOk) = true := by decide +kernel
  rcases (Option.any_eq_true _ _).mp ran with ⟨state, -, holds⟩
  simp only [Bool.and_eq_true, decide_eq_true_eq] at holds
  rcases holds with ⟨⟨⟨⟨⟨size, hand⟩, filled⟩, bounded⟩, found⟩, served⟩
  have only : ∀ slot < (state.envs 0).pageWSMaxSize, slot = 0 := by
    intro slot inside
    omega
  have full : FullWorkingSet state 0 :=
    { bounded := by omega
      startBounded := bounded
      hand := by omega
      filled := by
        intro slot inside
        rw [only slot inside]
        exact filled
      distinct := by
        intro left leftInside right rightInside _
        rw [only left leftInside, only right rightInside]
      table := by
        intro slot inside
        rw [only slot inside]
        exact tableFound_iff found
      tablesApart := by
        intro left leftInside right rightInside _
        rw [only left leftInside, only right rightInside] }
  rcases modified_clock_replaces full 0x80000000 with ⟨victim, cleared, -, -, -, replaced⟩
  cases ended : pageFaultHandler 0 0x80000000 state with
  | error stop =>
      rw [ended] at served
      cases served
  | ok pair => exact ⟨state, pair.2, victim, full, ended, (replaced pair.2 ended).1⟩

end ModifiedClock

end FosKernel
