import FosKernel.Refinement.Boot
import FosKernel.Refinement.Replacement
import FosKernel.System

/-! # The clock hand after a placement

`placement` puts the faulting page into the first empty slot and moves the hand behind
it. `page_fault_handler` then moves the hand again, one slot on from where it stood before
the fault.
-/

namespace FosKernel.ClockHand

open Kernel

/-! ## The hand stays inside the working set -/

/-- The size is a 32-bit word, and the hand of a working set that has slots is one of them. -/
def HandInside (value : Env) : Prop :=
  value.pageWSMaxSize < 2 ^ 32 ∧
    (value.pageWSMaxSize ≠ 0 → value.pageLastWSIndex < value.pageWSMaxSize)

def HandsInside (state : State) : Prop := ∀ env, HandInside (state.envs env)

section Hands

variable {state final : State} {env index : Nat}

theorem HandsInside.sameEnvs (inside : HandsInside state) (same : SameEnvs state final) :
    HandsInside final := by
  intro env
  unfold HandInside
  rw [same.size, same.hand]
  exact inside env

theorem handsInside_ofSame {action : Kernel α}
    (same : ∀ {base}, Preserves (SameEnvs base) action) : Preserves HandsInside action := by
  intro state result final inside returned
  exact inside.sameEnvs (same state result final (.refl state) returned)

theorem handsInside_ofQuiet {action : Kernel α}
    (quiet : ∀ {base}, Preserves (Quiet base) action) : Preserves HandsInside action :=
  handsInside_ofSame (Quiet.sameEnvs quiet)

theorem handsInside_modify {change : State → State}
    (envs : ∀ state, (change state).envs = state.envs) :
    Preserves HandsInside (modify change : Kernel PUnit) :=
  handsInside_ofSame (sameEnvs_modify envs)

theorem HandsInside.setElement (inside : HandsInside state) (element : WorkingSetElement) :
    HandsInside (state.setEnv env ((state.envs env).setElement index element)) := by
  intro other
  by_cases same : other = env
  · rw [same]
    simpa [State.setEnv, Env.setElement, HandInside] using inside env
  · simpa [State.setEnv, same] using inside other

theorem HandsInside.setHand (inside : HandsInside state)
    (slot : index < (state.envs env).pageWSMaxSize) :
    HandsInside (state.setEnv env { state.envs env with pageLastWSIndex := index }) := by
  intro other
  by_cases same : other = env
  · rw [same]
    simpa [State.setEnv, slot, HandInside] using (inside env).1
  · simpa [State.setEnv, same] using inside other

theorem envPageWsSetEntry_handsInside (env index address : Nat) :
    Preserves HandsInside (envPageWsSetEntry env index address) := by
  intro state result final inside returned
  rw [envPageWsSetEntry_ok returned]
  exact inside.setElement _

theorem envPageWsClearEntry_handsInside (env index : Nat) :
    Preserves HandsInside (envPageWsClearEntry env index) := by
  intro state result final inside returned
  rw [(envPageWsClearEntry_ok returned).2]
  exact inside.setElement _

theorem advanceLastWSIndex_handsInside (env : Nat) :
    Preserves HandsInside (advanceLastWSIndex env) := by
  intro state result final inside returned
  replace returned := modify_ok.mp (bind_get_ok.mp returned)
  rw [← returned]
  have bounded := (inside env).1
  by_cases empty : (state.envs env).pageWSMaxSize = 0
  · intro other
    by_cases same : other = env
    · rw [same]
      simp only [State.setEnv, Function.update_self]
      exact ⟨bounded, fun slots => absurd empty slots⟩
    · simpa [State.setEnv, same] using inside other
  · have hand := (inside env).2 empty
    apply inside.setHand
    split
    · exact Nat.pos_of_ne_zero empty
    · omega

/-- The end of both branches of the handler. -/
theorem setLastWSIndexAfter_handsInside (inside : HandsInside state)
    (slot : index < (state.envs env).pageWSMaxSize)
    (returned : setLastWSIndexAfter env index state = .ok ((), final)) : HandsInside final := by
  rw [setLastWSIndexAfter_ok slot (inside env).1 returned]
  exact inside.setHand (Nat.mod_lt _ (by omega))

theorem envPageWsSetEntry_slot {address : Nat}
    (returned : envPageWsSetEntry env index address state = .ok ((), final)) :
    index < (state.envs env).pageWSMaxSize := by
  replace returned := bind_get_ok.mp returned
  rcases ite_ok.mp returned with ⟨-, stopped⟩ | ⟨inside, -⟩
  · rcases bind_ok.mp stopped with ⟨_, _, thrown, -⟩
    exact (throw_ok.mp thrown).elim
  · exact Nat.lt_of_not_le inside

/-! ## Replacement -/

theorem takeVictim_handsInside (env address : Nat) :
    Preserves HandsInside (takeVictim env address) :=
  .bind .get fun _ => .bind (envPageWsClearEntry_handsInside _ _) fun _ =>
    .bind (advanceLastWSIndex_handsInside _) fun _ => .pure _

theorem secondTrial_handsInside (env fp fuel : Nat) :
    Preserves HandsInside (secondTrial env fp fuel) := by
  induction fuel with
  | zero => exact .throw _
  | succ fuel induction =>
      refine .bind .get fun _ => .bind (preserves_observe _) fun _ =>
        .bind (preserves_observe _) fun _ => .ite ?_ ?_
      · exact .bind (handsInside_ofQuiet (ptSetPagePermissions_quiet _ _ _ _)) fun _ =>
          .bind (advanceLastWSIndex_handsInside _) fun _ => .bind .get fun _ =>
            .ite (.pure _) induction
      · exact .bind (takeVictim_handsInside _ _) fun _ => .pure _

theorem findVictim_handsInside (env fp fuel : Nat) :
    Preserves HandsInside (findVictim env fp fuel) := by
  induction fuel with
  | zero => exact .throw _
  | succ fuel induction =>
      refine .bind .get fun _ => .bind (preserves_observe _) fun _ =>
        .bind (preserves_observe _) fun _ => .ite (takeVictim_handsInside _ _) ?_
      refine .bind (advanceLastWSIndex_handsInside _) fun _ => .bind .get fun _ =>
        .ite (.bind (secondTrial_handsInside _ _ _) fun found => ?_) induction
      cases found with
      | none => exact induction
      | some victim => exact .pure _

/-- The faulting page takes the slot of the victim, which is checked then. -/
theorem enterPage_handsInside (env index address : Nat) :
    Preserves HandsInside (do
      envPageWsSetEntry env index address
      setLastWSIndexAfter env index) := by
  intro state result final inside returned
  rcases bind_ok.mp returned with ⟨_, entered, entering, moving⟩
  apply setLastWSIndexAfter_handsInside _ _ moving
  · exact envPageWsSetEntry_handsInside env index address state () entered inside entering
  · rw [envPageWsSetEntry_ok entering]
    simpa [State.setEnv, Env.setElement] using envPageWsSetEntry_slot entering

theorem replacementBranch_handsInside (env faultVa : Nat) (faultFrame : Option Nat) :
    Preserves HandsInside (replacementBranch env faultVa faultFrame) := by
  have fetched : ∀ index, Preserves HandsInside (do
      let permissions ← observe fun state => ptGetPagePermissions state env faultVa
      if hasPerm permissions permBuffered then restorePage env faultVa permissions faultFrame
      else loadPage env faultVa
      envPageWsSetEntry env index faultVa
      setLastWSIndexAfter env index) := fun index =>
    .bind (preserves_observe _) fun _ =>
      .ite (.bind (handsInside_ofSame (restorePage_sameEnvs _ _ _ _)) fun _ =>
          enterPage_handsInside _ _ _)
        (.bind (handsInside_ofSame (loadPage_sameEnvs _ _)) fun _ => enterPage_handsInside _ _ _)
  refine .bind .get fun _ => .bind (findVictim_handsInside _ _ _) fun victim =>
    .bind (preserves_observe _) fun found => ?_
  rcases found with ⟨frame, _⟩
  cases frame with
  | none => exact .bind (.throw _) fun _ => fetched _
  | some frame =>
      exact .bind (handsInside_ofSame (bufferVictim_sameEnvs _ _ _)) fun _ => fetched _

/-! ## Placement -/

/-- The empty slot with the lowest number. -/
structure FirstEmpty (value : Env) (slot : Nat) : Prop where
  inside : slot < value.pageWSMaxSize
  empty : (value.ptrPageWorkingSet slot).empty = true
  filled : ∀ earlier < slot, (value.ptrPageWorkingSet earlier).empty = false

theorem FirstEmpty.unique {value : Env} {left right : Nat} (leftFirst : FirstEmpty value left)
    (rightFirst : FirstEmpty value right) : left = right := by
  cases Nat.lt_trichotomy left right with
  | inl less =>
      have filled := rightFirst.filled left less
      rw [leftFirst.empty] at filled
      contradiction
  | inr rest =>
      cases rest with
      | inl equal => exact equal
      | inr greater =>
          have filled := leftFirst.filled right greater
          rw [rightFirst.empty] at filled
          contradiction

theorem firstEmpty_of_room {value : Env} (room : envPageWsGetSize value < value.pageWSMaxSize) :
    ∃ slot, FirstEmpty value slot := by
  have some : ∃ slot, slot < value.pageWSMaxSize ∧
      (value.ptrPageWorkingSet slot).empty = true := by
    by_contra none
    have all : (List.range value.pageWSMaxSize).filter (fun index =>
        (value.ptrPageWorkingSet index).empty = false) = List.range value.pageWSMaxSize := by
      apply List.filter_eq_self.mpr
      intro slot member
      by_contra empty
      exact none ⟨slot, List.mem_range.mp member, by simpa using empty⟩
    rw [envPageWsGetSize, all, List.length_range] at room
    exact Nat.lt_irrefl _ room
  have found := Nat.find_spec some
  refine ⟨Nat.find some, found.1, found.2, ?_⟩
  intro earlier less
  have notEmpty := Nat.find_min some less
  have inside : earlier < value.pageWSMaxSize := less.trans found.1
  by_contra empty
  exact notEmpty ⟨inside, by simpa using empty⟩

/-- A page has been put into a slot. -/
structure Placed (state : State) (env slot address : Nat) (final : State) : Prop where
  elements : (final.envs env).ptrPageWorkingSet =
    Function.update (state.envs env).ptrPageWorkingSet slot ⟨roundDown address, false, 0x80000000⟩
  size : (final.envs env).pageWSMaxSize = (state.envs env).pageWSMaxSize

theorem Placed.sameEnvs {middle : State} {slot address : Nat}
    (placed : Placed state env slot address middle) (same : SameEnvs middle final) :
    Placed state env slot address final where
  elements := by rw [same.elements, placed.elements]
  size := by rw [same.size, placed.size]

/-- The loop of `placement` stops at the first empty slot. -/
theorem placeInWorkingSet_placed {start count slot address : Nat}
    (first : FirstEmpty (state.envs env) slot) (lower : start ≤ slot)
    (upper : slot < start + count)
    (returned : placeInWorkingSet env address (List.range' start count) state = .ok ((), final)) :
    Placed state env slot address final := by
  induction count generalizing start with
  | zero => omega
  | succ count induction =>
      replace returned := bind_get_ok.mp returned
      rcases ite_ok.mp returned with ⟨empty, placed⟩ | ⟨notEmpty, rest⟩
      · have here : start = slot := by
          by_contra different
          rw [first.filled start (by omega)] at empty
          contradiction
        rcases bind_ok.mp placed with ⟨_, entered, entering, moving⟩
        have moved := modify_ok.mp moving
        rw [envPageWsSetEntry_ok entering, here] at moved
        constructor
        · simp [← moved, State.setEnv, Env.setElement]
        · simp [← moved, State.setEnv, Env.setElement]
      · have different : start ≠ slot := by
          intro here
          rw [here] at notEmpty
          exact notEmpty first.empty
        exact induction (by omega) (by omega) rest

theorem roundDown_roundDown (address : Nat) :
    roundDown (roundDown address) = roundDown address := by
  unfold roundDown
  omega

theorem placement_placed {slot faultVa : Nat} (first : FirstEmpty (state.envs env) slot)
    (returned : placement env faultVa state = .ok ((), final)) :
    Placed state env slot faultVa final := by
  have placed : ∀ {middle address}, SameEnvs state middle → roundDown address = roundDown faultVa →
      placeInWorkingSet env address (List.range (middle.envs env).pageWSMaxSize) middle =
        .ok ((), final) → Placed state env slot faultVa final := by
    intro middle address same page returned
    have firstNow : FirstEmpty (middle.envs env) slot := by
      constructor
      · rw [same.size]
        exact first.inside
      · rw [same.elements]
        exact first.empty
      · rw [same.elements]
        exact first.filled
    rw [List.range_eq_range'] at returned
    have done := placeInWorkingSet_placed firstNow (Nat.zero_le _)
      (by simpa using firstNow.inside) returned
    constructor
    · rw [done.elements, same.elements, page]
    · rw [done.size, same.size]
  rcases bind_ok.mp returned with ⟨frame, allocated, allocating, returned⟩
  have one := Quiet.sameEnvs allocateFrame_quiet _ _ _ (.refl state) allocating
  rcases bind_ok.mp returned with ⟨_, mapped, mapping, returned⟩
  have two := Quiet.sameEnvs (mapFrame_quiet _ _ _ _) _ _ _ one mapping
  rcases bind_ok.mp returned with ⟨code, read, reading, returned⟩
  have three := Quiet.sameEnvs (pfReadEnvPage_quiet _ _) _ _ _ two reading
  rcases ite_ok.mp returned with ⟨missing, returned⟩ | ⟨found, returned⟩
  · rw [if_pos missing] at returned
    rcases ite_ok.mp returned with ⟨-, returned⟩ | ⟨-, stopped⟩
    · rcases bind_ok.mp returned with ⟨_, added, adding, returned⟩
      have four := Quiet.sameEnvs (pfAddEmptyEnvPage_quiet _ _ _) _ _ _ three adding
      exact placed four (roundDown_roundDown faultVa) (bind_get_ok.mp returned)
    · rcases bind_ok.mp stopped with ⟨_, _, thrown, -⟩
      exact (throw_ok.mp thrown).elim
  · rw [if_neg found] at returned
    exact placed three rfl (bind_get_ok.mp returned)

/-- The second look at the page file and the last move of the hand. -/
theorem placementBranch_ok {lastIDX slot faultVa : Nat} (first : FirstEmpty (state.envs env) slot)
    (bounded : (state.envs env).pageWSMaxSize < 2 ^ 32)
    (hand : lastIDX < (state.envs env).pageWSMaxSize)
    (returned : placementBranch env faultVa lastIDX state = .ok ((), final)) :
    Placed state env slot faultVa final ∧
      (final.envs env).pageLastWSIndex = (lastIDX + 1) % (state.envs env).pageWSMaxSize := by
  have moved : ∀ {middle}, Placed state env slot faultVa middle →
      setLastWSIndexAfter env lastIDX middle = .ok ((), final) →
      Placed state env slot faultVa final ∧
        (final.envs env).pageLastWSIndex = (lastIDX + 1) % (state.envs env).pageWSMaxSize := by
    intro middle placed moving
    have final_eq := setLastWSIndexAfter_ok (by rw [placed.size]; exact hand)
      (by rw [placed.size]; exact bounded) moving
    rw [placed.size] at final_eq
    rw [final_eq]
    refine ⟨⟨?_, ?_⟩, ?_⟩
    · simpa [State.setEnv] using placed.elements
    · simpa [State.setEnv] using placed.size
    · simp [State.setEnv]
  rcases bind_ok.mp returned with ⟨_, middle, placing, returned⟩
  have placed := placement_placed first placing
  rcases bind_observe_ok.mp returned with ⟨permissions, -, returned⟩
  rcases ite_ok.mp returned with ⟨-, returned⟩ | ⟨-, moving⟩
  · rcases bind_ok.mp returned with ⟨code, read, reading, returned⟩
    have again := placed.sameEnvs
      (Quiet.sameEnvs (pfReadEnvPage_quiet _ _) _ _ _ (.refl middle) reading)
    rcases ite_ok.mp returned with ⟨-, returned⟩ | ⟨-, moving⟩
    · rcases ite_ok.mp returned with ⟨-, returned⟩ | ⟨-, stopped⟩
      · rcases bind_ok.mp returned with ⟨_, added, adding, moving⟩
        exact moved (again.sameEnvs
          (Quiet.sameEnvs (pfAddEmptyEnvPage_quiet _ _ _) _ _ _ (.refl read) adding)) moving
      · rcases bind_ok.mp stopped with ⟨_, _, thrown, -⟩
        exact (throw_ok.mp thrown).elim
    · exact moved again moving
  · exact moved placed moving

/-! ## Every call keeps the hands inside -/

/-- Hands are inside, and the working set of the environment has a size. -/
def Sized (env size : Nat) (state : State) : Prop :=
  HandsInside state ∧ (state.envs env).pageWSMaxSize = size

theorem sized_ofQuiet {size : Nat} {action : Kernel α}
    (quiet : ∀ {base}, Preserves (Quiet base) action) : Preserves (Sized env size) action := by
  intro state result final sized returned
  have same := Quiet.sameEnvs quiet state result final (.refl state) returned
  refine ⟨sized.1.sameEnvs same, ?_⟩
  rw [same.size, sized.2]

theorem placeInWorkingSet_sized (env size address : Nat) (indices : List Nat) :
    Preserves (Sized env size) (placeInWorkingSet env address indices) := by
  induction indices with
  | nil => exact .pure _
  | cons index indices induction =>
      intro state result final sized returned
      rcases ite_ok.mp (bind_get_ok.mp returned) with ⟨-, placed⟩ | ⟨-, rest⟩
      · rcases bind_ok.mp placed with ⟨_, entered, entering, moving⟩
        have slot := envPageWsSetEntry_slot entering
        have inside := envPageWsSetEntry_handsInside env index address state () entered sized.1
          entering
        have same : (entered.envs env).pageWSMaxSize = (state.envs env).pageWSMaxSize := by
          rw [envPageWsSetEntry_ok entering]
          simp [State.setEnv, Env.setElement]
        have next : (if index + 1 = (state.envs env).pageWSMaxSize then 0 else index + 1) <
            (entered.envs env).pageWSMaxSize := by
          rw [same]
          split <;> omega
        rw [← modify_ok.mp moving]
        refine ⟨inside.setHand next, ?_⟩
        simpa [State.setEnv, same] using sized.2
      · exact induction state result final sized rest

theorem placement_sized (env size faultVa : Nat) :
    Preserves (Sized env size) (placement env faultVa) := by
  refine .bind (sized_ofQuiet allocateFrame_quiet) fun _ =>
    .bind (sized_ofQuiet (mapFrame_quiet _ _ _ _)) fun _ =>
      .bind (sized_ofQuiet (pfReadEnvPage_quiet _ _)) fun _ => ?_
  have placed : ∀ address, Preserves (Sized env size) (do
      placeInWorkingSet env address
        (List.range ((← getThe State).envs env).pageWSMaxSize) : Kernel Unit) :=
    fun address => .bind .get fun _ => placeInWorkingSet_sized _ _ _ _
  refine .ite (.ite ?_ ?_) (placed _)
  · exact .bind (sized_ofQuiet (pfAddEmptyEnvPage_quiet _ _ _)) fun _ => placed _
  · exact .bind (.throw _) fun _ => placed _

theorem placementBranch_handsInside {lastIDX faultVa : Nat} (inside : HandsInside state)
    (hand : lastIDX < (state.envs env).pageWSMaxSize)
    (returned : placementBranch env faultVa lastIDX state = .ok ((), final)) :
    HandsInside final := by
  have ended : ∀ {middle}, Sized env (state.envs env).pageWSMaxSize middle →
      setLastWSIndexAfter env lastIDX middle = .ok ((), final) → HandsInside final := by
    intro middle sized moving
    exact setLastWSIndexAfter_handsInside sized.1 (by rw [sized.2]; exact hand) moving
  rcases bind_ok.mp returned with ⟨_, middle, placing, returned⟩
  have placed := placement_sized env _ faultVa state () middle ⟨inside, rfl⟩ placing
  rcases bind_observe_ok.mp returned with ⟨permissions, -, returned⟩
  rcases ite_ok.mp returned with ⟨-, returned⟩ | ⟨-, moving⟩
  · rcases bind_ok.mp returned with ⟨code, read, reading, returned⟩
    have again := sized_ofQuiet (pfReadEnvPage_quiet _ _) _ _ _ placed reading
    rcases ite_ok.mp returned with ⟨-, returned⟩ | ⟨-, moving⟩
    · rcases ite_ok.mp returned with ⟨-, returned⟩ | ⟨-, stopped⟩
      · rcases bind_ok.mp returned with ⟨_, added, adding, moving⟩
        exact ended (sized_ofQuiet (pfAddEmptyEnvPage_quiet _ _ _) _ _ _ again adding) moving
      · rcases bind_ok.mp stopped with ⟨_, _, thrown, -⟩
        exact (throw_ok.mp thrown).elim
    · exact ended again moving
  · exact ended placed moving

theorem pageFaultHandler_handsInside (env faultVa : Nat) :
    Preserves HandsInside (pageFaultHandler env faultVa) := by
  intro state result final inside returned
  replace returned := bind_get_ok.mp returned
  rcases bind_observe_ok.mp returned with ⟨_, -, returned⟩
  rcases ite_ok.mp returned with ⟨room, placed⟩ | ⟨-, replaced⟩
  · exact placementBranch_handsInside inside ((inside env).2 (by omega)) placed
  · exact replacementBranch_handsInside _ _ _ _ _ _ inside replaced

theorem faultHandler_handsInside (faultVa : Nat) :
    Preserves HandsInside (faultHandler faultVa) := by
  have handled : Preserves HandsInside (do
      let state ← get
      let env := state.curenv
      if ¬hasPerm (state.pageDirectory (.env env) (pdx faultVa)) permPresent then
        tableFaultHandler env faultVa
      else if state.enableBuffering then
        throw (.panic "this function is not required...!!")
      else pageFaultHandler env faultVa) :=
    .bind .get fun _ => .ite
      (.bind (handsInside_ofQuiet (createPageTable_quiet _ _)) fun _ => .pure _)
      (.ite (.throw _) (pageFaultHandler_handsInside _ _))
  exact .ite (.bind (.throw _) fun _ => handled) handled

theorem allocateMem_handsInside (env address size : Nat) :
    Preserves HandsInside (allocateMem env address size) :=
  preserves_forEach (fun _ => .bind (handsInside_ofQuiet (pfAddEmptyEnvPage_quiet _ _ _))
    fun _ => .pure _) _

theorem removeFromWorkingSet_handsInside (env address : Nat) (indices : List Nat) :
    Preserves HandsInside (removeFromWorkingSet env address indices) := by
  induction indices with
  | nil => exact .pure _
  | cons index indices induction =>
      exact .bind (preserves_observe _) fun _ =>
        .ite (envPageWsClearEntry_handsInside _ _) induction

theorem removePageTable_handsInside (env address : Nat) (pointer : TablePointer) :
    Preserves HandsInside (removePageTable env address pointer) :=
  .bind (preserves_observe _) fun _ => .bind (preserves_observe _) fun _ =>
    .bind (handsInside_modify fun _ => rfl) fun _ =>
      .bind (handsInside_ofQuiet (freeFrame_quiet _)) fun _ => handsInside_modify fun _ => rfl

theorem freeMem_handsInside (env address size : Nat) :
    Preserves HandsInside (freeMem env address size) := by
  have page : ∀ address, Preserves HandsInside (freeMemPage env address) := by
    intro address
    refine .bind (handsInside_ofQuiet (pfRemoveEnvPage_quiet _ _)) fun _ => .bind .get fun _ =>
      .bind (removeFromWorkingSet_handsInside _ _ _) fun _ =>
        .bind (handsInside_ofQuiet (unmapFrame_quiet _ _)) fun _ =>
          .bind (preserves_observe _) fun found => ?_
    rcases found with ⟨status, pointer⟩
    exact .ite (.bind (preserves_observe _) fun _ =>
      .ite (removePageTable_handsInside _ _ _) (.pure _)) (.pure _)
  exact .bind (preserves_forEach (fun _ => page _) _) fun _ => .ite (.throw _) (.pure _)

/-! ## Creation of environments -/

/-- The other environments are as they should be, and the new one has its size. -/
def Created (env size : Nat) (state : State) : Prop :=
  (∀ other, other ≠ env → HandInside (state.envs other)) ∧ (state.envs env).pageWSMaxSize = size

theorem created_loading (env size : Nat) : Loading env (Created env size) where
  quiet := by
    intro before after quiet created
    have same : SameEnvs before after := quiet.envs
    constructor
    · intro other different
      have inside := created.1 other different
      unfold HandInside at inside ⊢
      rwa [same.size, same.hand]
    · rw [same.size, created.2]
  record := by
    intro state value sameSize created
    constructor
    · intro other different
      simpa [State.setEnv, different] using created.1 other different
    · simp [State.setEnv, sameSize, created.2]

theorem Created.handsInside {size : Nat} (created : Created env size state)
    (own : HandInside (state.envs env)) : HandsInside state := by
  intro other
  by_cases same : other = env
  · rw [same]
    exact own
  · exact created.1 other same

theorem nextLastWSIndex_ok (returned : nextLastWSIndex env state = .ok ((), final)) :
    (state.envs env).pageWSMaxSize ≠ 0 ∧
      final = state.setEnv env
        { state.envs env with
          pageLastWSIndex :=
            ((state.envs env).pageLastWSIndex + 1) % (state.envs env).pageWSMaxSize } := by
  replace returned := bind_get_ok.mp returned
  rcases ite_ok.mp returned with ⟨-, stopped⟩ | ⟨nonzero, moving⟩
  · rcases bind_ok.mp stopped with ⟨_, _, thrown, -⟩
    exact (throw_ok.mp thrown).elim
  · exact ⟨nonzero, (modify_ok.mp moving).symm⟩

/-- The stack page is the last one that is put into the new working set. -/
theorem loadStack_handsInside {size : Nat} (bounded : size < 2 ^ 32)
    (created : Created env size state) (returned : loadStack env state = .ok ((), final)) :
    HandsInside final := by
  have loading := created_loading env size
  rcases bind_ok.mp returned with ⟨frame, one, allocating, returned⟩
  replace created := loading.ofQuiet allocateFrame_quiet _ _ _ created allocating
  rcases bind_ok.mp returned with ⟨_, two, mapping, returned⟩
  replace created := loading.loadtimeMapFrame _ _ _ _ _ _ _ created mapping
  rcases bind_ok.mp returned with ⟨_, three, writing, returned⟩
  replace created := loading.ofQuiet (writeUserPage_quiet _ _ _) _ _ _ created writing
  rcases bind_ok.mp (bind_get_ok.mp returned) with ⟨_, four, entering, returned⟩
  replace created := loading.envPageWsSetEntry _ _ _ _ _ created entering
  rcases bind_ok.mp returned with ⟨_, five, moving, returned⟩
  rcases nextLastWSIndex_ok moving with ⟨nonzero, moved⟩
  have inside : HandInside (five.envs env) := by
    have slot := Nat.mod_lt ((four.envs env).pageLastWSIndex + 1) (Nat.pos_of_ne_zero nonzero)
    have size := created.2
    rw [moved]
    constructor
    · simpa [State.setEnv, size] using bounded
    · simpa [State.setEnv] using fun _ => slot
  replace created := loading.nextLastWSIndex _ _ _ created moving
  rcases bind_ok.mp returned with ⟨_, six, adding, ended⟩
  rw [← (pure_ok.mp ended).2]
  exact handsInside_ofQuiet (pfAddEmptyEnvPage_quiet _ _ _) _ _ _ (created.handsInside inside)
    adding

theorem envCreate_handsInside {program : Program} {size : Nat} (inside : HandsInside state)
    (bounded : size < 2 ^ 32) (returned : envCreate env program size state = .ok ((), final)) :
    HandsInside final := by
  replace returned := bind_modify_ok.mp returned
  have named : HandsInside (state.setEnv env { state.envs env with progName := program.name }) := by
    intro other
    by_cases same : other = env
    · rw [same]
      simpa [State.setEnv, HandInside] using inside env
    · simpa [State.setEnv, same] using inside other
  rcases bind_ok.mp returned with ⟨address, one, directory, returned⟩
  have opened : HandsInside one := by
    refine Preserves.bind (handsInside_ofQuiet (kmalloc_quiet _)) (fun _ => ?_) _ _ _ named
      directory
    exact .ite (.bind (.throw _) fun _ => .pure _) (.pure _)
  rcases bind_observe_ok.mp returned with ⟨frame, -, returned⟩
  replace returned := bind_modify_ok.mp returned
  have loading := created_loading env size
  have created : Created env size
      (one.setEnv env { one.envs env with pageWSMaxSize := size }) := by
    constructor
    · intro other different
      simpa [State.setEnv, different] using opened other
    · simp [State.setEnv]
  rcases bind_ok.mp returned with ⟨_, two, initializing, returned⟩
  replace created := loading.initializeEnvironment _ _ _ _ _ created initializing
  rcases bind_ok.mp returned with ⟨_, three, loadingSegments, returned⟩
  replace created := loading.loadSegments _ _ _ _ _ _ created loadingSegments
  rcases bind_ok.mp returned with ⟨_, four, clearing, stack⟩
  replace created := loading.clearModified _ _ _ _ created clearing
  exact loadStack_handsInside bounded created stack

/-! ## Runs -/

theorem schedInsertExit_handsInside (env : Nat) :
    Preserves HandsInside (schedInsertExit env) := by
  have cleaned : ∀ {base}, ∀ frame, Preserves (SameEnvs base) (cleanupFrame env frame) := by
    intro base frame
    refine .bind .get fun _ => .ite ?_ (.pure _)
    exact .bind (Quiet.sameEnvs (ptClearPageTableEntry_quiet _ _)) fun _ =>
      .bind (sameEnvs_modify fun _ => rfl) fun _ => Quiet.sameEnvs (freeFrame_quiet _)
  exact .bind .get fun _ => .ite
    (.bind .get fun _ => handsInside_ofSame (forEachModified_sameEnvs cleaned _ _)) (.pure _)

theorem initializePaging_handsInside (kernelFrames : Nat) :
    Preserves HandsInside (initializePaging kernelFrames) := by
  have counted : ∀ frames, Preserves HandsInside (Kernel.forEach (setReferences 1) frames) :=
    preserves_forEach fun frame => handsInside_modify fun _ => rfl
  have freed : ∀ frames, Preserves HandsInside (Kernel.forEach freeFrame frames) :=
    preserves_forEach fun frame => handsInside_ofQuiet (freeFrame_quiet frame)
  refine .bind (handsInside_modify fun _ => rfl) fun _ =>
    .bind (handsInside_modify fun _ => rfl) fun _ => .bind (counted _) fun _ =>
      .bind (handsInside_modify fun _ => rfl) fun _ => .bind (freed _) fun _ =>
        .bind (counted _) fun _ => .bind (counted _) fun _ => .bind .get fun _ =>
          .bind (freed _) fun _ => ?_
  refine .bind (handsInside_modify fun _ => rfl) fun _ => preserves_forEach (fun _ => ?_) _
  exact .bind (handsInside_modify fun _ => rfl) fun _ => handsInside_modify fun _ => rfl

/-- The size of a working set is a 32-bit word. -/
def SizeIsWord : Call → Prop
  | .envCreate _ _ pageWSSize => pageWSSize < 2 ^ 32
  | _ => True

instance : DecidablePred SizeIsWord
  | .envCreate _ _ pageWSSize => inferInstanceAs (Decidable (pageWSSize < 2 ^ 32))
  | .allocateFrame | .freeFrame _ | .mapFrame _ _ _ _ | .unmapFrame _ _ | .kmalloc _
  | .kfree _ | .schedule _ | .fault _ | .sysAllocateMem _ _ | .sysFreeMem _ _ | .read _
  | .write _ _ | .exit _ => inferInstanceAs (Decidable True)

theorem discard_handsInside {action : Kernel α} (kept : Preserves HandsInside action) :
    Preserves HandsInside (discard action) := .bind kept fun _ => .pure ()

theorem call_handsInside {call : Call} (inside : HandsInside state) (word : SizeIsWord call)
    (returned : call.run state = .ok ((), final)) : HandsInside final := by
  cases call with
  | allocateFrame =>
      exact discard_handsInside (handsInside_ofQuiet allocateFrame_quiet) _ _ _ inside returned
  | freeFrame frame => exact handsInside_ofQuiet (freeFrame_quiet _) _ _ _ inside returned
  | mapFrame env frame address perm =>
      exact handsInside_ofQuiet (mapFrame_quiet _ _ _ _) _ _ _ inside returned
  | unmapFrame env address =>
      exact handsInside_ofQuiet (unmapFrame_quiet _ _) _ _ _ inside returned
  | kmalloc size =>
      exact discard_handsInside (handsInside_ofQuiet (kmalloc_quiet size)) _ _ _ inside returned
  | kfree address => exact handsInside_ofQuiet (kfree_quiet _) _ _ _ inside returned
  | envCreate env program pageWSSize => exact envCreate_handsInside inside word returned
  | schedule env =>
      rw [← modify_ok.mp returned]
      exact inside
  | fault address => exact faultHandler_handsInside address _ _ _ inside returned
  | sysAllocateMem address size =>
      exact Preserves.bind .get (fun _ => allocateMem_handsInside _ _ _) _ _ _ inside returned
  | sysFreeMem address size =>
      exact Preserves.bind .get (fun _ => .ite (.pure _) (freeMem_handsInside _ _ _)) _ _ _
        inside returned
  | read address =>
      refine Preserves.bind .get (fun _ => discard_handsInside ?_) _ _ _ inside returned
      exact .bind (preserves_observe _) fun _ =>
        .bind (handsInside_modify fun _ => rfl) fun _ => .bind .get fun _ => .pure _
  | write address word =>
      refine Preserves.bind .get (fun _ => ?_) _ _ _ inside returned
      exact .bind (preserves_observe _) fun _ =>
        .ite (.bind (.throw _) fun _ => handsInside_ofQuiet (writeUserPage_quiet _ _ _))
          (handsInside_ofQuiet (writeUserPage_quiet _ _ _))
  | exit env => exact schedInsertExit_handsInside _ _ _ _ inside returned

end Hands

section Hand

variable {layout : BootLayout} {contents : BootContents} {state final : State}
variable {env faultVa : Nat}

theorem reachable_handsInside
    (reachable : Reachable layout contents (fun _ call => SizeIsWord call) state) :
    HandsInside state := by
  induction reachable with
  | boot returned =>
      apply initializePaging_handsInside _ _ _ _ _ returned
      intro env
      exact ⟨Nat.two_pow_pos 32, fun slots => absurd rfl slots⟩
  | call _ word returned induction => exact call_handsInside induction word returned

/-- The page is in the first empty slot, the other slots are as they were, and the hand is
behind the page. -/
def FollowsSlot (state : State) (env faultVa : Nat) (final : State) : Prop :=
  ∃ slot, FirstEmpty (state.envs env) slot ∧
    (final.envs env).ptrPageWorkingSet =
      Function.update (state.envs env).ptrPageWorkingSet slot
        ⟨roundDown faultVa, false, 0x80000000⟩ ∧
    (final.envs env).pageLastWSIndex = (slot + 1) % (state.envs env).pageWSMaxSize

theorem next_injective {size left right : Nat} (leftInside : left < size)
    (rightInside : right < size) (equal : (left + 1) % size = (right + 1) % size) :
    left = right := by
  have leftNext := Nat.mod_add_div (left + 1) size
  have rightNext := Nat.mod_add_div (right + 1) size
  by_cases leftLast : left + 1 = size
  · by_cases rightLast : right + 1 = size
    · omega
    · rw [leftLast, Nat.mod_self, Nat.mod_eq_of_lt (by omega)] at equal
      omega
  · rw [Nat.mod_eq_of_lt (show left + 1 < size by omega)] at equal
    by_cases rightLast : right + 1 = size
    · rw [rightLast, Nat.mod_self] at equal
      omega
    · rw [Nat.mod_eq_of_lt (by omega)] at equal
      omega

/-- After a fault that finds an empty slot the hand follows the slot that was filled if and
only if it stood at that slot before. -/
theorem follows_slot_iff
    (reachable : Reachable layout contents (fun _ call => SizeIsWord call) state)
    (room : envPageWsGetSize (state.envs env) < (state.envs env).pageWSMaxSize)
    (returned : pageFaultHandler env faultVa state = .ok ((), final)) :
    FollowsSlot state env faultVa final ↔
      FirstEmpty (state.envs env) (state.envs env).pageLastWSIndex := by
  have bounded := (reachable_handsInside reachable env).1
  have hand := (reachable_handsInside reachable env).2 (by omega)
  rcases firstEmpty_of_room room with ⟨slot, first⟩
  replace returned := bind_get_ok.mp returned
  rcases bind_observe_ok.mp returned with ⟨_, -, returned⟩
  rcases ite_ok.mp returned with ⟨-, branch⟩ | ⟨full, -⟩
  · rcases placementBranch_ok first bounded hand branch with ⟨placed, moved⟩
    constructor
    · rintro ⟨filled, firstToo, -, follows⟩
      rw [moved] at follows
      rw [next_injective hand firstToo.inside follows]
      exact firstToo
    · intro atHand
      rw [first.unique atHand] at placed
      exact ⟨_, atHand, placed.elements, moved⟩
  · exact absurd room full

end Hand

/-! ## Runs of one program -/

/-- Two pages of the user heap are brought in. -/
def touchCalls : List Call :=
  [.envCreate 0 sampleProgram 5, .schedule 0, .sysAllocateMem 0x80000000 0x4000,
    .fault 0x80000000, .fault 0x80000000, .fault 0x80001000]

theorem sample_reachable {calls : List Call} {state : State}
    (ran : runCalls (fun _ call => decide (SizeIsWord call)) calls sampleState = some state) :
    Reachable sampleLayout sampleContents (fun _ call => SizeIsWord call) state :=
  .calls (by simp) (.boot sample_boots) ran

/-- Without a hole the pages fill up the working set in order. -/
theorem follows_slot_in_order :
    ∃ state final, Reachable sampleLayout sampleContents (fun _ call => SizeIsWord call) state ∧
      pageFaultHandler 0 0x80002000 state = .ok ((), final) ∧
      FollowsSlot state 0 0x80002000 final := by
  have ran : ((runCalls (fun _ call => decide (SizeIsWord call)) touchCalls sampleState).any
      fun state => envPageWsGetSize (state.envs 0) = 4 && (state.envs 0).pageWSMaxSize = 5 &&
        (state.envs 0).pageLastWSIndex = 4 && ((state.envs 0).ptrPageWorkingSet 4).empty &&
        ((List.range 4).all fun slot => !((state.envs 0).ptrPageWorkingSet slot).empty) &&
        (pageFaultHandler 0 0x80002000 state).isOk) = true := by decide +kernel
  rcases (Option.any_eq_true _ _).mp ran with ⟨state, reached, holds⟩
  simp only [Bool.and_eq_true, decide_eq_true_eq, List.all_eq_true, List.mem_range] at holds
  rcases holds with ⟨⟨⟨⟨⟨filled, size⟩, hand⟩, empty⟩, before⟩, served⟩
  cases ended : pageFaultHandler 0 0x80002000 state with
  | error stop =>
      rw [ended] at served
      cases served
  | ok pair =>
      refine ⟨state, pair.2, sample_reachable reached, ended, ?_⟩
      apply (follows_slot_iff (sample_reachable reached) (by omega) ended).mpr
      rw [hand]
      exact ⟨by omega, empty, fun earlier less => by simpa using before earlier less⟩

/-- The hole that `freeMem` leaves is filled, and the hand moves on from where it was. -/
theorem hand_leaves_filled_hole :
    ∃ state final, Reachable sampleLayout sampleContents (fun _ call => SizeIsWord call) state ∧
      envPageWsGetSize (state.envs 0) < (state.envs 0).pageWSMaxSize ∧
      pageFaultHandler 0 0x80002000 state = .ok ((), final) ∧
      ¬FollowsSlot state 0 0x80002000 final := by
  have ran : ((runCalls (fun _ call => decide (SizeIsWord call))
      (touchCalls ++ [.sysFreeMem 0x80000000 4096]) sampleState).any
      fun state => envPageWsGetSize (state.envs 0) = 3 && (state.envs 0).pageWSMaxSize = 5 &&
        ((state.envs 0).ptrPageWorkingSet 2).empty &&
        ((List.range 2).all fun slot => !((state.envs 0).ptrPageWorkingSet slot).empty) &&
        (pageFaultHandler 0 0x80002000 state).toOption.any fun result =>
          (result.2.envs 0).pageLastWSIndex = 0) = true := by decide +kernel
  rcases (Option.any_eq_true _ _).mp ran with ⟨state, reached, holds⟩
  simp only [Bool.and_eq_true, decide_eq_true_eq, List.all_eq_true, List.mem_range] at holds
  rcases holds with ⟨⟨⟨⟨filled, size⟩, empty⟩, before⟩, served⟩
  cases ended : pageFaultHandler 0 0x80002000 state with
  | error stop =>
      rw [ended] at served
      cases served
  | ok pair =>
      rw [ended] at served
      have home : (pair.2.envs 0).pageLastWSIndex = 0 := of_decide_eq_true served
      refine ⟨state, pair.2, sample_reachable reached, by omega, ended, ?_⟩
      rintro ⟨slot, first, -, follows⟩
      have hole : FirstEmpty (state.envs 0) 2 :=
        ⟨by omega, empty, fun earlier less => by simpa using before earlier less⟩
      rw [first.unique hole, size] at follows
      omega

end FosKernel.ClockHand
