import FosKernel.Refinement.Replacement
import FosKernel.Properties.FreshPages

/-! # Invalid accesses

A fault on a page that is nowhere is an invalid access unless the page belongs to the stack.
The replacement branch tests the bounds of the stack. `placement` tests `USER_HEAP_MAX`
instead of `USTACKBOTTOM` and writes a zero page to the page file, which the second test
then finds there.
-/

namespace FosKernel.InvalidAccess

open Kernel PageContents FreshPages
open AllocatePage (LimitTable)

/-! ## A page that is nowhere -/

/-- No frame records a page. -/
def Unowned (state : State) : Prop :=
  ∀ frame, (state.framesInfo frame).environment = none ∧ (state.framesInfo frame).va = 0

/-- A page of the environment has a page table, but neither a frame nor a disk frame. -/
structure Vacant (ghost : Ghost) (env address : Nat) (state : State) : Prop where
  layout : HeapLayout state.view
  placement : Placement ghost state.view
  table : hasPerm (directoryEntry state env address) permPresent = true
  empty : state.view.entry (.user env (ppn address)) = 0
  absent : state.diskEntry env (ppn address) = 0
  opened : (state.envs env).diskEnvPgdir ≠ 0
  limit : LimitTable state env
  working : ∀ index, ((state.envs env).ptrPageWorkingSet index).virtualAddress < userTop
  unowned : Unowned state

section Vacant

variable {ghost : Ghost} {state final : State} {env address other frame : Nat} {set clear : Word}

theorem Unowned.setInfo (unowned : Unowned state) {info : FrameInfo}
    (plain : info.environment = none ∧ info.va = 0) :
    Unowned (state.setFrameInfo frame info) := by
  intro someFrame
  by_cases same : someFrame = frame
  · subst same
    simpa [State.setFrameInfo] using plain
  · simpa [State.setFrameInfo, same] using unowned someFrame

/-- Nothing changed but the records and lists of frames, the boot tables and the disk. -/
def Elsewhere (state final : State) : Prop :=
  ∃ framesInfo frameLinks freeFrameList modifiedFrameList bootTables sectors,
    final = { state with
      framesInfo, frameLinks, freeFrameList, modifiedFrameList, bootTables, sectors }

theorem Vacant.elsewhere (vacant : Vacant ghost env address state)
    (only : Elsewhere state final) (unowned : Unowned final) :
    Vacant ghost env address final := by
  rcases only with ⟨_, _, _, _, _, _, rfl⟩
  have layout := vacant.layout
  exact
    { layout := ⟨layout.kernelTables, layout.startLower, layout.startUpper, layout.startAligned⟩
      placement := vacant.placement.congr rfl fun _ _ => rfl
      table := vacant.table
      empty := vacant.empty
      absent := vacant.absent
      opened := vacant.opened
      limit := vacant.limit.congr ⟨rfl, fun _ _ _ => rfl⟩
      working := vacant.working
      unowned := unowned }

theorem vacant_lists {change : State → State} (only : ∀ state, Elsewhere state (change state))
    (info : ∀ state, (change state).framesInfo = state.framesInfo) :
    Preserves (Vacant ghost env address) (modify change : Kernel PUnit) :=
  .modify fun state vacant => vacant.elsewhere (only state) fun frame => by
    rw [info]
    exact vacant.unowned frame

theorem vacant_setInfo {change : FrameInfo → FrameInfo} (frame : Nat)
    (plain : ∀ info, info.environment = none ∧ info.va = 0 →
      (change info).environment = none ∧ (change info).va = 0) :
    Preserves (Vacant ghost env address)
      (modify fun state => state.setFrameInfo frame (change (state.framesInfo frame)) :
        Kernel PUnit) :=
  .modify fun _ vacant => vacant.elsewhere ⟨_, _, _, _, _, _, rfl⟩
    (vacant.unowned.setInfo (plain _ (vacant.unowned frame)))

theorem Vacant.setEnv (vacant : Vacant ghost env address state) {value : Env}
    (opened : value.diskEnvPgdir = (state.envs env).diskEnvPgdir)
    (working : ∀ index, (value.ptrPageWorkingSet index).virtualAddress < userTop) :
    Vacant ghost env address (state.setEnv env value) := by
  have layout := vacant.layout
  have same : (state.setEnv env value).envs env = value := by simp [State.setEnv]
  exact
    { layout := ⟨layout.kernelTables, layout.startLower, layout.startUpper, layout.startAligned⟩
      placement := vacant.placement.congr rfl fun _ _ => rfl
      table := vacant.table
      empty := vacant.empty
      absent := vacant.absent
      opened := by
        rw [same, opened]
        exact vacant.opened
      limit := vacant.limit.congr ⟨rfl, fun _ _ _ => rfl⟩
      working := by
        rw [same]
        exact working
      unowned := vacant.unowned }

/-- Writing an entry of another page, or clearing bits of an entry. -/
theorem Vacant.setPermissions (vacant : Vacant ghost env address state) (user : other < userTop)
    (present : hasPerm (directoryEntry state env other) permPresent = true)
    (apart : ppn other ≠ ppn address ∨ set = 0) :
    Vacant ghost env address (state.setMemory (frameOf (directoryEntry state env other))
      (ptx other) (changePerm (state.view.entry (.user env (ppn other))) set clear)) := by
  have layout := vacant.layout
  have offset : ptx other < 1024 := Nat.mod_lt _ (by decide)
  have view := State.view_setMemory_table vacant.placement (address_user user).2 offset present
    (changePerm (state.view.entry (.user env (ppn other))) set clear)
  rw [pdx_mul_add_ptx] at view
  exact
    { layout := ⟨layout.kernelTables, layout.startLower, layout.startUpper, layout.startAligned⟩
      placement := vacant.placement.congr rfl fun _ _ => rfl
      table := vacant.table
      empty := by
        rw [directoryEntry, view]
        by_cases same : ppn other = ppn address
        · have nothing : set = 0 := apart.resolve_left fun different => different same
          simp [View.setEntry, same, vacant.empty, nothing, changePerm]
        · have different : Slot.user (.env env) (ppn address) ≠ .user (.env env) (ppn other) := by
            simpa using Ne.symm same
          exact (Function.update_of_ne different _ _).trans vacant.empty
      absent := by
        rw [directoryEntry, diskEntry_setMemory_table vacant.placement (address_user user).2
          present]
        exact vacant.absent
      opened := vacant.opened
      limit := vacant.limit.congr ⟨rfl, fun _ _ _ => rfl⟩
      working := vacant.working
      unowned := vacant.unowned }

theorem ptSetPagePermissions_vacant (user : other < userTop)
    (apart : ppn other ≠ ppn address ∨ set = 0) :
    Preserves (Vacant ghost env address) (ptSetPagePermissions env other set clear) := by
  intro state result final vacant returned
  rcases ptSetPagePermissions_ok vacant.layout user returned with ⟨present, rfl⟩
  exact vacant.setPermissions user present apart

/-! ## The choice of a victim -/

theorem takeVictim_vacant (other : Nat) :
    Preserves (Vacant ghost env address) (takeVictim env other) := by
  refine .bind .get fun _ => .bind ?_ fun _ => .bind ?_ fun _ => .pure _
  · intro state result final vacant returned
    rcases envPageWsClearEntry_ok returned with ⟨-, rfl⟩
    refine vacant.setEnv rfl fun index => ?_
    simp only [Env.setElement, Function.update_apply]
    split
    · exact (by decide : 0 < userTop)
    · exact vacant.working index
  · exact .bind .get fun _ => .modify fun _ vacant => vacant.setEnv rfl vacant.working

theorem advanceLastWSIndex_vacant :
    Preserves (Vacant ghost env address) (advanceLastWSIndex env) :=
  .bind .get fun _ => .modify fun _ vacant => vacant.setEnv rfl vacant.working

theorem takeVictim_address {victim : Victim}
    (returned : takeVictim env other state = .ok (victim, final)) : victim.address = other := by
  rcases bind_ok.mp (bind_get_ok.mp returned) with ⟨_, _, -, continued⟩
  rcases bind_ok.mp continued with ⟨_, _, -, ended⟩
  rcases pure_ok.mp ended with ⟨rfl, -⟩
  rfl

theorem Vacant.slot (vacant : Vacant ghost env address state) {index : Nat}
    (returned : envPageWsGetVirtualAddress state env index = .ok other) : other < userTop := by
  rw [envPageWsGetVirtualAddress] at returned
  split at returned
  · cases returned
  · cases returned
    exact Nat.lt_of_le_of_lt (Nat.sub_le _ _) (vacant.working index)

theorem secondTrial_vacant {fp fuel : Nat} {found : Option Victim}
    (vacant : Vacant ghost env address state)
    (returned : secondTrial env fp fuel state = .ok (found, final)) :
    Vacant ghost env address final ∧ ∀ victim ∈ found, victim.address < userTop := by
  induction fuel generalizing state with
  | zero => cases returned
  | succ fuel induction =>
      rcases bind_observe_ok.mp (bind_get_ok.mp returned) with ⟨other, slot, looking⟩
      rcases bind_observe_ok.mp looking with ⟨permissions, -, chosen⟩
      have user := vacant.slot slot
      rcases ite_ok.mp chosen with ⟨-, clearing⟩ | ⟨-, taking⟩
      · rcases bind_ok.mp clearing with ⟨_, cleared, changed, advancing⟩
        have first := ptSetPagePermissions_vacant user (.inr rfl) _ _ _ vacant changed
        rcases bind_ok.mp advancing with ⟨_, moved, advanced, continued⟩
        have second := advanceLastWSIndex_vacant _ _ _ first advanced
        rcases ite_ok.mp (bind_get_ok.mp continued) with ⟨-, ended⟩ | ⟨-, rest⟩
        · rcases pure_ok.mp ended with ⟨rfl, rfl⟩
          exact ⟨second, nofun⟩
        · exact induction second rest
      · rcases bind_ok.mp taking with ⟨victim, taken, took, ended⟩
        rcases pure_ok.mp ended with ⟨rfl, rfl⟩
        refine ⟨takeVictim_vacant _ _ _ _ vacant took, ?_⟩
        rintro _ ⟨⟩
        rwa [takeVictim_address took]

theorem findVictim_vacant {fp fuel : Nat} {victim : Victim}
    (vacant : Vacant ghost env address state)
    (returned : findVictim env fp fuel state = .ok (victim, final)) :
    Vacant ghost env address final ∧ victim.address < userTop := by
  induction fuel generalizing state with
  | zero => cases returned
  | succ fuel induction =>
      rcases bind_observe_ok.mp (bind_get_ok.mp returned) with ⟨other, slot, looking⟩
      rcases bind_observe_ok.mp looking with ⟨permissions, -, chosen⟩
      rcases ite_ok.mp chosen with ⟨-, taking⟩ | ⟨-, advancing⟩
      · refine ⟨takeVictim_vacant _ _ _ _ vacant taking, ?_⟩
        rw [takeVictim_address taking]
        exact vacant.slot slot
      · rcases bind_ok.mp advancing with ⟨_, moved, advanced, continued⟩
        have first := advanceLastWSIndex_vacant _ _ _ vacant advanced
        rcases ite_ok.mp (bind_get_ok.mp continued) with ⟨-, trying⟩ | ⟨-, rest⟩
        · rcases bind_ok.mp trying with ⟨found, tried, trial, ended⟩
          rcases secondTrial_vacant first trial with ⟨second, inside⟩
          cases found with
          | none => exact induction second ended
          | some chosen =>
              rcases pure_ok.mp ended with ⟨rfl, rfl⟩
              exact ⟨second, inside _ rfl⟩
        · exact induction first rest

/-! ## Writing back -/

theorem addReferences_vacant (frame amount : Nat) :
    Preserves (Vacant ghost env address) (addReferences frame amount) :=
  @vacant_setInfo ghost env address
    (fun info => { info with references := (info.references + amount) % 2 ^ 16 }) frame
    fun _ plain => plain

theorem initializeFrameInfo_vacant (frame : Nat) :
    Preserves (Vacant ghost env address) (initializeFrameInfo frame) :=
  .modify fun _ vacant => vacant.elsewhere ⟨_, _, _, _, _, _, rfl⟩
    (vacant.unowned.setInfo ⟨rfl, rfl⟩)

theorem freeFrame_vacant (frame : Nat) : Preserves (Vacant ghost env address) (freeFrame frame) :=
  .bind (initializeFrameInfo_vacant frame) fun _ =>
    vacant_lists (fun _ => ⟨_, _, _, _, _, _, rfl⟩) fun _ => rfl

theorem decrementReferences_vacant (frame : Nat) :
    Preserves (Vacant ghost env address) (decrementReferences frame) :=
  .bind (addReferences_vacant _ _) fun _ => .bind .get fun _ =>
    .ite (freeFrame_vacant frame) (.pure _)

theorem storeBoot_vacant (index offset : Nat) (word : Word) :
    Preserves (Vacant ghost env address) (store (.boot index) offset word) :=
  vacant_lists (fun _ => ⟨_, _, _, _, _, _, rfl⟩) fun _ => rfl

theorem unmapLimit_vacant :
    Preserves (Vacant ghost env address) (unmapFrame (.env env) userLimit) := by
  intro state result final vacant returned
  rcases bind_observe_ok.mp returned with ⟨⟨info, pointer⟩, found, ended⟩
  rcases vacant.limit.pointer found with rfl
  cases info with
  | none =>
      rcases pure_ok.mp ended with ⟨-, rfl⟩
      exact vacant
  | some frame =>
      rcases bind_ok.mp ended with ⟨_, dropped, dropping, stored⟩
      have first := decrementReferences_vacant _ _ _ _ vacant dropping
      exact storeBoot_vacant _ _ _ _ _ _ first stored

theorem mapLimit_vacant (frame : Nat) (perm : Word) :
    Preserves (Vacant ghost env address) (mapFrame (.env env) frame userLimit perm) := by
  intro state result final vacant returned
  rcases bind_observe_ok.mp returned with ⟨⟨status, pointer⟩, found, ended⟩
  have limit : getPageTable state (.env env) userLimit = _ := vacant.limit
  rw [limit] at found
  cases found
  rcases bind_ok.mp ended with ⟨pointer, same, kept, entering⟩
  rcases pure_ok.mp kept with ⟨rfl, rfl⟩
  rcases bind_observe_ok.mp entering with ⟨word, -, mapping⟩
  have entered : Preserves (Vacant ghost env address) (do
      addReferences frame 1
      store (.boot (pdx userLimit)) (ptx userLimit)
        (constructEntry frame (perm ||| permPresent))) :=
    .bind (addReferences_vacant _ _) fun _ => storeBoot_vacant _ _ _
  rcases ite_ok.mp mapping with ⟨-, there⟩ | ⟨-, mapping⟩
  · rcases pure_ok.mp there with ⟨-, rfl⟩
    exact vacant
  rcases ite_ok.mp mapping with ⟨-, replacing⟩ | ⟨-, fresh⟩
  · rcases bind_ok.mp replacing with ⟨_, between, unmapped, entering⟩
    exact entered _ _ _ (unmapLimit_vacant _ _ _ vacant unmapped) entering
  · exact entered _ _ _ vacant fresh

theorem pfUpdateEnvPage_vacant (user : other < userTop) :
    Preserves (Vacant ghost env address) (pfUpdateEnvPage env other frame) := by
  intro state result final vacant returned
  rcases ite_ok.mp returned with ⟨high, -⟩ | ⟨-, opening⟩
  · exact absurd high (by grind)
  rcases bind_ok.mp opening with ⟨_, same, opened, finding⟩
  rcases ite_ok.mp (bind_get_ok.mp opened) with ⟨-, kept⟩ | ⟨closed, -⟩
  · rcases pure_ok.mp kept with ⟨-, rfl⟩
    rcases bind_ok.mp finding with ⟨pointer, _, located, looking⟩
    rcases (findDiskPageTable_ok vacant.layout user located).1 with rfl
    rcases ite_ok.mp looking with ⟨-, missing⟩ | ⟨-, loading⟩
    · rcases pure_ok.mp missing with ⟨-, rfl⟩
      exact vacant
    rcases bind_observe_ok.mp loading with ⟨dfn, -, writing⟩
    rcases ite_ok.mp writing with ⟨-, missing⟩ | ⟨-, writing⟩
    · rcases pure_ok.mp missing with ⟨-, rfl⟩
      exact vacant
    refine Preserves.bind (mapLimit_vacant frame 0) (fun _ => ?_) _ _ _ vacant writing
    refine .bind (preserves_observe _) fun _ => .bind .get fun _ => ?_
    refine .bind (vacant_lists (fun _ => ⟨_, _, _, _, _, _, rfl⟩) fun _ => rfl) fun _ => ?_
    exact .bind (addReferences_vacant _ _) fun _ => .bind unmapLimit_vacant fun _ =>
      .bind (addReferences_vacant _ _) fun _ => .pure _
  · exact absurd vacant.opened closed

theorem flushFrame_vacant (frame : Nat) :
    Preserves (Vacant ghost env address) (flushFrame env frame) := by
  intro state result final vacant returned
  rcases bind_ok.mp (bind_get_ok.mp returned) with ⟨_, written, writing, clearing⟩
  rcases bind_ok.mp clearing with ⟨_, cleared, changed, moving⟩
  have user : (state.framesInfo frame).va < userTop := by
    rw [(vacant.unowned frame).2]
    decide
  have first := pfUpdateEnvPage_vacant user _ _ _ vacant writing
  have second := ptSetPagePermissions_vacant user (.inr rfl) _ _ _ first changed
  refine Preserves.bind ?_ (fun _ => ?_) _ _ _ second moving
  all_goals exact vacant_lists (fun _ => ⟨_, _, _, _, _, _, rfl⟩) fun _ => rfl

theorem forEachModified_vacant (fuel : Nat) (next : Option Nat) :
    Preserves (Vacant ghost env address) (forEachModified (flushFrame env) fuel next) := by
  have ended : Preserves (Vacant ghost env address) (modify fun state : State =>
      { state with modifiedFrameList := { state.modifiedFrameList with ptrNext := none } } :
        Kernel PUnit) := vacant_lists (fun _ => ⟨_, _, _, _, _, _, rfl⟩) fun _ => rfl
  induction fuel generalizing next with
  | zero =>
      cases next with
      | none => exact ended
      | some frame => exact .throw _
  | succ fuel induction =>
      cases next with
      | none => exact ended
      | some frame =>
          refine .bind (vacant_lists (fun _ => ⟨_, _, _, _, _, _, rfl⟩) fun _ => rfl) fun _ => ?_
          exact .bind (flushFrame_vacant frame) fun _ => .bind .get fun _ => induction _

theorem bufferVictim_vacant (user : other < userTop) (apart : ppn other ≠ ppn address) :
    Preserves (Vacant ghost env address) (bufferVictim env other frame) := by
  have moved : ∀ {change : State → State}, (∀ state, Elsewhere state (change state)) →
      (∀ state, (change state).framesInfo = state.framesInfo) →
      Preserves (Vacant ghost env address) (modify change : Kernel PUnit) := vacant_lists
  have buffered : Preserves (Vacant ghost env address) (setBuffered frame true) :=
    @vacant_setInfo ghost env address (fun info => { info with isBuffered := true }) frame
      fun _ plain => plain
  refine .bind .get fun _ => .bind buffered fun _ => ?_
  refine .bind (ptSetPagePermissions_vacant user (.inl apart)) fun _ => ?_
  refine .bind (preserves_observe _) fun _ => .ite ?_ ?_
  · refine .bind (moved (fun _ => ⟨_, _, _, _, _, _, rfl⟩) fun _ => rfl) fun _ => ?_
    exact .bind .get fun _ => .ite (forEachModified_vacant _ _) (.pure _)
  · exact moved (fun _ => ⟨_, _, _, _, _, _, rfl⟩) fun _ => rfl

/-! ## Loading -/

/-- `loadPage` finds nothing to load. -/
theorem loadPage_vacant (vacant : Vacant ghost env address state) (user : address < userTop)
    (returned : loadPage env address state = .ok ((), final)) : InStack address := by
  rcases bind_ok.mp returned with ⟨frame, allocated, allocating, mapping⟩
  rcases allocateFrame_ok (fun other _ => (vacant.unowned other).1) allocating with ⟨-, -, rfl⟩
  have first : Vacant ghost env address (state.allocate frame) :=
    vacant.elsewhere ⟨_, _, _, _, _, _, rfl⟩ (vacant.unowned.setInfo ⟨rfl, rfl⟩)
  rcases bind_ok.mp mapping with ⟨_, mapped, entering, reading⟩
  rcases mapFrame_new first.layout user first.table first.empty entering with rfl
  have counting : Placement ghost ((state.allocate frame).addReferences frame 1).view :=
    State.addReferences_placement first.placement
  have absent : ((state.allocate frame).mapUser env frame address
      (permPresent ||| permUser ||| permWriteable)).diskEntry env (ppn address) = 0 :=
    (diskEntry_setMemory_table counting (address_user user).2 first.table (ptx address)
      (mapWord frame _) _ _).trans first.absent
  have layout : HeapLayout ((state.allocate frame).mapUser env frame address
      (permPresent ||| permUser ||| permWriteable)).view :=
    ⟨first.layout.kernelTables, first.layout.startLower, first.layout.startUpper,
      first.layout.startAligned⟩
  rcases bind_ok.mp reading with ⟨code, same, looked, placing⟩
  rcases readPage_missing layout user absent looked with ⟨rfl, rfl⟩
  rcases ite_ok.mp placing with ⟨-, adding⟩ | ⟨there, -⟩
  · rcases ite_ok.mp adding with ⟨stack, -⟩ | ⟨-, stopped⟩
    · exact stack
    · exact (throw_ok.mp stopped).elim
  · exact absurd rfl there

/-- With a full working set only a page of the stack is created. -/
theorem replacementBranch_vacant {faultFrame : Option Nat}
    (vacant : Vacant ghost env address state) (user : address < userTop)
    (returned : replacementBranch env address faultFrame state = .ok ((), final)) :
    InStack address := by
  rcases bind_ok.mp (bind_get_ok.mp returned) with ⟨victim, taken, choosing, evicting⟩
  rcases findVictim_vacant vacant choosing with ⟨first, inside⟩
  rcases bind_observe_ok.mp evicting with ⟨⟨frame, pointer⟩, found, buffering⟩
  cases frame with
  | none =>
      rcases bind_ok.mp buffering with ⟨_, _, stopped, -⟩
      exact (throw_ok.mp stopped).elim
  | some frame =>
      have apart : ppn victim.address ≠ ppn address := by
        intro same
        rcases getFrameInfo_user first.layout inside found with ⟨impossible, -⟩ | ⟨-, -, entry⟩
        · cases impossible
        · rw [same, first.empty] at entry
          cases entry
      rcases bind_ok.mp buffering with ⟨_, buffered, moved, loading⟩
      have second := bufferVictim_vacant inside apart _ _ _ first moved
      rcases bind_observe_ok.mp loading with ⟨permissions, looked, choosing⟩
      have nothing : permissions = 0 := by
        rw [ptGetPagePermissions_ok second.layout user looked, second.empty]
        decide
      rcases ite_ok.mp choosing with ⟨restoring, -⟩ | ⟨-, bringing⟩
      · rw [nothing] at restoring
        exact absurd restoring (by decide)
      · rcases bind_ok.mp bringing with ⟨_, loaded, brought, -⟩
        exact loadPage_vacant second user brought

end Vacant

/-! ## How the handler stops -/

section Stops

variable {env faultVa lastIDX : Nat}

/-- The panic is for pages outside the stack. -/
def Spares (faultVa : Nat) (stop : Stop) : Prop := stop = missingPage → ¬InStack faultVa

theorem admits_spares : Admits (Spares faultVa) where
  badPointer := nofun
  outOfBounds := nofun
  panic _ different _ := fun same => absurd same different

theorem loadPage_spares : Raises (Spares faultVa) (loadPage env faultVa) := by
  refine .bind (allocateFrame_raises admits_spares) fun _ => ?_
  refine .bind (mapFrame_raises admits_spares nofun _ _ _ _) fun _ => ?_
  refine .bind (pfReadEnvPage_raises admits_spares _ _) fun _ => .ite ?_ (.pure _)
  split
  · exact .bind (pfAddEmptyEnvPage_raises admits_spares nofun _ _ _) fun _ => .pure _
  · next outside => exact .throw fun _ => outside

theorem replacementBranch_spares (faultFrame : Option Nat) :
    Raises (Spares faultVa) (replacementBranch env faultVa faultFrame) := by
  refine .bind .get fun _ => .bind (findVictim_raises admits_spares nofun _ _ _) fun victim => ?_
  refine .bind (raises_observe fun _ => getFrameInfo_raises admits_spares _ _ _) fun found => ?_
  rcases found with ⟨frame, pointer⟩
  have entering : Raises (Spares faultVa) (do
      envPageWsSetEntry env victim.index faultVa
      setLastWSIndexAfter env victim.index) :=
    .bind (envPageWsSetEntry_raises admits_spares _ _ _) fun _ => setLastWSIndexAfter_raises _ _
  have bringing : Raises (Spares faultVa) (do
      let permissions ← observe fun state => ptGetPagePermissions state env faultVa
      if hasPerm permissions permBuffered then restorePage env faultVa permissions faultFrame
      else loadPage env faultVa
      envPageWsSetEntry env victim.index faultVa
      setLastWSIndexAfter env victim.index) :=
    .bind (raises_observe fun _ => ptGetPagePermissions_raises admits_spares _ _ _) fun _ => .ite
      (.bind (restorePage_raises admits_spares _ _ _ _) fun _ => entering)
      (.bind loadPage_spares fun _ => entering)
  cases frame with
  | none => exact .bind (.throw nofun) fun _ => bringing
  | some frame => exact .bind (bufferVictim_raises admits_spares nofun _ _ _) fun _ => bringing

theorem placement_spares : Raises (Spares faultVa) (placement env faultVa) := by
  refine .bind (allocateFrame_raises admits_spares) fun _ => ?_
  refine .bind (mapFrame_raises admits_spares nofun _ _ _ _) fun _ => ?_
  refine .bind (pfReadEnvPage_raises admits_spares _ _) fun code => ?_
  have placing : ∀ address, Raises (Spares faultVa) (do
      placeInWorkingSet env address (List.range ((← get).envs env).pageWSMaxSize)) :=
    fun address => .bind .get fun _ => placeInWorkingSet_raises admits_spares _ _ _
  split
  · dsimp only
    split
    · exact .bind (pfAddEmptyEnvPage_raises admits_spares nofun _ _ _) fun _ => placing _
    · next outside =>
      exact .bind (.throw fun _ stack => outside (addable_roundDown.mpr stack.addable))
        fun _ => placing _
  · exact placing _

theorem placementBranch_spares :
    Raises (Spares faultVa) (placementBranch env faultVa lastIDX) := by
  refine .bind placement_spares fun _ => ?_
  refine .bind (raises_observe fun _ => ptGetPagePermissions_raises admits_spares _ _ _)
    fun _ => .ite ?_ (setLastWSIndexAfter_raises _ _)
  refine .bind (pfReadEnvPage_raises admits_spares _ _) fun _ =>
    .ite ?_ (setLastWSIndexAfter_raises _ _)
  split
  · exact .bind (pfAddEmptyEnvPage_raises admits_spares nofun _ _ _) fun _ =>
      setLastWSIndexAfter_raises _ _
  · next outside =>
    exact .bind (.throw fun _ => outside) fun _ => setLastWSIndexAfter_raises _ _

theorem handler_spares : Raises (Spares faultVa) (pageFaultHandler env faultVa) :=
  .bind .get fun _ =>
    .bind (raises_observe fun _ => getFrameInfo_raises admits_spares _ _ _) fun _ =>
      .ite placementBranch_spares (replacementBranch_spares _)

end Stops

/-! ## With room in the working set -/

section Room

variable {ghost : Ghost} {free : List Nat} {state middle final : State} {address : Nat}
variable {code : PageFileCode}

/-- The page has a frame, but no disk frame. -/
structure Unbacked (env address : Nat) (state : State) : Prop where
  layout : HeapLayout state.view
  plain : hasPerm (state.view.entry (.user env (ppn address))) permBuffered = false
  absent : state.diskEntry env (ppn address) = 0

theorem Unbacked.setEnv {env : Nat} {value : Env} (unbacked : Unbacked env address state) :
    Unbacked env address (state.setEnv env value) :=
  have layout := unbacked.layout
  ⟨⟨layout.kernelTables, layout.startLower, layout.startUpper, layout.startAligned⟩,
    unbacked.plain, unbacked.absent⟩

theorem placeInWorkingSet_unbacked {env page : Nat} (indices : List Nat) :
    Preserves (Unbacked env address) (placeInWorkingSet env page indices) := by
  induction indices with
  | nil => exact .pure ()
  | cons index indices induction =>
      refine .bind .get fun _ => .ite ?_ induction
      refine .bind ?_ fun _ => .modify fun _ unbacked => unbacked.setEnv
      intro state result final unbacked returned
      rw [envPageWsSetEntry_ok returned]
      exact unbacked.setEnv

/-- Without a free disk frame the page is not added. -/
theorem entered_noSpace (entered : Entered [] state address middle) (user : address < userTop)
    (returned : pfAddEmptyEnvPage state.curenv (roundDown address) true middle =
      .ok (code, final)) : Unbacked state.curenv address final := by
  rcases entered.ready with ⟨ghost, ready, -, -⟩
  have down : roundDown address < userTop := Nat.lt_of_le_of_lt (Nat.sub_le _ _) user
  have added : pfAddEnvPage state.curenv (roundDown address) (middle.memory 1) middle =
      .ok (code, final) := bind_get_ok.mp returned
  have plain := entered.plain
  have absent := entered.absent
  rw [entered.curenv] at plain absent
  rcases pfAddEnvPage_ok ready.consistent ready.file down added with ⟨after, left, outcome, -⟩
  have background := outcome.step.background
  refine ⟨background.evolves.consistent.toHeapLayout, ?_, ?_⟩
  · rwa [background.userEntry]
  · rcases outcome.outcome with ⟨-, page⟩ | ⟨-, -, -, -, same, -⟩
    · rcases page.own with ⟨present, -⟩ | ⟨-, dfn, taken, -⟩
      · rw [ppn_roundDown] at present
        exact absurd absent present
      · cases taken
    · rw [same.diskEntry]
      exact absent

theorem placement_outside (faulting : Faulting ghost free state address)
    (user : address < userTop) (outside : ¬Addable address) :
    Ensures (placement state.curenv address) state (fun _ _ => False) (fun _ => True) := by
  refine faulting.entered ⟨trivial, trivial, fun _ _ _ => trivial⟩ trivial user
    fun middle entered => ?_
  refine .ite (fun _ => ?_) fun found => absurd rfl found
  refine .ite (fun inside => absurd (addable_roundDown.mp inside) outside) fun _ => ?_
  exact .ofError rfl trivial

theorem placement_noSpace (faulting : Faulting ghost [] state address)
    (user : address < userTop) : Ensures (placement state.curenv address) state
      (fun _ => Unbacked state.curenv address) (fun _ => True) := by
  have admits : Admits (fun _ => True) := ⟨trivial, trivial, fun _ _ _ => trivial⟩
  refine faulting.entered admits trivial user fun middle entered => ?_
  refine .ite (fun _ => ?_) fun found => absurd rfl found
  refine .ite (fun _ => ?_) fun _ => ?_
  · refine .bind ((pfAddEmptyEnvPage_raises admits trivial _ _ _).ensures
      fun _ _ => id) fun code added adding => ?_
    have unbacked := entered_noSpace entered user adding
    refine .bind_get ((placeInWorkingSet_raises admits _ _ _).ensures fun _ final placing => ?_)
    exact placeInWorkingSet_unbacked _ added _ final unbacked placing
  · exact .ofError rfl trivial

/-- `placement` refuses the page, or it has no disk frame for it and the second test decides. -/
theorem placementBranch_returned (faulting : Faulting ghost free state address)
    (user : address < userTop) (refused : ¬Addable address ∨ free = []) {lastIDX : Nat}
    (returned : placementBranch state.curenv address lastIDX state = .ok ((), final)) :
    InStack address := by
  rcases bind_ok.mp returned with ⟨_, placed, placing, continued⟩
  rcases refused with outside | rfl
  · exact ((placement_outside faulting user outside).of_ok placing).elim
  have unbacked := (placement_noSpace faulting user).of_ok placing
  rcases bind_observe_ok.mp continued with ⟨permissions, looked, reading⟩
  have plain : hasPerm permissions permBuffered = false := by
    rw [ptGetPagePermissions_ok unbacked.layout user looked]
    have word := unbacked.plain
    rw [hasPerm_buffered] at word ⊢
    rw [BitVec.getLsbD_and, word, Bool.false_and]
  rcases ite_ok.mp reading with ⟨-, reading⟩ | ⟨buffered, -⟩
  · rcases bind_ok.mp reading with ⟨code, same, read, adding⟩
    rcases readPage_missing unbacked.layout user unbacked.absent read with ⟨rfl, rfl⟩
    rcases ite_ok.mp adding with ⟨-, adding⟩ | ⟨there, -⟩
    · rcases ite_ok.mp adding with ⟨stack, -⟩ | ⟨-, stopped⟩
      · exact stack
      · rcases bind_ok.mp stopped with ⟨_, _, thrown, -⟩
        exact (throw_ok.mp thrown).elim
    · exact absurd rfl there
  · exact absurd plain (by simpa using buffered)

end Room

/-! ## Legality -/

section Legality

variable {ghost : Ghost} {free : List Nat} {state final : State} {address : Nat}

/-- What holds of the running environment between two calls. -/
structure Ordinary (state : State) : Prop where
  opened : (state.envs state.curenv).diskEnvPgdir ≠ 0
  limit : LimitTable state state.curenv
  working : ∀ index,
    ((state.envs state.curenv).ptrPageWorkingSet index).virtualAddress < userTop
  unrecorded : ∀ frame, (state.framesInfo frame).va = 0

def HasRoom (state : State) : Prop :=
  envPageWsGetSize (state.envs state.curenv) < (state.envs state.curenv).pageWSMaxSize

/-- The test in `placement` starts at `USER_HEAP_MAX`. -/
def BelowStack (address : Nat) : Prop := userHeapMax ≤ address ∧ address < ustackBottom

/-- The fault is served, or it ends in the panic for an invalid access. -/
def Settles (state : State) (address : Nat) : Prop :=
  (∃ final, pageFaultHandler state.curenv address state = .ok ((), final)) ∨
    pageFaultHandler state.curenv address state = .error missingPage

/-- A page is created for the pages of the stack only. -/
def Legal (state : State) (address : Nat) : Prop :=
  (∃ final, pageFaultHandler state.curenv address state = .ok ((), final)) ↔ InStack address

theorem vacant_of_faulting (faulting : Faulting ghost free state address)
    (ordinary : Ordinary state) : Vacant ghost state.curenv address state where
  layout := faulting.ready.consistent.toHeapLayout
  placement := faulting.ready.consistent.toPlacement
  table := faulting.table
  empty := faulting.empty
  absent := faulting.absent
  opened := ordinary.opened
  limit := ordinary.limit
  working := ordinary.working
  unowned frame := ⟨faulting.ready.consistent.anonymous frame, ordinary.unrecorded frame⟩

theorem returned_inStack (faulting : Faulting ghost free state address)
    (ordinary : Ordinary state) (below : address < ustackTop)
    (refused : ¬HasRoom state ∨ ¬BelowStack address ∨ free = [])
    (returned : pageFaultHandler state.curenv address state = .ok ((), final)) :
    InStack address := by
  have user : address < userTop := below.trans (by decide)
  by_cases stack : ustackBottom ≤ address
  · exact ⟨stack, below⟩
  rcases bind_observe_ok.mp (bind_get_ok.mp returned) with ⟨⟨frame, _⟩, -, branch⟩
  rcases ite_ok.mp branch with ⟨room, placing⟩ | ⟨-, replacing⟩
  · refine placementBranch_returned faulting user ?_ placing
    rcases refused with full | outside | nothing
    · exact absurd room full
    · exact .inl fun inside => outside ⟨inside.1, Nat.lt_of_not_le stack⟩
    · exact .inr nothing
  · exact replacementBranch_vacant (vacant_of_faulting faulting ordinary) user replacing

/-- Accesses are judged by the bounds of the stack when the working set is full, outside the
pages between `USER_HEAP_MAX` and the stack, or without a free disk frame; with room in the
kernel heap, only then. -/
theorem access_legal_iff (faulting : Faulting ghost free state address)
    (ordinary : Ordinary state) (below : address < ustackTop)
    (settles : Settles state address) :
    (¬HasRoom state ∨ ¬BelowStack address ∨ free = [] → Legal state address) ∧
      (Roomy state 2 → Legal state address →
        ¬HasRoom state ∨ ¬BelowStack address ∨ free = []) := by
  refine ⟨fun refused => ⟨?_, fun stack => ?_⟩, fun roomy legal => ?_⟩
  · rintro ⟨final, returned⟩
    exact returned_inStack faulting ordinary below refused returned
  · refine settles.resolve_right fun stopped => ?_
    exact handler_spares state missingPage stopped rfl stack
  · by_contra accepted
    push Not at accepted
    rcases accepted with ⟨room, gap, nonempty⟩
    have ensures := faulting.handler_ensures roomy ⟨gap.1, below⟩ room nonempty
    have served := settles.resolve_right fun stopped => ensures.of_error stopped rfl
    exact absurd (legal.mp served).1 (Nat.not_le.mpr gap.2)

end Legality

/-! ## The page below the stack -/

section Sample

/-- The page below the stack. -/
abbrev guardPage : Nat := ustackBottom - 4096

/-- The first environment has the lowest page of its stack in a working set of this size and
the kernel's part of the directory. -/
def prepared (size : Nat) (state : State) : State :=
  { withWorkingSet ustackBottom size state with
    pageDirectory := fun owner index =>
      if index < pdx userTop then state.pageDirectory owner index
      else state.pageDirectory .kernel index }

/-- The fault is refused, or it is served. -/
def endsIn (refused : Bool) (state : State) : Bool :=
  match pageFaultHandler 0 guardPage state with
  | .ok _ => !refused
  | .error stop => refused && stop = missingPage

theorem endsIn_refused {state : State} (ended : endsIn true state = true) :
    pageFaultHandler 0 guardPage state = .error missingPage := by
  rw [endsIn] at ended
  cases outcome : pageFaultHandler 0 guardPage state with
  | ok pair =>
      rw [outcome] at ended
      cases ended
  | error stop =>
      rw [outcome] at ended
      have same : stop = missingPage := by simpa using ended
      rw [same]

theorem endsIn_served {state : State} (ended : endsIn false state = true) :
    ∃ final, pageFaultHandler 0 guardPage state = .ok ((), final) := by
  rw [endsIn] at ended
  cases outcome : pageFaultHandler 0 guardPage state with
  | ok pair => exact ⟨pair.2, rfl⟩
  | error stop =>
      rw [outcome] at ended
      cases ended

/-- Nothing is mapped below the stack, and the working set is full if the fault is refused. -/
def guardChecks (refused : Bool) (state : State) : Bool :=
  hasPerm (directoryEntry state (.env 0) guardPage) permPresent &&
    state.view.entry (.user (.env 0) (ppn guardPage)) = 0 &&
    state.diskEntry 0 (ppn guardPage) = 0 && (state.envs 0).diskEnvPgdir ≠ 0 &&
    (getPageTable state (.env 0) userLimit).toOption =
      some (.inMemory, .boot (pdx userLimit)) &&
    decide (envPageWsGetSize (state.envs 0) = (state.envs 0).pageWSMaxSize) = refused &&
    endsIn refused state

/-- The page of the stack is added to the page file first. -/
def guarded (size : Nat) (refused : Bool) (state : State) : Bool :=
  (pfAddEnvPage 0 ustackBottom (fun _ => 0) (prepared size state)).toOption.any
    fun result => guardChecks refused result.2

def sampleChecks (state : State) : Bool := guarded 1 true state && guarded 2 false state

theorem sample_ran : (mapFrame (.env 0) 0xFFFF ustackBottom (permUser ||| permWriteable)
    (sampleState.allocate 0xFFFF)).toOption.any (fun result =>
      hasOnePage ustackBottom result.2 && sampleChecks result.2) = true := by
  decide +kernel

theorem prepared_view (size : Nat) (state : State) :
    (prepared size state).view = (withWorkingSet ustackBottom size state).view := by
  refine State.view_directories (fun owner index user => if_pos user) fun index => ?_
  split <;> rfl

/-- The state in which the fault occurs. -/
structure Guarded (size : Nat) (refused : Bool) (ghost : Ghost) (free : List Nat)
    (state : State) : Prop where
  curenv : state.curenv = 0
  faulting : Faulting ghost free state guardPage
  ordinary : Ordinary state
  roomy : Roomy state 2
  full : decide (envPageWsGetSize (state.envs 0) = (state.envs 0).pageWSMaxSize) = refused
  ended : endsIn refused state = true

theorem prepared_ready {ghost : Ghost} {free : List Nat} {state : State}
    (ready : Ready ghost free state) (idle : 0 ∉ ghost.active) (size : Nat) :
    Ready ghost free (prepared size state) := by
  have before : Ready ghost free (withWorkingSet ustackBottom size state) :=
    ready.setEnv idle rfl rfl
  have view := prepared_view size state
  exact
    { consistent := view ▸ before.consistent
      file := before.file.congr ⟨fun _ _ => rfl, rfl, rfl, rfl, rfl⟩
        (before.file.layout.congr rfl rfl (fun _ => id) fun _ => id)
      serviceable := by
        refine ⟨fun index lower upper => ?_, fun page nonzero => ?_⟩
        · have tables := before.serviceable.tables index lower upper
          have above : ¬index < pdx userTop := Nat.not_lt.mpr (le_trans (by decide) lower)
          have entry : (prepared size state).pageDirectory .kernel index =
              state.pageDirectory .kernel index := if_neg above
          rw [entry]
          exact tables
        · rw [view] at nonzero ⊢
          exact before.serviceable.frames page nonzero
      managed := before.managed
      physical := before.physical
      limit := before.limit
      readOnly := by
        rw [WindowsReadOnly, view]
        exact before.readOnly }

theorem toOption_ok {outcome : Except ε α} {value : α}
    (some : outcome.toOption = some value) : outcome = .ok value := by
  cases outcome with
  | error stop => cases some
  | ok other =>
      cases some
      rfl

theorem guarded_state {size : Nat} {refused : Bool} {state : State}
    (one : OnePage ustackBottom state) (ran : guarded size refused state = true) :
    ∃ ghost free final, Guarded size refused ghost free final := by
  rcases one.ready with ⟨ghost, free, settled, ready, stocked, outside, -⟩
  have idle : 0 ∉ ghost.active := by
    rw [settled.inactive]
    exact Finset.notMem_empty 0
  have user : ustackBottom < userTop := by decide
  have before := prepared_ready ready idle size
  have roomy : Roomy (prepared size state) 4 := by
    refine stocked.roomy.congr rfl rfl fun page => ?_
    rw [prepared_view]
    rfl
  cases added : pfAddEnvPage 0 ustackBottom (fun _ => 0) (prepared size state) with
  | error stop =>
      rw [guarded, added] at ran
      cases ran
  | ok pair =>
      rcases pair with ⟨code, final⟩
      rw [guarded, added] at ran
      change guardChecks refused final = true at ran
      simp only [guardChecks, Bool.and_eq_true, decide_eq_true_eq] at ran
      rcases ran with ⟨⟨⟨⟨⟨⟨table, empty⟩, absent⟩, opened⟩, limit⟩, full⟩, ended⟩
      have side := KernelSide.pfAddEnvPage before.consistent before.file user added
      have quiet := pfAddEnvPage_quiet 0 ustackBottom _ _ _ _ (Quiet.refl _) added
      rcases pfAddEnvPage_ok before.consistent before.file user added with
        ⟨after, left, outcome, -⟩
      have background := outcome.step.background
      have curenv : final.curenv = 0 := side.curenv.trans one.curenv
      refine ⟨after, left, final, ?_⟩
      exact
        { curenv := curenv
          faulting :=
            { ready := before.step background side.upper side.limit
                (ZeroPages.AddOutcome.pageFile outcome)
              zeroFrame := by
                rw [background.evolves.managed]
                exact outside
              table := by rwa [curenv]
              empty := by rwa [curenv]
              absent := by rwa [curenv] }
          ordinary :=
            { opened := by rwa [curenv]
              limit := by
                rw [curenv]
                exact toOption_ok limit
              working := by
                intro index
                rw [curenv, quiet.envs 0]
                simp only [prepared, withWorkingSet, State.setEnv, Function.update_self]
                split <;> decide
              unrecorded := fun frame => quiet.unrecorded frame (one.unrecorded frame) }
          roomy := roomy.pfAddEnvPage before.consistent before.file user added
          full := full
          ended := ended }

theorem sample_guarded : (∃ ghost free state, Guarded 1 true ghost free state) ∧
    ∃ ghost free state, Guarded 2 false ghost free state := by
  have user : ustackBottom < userTop := by decide
  rcases sample_onePage user sample_ran with ⟨state, one, checked⟩
  rw [sampleChecks, Bool.and_eq_true] at checked
  exact ⟨guarded_state one checked.1, guarded_state one checked.2⟩

theorem guardPage_below : guardPage < ustackTop := by decide

/-- With a full working set the access below the stack is refused. -/
theorem access_legal_iff_full : ∃ state : State, ¬HasRoom state ∧ Legal state guardPage ∧
    pageFaultHandler state.curenv guardPage state = .error missingPage := by
  rcases sample_guarded.1 with ⟨ghost, free, state, guarded⟩
  have stopped := endsIn_refused guarded.ended
  have full : ¬HasRoom state := by
    have equal := of_decide_eq_true guarded.full
    rw [HasRoom, guarded.curenv, equal]
    exact Nat.lt_irrefl _
  rw [← guarded.curenv] at stopped
  refine ⟨state, full, ?_, stopped⟩
  exact (access_legal_iff guarded.faulting guarded.ordinary guardPage_below (.inr stopped)).1
    (.inl full)

/-- With room in the working set it is served. -/
theorem access_below_stack_served : ¬∀ (ghost : Ghost) (free : List Nat) (state : State)
    (address : Nat), Faulting ghost free state address → Ordinary state → address < ustackTop →
      Settles state address → Legal state address := by
  intro legal
  rcases sample_guarded.2 with ⟨ghost, free, state, guarded⟩
  have served := endsIn_served guarded.ended
  rw [← guarded.curenv] at served
  have stack := (legal ghost free state guardPage guarded.faulting guarded.ordinary
    guardPage_below (.inl served)).mp served
  exact absurd stack.1 (by decide)

end Sample

end FosKernel.InvalidAccess
