import FosKernel.Refinement.PageEntries
import FosKernel.Properties.KernelHeap

/-! # `__sys_allocate_page`

What the calls take from the list of free frames and what they leave there.
-/

namespace FosKernel.AllocatePage

/-! ## The page at `USER_LIMIT` -/

section Limit

variable {state final : State} {env frame : Nat} {rest : Kernel α} {result : α}

/-- The environment has the boot table of `USER_LIMIT` in its directory. -/
def LimitTable (state : State) (env : Nat) : Prop :=
  getPageTable state (.env env) userLimit = .ok (.inMemory, .boot (pdx userLimit))

theorem LimitTable.congr (limit : LimitTable state env) (upper : KernelPart state final) :
    LimitTable final env := by
  have kernel : checkIfKernelAddress userLimit := by decide
  have entry : ∀ other, final.pageDirectory other (pdx userLimit) =
      state.pageDirectory other (pdx userLimit) := fun other =>
    upper.directory other _ (by decide)
  rw [LimitTable, getPageTable_kernel _ kernel] at limit ⊢
  rw [← limit]
  simp only [kernelPageTable, staticTable, entry, upper.numberOfFrames]

theorem limitEntry (state : State) (owner : Directory) :
    state.pageEntry owner (ppn userLimit) = state.bootTables (ppn userLimit) :=
  if_neg (by decide)

theorem limitEntryAt (state : State) (owner : Directory) :
    EntryAt state owner userLimit (.boot (pdx userLimit)) := .boot (by decide)

/-- Nothing is mapped there yet. -/
theorem LimitTable.nothing (limit : LimitTable state env)
    (empty : state.bootTables (ppn userLimit) = 0) :
    getFrameInfo state (.env env) userLimit = .ok (none, .boot (pdx userLimit)) := by
  have loaded := (limitEntryAt state (.env env)).loaded
  rw [limitEntry, empty] at loaded
  rw [getFrameInfo, limit]
  simp only [frameAt, loaded, bind, Except.bind]
  rfl

/-- Calls around the same page table. -/
theorem LimitTable.pointer (limit : LimitTable state env) {info : Option Nat}
    {pointer : TablePointer}
    (found : getFrameInfo state (.env env) userLimit = .ok (info, pointer)) :
    pointer = .boot (pdx userLimit) := by
  rcases Except.bind_ok.mp found with ⟨⟨status, table⟩, looked, framed⟩
  rcases Except.bind_ok.mp framed with ⟨value, -, ended⟩
  rw [limit] at looked
  cases looked
  cases ended
  rfl

theorem LimitTable.unmap (limit : LimitTable state env)
    (occupied : state.bootTables (ppn userLimit) ≠ 0)
    (returned : unmapFrame (.env env) userLimit state = .ok ((), final)) :
    final = state.clearEntry (.env env) userLimit := by
  rcases Kernel.bind_observe_ok.mp returned with ⟨⟨info, pointer⟩, found, -⟩
  rcases limit.pointer found with rfl
  have run := unmapFrame_run found (fun null => by cases null) (limitEntryAt state (.env env))
    (by rwa [limitEntry])
  rw [run] at returned
  cases returned
  rfl

section Bracket

variable {perm : Word}

/-- The state in which the frame is mapped there. -/
def mappedAtLimit (state : State) (frame : Nat) (perm : Word) : State :=
  (state.addReferences frame 1).setBootEntry (ppn userLimit) (mapWord frame perm)

theorem LimitTable.enter (limit : LimitTable state env) (bound : frame < 2 ^ 20) (low : Low perm)
    (empty : state.bootTables (ppn userLimit) = 0) :
    mapFrame (.env env) frame userLimit perm state = .ok ((), mappedAtLimit state frame perm) ∧
      kernelFrame (mappedAtLimit state frame perm) userLimit = .ok frame := by
  have absent : ¬hasPerm (state.pageEntry (.env env) (ppn userLimit)) permPresent = true := by
    rw [limitEntry, empty]
    decide
  have kernel : userTop ≤ userLimit := by decide
  have entered : state.enterFrame (.env env) frame userLimit perm =
      mappedAtLimit state frame perm := by
    rw [State.enterFrame_adds absent, State.putPageEntry_kernel kernel, mappedAtLimit]
  refine ⟨?_, ?_⟩
  · rw [← entered]
    exact mapFrame_run (limit.nothing empty) (fun null => by cases null)
      (limitEntryAt state (.env env))
  · have refers : frameOf (mapWord frame perm) = frame := frameOf_mapWord bound low
    rw [mappedAtLimit, kernelFrame]
    simp only [State.setBootEntry, Function.update_self, present_mapWord, if_true, refers]

theorem LimitTable.atLimit (limit : LimitTable state env) (memory sectors : Nat → Nat → Word) :
    LimitTable (({ mappedAtLimit state frame perm with memory, sectors } : State).addReferences
      frame 1) env := limit.congr ⟨rfl, fun _ _ _ => rfl⟩

theorem atLimit_occupied (memory sectors : Nat → Nat → Word) :
    (({ mappedAtLimit state frame perm with memory, sectors } : State).addReferences
      frame 1).bootTables (ppn userLimit) = mapWord frame perm := by
  simp [mappedAtLimit, State.addReferences, State.setFrameInfo, State.setBootEntry]

/-- The references counted up and down and the unmapping leave nothing of the mapping behind. -/
theorem limit_neutral (bound : frame < 2 ^ 20) (low : Low perm)
    (empty : state.bootTables (ppn userLimit) = 0)
    (few : (state.framesInfo frame).references < 2 ^ 16 - 1) (memory sectors : Nat → Nat → Word) :
    (((({ mappedAtLimit state frame perm with memory, sectors } : State).addReferences
        frame 1).clearEntry (.env env) userLimit).addReferences frame (2 ^ 16 - 1)) =
      { state with memory, sectors } := by
  have kernel : userTop ≤ userLimit := by decide
  have refers : frameOf (mapWord frame perm) = frame := frameOf_mapWord bound low
  have table : Function.update (Function.update state.bootTables (ppn userLimit)
      (mapWord frame perm)) (ppn userLimit) 0 = state.bootTables := by
    rw [Function.update_idem, ← empty, Function.update_eq_self]
  rw [State.clearEntry, State.putPageEntry_kernel kernel, limitEntry, atLimit_occupied, refers]
  generalize same : state.framesInfo frame = info at few
  have counted : (((info.references + 1) % 2 ^ 16 + 1) % 2 ^ 16 + (2 ^ 16 - 1)) % 2 ^ 16 =
      info.references + 1 := by omega
  have restored : (info.references + 1 + (2 ^ 16 - 1)) % 2 ^ 16 = info.references := by omega
  have back : Function.update state.framesInfo frame info = state.framesInfo := by
    rw [← same, Function.update_eq_self]
  simp only [mappedAtLimit, State.decrement, State.addReferences, State.setFrameInfo,
    State.setBootEntry, Function.update_self, Function.update_idem, same, counted]
  rw [if_neg (Nat.succ_ne_zero _)]
  simp only [Function.update_self, Function.update_idem, table, restored]
  exact congrArg (fun records => { state with framesInfo := records, memory, sectors }) back

end Bracket

theorem zeroedAtLimit (limit : LimitTable state env) (bound : frame < 2 ^ 20)
    (empty : state.bootTables (ppn userLimit) = 0)
    (blank : state.framesInfo frame = FrameInfo.zero)
    (returned : (do
      mapFrame (.env env) frame userLimit permWriteable
      let mapped ← observe fun state => kernelFrame state userLimit
      modify fun state => state.setPage mapped fun _ => 0
      addReferences frame 1
      unmapFrame (.env env) userLimit
      addReferences frame (2 ^ 16 - 1)
      rest : Kernel α) state = .ok (result, final)) :
    rest (state.setPage frame fun _ => 0) = .ok (result, final) := by
  rcases @LimitTable.enter _ _ _ permWriteable limit bound (by decide) empty with ⟨mapped, reached⟩
  rw [Kernel.bind_run mapped, Kernel.observe_run reached] at returned
  replace returned := Kernel.bind_modify_ok.mp returned
  rcases Kernel.bind_ok.mp returned with ⟨_, counted, referred, unmapping⟩
  rcases addReferences_ok referred with rfl
  rcases Kernel.bind_ok.mp unmapping with ⟨_, cleared, unmapped, ending⟩
  have occupied := ne_zero_of_present (present_mapWord frame permWriteable)
  rw [← atLimit_occupied (Function.update state.memory frame fun _ => 0) state.sectors]
    at occupied
  rcases (limit.atLimit (Function.update state.memory frame fun _ => 0) state.sectors).unmap
    occupied unmapped with rfl
  rcases Kernel.bind_ok.mp ending with ⟨_, restored, dropped, ended⟩
  rcases addReferences_ok dropped with rfl
  have neutral := @limit_neutral state env frame permWriteable bound (by decide) empty
    (by rw [blank]; decide) (Function.update state.memory frame fun _ => 0) state.sectors
  have same : ({ state with memory := Function.update state.memory frame fun _ => 0 } : State) =
      state.setPage frame fun _ => 0 := rfl
  rw [← same, ← neutral]
  exact ended

end Limit

/-! ## What a call must do -/

/-- A call of `SYS_allocate_page`. -/
structure Call where
  caller : Nat
  va : Nat
  perm : Word

def Call.run (call : Call) (state : State) : Except Stop (AllocatePageCode × State) :=
  sysAllocatePage call.va call.perm { state with curenv := call.caller }

/-- The arguments pass the checks. -/
structure Call.Checked (call : Call) : Prop where
  user : call.va < userTop
  aligned : call.va % 4096 = 0
  perm : call.perm &&& (~~~permAvailable &&& ~~~permWriteable) = permUser

abbrev Call.slot (call : Call) : Slot := .user call.caller (ppn call.va)

abbrev Call.entry (call : Call) (state : State) : Word :=
  state.pageEntry call.caller (ppn call.va)

/-- The list of free frames. -/
def FreeList (state : State) (frames : List Nat) : Prop :=
  Represents state.frameLinks state.freeFrameList frames

/-- Frames, counts and page tables are as they were. -/
structure Unchanged (before after : State) : Prop where
  freeList : ∀ frames, FreeList before frames → FreeList after frames
  references : ∀ frame, (after.framesInfo frame).references =
    (before.framesInfo frame).references
  entries : ∀ owner page, after.pageEntry owner page = before.pageEntry owner page

/-- The frame that was at the page, if this was its only reference. -/
def lastReference (call : Call) (before : State) : List Nat :=
  if call.entry before ≠ 0 ∧ (before.framesInfo (frameOf (call.entry before))).references = 1 then
    [frameOf (call.entry before)]
  else []

/-- The page gets a frame of zeros, the frame that was there loses a reference, and no frame
but these and one for a page table enters or leaves the list of free frames. -/
structure Obtains (call : Call) (before after : State) (frame : Nat) : Prop where
  mapped : call.entry after = constructEntry frame (call.perm ||| permPresent)
  zeros : after.memory frame = fun _ => 0
  references : (after.framesInfo frame).references = 1
  replaced : call.entry before ≠ 0 →
    (after.framesInfo (frameOf (call.entry before))).references =
      ((before.framesInfo (frameOf (call.entry before))).references + (2 ^ 16 - 1)) % 2 ^ 16
  freeList : ∃ old tables kept new, FreeList before old ∧ FreeList after new ∧
    tables.length ≤ 1 ∧ old.Perm (frame :: tables ++ kept) ∧
    new.Perm (lastReference call before ++ kept)

/-- A call in a run. -/
structure Step where
  before : State
  call : Call
  code : AllocatePageCode
  after : State

/-- No frame is lost. -/
def Step.Conserves (step : Step) : Prop :=
  match step.code with
  | .inval => Unchanged step.before step.after
  | .success => ∃ frame, Obtains step.call step.before step.after frame

/-- The arguments pass the checks and no frame is buffered at the page. -/
structure Step.Proper (step : Step) : Prop where
  checked : step.call.Checked
  unbuffered : step.call.entry step.before ≠ 0 →
    hasPerm (step.call.entry step.before) permPresent = true

/-- A sequence of calls that return. -/
inductive Run : State → List Step → State → Prop
  | nil (state : State) : Run state [] state
  | cons {before after final : State} {call : Call} {code : AllocatePageCode}
      {steps : List Step} : call.run before = .ok (code, after) → Run after steps final →
      Run before (⟨before, call, code, after⟩ :: steps) final

/-! ## One call -/

theorem low_of_checked {perm : Word}
    (checked : perm &&& (~~~permAvailable &&& ~~~permWriteable) = permUser) : Low perm := by
  have bound : perm = perm &&& 0xFFF#32 := by
    apply BitVec.eq_of_getLsbD_eq
    intro bit inside
    rw [BitVec.getLsbD_and]
    by_cases low : bit < 12
    · have mask : ∀ bit < 12, (0xFFF#32).getLsbD bit = true := by decide
      rw [mask bit low, Bool.and_true]
    · have same := congrArg (fun word => word.getLsbD bit) checked
      have available := Low.getLsbD (by decide : Low permAvailable) (by omega : 12 ≤ bit)
      have writeable := Low.getLsbD (by decide : Low permWriteable) (by omega : 12 ≤ bit)
      have user := Low.getLsbD (by decide : Low permUser) (by omega : 12 ≤ bit)
      simp only [BitVec.getLsbD_and, BitVec.getLsbD_not, inside, available, writeable, user,
        decide_true, Bool.not_false, Bool.and_true] at same
      rw [same, Bool.false_and]
  rw [Low, bound, BitVec.toNat_and]
  exact Nat.lt_of_le_of_lt Nat.and_le_right (by decide)

section Frames

variable {ghost : Ghost} {view final : View} {slot : Slot} {frame : Nat} {perm : Word}

/-- Memory between two calls, as far as the calls depend on it. -/
structure Accounted (ghost : Ghost) (view : View) : Prop where
  consistent : Consistent ghost view
  inactive : ghost.active = ∅
  few : ∀ frame, (ghost.holders frame).card < 2 ^ 16

/-- The frame at a page, if nothing else refers to it. -/
def onlyHeld (ghost : Ghost) (view : View) (slot : Slot) : List Nat :=
  if view.entry slot ≠ 0 ∧ ghost.holders (frameOf (view.entry slot)) = {slot} then
    [frameOf (view.entry slot)]
  else []

theorem Accounted.attach (accounted : Accounted ghost view) (managed : frame ∈ ghost.managed)
    (unlisted : ¬ghost.Listed frame) (unheld : ghost.holders frame = ∅)
    (empty : view.entry slot = 0) (low : Low perm) :
    Accounted (ghost.attach frame slot) (view.attach frame slot (mapWord frame perm)) where
  consistent := by
    refine accounted.consistent.attach managed unlisted empty
      (ne_zero_of_present (present_mapWord frame perm))
      (frameOf_mapWord (accounted.consistent.bounded frame managed) low)
      (present_mapWord frame perm) (by rw [unheld]; decide)
      (fun table nonzero => accounted.consistent.table_frame_ne unheld nonzero) ?_ ?_
    · rw [accounted.inactive]
      simp
    · rw [accounted.inactive]
      simp
  inactive := accounted.inactive
  few := by
    intro other
    by_cases same : other = frame
    · subst same
      rw [Ghost.attach_holders_self, unheld]
      simp
    · rw [Ghost.attach_holders_of_ne same]
      exact accounted.few other

theorem Accounted.unmap (accounted : Accounted ghost view)
    (userSlot : ∃ owner page, slot = .user owner page)
    (held : slot ∈ ghost.holders frame) (unlisted : ¬ghost.Listed frame) :
    Accounted (ghost.unmap frame slot) (view.detach frame slot) where
  consistent := by
    refine accounted.consistent.detach held unlisted (accounted.few frame) ?_ ?_
    · intro table nonzero same
      rcases accounted.consistent.tableHeld table nonzero with ⟨page, single⟩
      rw [same] at single
      rw [single, Finset.mem_singleton] at held
      rcases userSlot with ⟨owner, userPage, rfl⟩
      cases held
    · rw [accounted.inactive]
      simp
  inactive := accounted.inactive
  few := fun other => Nat.lt_of_le_of_lt (Finset.card_erase_le) (accounted.few other)

/-- A new frame is entered at a page that is empty or present. -/
theorem Accounted.enter (accounted : Accounted ghost view)
    (mapping : PageMapping view slot frame (mapWord frame perm) final)
    (userSlot : ∃ owner page, slot = .user owner page) (managed : frame ∈ ghost.managed)
    (unlisted : ¬ghost.Listed frame) (unheld : ghost.holders frame = ∅) (low : Low perm)
    (visible : slot ∉ ghost.uncounted)
    (unbuffered : view.entry slot ≠ 0 → hasPerm (view.entry slot) permPresent = true) :
    ∃ after, Accounted after final ∧ after.uncounted = ghost.uncounted ∧
      after.free = onlyHeld ghost view slot ++ ghost.free := by
  cases mapping with
  | same present equal =>
      have held := accounted.consistent.mem_holders.mpr
        ⟨visible, ne_zero_of_present present, equal⟩
      rw [unheld] at held
      exact absurd held (Finset.notMem_empty slot)
  | new absent =>
      have empty : view.entry slot = 0 := by
        by_contra nonzero
        rw [unbuffered nonzero] at absent
        cases absent
      refine ⟨_, accounted.attach managed unlisted unheld empty low, rfl, ?_⟩
      simp [onlyHeld, empty, Ghost.attach]
  | replaced present different =>
      have nonzero := ne_zero_of_present present
      have held := accounted.consistent.mem_holders.mpr ⟨visible, nonzero, rfl⟩
      have oldUnlisted := accounted.consistent.not_listed_of_present held present
      have unmapped := accounted.unmap userSlot held oldUnlisted
      have stillUnlisted : ¬(ghost.unmap (frameOf (view.entry slot)) slot).Listed frame := by
        simp only [Ghost.unmap]
        split
        · simpa [Ghost.Listed, Ghost.detach, Ne.symm different] using unlisted
        · exact unlisted
      have stillUnheld : (ghost.unmap (frameOf (view.entry slot)) slot).holders frame = ∅ := by
        simp [Ghost.unmap, Ghost.detach, unheld]
      have empty : (view.detach (frameOf (view.entry slot)) slot).entry slot = 0 := by
        simp [View.detach, View.setEntry]
      refine ⟨_, unmapped.attach managed stillUnlisted stillUnheld empty low, rfl, ?_⟩
      simp only [onlyHeld, nonzero, Ghost.attach, Ghost.unmap, ne_eq, not_false_eq_true, true_and]
      split <;> rfl

end Frames

section Calls

variable {ghost : Ghost} {state final : State} {call : Call} {code : AllocatePageCode}
variable {frame : Nat}

/-- Memory before a call. -/
structure Ready (ghost : Ghost) (state : State) : Prop where
  accounted : Accounted ghost state.view
  limitFree : state.bootTables (ppn userLimit) = 0

/-- The frame that the call has got, cleared. -/
def cleared (call : Call) (state : State) (frame : Nat) : State :=
  (({ state with curenv := call.caller } : State).allocate frame).setPage frame fun _ => 0

/-- A frame is taken before anything else. -/
theorem run_takes (ready : Ready ghost state) (returned : call.run state = .ok (code, final)) :
    ∃ frame ∈ ghost.free,
      Accounted { ghost with free := ghost.free.erase frame } (state.view.allocate frame) ∧
      Fresh { ghost with free := ghost.free.erase frame } (state.view.allocate frame) frame ∧
      ((¬call.Checked ∧ code = .inval ∧
          final = ({ state with curenv := call.caller } : State).allocate frame) ∨
        call.Checked ∧ (LimitTable state call.caller →
          mapFrame call.caller frame call.va call.perm (cleared call state frame) =
            .ok ((), final) ∧ code = .success)) := by
  replace returned := Kernel.bind_get_ok.mp returned
  rcases Kernel.bind_ok.mp returned with ⟨frame, taken, allocated, checks⟩
  have consistent : Consistent ghost ({ state with curenv := call.caller } : State).view :=
    ready.accounted.consistent
  rcases allocateFrame_consistent consistent allocated with ⟨member, rfl, left, fresh⟩
  refine ⟨frame, member, ⟨left, ready.accounted.inactive, ready.accounted.few⟩, fresh, ?_⟩
  rcases Kernel.ite_ok.mp checks with ⟨outside, ended⟩ | ⟨inside, checks⟩
  · rcases Kernel.pure_ok.mp ended with ⟨rfl, rfl⟩
    refine .inl ⟨fun checked => ?_, rfl, rfl⟩
    exact outside.elim (Nat.not_le.mpr checked.user) fun unaligned => unaligned checked.aligned
  rcases Kernel.ite_ok.mp checks with ⟨wrong, ended⟩ | ⟨right, zeroing⟩
  · rcases Kernel.pure_ok.mp ended with ⟨rfl, rfl⟩
    exact .inl ⟨fun checked => wrong checked.perm, rfl, rfl⟩
  · have checked : call.Checked := by
      refine ⟨by omega, by omega, ?_⟩
      by_contra different
      exact right different
    refine .inr ⟨checked, fun limit => ?_⟩
    have limitThere : LimitTable (({ state with curenv := call.caller } : State).allocate frame)
        call.caller := limit.congr ⟨rfl, fun _ _ _ => rfl⟩
    have blank : (({ state with curenv := call.caller } : State).allocate frame).framesInfo
        frame = FrameInfo.zero := fresh.zero
    replace zeroing := zeroedAtLimit limitThere (left.bounded frame fresh.managed)
      ready.limitFree blank zeroing
    rcases Kernel.bind_ok.mp zeroing with ⟨_, _, mapped, ended⟩
    rcases Kernel.pure_ok.mp ended with ⟨rfl, rfl⟩
    exact ⟨mapped, rfl⟩

/-- The call has a frame of zeros for the page, and nothing else has changed. -/
structure Prepared (call : Call) (before : State) (ghost : Ghost) (middle : State)
    (frame : Nat) : Prop where
  ready : Ready ghost middle
  fresh : Fresh ghost middle.view frame
  upper : KernelPart before middle
  zeros : middle.memory frame = fun _ => 0
  entry : call.entry middle = call.entry before
  old : call.entry before ≠ 0 → frameOf (call.entry before) ≠ frame →
    (middle.framesInfo (frameOf (call.entry before))).references =
      (before.framesInfo (frameOf (call.entry before))).references

theorem Prepared.slotEntry {middle : State} (user : call.va < userTop) :
    call.entry middle = middle.view.entry call.slot :=
  if_pos (address_user user).1

theorem onlyHeld_eq (consistent : Consistent ghost state.view) (user : call.va < userTop)
    (visible : call.slot ∉ ghost.uncounted)
    (unbuffered : call.entry state ≠ 0 → hasPerm (call.entry state) permPresent = true) :
    onlyHeld ghost state.view call.slot = lastReference call state := by
  have entry : call.entry state = state.view.entry call.slot := Prepared.slotEntry user
  rw [lastReference, onlyHeld, ← entry]
  by_cases nonzero : call.entry state = 0
  · simp [nonzero]
  · have held : call.slot ∈ ghost.holders (frameOf (call.entry state)) :=
      consistent.mem_holders.mpr ⟨visible, entry ▸ nonzero, entry ▸ rfl⟩
    have unlisted := consistent.not_listed_of_present held (entry ▸ unbuffered nonzero)
    have count : (state.framesInfo (frameOf (call.entry state))).references =
        (ghost.holders (frameOf (call.entry state))).card :=
      consistent.counted _ (consistent.heldManaged _ ⟨_, held⟩) unlisted
    have single : ghost.holders (frameOf (call.entry state)) = {call.slot} ↔
        (state.framesInfo (frameOf (call.entry state))).references = 1 := by
      rw [count, Finset.card_eq_one]
      constructor
      · exact fun single => ⟨_, single⟩
      · rintro ⟨other, single⟩
        rw [single, Finset.mem_singleton] at held
        rw [single, held]
    simp only [single]

/-- The frame is entered. -/
theorem Prepared.enter {middle : State} (prepared : Prepared call state ghost middle frame)
    (present : hasPerm (directoryEntry middle call.caller call.va) permPresent = true)
    (checked : call.Checked) (visible : call.slot ∉ ghost.uncounted)
    (unbuffered : call.entry state ≠ 0 → hasPerm (call.entry state) permPresent = true)
    (mapping : UserMapping middle call.caller frame call.va call.perm final) :
    ∃ after, Ready after final ∧ after.uncounted = ghost.uncounted ∧ KernelPart state final ∧
      after.free = onlyHeld ghost middle.view call.slot ++ ghost.free ∧
      call.entry final = mapWord frame call.perm ∧ final.memory frame = (fun _ => 0) ∧
      (final.framesInfo frame).references = 1 ∧
      (call.entry state ≠ 0 →
        (final.framesInfo (frameOf (call.entry state))).references =
          ((state.framesInfo (frameOf (call.entry state))).references + (2 ^ 16 - 1)) %
            2 ^ 16) := by
  have user := checked.user
  have consistent := prepared.ready.accounted.consistent
  have entry : call.entry middle = middle.view.entry call.slot := Prepared.slotEntry user
  have tableThere : TablePresent middle call.caller call.va := fun _ => present
  have different : call.entry middle ≠ 0 → frameOf (call.entry middle) ≠ frame := by
    intro nonzero same
    have held := consistent.mem_holders.mpr
      (show call.slot ∉ ghost.uncounted ∧ middle.view.entry call.slot ≠ 0 ∧
        frameOf (middle.view.entry call.slot) = frame from
          ⟨visible, entry ▸ nonzero, entry ▸ same⟩)
    rw [prepared.fresh.unheld] at held
    exact Finset.notMem_empty _ held
  have enters : ¬EarlyReturn middle call.caller frame call.va := fun early =>
    different (ne_zero_of_present early.1) early.2
  rcases prepared.ready.accounted.enter (mapping.pageMapping consistent.toPlacement user
      present) ⟨_, _, rfl⟩ prepared.fresh.managed prepared.fresh.unlisted
      prepared.fresh.unheld (low_of_checked checked.perm) visible
      (by rw [← entry, prepared.entry]; exact unbuffered) with
    ⟨after, accounted, uncounted, free⟩
  have entered := mapping.enterFrame user
  rcases @State.enterFrame_user middle call.caller frame call.va call.perm user with
    ⟨boot, directory, frames, memory⟩
  rw [← entered] at boot directory frames memory
  have table : frame ≠ frameOf (directoryEntry middle call.caller call.va) := by
    intro same
    have nonzero : middle.view.table (.page call.caller (pdx call.va)) ≠ 0 := by
      rw [tableEntry_page (address_user user).2]
      exact ne_zero_of_present present
    refine consistent.table_frame_ne prepared.fresh.unheld nonzero ?_
    rw [tableEntry_page (address_user user).2]
    exact same.symm
  refine ⟨after, ⟨accounted, by rw [boot]; exact prepared.ready.limitFree⟩, uncounted,
    prepared.upper.trans ⟨frames, fun _ _ _ => by rw [directory]⟩, free, ?_, ?_, ?_, ?_⟩
  · rw [entered]
    exact State.enterFrame_entry consistent.toPlacement tableThere enters
  · rw [memory frame table, prepared.zeros]
  · have zero : (middle.framesInfo frame).references = 0 :=
      congrArg FrameInfo.references prepared.fresh.zero
    rw [entered, State.enterFrame_references enters, zero]
    decide
  · intro nonzero
    rw [← prepared.entry] at nonzero
    have mapped := unbuffered (prepared.entry ▸ nonzero)
    rw [← prepared.entry] at mapped
    have replaced : (final.framesInfo (frameOf (call.entry middle))).references =
        ((middle.framesInfo (frameOf (call.entry middle))).references + (2 ^ 16 - 1)) %
          2 ^ 16 := by
      rw [entered]
      exact State.enterFrame_replaced mapped (different nonzero)
    rw [prepared.entry] at replaced
    rw [replaced, prepared.old (prepared.entry ▸ nonzero) (prepared.entry ▸ different nonzero)]

/-- The cleared frame, before its page is looked up. -/
theorem cleared_view (fresh : Fresh { ghost with free := ghost.free.erase frame }
      (state.view.allocate frame) frame)
    (consistent : Consistent { ghost with free := ghost.free.erase frame }
      (state.view.allocate frame)) :
    (cleared call state frame).view = state.view.allocate frame := by
  have noTable : NoPageTable (({ state with curenv := call.caller } : State).allocate frame).view
      frame := fun owner index nonzero =>
    @Consistent.table_frame_ne _ _ _ consistent fresh.unheld (.page owner index) nonzero
  exact State.view_setPage noTable _

/-- The frame is cleared. -/
theorem prepared_cleared (ready : Ready ghost state)
    (accounted : Accounted { ghost with free := ghost.free.erase frame }
      (state.view.allocate frame))
    (fresh : Fresh { ghost with free := ghost.free.erase frame } (state.view.allocate frame)
      frame) (user : call.va < userTop) :
    Prepared call state { ghost with free := ghost.free.erase frame } (cleared call state frame)
      frame where
  ready := by
    refine ⟨?_, ready.limitFree⟩
    rw [cleared_view fresh accounted.consistent]
    exact accounted
  fresh := by
    rw [cleared_view fresh accounted.consistent]
    exact fresh
  upper := ⟨rfl, fun _ _ _ => rfl⟩
  zeros := by simp [cleared, State.setPage]
  entry := by
    rw [Prepared.slotEntry user, Prepared.slotEntry user,
      cleared_view fresh accounted.consistent]
    rfl
  old := by
    intro _ different
    simp [cleared, State.setPage, State.allocate, State.withFree, different]

/-- One frame went to the new page table. -/
theorem growth_perm {after : Ghost} {view final : View} {page table : Nat}
    (growth : HeapGrowth ghost view [page] after final)
    (handed : HandedOut ghost after final table page) :
    ghost.free.Perm (table :: after.free) := by
  have nodup : (table :: after.free).Nodup :=
    List.nodup_cons.mpr ⟨handed.taken, growth.consistent.lists.first.nodup⟩
  have within : table :: after.free ⊆ ghost.free := by
    intro other member
    rcases List.mem_cons.mp member with rfl | left
    · exact handed.free
    · exact growth.subset other left
  have length := growth.length
  simp only [List.length_cons, List.length_nil] at length
  exact ((nodup.subperm within).perm_of_length_le (by simp only [List.length_cons]; omega)).symm

theorem Accounted.grow {after : Ghost} {view final : View} {page : Nat}
    (accounted : Accounted ghost view) (growth : HeapGrowth ghost view [page] after final) :
    Accounted after final where
  consistent := growth.consistent
  inactive := growth.active.trans accounted.inactive
  few := by
    intro other
    by_cases kept : other ∉ ghost.free ∨ other ∈ after.free
    · rw [(growth.kept other kept).2]
      exact accounted.few other
    · push Not at kept
      rcases growth.taken other kept.1 kept.2 with ⟨_, -, handed⟩
      rw [handed.held, Finset.card_singleton]
      decide

theorem entry_absent (user : call.va < userTop)
    (absent : directoryEntry state call.caller call.va = 0) : call.entry state = 0 := by
  rw [Prepared.slotEntry user]
  exact entry_user_absent absent

/-- A page table has been made. -/
theorem Prepared.make {middle between : State} {after : Ghost} {newPT : Nat}
    (prepared : Prepared call state ghost between frame) (user : call.va < userTop)
    (absent : directoryEntry between call.caller call.va = 0)
    (made : MadeTable ghost between call.caller call.va newPT after middle) :
    Prepared call state after middle frame ∧ after.uncounted = ghost.uncounted ∧
      ∃ table, ghost.free.Perm (table :: after.free) := by
  rcases made.table.growth with ⟨table, page, grown, growth, handed, view⟩
  have notFree : frame ∉ ghost.free := fun inFree => prepared.fresh.unlisted (.inl inFree)
  have kept := growth.kept frame (.inl notFree)
  have empty : call.entry state = 0 := by
    rw [← prepared.entry]
    exact entry_absent user absent
  have later := prepared.ready.accounted.grow growth
  have unheld := prepared.fresh.unheld
  refine ⟨?_, growth.uncounted, table,
    growth_perm growth handed⟩
  exact
    { ready :=
        { accounted :=
            ⟨made.table.background.evolves.consistent, later.inactive, later.few⟩
          limitFree := by
            have apart : ppn userLimit ≠ ppn newPT := by
              have lower := made.heap.lower
              simp only [ppn, userLimit, kernelHeapStart] at lower ⊢
              omega
            rw [← limitEntry middle .kernel, made.others .kernel _ apart, limitEntry]
            exact prepared.ready.limitFree }
      fresh :=
        { managed := growth.managed ▸ prepared.fresh.managed
          unlisted := by
            rintro (inFree | inModified)
            · exact notFree (growth.subset frame inFree)
            · exact prepared.fresh.unlisted (.inr (growth.modified ▸ inModified))
          unheld := kept.2.trans unheld
          zero := by
            rw [view]
            exact kept.1.trans prepared.fresh.zero }
      upper := prepared.upper.trans made.upper
      zeros := by
        rw [made.table.background.apart frame prepared.fresh.unlisted (by simp [unheld])]
        exact prepared.zeros
      entry := made.empty.trans empty.symm
      old := fun nonzero => absurd empty nonzero }

/-- The frame that is mapped, and what has become of the list of free frames. -/
theorem run_proper (ready : Ready ghost state) (limit : LimitTable state call.caller)
    (visible : call.slot ∉ ghost.uncounted) (checked : call.Checked)
    (unbuffered : call.entry state ≠ 0 → hasPerm (call.entry state) permPresent = true)
    (returned : call.run state = .ok (code, final)) :
    code = .success ∧ (∃ frame, Obtains call state final frame) ∧ KernelPart state final ∧
      ∃ after, Ready after final ∧ after.uncounted = ghost.uncounted := by
  rcases run_takes ready returned with
    ⟨frame, member, accounted, fresh, ⟨unchecked, -⟩ | ⟨-, maps⟩⟩
  · exact absurd checked unchecked
  rcases maps limit with ⟨mapped, rfl⟩
  have user := checked.user
  have prepared : Prepared call state _ (cleared call state frame) frame :=
    prepared_cleared ready accounted fresh user
  have old : FreeList state ghost.free := ready.accounted.consistent.lists.first
  have taken : ghost.free.Perm (frame :: ghost.free.erase frame) :=
    List.perm_cons_erase member
  rcases mapFrame_cases prepared.ready.accounted.consistent user mapped with
    ⟨present, mapping⟩ | ⟨absent, newPT, after, middle, made, rfl⟩
  · rcases prepared.enter present checked visible unbuffered mapping with
      ⟨after, later, uncounted, upper, free, entry, zeros, references, replaced⟩
    have back : after.free = lastReference call state ++ ghost.free.erase frame := by
      rw [free, cleared_view fresh accounted.consistent,
        ← onlyHeld_eq ready.accounted.consistent user visible unbuffered]
      rfl
    refine ⟨rfl, ⟨frame, entry, zeros, references, replaced, ?_⟩, upper, after, later,
      uncounted⟩
    exact ⟨ghost.free, [], ghost.free.erase frame, after.free, old,
      later.accounted.consistent.lists.first, by simp, taken, back ▸ List.Perm.refl _⟩
  · rcases prepared.make user absent made with ⟨preparedThere, uncounted, table, perm⟩
    have empty : middle.pageEntry call.caller (ppn call.va) = 0 := made.empty
    have mapping : UserMapping middle call.caller frame call.va call.perm
        (middle.enterFrame call.caller frame call.va call.perm) := by
      have unmapped : hasPerm (middle.view.entry (.user call.caller (ppn call.va)))
          permPresent = false := by
        rw [show middle.view.entry (.user call.caller (ppn call.va)) = 0 from
          (Prepared.slotEntry user).symm.trans empty]
        decide
      have entered := @UserMapping.new _ _ frame _ call.perm unmapped
      have same := entered.enterFrame user
      rwa [same] at entered
    rcases preparedThere.enter made.table.present checked (uncounted ▸ visible) unbuffered
        mapping with
      ⟨last, later, uncountedLater, upper, free, entry, zeros, references, replaced⟩
    have none : lastReference call state = [] := by
      have zero : call.entry state = 0 := preparedThere.entry.symm.trans made.empty
      simp [lastReference, zero]
    have back : last.free = after.free := by
      have zero : middle.view.entry call.slot = 0 :=
        (Prepared.slotEntry user).symm.trans made.empty
      rw [free]
      simp [onlyHeld, zero]
    refine ⟨rfl, ⟨frame, entry, zeros, references, replaced, ?_⟩, upper, last, later,
      uncountedLater.trans uncounted⟩
    refine ⟨ghost.free, [table], after.free, last.free, old,
      later.accounted.consistent.lists.first, by simp, ?_, ?_⟩
    · exact taken.trans (perm.cons frame)
    · rw [none, back]
      exact List.Perm.refl _

/-- A call with wrong arguments keeps the frame it took. -/
theorem run_unchecked (ready : Ready ghost state) (unchecked : ¬call.Checked)
    (returned : call.run state = .ok (code, final)) :
    ¬Step.Conserves ⟨state, call, code, final⟩ := by
  rcases run_takes ready returned with
    ⟨frame, member, accounted, fresh, ⟨-, rfl, rfl⟩ | ⟨checked, -⟩⟩
  · intro unchanged
    have before : FreeList state ghost.free := ready.accounted.consistent.lists.first
    have size := (unchanged.freeList ghost.free before).size
    have less := accounted.consistent.lists.first.size
    have lengths : ghost.free.length = (ghost.free.erase frame).length := size.symm.trans less
    have positive := List.length_pos_of_mem member
    rw [List.length_erase_of_mem member] at lengths
    omega
  · exact absurd checked unchecked

/-- The frame of a buffered page keeps its reference. -/
theorem run_buffered (ready : Ready ghost state) (limit : LimitTable state call.caller)
    (visible : call.slot ∉ ghost.uncounted) (checked : call.Checked)
    (nonzero : call.entry state ≠ 0)
    (buffered : ¬hasPerm (call.entry state) permPresent = true)
    (returned : call.run state = .ok (code, final)) :
    ¬Step.Conserves ⟨state, call, code, final⟩ := by
  rcases run_takes ready returned with
    ⟨frame, member, accounted, fresh, ⟨unchecked, -⟩ | ⟨-, maps⟩⟩
  · exact absurd checked unchecked
  rcases maps limit with ⟨mapped, rfl⟩
  rintro ⟨obtained, obtains⟩
  have user := checked.user
  have consistent := ready.accounted.consistent
  have prepared : Prepared call state _ (cleared call state frame) frame :=
    prepared_cleared ready accounted fresh user
  have different : frameOf (call.entry state) ≠ frame := by
    intro same
    have held : call.slot ∈ ghost.holders frame := by
      rw [Prepared.slotEntry user] at nonzero same
      exact consistent.mem_holders.mpr ⟨visible, nonzero, same⟩
    have unheld : ghost.holders frame = ∅ := fresh.unheld
    rw [unheld] at held
    exact Finset.notMem_empty _ held
  rcases mapFrame_cases prepared.ready.accounted.consistent user mapped with
    ⟨-, mapping⟩ | ⟨absent, -⟩
  · have same := prepared.old nonzero different
    have unmapped : ¬hasPerm (call.entry (cleared call state frame)) permPresent = true := by
      rwa [prepared.entry]
    have kept := @State.enterFrame_forgotten _ _ frame _ call.perm unmapped _ different
    rw [← mapping.enterFrame user] at kept
    have replaced : (final.framesInfo (frameOf (call.entry state))).references =
        ((state.framesInfo (frameOf (call.entry state))).references + (2 ^ 16 - 1)) % 2 ^ 16 :=
      obtains.replaced nonzero
    rw [kept, same] at replaced
    omega
  · exact nonzero (prepared.entry.symm.trans (entry_absent user absent))

/-- A call conserves the frames exactly when it is proper. -/
theorem run_conserves_iff (ready : Ready ghost state) (limit : LimitTable state call.caller)
    (visible : call.slot ∉ ghost.uncounted) (returned : call.run state = .ok (code, final)) :
    Step.Conserves ⟨state, call, code, final⟩ ↔ Step.Proper ⟨state, call, code, final⟩ := by
  constructor
  · intro conserves
    have checked : call.Checked := by
      by_contra unchecked
      exact run_unchecked ready unchecked returned conserves
    refine ⟨checked, fun nonzero => ?_⟩
    by_contra buffered
    exact run_buffered ready limit visible checked nonzero buffered returned conserves
  · intro proper
    rcases run_proper ready limit visible proper.checked proper.unbuffered returned with
      ⟨rfl, obtains, -⟩
    exact obtains

end Calls

/-! ## Sequences of calls -/

section Runs

variable {ghost : Ghost} {state final : State} {steps : List Step}

/-- Working sets do not matter here. -/
theorem deactivateAll {view : View} (consistent : Consistent ghost view) :
    Consistent { ghost with active := ∅ } view where
  toHeapLayout := consistent.toHeapLayout
  toAccounting := { consistent.toAccounting with }
  toPlacement := { consistent.toPlacement with }
  window := consistent.window
  windowPages := consistent.windowPages
  lastIndex := by simp
  resident := by simp
  residentPage := by simp
  residentOnce := by simp
  cleared := by simp
  tracked := by simp

theorem holders_few {view : View} (consistent : Consistent ghost view)
    (counts : ∀ frame, (view.info frame).references < 2 ^ 16) (frame : Nat) :
    (ghost.holders frame).card < 2 ^ 16 := by
  by_cases listed : ghost.Listed frame
  · rcases (ghost.holders frame).eq_empty_or_nonempty with none | ⟨slot, held⟩
    · rw [none]
      decide
    · rw [(consistent.buffered frame listed slot held).2.1, Finset.card_singleton]
      decide
  · by_cases managed : frame ∈ ghost.managed
    · rw [← consistent.counted frame managed listed]
      exact counts frame
    · have none : ghost.holders frame = ∅ := by
        by_contra held
        exact managed (consistent.heldManaged frame (Finset.nonempty_iff_ne_empty.mpr held))
      rw [none]
      decide

theorem steps_conserve_iff (ready : Ready ghost state) (run : Run state steps final)
    (limits : ∀ step ∈ steps, LimitTable state step.call.caller)
    (visible : ∀ step ∈ steps, step.call.slot ∉ ghost.uncounted) :
    (∀ step ∈ steps, step.Conserves) ↔ ∀ step ∈ steps, step.Proper := by
  induction run generalizing ghost with
  | nil state => simp
  | @cons before after final call code steps returned rest induction =>
      have limit := limits _ List.mem_cons_self
      have outside := visible _ List.mem_cons_self
      have first := run_conserves_iff ready limit outside returned
      rw [List.forall_mem_cons, List.forall_mem_cons, first]
      refine and_congr_right fun proper => ?_
      rcases run_proper ready limit outside proper.checked proper.unbuffered returned with
        ⟨-, -, upper, later, readyLater, uncounted⟩
      refine induction readyLater (fun step member => ?_) fun step member => ?_
      · exact (limits step (List.mem_cons_of_mem _ member)).congr upper
      · rw [uncounted]
        exact visible step (List.mem_cons_of_mem _ member)

end Runs

/-! ## An address that is not a user address -/

/-- Booted memory where every environment has the directory of a new one. -/
def sampleEnvironments : State :=
  { sampleState with pageDirectory := fun _ => sampleLayout.directory }

/-- A new directory has no page tables. -/
theorem sample_directory_empty {index : Nat} (user : index < pdx userTop) :
    sampleLayout.directory index = 0 := by
  have boot : ¬hasBootTable index := by
    simp only [hasBootTable, pdx, ppn, userTop, userLimit, kernelBase] at user ⊢
    omega
  simp only [pdx, ppn, userTop] at user
  have window : index ≠ 0x3BF ∧ index ≠ 0x3BD ∧ index ≠ 0xEEC00000 / 4096 / 1024 := by omega
  simp only [BootLayout.directory, window, boot, if_false]

theorem sampleEnvironments_view : sampleEnvironments.view = sampleState.view := by
  have directories : ∀ owner index, index < pdx userTop →
      sampleEnvironments.pageDirectory owner index = sampleState.pageDirectory owner index := by
    intro owner index user
    cases owner with
    | kernel => rfl
    | env number => exact sample_directory_empty user
  exact State.view_directories directories fun _ => rfl

theorem sampleEnvironments_limit (env : Nat) : LimitTable sampleEnvironments env := by
  have entry : ∀ owner, sampleEnvironments.pageDirectory owner (pdx userLimit) =
      sampleLayout.directory (pdx userLimit) := fun owner => by cases owner <;> rfl
  have frames : sampleEnvironments.numberOfFrames = 0x10000 := rfl
  rw [LimitTable, getPageTable_kernel _ (by decide), kernelPageTable, staticTable]
  have inside : ¬0x10000 ≤ frameOf (sampleLayout.directory (pdx userLimit)) := by decide
  have boot : hasBootTable (pdx userLimit) := by decide
  have present : hasPerm (sampleLayout.directory (pdx userLimit)) permPresent = true := by decide
  simp only [entry, frames, inside, boot, if_false, and_true, if_true, bind, Except.bind,
    tableStatus, present]

theorem sampleEnvironments_counts (frame : Nat) :
    (sampleEnvironments.framesInfo frame).references < 2 ^ 16 := by
  have info : sampleEnvironments.framesInfo frame =
      if frame < 3 ∨ ioFrame ≤ frame ∧ frame < sampleLayout.kernelFrames then
        { FrameInfo.zero with references := 1 }
      else FrameInfo.zero := rfl
  rw [info]
  split <;> decide

/-- An address of the kernel for the new page. -/
def kernelCall : Call := ⟨0, userTop, permUser⟩

theorem kernelCall_unchecked : ¬kernelCall.Checked := fun checked =>
  absurd checked.user (Nat.lt_irrefl userTop)

/-- The call fails after a frame is taken. -/
theorem kernelCall_runs {ghost : Ghost} (consistent : Consistent ghost sampleEnvironments.view)
    (supply : 0 < ghost.free.length) :
    ∃ final, kernelCall.run sampleEnvironments = .ok (.inval, final) := by
  have first : sampleEnvironments.freeFrameList.first = some (ghost.free.get ⟨0, supply⟩) := by
    have head := consistent.lists.first.first
    rwa [List.getElem?_eq_getElem supply] at head
  have plain : (sampleEnvironments.framesInfo (ghost.free.get ⟨0, supply⟩)).isBuffered = false := by
    have info : ∀ frame, sampleEnvironments.framesInfo frame =
        if frame < 3 ∨ ioFrame ≤ frame ∧ frame < sampleLayout.kernelFrames then
          { FrameInfo.zero with references := 1 }
        else FrameInfo.zero := fun _ => rfl
    rw [info]
    split <;> rfl
  refine ⟨sampleEnvironments.allocate (ghost.free.get ⟨0, supply⟩), Kernel.bind_get_ok.mpr ?_⟩
  exact Kernel.bind_ok.mpr ⟨_, _, allocateFrame_returns first plain, rfl⟩

theorem sampleEnvironments_ready : ∃ ghost, Consistent ghost sampleEnvironments.view ∧
    ghost.uncounted = ∅ ∧ 0 < ghost.free.length := by
  rcases KernelHeap.sample_cleared with ⟨ghost, cleared, length⟩
  refine ⟨ghost, ?_, cleared.sound.counted, by omega⟩
  rw [sampleEnvironments_view]
  exact cleared.sound.supplied.consistent

end FosKernel.AllocatePage
