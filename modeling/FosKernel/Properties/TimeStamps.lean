import FosKernel.Abstract.ReferenceHistory
import FosKernel.Paging.Aging
import FosKernel.Properties.PagedMemory

/-! # Time stamps of the working set

An update of the time stamps moves no words, so paging stays transparent under LRU
replacement. Between two faults the time stamp of a page in the working set records in which of
the intervals between updates the page was accessed.
-/

namespace FosKernel.PagedMemory

open Kernel PageContents ReferenceHistory

section Slots

variable {users : Finset Nat} {ghost : Ghost} {free : List Nat} {state final : State}
variable {env index page address : Nat}

/-- The flags of a present entry change. -/
theorem Sound.reflag {word : Word} (sound : Sound users ghost free state) (user : address < userTop)
    (present : hasPerm (state.view.entry (.user env (ppn address))) permPresent = true)
    (still : hasPerm word permPresent = true)
    (alike : Alike (state.view.entry (.user env (ppn address))) word) :
    Sound users ghost free (storeEntry state env address word) := by
  have table := (table_of_entry (ne_zero_of_present present)).2
  have consistent := sound.paged.consistent.reflag present still alike.frame
  refine ⟨sound.paged.storeEntry user table alike consistent rfl rfl, sound.settled, ?_⟩
  intro owner member room page nonzero
  rw [sound.paged.storeEntry_view user table word] at nonzero ⊢
  by_cases own : Slot.user (.env owner) page = .user env (ppn address)
  · rw [own, show (state.view.setEntry (.user env (ppn address)) word).entry
      (.user env (ppn address)) = word from Function.update_self _ _ _]
    exact still
  · rw [show (state.view.setEntry (.user env (ppn address)) word).entry (.user (.env owner) page) =
      state.view.entry (.user owner page) from Function.update_of_ne own _ _] at nonzero ⊢
    exact sound.tight owner member room page nonzero

/-! ## Time stamps of pages -/

@[simp] theorem setTimeStamp_empty (value : Env) (index timeStamp other : Nat) :
    ((value.setTimeStamp index timeStamp).ptrPageWorkingSet other).empty =
      (value.ptrPageWorkingSet other).empty := by
  by_cases same : other = index
  · simp [Env.setTimeStamp, Env.setElement, same]
  · simp [Env.setTimeStamp, Env.setElement, same]

@[simp] theorem setTimeStamp_virtualAddress (value : Env) (index timeStamp other : Nat) :
    ((value.setTimeStamp index timeStamp).ptrPageWorkingSet other).virtualAddress =
      (value.ptrPageWorkingSet other).virtualAddress := by
  by_cases same : other = index
  · simp [Env.setTimeStamp, Env.setElement, same]
  · simp [Env.setTimeStamp, Env.setElement, same]

/-- The slots have the same pages; their time stamps may differ. -/
def SameSlots (before after : Env) : Prop :=
  ∃ elements : Nat → WorkingSetElement, after = { before with ptrPageWorkingSet := elements } ∧
    ∀ index, (elements index).empty = (before.ptrPageWorkingSet index).empty ∧
      (elements index).virtualAddress = (before.ptrPageWorkingSet index).virtualAddress

theorem SameSlots.refl (value : Env) : SameSlots value value :=
  ⟨value.ptrPageWorkingSet, rfl, fun _ => ⟨rfl, rfl⟩⟩

theorem SameSlots.trans {first second third : Env} (left : SameSlots first second)
    (right : SameSlots second third) : SameSlots first third := by
  rcases left with ⟨_, rfl, same⟩
  rcases right with ⟨elements, rfl, again⟩
  exact ⟨elements, rfl, fun index =>
    ⟨(again index).1.trans (same index).1, (again index).2.trans (same index).2⟩⟩

theorem sameSlots_setTimeStamp (value : Env) (index timeStamp : Nat) :
    SameSlots value (value.setTimeStamp index timeStamp) :=
  ⟨_, rfl, fun other =>
    ⟨setTimeStamp_empty value index timeStamp other,
      setTimeStamp_virtualAddress value index timeStamp other⟩⟩

theorem SameSlots.full {before after : Env} (same : SameSlots before after) :
    Full after ↔ Full before := by
  rcases same with ⟨elements, rfl, slots⟩
  exact forall₂_congr fun index _ => by rw [(slots index).1]

theorem SameSlots.size {before after : Env} (same : SameSlots before after) :
    envPageWsGetSize after = envPageWsGetSize before := by
  rcases same with ⟨elements, rfl, slots⟩
  simp only [envPageWsGetSize, slots]

/-- Time stamps change, but not the pages in the slots. -/
theorem Sound.restamp (sound : Sound users ghost free state) {value : Env}
    (same : SameSlots (state.envs env) value) :
    Sound users ghost free (state.setEnv env value) := by
  have full := same.full
  rcases same with ⟨elements, rfl, slots⟩
  have consistent : Consistent ghost (state.view.setWorkingSet env
      (Env.workingSet { state.envs env with ptrPageWorkingSet := elements })) := by
    have before := sound.paged.consistent
    apply before.setWorkingSet
    · exact before.lastIndex env
    · intro active index page inside filled recorded
      rw [Env.workingSet, (slots index).1] at filled
      rw [Env.workingSet, (slots index).2] at recorded
      exact before.resident env active index page ⟨inside, filled, recorded⟩
    · intro active index inside filled
      rw [Env.workingSet, (slots index).1] at filled
      rw [Env.workingSet, (slots index).2]
      exact before.residentPage env active index inside filled
    · intro active left right leftInside rightInside leftFilled rightFilled equal
      simp only [Env.workingSet, slots] at leftFilled rightFilled equal
      rcases before.residentPage env active left leftInside leftFilled with ⟨page, recorded⟩
      exact before.residentOnce env active left right page ⟨leftInside, leftFilled, recorded⟩
        ⟨rightInside, rightFilled, equal.symm.trans recorded⟩
    · intro active index inside empty
      rw [Env.workingSet, (slots index).1] at empty
      rw [Env.workingSet, (slots index).2]
      exact before.cleared env active index inside empty
    · intro active page resident tight
      rcases resident with ⟨index, inside, filled, recorded⟩
      refine ⟨index, inside, ?_, ?_⟩
      · rw [Env.workingSet, (slots index).1]
        exact filled
      · rw [Env.workingSet, (slots index).2]
        exact recorded
  refine ⟨sound.paged.setEnv consistent rfl rfl rfl rfl rfl, sound.settled, ?_⟩
  intro other user room page nonzero
  by_cases own : other = env
  · subst own
    rw [show (state.setEnv other { state.envs other with ptrPageWorkingSet := elements }).envs
        other =
      { state.envs other with ptrPageWorkingSet := elements } from Function.update_self _ _ _,
      full] at room
    exact sound.tight other user room page nonzero
  · rw [show (state.setEnv env { state.envs env with ptrPageWorkingSet := elements }).envs other =
      state.envs other from Function.update_of_ne own _ _] at room
    exact sound.tight other user room page nonzero

/-- The state after the time stamp of one page has been updated. -/
def agedSlot (state : State) (env index : Nat) : State :=
  let element := (state.envs env).ptrPageWorkingSet index
  let entry := state.view.entry (.user env (ppn element.virtualAddress))
  storeEntry (state.setEnv env ((state.envs env).setTimeStamp index
    (age element.timeStamp (hasPerm entry permUsed)))) env element.virtualAddress
    (changePerm entry 0 permUsed)

theorem storeEntry_self (user : address < userTop)
    (table : hasPerm (directoryEntry state env address) permPresent = true) :
    storeEntry state env address (state.view.entry (.user env (ppn address))) = state := by
  rw [storeEntry, State.setMemory, entry_user user table]
  simp

theorem changePerm_unused {entry : Word} (unused : hasPerm entry permUsed = false) :
    changePerm entry 0 permUsed = entry := by
  have power : permUsed = BitVec.twoPow 32 5 := by decide
  rw [hasPerm_used] at unused
  apply BitVec.eq_of_getLsbD_eq
  intro bit bound
  rw [getLsbD_changePerm _ _ _ bound, power, BitVec.getLsbD_twoPow]
  by_cases used : 5 = bit
  · subst used
    rw [unused, Bool.or_eq_false_iff.mpr ⟨rfl, by decide⟩, Bool.false_and]
  · simp [used]

theorem updatePageTimeStamp_empty (empty : ((state.envs env).ptrPageWorkingSet index).empty = true)
    (returned : updatePageTimeStamp env index state = .ok ((), final)) : final = state := by
  have ended := bind_get_ok.mp returned
  rw [if_pos empty] at ended
  exact (pure_ok.mp ended).2.symm

theorem updatePageTimeStamp_ok (sound : Sound users ghost free state) (user : env ∈ users)
    (resident : state.view.ResidentAt env index page)
    (returned : updatePageTimeStamp env index state = .ok ((), final)) :
    final = agedSlot state env index := by
  rcases resident with ⟨inside, filled, recorded⟩
  have present := (sound.paged.resident_writeable user ⟨inside, filled, recorded⟩).2.1
  replace recorded : ((state.envs env).ptrPageWorkingSet index).virtualAddress = page * 4096 :=
    recorded
  have own : ppn (page * 4096) = page := Nat.mul_div_cancel page (by decide)
  rw [← own] at present
  rcases table_of_entry (ne_zero_of_present present) with ⟨below, table⟩
  have running := bind_get_ok.mp returned
  replace filled : ((state.envs env).ptrPageWorkingSet index).empty = false := filled
  rw [if_neg (by rw [filled]; decide)] at running
  rcases bind_observe_ok.mp running with ⟨perm, read, updating⟩
  rw [recorded] at read updating
  have masked := ptGetPagePermissions_ok sound.paged.consistent.toHeapLayout below read
  have bit : hasPerm perm permUsed =
      hasPerm (state.view.entry (.user env (ppn (page * 4096)))) permUsed := by
    rw [masked, hasPerm_masked (by decide)]
  rw [agedSlot, recorded]
  rcases ite_ok.mp updating with ⟨used, stamping⟩ | ⟨unused, stamping⟩
  · have stamped := sound.restamp (sameSlots_setTimeStamp (state.envs env) index
      (((state.envs env).ptrPageWorkingSet index).timeStamp >>> 2 ||| 0x80000000))
    rcases ptSetPagePermissions_ok stamped.paged.consistent.toHeapLayout below
      (bind_modify_ok.mp stamping) with ⟨-, rfl⟩
    rw [bit] at used
    simp only [used]
    rfl
  · have ended := modify_ok.mp stamping
    rw [bit, Bool.not_eq_true] at unused
    simp only [unused, changePerm_unused unused, age, Bool.false_eq_true, if_false, Nat.or_zero]
    rw [← ended]
    symm
    exact storeEntry_self below table

theorem Sound.agedSlot (sound : Sound users ghost free state) (user : env ∈ users)
    (resident : state.view.ResidentAt env index page) :
    Sound users ghost free (PagedMemory.agedSlot state env index) ∧
      contents (PagedMemory.agedSlot state env index) = contents state ∧
      ∀ slot, (PagedMemory.agedSlot state env index).view.entry slot =
        Function.update state.view.entry (.user env page)
          (changePerm (state.view.entry (.user env page)) 0 permUsed) slot := by
  rcases sound.paged.resident_writeable user resident with ⟨-, present, writeable, -⟩
  have recorded : ((state.envs env).ptrPageWorkingSet index).virtualAddress = page * 4096 :=
    resident.2.2
  have own : ppn (page * 4096) = page := Nat.mul_div_cancel page (by decide)
  have alike := @alike_changePerm (state.view.entry (.user env page)) 0 permUsed
    (by decide) (by decide) (by decide) writeable
  have still : hasPerm (changePerm (state.view.entry (.user env page)) 0 permUsed)
      permPresent = true := by
    rw [hasPerm_present] at present ⊢
    rw [getLsbD_changePerm _ _ _ (by decide), present]
    decide
  rw [PagedMemory.agedSlot, recorded]
  rw [← own] at present alike still
  rcases table_of_entry (ne_zero_of_present present) with ⟨below, table⟩
  have stamped := sound.restamp (sameSlots_setTimeStamp (state.envs env) index
    (age ((state.envs env).ptrPageWorkingSet index).timeStamp
      (hasPerm (state.view.entry (.user env (ppn (page * 4096)))) permUsed)))
  refine ⟨stamped.reflag below present still alike,
    stamped.paged.storeEntry_contents below table alike, fun slot => ?_⟩
  rw [stamped.paged.storeEntry_view below table, own]
  rfl

/-! ## The loop over the pages -/

variable {pending : List Nat} {origin : State}

/-- The pages of the slots that are not pending have new time stamps. -/
structure Aging (users : Finset Nat) (ghost : Ghost) (free : List Nat) (env : Nat)
    (pending : List Nat) (origin state : State) : Prop where
  sound : Sound users ghost free state
  contents : contents state = PagedMemory.contents origin
  only : ∃ memory pageDirectory envs, state = { origin with memory, pageDirectory, envs }
  slots : SameSlots (origin.envs env) (state.envs env)
  envs : ∀ other, other ≠ env → state.envs other = origin.envs other
  others : ∀ owner page, (owner = .env env → ¬origin.view.Resident env page) →
    state.view.entry (.user owner page) = origin.view.entry (.user owner page)
  done : ∀ index page, origin.view.ResidentAt env index page → index ∉ pending →
    hasPerm (state.view.entry (.user env page)) permUsed = false ∧
      ((state.envs env).ptrPageWorkingSet index).timeStamp =
        age ((origin.envs env).ptrPageWorkingSet index).timeStamp
          (hasPerm (origin.view.entry (.user env page)) permUsed)
  waiting : ∀ index page, origin.view.ResidentAt env index page → index ∈ pending →
    state.view.entry (.user env page) = origin.view.entry (.user env page) ∧
      (state.envs env).ptrPageWorkingSet index = (origin.envs env).ptrPageWorkingSet index

theorem Aging.start (sound : Sound users ghost free state) :
    Aging users ghost free env (List.range (state.envs env).pageWSMaxSize) state state where
  sound := sound
  contents := rfl
  only := ⟨_, _, _, rfl⟩
  slots := .refl _
  envs _ _ := rfl
  others _ _ _ := rfl
  done _ _ resident outside := absurd (List.mem_range.mpr resident.1) outside
  waiting _ _ _ _ := ⟨rfl, rfl⟩

theorem SameSlots.resident (same : SameSlots (origin.envs env) (state.envs env)) :
    state.view.ResidentAt env index page ↔ origin.view.ResidentAt env index page := by
  rcases same with ⟨elements, equal, slots⟩
  simp only [View.ResidentAt, State.view, Env.workingSet, equal, slots]

/-- One slot is done. -/
theorem Aging.next (aging : Aging users ghost free env (index :: pending) origin state)
    (user : env ∈ users) (fresh : index ∉ pending)
    (inside : index < (state.envs env).pageWSMaxSize)
    (returned : updatePageTimeStamp env index state = .ok ((), final)) :
    Aging users ghost free env pending origin final := by
  have sound := aging.sound
  cases filled : ((state.envs env).ptrPageWorkingSet index).empty with
  | true =>
      rw [updatePageTimeStamp_empty filled returned]
      refine { aging with done := ?_, waiting := ?_ }
      · intro other page resident outside
        refine aging.done other page resident fun member => ?_
        rcases List.mem_cons.mp member with rfl | member
        · have now : ((state.envs env).ptrPageWorkingSet other).empty = false :=
            (aging.slots.resident.mpr resident).2.1
          rw [filled] at now
          cases now
        · exact outside member
      · exact fun other page resident member =>
          aging.waiting other page resident (List.mem_cons_of_mem _ member)
  | false =>
      rcases sound.paged.consistent.residentPage env (sound.paged.active user) index inside filled
        with ⟨page, recorded⟩
      have resident : state.view.ResidentAt env index page := ⟨inside, filled, recorded⟩
      have here := aging.slots.resident.mp resident
      rcases aging.waiting index page here List.mem_cons_self with ⟨entryBefore, elementBefore⟩
      rw [updatePageTimeStamp_ok sound user resident returned]
      rcases sound.agedSlot user resident with ⟨soundNow, contentsNow, entryNow⟩
      have own : ppn (page * 4096) = page := Nat.mul_div_cancel page (by decide)
      have recordedHere : ((state.envs env).ptrPageWorkingSet index).virtualAddress =
          page * 4096 := recorded
      have record : (agedSlot state env index).envs env = (state.envs env).setTimeStamp index
          (age ((state.envs env).ptrPageWorkingSet index).timeStamp
            (hasPerm (state.view.entry (.user env page)) permUsed)) := by
        rw [agedSlot, recordedHere, own]
        exact Function.update_self _ _ _
      have apart : ∀ {other otherPage}, origin.view.ResidentAt env other otherPage →
          other ≠ index → otherPage ≠ page := by
        rintro other _ residentOther different rfl
        have once := sound.paged.consistent.residentOnce env (sound.paged.active user) other index
        exact different (once _ (aging.slots.resident.mpr residentOther) resident)
      have elements : ∀ other, other ≠ index →
          ((agedSlot state env index).envs env).ptrPageWorkingSet other =
            (state.envs env).ptrPageWorkingSet other := by
        intro other different
        rw [record]
        exact Function.update_of_ne different _ _
      have entries : ∀ {otherPage}, otherPage ≠ page →
          (agedSlot state env index).view.entry (.user env otherPage) =
            state.view.entry (.user env otherPage) := by
        intro otherPage different
        rw [entryNow]
        refine Function.update_of_ne (fun equal => different ?_) _ _
        cases equal
        rfl
      exact
        { sound := soundNow
          contents := contentsNow.trans aging.contents
          only := by
            rcases aging.only with ⟨memory, pageDirectory, envs, rfl⟩
            exact ⟨_, _, _, rfl⟩
          slots := by
            rw [record]
            exact aging.slots.trans (sameSlots_setTimeStamp _ _ _)
          envs := by
            intro other different
            rw [← aging.envs other different]
            exact Function.update_of_ne different _ _
          others := by
            intro owner otherPage missing
            rw [← aging.others owner otherPage missing, entryNow]
            refine Function.update_of_ne (fun equal => ?_) _ _
            cases equal
            exact missing rfl ⟨index, here⟩
          done := by
            intro other otherPage residentOther outside
            by_cases same : other = index
            · subst same
              have equal : otherPage = page := by
                have first := here.2.2
                rw [residentOther.2.2] at first
                omega
              subst equal
              rw [entryNow, Function.update_self, record, ← entryBefore, ← elementBefore]
              constructor
              · rw [hasPerm_used, getLsbD_changePerm _ _ _ (by decide)]
                simp [permUsed]
              · simp [Env.setTimeStamp, Env.setElement]
            · rw [entries (apart residentOther same), elements other same]
              refine aging.done other otherPage residentOther fun member => ?_
              rcases List.mem_cons.mp member with equal | member
              · exact same equal
              · exact outside member
          waiting := by
            intro other otherPage residentOther member
            have different : other ≠ index := by
              rintro rfl
              exact fresh member
            rw [entries (apart residentOther different), elements other different]
            exact aging.waiting other otherPage residentOther (List.mem_cons_of_mem _ member) }

theorem Aging.pages {indices : List Nat}
    (aging : Aging users ghost free env indices origin state) (user : env ∈ users)
    (distinct : indices.Nodup) (inside : ∀ index ∈ indices, index < (origin.envs env).pageWSMaxSize)
    (returned : Kernel.forEach (updatePageTimeStamp env) indices state = .ok ((), final)) :
    Aging users ghost free env [] origin final := by
  induction indices generalizing state with
  | nil =>
      rcases pure_ok.mp returned with ⟨-, rfl⟩
      exact aging
  | cons index indices induction =>
      rcases bind_ok.mp returned with ⟨_, middle, updating, rest⟩
      rcases List.nodup_cons.mp distinct with ⟨fresh, distinct⟩
      have size : (state.envs env).pageWSMaxSize = (origin.envs env).pageWSMaxSize := by
        rcases aging.slots with ⟨elements, same, -⟩
        rw [same]
      have here := inside index List.mem_cons_self
      rw [← size] at here
      exact induction (aging.next user fresh here updating) distinct
        (fun other member => inside other (List.mem_cons_of_mem _ member)) rest

/-! ## The loop over the tables -/

/-- The flags of a page table change. -/
theorem Consistent.reflagTable {view : View} (consistent : Consistent ghost view) {table : Table}
    {word : Word} (nonzero : view.table table ≠ 0) (present : hasPerm word permPresent = true)
    (same : frameOf word = frameOf (view.table table)) :
    Consistent ghost (view.setTable table word) := by
  have shape : ∀ other, ((view.setTable table word).table other ≠ 0 ↔ view.table other ≠ 0) ∧
      frameOf ((view.setTable table word).table other) = frameOf (view.table other) := by
    intro other
    by_cases own : other = table
    · subst own
      simp only [View.setTable, Function.update_self]
      exact ⟨iff_of_true (ne_zero_of_present present) nonzero, same⟩
    · rw [show (view.setTable table word).table other = view.table other from
        Function.update_of_ne own _ _]
      exact ⟨.rfl, rfl⟩
  exact
    { toHeapLayout := { consistent.toHeapLayout with }
      toAccounting := { consistent.toAccounting with }
      toResidency := { consistent.toResidency with }
      tablePresent := by
        intro other still
        by_cases own : other = table
        · subst own
          simpa [View.setTable] using present
        · simp only [View.setTable, Function.update_of_ne own] at still ⊢
          exact consistent.tablePresent other still
      tableHeld := by
        intro other still
        rw [(shape other).2]
        exact consistent.tableHeld other ((shape other).1.mp still)
      tableDistinct := by
        intro left right leftStill rightStill equal
        rw [(shape left).2, (shape right).2] at equal
        exact consistent.tableDistinct left right ((shape left).1.mp leftStill)
          ((shape right).1.mp rightStill) equal }

/-- The flags in a directory entry do not matter for the pages below it. -/
theorem view_reflagTable {owner : Directory} {word : Word} (user : index < pdx userTop)
    (present : hasPerm word permPresent = hasPerm (state.pageDirectory owner index) permPresent)
    (same : frameOf word = frameOf (state.pageDirectory owner index)) :
    (state.setDirectoryEntry owner index word).view =
      state.view.setTable (.page owner index) word := by
  have directory : ∀ other someIndex, ¬(other = owner ∧ someIndex = index) →
      (state.setDirectoryEntry owner index word).pageDirectory other someIndex =
        state.pageDirectory other someIndex := by
    intro other someIndex different
    by_cases equal : other = owner
    · subst equal
      have apart : someIndex ≠ index := fun equal => different ⟨rfl, equal⟩
      simp [State.setDirectoryEntry, apart]
    · simp [State.setDirectoryEntry, equal]
  have own : (state.setDirectoryEntry owner index word).pageDirectory owner index = word := by
    simp [State.setDirectoryEntry]
  apply View.ext <;> try rfl
  · funext slot
    cases slot with
    | heap page => rfl
    | user other page =>
        simp only [State.view, State.slotEntry, View.setTable]
        by_cases here : other = owner ∧ page / 1024 = index
        · rcases here with ⟨rfl, rfl⟩
          rw [own, present, same]
          rfl
        · rw [directory _ _ here]
          rfl
  · funext table
    cases table with
    | page other someIndex =>
        simp only [State.view, State.tableEntry, View.setTable]
        by_cases here : other = owner ∧ someIndex = index
        · rcases here with ⟨rfl, rfl⟩
          rw [own, if_pos user, Function.update_self]
        · rw [directory _ _ here]
          symm
          refine Function.update_of_ne (fun equal => ?_) _ _
          cases equal
          exact here ⟨rfl, rfl⟩
    | disk other someIndex => simp [State.view, State.tableEntry, View.setTable,
        State.setDirectoryEntry]
  · funext someIndex
    simp only [State.view, View.setTable]
    by_cases below : someIndex < pdx userTop
    · simp [below]
    · rw [if_neg below, if_neg below, directory]
      rintro ⟨-, rfl⟩
      exact below user

/-- A table is marked as not used. -/
theorem Sound.unuseTable (sound : Sound users ghost free state) (below : address < userTop)
    (used : pdIsTableUsed state env address = true)
    (returned : pdSetTableUnused env address state = .ok ((), final)) :
    Sound users ghost free final ∧ contents final = contents state ∧
      final.view.entry = state.view.entry ∧
      ∃ pageDirectory, final = { state with pageDirectory } := by
  have ended := modify_ok.mp returned
  set before := state.pageDirectory (.env env) (pdx address) with beforeIs
  have word : before &&& ~~~permUsed = changePerm before 0 permUsed := by
    rw [changePerm, show before ||| 0 = before from BitVec.or_zero]
  rw [word] at ended
  have inside : pdx address < pdx userTop := by
    simp only [pdx, ppn, userTop] at below ⊢
    omega
  have table : state.view.table (.page (.env env) (pdx address)) = before := if_pos inside
  have nonzero : before ≠ 0 := by
    intro zero
    rw [pdIsTableUsed, ← beforeIs, zero] at used
    cases used
  have present := sound.paged.consistent.tablePresent (.page (.env env) (pdx address))
    (by rw [table]; exact nonzero)
  rw [table] at present
  have still : hasPerm (changePerm before 0 permUsed) permPresent = true := by
    rw [hasPerm_present] at present ⊢
    rw [getLsbD_changePerm _ _ _ (by decide), present]
    decide
  have frame : frameOf (changePerm before 0 permUsed) = frameOf before :=
    frameOf_changePerm _ (by decide) (by decide)
  have view := view_reflagTable inside (still.trans present.symm) frame
  have consistent : Consistent ghost final.view := by
    rw [← ended, view]
    exact Consistent.reflagTable sound.paged.consistent (by rw [table]; exact nonzero) still
      (by rw [table]; exact frame)
  have entries : final.view.entry = state.view.entry := by
    rw [← ended, view]
    rfl
  have only : ∃ pageDirectory, final = { state with pageDirectory } := ⟨_, ended.symm⟩
  rcases only with ⟨pageDirectory, rfl⟩
  have keeps : KeepsFile state { state with pageDirectory } :=
    ⟨⟨fun _ _ => rfl, rfl, rfl, rfl, rfl⟩,
      fun layout => layout.congr rfl rfl (fun _ => id) fun _ => id⟩
  refine ⟨⟨sound.paged.next consistent keeps (fun owner page => ?_) (fun _ _ => .rfl) rfl
    fun _ => rfl, sound.settled, ?_⟩, ?_, entries, _, rfl⟩
  · rw [entries]
    exact .refl _
  · rw [entries]
    exact sound.tight
  · refine contents_congr (fun owner page => ?_) (fun _ _ _ _ => rfl) (stored_congr keeps.same)
    rw [entries]
    exact .refl _

theorem Aging.unuseTable (aging : Aging users ghost free env pending origin state)
    (below : address < userTop) (used : pdIsTableUsed state env address = true)
    (returned : pdSetTableUnused env address state = .ok ((), final)) :
    Aging users ghost free env pending origin final := by
  rcases aging.sound.unuseTable below used returned with
    ⟨sound, contents, entries, pageDirectory, rfl⟩
  refine ⟨sound, contents.trans aging.contents, ?_, aging.slots, aging.envs, ?_, ?_, ?_⟩
  · rcases aging.only with ⟨memory, _, envs, rfl⟩
    exact ⟨memory, pageDirectory, envs, rfl⟩
  · rw [entries]
    exact aging.others
  · rw [entries]
    exact aging.done
  · rw [entries]
    exact aging.waiting

/-- The recorded tables are those of user addresses. -/
def UserTables (tables : Nat → WorkingSetElement) : Prop :=
  ∀ index, (tables index).empty = false → (tables index).virtualAddress < userTop

theorem UserTables.restamp {tables : Nat → WorkingSetElement} (tablesBelow : UserTables tables)
    (index timeStamp : Nat) :
    UserTables (Function.update tables index { tables index with timeStamp }) := by
  intro other
  by_cases same : other = index
  · subst same
    rw [Function.update_self]
    exact tablesBelow other
  · rw [Function.update_of_ne same]
    exact tablesBelow other

theorem Aging.tables {indices : List Nat} {tables updated : Nat → WorkingSetElement}
    (aging : Aging users ghost free env pending origin state) (tablesBelow : UserTables tables)
    (returned : updateTableTimeStamps env indices tables state = .ok (updated, final)) :
    Aging users ghost free env pending origin final ∧ UserTables updated := by
  induction indices generalizing state tables with
  | nil =>
      rcases pure_ok.mp returned with ⟨rfl, rfl⟩
      exact ⟨aging, tablesBelow⟩
  | cons index indices induction =>
      rcases ite_ok.mp returned with ⟨-, rest⟩ | ⟨filled, updating⟩
      · exact induction aging tablesBelow rest
      · rw [Bool.not_eq_true] at filled
        rcases ite_ok.mp (bind_get_ok.mp updating) with ⟨used, marking⟩ | ⟨-, rest⟩
        · rcases bind_ok.mp marking with ⟨_, middle, unusing, rest⟩
          exact induction (aging.unuseTable (tablesBelow index filled) used unusing)
            (tablesBelow.restamp index _) rest
        · exact induction aging (tablesBelow.restamp index _) rest

/-- After an update every page of the working set is marked as not used, and its time stamp
has aged. -/
theorem Sound.update {tables updated : Nat → WorkingSetElement}
    (sound : Sound users ghost free state) (running : state.curenv ∈ users)
    (tablesBelow : UserTables tables)
    (returned : updateWSTimeStamps tables state = .ok (updated, final)) :
    Aging users ghost free state.curenv [] state final ∧ UserTables updated := by
  have updating : (forEach (updatePageTimeStamp state.curenv)
      (List.range (state.envs state.curenv).pageWSMaxSize) >>= fun _ =>
      updateTableTimeStamps state.curenv (List.range twsMaxSize) tables) state =
        .ok (updated, final) := returned
  rcases bind_ok.mp updating with ⟨_, middle, pages, rest⟩
  exact ((Aging.start sound).pages running (List.nodup_range)
    (fun index member => List.mem_range.mp member) pages).tables tablesBelow rest

end Slots

/-! ## Runs under LRU replacement -/

/-- What the environments do, and the updates of their time stamps. -/
inductive Event
  | access (access : MemoryAccess (Nat × Nat) (Fin 1024) Word)
  | update (env : Nat)
  deriving DecidableEq

def accesses (events : List Event) : List (MemoryAccess (Nat × Nat) (Fin 1024) Word) :=
  events.filterMap fun
    | .access access => some access
    | .update _ => none

/-- The table working sets of the environments. -/
abbrev TableSets := Nat → Nat → WorkingSetElement

/-- The environments run in turns. At a clock interrupt, and before a fault is handled, the time
stamps of the running environment are updated. -/
inductive LRURun (users : Finset Nat) :
    State → TableSets → List Event → State → TableSets → Prop
  | nil {state tables} : LRURun users state tables [] state tables
  | run {state tables before middle events final last} : Run users state before middle →
      LRURun users middle tables events final last →
      LRURun users state tables (before.map .access ++ events) final last
  | tick {state tables updated middle events final last} :
      updateWSTimeStamps (tables state.curenv) state = .ok (updated, middle) →
      LRURun users middle (Function.update tables state.curenv updated) events final last →
      LRURun users state tables (.update state.curenv :: events) final last
  | trap {state tables updated middle events final last} (address : Nat) :
      hasPerm (state.view.entry (.user state.curenv (ppn address))) permPresent = false →
      Calm state → trapPageFault true (tables state.curenv) address state = .ok (updated, middle) →
      LRURun users middle (Function.update tables state.curenv updated) events final last →
      LRURun users state tables (.update state.curenv ::
        .access (.touch (state.curenv, ppn address)) :: events) final last

section LRU

variable {users : Finset Nat} {ghost : Ghost} {free : List Nat} {state final origin : State}
variable {tables last : TableSets} {events : List Event} {env : Nat}

theorem Aging.curenv {pending : List Nat}
    (aging : Aging users ghost free env pending origin state) :
    state.curenv = origin.curenv := by
  rcases aging.only with ⟨memory, pageDirectory, envs, rfl⟩
  rfl

theorem Aging.calm (aging : Aging users ghost free state.curenv [] state final)
    (calm : Calm state) : Calm final := by
  have size := aging.slots.size
  rcases aging.slots with ⟨elements, record, -⟩
  rcases aging.only with ⟨memory, pageDirectory, envs, rfl⟩
  rcases calm with room | quiet
  · refine .inl ?_
    change envPageWsGetSize (envs state.curenv) < (envs state.curenv).pageWSMaxSize
    rw [size, show envs state.curenv =
      { state.envs state.curenv with ptrPageWorkingSet := elements } from record]
    exact room
  · exact .inr quiet

/-- A page that is not present stays so. -/
theorem Aging.absent {page : Nat} (aging : Aging users ghost free env [] state final)
    (sound : Sound users ghost free state) (user : env ∈ users)
    (absent : hasPerm (state.view.entry (.user env page)) permPresent = false) :
    final.view.entry (.user env page) = state.view.entry (.user env page) := by
  apply aging.others
  rintro - ⟨slot, resident⟩
  rw [(sound.paged.resident_writeable user resident).2.1] at absent
  cases absent

theorem UserTables.set {updated : Nat → WorkingSetElement}
    (below : ∀ env, UserTables (tables env)) (own : UserTables updated) (env : Nat) :
    ∀ other, UserTables (Function.update tables env updated other) := by
  intro other
  by_cases same : other = env
  · subst same
    rw [Function.update_self]
    exact own
  · rw [Function.update_of_ne same]
    exact below other

theorem trapPageFault_ok {sets updated : Nat → WorkingSetElement} {address : Nat}
    (returned : trapPageFault true sets address state = .ok (updated, final)) :
    ∃ middle, updateWSTimeStamps sets state = .ok (updated, middle) ∧
      faultHandler address middle = .ok ((), final) := by
  rcases bind_ok.mp returned with ⟨_, middle, updating, rest⟩
  rcases bind_ok.mp rest with ⟨_, _, handling, ended⟩
  rcases pure_ok.mp ended with ⟨rfl, rfl⟩
  exact ⟨middle, updating, handling⟩

/-- The updates are invisible to the programs. -/
theorem LRURun.steps (run : LRURun users state tables events final last)
    (order : InOrder users state) (below : ∀ env, UserTables (tables env)) :
    InOrder users final ∧ (∀ env, UserTables (last env)) ∧
      FlatMemory.Steps (contents state) (accesses events) (contents final) := by
  induction run with
  | nil => exact ⟨order, below, .nil⟩
  | run running _ induction =>
      rcases running.steps order with ⟨orderNow, steps⟩
      rcases induction orderNow below with ⟨orderLast, belowLast, later⟩
      refine ⟨orderLast, belowLast, ?_⟩
      rw [accesses, List.filterMap_append, List.filterMap_map]
      have same : ∀ before : List (MemoryAccess (Nat × Nat) (Fin 1024) Word),
          before.filterMap some = before := fun before => List.filterMap_some
      rw [show (fun event : Event => match event with
        | .access access => some access
        | .update _ => none) ∘ Event.access = some from rfl, same]
      exact steps.append later
  | @tick state tables updated middle events final last returned _ induction =>
      rcases order with ⟨running, ghost, free, sound⟩
      rcases sound.update running (below state.curenv) returned with ⟨aging, own⟩
      rcases induction ⟨aging.curenv ▸ running, ghost, free, aging.sound⟩
        (UserTables.set below own _) with ⟨orderLast, belowLast, later⟩
      exact ⟨orderLast, belowLast, aging.contents ▸ later⟩
  | @trap state tables updated middle events final last address absent calm returned _ induction =>
      rcases order with ⟨running, ghost, free, sound⟩
      rcases trapPageFault_ok returned with ⟨aged, updating, handling⟩
      rcases sound.update running (below state.curenv) updating with ⟨aging, own⟩
      have still : hasPerm (aged.view.entry (.user aged.curenv (ppn address))) permPresent =
          false := by
        rw [aging.curenv, aging.absent sound running absent]
        exact absent
      rcases aging.sound.fault (aging.curenv ▸ running) still (aging.calm calm) handling with
        ⟨after, left, served⟩
      have runningNow : middle.curenv ∈ users :=
        served.settings.curenv ▸ aging.curenv ▸ running
      rcases induction ⟨runningNow, after, left, served.sound⟩ (UserTables.set below own _) with
        ⟨orderLast, belowLast, later⟩
      have appears := served.appears
      rw [aging.contents, aging.curenv] at appears
      exact ⟨orderLast, belowLast, .cons (.touch appears) later⟩

/-- Also under LRU replacement a read returns the word that was written last, and every page has
its place in a working set or on a list. -/
theorem lru_transparent {before after : List (MemoryAccess (Nat × Nat) (Fin 1024) Word)}
    {page : Nat} {index : Fin 1024} {word : Word} (order : InOrder users state)
    (below : ∀ env, UserTables (tables env)) (run : LRURun users state tables events final last)
    (reads : accesses events = before ++ .read (env, page) index word :: after) :
    (∀ written, FlatMemory.lastWritten (env, page) index before = some written →
      word = written) ∧
    (FlatMemory.lastWritten (env, page) index before = none → ∀ words,
      contents state (env, page) = some words → word = words index) ∧
    Residents users final := by
  rcases run.steps order below with ⟨⟨-, ghost, free, sound⟩, -, steps⟩
  rw [reads] at steps
  rcases steps.read_last with ⟨written, unwritten⟩
  exact ⟨written, unwritten, sound.residents⟩

end LRU

/-! ## A run under LRU replacement -/

inductive LRUAction
  | run (actions : List Action)
  | tick
  | trap (address : Nat)

/-- One thing happens after the other, as far as it can. -/
def performLRU (users : Finset Nat) :
    List LRUAction → TableSets → Kernel (List Event × TableSets)
  | [], tables => return ([], tables)
  | .run actions :: rest, tables => do
      let before ← perform users actions
      let (events, last) ← performLRU users rest tables
      return (before.map .access ++ events, last)
  | .tick :: rest, tables => do
      let env := (← get).curenv
      let updated ← updateWSTimeStamps (tables env)
      let (events, last) ← performLRU users rest (Function.update tables env updated)
      return (.update env :: events, last)
  | .trap address :: rest, tables => do
      let state ← get
      let env := state.curenv
      if hasPerm (state.view.entry (.user env (ppn address))) permPresent = false ∧
          Calm state then
        let updated ← trapPageFault true (tables env) address
        let (events, last) ← performLRU users rest (Function.update tables env updated)
        return (.update env :: .access (.touch (env, ppn address)) :: events, last)
      else throw .badPointer

theorem performLRU_run {users : Finset Nat} {actions : List LRUAction} {state final : State}
    {tables last : TableSets} {events : List Event}
    (performed : performLRU users actions tables state = .ok ((events, last), final)) :
    LRURun users state tables events final last := by
  induction actions generalizing state tables events with
  | nil =>
      rcases pure_ok.mp performed with ⟨same, rfl⟩
      cases same
      exact .nil
  | cons action actions induction =>
      cases action with
      | run before =>
          rcases bind_ok.mp performed with ⟨accesses, middle, running, rest⟩
          rcases bind_ok.mp rest with ⟨⟨later, _⟩, _, continued, ended⟩
          rcases pure_ok.mp ended with ⟨same, rfl⟩
          cases same
          exact .run (perform_run running) (induction continued)
      | tick =>
          rcases bind_ok.mp (bind_get_ok.mp performed) with ⟨updated, middle, updating, rest⟩
          rcases bind_ok.mp rest with ⟨⟨later, _⟩, _, continued, ended⟩
          rcases pure_ok.mp ended with ⟨same, rfl⟩
          cases same
          exact .tick updating (induction continued)
      | trap address =>
          rcases ite_ok.mp (bind_get_ok.mp performed) with ⟨⟨absent, calm⟩, acting⟩ | ⟨-, thrown⟩
          · rcases bind_ok.mp acting with ⟨updated, middle, trapping, rest⟩
            rcases bind_ok.mp rest with ⟨⟨later, _⟩, _, continued, ended⟩
            rcases pure_ok.mp ended with ⟨same, rfl⟩
            cases same
            exact .trap address absent calm trapping (induction continued)
          · cases thrown

/-- The table of the stack is recorded. -/
def sampleTables : TableSets := fun _ index =>
  if index = 0 then ⟨upperPage / 0x400000 * 0x400000, false, 0⟩ else .cleared

theorem sampleTables_user (env : Nat) : UserTables (sampleTables env) := by
  intro index filled
  by_cases first : index = 0
  · rw [sampleTables, if_pos first]
    decide
  · rw [sampleTables, if_neg first] at filled
    cases filled

def sampleLRU : List LRUAction :=
  [.trap upperPage, .trap upperPage, .run [.write upperPage 5, .schedule 1], .trap upperPage,
    .trap upperPage, .run [.write upperPage 9], .tick, .run [.schedule 0], .tick, .trap lowerPage,
    .run [.write lowerPage 7], .trap upperPage, .run [.read upperPage]]

def sampleEvents : List Event :=
  [.update 0, .access (.touch (0, ppn upperPage)), .update 0, .access (.touch (0, ppn upperPage)),
    .access (.write (0, ppn upperPage) firstWord 5), .update 1, .access (.touch (1, ppn upperPage)),
    .update 1, .access (.touch (1, ppn upperPage)), .access (.write (1, ppn upperPage) firstWord 9),
    .update 1, .update 0, .update 0, .access (.touch (0, ppn lowerPage)),
    .access (.write (0, ppn lowerPage) firstWord 7), .update 0, .access (.touch (0, ppn upperPage)),
    .access (.read (0, ppn upperPage) firstWord 5)]

/-- What a performance returns is a run. -/
theorem performLRU_sample {users : Finset Nat} {actions : List LRUAction} {state : State}
    {tables : TableSets} {events : List Event}
    (performed : (performLRU users actions tables state).toOption.any (fun result =>
      result.1.1 = events) = true) : ∃ final last, LRURun users state tables events final last := by
  cases ended : performLRU users actions tables state with
  | error stop =>
      rw [ended] at performed
      cases performed
  | ok pair =>
      rw [ended] at performed
      rcases pair with ⟨⟨found, last⟩, final⟩
      have same : found = events := by simpa [Except.toOption] using performed
      exact ⟨final, last, performLRU_run (same ▸ ended)⟩

theorem lru_transparent_sample : ∃ final last, ∃ word : Word,
    LRURun {0, 1} sampleStart sampleTables sampleEvents final last ∧ word = 5 ∧
      Residents {0, 1} final := by
  rcases performLRU_sample (show (performLRU {0, 1} sampleLRU sampleTables
    sampleStart).toOption.any (fun result => result.1.1 = sampleEvents) = true by decide +kernel)
    with ⟨final, last, run⟩
  have reads : accesses sampleEvents = sampleBefore ++ .read (0, ppn upperPage) 0 5 :: [] := by
    decide
  have transparent := lru_transparent sample_inOrder sampleTables_user run reads
  exact ⟨final, last, 5, run, transparent.1 5 (by decide), transparent.2.2⟩

end FosKernel.PagedMemory
