import FosKernel.Properties.ClockHand
import FosKernel.Properties.LoadedPages

/-! # Faults that are served

A fault leaves the words of all pages as they were. A page that was not there gets a frame and
a place in the working set, and what was stored of it.
-/

namespace FosKernel.PagedMemory

open Kernel PageContents
open ClockHand (FirstEmpty firstEmpty_of_room)

section Handler

variable {users : Finset Nat} {ghost after : Ghost} {free left : List Nat}
variable {origin state middle final : State} {env address slot : Nat}

/-! ## Between two steps -/

/-- What holds of the memory of the environments between two steps. As long as the working set
has room, no page has been buffered. -/
structure Sound (users : Finset Nat) (ghost : Ghost) (free : List Nat) (state : State) : Prop where
  paged : Paged users ghost free state
  settled : ghost.loose = ∅
  tight : ∀ env ∈ users, ¬Full (state.envs env) → ∀ page,
    state.view.entry (.user env page) ≠ 0 →
    hasPerm (state.view.entry (.user env page)) permPresent = true

theorem full_congr {value other : Env} (same : value.workingSet = other.workingSet) :
    Full value ↔ Full other := by
  change (∀ index < value.workingSet.maxSize, (value.workingSet.element index).empty = false) ↔ _
  rw [same]
  rfl

theorem full_of_no_room {value : Env} (none : ¬envPageWsGetSize value < value.pageWSMaxSize) :
    Full value := by
  intro index inside
  have length : (List.range value.pageWSMaxSize).length ≤
      ((List.range value.pageWSMaxSize).filter fun index =>
        (value.ptrPageWorkingSet index).empty = false).length := by
    rw [List.length_range]
    exact Nat.le_of_not_lt none
  have all := List.filter_eq_self.mp (List.filter_sublist.eq_of_length_le length)
  simpa using all index (List.mem_range.mpr inside)

/-- Every page that may be outside the working set is in it or is absent. -/
theorem Paged.settle (paged : Paged users ghost free state)
    (tracked : ∀ env ∈ ghost.active, ∀ page, Slot.user env page ∈ ghost.loose →
      hasPerm (state.view.entry (.user env page)) permPresent = true →
      state.view.Resident env page) : Paged users { ghost with loose := ∅ } free state where
  consistent := reloose paged.consistent fun env active page loose _ present =>
    tracked env active page loose present
  file := paged.file
  readOnly := paged.readOnly
  writeable := paged.writeable
  active := paged.active
  sizes := paged.sizes

/-- More pages may be outside the working set. -/
theorem Sound.loosened (sound : Sound users ghost free state) (loose : Finset Slot) :
    Paged users { ghost with loose } free state where
  consistent := by
    refine reloose sound.paged.consistent fun env _ page before => ?_
    rw [sound.settled] at before
    exact absurd before (Finset.notMem_empty _)
  file := sound.paged.file
  readOnly := sound.paged.readOnly
  writeable := sound.paged.writeable
  active := sound.paged.active
  sizes := sound.paged.sizes

/-- A page that is not present is not in the working set. -/
theorem Sound.not_resident {page : Nat} (sound : Sound users ghost free state) (user : env ∈ users)
    (absent : hasPerm (state.view.entry (.user env page)) permPresent = false) (index : Nat) :
    ¬state.view.ResidentAt env index page := by
  intro resident
  rw [(sound.paged.resident_writeable user resident).2.1] at absent
  cases absent

/-! ## A page enters the working set -/

theorem roundDown_eq (address : Nat) : roundDown address = ppn address * 4096 := by
  simp only [roundDown, ppn]
  omega

/-- The record of an environment after a page was put into a slot. -/
def entering (value : Env) (slot page hand : Nat) : Env :=
  { value.setElement slot ⟨page * 4096, false, 0x80000000⟩ with pageLastWSIndex := hand }

variable {hand page : Nat}

theorem entering_workingSet (value : Env) : (entering value slot page hand).workingSet =
    { value.workingSet.set slot ⟨page * 4096, false, 0x80000000⟩ with lastIndex := hand } := by
  simp [entering, Env.workingSet, WorkingSet.set, Env.setElement]

/-- The state after a page was put into a slot. -/
def enterPage (state : State) (env slot page hand : Nat) : State :=
  state.setEnv env (entering (state.envs env) slot page hand)

theorem enterPage_own :
    (enterPage state env slot page hand).envs env = entering (state.envs env) slot page hand :=
  Function.update_self _ _ _

theorem enterPage_other {other : Nat} (different : other ≠ env) :
    (enterPage state env slot page hand).envs other = state.envs other :=
  Function.update_of_ne different _ _

theorem enterPage_resident (inside : slot < (state.envs env).pageWSMaxSize) :
    (enterPage state env slot page hand).view.ResidentAt env slot page := by
  have own := congrArg Env.workingSet (@enterPage_own state env slot hand page)
  rw [entering_workingSet] at own
  change slot < ((enterPage state env slot page hand).envs env).workingSet.maxSize ∧
    (((enterPage state env slot page hand).envs env).workingSet.element slot).empty = false ∧
    (((enterPage state env slot page hand).envs env).workingSet.element slot).virtualAddress = _
  rw [own]
  refine ⟨inside, ?_, ?_⟩
  · simp [WorkingSet.set]
  · simp [WorkingSet.set]

/-- With the other slots filled the working set is full. -/
theorem enterPage_full (filled : ∀ index < (state.envs env).pageWSMaxSize, index ≠ slot →
      ((state.envs env).ptrPageWorkingSet index).empty = false) :
    Full ((enterPage state env slot page hand).envs env) := by
  rw [enterPage_own]
  intro index inside
  by_cases here : index = slot
  · simp [entering, Env.setElement, here]
  · simpa [entering, Env.setElement, here] using filled index inside here

/-- The page is put into an empty slot. -/
theorem Brought.enter (brought : Brought users ghost free env address origin state)
    (vacant : ((state.envs env).ptrPageWorkingSet slot).empty = true)
    (absent : ∀ other, ¬state.view.ResidentAt env other (ppn address))
    (bound : hand < (state.envs env).pageWSMaxSize) :
    Paged users ghost free (enterPage state env slot (ppn address) hand) := by
  have entered : Consistent ghost (state.view.setWorkingSet env
      ((state.view.workingSet env).set slot ⟨ppn address * 4096, false, 0x80000000⟩)) := by
    refine brought.paged.consistent.enterElement brought.visible brought.present brought.single
      (fun other _ => absent other) ?_
    intro _ other resident
    have filled := resident.2.1
    change ((state.envs env).ptrPageWorkingSet slot).empty = false at filled
    rw [vacant] at filled
    cases filled
  have inside : hand < ((state.view.setWorkingSet env ((state.view.workingSet env).set slot
      ⟨ppn address * 4096, false, 0x80000000⟩)).workingSet env).maxSize := by
    simpa [View.setWorkingSet, WorkingSet.set, State.view, Env.workingSet] using bound
  have moved := entered.setLastIndex fun _ => inside
  refine brought.paged.setEnv ?_ rfl rfl rfl rfl rfl
  rw [entering_workingSet]
  convert moved using 1
  simp [View.setWorkingSet, State.view]

/-! ## Replacement -/

/-- The faulting page comes back from its list, or is loaded. -/
theorem Evicted.bring {victim : Victim} {permissions : Word} {frame : Option Nat}
    {pointer : TablePointer} (sound : Sound users ghost free origin)
    (evicted : Evicted users after free env origin victim state) (user : address < userTop)
    (table : hasPerm (directoryEntry origin env address) permPresent = true)
    (absent : hasPerm (origin.view.entry (.user env (ppn address))) permPresent = false)
    (loose : Slot.user env (ppn address) ∈ after.loose) (running : origin.curenv = env)
    (found : getFrameInfo origin (.env env) address = .ok (frame, pointer))
    (read : ptGetPagePermissions state env address = .ok permissions)
    (returned : (if hasPerm permissions permBuffered then restorePage env address permissions frame
      else loadPage env address) state = .ok ((), final)) :
    ∃ last left, last.loose = after.loose ∧ Arrived users last left env address state final := by
  have paged := evicted.paged
  have same := evicted.others env (ppn address) fun _ => absent
  have value := ptGetPagePermissions_ok paged.consistent.toHeapLayout user read
  have buffered : hasPerm permissions permBuffered =
      hasPerm (origin.view.entry (.user env (ppn address))) permBuffered := by
    rw [value, same, hasPerm_masked (by decide)]
  have absentNow := absent
  rw [← same] at absentNow
  rcases ite_ok.mp returned with ⟨isBuffered, restoring⟩ | ⟨plain, loading⟩
  · have nonzero : state.view.entry (.user env (ppn address)) ≠ 0 := by
      intro zero
      rw [buffered, ← same, zero] at isBuffered
      exact absurd isBuffered (by decide)
    have info : frame = some (frameOf (state.view.entry (.user env (ppn address)))) := by
      rcases getFrameInfo_user sound.paged.consistent.toHeapLayout user found with
        ⟨rfl, -, -⟩ | ⟨-, -, equal⟩
      · rcases bind_ok.mp restoring with ⟨_, _, _, thrown⟩
        cases thrown
      · rw [equal, ← same, entryFrame, if_neg nonzero]
    rw [info, value] at restoring
    rcases paged.restore nonzero absentNow loose restoring with
      ⟨last, -, -, kept, brought, contents⟩
    refine ⟨last, free, kept, brought, ?_⟩
    rw [contents]
    exact ⟨fun _ _ => rfl, fun _ => id⟩
  · have empty : state.view.entry (.user env (ppn address)) = 0 := by
      by_contra nonzero
      rcases paged.buffered nonzero absentNow with ⟨-, member, listed⟩
      have entry := (paged.consistent.buffered _ listed _ member).2.2.2
      rw [buffered, ← same] at plain
      exact plain entry.buffered
    have tableNow : hasPerm (directoryEntry state env address) permPresent = true := by
      rw [directoryEntry, evicted.directories]
      exact table
    exact paged.load user tableNow empty loose (evicted.settings.curenv.trans running) loading

/-- The page takes the place of the victim. -/
theorem Arrived.replaces {victim : Victim} {before last : Ghost}
    (sound : Sound users ghost free origin) (user : env ∈ users) (full : Full (origin.envs env))
    (absent : hasPerm (origin.view.entry (.user env (ppn address))) permPresent = false)
    (evicted : Evicted users before free env origin victim state)
    (arrived : Arrived users last left env address state middle)
    (loose : last.loose = {.user env (ppn victim.address), .user env (ppn address)})
    (returned : (do
      envPageWsSetEntry env victim.index address
      setLastWSIndexAfter env victim.index : Kernel Unit) middle = .ok ((), final)) :
    Sound users { last with loose := ∅ } left final ∧ SameSettings origin final ∧
      contents final = contents middle := by
  have brought := arrived.brought
  have paged := brought.paged
  rcases evicted.record with ⟨hand, -, record⟩
  have own : (middle.envs env).workingSet =
      { (origin.envs env).setElement victim.index .cleared with
        pageLastWSIndex := hand }.workingSet := by
    rw [brought.envs, record, Function.update_self]
  have size : (middle.envs env).pageWSMaxSize = (origin.envs env).pageWSMaxSize :=
    congrArg WorkingSet.maxSize own
  have elements : (middle.envs env).ptrPageWorkingSet =
      Function.update (origin.envs env).ptrPageWorkingSet victim.index .cleared :=
    congrArg WorkingSet.element own
  have inside : victim.index < (middle.envs env).pageWSMaxSize := by
    rw [size]
    exact evicted.inside
  have vacant : ((middle.envs env).ptrPageWorkingSet victim.index).empty = true := by
    rw [elements, Function.update_self]
    rfl
  have nowhere : ∀ index, ¬middle.view.ResidentAt env index (ppn address) := by
    rintro index ⟨below, filled, recorded⟩
    change index < (middle.envs env).pageWSMaxSize at below
    change ((middle.envs env).ptrPageWorkingSet index).empty = false at filled
    change ((middle.envs env).ptrPageWorkingSet index).virtualAddress = _ at recorded
    by_cases same : index = victim.index
    · rw [same, vacant] at filled
      cases filled
    · rw [elements, Function.update_of_ne same] at filled recorded
      rw [size] at below
      exact sound.not_resident user absent index ⟨below, filled, recorded⟩
  rcases bind_ok.mp returned with ⟨_, entered, putting, moving⟩
  have put := envPageWsSetEntry_ok putting
  rw [roundDown_eq] at put
  have putRecord : entered.envs env = (middle.envs env).setElement victim.index
      ⟨ppn address * 4096, false, 0x80000000⟩ := by
    rw [put]
    exact Function.update_self _ _ _
  have moved := @setLastWSIndexAfter_ok entered final env victim.index (by rwa [putRecord])
    (by rw [putRecord]; exact paged.sizes env user) moving
  rw [putRecord] at moved
  have bound : (victim.index + 1) % (middle.envs env).pageWSMaxSize <
      (middle.envs env).pageWSMaxSize := Nat.mod_lt _ (Nat.lt_of_le_of_lt (Nat.zero_le _) inside)
  have ended : final = enterPage middle env victim.index (ppn address)
      ((victim.index + 1) % (middle.envs env).pageWSMaxSize) := by
    rw [moved, put]
    simp [State.setEnv, Env.setElement, enterPage, entering]
  have entered := brought.enter vacant nowhere bound
  subst ended
  refine ⟨⟨entered.settle ?_, rfl, ?_⟩,
    evicted.settings.trans (brought.settings.trans ⟨rfl, rfl, rfl⟩), rfl⟩
  · intro owner active page slot present
    rw [loose, Finset.mem_insert, Finset.mem_singleton] at slot
    by_cases arrives : Slot.user (.env owner) page = .user env (ppn address)
    · cases arrives
      exact ⟨victim.index, enterPage_resident inside⟩
    · have leaves := slot.resolve_right arrives
      change hasPerm (middle.view.entry (.user (.env owner) page)) permPresent = true at present
      rw [brought.others _ _ arrives] at present
      cases leaves
      rw [evicted.out] at present
      cases present
  · intro owner member room page nonzero
    by_cases same : owner = env
    · subst same
      refine absurd (enterPage_full fun index below different => ?_) room
      rw [size] at below
      rw [elements, Function.update_of_ne different]
      exact full index below
    · have arrives : Slot.user (.env owner) page ≠ .user env (ppn address) := by
        intro equal
        cases equal
        exact same rfl
      have entry : middle.view.entry (.user owner page) = origin.view.entry (.user owner page) := by
        rw [brought.others _ _ arrives]
        refine evicted.others _ _ fun equal => ?_
        cases equal
        exact absurd rfl same
      have before : (middle.envs owner).workingSet = (origin.envs owner).workingSet := by
        rw [brought.envs, record, Function.update_of_ne same]
      rw [enterPage_other same] at room
      replace nonzero : middle.view.entry (.user owner page) ≠ 0 := nonzero
      change hasPerm (middle.view.entry (.user owner page)) permPresent = true
      rw [entry] at nonzero ⊢
      exact sound.tight owner member (mt (full_congr before).mpr room) page nonzero

/-- What a fault leaves. -/
structure Served (users : Finset Nat) (ghost : Ghost) (free : List Nat) (env address : Nat)
    (origin final : State) : Prop where
  sound : Sound users ghost free final
  settings : SameSettings origin final
  appears : FlatMemory.Appears (contents origin) (env, ppn address) (contents final)

/-- The replacement branch, while the list of modified frames does not fill up. -/
theorem Sound.replaces {frame : Option Nat} {pointer : TablePointer}
    (sound : Sound users ghost free state) (user : env ∈ users) (below : address < userTop)
    (table : hasPerm (directoryEntry state env address) permPresent = true)
    (absent : hasPerm (state.view.entry (.user env (ppn address))) permPresent = false)
    (full : Full (state.envs env)) (running : state.curenv = env)
    (calm : state.modifiedFrameList.size + 1 ≠ state.modifiedBufferLength)
    (found : getFrameInfo state (.env env) address = .ok (frame, pointer))
    (returned : replacementBranch env address frame state = .ok ((), final)) :
    ∃ after left, Served users after left env address state final := by
  rcases bind_ok.mp (bind_get_ok.mp returned) with ⟨victim, one, finding, continued⟩
  have taken := findVictim_taken (Swept.start sound.paged) user full finding
  have emptied : Emptied users
      { ghost with loose := {.user env (ppn victim.address), .user env (ppn address)} } free env
      state victim one := taken.emptied user (by simp [sound.settled]) (by simp)
  rcases bind_observe_ok.mp continued with ⟨⟨info, victimTable⟩, looked, continued⟩
  cases info with
  | none =>
      rcases bind_ok.mp continued with ⟨_, _, thrown, -⟩
      cases thrown
  | some victimFrame =>
  rcases bind_ok.mp continued with ⟨_, two, buffering, continued⟩
  have nonzero := ne_zero_of_present emptied.present
  have victimUser := (table_of_entry nonzero).1
  have sameFrame : victimFrame =
      frameOf (one.view.entry (.user env (ppn victim.address))) := by
    rcases getFrameInfo_user emptied.paged.consistent.toHeapLayout victimUser looked with
      ⟨nothing, -, -⟩ | ⟨-, -, equal⟩
    · cases nothing
    · rw [entryFrame, if_neg nonzero] at equal
      exact Option.some.inj equal
  rw [sameFrame] at buffering
  rcases emptied.evict calm buffering with ⟨evictedFrame, toModified, evicted⟩
  rcases bind_observe_ok.mp continued with ⟨permissions, read, continued⟩
  have brings : ∃ three, (if hasPerm permissions permBuffered then
      restorePage env address permissions frame else loadPage env address) two = .ok ((), three) ∧
      (do
        envPageWsSetEntry env victim.index address
        setLastWSIndexAfter env victim.index : Kernel Unit) three = .ok ((), final) := by
    rcases ite_ok.mp continued with ⟨buffered, restores⟩ | ⟨plain, loads⟩
    · rcases bind_ok.mp restores with ⟨_, three, restoring, ended⟩
      rw [if_pos buffered]
      exact ⟨three, restoring, ended⟩
    · rcases bind_ok.mp loads with ⟨_, three, loading, ended⟩
      rw [if_neg plain]
      exact ⟨three, loading, ended⟩
  rcases brings with ⟨three, bringing, ended⟩
  rcases evicted.bring sound below table absent (by simp) running found read bringing with
    ⟨last, left, loose, arrived⟩
  rw [Ghost.evict_loose] at loose
  rcases arrived.replaces sound user full absent evicted loose ended with
    ⟨soundNow, settings, sameContents⟩
  refine ⟨_, left, soundNow, settings, ?_⟩
  rw [sameContents, ← evicted.contents]
  exact arrived.appears

/-! ## Placement -/

/-- The loop of `placement` uses the first empty slot. -/
theorem placeInWorkingSet_enters {start count : Nat} (first : FirstEmpty (state.envs env) slot)
    (lower : start ≤ slot) (upper : slot < start + count)
    (returned : placeInWorkingSet env address (List.range' start count) state = .ok ((), final)) :
    ∃ hand < (state.envs env).pageWSMaxSize,
      final = enterPage state env slot (ppn address) hand := by
  induction count generalizing start with
  | zero => omega
  | succ count induction =>
      rcases ite_ok.mp (bind_get_ok.mp returned) with ⟨empty, placed⟩ | ⟨occupied, rest⟩
      · have here : start = slot := by
          by_contra different
          rw [first.filled start (by omega)] at empty
          cases empty
        subst here
        rcases bind_ok.mp placed with ⟨_, entered, putting, moving⟩
        have moved := modify_ok.mp moving
        rw [envPageWsSetEntry_ok putting, roundDown_eq] at moved
        have inside := first.inside
        refine ⟨if start + 1 = (state.envs env).pageWSMaxSize then 0 else start + 1, ?_, ?_⟩
        · split <;> omega
        · rw [← moved]
          simp [State.setEnv, Env.setElement, entering, enterPage]
      · have different : start ≠ slot := by
          rintro rfl
          exact occupied first.empty
        exact induction (by omega) (by omega) rest

/-- The words of the page are those that it had on the disk. -/
def Kept (origin final : State) (env address : Nat) : Prop :=
  ∀ words, stored origin (env, ppn address) = some words →
    contents final (env, ppn address) = some words

/-- The page has a frame and has been read, before it is put into the working set. -/
theorem Paged.place (paged : Paged users ghost free state) (below : address < userTop)
    (table : hasPerm (directoryEntry state env address) permPresent = true)
    (empty : state.view.entry (.user env (ppn address)) = 0)
    (loose : Slot.user env (ppn address) ∈ ghost.loose) (running : state.curenv = env)
    (first : FirstEmpty (state.envs env) slot)
    (returned : placement env address state = .ok ((), final)) :
    ∃ after left middle, after.loose = ghost.loose ∧
      Loaded users after left env address state middle ∧ Kept state middle env address ∧
      ∃ hand < (state.envs env).pageWSMaxSize,
        final = enterPage middle env slot (ppn address) hand := by
  rcases bind_ok.mp returned with ⟨frame, taken, allocating, continued⟩
  rcases bind_ok.mp continued with ⟨_, mapped, mapping, reading⟩
  have enters : (do
      let frame ← allocateFrame
      mapFrame env frame address (permUser ||| permWriteable) : Kernel Unit)
        state = .ok ((), mapped) := bind_ok.mpr ⟨frame, taken, allocating, mapping⟩
  rcases paged.enter below table empty loose (by decide) (by decide) enters with
    ⟨after, same, loaded⟩
  have runningNow : mapped.curenv = env := loaded.brought.settings.curenv.trans running
  rcases bind_ok.mp reading with ⟨code, read, reads, placing⟩
  have finish : ∀ {after left middle target}, after.loose = ghost.loose →
      Loaded users after left env address state middle → Kept state middle env address →
      ppn target = ppn address →
      (do placeInWorkingSet env target (List.range ((← getThe State).envs env).pageWSMaxSize) :
        Kernel Unit) middle = .ok ((), final) →
      ∃ after left middle, after.loose = ghost.loose ∧
        Loaded users after left env address state middle ∧ Kept state middle env address ∧
        ∃ hand < (state.envs env).pageWSMaxSize,
          final = enterPage middle env slot (ppn address) hand := by
    intro after left middle target same loaded kept page placed
    replace placed := bind_get_ok.mp placed
    rw [List.range_eq_range'] at placed
    have own := loaded.brought.envs env
    have size : (middle.envs env).pageWSMaxSize = (state.envs env).pageWSMaxSize :=
      congrArg WorkingSet.maxSize own
    have elements : (middle.envs env).ptrPageWorkingSet = (state.envs env).ptrPageWorkingSet :=
      congrArg WorkingSet.element own
    have firstNow : FirstEmpty (middle.envs env) slot := by
      refine ⟨?_, ?_, ?_⟩
      · rw [size]
        exact first.inside
      · rw [elements]
        exact first.empty
      · rw [elements]
        exact first.filled
    rcases placeInWorkingSet_enters firstNow (Nat.zero_le _)
      (lt_of_lt_of_eq firstNow.inside (Nat.zero_add _).symm) placed with ⟨hand, bound, ended⟩
    rw [page] at ended
    rw [size] at bound
    exact ⟨after, left, middle, same, loaded, kept, hand, bound, ended⟩
  rcases loaded.read below runningNow reads with ⟨rfl, loadedNow, words⟩ | ⟨rfl, rfl, missing⟩
  · refine finish same loadedNow (fun before found => ?_) rfl placing
    rw [words]
    exact loaded.disk before found
  · rw [if_pos rfl] at placing
    rcases ite_ok.mp placing with ⟨-, adding⟩ | ⟨-, stopped⟩
    · rcases bind_ok.mp adding with ⟨_, added, adds, placing⟩
      have down : roundDown address < userTop := Nat.lt_of_le_of_lt (Nat.sub_le _ _) below
      rcases loaded.add down ppn_roundDown missing adds with ⟨last, left, kept, loadedNow, nothing⟩
      refine finish (kept.trans same) loadedNow (fun before found => ?_) ppn_roundDown placing
      rw [nothing] at found
      cases found
    · rcases bind_ok.mp stopped with ⟨_, _, thrown, -⟩
      cases thrown

theorem Loaded.enter (loaded : Loaded users ghost free env address origin state)
    (entered : Paged users ghost free (enterPage state env slot page hand)) :
    Loaded users ghost free env address (enterPage origin env slot page hand)
      (enterPage state env slot page hand) where
  brought :=
    { loaded.brought with
      paged := entered
      envs := by
        intro other
        by_cases same : other = env
        · rw [same, enterPage_own, enterPage_own, entering_workingSet, entering_workingSet,
            loaded.brought.envs]
        · rw [enterPage_other same, enterPage_other same, loaded.brought.envs]
      settings :=
        have settings := loaded.brought.settings
        ⟨settings.curenv, settings.modifiedBufferLength, settings.enableBuffering⟩ }
  others := loaded.others
  disk := loaded.disk

/-- The hand moves. -/
theorem Paged.setHand (paged : Paged users ghost free state)
    (bound : hand < (state.envs env).pageWSMaxSize) :
    Paged users ghost free (state.setEnv env { state.envs env with pageLastWSIndex := hand }) := by
  have consistent : Consistent ghost (state.view.setWorkingSet env
      { state.view.workingSet env with lastIndex := hand }) :=
    paged.consistent.setLastIndex fun _ => bound
  exact paged.setEnv consistent rfl rfl rfl rfl rfl

/-- The second look at the page file. -/
theorem Loaded.again {permissions : Word}
    (loaded : Loaded users ghost free env address origin state)
    (kept : Kept origin state env address) (below : address < userTop)
    (running : state.curenv = env) {lastIDX : Nat}
    (returned : (do
      if ¬hasPerm permissions permBuffered then
        if (← pfReadEnvPage env address) = .pageNotExist then
          if ustackBottom ≤ address ∧ address < ustackTop then
            let _ ← pfAddEmptyEnvPage env address false
          else throw missingPage
      setLastWSIndexAfter env lastIDX : Kernel Unit) state = .ok ((), final)) :
    ∃ after left middle, after.loose = ghost.loose ∧
      Loaded users after left env address origin middle ∧ Kept origin middle env address ∧
      setLastWSIndexAfter env lastIDX middle = .ok ((), final) := by
  rcases ite_ok.mp returned with ⟨-, again⟩ | ⟨-, ended⟩
  · rcases bind_ok.mp again with ⟨code, read, reads, ended⟩
    rcases loaded.read below running reads with ⟨rfl, loadedNow, words⟩ | ⟨rfl, rfl, missing⟩
    · refine ⟨ghost, free, read, rfl, loadedNow, fun before found => ?_, ended⟩
      rw [words]
      exact loaded.disk before found
    · rw [if_pos rfl] at ended
      rcases ite_ok.mp ended with ⟨-, adding⟩ | ⟨-, stopped⟩
      · rcases bind_ok.mp adding with ⟨_, added, adds, ended⟩
        have down : roundDown address < userTop := Nat.lt_of_le_of_lt (Nat.sub_le _ _) below
        have missing : stored read (env, ppn address) = none ∨ Lost read env address :=
          missing.imp_right fun lost => lost.congr ppn_roundDown.symm down below
        rcases loaded.add below rfl missing adds with ⟨last, left, same, loadedNow, nothing⟩
        refine ⟨last, left, added, same, loadedNow, fun before found => ?_, ended⟩
        rw [nothing] at found
        cases found
      · rcases bind_ok.mp stopped with ⟨_, _, thrown, -⟩
        cases thrown
  · exact ⟨ghost, free, state, rfl, loaded, kept, ended⟩

/-- The placement branch. -/
theorem Sound.places (sound : Sound users ghost free state) (user : env ∈ users)
    (below : address < userTop)
    (table : hasPerm (directoryEntry state env address) permPresent = true)
    (absent : hasPerm (state.view.entry (.user env (ppn address))) permPresent = false)
    (room : envPageWsGetSize (state.envs env) < (state.envs env).pageWSMaxSize)
    (running : state.curenv = env)
    (returned : placementBranch env address (state.envs env).pageLastWSIndex state =
      .ok ((), final)) :
    ∃ after left, Served users after left env address state final := by
  rcases firstEmpty_of_room room with ⟨slot, first⟩
  have vacancy : ¬Full (state.envs env) := by
    intro full
    have filled := full slot first.inside
    rw [first.empty] at filled
    cases filled
  have empty : state.view.entry (.user env (ppn address)) = 0 := by
    by_contra nonzero
    rw [sound.tight env user vacancy _ nonzero] at absent
    cases absent
  rcases bind_ok.mp returned with ⟨_, placed, placing, continued⟩
  rcases (sound.loosened {.user env (ppn address)}).place below table empty
      (Finset.mem_singleton_self _) running first placing with
    ⟨after, left, middle, loose, loaded, kept, hand, bound, rfl⟩
  have brought := loaded.brought
  have size : (middle.envs env).pageWSMaxSize = (state.envs env).pageWSMaxSize :=
    congrArg WorkingSet.maxSize (brought.envs env)
  have elements : (middle.envs env).ptrPageWorkingSet = (state.envs env).ptrPageWorkingSet :=
    congrArg WorkingSet.element (brought.envs env)
  have vacant : ((middle.envs env).ptrPageWorkingSet slot).empty = true := by
    rw [elements]
    exact first.empty
  have nowhere : ∀ index, ¬middle.view.ResidentAt env index (ppn address) := by
    rintro index ⟨inside, filled, recorded⟩
    change index < (middle.envs env).pageWSMaxSize at inside
    change ((middle.envs env).ptrPageWorkingSet index).empty = false at filled
    change ((middle.envs env).ptrPageWorkingSet index).virtualAddress = _ at recorded
    rw [size] at inside
    rw [elements] at filled recorded
    exact sound.not_resident user absent index ⟨inside, filled, recorded⟩
  have entered := loaded.enter (brought.enter vacant nowhere (size ▸ bound))
  rcases bind_observe_ok.mp continued with ⟨permissions, -, continued⟩
  have runningNow : (enterPage middle env slot (ppn address) hand).curenv = env :=
    brought.settings.curenv.trans running
  rcases entered.again kept below runningNow continued with
    ⟨last, rest, read, looseNow, loadedNow, keptNow, moving⟩
  have broughtNow := loadedNow.brought
  have record := broughtNow.envs env
  rw [enterPage_own, entering_workingSet] at record
  have sizeNow : (read.envs env).pageWSMaxSize = (state.envs env).pageWSMaxSize :=
    congrArg WorkingSet.maxSize record
  have elementsNow : (read.envs env).ptrPageWorkingSet = Function.update
      (state.envs env).ptrPageWorkingSet slot ⟨ppn address * 4096, false, 0x80000000⟩ :=
    congrArg WorkingSet.element record
  have before : (state.envs env).pageLastWSIndex < (state.envs env).pageWSMaxSize :=
    sound.paged.consistent.lastIndex env (sound.paged.active user)
  have moved := setLastWSIndexAfter_ok (by rw [sizeNow]; exact before)
    (broughtNow.paged.sizes env user) moving
  have handed := broughtNow.paged.setHand (Nat.mod_lt ((state.envs env).pageLastWSIndex + 1)
    (show 0 < (read.envs env).pageWSMaxSize by omega))
  rw [← moved] at handed
  have entry : final.view.entry = read.view.entry := by
    rw [moved]
    rfl
  have own : final.envs env = { read.envs env with
      pageLastWSIndex := ((state.envs env).pageLastWSIndex + 1) %
        (read.envs env).pageWSMaxSize } := by
    rw [moved]
    exact Function.update_self _ _ _
  have sameContents : contents final = contents read := by
    rw [moved]
    rfl
  refine ⟨_, rest, ⟨handed.settle ?_, rfl, ?_⟩, ?_, ⟨?_, ?_⟩⟩
  · intro owner active page loosePage present
    rw [looseNow, loose, Finset.mem_singleton] at loosePage
    cases loosePage
    refine ⟨slot, ?_, ?_, ?_⟩
    · change slot < (final.envs env).pageWSMaxSize
      rw [own, sizeNow]
      exact first.inside
    · change ((final.envs env).ptrPageWorkingSet slot).empty = false
      rw [own, elementsNow, Function.update_self]
    · change ((final.envs env).ptrPageWorkingSet slot).virtualAddress = _
      rw [own, elementsNow, Function.update_self]
  · intro owner member room page nonzero
    rw [entry] at nonzero ⊢
    by_cases own : Slot.user (.env owner) page = .user env (ppn address)
    · rw [own]
      exact broughtNow.present
    · rw [broughtNow.others _ _ own] at nonzero ⊢
      by_cases same : owner = env
      · subst same
        exact sound.tight owner user vacancy page nonzero
      · have later : final.envs owner = read.envs owner := by
          rw [moved]
          exact Function.update_of_ne same _ _
        have sets : (final.envs owner).workingSet = (state.envs owner).workingSet := by
          rw [later, broughtNow.envs, enterPage_other same]
        exact sound.tight owner member (mt (full_congr sets).mpr room) page nonzero
  · have settings := broughtNow.settings
    rw [moved]
    exact ⟨settings.curenv, settings.modifiedBufferLength, settings.enableBuffering⟩
  · rw [sameContents]
    exact loadedNow.others
  · rw [sameContents, contents_of_empty empty]
    exact keptNow

/-! ## The fault handler -/

/-- The fault does not fill the list of modified frames. -/
def Calm (state : State) : Prop :=
  envPageWsGetSize (state.envs state.curenv) < (state.envs state.curenv).pageWSMaxSize ∨
    state.modifiedFrameList.size + 1 ≠ state.modifiedBufferLength

/-- A new page table is empty. -/
theorem Sound.newTable {pointer : TablePointer} (sound : Sound users ghost free state)
    (new : NewTable ghost state (.env env) address pointer after final) :
    Served users after free env address state final := by
  have step := new.background
  have directory : final.diskDirectory = state.diskDirectory := by
    funext someEnv index
    exact new.otherTables (.disk someEnv index) nofun
  have layout : DiskLayout final := by
    refine sound.paged.file.layout.congr directory new.file.diskTables ?_ ?_
    · intro someEnv none
      rwa [new.envs] at none
    · intro someEnv none
      rwa [new.envs] at none
  have same : contents final = contents state := by
    funext ⟨owner, page⟩
    exact sound.paged.background_contents step owner page fun _ => by rw [stored_congr new.file]
  refine ⟨⟨sound.paged.background step (sound.paged.file.congr new.file layout), ?_, ?_⟩,
    step.settings, ?_⟩
  · rw [step.evolves.loose]
    exact sound.settled
  · intro owner user room page nonzero
    rw [new.envs] at room
    rw [step.userEntry] at nonzero ⊢
    exact sound.tight owner user room page nonzero
  · rw [same]
    exact ⟨fun _ _ => rfl, fun _ => id⟩

/-- A fault at a page that is not present. -/
theorem Sound.fault (sound : Sound users ghost free state) (user : state.curenv ∈ users)
    (absent : hasPerm (state.view.entry (.user state.curenv (ppn address))) permPresent = false)
    (calm : Calm state) (returned : faultHandler address state = .ok ((), final)) :
    ∃ after left, Served users after left state.curenv address state final := by
  rcases ite_ok.mp returned with ⟨-, stopped⟩ | ⟨inside, continued⟩
  · rcases bind_ok.mp stopped with ⟨_, _, thrown, -⟩
    cases thrown
  have below : address < userTop := by
    simp only [ustackTop, userTop] at inside ⊢
    omega
  rcases ite_ok.mp (bind_get_ok.mp continued) with ⟨missing, creating⟩ | ⟨found, continued⟩
  · rcases bind_ok.mp creating with ⟨pointer, created, creates, ended⟩
    rcases pure_ok.mp ended with ⟨-, rfl⟩
    have zero : directoryEntry state state.curenv address = 0 := by
      by_contra nonzero
      have table : state.view.table (.page state.curenv (pdx address)) =
          directoryEntry state state.curenv address := tableEntry_page (address_user below).2
      rw [← table] at nonzero
      have present := sound.paged.consistent.tablePresent _ nonzero
      rw [table] at present
      exact missing present
    rcases createPageTable_ok sound.paged.consistent below zero creates with ⟨after, new⟩
    exact ⟨after, free, sound.newTable new⟩
  · rcases ite_ok.mp continued with ⟨-, stopped⟩ | ⟨-, handling⟩
    · cases stopped
    have table : hasPerm (directoryEntry state state.curenv address) permPresent = true :=
      not_not.mp found
    rcases bind_observe_ok.mp (bind_get_ok.mp handling) with ⟨⟨frame, pointer⟩, looked, branch⟩
    rcases ite_ok.mp branch with ⟨room, placing⟩ | ⟨none, replacing⟩
    · exact sound.places user below table absent room rfl placing
    · exact sound.replaces user below table absent (full_of_no_room none) rfl
        (calm.resolve_left none) looked replacing

end Handler

end FosKernel.PagedMemory
