import FosKernel.Properties.PageContents
import FosKernel.Refinement.Replacement

/-! # Page faults step by step

What the steps of the page-fault handler do to the pages of the environments. A page has its
words in a frame, where an entry refers to one, and on the disk otherwise. Clearing bits,
buffering a page and bringing it back move no words.
-/

namespace FosKernel.PagedMemory

open Kernel PageContents

/-- The words of a page, in memory or on the disk. The read-only windows have none. -/
def contents (state : State) : Nat × Nat → Option Page := fun (env, page) =>
  if state.view.entry (.user env page) = 0 then stored state (env, page)
  else if hasPerm (state.view.entry (.user env page)) permWriteable then
    some fun index => state.memory (frameOf (state.view.entry (.user env page))) index
  else none

/-- What holds of the memory of the environments in use during a fault. -/
structure Paged (users : Finset Nat) (ghost : Ghost) (free : List Nat) (state : State) :
    Prop where
  consistent : Consistent ghost state.view
  file : PageFile free state
  readOnly : WindowsReadOnly ghost state
  writeable : ∀ env page, Slot.user env page ∉ ghost.uncounted →
    state.view.entry (.user env page) ≠ 0 →
    hasPerm (state.view.entry (.user env page)) permWriteable = true
  active : users ⊆ ghost.active
  sizes : ∀ env ∈ users, (state.envs env).pageWSMaxSize < 2 ^ 32

section Contents

variable {users : Finset Nat} {ghost after : Ghost} {free : List Nat} {state final : State}
variable {env page address frame : Nat}

/-- Two entries refer to the same words. -/
structure Alike (before after : Word) : Prop where
  zero : after = 0 ↔ before = 0
  frame : frameOf after = frameOf before
  writeable : hasPerm after permWriteable = hasPerm before permWriteable

theorem Alike.refl (entry : Word) : Alike entry entry := ⟨.rfl, rfl, rfl⟩

theorem contents_congr
    (entries : ∀ env page : Nat, Alike (state.view.entry (.user env page))
      (final.view.entry (.user env page)))
    (memory : ∀ env page : Nat,
      state.view.entry (.user env page) ≠ 0 →
      hasPerm (state.view.entry (.user env page)) permWriteable = true →
      final.memory (frameOf (state.view.entry (.user env page))) =
        state.memory (frameOf (state.view.entry (.user env page))))
    (disk : stored final = stored state) : contents final = contents state := by
  funext ⟨env, page⟩
  have alike := entries env page
  simp only [contents, disk, alike.zero, alike.frame, alike.writeable]
  split
  · rfl
  · next nonzero =>
      split
      · next writeable => rw [memory env page nonzero writeable]
      · rfl

/-- A page that can be written is not in a window, and its frame counts it. -/
theorem Paged.held (paged : Paged users ghost free state) {owner : Directory}
    (nonzero : state.view.entry (.user owner page) ≠ 0)
    (writeable : hasPerm (state.view.entry (.user owner page)) permWriteable = true) :
    Slot.user owner page ∈ ghost.holders (frameOf (state.view.entry (.user owner page))) := by
  refine paged.consistent.mem_holders.mpr ⟨fun hidden => ?_, nonzero, rfl⟩
  rw [paged.readOnly owner page hidden] at writeable
  cases writeable

/-- The frame of a page is not that of a page table. -/
theorem Paged.frame_ne_table (paged : Paged users ghost free state) {owner : Directory}
    {table : Directory} (user : address < userTop)
    (present : hasPerm (directoryEntry state table address) permPresent = true)
    (nonzero : state.view.entry (.user owner page) ≠ 0)
    (writeable : hasPerm (state.view.entry (.user owner page)) permWriteable = true) :
    frameOf (state.view.entry (.user owner page)) ≠
      frameOf (directoryEntry state table address) :=
  table_frame_ne paged.consistent user present
    (.inr (.inr ⟨owner, page, paged.held nonzero writeable⟩))

/-- A step that moves no words and keeps the page file. -/
theorem Paged.next (paged : Paged users ghost free state) (consistent : Consistent after final.view)
    (keeps : KeepsFile state final)
    (alike : ∀ owner page, Alike (state.view.entry (.user owner page))
      (final.view.entry (.user owner page)))
    (uncounted : ∀ owner page, Slot.user owner page ∈ after.uncounted ↔
      Slot.user owner page ∈ ghost.uncounted) (active : after.active = ghost.active)
    (sizes : ∀ env, (final.envs env).pageWSMaxSize = (state.envs env).pageWSMaxSize) :
    Paged users after free final where
  consistent := consistent
  file := keeps.pageFile paged.file
  readOnly := by
    intro owner page hidden
    rw [(alike owner page).writeable]
    exact paged.readOnly owner page ((uncounted owner page).mp hidden)
  writeable := by
    intro owner page visible nonzero
    rw [(alike owner page).writeable]
    exact paged.writeable owner page (mt (uncounted owner page).mpr visible)
      (mt (alike owner page).zero.mpr nonzero)
  active := by
    rw [active]
    exact paged.active
  sizes := by
    intro env user
    rw [sizes]
    exact paged.sizes env user

/-! ## Entries -/

/-- The state after an entry of a page table has been written. -/
def storeEntry (state : State) (env address : Nat) (word : Word) : State :=
  state.setMemory (frameOf (directoryEntry state env address)) (ptx address) word

variable {word : Word}

theorem Paged.storeEntry_view (paged : Paged users ghost free state) (user : address < userTop)
    (table : hasPerm (directoryEntry state env address) permPresent = true) (word : Word) :
    (storeEntry state env address word).view =
      state.view.setEntry (.user env (ppn address)) word :=
  State.view_storeEntry paged.consistent.toPlacement user table word

theorem Paged.storeEntry_file (paged : Paged users ghost free state) (user : address < userTop)
    (table : hasPerm (directoryEntry state env address) permPresent = true) (word : Word) :
    KeepsFile state (storeEntry state env address word) :=
  .storeEntry paged.consistent.toPlacement user table word

theorem Paged.storeEntry_alike (paged : Paged users ghost free state) (user : address < userTop)
    (table : hasPerm (directoryEntry state env address) permPresent = true)
    (alike : Alike (state.view.entry (.user env (ppn address))) word) (owner : Directory)
    (page : Nat) : Alike (state.view.entry (.user owner page))
      ((storeEntry state env address word).view.entry (.user owner page)) := by
  rw [paged.storeEntry_view user table]
  by_cases own : Slot.user owner page = .user env (ppn address)
  · rw [own, show (state.view.setEntry (.user env (ppn address)) word).entry
      (.user env (ppn address)) = word from Function.update_self _ _ _]
    exact alike
  · rw [show (state.view.setEntry (.user env (ppn address)) word).entry
      (.user owner page) = state.view.entry (.user owner page) from
      Function.update_of_ne own _ _]
    exact .refl _

theorem Paged.storeEntry_contents (paged : Paged users ghost free state)
    (user : address < userTop)
    (table : hasPerm (directoryEntry state env address) permPresent = true)
    (alike : Alike (state.view.entry (.user env (ppn address))) word) :
    contents (storeEntry state env address word) = contents state := by
  apply contents_congr
  · exact fun owner page => paged.storeEntry_alike user table alike owner page
  · intro owner page nonzero writeable
    exact Function.update_of_ne (paged.frame_ne_table user table nonzero writeable) _ _
  · exact stored_congr (paged.storeEntry_file user table word).same

/-- An entry is written that refers to the same words. -/
theorem Paged.storeEntry (paged : Paged users ghost free state) (user : address < userTop)
    (table : hasPerm (directoryEntry state env address) permPresent = true)
    (alike : Alike (state.view.entry (.user env (ppn address))) word)
    (consistent : Consistent after (state.view.setEntry (.user env (ppn address)) word))
    (uncounted : after.uncounted = ghost.uncounted) (active : after.active = ghost.active) :
    Paged users after free (PagedMemory.storeEntry state env address word) := by
  rw [← paged.storeEntry_view user table] at consistent
  exact paged.next consistent (paged.storeEntry_file user table word)
    (paged.storeEntry_alike user table alike) (fun _ _ => by rw [uncounted]) active fun _ => rfl

/-! ## The working set -/

/-- The record of an environment changes, but not its directories. -/
theorem Paged.setEnv (paged : Paged users ghost free state) {value : Env}
    (consistent : Consistent after (state.view.setWorkingSet env value.workingSet))
    (uncounted : after.uncounted = ghost.uncounted) (active : after.active = ghost.active)
    (size : value.pageWSMaxSize = (state.envs env).pageWSMaxSize)
    (pages : value.diskEnvPgdir = (state.envs env).diskEnvPgdir)
    (tables : value.diskEnvTabledir = (state.envs env).diskEnvTabledir) :
    Paged users after free (state.setEnv env value) := by
  rw [← State.view_setEnv] at consistent
  refine paged.next consistent (.setEnv pages tables) (fun _ _ => .refl _)
    (fun _ _ => by rw [uncounted]) active ?_
  intro other
  by_cases same : other = env
  · subst same
    simpa [State.setEnv] using size
  · simp [State.setEnv, same]

theorem advanceLastWSIndex_ok
    (inside : (state.envs env).pageLastWSIndex < (state.envs env).pageWSMaxSize)
    (returned : advanceLastWSIndex env state = .ok ((), final)) :
    ∃ hand < (state.envs env).pageWSMaxSize,
      final = state.setEnv env { state.envs env with pageLastWSIndex := hand } := by
  have moved := modify_ok.mp (bind_get_ok.mp returned)
  refine ⟨_, ?_, moved.symm⟩
  split <;> omega

/-- The page at the hand is taken out. -/
theorem takeVictim_ok {victim : Victim}
    (returned : takeVictim env address state = .ok (victim, final)) :
    let value := state.envs env
    victim = ⟨address, value.pageLastWSIndex⟩ ∧ value.pageLastWSIndex < value.pageWSMaxSize ∧
      ∃ hand < value.pageWSMaxSize, final = state.setEnv env
        { value.setElement value.pageLastWSIndex .cleared with pageLastWSIndex := hand } := by
  rcases bind_ok.mp (bind_get_ok.mp returned) with ⟨_, cleared, clearing, continued⟩
  rcases envPageWsClearEntry_ok clearing with ⟨inside, rfl⟩
  rcases bind_ok.mp continued with ⟨_, moved, advancing, ended⟩
  rcases pure_ok.mp ended with ⟨rfl, rfl⟩
  have same : (state.setEnv env ((state.envs env).setElement
      (state.envs env).pageLastWSIndex .cleared)).envs env =
      (state.envs env).setElement (state.envs env).pageLastWSIndex .cleared := by
    simp [State.setEnv]
  rcases advanceLastWSIndex_ok (by rw [same]; exact inside) advancing with ⟨hand, bound, rfl⟩
  rw [same] at bound
  refine ⟨rfl, inside, hand, bound, ?_⟩
  rw [same]
  simp [State.setEnv]

/-! ## The choice of a victim -/

/-- The working set is full. -/
def Full (value : Env) : Prop :=
  ∀ index < value.pageWSMaxSize, (value.ptrPageWorkingSet index).empty = false

/-- The search for a victim has cleared bits of present pages and moved the hand. -/
structure Swept (users : Finset Nat) (ghost : Ghost) (free : List Nat) (env : Nat)
    (origin state : State) : Prop where
  paged : Paged users ghost free state
  contents : contents state = PagedMemory.contents origin
  only : ∃ memory hand, state = { origin with
    memory, envs := Function.update origin.envs env
      { origin.envs env with pageLastWSIndex := hand } }
  others : ∀ owner page, (owner = .env env →
      hasPerm (origin.view.entry (.user owner page)) permPresent = false) →
    state.view.entry (.user owner page) = origin.view.entry (.user owner page)

variable {origin : State}

theorem Swept.start (paged : Paged users ghost free state) :
    Swept users ghost free env state state where
  paged := paged
  contents := rfl
  only := ⟨state.memory, (state.envs env).pageLastWSIndex, by rw [Function.update_eq_self]⟩
  others _ _ _ := rfl

theorem Swept.envs (swept : Swept users ghost free env origin state) :
    ∃ hand, state.envs env = { origin.envs env with pageLastWSIndex := hand } := by
  rcases swept.only with ⟨_, hand, rfl⟩
  exact ⟨hand, Function.update_self _ _ _⟩

theorem Swept.hand (swept : Swept users ghost free env origin state) (user : env ∈ users) :
    (state.envs env).pageLastWSIndex < (state.envs env).pageWSMaxSize :=
  swept.paged.consistent.lastIndex env (swept.paged.active user)

theorem Swept.advance (swept : Swept users ghost free env origin state) (user : env ∈ users)
    (returned : advanceLastWSIndex env state = .ok ((), final)) :
    Swept users ghost free env origin final := by
  rcases advanceLastWSIndex_ok (swept.hand user) returned with ⟨hand, bound, rfl⟩
  have consistent : Consistent ghost (state.view.setWorkingSet env
      { state.view.workingSet env with lastIndex := hand }) :=
    swept.paged.consistent.setLastIndex fun _ => bound
  exact
    { paged := swept.paged.setEnv consistent rfl rfl rfl rfl rfl
      contents := swept.contents
      only := by
        rcases swept.only with ⟨memory, before, rfl⟩
        refine ⟨memory, hand, ?_⟩
        simp [State.setEnv]
      others := swept.others }

/-- A page of a full working set is present. -/
theorem Swept.slot (swept : Swept users ghost free env origin state) (user : env ∈ users)
    (full : Full (origin.envs env)) {index address : Nat}
    (returned : envPageWsGetVirtualAddress state env index = .ok address) :
    index < (state.envs env).pageWSMaxSize ∧
      state.view.ResidentAt env index (ppn address) ∧ address % 4096 = 0 := by
  rw [envPageWsGetVirtualAddress] at returned
  split at returned
  · cases returned
  · next inside =>
      replace inside : index < (state.envs env).pageWSMaxSize := by omega
      have filled : ((state.envs env).ptrPageWorkingSet index).empty = false := by
        rcases swept.envs with ⟨hand, same⟩
        rw [same] at inside ⊢
        exact full index inside
      rcases swept.paged.consistent.residentPage env (swept.paged.active user) index inside
        filled with ⟨page, recorded⟩
      replace recorded : ((state.envs env).ptrPageWorkingSet index).virtualAddress =
        page * 4096 := recorded
      cases returned
      have down : roundDown ((state.envs env).ptrPageWorkingSet index).virtualAddress =
          page * 4096 := by
        rw [roundDown, recorded]
        omega
      rw [down, ppn, Nat.mul_div_cancel _ (by decide)]
      exact ⟨inside, ⟨inside, filled, recorded⟩, Nat.mul_mod_left _ _⟩

/-- A page with an entry has a page table. -/
theorem table_of_entry {owner : Directory}
    (nonzero : state.view.entry (.user owner (ppn address)) ≠ 0) :
    address < userTop ∧ hasPerm (directoryEntry state owner address) permPresent = true := by
  have inside : ppn address < ppn userTop ∧
      hasPerm (state.pageDirectory owner (ppn address / 1024)) permPresent = true := by
    by_contra outside
    exact nonzero (if_neg outside)
  refine ⟨?_, inside.2⟩
  have below := inside.1
  simp only [ppn, userTop] at below ⊢
  omega

theorem alike_changePerm {entry set clear : Word} (setLow : Low set) (clearLow : Low clear)
    (kept : set.getLsbD 1 = false ∧ clear.getLsbD 1 = false)
    (writeable : hasPerm entry permWriteable = true) :
    Alike entry (changePerm entry set clear) := by
  have bit : hasPerm (changePerm entry set clear) permWriteable = true := by
    rw [hasPerm_writeable] at writeable ⊢
    rw [getLsbD_changePerm _ _ _ (by decide), writeable, kept.2]
    rfl
  have nonzero : ∀ {word : Word}, hasPerm word permWriteable = true → word ≠ 0 := by
    rintro word set rfl
    exact absurd set (by decide)
  exact
    { zero := iff_of_false (nonzero bit) (nonzero writeable)
      frame := frameOf_changePerm _ setLow clearLow
      writeable := bit.trans writeable.symm }

/-- A resident page can be written. -/
theorem Paged.resident_writeable (paged : Paged users ghost free state) (user : env ∈ users)
    {index : Nat} (resident : state.view.ResidentAt env index page) :
    Slot.user env page ∉ ghost.uncounted ∧
      hasPerm (state.view.entry (.user env page)) permPresent = true ∧
      hasPerm (state.view.entry (.user env page)) permWriteable = true ∧
      ghost.holders (frameOf (state.view.entry (.user env page))) = {.user env page} := by
  rcases paged.consistent.resident env (paged.active user) index page resident with
    ⟨visible, present, single⟩
  exact ⟨visible, present, paged.writeable env page visible (ne_zero_of_present present), single⟩

theorem Swept.clear (swept : Swept users ghost free env origin state) (user : env ∈ users)
    {index : Nat} (resident : state.view.ResidentAt env index (ppn address))
    (returned : ptSetPagePermissions env address 0 permUsed state = .ok ((), final)) :
    Swept users ghost free env origin final := by
  rcases swept.paged.resident_writeable user resident with ⟨visible, present, writeable, -⟩
  rcases table_of_entry (ne_zero_of_present present) with ⟨below, table⟩
  rcases ptSetPagePermissions_ok swept.paged.consistent.toHeapLayout below returned with ⟨-, rfl⟩
  have alike := @alike_changePerm (state.view.entry (.user env (ppn address))) 0 permUsed
    (by decide) (by decide) (by decide) writeable
  have still : hasPerm (changePerm (state.view.entry (.user env (ppn address))) 0 permUsed)
      permPresent = true := by
    rw [hasPerm_present] at present ⊢
    rw [getLsbD_changePerm _ _ _ (by decide), present]
    decide
  have consistent := swept.paged.consistent.reflag present still alike.frame
  exact
    { paged := swept.paged.storeEntry below table alike consistent rfl rfl
      contents := (swept.paged.storeEntry_contents below table alike).trans swept.contents
      only := by
        rcases swept.only with ⟨memory, hand, rfl⟩
        exact ⟨_, hand, rfl⟩
      others := by
        intro owner page missing
        have before := swept.others owner page missing
        rw [← before]
        have view := swept.paged.storeEntry_view below table
          (changePerm (state.view.entry (.user env (ppn address))) 0 permUsed)
        rw [storeEntry] at view
        rw [view]
        refine Function.update_of_ne ?_ _ _
        intro same
        cases same
        rw [before, missing rfl] at present
        cases present }

/-- A victim has been taken out of the working set. -/
structure Taken (users : Finset Nat) (ghost : Ghost) (free : List Nat) (env : Nat)
    (origin : State) (victim : Victim) (final : State) : Prop where
  found : ∃ state, Swept users ghost free env origin state ∧
    victim.index < (state.envs env).pageWSMaxSize ∧
    state.view.ResidentAt env victim.index (ppn victim.address) ∧
    ∃ hand < (state.envs env).pageWSMaxSize, final = state.setEnv env
      { (state.envs env).setElement victim.index .cleared with pageLastWSIndex := hand }

theorem Swept.take (swept : Swept users ghost free env origin state) {victim : Victim}
    (resident : state.view.ResidentAt env (state.envs env).pageLastWSIndex (ppn address))
    (returned : takeVictim env address state = .ok (victim, final)) :
    Taken users ghost free env origin victim final := by
  rcases takeVictim_ok returned with ⟨rfl, inside, hand, bound, rfl⟩
  exact ⟨state, swept, inside, resident, hand, bound, rfl⟩

theorem secondTrial_taken {fp fuel : Nat} {found : Option Victim}
    (swept : Swept users ghost free env origin state) (user : env ∈ users)
    (full : Full (origin.envs env))
    (returned : secondTrial env fp fuel state = .ok (found, final)) :
    (found = none ∧ Swept users ghost free env origin final) ∨
      ∃ victim, found = some victim ∧ Taken users ghost free env origin victim final := by
  induction fuel generalizing state with
  | zero => cases returned
  | succ fuel induction =>
      rcases bind_observe_ok.mp (bind_get_ok.mp returned) with ⟨address, slot, looking⟩
      rcases bind_observe_ok.mp looking with ⟨permissions, -, chosen⟩
      rcases swept.slot user full slot with ⟨-, resident, -⟩
      rcases ite_ok.mp chosen with ⟨-, clearing⟩ | ⟨-, taking⟩
      · rcases bind_ok.mp clearing with ⟨_, cleared, changed, advancing⟩
        have first := swept.clear user resident changed
        rcases bind_ok.mp advancing with ⟨_, moved, advanced, continued⟩
        have second := first.advance user advanced
        rcases ite_ok.mp (bind_get_ok.mp continued) with ⟨-, ended⟩ | ⟨-, rest⟩
        · rcases pure_ok.mp ended with ⟨rfl, rfl⟩
          exact .inl ⟨rfl, second⟩
        · exact induction second rest
      · rcases bind_ok.mp taking with ⟨victim, taken, took, ended⟩
        rcases pure_ok.mp ended with ⟨rfl, rfl⟩
        exact .inr ⟨victim, rfl, swept.take resident took⟩

theorem findVictim_taken {fp fuel : Nat} {victim : Victim}
    (swept : Swept users ghost free env origin state) (user : env ∈ users)
    (full : Full (origin.envs env))
    (returned : findVictim env fp fuel state = .ok (victim, final)) :
    Taken users ghost free env origin victim final := by
  induction fuel generalizing state with
  | zero => cases returned
  | succ fuel induction =>
      rcases bind_observe_ok.mp (bind_get_ok.mp returned) with ⟨address, slot, looking⟩
      rcases bind_observe_ok.mp looking with ⟨permissions, -, chosen⟩
      rcases swept.slot user full slot with ⟨-, resident, -⟩
      rcases ite_ok.mp chosen with ⟨-, taking⟩ | ⟨-, advancing⟩
      · exact swept.take resident taking
      · rcases bind_ok.mp advancing with ⟨_, moved, advanced, continued⟩
        have first := swept.advance user advanced
        rcases ite_ok.mp (bind_get_ok.mp continued) with ⟨-, trying⟩ | ⟨-, rest⟩
        · rcases bind_ok.mp trying with ⟨found, tried, trial, ended⟩
          rcases secondTrial_taken first user full trial with
            ⟨rfl, second⟩ | ⟨chosen, rfl, taken⟩
          · exact induction second ended
          · rcases pure_ok.mp ended with ⟨rfl, rfl⟩
            exact taken
        · exact induction first rest

/-- A slot of the working set is empty, and the page that was in it is still present. -/
structure Emptied (users : Finset Nat) (ghost : Ghost) (free : List Nat) (env : Nat)
    (origin : State) (victim : Victim) (final : State) : Prop where
  paged : Paged users ghost free final
  contents : contents final = PagedMemory.contents origin
  others : ∀ owner page, (owner = .env env →
      hasPerm (origin.view.entry (.user owner page)) permPresent = false) →
    final.view.entry (.user owner page) = origin.view.entry (.user owner page)
  list : final.modifiedFrameList = origin.modifiedFrameList
  settings : SameSettings origin final
  directories : final.pageDirectory = origin.pageDirectory
  inside : victim.index < (origin.envs env).pageWSMaxSize
  record : ∃ hand < (origin.envs env).pageWSMaxSize, final.envs = Function.update origin.envs env
    { (origin.envs env).setElement victim.index .cleared with pageLastWSIndex := hand }
  present : hasPerm (final.view.entry (.user env (ppn victim.address))) permPresent = true
  single : ghost.holders (frameOf (final.view.entry (.user env (ppn victim.address)))) =
    {.user env (ppn victim.address)}
  gone : ¬final.view.Resident env (ppn victim.address)
  loose : Slot.user env (ppn victim.address) ∈ ghost.loose

/-- Other pages may be outside the working set. -/
theorem reloose {view : View} (consistent : Consistent ghost view) {loose : Finset Slot}
    (tracked : ∀ env ∈ ghost.active, ∀ page, Slot.user env page ∈ ghost.loose →
      Slot.user env page ∉ loose → hasPerm (view.entry (.user env page)) permPresent = true →
      view.Resident env page) : Consistent { ghost with loose } view where
  toHeapLayout := { consistent.toHeapLayout with }
  toAccounting := { consistent.toAccounting with }
  toPlacement := { consistent.toPlacement with }
  window := consistent.window
  windowPages := consistent.windowPages
  lastIndex := consistent.lastIndex
  resident := consistent.resident
  residentPage := consistent.residentPage
  residentOnce := consistent.residentOnce
  cleared := consistent.cleared
  tracked := by
    intro env active page present visible tight
    by_cases before : Slot.user env page ∈ ghost.loose
    · exact tracked env active page before tight present
    · exact consistent.tracked env active page present visible before

theorem clearSlot (consistent : Consistent ghost state.view) {index hand : Nat}
    (resident : state.view.ResidentAt env index page)
    (loose : Slot.user env page ∈ ghost.loose) (bound : hand < (state.envs env).pageWSMaxSize) :
    Consistent ghost (state.view.setWorkingSet env
      { (state.envs env).setElement index .cleared with pageLastWSIndex := hand }.workingSet) := by
  have once : ∀ other, state.view.ResidentAt env index other → other = page := by
    intro other again
    have left := again.2.2
    rw [resident.2.2] at left
    omega
  have cleared := consistent.clearElement (fun _ other again => by
    rw [once other again]
    exact loose)
  have inside : hand < ((state.view.setWorkingSet env
      ((state.view.workingSet env).set index .cleared)).workingSet env).maxSize := by
    simpa [View.setWorkingSet, WorkingSet.set, State.view, Env.workingSet] using bound
  have moved := cleared.setLastIndex fun _ => inside
  convert moved using 1
  simp [View.setWorkingSet, WorkingSet.set, Env.setElement, Env.workingSet, State.view]

theorem Taken.emptied {victim : Victim} {loose : Finset Slot}
    (taken : Taken users ghost free env origin victim final) (user : env ∈ users)
    (wider : ∀ slot ∈ ghost.loose, slot ∈ loose)
    (mine : Slot.user env (ppn victim.address) ∈ loose) :
    Emptied users { ghost with loose } free env origin victim final := by
  rcases taken.found with ⟨state, swept, inside, resident, hand, bound, rfl⟩
  have active := swept.paged.active user
  rcases swept.paged.resident_writeable user resident with ⟨visible, present, writeable, single⟩
  have loosened : Consistent { ghost with loose } state.view :=
    reloose swept.paged.consistent fun _ _ _ before narrower =>
      absurd (wider _ before) narrower
  have paged : Paged users { ghost with loose } free state := { swept.paged with
    consistent := loosened
    readOnly := swept.paged.readOnly
    writeable := swept.paged.writeable }
  rcases swept.only with ⟨memory, before, only⟩
  have envs : state.envs = Function.update origin.envs env
      { origin.envs env with pageLastWSIndex := before } := by rw [only]
  have own : state.envs env = { origin.envs env with pageLastWSIndex := before } := by
    rw [envs, Function.update_self]
  exact
    { paged := paged.setEnv (clearSlot loosened resident mine bound) rfl rfl rfl rfl rfl
      contents := swept.contents
      others := swept.others
      list := by rw [only]; rfl
      settings := by rw [only]; exact ⟨rfl, rfl, rfl⟩
      directories := by rw [only]; rfl
      inside := by rwa [own] at inside
      record := by
        refine ⟨hand, by rwa [own] at bound, ?_⟩
        change Function.update state.envs env _ = _
        rw [own, envs, Function.update_idem]
        rfl
      present := present
      single := single
      gone := by
        rintro ⟨index, again⟩
        rw [State.view_setEnv] at again
        by_cases same : index = victim.index
        · have filled := again.2.1
          simp [View.setWorkingSet, Env.workingSet, Env.setElement, same,
            WorkingSetElement.cleared] at filled
        · refine same (swept.paged.consistent.residentOnce env active index victim.index _ ?_
            resident)
          simpa [View.ResidentAt, View.setWorkingSet, Env.workingSet, Env.setElement, same,
            State.view] using again
      loose := mine }

/-! ## Buffering -/

/-- The page that was taken out is buffered. -/
structure Evicted (users : Finset Nat) (ghost : Ghost) (free : List Nat) (env : Nat)
    (origin : State) (victim : Victim) (final : State) : Prop where
  paged : Paged users ghost free final
  contents : contents final = PagedMemory.contents origin
  others : ∀ owner page, (owner = .env env →
      hasPerm (origin.view.entry (.user owner page)) permPresent = false) →
    final.view.entry (.user owner page) = origin.view.entry (.user owner page)
  settings : SameSettings origin final
  directories : final.pageDirectory = origin.pageDirectory
  inside : victim.index < (origin.envs env).pageWSMaxSize
  record : ∃ hand < (origin.envs env).pageWSMaxSize, final.envs = Function.update origin.envs env
    { (origin.envs env).setElement victim.index .cleared with pageLastWSIndex := hand }
  out : hasPerm (final.view.entry (.user env (ppn victim.address))) permPresent = false

/-- The entry of a page that is buffered. -/
def bufferedWord (entry : Word) : Word := changePerm entry permBuffered permPresent

theorem bufferedWord_modified (entry : Word) :
    hasPerm (bufferedWord entry) permModified = hasPerm entry permModified := by
  rw [hasPerm_modified, hasPerm_modified, bufferedWord, getLsbD_changePerm _ _ _ (by decide)]
  simp [permBuffered, permPresent]

theorem bufferedWord_entry {entry : Word} {inModified : Prop}
    (modified : hasPerm entry permModified = true ↔ inModified) :
    View.BufferedEntry (bufferedWord entry) inModified where
  buffered := by
    rw [hasPerm_buffered, bufferedWord, getLsbD_changePerm _ _ _ (by decide)]
    simp [permBuffered, permPresent]
  absent := by
    rw [hasPerm_present, bufferedWord, getLsbD_changePerm _ _ _ (by decide)]
    simp [permPresent]
  modified := by
    rw [bufferedWord_modified]
    exact modified

theorem hasPerm_masked {entry perm : Word} (low : perm &&& 0xFFF#32 = perm) :
    hasPerm (entry &&& 0xFFF#32) perm = hasPerm entry perm := by
  rw [hasPerm, hasPerm, BitVec.and_assoc, BitVec.and_comm (0xFFF#32) perm, low]

/-- The state in which `bufferVictim` decides on the list. -/
def markBuffered (state : State) (env address frame : Nat) (entry : Word) : State :=
  storeEntry (state.setFrameInfo frame { state.framesInfo frame with isBuffered := true }) env
    address (bufferedWord entry)

theorem markBuffered_view (consistent : Consistent ghost state.view) {victim : Nat}
    (user : victim < userTop)
    (table : hasPerm (directoryEntry state env victim) permPresent = true) (entry : Word) :
    (markBuffered state env victim frame entry).view =
      (state.view.setBuffered frame true).setEntry (.user env (ppn victim))
        (bufferedWord entry) := by
  have placement : Placement ghost (state.setFrameInfo frame
      { state.framesInfo frame with isBuffered := true }).view :=
    consistent.toPlacement.congr rfl fun _ _ => rfl
  exact State.view_storeEntry placement user table _

theorem bufferVictim_ok (consistent : Consistent ghost state.view) {victim : Nat}
    (user : victim < userTop)
    (returned : bufferVictim env victim frame state = .ok ((), final)) :
    let entry := state.view.entry (.user env (ppn victim))
    let marked := markBuffered state env victim frame entry
    hasPerm (directoryEntry state env victim) permPresent = true ∧
      if hasPerm entry permModified then
        let listed := marked.withModified (listInsertTail marked.modified frame)
        state.modifiedBufferLength = listed.modifiedFrameList.size ∨ final = listed
      else final = marked.withFree (listInsertTail marked.free frame) := by
  intro entry marked
  have layout := consistent.toHeapLayout
  have infoLayout : HeapLayout (state.setFrameInfo frame
      { state.framesInfo frame with isBuffered := true }).view :=
    ⟨layout.kernelTables, layout.startLower, layout.startUpper, layout.startAligned⟩
  replace returned := bind_modify_ok.mp (bind_get_ok.mp returned)
  rcases bind_ok.mp returned with ⟨_, changed, changing, returned⟩
  rcases ptSetPagePermissions_ok infoLayout user changing with ⟨table, rfl⟩
  have view := @markBuffered_view ghost state env frame consistent victim user table entry
  rcases bind_observe_ok.mp returned with ⟨permissions, reading, returned⟩
  have markedLayout : HeapLayout marked.view := by
    rw [view]
    exact ⟨layout.kernelTables, layout.startLower, layout.startUpper, layout.startAligned⟩
  have seen := ptGetPagePermissions_ok markedLayout user reading
  have word : marked.view.entry (.user env (ppn victim)) = bufferedWord entry := by
    rw [view]
    exact Function.update_self _ _ _
  have modified : hasPerm permissions permModified = hasPerm entry permModified := by
    rw [seen, word, hasPerm_masked (by decide), bufferedWord_modified]
  refine ⟨table, ?_⟩
  rw [modified] at returned
  rcases ite_ok.mp returned with ⟨isModified, adding⟩ | ⟨plain, adding⟩
  · rw [if_pos isModified]
    replace adding := bind_get_ok.mp (bind_modify_ok.mp adding)
    rcases ite_ok.mp adding with ⟨full, -⟩ | ⟨-, ended⟩
    · exact .inl full
    · exact .inr (pure_ok.mp ended).2.symm
  · rw [if_neg plain]
    exact (modify_ok.mp adding).symm

/-- Nothing changed but the records and the lists of frames. -/
def ListsOnly (state final : State) : Prop :=
  ∃ framesInfo frameLinks freeFrameList modifiedFrameList,
    final = { state with framesInfo, frameLinks, freeFrameList, modifiedFrameList }

theorem ListsOnly.keepsFile (only : ListsOnly state final) : KeepsFile state final := by
  rcases only with ⟨_, _, _, _, rfl⟩
  exact ⟨⟨fun _ _ => rfl, rfl, rfl, rfl, rfl⟩,
    fun layout => layout.congr rfl rfl (fun _ => id) fun _ => id⟩

theorem ListsOnly.contents (only : ListsOnly state final) :
    PagedMemory.contents final = PagedMemory.contents state := by
  rcases only with ⟨_, _, _, _, rfl⟩
  rfl

theorem ListsOnly.entry (only : ListsOnly state final) : final.view.entry = state.view.entry := by
  rcases only with ⟨_, _, _, _, rfl⟩
  rfl

theorem ListsOnly.rest (only : ListsOnly state final) : final.envs = state.envs ∧
    SameSettings state final ∧ final.pageDirectory = state.pageDirectory := by
  rcases only with ⟨_, _, _, _, rfl⟩
  exact ⟨rfl, ⟨rfl, rfl, rfl⟩, rfl⟩

/-- The victim is buffered, unless that fills the list of modified frames. -/
theorem Emptied.evict {victim : Victim} (emptied : Emptied users ghost free env origin victim state)
    (calm : origin.modifiedFrameList.size + 1 ≠ origin.modifiedBufferLength)
    (returned : bufferVictim env victim.address
      (frameOf (state.view.entry (.user env (ppn victim.address)))) state = .ok ((), final)) :
    ∃ frame toModified, Evicted users (ghost.evict frame toModified) free env origin victim
      final := by
  have paged := emptied.paged
  have consistent := paged.consistent
  have present := emptied.present
  have nonzero := ne_zero_of_present present
  have member : Slot.user env (ppn victim.address) ∈
      ghost.holders (frameOf (state.view.entry (.user env (ppn victim.address)))) := by
    rw [emptied.single]
    exact Finset.mem_singleton_self _
  rcases consistent.mem_holders.mp member with ⟨visible, -, -⟩
  have writeable := paged.writeable _ _ visible nonzero
  rcases table_of_entry nonzero with ⟨user, table⟩
  rcases bufferVictim_ok consistent user returned with ⟨-, listed⟩
  have alike : Alike (state.view.entry (.user env (ppn victim.address)))
      (bufferedWord (state.view.entry (.user env (ppn victim.address)))) :=
    alike_changePerm (by decide) (by decide) (by decide) writeable
  have view := @markBuffered_view ghost state env
    (frameOf (state.view.entry (.user env (ppn victim.address)))) consistent victim.address user
    table (state.view.entry (.user env (ppn victim.address)))
  have evicted := consistent.evict ⟨_, _, rfl⟩ emptied.single
    (consistent.not_listed_of_present member present) alike.frame (mt alike.zero.mp nonzero)
    (bufferedWord_entry (Iff.rfl : hasPerm (state.view.entry (.user env (ppn victim.address)))
      permModified = true ↔ _)) fun someEnv page same _ => by
        cases same
        exact emptied.gone
  have listing : ListsOnly (storeEntry state env victim.address
        (bufferedWord (state.view.entry (.user env (ppn victim.address))))) final ∧
      final.view = state.view.evict
        (frameOf (state.view.entry (.user env (ppn victim.address))))
        (.user env (ppn victim.address))
        (bufferedWord (state.view.entry (.user env (ppn victim.address))))
        (hasPerm (state.view.entry (.user env (ppn victim.address))) permModified) := by
    cases modified : hasPerm (state.view.entry (.user env (ppn victim.address))) permModified with
    | true =>
        rw [modified] at evicted
        rw [modified, if_pos rfl] at listed
        have size := evicted.lists.second.size
        have before := consistent.lists.second.size
        rcases listed with full | rfl
        · have filled : state.modifiedBufferLength = _ := full.trans size
          rw [emptied.settings.modifiedBufferLength] at filled
          have list : state.view.modified = origin.modifiedFrameList := emptied.list
          rw [list] at before
          rw [filled, before] at calm
          simp [Ghost.evict] at calm
        · refine ⟨⟨_, _, _, _, rfl⟩, ?_⟩
          rw [View.evict, if_pos rfl, ← view]
          rfl
    | false =>
        rw [modified, if_neg (by decide)] at listed
        subst listed
        refine ⟨⟨_, _, _, _, rfl⟩, ?_⟩
        rw [View.evict, if_neg (by decide), ← view]
        rfl
  rcases listing with ⟨only, final_view⟩
  refine ⟨frameOf (state.view.entry (.user env (ppn victim.address))),
    hasPerm (state.view.entry (.user env (ppn victim.address))) permModified, ?_⟩
  have entries := paged.storeEntry_alike user table alike
  have stored : SameSettings state (storeEntry state env victim.address
      (bufferedWord (state.view.entry (.user env (ppn victim.address))))) := ⟨rfl, rfl, rfl⟩
  have entry : final.view.entry (.user env (ppn victim.address)) =
      bufferedWord (state.view.entry (.user env (ppn victim.address))) := by
    rw [only.entry, paged.storeEntry_view user table]
    exact Function.update_self _ _ _
  exact
    { paged := by
        refine paged.next (final_view ▸ evicted)
          ((paged.storeEntry_file user table _).trans only.keepsFile) ?_ (by simp) (by simp) ?_
        · intro owner page
          rw [only.entry]
          exact entries owner page
        · intro someEnv
          rw [only.rest.1]
          rfl
      contents := by
        rw [only.contents, paged.storeEntry_contents user table alike]
        exact emptied.contents
      others := by
        intro owner page missing
        have before := emptied.others owner page missing
        rw [only.entry, paged.storeEntry_view user table, ← before]
        refine Function.update_of_ne ?_ _ _
        intro same
        cases same
        rw [before, missing rfl] at present
        cases present
      settings := emptied.settings.trans (stored.trans only.rest.2.1)
      directories := only.rest.2.2.trans emptied.directories
      inside := emptied.inside
      record := by
        rw [only.rest.1]
        exact emptied.record
      out := by
        rw [entry]
        exact (bufferedWord_entry Iff.rfl).absent }

/-! ## Bringing a page back -/

/-- The page of the fault is present, and its frame is its own. -/
structure Brought (users : Finset Nat) (ghost : Ghost) (free : List Nat) (env address : Nat)
    (state final : State) : Prop where
  paged : Paged users ghost free final
  envs : ∀ other, (final.envs other).workingSet = (state.envs other).workingSet
  settings : SameSettings state final
  others : ∀ owner page, Slot.user owner page ≠ .user env (ppn address) →
    final.view.entry (.user owner page) = state.view.entry (.user owner page)
  visible : Slot.user env (ppn address) ∉ ghost.uncounted
  present : hasPerm (final.view.entry (.user env (ppn address))) permPresent = true
  single : ghost.holders (frameOf (final.view.entry (.user env (ppn address)))) =
    {.user env (ppn address)}

def restoredWord (entry : Word) : Word := changePerm entry permPresent permBuffered

theorem restoredWord_present (entry : Word) :
    hasPerm (restoredWord entry) permPresent = true := by
  rw [hasPerm_present, restoredWord, getLsbD_changePerm _ _ _ (by decide)]
  simp [permBuffered, permPresent]

/-- An absent page with an entry is buffered. -/
theorem Paged.buffered (paged : Paged users ghost free state)
    (nonzero : state.view.entry (.user env page) ≠ 0)
    (absent : hasPerm (state.view.entry (.user env page)) permPresent = false) :
    Slot.user env page ∉ ghost.uncounted ∧
      Slot.user env page ∈ ghost.holders (frameOf (state.view.entry (.user env page))) ∧
      ghost.Listed (frameOf (state.view.entry (.user env page))) := by
  have visible : Slot.user env page ∉ ghost.uncounted := by
    intro hidden
    rw [paged.consistent.window _ hidden] at absent
    cases absent
  have member := paged.consistent.mem_holders.mpr ⟨visible, nonzero, rfl⟩
  refine ⟨visible, member, ?_⟩
  by_contra unlisted
  rw [paged.consistent.present _ unlisted _ member] at absent
  cases absent

theorem Paged.restore (paged : Paged users ghost free state)
    (nonzero : state.view.entry (.user env (ppn address)) ≠ 0)
    (absent : hasPerm (state.view.entry (.user env (ppn address))) permPresent = false)
    (loose : Slot.user env (ppn address) ∈ ghost.loose)
    (returned : restorePage env address (state.view.entry (.user env (ppn address)) &&& 0xFFF#32)
      (some (frameOf (state.view.entry (.user env (ppn address))))) state = .ok ((), final)) :
    ∃ after, after.uncounted = ghost.uncounted ∧ after.active = ghost.active ∧
      after.loose = ghost.loose ∧ Brought users after free env address state final ∧
      contents final = contents state := by
  have consistent := paged.consistent
  rcases paged.buffered nonzero absent with ⟨visible, member, listed⟩
  have writeable := paged.writeable _ _ visible nonzero
  rcases consistent.buffered _ listed _ member with ⟨-, single, -, entry⟩
  rcases table_of_entry nonzero with ⟨user, table⟩
  rcases bind_ok.mp returned with ⟨_, marked, marking, unlisting⟩
  rcases ptSetPagePermissions_ok consistent.toHeapLayout user marking with ⟨-, rfl⟩
  replace unlisting := bind_modify_ok.mp unlisting
  have alike : Alike (state.view.entry (.user env (ppn address)))
      (restoredWord (state.view.entry (.user env (ppn address)))) :=
    alike_changePerm (by decide) (by decide) (by decide) writeable
  have view := paged.storeEntry_view user table
    (restoredWord (state.view.entry (.user env (ppn address))))
  have restored := consistent.restore member listed (entry.modified)
    alike.frame (restoredWord_present _) loose
  have listing : ListsOnly (PagedMemory.storeEntry state env address
        (restoredWord (state.view.entry (.user env (ppn address))))) final ∧
      final.view = state.view.restore
        (frameOf (state.view.entry (.user env (ppn address)))) (.user env (ppn address))
        (restoredWord (state.view.entry (.user env (ppn address))))
        (hasPerm (state.view.entry (.user env (ppn address))) permModified) := by
    rw [hasPerm_masked (by decide)] at unlisting
    cases modified : hasPerm (state.view.entry (.user env (ppn address))) permModified with
    | true =>
        rw [modified, if_pos rfl] at unlisting
        rcases modify_ok.mp unlisting with rfl
        refine ⟨⟨_, _, _, _, rfl⟩, ?_⟩
        rw [View.restore, if_pos rfl, ← view]
        rfl
    | false =>
        rw [modified, if_neg (by decide)] at unlisting
        rcases modify_ok.mp unlisting with rfl
        refine ⟨⟨_, _, _, _, rfl⟩, ?_⟩
        rw [View.restore, if_neg (by decide), ← view]
        rfl
  rcases listing with ⟨only, final_view⟩
  have settings : SameSettings state (PagedMemory.storeEntry state env address
      (restoredWord (state.view.entry (.user env (ppn address))))) := ⟨rfl, rfl, rfl⟩
  have own : final.view.entry (.user env (ppn address)) =
      restoredWord (state.view.entry (.user env (ppn address))) := by
    rw [only.entry, view]
    exact Function.update_self _ _ _
  refine ⟨ghost.restore (frameOf (state.view.entry (.user env (ppn address))))
    (hasPerm (state.view.entry (.user env (ppn address))) permModified),
    by simp, by simp, by simp, ?_,
    only.contents.trans (paged.storeEntry_contents user table alike)⟩
  exact
    { paged := by
        refine paged.next (final_view ▸ restored)
          ((paged.storeEntry_file user table _).trans only.keepsFile) ?_ (by simp) (by simp) ?_
        · intro owner page
          rw [only.entry]
          exact paged.storeEntry_alike user table alike owner page
        · intro someEnv
          rw [only.rest.1]
          rfl
      envs := by
        intro other
        rw [only.rest.1]
        rfl
      settings := settings.trans only.rest.2.1
      others := by
        intro owner page different
        rw [only.entry, view]
        exact Function.update_of_ne different _ _
      visible := by simpa using visible
      present := by
        rw [own]
        exact restoredWord_present _
      single := by
        rw [own, alike.frame]
        simpa using single }

end Contents

end FosKernel.PagedMemory
