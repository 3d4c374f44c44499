import FosKernel.Properties.ServedFaults

/-! # Paging is transparent

The environments read what they wrote, whatever the fault handler does in between. For as long
as the list of modified frames does not fill up, every page keeps its words while it is in
memory, on one of the lists of frames, or on the disk.
-/

namespace FosKernel.PagedMemory

open Kernel PageContents

/-! ## Programs -/

/-- The word of an address in its page. -/
def wordIndex (address : Nat) : Fin 1024 := ⟨address % 4096 / 4, by omega⟩

/-- A program reads a word. The MMU marks the entry as used. -/
def readWord (address : Nat) : Kernel Word := do
  let env := (← get).curenv
  let (table, entry) ← observe fun state => walk state env address
  modify fun state => state.setMemory table (ptx address) (entry ||| permUsed)
  return (← get).memory (frameOf entry) (wordIndex address)

/-- A program writes a word to a page that it may write. -/
def writeWord (address : Nat) (word : Word) : Kernel Unit := do
  let env := (← get).curenv
  let (_, entry) ← observe fun state => walk state env address
  if ¬hasPerm entry permWriteable then throw .badPointer
  writeUserPage env address fun page => Function.update page (wordIndex address) word

section Access

variable {users : Finset Nat} {ghost : Ghost} {free : List Nat} {state final : State}
variable {env address page : Nat} {word : Word}

theorem walk_ok (user : address < userTop) {table : Nat} {entry : Word}
    (walked : walk state env address = .ok (table, entry)) :
    hasPerm (directoryEntry state env address) permPresent = true ∧
      table = frameOf (directoryEntry state env address) ∧
      entry = state.view.entry (.user env (ppn address)) ∧ hasPerm entry permPresent = true := by
  rw [walk] at walked
  split at walked
  · next present =>
      cases walked
      exact ⟨present.1, rfl, (entry_user user present.1).symm, present.2⟩
  · cases walked

/-- The frame of a page that is present is its own. -/
theorem Sound.single (sound : Sound users ghost free state) (user : env ∈ users)
    (present : hasPerm (state.view.entry (.user env page)) permPresent = true)
    (writeable : hasPerm (state.view.entry (.user env page)) permWriteable = true) :
    ghost.holders (frameOf (state.view.entry (.user env page))) = {.user env page} := by
  have visible : Slot.user env page ∉ ghost.uncounted := by
    intro hidden
    rw [sound.paged.readOnly _ _ hidden] at writeable
    cases writeable
  have tight : Slot.user env page ∉ ghost.loose := by
    rw [sound.settled]
    exact Finset.notMem_empty _
  rcases sound.paged.consistent.tracked env (sound.paged.active user) page present visible tight
    with ⟨index, resident⟩
  exact (sound.paged.resident_writeable user resident).2.2.2

theorem alike_or {entry mark : Word} (present : hasPerm entry permPresent = true) (low : Low mark)
    (kept : mark.getLsbD 1 = false) : Alike entry (entry ||| mark) where
  zero := by
    have still : hasPerm (entry ||| mark) permPresent = true := by
      rw [hasPerm_present] at present ⊢
      rw [BitVec.getLsbD_or, present]
      rfl
    exact iff_of_false (ne_zero_of_present still) (ne_zero_of_present present)
  frame := by
    refine frameOf_congr fun bit high => ?_
    rw [BitVec.getLsbD_or, low.getLsbD high]
    simp
  writeable := by
    rw [Bool.eq_iff_iff, hasPerm_writeable, hasPerm_writeable, BitVec.getLsbD_or, kept]
    simp

theorem present_or {entry : Word} (mark : Word) (present : hasPerm entry permPresent = true) :
    hasPerm (entry ||| mark) permPresent = true := by
  rw [hasPerm_present] at present ⊢
  rw [BitVec.getLsbD_or, present]
  rfl

theorem contents_of_writeable
    (present : hasPerm (state.view.entry (.user env page)) permPresent = true)
    (writeable : hasPerm (state.view.entry (.user env page)) permWriteable = true) :
    contents state (env, page) = some fun index : Fin 1024 =>
      state.memory (frameOf (state.view.entry (.user env page))) index := by
  simp only [contents]
  rw [if_neg (ne_zero_of_present present), if_pos writeable]

/-- A mark is set in the entry of a page that is present. -/
theorem Sound.mark {mark : Word} (sound : Sound users ghost free state) (user : address < userTop)
    (present : hasPerm (state.view.entry (.user env (ppn address))) permPresent = true)
    (low : Low mark) (kept : mark.getLsbD 1 = false) :
    Sound users ghost free
      (storeEntry state env address (state.view.entry (.user env (ppn address)) ||| mark)) := by
  have table := (table_of_entry (ne_zero_of_present present)).2
  have alike := alike_or present low kept
  have still := present_or mark present
  have consistent := sound.paged.consistent.reflag present still alike.frame
  refine ⟨sound.paged.storeEntry user table alike consistent rfl rfl, sound.settled, ?_⟩
  intro owner member room page nonzero
  have view := sound.paged.storeEntry_view user table
    (state.view.entry (.user env (ppn address)) ||| mark)
  rw [view] at nonzero ⊢
  by_cases own : Slot.user (.env owner) page = .user env (ppn address)
  · rw [own, show (state.view.setEntry (.user env (ppn address))
      (state.view.entry (.user env (ppn address)) ||| mark)).entry (.user env (ppn address)) =
        state.view.entry (.user env (ppn address)) ||| mark from Function.update_self _ _ _]
    exact still
  · rw [show (state.view.setEntry (.user env (ppn address))
      (state.view.entry (.user env (ppn address)) ||| mark)).entry (.user (.env owner) page) =
        state.view.entry (.user owner page) from Function.update_of_ne own _ _] at nonzero ⊢
    exact sound.tight owner member room page nonzero

/-- An access sets marks in the entry of the page, and nothing else changes in what the memory
manager sees. -/
def Marks (env address : Nat) (state final : State) : Prop :=
  hasPerm (state.view.entry (.user env (ppn address))) permPresent = true ∧
    ∃ mark : Word, mark.getLsbD 5 = true ∧
      final.view = state.view.setEntry (.user env (ppn address))
      (state.view.entry (.user env (ppn address)) ||| mark)

/-- A program reads what is in the page. -/
theorem Sound.readWord (sound : Sound users ghost free state) (user : address < userTop)
    (writeable : hasPerm (state.view.entry (.user state.curenv (ppn address))) permWriteable = true)
    (returned : readWord address state = .ok (word, final)) :
    Sound users ghost free final ∧ final.curenv = state.curenv ∧
      Marks state.curenv address state final ∧ FlatMemory.Step (contents state)
        (.read (state.curenv, ppn address) (wordIndex address) word) (contents final) := by
  rcases bind_observe_ok.mp (bind_get_ok.mp returned) with ⟨⟨table, entry⟩, walked, continued⟩
  rcases walk_ok user walked with ⟨tablePresent, rfl, rfl, present⟩
  have ended := bind_get_ok.mp (bind_modify_ok.mp continued)
  rcases pure_ok.mp ended with ⟨rfl, rfl⟩
  have low : Low permUsed := by decide
  have alike := alike_or present low (by decide)
  have marked := sound.mark user present low (by decide)
  have same := sound.paged.storeEntry_contents user tablePresent alike
  have apart := sound.paged.frame_ne_table user tablePresent (ne_zero_of_present present) writeable
  have view := sound.paged.storeEntry_view user tablePresent
    (state.view.entry (.user state.curenv (ppn address)) ||| permUsed)
  refine ⟨marked, rfl, ⟨present, permUsed, by decide, view⟩, ?_⟩
  have word : (state.setMemory (frameOf (directoryEntry state state.curenv address)) (ptx address)
      (state.view.entry (.user state.curenv (ppn address)) ||| permUsed)).memory
        (frameOf (state.view.entry (.user state.curenv (ppn address)))) =
          state.memory (frameOf (state.view.entry (.user state.curenv (ppn address)))) :=
    Function.update_of_ne apart _ _
  rw [word]
  have step := FlatMemory.Step.read (wordIndex address) (contents_of_writeable present writeable)
  exact same ▸ step

/-- The words of a page change. -/
def changeWords (state : State) (env page : Nat) (words : Nat → Word) : State :=
  state.setPage (frameOf (state.view.entry (.user env page))) words

section Change

variable {words : Nat → Word}
  (present : hasPerm (state.view.entry (.user env page)) permPresent = true)
  (writeable : hasPerm (state.view.entry (.user env page)) permWriteable = true)

include present writeable

/-- A page holds no page table. -/
theorem Paged.page_ne_table (paged : Paged users ghost free state) (table : Table)
    (nonzero : state.view.table table ≠ 0) :
    frameOf (state.view.table table) ≠ frameOf (state.view.entry (.user env page)) := by
  intro same
  have held := paged.held (ne_zero_of_present present) writeable
  rcases paged.consistent.tableHeld table nonzero with ⟨heapPage, only⟩
  rw [← same, only, Finset.mem_singleton] at held
  cases held

theorem Paged.changed_view (paged : Paged users ghost free state) :
    (changeWords state env page words).view = state.view :=
  State.view_setPage (fun _ _ nonzero => paged.page_ne_table present writeable _ nonzero) _

theorem Paged.changed_file (paged : Paged users ghost free state) :
    KeepsFile state (changeWords state env page words) where
  same := ⟨diskEntry_setPage (paged.page_ne_table present writeable) words, rfl, rfl, rfl, rfl⟩
  layout layout := layout.congr rfl rfl (fun _ => id) fun _ => id

theorem Sound.changed (sound : Sound users ghost free state) :
    Sound users ghost free (changeWords state env page words) := by
  have view := @Paged.changed_view users ghost free state env page words present writeable
    sound.paged
  refine ⟨?_, sound.settled, ?_⟩
  · refine sound.paged.next ?_ (sound.paged.changed_file present writeable) ?_ (fun _ _ => .rfl)
      rfl fun _ => rfl
    · rw [view]
      exact sound.paged.consistent
    · intro owner page
      rw [view]
      exact .refl _
  · intro owner user room page
    rw [view]
    exact sound.tight owner user room page

/-- The words of one page change, those of no other. -/
theorem Sound.changed_contents (sound : Sound users ghost free state) (user : env ∈ users) :
    contents (changeWords state env page words) =
      Function.update (contents state) (env, page) (some fun index : Fin 1024 => words index) := by
  have view := @Paged.changed_view users ghost free state env page words present writeable
    sound.paged
  have file := @Paged.changed_file users ghost free state env page words present writeable
    sound.paged
  funext ⟨owner, other⟩
  by_cases same : (owner, other) = (env, page)
  · cases same
    rw [Function.update_self]
    rw [← view] at present writeable
    rw [contents_of_writeable present writeable, view]
    congr 1
    funext index
    exact congrFun (Function.update_self _ _ _) _
  · rw [Function.update_of_ne same]
    refine contents_key (by rw [view]) (fun nonzero shown => ?_) fun _ => by
      rw [stored_congr file.same]
    refine Function.update_of_ne (fun equal => same ?_) _ _
    have held := sound.paged.held nonzero shown
    rw [equal, sound.single user present writeable, Finset.mem_singleton] at held
    cases held
    rfl

end Change

/-- A program changes one word of a page. -/
theorem Sound.writeWord (sound : Sound users ghost free state) (running : state.curenv ∈ users)
    (user : address < userTop) (returned : writeWord address word state = .ok ((), final)) :
    Sound users ghost free final ∧ final.curenv = state.curenv ∧
      Marks state.curenv address state final ∧ FlatMemory.Step (contents state)
        (.write (state.curenv, ppn address) (wordIndex address) word) (contents final) := by
  rcases bind_observe_ok.mp (bind_get_ok.mp returned) with ⟨⟨table, entry⟩, walked, continued⟩
  rcases walk_ok user walked with ⟨tablePresent, rfl, rfl, present⟩
  rcases ite_ok.mp continued with ⟨-, stopped⟩ | ⟨shown, writing⟩
  · rcases bind_ok.mp stopped with ⟨_, _, thrown, -⟩
    cases thrown
  have writeable := not_not.mp shown
  rcases bind_observe_ok.mp writing with ⟨⟨_, _⟩, again, changing⟩
  rw [walked] at again
  cases again
  have ended := modify_ok.mp (bind_modify_ok.mp changing)
  rw [BitVec.or_assoc] at ended
  have low : Low (permUsed ||| permModified) := by decide
  have alike := alike_or present low (by decide)
  have marked := sound.mark user present low (by decide)
  have same := sound.paged.storeEntry_contents user tablePresent alike
  have apart := sound.paged.frame_ne_table user tablePresent (ne_zero_of_present present) writeable
  have view := sound.paged.storeEntry_view user tablePresent
    (state.view.entry (.user state.curenv (ppn address)) ||| (permUsed ||| permModified))
  have own : (storeEntry state state.curenv address
      (state.view.entry (.user state.curenv (ppn address)) |||
        (permUsed ||| permModified))).view.entry (.user state.curenv (ppn address)) =
      state.view.entry (.user state.curenv (ppn address)) ||| (permUsed ||| permModified) := by
    rw [view]
    exact Function.update_self _ _ _
  have presentNow := present_or (permUsed ||| permModified) present
  have writeableNow := alike.writeable.trans writeable
  rw [← own] at presentNow writeableNow
  have ended : final = changeWords (storeEntry state state.curenv address
      (state.view.entry (.user state.curenv (ppn address)) ||| (permUsed ||| permModified)))
      state.curenv (ppn address) (Function.update
        (state.memory (frameOf (state.view.entry (.user state.curenv (ppn address)))))
        (wordIndex address) word) := by
    rw [← ended, changeWords, own, alike.frame]
    congr 2
    exact Function.update_of_ne apart _ _
  subst ended
  have changed := @Paged.changed_view users ghost free _ state.curenv (ppn address)
    (Function.update (state.memory (frameOf (state.view.entry (.user state.curenv (ppn address)))))
      (wordIndex address) word) presentNow writeableNow marked.paged
  refine ⟨marked.changed presentNow writeableNow, rfl, ⟨present, _, by decide, changed.trans view⟩,
    ?_⟩
  rw [marked.changed_contents presentNow writeableNow running, same]
  have step := FlatMemory.Step.write (wordIndex address) word
    (contents_of_writeable present writeable)
  rw [FlatMemory.put] at step
  convert step using 3
  funext index
  by_cases here : index = wordIndex address
  · rw [here, Function.update_self, Function.update_self]
  · have apart : (index : Nat) ≠ wordIndex address := fun equal => here (Fin.ext equal)
    rw [Function.update_of_ne here, Function.update_of_ne apart]

end Access

/-! ## Runs -/

/-- The environments run in turns. They read and write words of their pages, and an access to
a page that is not present faults first. -/
inductive Run (users : Finset Nat) :
    State → List (MemoryAccess (Nat × Nat) (Fin 1024) Word) → State → Prop
  | nil {state} : Run users state [] state
  | read {state middle final accesses word} (address : Nat) : address < userTop →
      hasPerm (state.view.entry (.user state.curenv (ppn address))) permWriteable = true →
      readWord address state = .ok (word, middle) → Run users middle accesses final →
      Run users state (.read (state.curenv, ppn address) (wordIndex address) word :: accesses)
        final
  | write {state middle final accesses} (address : Nat) (word : Word) : address < userTop →
      writeWord address word state = .ok ((), middle) → Run users middle accesses final →
      Run users state (.write (state.curenv, ppn address) (wordIndex address) word :: accesses)
        final
  | fault {state middle final accesses} (address : Nat) :
      hasPerm (state.view.entry (.user state.curenv (ppn address))) permPresent = false →
      Calm state → faultHandler address state = .ok ((), middle) →
      Run users middle accesses final →
      Run users state (.touch (state.curenv, ppn address) :: accesses) final
  | schedule {state final accesses} (env : Nat) : env ∈ users →
      Run users { state with curenv := env } accesses final → Run users state accesses final

/-- The running environment is one of those in use, and their memory is in order. -/
def InOrder (users : Finset Nat) (state : State) : Prop :=
  state.curenv ∈ users ∧ ∃ ghost free, Sound users ghost free state

section Runs

variable {users : Finset Nat} {ghost : Ghost} {free : List Nat} {state final : State}
variable {accesses : List (MemoryAccess (Nat × Nat) (Fin 1024) Word)}

theorem Sound.schedule (sound : Sound users ghost free state) (env : Nat) :
    Sound users ghost free { state with curenv := env } where
  paged := by
    refine sound.paged.next sound.paged.consistent ⟨⟨fun _ _ => rfl, rfl, rfl, rfl, rfl⟩, ?_⟩
      (fun _ _ => .refl _) (fun _ _ => .rfl) rfl fun _ => rfl
    exact fun layout => layout.congr rfl rfl (fun _ => id) fun _ => id
  settled := sound.settled
  tight := sound.tight

/-- A run is a run of a memory of pages. -/
theorem Run.steps (run : Run users state accesses final) (order : InOrder users state) :
    InOrder users final ∧ FlatMemory.Steps (contents state) accesses (contents final) := by
  induction run with
  | nil => exact ⟨order, .nil⟩
  | read address user writeable returned _ induction =>
      rcases order with ⟨running, ghost, free, sound⟩
      rcases sound.readWord user writeable returned with ⟨soundNow, same, -, step⟩
      rcases induction ⟨same ▸ running, ghost, free, soundNow⟩ with ⟨last, steps⟩
      exact ⟨last, .cons step steps⟩
  | write address word user returned _ induction =>
      rcases order with ⟨running, ghost, free, sound⟩
      rcases sound.writeWord running user returned with ⟨soundNow, same, -, step⟩
      rcases induction ⟨same ▸ running, ghost, free, soundNow⟩ with ⟨last, steps⟩
      exact ⟨last, .cons step steps⟩
  | fault address absent calm returned _ induction =>
      rcases order with ⟨running, ghost, free, sound⟩
      rcases sound.fault running absent calm returned with ⟨after, left, served⟩
      have runningNow := served.settings.curenv ▸ running
      rcases induction ⟨runningNow, after, left, served.sound⟩ with ⟨last, steps⟩
      exact ⟨last, .cons (.touch served.appears) steps⟩
  | schedule env user _ induction =>
      rcases order with ⟨-, ghost, free, sound⟩
      exact induction ⟨user, ghost, free, sound.schedule env⟩

end Runs

/-! ## The first environment -/

section Boot

variable {layout : BootLayout} {contents : BootContents} {ghost : Ghost} {free : List Nat}
variable {users : Finset Nat} {state : State} {env size : Nat}

/-- An environment gets an empty working set and runs. -/
def startOn (state : State) (env size : Nat) : State :=
  { state.setEnv env
      { state.envs env with
        pageWSMaxSize := size
        pageLastWSIndex := 0
        ptrPageWorkingSet := fun _ => .cleared } with
    curenv := env }

/-- After boot no environment is in use. -/
theorem booted_sound (booted : Booted layout contents ghost state) (file : PageFile free state) :
    Sound ∅ { ghost with loose := ∅ } free state := by
  have settled := ReferenceCounts.boot_settled booted
  refine ⟨⟨?_, file, ?_, ?_, Finset.empty_subset _, ?_⟩, rfl, ?_⟩
  · refine reloose settled.consistent fun env active => ?_
    rw [settled.inactive] at active
    exact absurd active (Finset.notMem_empty _)
  · intro owner page hidden
    rw [settled.counted] at hidden
    cases hidden
  · exact fun owner page _ nonzero => absurd (booted.entry _) nonzero
  · exact fun env user => absurd user (Finset.notMem_empty _)
  · exact fun env user => absurd user (Finset.notMem_empty _)

/-- An environment without pages is started. -/
theorem Sound.start (sound : Sound users ghost free state) (new : env ∉ users)
    (unmapped : ∀ page : Nat, state.view.entry (.user env page) = 0) (positive : 0 < size)
    (bound : size < 2 ^ 32) : InOrder (insert env users) (startOn state env size) := by
  have paged := sound.paged
  have view : (startOn state env size).view = state.view.setWorkingSet env
      ⟨size, 0, fun _ => .cleared⟩ := State.view_setEnv state env _
  have entry : (startOn state env size).view.entry = state.view.entry := by
    rw [view]
    rfl
  have absent : ∀ page : Nat,
      hasPerm ((startOn state env size).view.entry (.user env page)) permPresent ≠ true := by
    intro page
    rw [entry, unmapped]
    decide
  have idle : Consistent { ghost with active := ghost.active.erase env }
      (startOn state env size).view := by
    rw [view]
    exact (paged.consistent.deactivate env).setInactive (Finset.notMem_erase _ _)
  have own : (startOn state env size).view.workingSet env = ⟨size, 0, fun _ => .cleared⟩ := by
    rw [view]
    exact Function.update_self _ _ _
  have active : Consistent { ghost with active := insert env (ghost.active.erase env) }
      (startOn state env size).view := by
    refine idle.activate ?_ ?_ fun page present => absurd present (absent _)
    · rw [own]
      exact positive
    · rw [own]
      exact fun _ _ => rfl
  have others : ∀ other, other ≠ env → (startOn state env size).envs other = state.envs other :=
    fun other different => Function.update_of_ne different _ _
  refine ⟨Finset.mem_insert_self _ _,
    { ghost with active := insert env (ghost.active.erase env) }, free,
    ⟨active, ?_, ?_, ?_, ?_, ?_⟩, sound.settled, ?_⟩
  · have directories : ∀ other,
        ((startOn state env size).envs other).diskEnvPgdir = (state.envs other).diskEnvPgdir ∧
          ((startOn state env size).envs other).diskEnvTabledir =
            (state.envs other).diskEnvTabledir := by
      intro other
      by_cases same : other = env
      · simp [startOn, State.setEnv, same]
      · rw [others other same]
        exact ⟨rfl, rfl⟩
    refine paged.file.congr ⟨fun _ _ => rfl, rfl, rfl, rfl, rfl⟩
      (paged.file.layout.congr rfl rfl ?_ ?_)
    · exact fun other none => (directories other).1.symm.trans none
    · exact fun other none => (directories other).2.symm.trans none
  · intro owner page hidden
    rw [entry]
    exact paged.readOnly owner page hidden
  · rw [entry]
    exact paged.writeable
  · refine Finset.insert_subset_insert _ fun other user => Finset.mem_erase.mpr ⟨?_, ?_⟩
    · rintro rfl
      exact new user
    · exact paged.active user
  · intro other user
    by_cases same : other = env
    · simpa [startOn, State.setEnv, same] using bound
    · rw [others other same]
      exact paged.sizes other (Finset.mem_of_mem_insert_of_ne user same)
  · intro other user room page nonzero
    rw [entry] at nonzero ⊢
    by_cases same : other = env
    · subst same
      exact absurd (unmapped page) nonzero
    · rw [others other same] at room
      exact sound.tight other (Finset.mem_of_mem_insert_of_ne user same) room page nonzero

end Boot

/-! ## A run with a replacement -/

/-- What happens next. -/
inductive Action
  | read (address : Nat)
  | write (address : Nat) (word : Word)
  | fault (address : Nat)
  | schedule (env : Nat)

instance (state : State) : Decidable (Calm state) := inferInstanceAs (Decidable (_ ∨ _))

/-- One thing happens after the other, as far as it can. -/
def perform (users : Finset Nat) :
    List Action → Kernel (List (MemoryAccess (Nat × Nat) (Fin 1024) Word))
  | [] => return []
  | .read address :: actions => do
      let state ← get
      if address < userTop ∧
          hasPerm (state.view.entry (.user state.curenv (ppn address))) permWriteable then
        let word ← readWord address
        let accesses ← perform users actions
        return .read (state.curenv, ppn address) (wordIndex address) word :: accesses
      else throw .badPointer
  | .write address word :: actions => do
      let state ← get
      if address < userTop then
        writeWord address word
        let accesses ← perform users actions
        return .write (state.curenv, ppn address) (wordIndex address) word :: accesses
      else throw .badPointer
  | .fault address :: actions => do
      let state ← get
      if hasPerm (state.view.entry (.user state.curenv (ppn address))) permPresent = false ∧
          Calm state then
        faultHandler address
        let accesses ← perform users actions
        return .touch (state.curenv, ppn address) :: accesses
      else throw .badPointer
  | .schedule env :: actions => do
      if env ∈ users then
        modify fun state => { state with curenv := env }
        perform users actions
      else throw .badPointer

theorem perform_run {users : Finset Nat} {actions : List Action} {state final : State}
    {accesses : List (MemoryAccess (Nat × Nat) (Fin 1024) Word)}
    (performed : perform users actions state = .ok (accesses, final)) :
    Run users state accesses final := by
  induction actions generalizing state accesses with
  | nil =>
      rcases pure_ok.mp performed with ⟨rfl, rfl⟩
      exact .nil
  | cons action actions induction =>
      cases action with
      | read address =>
          rcases ite_ok.mp (bind_get_ok.mp performed) with ⟨⟨user, writeable⟩, acting⟩ | ⟨-, thrown⟩
          · rcases bind_ok.mp acting with ⟨word, middle, reading, rest⟩
            rcases bind_ok.mp rest with ⟨later, last, continued, ended⟩
            rcases pure_ok.mp ended with ⟨rfl, rfl⟩
            exact .read address user writeable reading (induction continued)
          · cases thrown
      | write address word =>
          rcases ite_ok.mp (bind_get_ok.mp performed) with ⟨user, acting⟩ | ⟨-, thrown⟩
          · rcases bind_ok.mp acting with ⟨_, middle, writing, rest⟩
            rcases bind_ok.mp rest with ⟨later, last, continued, ended⟩
            rcases pure_ok.mp ended with ⟨rfl, rfl⟩
            exact .write address word user writing (induction continued)
          · cases thrown
      | fault address =>
          rcases ite_ok.mp (bind_get_ok.mp performed) with ⟨⟨absent, calm⟩, acting⟩ | ⟨-, thrown⟩
          · rcases bind_ok.mp acting with ⟨_, middle, handling, rest⟩
            rcases bind_ok.mp rest with ⟨later, last, continued, ended⟩
            rcases pure_ok.mp ended with ⟨rfl, rfl⟩
            exact .fault address absent calm handling (induction continued)
          · cases thrown
      | schedule env =>
          rcases ite_ok.mp performed with ⟨user, acting⟩ | ⟨-, thrown⟩
          · exact .schedule env user (induction (bind_modify_ok.mp acting))
          · cases thrown

/-- The topmost page of the stack and the page below it. -/
abbrev upperPage : Nat := ustackTop - 4096
abbrev lowerPage : Nat := ustackTop - 8192

/-- Two environments with room for one page each. -/
def sampleStart : State := startOn (startOn sampleState 1 1) 0 1

/-- Both write to the same address. In the first, two pages replace each other. -/
def sampleActions : List Action :=
  [.fault upperPage, .fault upperPage, .write upperPage 5,
    .schedule 1, .fault upperPage, .fault upperPage, .write upperPage 9,
    .schedule 0, .fault lowerPage, .write lowerPage 7, .fault upperPage, .read upperPage]

def firstWord : Fin 1024 := wordIndex 0

def sampleBefore : List (MemoryAccess (Nat × Nat) (Fin 1024) Word) :=
  [.touch (0, ppn upperPage), .touch (0, ppn upperPage), .write (0, ppn upperPage) firstWord 5,
    .touch (1, ppn upperPage), .touch (1, ppn upperPage), .write (1, ppn upperPage) firstWord 9,
    .touch (0, ppn lowerPage), .write (0, ppn lowerPage) firstWord 7, .touch (0, ppn upperPage)]

theorem sample_run : ∃ final, Run {0, 1} sampleStart
    (sampleBefore ++ .read (0, ppn upperPage) 0 5 :: []) final := by
  have ran : (perform {0, 1} sampleActions sampleStart).toOption.any (fun result =>
      result.1 = sampleBefore ++ .read (0, ppn upperPage) 0 5 :: []) = true := by
    decide +kernel
  cases performed : perform {0, 1} sampleActions sampleStart with
  | error stop =>
      rw [performed] at ran
      cases ran
  | ok pair =>
      rw [performed] at ran
      rcases pair with ⟨accesses, final⟩
      have same : accesses = sampleBefore ++ .read (0, ppn upperPage) 0 5 :: [] := by
        simpa [Except.toOption] using ran
      exact ⟨final, perform_run (same ▸ performed)⟩

theorem sample_inOrder : InOrder {0, 1} sampleStart := by
  rcases initializePaging_ok sample_boots with ⟨ghost, booted⟩
  have sound := booted_sound booted (booted_pageFile sampleLayout sampleContents)
  have idle : InOrder {1} (startOn sampleState 1 1) :=
    sound.start (Finset.notMem_empty 1) (fun _ => booted.entry _) (by decide) (by decide)
  rcases idle with ⟨-, after, left, first⟩
  exact first.start (by decide) (fun page => booted.entry (.user (.env 0) page)) (by decide)
    (by decide)

/-! ## What the programs see -/

section Results

variable {users : Finset Nat} {ghost : Ghost} {free : List Nat} {state final : State}
variable {accesses before after : List (MemoryAccess (Nat × Nat) (Fin 1024) Word)}
variable {env page : Nat} {index : Fin 1024} {word : Word}

/-- Whatever the order of the steps, a read returns the word that was written last. A word that
was not written is as at the start. -/
theorem paging_transparent (order : InOrder users state)
    (run : Run users state (before ++ .read (env, page) index word :: after) final) :
    (∀ written, FlatMemory.lastWritten (env, page) index before = some written →
      word = written) ∧
    (FlatMemory.lastWritten (env, page) index before = none → ∀ words,
      contents state (env, page) = some words → word = words index) :=
  (run.steps order).2.read_last

theorem paging_transparent_sample : ∃ final word, Run {0, 1} sampleStart
    (sampleBefore ++ .read (0, ppn upperPage) 0 word :: []) final ∧ word = 5 := by
  rcases sample_run with ⟨final, run⟩
  exact ⟨final, 5, run, (paging_transparent sample_inOrder run).1 5 (by decide)⟩

/-! ## Where the pages are -/

/-- The pages of the environments that can be written are in the working sets or wait on a
list, each with a frame of its own. -/
structure Residents (users : Finset Nat) (state : State) : Prop where
  recorded : ∀ env ∈ users, ∀ page,
    hasPerm (state.view.entry (.user env page)) permPresent = true →
    hasPerm (state.view.entry (.user env page)) permWriteable = true →
    ∃! slot, state.view.ResidentAt env slot page
  present : ∀ env ∈ users, ∀ slot page, state.view.ResidentAt env slot page →
    hasPerm (state.view.entry (.user env page)) permPresent = true ∧
      hasPerm (state.view.entry (.user env page)) permWriteable = true
  apart : ∀ env ∈ users, ∀ page owner other,
    hasPerm (state.view.entry (.user env page)) permWriteable = true →
    hasPerm (state.view.entry (.user owner other)) permWriteable = true →
    frameOf (state.view.entry (.user env page)) = frameOf (state.view.entry (.user owner other)) →
    owner = .env env ∧ other = page
  waiting : ∀ env ∈ users, ∀ page,
    hasPerm (state.view.entry (.user env page)) permWriteable = true →
    hasPerm (state.view.entry (.user env page)) permPresent = false →
    (OnList state.frameLinks state.modifiedFrameList
        (frameOf (state.view.entry (.user env page))) ↔
      hasPerm (state.view.entry (.user env page)) permModified = true) ∧
    (OnList state.frameLinks state.freeFrameList (frameOf (state.view.entry (.user env page))) ↔
      hasPerm (state.view.entry (.user env page)) permModified = false)

theorem ne_zero_of_writeable {entry : Word} (writeable : hasPerm entry permWriteable = true) :
    entry ≠ 0 := by
  rintro rfl
  exact absurd writeable (by decide)

/-- A page that can be written is the only one in its frame. -/
theorem Sound.alone (sound : Sound users ghost free state) (user : env ∈ users)
    (writeable : hasPerm (state.view.entry (.user env page)) permWriteable = true) :
    ghost.holders (frameOf (state.view.entry (.user env page))) = {.user env page} := by
  cases present : hasPerm (state.view.entry (.user env page)) permPresent with
  | true => exact sound.single user present writeable
  | false =>
      rcases sound.paged.buffered (ne_zero_of_writeable writeable) present with
        ⟨-, member, listed⟩
      exact (sound.paged.consistent.buffered _ listed _ member).2.1

theorem Sound.residents (sound : Sound users ghost free state) : Residents users state where
  recorded := by
    intro env user page present writeable
    have visible : Slot.user env page ∉ ghost.uncounted := by
      intro hidden
      rw [sound.paged.readOnly _ _ hidden] at writeable
      cases writeable
    have active := sound.paged.active user
    have tight : Slot.user env page ∉ ghost.loose := by
      rw [sound.settled]
      exact Finset.notMem_empty _
    rcases sound.paged.consistent.tracked env active page present visible tight with
      ⟨slot, resident⟩
    exact ⟨slot, resident, fun other again =>
      sound.paged.consistent.residentOnce env active other slot page again resident⟩
  present := by
    intro env user slot page resident
    rcases sound.paged.resident_writeable user resident with ⟨-, present, writeable, -⟩
    exact ⟨present, writeable⟩
  apart := by
    intro env user page owner other writeable shown same
    have held := sound.paged.held (ne_zero_of_writeable shown) shown
    rw [← same, sound.alone user writeable, Finset.mem_singleton] at held
    cases held
    exact ⟨rfl, rfl⟩
  waiting := by
    intro env user page writeable absent
    rcases sound.paged.buffered (ne_zero_of_writeable writeable) absent with ⟨-, member, listed⟩
    have entry := (sound.paged.consistent.buffered _ listed _ member).2.2.2
    have lists := sound.paged.consistent.lists
    refine ⟨(onList_iff lists.second).trans entry.modified.symm,
      (onList_iff lists.first).trans ⟨fun onFree => ?_, fun plain => ?_⟩⟩
    · rw [Bool.eq_false_iff]
      exact fun modified => lists.apart _ onFree (entry.modified.mp modified)
    · refine listed.resolve_right fun onModified => ?_
      rw [entry.modified.mpr onModified] at plain
      cases plain

/-- In every state of a run the working sets and the lists agree with the page tables. -/
theorem run_residents (order : InOrder users state) (run : Run users state accesses final) :
    Residents users final := by
  rcases (run.steps order).1 with ⟨-, ghost, free, sound⟩
  exact sound.residents

theorem run_residents_sample : ∃ final, Run {0, 1} sampleStart
    (sampleBefore ++ .read (0, ppn upperPage) 0 5 :: []) final ∧ Residents {0, 1} final := by
  rcases sample_run with ⟨final, run⟩
  exact ⟨final, run, run_residents sample_inOrder run⟩

end Results

end FosKernel.PagedMemory
