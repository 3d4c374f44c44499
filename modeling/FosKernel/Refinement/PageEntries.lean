import FosKernel.Refinement.PageFileProgress
import FosKernel.Refinement.Mapping

/-! # Entries of the page tables

The entry of a page in the page tables of a directory, and what `map_frame` and
`unmap_frame` leave in it and in the entries of all other pages.
-/

namespace FosKernel

/-- The entry of a page. Pages from `USER_TOP` on are in the boot tables, which all
directories share. -/
def State.pageEntry (state : State) (owner : Directory) (page : Nat) : Word :=
  if page < ppn userTop then state.slotEntry (.user owner page) else state.bootTables page

/-- Write the entry of the page of an address whose page table exists. -/
def State.putPageEntry (state : State) (owner : Directory) (address : Nat) (word : Word) :
    State :=
  if address < userTop then
    state.setMemory (frameOf (directoryEntry state owner address)) (ptx address) word
  else state.setBootEntry (ppn address) word

/-- Both directories have the page in the same page table. -/
def SamePage (owner : Directory) (address : Nat) (other : Directory) (page : Nat) : Prop :=
  page = ppn address ∧ (other = owner ∨ userTop ≤ address)

section Entries

variable {ghost : Ghost} {state changed : State} {owner other : Directory}
variable {frame address page : Nat} {word : Word} {perm : Word}

/-- The frame records are not in the page tables. -/
theorem State.decrement_pageEntry (old : Nat) :
    (state.decrement old).pageEntry = state.pageEntry := by
  rw [State.decrement_eq]
  rfl

theorem State.putPageEntry_user (user : address < userTop) :
    state.putPageEntry owner address word =
      state.setMemory (frameOf (directoryEntry state owner address)) (ptx address) word :=
  if_pos user

theorem State.putPageEntry_kernel (kernel : userTop ≤ address) :
    state.putPageEntry owner address word = state.setBootEntry (ppn address) word :=
  if_neg (by omega)

theorem State.putPageEntry_pageDirectory :
    (state.putPageEntry owner address word).pageDirectory = state.pageDirectory := by
  simp only [State.putPageEntry]
  split <;> rfl

theorem State.putPageEntry_framesInfo :
    (state.putPageEntry owner address word).framesInfo = state.framesInfo := by
  simp only [State.putPageEntry]
  split <;> rfl

/-- The page table of a user address exists. -/
def TablePresent (state : State) (owner : Directory) (address : Nat) : Prop :=
  address < userTop → hasPerm (directoryEntry state owner address) permPresent = true

theorem State.pageEntry_putPageEntry (placement : Placement ghost state.view)
    (present : TablePresent state owner address) :
    (state.putPageEntry owner address word).pageEntry owner (ppn address) = word := by
  by_cases user : address < userTop
  · have offset : ptx address < 1024 := Nat.mod_lt _ (by decide)
    have stored := State.view_setMemory_table placement (address_user user).2 offset
      (present user) word
    rw [pdx_mul_add_ptx] at stored
    have entry := congrArg (fun view => view.entry (.user owner (ppn address))) stored
    rw [State.putPageEntry_user user, State.pageEntry, if_pos (address_user user).1]
    refine entry.trans ?_
    simp [View.setEntry]
  · have outside : ¬ppn address < ppn userTop := by
      simp only [ppn, userTop] at user ⊢
      omega
    rw [State.putPageEntry_kernel (by omega), State.pageEntry, if_neg outside]
    simp [State.setBootEntry]

theorem State.pageEntry_putPageEntry_other (placement : Placement ghost state.view)
    (present : TablePresent state owner address) (apart : ¬SamePage owner address other page) :
    (state.putPageEntry owner address word).pageEntry other page =
      state.pageEntry other page := by
  by_cases user : address < userTop
  · have offset : ptx address < 1024 := Nat.mod_lt _ (by decide)
    have stored := State.view_setMemory_table placement (address_user user).2 offset
      (present user) word
    rw [pdx_mul_add_ptx] at stored
    have entry := congrArg (fun view => view.entry (.user other page)) stored
    have different : Slot.user other page ≠ .user owner (ppn address) := by
      intro same
      cases same
      exact apart ⟨rfl, .inl rfl⟩
    rw [State.putPageEntry_user user, State.pageEntry, State.pageEntry]
    split
    · refine entry.trans ?_
      simp only [View.setEntry, Function.update_of_ne different]
      rfl
    · rfl
  · rw [State.putPageEntry_kernel (by omega), State.pageEntry, State.pageEntry]
    split
    · rfl
    · have different : page ≠ ppn address := fun same => apart ⟨same, .inr (by omega)⟩
      simp [State.setBootEntry, different]

/-- The entry of an address is reached through a page-table pointer. -/
structure EntryAt (state : State) (owner : Directory) (address : Nat) (pointer : TablePointer) :
    Prop where
  loaded : load state pointer (ptx address) = .ok (state.pageEntry owner (ppn address))
  stored : ∀ changed word, (address < userTop → changed.bootTables = state.bootTables) →
    changed.pageDirectory = state.pageDirectory →
    store pointer (ptx address) word changed = .ok ((), changed.putPageEntry owner address word)

theorem EntryAt.boot (kernel : userTop ≤ address) :
    EntryAt state owner address (.boot (pdx address)) where
  loaded := by
    have outside : ¬ppn address < ppn userTop := by
      simp only [ppn, userTop] at kernel ⊢
      omega
    rw [State.pageEntry, if_neg outside, load, pdx_mul_add_ptx]
  stored := by
    intro changed word _ _
    rw [State.putPageEntry_kernel kernel, ← pdx_mul_add_ptx]
    rfl

theorem EntryAt.kernel (user : address < userTop)
    (present : hasPerm (directoryEntry state owner address) permPresent = true) {table : Nat}
    (mapped : kernelFrame state table = .ok (frameOf (directoryEntry state owner address))) :
    EntryAt state owner address (.kernel table) where
  loaded := by
    rw [State.pageEntry, if_pos (address_user user).1, load, mapped]
    exact congrArg Except.ok (entry_user user present).symm
  stored := by
    intro changed word boot directory
    have mapped : kernelFrame changed table =
        .ok (frameOf (directoryEntry state owner address)) := by
      rw [← mapped, kernelFrame, boot user]
      rfl
    rw [State.putPageEntry_user user, directoryEntry, directory]
    exact Kernel.observe_run mapped

/-! ## `unmap_frame` and `map_frame` -/

/-- The entry of the page is cleared and its frame loses a reference. -/
def State.clearEntry (state : State) (owner : Directory) (address : Nat) : State :=
  (state.decrement (frameOf (state.pageEntry owner (ppn address)))).putPageEntry owner address 0

/-- What `map_frame` does when the page table exists. -/
def State.enterFrame (state : State) (owner : Directory) (frame address : Nat) (perm : Word) :
    State :=
  let entry := state.pageEntry owner (ppn address)
  if hasPerm entry permPresent ∧ frameOf entry = frame then state
  else if hasPerm entry permPresent then
    ((state.clearEntry owner address).addReferences frame 1).putPageEntry owner address
      (mapWord frame perm)
  else (state.addReferences frame 1).putPageEntry owner address (mapWord frame perm)

/-- The early return leaves the entry as it is. -/
def EarlyReturn (state : State) (owner : Directory) (frame address : Nat) : Prop :=
  hasPerm (state.pageEntry owner (ppn address)) permPresent = true ∧
    frameOf (state.pageEntry owner (ppn address)) = frame

theorem State.enterFrame_same (early : EarlyReturn state owner frame address) :
    state.enterFrame owner frame address perm = state := if_pos early

theorem State.enterFrame_replaces
    (mapped : hasPerm (state.pageEntry owner (ppn address)) permPresent = true)
    (different : frameOf (state.pageEntry owner (ppn address)) ≠ frame) :
    state.enterFrame owner frame address perm =
      ((state.clearEntry owner address).addReferences frame 1).putPageEntry owner address
        (mapWord frame perm) := by
  rw [State.enterFrame, if_neg fun same => different same.2, if_pos mapped]

theorem State.enterFrame_adds
    (unmapped : ¬hasPerm (state.pageEntry owner (ppn address)) permPresent = true) :
    state.enterFrame owner frame address perm =
      (state.addReferences frame 1).putPageEntry owner address (mapWord frame perm) := by
  rw [State.enterFrame, if_neg fun same => unmapped same.1, if_neg unmapped]

theorem decrementReferences_run (state : State) (frame : Nat) :
    decrementReferences frame state = .ok ((), state.decrement frame) := by
  rcases decrementReferences_returns state frame with ⟨final, returned⟩
  rw [returned, decrementReferences_ok returned]

theorem State.clearEntry_pageDirectory :
    (state.clearEntry owner address).pageDirectory = state.pageDirectory := by
  rw [State.clearEntry, State.putPageEntry_pageDirectory, State.decrement_eq]

/-- The tables of the kernel heap are not written for a user page. -/
theorem State.clearEntry_bootTables (user : address < userTop) :
    (state.clearEntry owner address).bootTables = state.bootTables := by
  rw [State.clearEntry, State.putPageEntry_user user, State.decrement_eq]
  rfl

theorem getFrameInfo_entry {info : Option Nat} {pointer : TablePointer}
    (found : getFrameInfo state owner address = .ok (info, pointer)) (nonnull : pointer ≠ .null)
    (entry : EntryAt state owner address pointer) :
    info = entryFrame (state.pageEntry owner (ppn address)) := by
  rcases Except.bind_ok.mp found with ⟨⟨status, table⟩, looked, framed⟩
  rcases Except.bind_ok.mp framed with ⟨value, returned, ended⟩
  cases ended
  rcases frameAt_ok returned with ⟨none, -⟩ | ⟨-, word, loaded, value, -⟩
  · exact absurd none nonnull
  · rw [entry.loaded] at loaded
    cases loaded
    exact value

theorem unmapFrame_run {info : Option Nat} {pointer : TablePointer}
    (found : getFrameInfo state owner address = .ok (info, pointer)) (nonnull : pointer ≠ .null)
    (entry : EntryAt state owner address pointer)
    (occupied : state.pageEntry owner (ppn address) ≠ 0) :
    unmapFrame owner address state = .ok ((), state.clearEntry owner address) := by
  have frame : info = some (frameOf (state.pageEntry owner (ppn address))) := by
    rw [getFrameInfo_entry found nonnull entry, entryFrame, if_neg occupied]
  rw [unmapFrame, Kernel.observe_run found]
  simp only [frame]
  rw [Kernel.bind_run (decrementReferences_run _ _)]
  refine entry.stored _ 0 (fun _ => ?_) ?_
  · rw [State.decrement_eq]
  · rw [State.decrement_eq]

/-- The rest of `map_frame` when the page table is known. -/
theorem mapEntry_run {pointer : TablePointer} (entry : EntryAt state owner address pointer)
    (unmaps : hasPerm (state.pageEntry owner (ppn address)) permPresent = true →
      frameOf (state.pageEntry owner (ppn address)) ≠ frame →
        unmapFrame owner address state = .ok ((), state.clearEntry owner address)) :
    (do
      let entry ← observe fun state => load state pointer (ptx address)
      if hasPerm entry permPresent ∧ frameOf entry = frame then return ()
      if hasPerm entry permPresent then unmapFrame owner address
      addReferences frame 1
      store pointer (ptx address) (constructEntry frame (perm ||| permPresent)) :
        Kernel Unit) state = .ok ((), state.enterFrame owner frame address perm) := by
  rw [Kernel.observe_run entry.loaded]
  by_cases mapped : hasPerm (state.pageEntry owner (ppn address)) permPresent = true
  · by_cases same : frameOf (state.pageEntry owner (ppn address)) = frame
    · rw [if_pos ⟨mapped, same⟩, State.enterFrame_same ⟨mapped, same⟩]
      rfl
    · rw [if_neg fun both => same both.2, if_pos mapped, Kernel.bind_run (unmaps mapped same),
        State.enterFrame_replaces mapped same]
      refine entry.stored _ _ (fun user => ?_) ?_
      · exact State.clearEntry_bootTables user
      · exact State.clearEntry_pageDirectory
  · rw [if_neg fun both => mapped both.1, if_neg mapped, State.enterFrame_adds mapped]
    exact entry.stored (state.addReferences frame 1) _ (fun _ => rfl) rfl

theorem mapFrame_run {info : Option Nat} {pointer : TablePointer}
    (found : getFrameInfo state owner address = .ok (info, pointer)) (nonnull : pointer ≠ .null)
    (entry : EntryAt state owner address pointer) :
    mapFrame owner frame address perm state =
      .ok ((), state.enterFrame owner frame address perm) := by
  rcases Except.bind_ok.mp found with ⟨⟨status, table⟩, looked, framed⟩
  rcases Except.bind_ok.mp framed with ⟨value, -, ended⟩
  cases ended
  have exists_table : status ≠ .notExist := by
    rintro rfl
    rcases Except.bind_ok.mp looked with ⟨located, -, status⟩
    rcases tableStatus_ok status with ⟨-, absurd, -⟩ | ⟨-, -, null⟩
    · cases absurd
    · exact nonnull null
  rw [mapFrame, mapFrameWith, Kernel.observe_run looked]
  simp only [exists_table, if_false]
  rw [pure_bind]
  exact mapEntry_run entry fun mapped _ =>
    unmapFrame_run found nonnull entry (ne_zero_of_present mapped)

/-! ## Entries after `map_frame` -/

theorem State.clearEntry_placement (placement : Placement ghost state.view)
    (present : TablePresent state owner address) :
    Placement ghost (state.decrement frame).view ∧
      TablePresent (state.decrement frame) owner address := by
  refine ⟨placement.congr (State.decrement_table frame) fun _ _ => rfl, fun user => ?_⟩
  rw [State.decrement_eq]
  exact present user

theorem State.putPageEntry_table (placement : Placement ghost state.view)
    (present : TablePresent state owner address) :
    Placement ghost (state.putPageEntry owner address word).view ∧
      TablePresent (state.putPageEntry owner address word) owner address := by
  constructor
  · refine placement.congr ?_ fun _ _ => rfl
    simp only [State.putPageEntry]
    split <;> rfl
  · intro user
    rw [directoryEntry, State.putPageEntry_pageDirectory]
    exact present user

theorem State.clearEntry_pageEntry (placement : Placement ghost state.view)
    (present : TablePresent state owner address) (apart : ¬SamePage owner address other page) :
    (state.clearEntry owner address).pageEntry other page = state.pageEntry other page := by
  rcases State.clearEntry_placement placement present with ⟨placementAfter, presentAfter⟩
  rw [State.clearEntry, State.pageEntry_putPageEntry_other placementAfter presentAfter apart,
    State.decrement_pageEntry]

theorem State.addReferences_placement (placement : Placement ghost state.view) {amount : Nat} :
    Placement ghost (state.addReferences frame amount).view :=
  placement.congr rfl fun _ _ => rfl

theorem State.clearEntry_table (placement : Placement ghost state.view)
    (present : TablePresent state owner address) :
    Placement ghost (state.clearEntry owner address).view ∧
      TablePresent (state.clearEntry owner address) owner address := by
  rcases State.clearEntry_placement placement present with ⟨placementAfter, presentAfter⟩
  exact State.putPageEntry_table placementAfter presentAfter

/-- The entry of the page and the entries of all others, if there is something to enter. -/
theorem State.enterFrame_entry (placement : Placement ghost state.view)
    (present : TablePresent state owner address)
    (enters : ¬EarlyReturn state owner frame address) :
    (state.enterFrame owner frame address perm).pageEntry owner (ppn address) =
      mapWord frame perm := by
  by_cases mapped : hasPerm (state.pageEntry owner (ppn address)) permPresent = true
  · rw [State.enterFrame_replaces mapped fun same => enters ⟨mapped, same⟩]
    rcases State.clearEntry_table placement present with ⟨placementAfter, presentAfter⟩
    exact State.pageEntry_putPageEntry (State.addReferences_placement placementAfter) presentAfter
  · rw [State.enterFrame_adds mapped]
    exact State.pageEntry_putPageEntry (State.addReferences_placement placement) present

theorem State.enterFrame_pageEntry (placement : Placement ghost state.view)
    (present : TablePresent state owner address) (apart : ¬SamePage owner address other page) :
    (state.enterFrame owner frame address perm).pageEntry other page =
      state.pageEntry other page := by
  by_cases mapped : hasPerm (state.pageEntry owner (ppn address)) permPresent = true
  · by_cases same : frameOf (state.pageEntry owner (ppn address)) = frame
    · rw [State.enterFrame_same ⟨mapped, same⟩]
    · rw [State.enterFrame_replaces mapped same]
      rcases State.clearEntry_table placement present with ⟨placementAfter, presentAfter⟩
      have counted : TablePresent ((state.clearEntry owner address).addReferences frame 1)
        owner address := presentAfter
      rw [State.pageEntry_putPageEntry_other (State.addReferences_placement placementAfter)
        counted apart]
      exact State.clearEntry_pageEntry placement present apart
  · rw [State.enterFrame_adds mapped]
    exact State.pageEntry_putPageEntry_other (State.addReferences_placement placement) present
      apart

/-- The count that one reference less leaves. -/
theorem State.decrement_references (state : State) (frame : Nat) :
    ((state.decrement frame).framesInfo frame).references =
      ((state.framesInfo frame).references + (2 ^ 16 - 1)) % 2 ^ 16 := by
  rw [State.decrement]
  split
  · rename_i zero
    rw [State.addReferences] at zero
    simp only [State.setFrameInfo, Function.update_self] at zero
    rw [zero]
    simp [State.release, State.withFree]
  · simp [State.addReferences, State.setFrameInfo]

theorem State.addReferences_framesInfo {counted amount : Nat} (different : counted ≠ frame) :
    (state.addReferences frame amount).framesInfo counted = state.framesInfo counted := by
  simp [State.addReferences, State.setFrameInfo, different]

theorem State.enterFrame_replaced
    (mapped : hasPerm (state.pageEntry owner (ppn address)) permPresent = true)
    (different : frameOf (state.pageEntry owner (ppn address)) ≠ frame) :
    ((state.enterFrame owner frame address perm).framesInfo
        (frameOf (state.pageEntry owner (ppn address)))).references =
      ((state.framesInfo (frameOf (state.pageEntry owner (ppn address)))).references +
        (2 ^ 16 - 1)) % 2 ^ 16 := by
  rw [State.enterFrame_replaces mapped different, State.putPageEntry_framesInfo,
    State.addReferences_framesInfo different, State.clearEntry, State.putPageEntry_framesInfo, State.decrement_references]

theorem State.enterFrame_forgotten
    (unmapped : ¬hasPerm (state.pageEntry owner (ppn address)) permPresent = true)
    {counted : Nat} (different : counted ≠ frame) :
    (state.enterFrame owner frame address perm).framesInfo counted =
      state.framesInfo counted := by
  rw [State.enterFrame_adds unmapped, State.putPageEntry_framesInfo,
    State.addReferences_framesInfo different]

/-- A frame that was not at the page gets one reference. -/
theorem State.enterFrame_references (enters : ¬EarlyReturn state owner frame address) :
    ((state.enterFrame owner frame address perm).framesInfo frame).references =
      ((state.framesInfo frame).references + 1) % 2 ^ 16 := by
  have counted : ∀ before : State,
      ((before.addReferences frame 1).framesInfo frame).references =
        ((before.framesInfo frame).references + 1) % 2 ^ 16 := by
    intro before
    simp [State.addReferences, State.setFrameInfo]
  by_cases mapped : hasPerm (state.pageEntry owner (ppn address)) permPresent = true
  · have different : frameOf (state.pageEntry owner (ppn address)) ≠ frame :=
      fun same => enters ⟨mapped, same⟩
    rw [State.enterFrame_replaces mapped different, State.putPageEntry_framesInfo, counted,
      State.clearEntry, State.putPageEntry_framesInfo]
    have kept : (state.decrement (frameOf (state.pageEntry owner (ppn address)))).framesInfo
        frame = state.framesInfo frame := by
      rw [State.decrement]
      split
      · simp [State.release, State.withFree, State.addReferences, State.setFrameInfo,
          Ne.symm different]
      · rw [State.addReferences_framesInfo (Ne.symm different)]
    rw [kept]
  · rw [State.enterFrame_adds mapped, State.putPageEntry_framesInfo, counted]

/-- Apart from the records, a user page changes one word of its page table. -/
theorem State.enterFrame_user (user : address < userTop) :
    (state.enterFrame owner frame address perm).bootTables = state.bootTables ∧
      (state.enterFrame owner frame address perm).pageDirectory = state.pageDirectory ∧
      (state.enterFrame owner frame address perm).numberOfFrames = state.numberOfFrames ∧
      ∀ other, other ≠ frameOf (directoryEntry state owner address) →
        (state.enterFrame owner frame address perm).memory other = state.memory other := by
  by_cases mapped : hasPerm (state.pageEntry owner (ppn address)) permPresent = true
  · by_cases same : frameOf (state.pageEntry owner (ppn address)) = frame
    · rw [State.enterFrame_same ⟨mapped, same⟩]
      exact ⟨rfl, rfl, rfl, fun _ _ => rfl⟩
    · rw [State.enterFrame_replaces mapped same, State.putPageEntry_user user, State.clearEntry,
        State.putPageEntry_user user, State.decrement_eq]
      refine ⟨rfl, rfl, rfl, fun other different => ?_⟩
      simp [State.addReferences, State.setFrameInfo, State.setMemory, different]
  · rw [State.enterFrame_adds mapped, State.putPageEntry_user user]
    refine ⟨rfl, rfl, rfl, fun other different => ?_⟩
    simp [State.addReferences, State.setFrameInfo, State.setMemory, different]

end Entries

/-! ## A page table that has to be made -/

section Creating

variable {ghost : Ghost} {state final : State} {owner : Directory}
variable {frame address page : Nat} {perm : Word}

/-- Mapping heap pages changes the boot tables at these pages only. -/
theorem mapHeapPages_others {nested : Nat → Kernel Nat} {fuel start last : Nat}
    (consistent : Consistent ghost state.view) (aligned : start % 4096 = 0)
    (record : (state.kHeapArr state.idx).last = last)
    (heap : ∀ address ∈ pageRange start (last + 1), HeapAddress address)
    (free : ∀ address ∈ pageRange start (last + 1),
      state.view.entry (.heap (ppn address)) = 0)
    (outside : page ∉ (pageRange start (last + 1)).map ppn)
    (returned : mapHeapPages nested fuel start state = .ok ((), final)) :
    final.bootTables page = state.bootTables page := by
  induction fuel generalizing state ghost start with
  | zero => exact (Kernel.throw_ok.mp returned).elim
  | succ fuel induction =>
      rw [mapHeapPages] at returned
      rcases Kernel.bind_ok.mp returned with ⟨_, current, read, looped⟩
      rcases heapRecord_ok read with ⟨rfl, rfl⟩
      rw [record] at looped
      rcases Kernel.ite_ok.mp looped with ⟨inside, looped⟩ | ⟨ended, stopped⟩
      · rcases Kernel.bind_ok.mp looped with ⟨_, middle, mapped, rest⟩
        have cons := pageRange_cons (show start < last + 1 by omega)
        have nodup : ((pageRange start (last + 1)).map ppn).Nodup := pageRange_ppn_nodup aligned
        rw [cons] at heap free nodup outside
        rw [List.map_cons, List.nodup_cons] at nodup
        rw [List.map_cons, List.mem_cons, not_or] at outside
        have first := heap start List.mem_cons_self
        have empty := free start List.mem_cons_self
        rcases mapHeapPage_ok consistent first empty mapped with ⟨after, taken, -, one, only⟩
        have here : middle.bootTables page = current.bootTables page := by
          rcases Kernel.bind_ok.mp mapped with ⟨frame, between, allocated, entered⟩
          rcases allocateFrame_consistent consistent allocated with ⟨-, rfl, allocatedThere, -⟩
          rw [mapHeapFrame_ok allocatedThere.toHeapLayout first empty entered]
          simp only [State.mapHeap, State.setBootEntry, Function.update_of_ne outside.1]
          rfl
        have stillFree : ∀ other ∈ pageRange (start + 4096) (last + 1),
            middle.view.entry (.heap (ppn other)) = 0 := by
          intro other member
          have different : ppn other ≠ ppn start := fun equal =>
            nodup.1 (equal ▸ List.mem_map_of_mem member)
          rw [one.entries (.heap (ppn other)) (by simpa using different)]
          exact free other (by simp [member])
        have sameRecord : (middle.kHeapArr middle.idx).last = last := by
          rcases only with ⟨_, _, _, _, rfl⟩
          exact record
        have small : (start + 4096) % 2 ^ 32 = start + 4096 := by
          have bound := first.upper
          grind
        rw [small] at rest
        rw [← here]
        exact induction one.consistent (by omega) sameRecord
          (fun other member => heap other (by simp [member])) stillFree outside.2 rest
      · rcases Kernel.pure_ok.mp stopped with ⟨-, rfl⟩
        rfl

theorem kmalloc_others (consistent : Consistent ghost state.view)
    (returned : kmalloc 4096 state = .ok (address, final)) (nonzero : address ≠ 0)
    (outside : page ≠ ppn address) : final.bootTables page = state.bootTables page := by
  have request : Request 4096 := ⟨by decide, by decide⟩
  rcases kmalloc_cases returned with
    ⟨-, zero, -⟩ | ⟨_, -, zero, -⟩ | ⟨record, mapped, searched, looped, located, rfl⟩
  · exact absurd zero nonzero
  · exact absurd zero nonzero
  rcases heapSearch_ok consistent.toHeapLayout request searched with ⟨start, scanned⟩
  have written : (state.withHeapRecord record).kHeapArr (state.withHeapRecord record).idx =
      record := by
    simp [State.withHeapRecord]
  have positive := request.roundUp.2.1
  rcases scanned.allocation consistent positive looped with ⟨kept, -⟩
  rw [kept] at located
  have single : roundUp 4096 / 4096 = 1 := rfl
  have last : record.last = record.first := by
    rw [scanned.last, scanned.first, single]
    rfl
  have pages : (pageRange record.first (record.last + 1)).map ppn = [ppn record.first] := by
    have count : (record.first + 1 - record.first + 4095) / 4096 = 1 := by omega
    rw [last, pageRange, count]
    rfl
  have others : page ∉ (pageRange record.first (record.last + 1)).map ppn := by
    rw [pages, ← located]
    simpa using outside
  have kept : mapped.bootTables page = (state.withHeapRecord record).bootTables page :=
    mapHeapPages_others (show Consistent ghost (state.withHeapRecord record).view from
      consistent) scanned.first_heapAddress.aligned (congrArg KernelHeapRecord.last written)
      (fun address member => (scanned.free positive member).1)
      (fun address member => (scanned.free positive member).2) others looped
  exact kept

/-- The directory entries of kernel addresses are the same. -/
structure KernelPart (state final : State) : Prop where
  numberOfFrames : final.numberOfFrames = state.numberOfFrames
  directory : ∀ other index, pdx userTop ≤ index →
    final.pageDirectory other index = state.pageDirectory other index

theorem KernelPart.trans {middle : State} (first : KernelPart state middle)
    (second : KernelPart middle final) : KernelPart state final where
  numberOfFrames := second.numberOfFrames.trans first.numberOfFrames
  directory other index above :=
    (second.directory other index above).trans (first.directory other index above)

/-- `kmalloc` and the translation of its result succeed. -/
structure TablePage (state : State) (newPT : Nat) (grown : State) : Prop where
  allocated : kmalloc 4096 state = .ok (newPT, grown)
  nonzero : newPT ≠ 0
  located : ∃ frame, kheapPhysicalAddress grown newPT = .ok frame

variable {newPT : Nat} {grown : State}

theorem createPageTable_run (consistent : Consistent ghost state.view) (user : address < userTop)
    (absent : directoryEntry state owner address = 0) (room : TablePage state newPT grown) :
    ∃ after middle, createPageTable owner address state = .ok (.kernel newPT, middle) ∧
      NewTable ghost state owner address (.kernel newPT) after middle ∧
      EntryAt middle owner address (.kernel newPT) ∧ middle.bootTables = grown.bootTables ∧
      KernelPart state middle := by
  rcases kmalloc_page consistent room.allocated room.nonzero with ⟨frame, growth, new⟩
  rcases room.located with ⟨physical, looked⟩
  rcases new.physical consistent looked with rfl
  have mapped : kernelFrame grown newPT = .ok physical := new.kernelFrame consistent
  have made : createPageTable owner address state = .ok (.kernel newPT,
      (grown.setDirectoryEntry owner (pdx address) (tableWord physical)).setPage physical
        fun _ => 0) := by
    rw [createPageTable, createPageTableWith, Kernel.bind_run room.allocated]
    simp only [room.nonzero, if_false]
    rw [Kernel.observe_run looked]
    have found : kernelFrame (grown.setDirectoryEntry owner (pdx address)
        (tableWord physical)) newPT = .ok physical := mapped
    exact Kernel.bind_modify_ok.mpr (Kernel.bind_observe_ok.mpr ⟨physical, found, rfl⟩)
  rcases createPageTable_ok consistent user absent made with ⟨after, table⟩
  have upper : KernelPart state ((grown.setDirectoryEntry owner (pdx address)
      (tableWord physical)).setPage physical fun _ => 0) := by
    have index := (address_user user).2
    rcases new.only with ⟨_, _, _, _, _, _, _, rfl⟩
    refine ⟨rfl, fun other someIndex above => ?_⟩
    by_cases same : other = owner
    · subst same
      have different : someIndex ≠ pdx address := by omega
      simp [State.setPage, State.setDirectoryEntry, different]
    · simp [State.setPage, State.setDirectoryEntry, same]
  refine ⟨after, _, made, table, ?_, rfl, upper⟩
  have refers := frameOf_tableWord (new.bound consistent)
  refine EntryAt.kernel user table.present ?_
  rw [directoryEntry]
  simp only [State.setPage, State.setDirectoryEntry, Function.update_self, refers]
  exact mapped

/-- An empty page table has been made for an address. -/
structure MadeTable (ghost : Ghost) (state : State) (owner : Directory) (address newPT : Nat)
    (after : Ghost) (middle : State) : Prop where
  table : NewTable ghost state owner address (.kernel newPT) after middle
  heap : HeapAddress newPT
  empty : middle.pageEntry owner (ppn address) = 0
  others : ∀ other page, page ≠ ppn newPT →
    middle.pageEntry other page = state.pageEntry other page
  upper : KernelPart state middle

/-- An empty page table is made and gets the entry. -/
theorem mapFrame_creates (consistent : Consistent ghost state.view) (user : address < userTop)
    (missing : getPageTable state owner address = .ok (.notExist, .null))
    (room : TablePage state newPT grown) :
    ∃ after middle, MadeTable ghost state owner address newPT after middle ∧
      mapFrame owner frame address perm state =
        .ok ((), middle.enterFrame owner frame address perm) := by
  rcases getPageTable_user consistent.toHeapLayout user missing with
    ⟨absent, -, -⟩ | ⟨-, found, -⟩
  · rcases createPageTable_run consistent user absent room with
      ⟨after, middle, made, table, entry, boot, upper⟩
    have empty : middle.pageEntry owner (ppn address) = 0 := by
      rw [State.pageEntry, if_pos (address_user user).1]
      exact (table.background.userEntry owner _).trans (entry_user_absent absent)
    refine ⟨after, middle, ⟨table, ?_, empty, ?_, upper⟩, ?_⟩
    · rcases kmalloc_page consistent room.allocated room.nonzero with ⟨_, _, new⟩
      exact new.heap
    · intro other page apart
      rw [State.pageEntry, State.pageEntry, boot,
        kmalloc_others consistent room.allocated room.nonzero apart]
      split
      · exact table.background.userEntry other page
      · rfl
    · rw [mapFrame, mapFrameWith, Kernel.observe_run missing]
      simp only [if_true]
      rw [Kernel.bind_run made]
      exact mapEntry_run entry fun mapped _ => absurd empty (ne_zero_of_present mapped)
  · cases found

theorem createPageTable_room {pointer : TablePointer}
    (returned : createPageTable owner address state = .ok (pointer, final)) :
    ∃ newPT grown, TablePage state newPT grown := by
  rcases Kernel.bind_ok.mp returned with ⟨newPT, grown, allocated, checked⟩
  rcases Kernel.ite_ok.mp checked with ⟨-, stopped⟩ | ⟨nonzero, located⟩
  · rcases Kernel.bind_ok.mp stopped with ⟨_, _, thrown, -⟩
    exact (Kernel.throw_ok.mp thrown).elim
  · rcases Kernel.bind_observe_ok.mp located with ⟨physical, looked, -⟩
    exact ⟨newPT, grown, allocated, nonzero, physical, looked⟩

theorem UserMapping.enterFrame (user : address < userTop)
    (mapping : UserMapping state owner frame address perm final) :
    final = state.enterFrame owner frame address perm := by
  have entry : state.pageEntry owner (ppn address) =
      state.view.entry (.user owner (ppn address)) := if_pos (address_user user).1
  cases mapping with
  | same mapped equal =>
      exact (State.enterFrame_same ⟨entry ▸ mapped, entry ▸ equal⟩).symm
  | new unmapped =>
      have absent : ¬hasPerm (state.pageEntry owner (ppn address)) permPresent = true := by
        rw [entry, unmapped]
        decide
      rw [State.enterFrame_adds absent, State.putPageEntry_user user]
      rfl
  | replaced mapped different =>
      rw [State.enterFrame_replaces (entry ▸ mapped) (entry ▸ different),
        State.putPageEntry_user user, State.clearEntry, State.putPageEntry_user user, entry]
      have directory : directoryEntry (state.decrement
          (frameOf (state.view.entry (.user owner (ppn address))))) owner address =
            directoryEntry state owner address := by
        rw [State.decrement_eq]
      rw [directory]
      rfl

/-- A call that returns has found a page table or made one. -/
theorem mapFrame_cases (consistent : Consistent ghost state.view) (user : address < userTop)
    (returned : mapFrame owner frame address perm state = .ok ((), final)) :
    (hasPerm (directoryEntry state owner address) permPresent = true ∧
      UserMapping state owner frame address perm final) ∨
    (directoryEntry state owner address = 0 ∧ ∃ newPT after middle,
      MadeTable ghost state owner address newPT after middle ∧
      final = middle.enterFrame owner frame address perm) := by
  rcases mapFrame_user consistent user returned with found | ⟨absent, -⟩
  · exact .inl found
  · refine .inr ⟨absent, ?_⟩
    rcases Kernel.bind_observe_ok.mp returned with ⟨⟨status, pointer⟩, looked, ended⟩
    rcases getPageTable_user consistent.toHeapLayout user looked with
      ⟨-, rfl, rfl⟩ | ⟨present, -⟩
    · rcases Kernel.bind_ok.mp ended with ⟨table, between, created, -⟩
      rcases createPageTable_room created with ⟨newPT, grown, room⟩
      rcases mapFrame_creates consistent user looked room with ⟨after, middle, made, run⟩
      rw [run] at returned
      cases returned
      exact ⟨newPT, after, middle, made, rfl⟩
    · exact absurd absent (ne_zero_of_present present)

end Creating

end FosKernel
