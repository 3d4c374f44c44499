import FosKernel.Abstract.View
import Mathlib.Data.List.Perm.Subperm

/-! # Consistent memory

The invariant of the memory manager. A frame is in one of three conditions: it is on
one of the two lists and no entry refers to it, it is on one of them as a buffered
page with the single entry of that page, or it is on neither and its reference count
is the number of entries that refer to it. The frames of page tables belong to one
kernel heap page each. Two kinds of entries are not counted: those of the read-only
window on the working set, and those of kernel heap pages whose frame was given back
without them.
-/

namespace FosKernel

open LinkedList

/-- What the state does not record. -/
structure Ghost where
  free : List Nat
  modified : List Nat
  holders : Nat → Finset Slot
  uncounted : Finset Slot
  /-- The frames handed to the free list at boot. -/
  managed : Finset Nat
  /-- The environments whose working set is in use. -/
  active : Finset Nat
  /-- Pages that may be present without being in the working set. -/
  loose : Finset Slot

namespace Ghost

variable (ghost : Ghost)

def Listed (frame : Nat) : Prop := frame ∈ ghost.free ∨ frame ∈ ghost.modified

/-- One more entry refers to the frame. -/
def attach (frame : Nat) (slot : Slot) : Ghost :=
  { ghost with
    holders := Function.update ghost.holders frame (insert slot (ghost.holders frame)) }

/-- The entry refers to nothing any more. -/
def detach (slot : Slot) : Ghost :=
  { ghost with holders := fun frame => (ghost.holders frame).erase slot }

/-- The entry refers to nothing any more; with its last entry a frame becomes free. -/
def unmap (frame : Nat) (slot : Slot) : Ghost :=
  { ghost.detach slot with
    free := if ghost.holders frame = {slot} then frame :: ghost.free else ghost.free }

/-- A frame is put at the end of one of the lists. -/
def evict (frame : Nat) (toModified : Bool) : Ghost :=
  if toModified then { ghost with modified := ghost.modified ++ [frame] }
  else { ghost with free := ghost.free ++ [frame] }

/-- A frame is taken off one of the lists. -/
def restore (frame : Nat) (fromModified : Bool) : Ghost :=
  if fromModified then { ghost with modified := ghost.modified.erase frame }
  else { ghost with free := ghost.free.erase frame }

/-- A page table disappears. Its entries and the heap page of its frame, which stays
mapped, no longer count. -/
def dropTable (env index page : Nat) : Ghost :=
  { ghost with
    holders := fun frame => (ghost.holders frame).filter fun slot =>
      slot ≠ .heap page ∧ ¬slot.InTable env index
    uncounted := insert (.heap page) ghost.uncounted }

theorem dropTable_holders (env index : Nat) {page frame : Nat}
    (held : ghost.holders frame = {.heap page}) :
    (ghost.dropTable env index page).holders frame = ∅ := by
  simp [dropTable, held, Finset.filter_singleton]

variable {ghost} {frame : Nat} {slot : Slot}

@[simp] theorem attach_holders_self :
    (ghost.attach frame slot).holders frame = insert slot (ghost.holders frame) := by
  simp [attach]

variable {toModified fromModified : Bool}

@[simp] theorem evict_holders :
    (ghost.evict frame toModified).holders = ghost.holders := by
  cases toModified <;> rfl

@[simp] theorem evict_uncounted :
    (ghost.evict frame toModified).uncounted = ghost.uncounted := by
  cases toModified <;> rfl

@[simp] theorem evict_managed :
    (ghost.evict frame toModified).managed = ghost.managed := by
  cases toModified <;> rfl

@[simp] theorem evict_active :
    (ghost.evict frame toModified).active = ghost.active := by
  cases toModified <;> rfl

theorem evict_listed {other : Nat} :
    (ghost.evict frame toModified).Listed other ↔ ghost.Listed other ∨ other = frame := by
  cases toModified <;> simp [evict, Listed] <;> tauto

@[simp] theorem restore_holders :
    (ghost.restore frame fromModified).holders = ghost.holders := by
  cases fromModified <;> rfl

@[simp] theorem restore_uncounted :
    (ghost.restore frame fromModified).uncounted = ghost.uncounted := by
  cases fromModified <;> rfl

@[simp] theorem restore_managed :
    (ghost.restore frame fromModified).managed = ghost.managed := by
  cases fromModified <;> rfl

@[simp] theorem restore_active :
    (ghost.restore frame fromModified).active = ghost.active := by
  cases fromModified <;> rfl

@[simp] theorem evict_loose : (ghost.evict frame toModified).loose = ghost.loose := by
  cases toModified <;> rfl

@[simp] theorem restore_loose :
    (ghost.restore frame fromModified).loose = ghost.loose := by
  cases fromModified <;> rfl

theorem attach_holders_of_ne {other : Nat} (different : other ≠ frame) :
    (ghost.attach frame slot).holders other = ghost.holders other := by
  simp [attach, different]

end Ghost

namespace View

/-- The frame a counted entry refers to. -/
def target (view : View) (uncounted : Finset Slot) (slot : Slot) : Option Nat :=
  if slot ∈ uncounted ∨ view.entry slot = 0 then none
  else some (frameOf (view.entry slot))

theorem target_eq_some {view : View} {uncounted : Finset Slot} {slot : Slot}
    {frame : Nat} :
    view.target uncounted slot = some frame ↔
      slot ∉ uncounted ∧ view.entry slot ≠ 0 ∧ frameOf (view.entry slot) = frame := by
  unfold target
  split
  · next hidden => grind
  · next visible => simpa using by grind

/-- The page is recorded at an index of the working set. -/
def ResidentAt (view : View) (env index page : Nat) : Prop :=
  index < (view.workingSet env).maxSize ∧
  ((view.workingSet env).element index).empty = false ∧
  ((view.workingSet env).element index).virtualAddress = page * 4096

def Resident (view : View) (env page : Nat) : Prop :=
  ∃ index, view.ResidentAt env index page

/-- The entry of an evicted page. -/
structure BufferedEntry (entry : Word) (inModified : Prop) : Prop where
  buffered : hasPerm entry permBuffered = true
  absent : hasPerm entry permPresent = false
  modified : hasPerm entry permModified = true ↔ inModified

end View

/-- Lists, counts and flags of the frames agree with the entries. -/
structure Accounting (ghost : Ghost) (view : View) : Prop where
  lists : TwoLists view.links view.free view.modified ghost.free ghost.modified
  listedManaged : ∀ frame, ghost.Listed frame → frame ∈ ghost.managed
  bounded : ∀ frame ∈ ghost.managed, frame < 2 ^ 20
  anonymous : ∀ frame, (view.info frame).environment = none
  holds : Holds (view.target ghost.uncounted) ghost.holders
  heldManaged : ∀ frame, (ghost.holders frame).Nonempty → frame ∈ ghost.managed
  counted : ∀ frame ∈ ghost.managed, ¬ghost.Listed frame →
    (view.info frame).references = (ghost.holders frame).card
  unbuffered : ∀ frame ∈ ghost.managed, ¬ghost.Listed frame →
    (view.info frame).isBuffered = false
  present : ∀ frame, ¬ghost.Listed frame → ∀ slot ∈ ghost.holders frame,
    hasPerm (view.entry slot) permPresent = true
  idle : ∀ frame, ghost.Listed frame → (view.info frame).isBuffered = false →
    ghost.holders frame = ∅
  buffered : ∀ frame, ghost.Listed frame → ∀ slot ∈ ghost.holders frame,
    (∃ env page, slot = .user env page) ∧ ghost.holders frame = {slot} ∧
    (view.info frame).references = 1 ∧
    View.BufferedEntry (view.entry slot) (frame ∈ ghost.modified)
  modifiedBuffered : ∀ frame ∈ ghost.modified, (view.info frame).isBuffered = true

/-- Every page table has a frame of its own, in one kernel heap page. -/
structure Placement (ghost : Ghost) (view : View) : Prop where
  tablePresent : ∀ table, view.table table ≠ 0 →
    hasPerm (view.table table) permPresent = true
  tableHeld : ∀ table, view.table table ≠ 0 →
    ∃ page, ghost.holders (frameOf (view.table table)) = {.heap page}
  tableDistinct : ∀ left right, view.table left ≠ 0 → view.table right ≠ 0 →
    frameOf (view.table left) = frameOf (view.table right) → left = right

/-- The pages from `USER_PAGES_WS_START` on. -/
def InWindow (page : Nat) : Prop := ppn userPagesWSStart ≤ page

/-- Entries that are not counted and the pages of the working sets are present. -/
structure Residency (ghost : Ghost) (view : View) : Prop where
  window : ∀ slot ∈ ghost.uncounted, hasPerm (view.entry slot) permPresent = true
  windowPages : ∀ env page, Slot.user env page ∈ ghost.uncounted → InWindow page
  lastIndex : ∀ env ∈ ghost.active,
    (view.workingSet env).lastIndex < (view.workingSet env).maxSize
  resident : ∀ env ∈ ghost.active, ∀ index page, view.ResidentAt env index page →
    Slot.user env page ∉ ghost.uncounted ∧
    hasPerm (view.entry (.user env page)) permPresent = true ∧
    ghost.holders (frameOf (view.entry (.user env page))) = {.user env page}
  residentPage : ∀ env ∈ ghost.active, ∀ index,
    index < (view.workingSet env).maxSize →
    ((view.workingSet env).element index).empty = false →
    ∃ page, ((view.workingSet env).element index).virtualAddress = page * 4096
  residentOnce : ∀ env ∈ ghost.active, ∀ left right page,
    view.ResidentAt env left page → view.ResidentAt env right page → left = right
  cleared : ∀ env ∈ ghost.active, ∀ index,
    index < (view.workingSet env).maxSize →
    ((view.workingSet env).element index).empty = true →
    ((view.workingSet env).element index).virtualAddress = 0
  tracked : ∀ env ∈ ghost.active, ∀ page,
    hasPerm (view.entry (.user env page)) permPresent = true →
    Slot.user env page ∉ ghost.uncounted → Slot.user env page ∉ ghost.loose →
    view.Resident env page

/-- Every heap page has a boot table, and the next-fit pointer stays in the heap. -/
structure HeapLayout (view : View) : Prop where
  kernelTables : ∀ index, pdx kernelHeapStart ≤ index → index < 1024 →
    hasPerm (view.kernelDirectory index) permPresent = true
  startLower : kernelHeapStart ≤ view.startAdd
  startUpper : view.startAdd ≤ kernelHeapMax
  startAligned : view.startAdd % 4096 = 0

structure Consistent (ghost : Ghost) (view : View) : Prop extends
  Accounting ghost view, Placement ghost view, Residency ghost view, HeapLayout view

theorem Placement.congr {ghost after : Ghost} {view final : View}
    (placement : Placement ghost view) (table : final.table = view.table)
    (holders : ∀ table, view.table table ≠ 0 →
      after.holders (frameOf (view.table table)) =
        ghost.holders (frameOf (view.table table))) :
    Placement after final where
  tablePresent := by
    rw [table]
    exact placement.tablePresent
  tableHeld := by
    rw [table]
    intro someTable nonzero
    rw [holders someTable nonzero]
    exact placement.tableHeld someTable nonzero
  tableDistinct := by
    rw [table]
    exact placement.tableDistinct

/-- Residency depends on the entries that are not counted and on those of resident
pages only. -/
theorem Residency.congr {ghost after : Ghost} {view final : View}
    (residency : Residency ghost view) (workingSet : final.workingSet = view.workingSet)
    (active : after.active = ghost.active) (loose : after.loose = ghost.loose)
    (uncounted : ∀ env page, Slot.user env page ∈ after.uncounted ↔
      Slot.user env page ∈ ghost.uncounted)
    (window : ∀ slot ∈ after.uncounted, hasPerm (final.entry slot) permPresent = true)
    (resident : ∀ env ∈ ghost.active, ∀ page, view.Resident env page →
      hasPerm (final.entry (.user env page)) permPresent =
        hasPerm (view.entry (.user env page)) permPresent ∧
      frameOf (final.entry (.user env page)) = frameOf (view.entry (.user env page)) ∧
      after.holders (frameOf (view.entry (.user env page))) =
        ghost.holders (frameOf (view.entry (.user env page))))
    (tracked : ∀ (env page : Nat), Slot.user env page ∉ ghost.loose → env ∈ ghost.active →
      hasPerm (final.entry (.user env page)) permPresent = true →
      hasPerm (view.entry (.user env page)) permPresent = true) :
    Residency after final where
  window := window
  windowPages env page hidden :=
    residency.windowPages env page ((uncounted env page).mp hidden)
  lastIndex := by
    rw [active, workingSet]
    exact residency.lastIndex
  resident := by
    rw [active]
    intro env isActive index page residentAt
    have before : view.ResidentAt env index page := by
      simpa [View.ResidentAt, workingSet] using residentAt
    rcases resident env isActive page ⟨index, before⟩ with ⟨present, frame, holders⟩
    rw [present, frame, holders, uncounted]
    exact residency.resident env isActive index page before
  residentPage := by
    rw [active, workingSet]
    exact residency.residentPage
  residentOnce := by
    rw [active]
    intro env isActive left right page atLeft atRight
    unfold View.ResidentAt at atLeft atRight
    rw [workingSet] at atLeft atRight
    exact residency.residentOnce env isActive left right page atLeft atRight
  cleared := by
    rw [active, workingSet]
    exact residency.cleared
  tracked := by
    rw [active, loose]
    intro env isActive page present visible tight
    rw [uncounted] at visible
    unfold View.Resident View.ResidentAt
    rw [workingSet]
    exact residency.tracked env isActive page (tracked env page tight isActive present)
      visible tight

namespace Consistent

variable {ghost : Ghost} {view : View} {frame : Nat}

theorem room {values : List Nat} (nodup : values.Nodup)
    (bounded : ∀ value ∈ values, value < 2 ^ 20) : values.length + 1 < 2 ^ 32 := by
  have within : values ⊆ List.range (2 ^ 20) := fun value member =>
    List.mem_range.mpr (bounded value member)
  have := (nodup.subperm within).length_le
  rw [List.length_range] at this
  omega

theorem freeRoom (consistent : Consistent ghost view) :
    ghost.free.length + 1 < 2 ^ 32 :=
  room consistent.lists.first.nodup fun value member =>
    consistent.bounded value (consistent.listedManaged value (.inl member))

theorem modifiedRoom (consistent : Consistent ghost view) :
    ghost.modified.length + 1 < 2 ^ 32 :=
  room consistent.lists.second.nodup fun value member =>
    consistent.bounded value (consistent.listedManaged value (.inr member))

theorem mem_holders (consistent : Consistent ghost view) {slot : Slot} :
    slot ∈ ghost.holders frame ↔
      slot ∉ ghost.uncounted ∧ view.entry slot ≠ 0 ∧ frameOf (view.entry slot) = frame := by
  rw [consistent.holds frame slot, View.target_eq_some]

theorem visible_of_empty (consistent : Consistent ghost view) {slot : Slot}
    (empty : view.entry slot = 0) : slot ∉ ghost.uncounted := by
  intro hidden
  exact ne_zero_of_present (consistent.window slot hidden) empty

/-- A counted present entry refers to a frame on neither list. -/
theorem not_listed_of_present (consistent : Consistent ghost view) {slot : Slot}
    (member : slot ∈ ghost.holders frame)
    (present : hasPerm (view.entry slot) permPresent = true) : ¬ghost.Listed frame := by
  intro listed
  have absent := (consistent.buffered frame listed slot member).2.2.2.absent
  rw [present] at absent
  contradiction

/-- The frame of a page table is on neither list. -/
theorem table_not_listed (consistent : Consistent ghost view) {table : Table}
    (nonzero : view.table table ≠ 0) :
    ¬ghost.Listed (frameOf (view.table table)) := by
  intro listed
  rcases consistent.tableHeld table nonzero with ⟨page, held⟩
  rcases (consistent.buffered _ listed (.heap page) (by simp [held])).1 with
    ⟨env, userPage, equal⟩
  contradiction

theorem not_holders_of_idle (consistent : Consistent ghost view)
    (listed : ghost.Listed frame) (plain : (view.info frame).isBuffered = false)
    {slot : Slot} : slot ∉ ghost.holders frame := by
  rw [consistent.idle frame listed plain]
  exact Finset.notMem_empty slot

/-! ## Allocation and release -/

/-- An unbuffered frame leaves the free list. -/
theorem allocate (consistent : Consistent ghost view) (member : frame ∈ ghost.free)
    (plain : (view.info frame).isBuffered = false) :
    Consistent { ghost with free := ghost.free.erase frame } (view.allocate frame) where
  toHeapLayout := { consistent.toHeapLayout with }
  toPlacement := consistent.toPlacement.congr rfl fun _ _ => rfl
  toResidency := consistent.toResidency.congr rfl rfl rfl (fun _ _ => Iff.rfl)
    consistent.window (fun _ _ _ _ => ⟨rfl, rfl, rfl⟩) fun _ _ _ _ present => present
  lists := by
    have removed := consistent.lists.listRemove member
      (by have := consistent.freeRoom; omega)
    refine removed.update Link.null ?_ (consistent.lists.apart frame member)
    rw [consistent.lists.first.nodup.mem_erase_iff]
    simp
  listedManaged := by
    rintro other (inFree | inModified)
    · exact consistent.listedManaged other (.inl (List.mem_of_mem_erase inFree))
    · exact consistent.listedManaged other (.inr inModified)
  bounded := consistent.bounded
  anonymous := by
    intro other
    by_cases same : other = frame
    · simp [View.allocate, View.clearInfo, same]
    · simpa [View.allocate, View.clearInfo, View.withFree, same] using
        consistent.anonymous other
  holds := consistent.holds
  heldManaged := consistent.heldManaged
  counted := by
    intro other managed unlisted
    by_cases same : other = frame
    · simp [View.allocate, View.clearInfo, same,
        consistent.idle frame (.inl member) plain]
    · simp only [View.allocate, View.clearInfo, View.withFree,
        Function.update_of_ne same]
      exact consistent.counted other managed fun listed =>
        unlisted (listed.imp (List.mem_erase_of_ne same).mpr id)
  unbuffered := by
    intro other managed unlisted
    by_cases same : other = frame
    · simp [View.allocate, View.clearInfo, same]
    · simp only [View.allocate, View.clearInfo, View.withFree,
        Function.update_of_ne same]
      exact consistent.unbuffered other managed fun listed =>
        unlisted (listed.imp (List.mem_erase_of_ne same).mpr id)
  present := by
    intro other unlisted slot held
    by_cases same : other = frame
    · subst same
      exact absurd held (consistent.not_holders_of_idle (.inl member) plain)
    · exact consistent.present other (fun listed =>
        unlisted (listed.imp (List.mem_erase_of_ne same).mpr id)) slot held
  idle := by
    intro other listed unbuffered
    have before : ghost.Listed other := listed.imp List.mem_of_mem_erase id
    by_cases same : other = frame
    · subst same
      exact consistent.idle other (.inl member) plain
    · refine consistent.idle other before ?_
      simpa [View.allocate, View.clearInfo, View.withFree, same] using unbuffered
  buffered := by
    intro other listed slot held
    have before : ghost.Listed other := listed.imp List.mem_of_mem_erase id
    have different : other ≠ frame := by
      rintro rfl
      exact consistent.not_holders_of_idle (.inl member) plain held
    simpa [View.allocate, View.clearInfo, View.withFree, different] using
      consistent.buffered other before slot held
  modifiedBuffered := by
    intro other inModified
    have different : other ≠ frame := by
      rintro rfl
      exact consistent.lists.apart other member inModified
    simpa [View.allocate, View.clearInfo, View.withFree, different] using
      consistent.modifiedBuffered other inModified

/-- A frame nothing refers to holds no table and no resident page. -/
theorem table_frame_ne (consistent : Consistent ghost view)
    (free : ghost.holders frame = ∅) {table : Table} (nonzero : view.table table ≠ 0) :
    frameOf (view.table table) ≠ frame := by
  rintro rfl
  rcases consistent.tableHeld table nonzero with ⟨page, held⟩
  simp [held] at free

theorem tableManaged (consistent : Consistent ghost view) (table : Table)
    (nonzero : view.table table ≠ 0) : frameOf (view.table table) ∈ ghost.managed := by
  rcases consistent.tableHeld table nonzero with ⟨page, held⟩
  apply consistent.heldManaged
  rw [held]
  exact Finset.singleton_nonempty _

theorem resident_frame_ne (consistent : Consistent ghost view)
    (free : ghost.holders frame = ∅) {env page : Nat} (active : env ∈ ghost.active)
    (resident : view.Resident env page) :
    frameOf (view.entry (.user env page)) ≠ frame := by
  rintro rfl
  rcases resident with ⟨index, residentAt⟩
  have held := (consistent.resident env active index page residentAt).2.2
  simp [held] at free

/-! ## Counted entries -/

/-- A frame on neither list gets one more entry. -/
theorem attach (consistent : Consistent ghost view) (managed : frame ∈ ghost.managed)
    (unlisted : ¬ghost.Listed frame) {slot : Slot} {word : Word}
    (empty : view.entry slot = 0)
    (nonzero : word ≠ 0) (refers : frameOf word = frame)
    (present : hasPerm word permPresent = true)
    (few : (ghost.holders frame).card + 1 < 2 ^ 16)
    (noTable : ∀ table, view.table table ≠ 0 → frameOf (view.table table) ≠ frame)
    (noResident : ∀ env ∈ ghost.active, ∀ page, view.Resident env page →
      frameOf (view.entry (.user env page)) ≠ frame)
    (loose : ∀ (env page : Nat), slot = .user env page → env ∈ ghost.active →
      slot ∈ ghost.loose) :
    Consistent (ghost.attach frame slot) (view.attach frame slot word) := by
  have visible := consistent.visible_of_empty empty
  have idleSlot : view.target ghost.uncounted slot = none := by
    simp [View.target, empty]
  have notHeld : ∀ other, slot ∉ ghost.holders other := by
    intro other held
    exact (consistent.mem_holders.mp held).2.1 empty
  have entryOf : ∀ other, other ≠ slot →
      (view.attach frame slot word).entry other = view.entry other := by
    intro other different
    simp [View.attach, View.setEntry, View.addReferences, View.setInfo, different]
  have infoOf : ∀ other, other ≠ frame →
      (view.attach frame slot word).info other = view.info other := by
    intro other different
    simp [View.attach, View.setEntry, View.addReferences, View.setInfo, different]
  have ownInfo : (view.attach frame slot word).info frame =
      { view.info frame with
        references := ((view.info frame).references + 1) % 2 ^ 16 } := by
    simp [View.attach, View.setEntry, View.addReferences, View.setInfo]
  have ownEntry : (view.attach frame slot word).entry slot = word := by
    simp [View.attach, View.setEntry]
  exact
    { lists := consistent.lists
      listedManaged := consistent.listedManaged
      bounded := consistent.bounded
      anonymous := by
        intro other
        by_cases same : other = frame
        · rw [same, ownInfo]
          exact consistent.anonymous frame
        · rw [infoOf other same]
          exact consistent.anonymous other
      holds := by
        refine consistent.holds.attach idleSlot ?_ ?_
        · rw [View.target_eq_some, ownEntry]
          exact ⟨visible, nonzero, refers⟩
        · intro other different
          simp only [View.target, entryOf other different]
          rfl
      heldManaged := by
        intro other nonempty
        by_cases same : other = frame
        · rw [same]
          exact managed
        · rw [Ghost.attach_holders_of_ne same] at nonempty
          exact consistent.heldManaged other nonempty
      counted := by
        intro other otherManaged otherUnlisted
        by_cases same : other = frame
        · subst same
          rw [ownInfo, Ghost.attach_holders_self, consistent.holds.card_attach idleSlot,
            consistent.counted other otherManaged otherUnlisted]
          exact Nat.mod_eq_of_lt few
        · rw [infoOf other same, Ghost.attach_holders_of_ne same]
          exact consistent.counted other otherManaged otherUnlisted
      unbuffered := by
        intro other otherManaged otherUnlisted
        by_cases same : other = frame
        · subst same
          rw [ownInfo]
          exact consistent.unbuffered other otherManaged otherUnlisted
        · rw [infoOf other same]
          exact consistent.unbuffered other otherManaged otherUnlisted
      present := by
        intro other otherUnlisted someSlot held
        by_cases sameSlot : someSlot = slot
        · rw [sameSlot, ownEntry]
          exact present
        · rw [entryOf someSlot sameSlot]
          refine consistent.present other otherUnlisted someSlot ?_
          by_cases same : other = frame
          · subst same
            simpa [sameSlot] using held
          · simpa [Ghost.attach_holders_of_ne same] using held
      idle := by
        intro other listed plain
        have same : other ≠ frame := fun equal => unlisted (equal ▸ listed)
        rw [infoOf other same] at plain
        rw [Ghost.attach_holders_of_ne same]
        exact consistent.idle other listed plain
      buffered := by
        intro other listed someSlot held
        have same : other ≠ frame := fun equal => unlisted (equal ▸ listed)
        rw [Ghost.attach_holders_of_ne same] at held ⊢
        have sameSlot : someSlot ≠ slot := fun equal => notHeld other (equal ▸ held)
        rw [infoOf other same, entryOf someSlot sameSlot]
        exact consistent.buffered other listed someSlot held
      modifiedBuffered := by
        intro other inModified
        have same : other ≠ frame := fun equal => unlisted (equal ▸ .inr inModified)
        rw [infoOf other same]
        exact consistent.modifiedBuffered other inModified
      toHeapLayout := { consistent.toHeapLayout with }
      toPlacement := by
        refine consistent.toPlacement.congr rfl ?_
        intro table tableNonzero
        rw [Ghost.attach_holders_of_ne (noTable table tableNonzero)]
      toResidency := by
        have occupied : ∀ other, hasPerm (view.entry other) permPresent = true →
            (view.attach frame slot word).entry other = view.entry other := by
          intro other isPresent
          refine entryOf other ?_
          rintro rfl
          exact ne_zero_of_present isPresent empty
        refine consistent.toResidency.congr rfl rfl rfl (fun _ _ => Iff.rfl) ?_ ?_ ?_
        · intro other hidden
          have before := consistent.window other hidden
          rwa [occupied other before]
        · intro env active page resident
          rcases resident with ⟨index, residentAt⟩
          have isPresent := (consistent.resident env active index page residentAt).2.1
          rw [occupied _ isPresent, Ghost.attach_holders_of_ne
            (noResident env active page ⟨index, residentAt⟩)]
          exact ⟨rfl, rfl, rfl⟩
        · intro env page tight active isPresent
          have different : Slot.user env page ≠ slot := fun equal =>
            tight (equal ▸ loose env page equal.symm active)
          rwa [entryOf _ different] at isPresent }

/-- An entry is cleared and no longer counted. -/
theorem unlink (consistent : Consistent ghost view) {slot : Slot}
    (held : slot ∈ ghost.holders frame) (unlisted : ¬ghost.Listed frame)
    (noTable : ∀ table, view.table table ≠ 0 → frameOf (view.table table) ≠ frame)
    (notResident : ∀ (env page : Nat), slot = .user env page → env ∈ ghost.active →
      ¬view.Resident env page) :
    Consistent (ghost.detach slot)
      ((view.setInfo frame { view.info frame with
        references := (ghost.holders frame).card - 1 }).setEntry slot 0) := by
  have visible := (consistent.mem_holders.mp held).1
  have elsewhere : ∀ other, other ≠ frame → slot ∉ ghost.holders other := by
    intro other different member
    exact different (consistent.holds.unique member held)
  have holdersOf : ∀ other, other ≠ frame →
      (ghost.detach slot).holders other = ghost.holders other := fun other different =>
    Finset.erase_eq_of_notMem (elsewhere other different)
  have entryOf : ∀ other, other ≠ slot →
      ((view.setInfo frame { view.info frame with
        references := (ghost.holders frame).card - 1 }).setEntry slot 0).entry other =
          view.entry other := by
    intro other different
    simp [View.setEntry, View.setInfo, different]
  have infoOf : ∀ other, other ≠ frame →
      ((view.setInfo frame { view.info frame with
        references := (ghost.holders frame).card - 1 }).setEntry slot 0).info other =
          view.info other := by
    intro other different
    simp [View.setEntry, View.setInfo, different]
  exact
    { lists := consistent.lists
      listedManaged := consistent.listedManaged
      bounded := consistent.bounded
      anonymous := by
        intro other
        by_cases same : other = frame
        · simpa [View.setEntry, View.setInfo, same] using consistent.anonymous frame
        · rw [infoOf other same]
          exact consistent.anonymous other
      holds := by
        refine consistent.holds.detach ?_ ?_
        · simp [View.target, View.setEntry]
        · intro other different
          simp only [View.target, entryOf other different]
          rfl
      heldManaged := by
        intro other nonempty
        exact consistent.heldManaged other
          (nonempty.mono (Finset.erase_subset slot _))
      counted := by
        intro other otherManaged otherUnlisted
        by_cases same : other = frame
        · subst same
          simp [View.setEntry, View.setInfo, Ghost.detach, Finset.card_erase_of_mem held]
        · rw [infoOf other same, holdersOf other same]
          exact consistent.counted other otherManaged otherUnlisted
      unbuffered := by
        intro other otherManaged otherUnlisted
        by_cases same : other = frame
        · subst same
          simpa [View.setEntry, View.setInfo] using
            consistent.unbuffered other otherManaged otherUnlisted
        · rw [infoOf other same]
          exact consistent.unbuffered other otherManaged otherUnlisted
      present := by
        intro other otherUnlisted someSlot member
        rcases Finset.mem_erase.mp member with ⟨different, member⟩
        rw [entryOf someSlot different]
        exact consistent.present other otherUnlisted someSlot member
      idle := by
        intro other listed plain
        have same : other ≠ frame := fun equal => unlisted (equal ▸ listed)
        rw [infoOf other same] at plain
        rw [holdersOf other same]
        exact consistent.idle other listed plain
      buffered := by
        intro other listed someSlot member
        have same : other ≠ frame := fun equal => unlisted (equal ▸ listed)
        rw [holdersOf other same] at member ⊢
        have different : someSlot ≠ slot := by
          rintro rfl
          exact elsewhere other same member
        rw [infoOf other same, entryOf someSlot different]
        exact consistent.buffered other listed someSlot member
      modifiedBuffered := by
        intro other inModified
        have same : other ≠ frame := fun equal => unlisted (equal ▸ .inr inModified)
        rw [infoOf other same]
        exact consistent.modifiedBuffered other inModified
      toHeapLayout := { consistent.toHeapLayout with }
      toPlacement := by
        refine consistent.toPlacement.congr rfl ?_
        intro table nonzero
        exact holdersOf _ (noTable table nonzero)
      toResidency := by
        refine consistent.toResidency.congr rfl rfl rfl (fun _ _ => Iff.rfl) ?_ ?_ ?_
        · intro other hidden
          rw [entryOf other fun equal => visible (equal ▸ hidden)]
          exact consistent.window other hidden
        · intro env active page resident
          have different : Slot.user env page ≠ slot := fun equal =>
            notResident env page equal.symm active resident
          rcases resident with ⟨index, residentAt⟩
          have single := (consistent.resident env active index page residentAt).2.2
          rw [entryOf (.user env page) different]
          refine ⟨rfl, rfl, holdersOf _ ?_⟩
          intro equal
          rw [equal] at single
          rw [single, Finset.mem_singleton] at held
          exact different held.symm
        · intro env page _ _ isPresent
          have different : Slot.user env page ≠ slot := by
            rintro rfl
            simp [View.setEntry] at isPresent
          rwa [entryOf _ different] at isPresent }

/-- A frame that nothing refers to goes back to the free list. -/
theorem release (consistent : Consistent ghost view) (managed : frame ∈ ghost.managed)
    (unlisted : ¬ghost.Listed frame) (unheld : ghost.holders frame = ∅) :
    Consistent { ghost with free := frame :: ghost.free } (view.release frame) := by
  have notFree : frame ∉ ghost.free := fun member => unlisted (.inl member)
  have notModified : frame ∉ ghost.modified := fun member => unlisted (.inr member)
  have listedOf : ∀ other, other ≠ frame →
      (({ ghost with free := frame :: ghost.free } : Ghost).Listed other ↔
        ghost.Listed other) := by
    intro other different
    simp [Ghost.Listed, different]
  have infoOf : ∀ other, other ≠ frame →
      (view.release frame).info other = view.info other := by
    intro other different
    simp [View.release, View.clearInfo, View.withFree, different]
  have ownInfo : (view.release frame).info frame = FrameInfo.zero := by
    simp [View.release, View.clearInfo, View.withFree]
  exact
    { lists := (consistent.lists.update Link.null notFree notModified).listInsertHead
        notFree notModified consistent.freeRoom
      listedManaged := by
        intro other listed
        by_cases same : other = frame
        · rw [same]
          exact managed
        · exact consistent.listedManaged other ((listedOf other same).mp listed)
      bounded := consistent.bounded
      anonymous := by
        intro other
        by_cases same : other = frame
        · rw [same, ownInfo]
        · rw [infoOf other same]
          exact consistent.anonymous other
      holds := consistent.holds
      heldManaged := consistent.heldManaged
      counted := by
        intro other otherManaged otherUnlisted
        have same : other ≠ frame := by
          rintro rfl
          exact otherUnlisted (.inl (by simp))
        rw [infoOf other same]
        exact consistent.counted other otherManaged fun listed =>
          otherUnlisted ((listedOf other same).mpr listed)
      unbuffered := by
        intro other otherManaged otherUnlisted
        have same : other ≠ frame := by
          rintro rfl
          exact otherUnlisted (.inl (by simp))
        rw [infoOf other same]
        exact consistent.unbuffered other otherManaged fun listed =>
          otherUnlisted ((listedOf other same).mpr listed)
      present := by
        intro other otherUnlisted
        refine consistent.present other fun listed => otherUnlisted ?_
        exact listed.imp (List.mem_cons_of_mem frame) id
      idle := by
        intro other listed plain
        by_cases same : other = frame
        · rw [same]
          exact unheld
        · rw [infoOf other same] at plain
          exact consistent.idle other ((listedOf other same).mp listed) plain
      buffered := by
        intro other listed slot held
        have same : other ≠ frame := by
          rintro rfl
          simp [unheld] at held
        rw [infoOf other same]
        exact consistent.buffered other ((listedOf other same).mp listed) slot held
      modifiedBuffered := by
        intro other inModified
        have same : other ≠ frame := fun equal => notModified (equal ▸ inModified)
        rw [infoOf other same]
        exact consistent.modifiedBuffered other inModified
      toHeapLayout := { consistent.toHeapLayout with }
      toPlacement := consistent.toPlacement.congr rfl fun _ _ => rfl
      toResidency := consistent.toResidency.congr rfl rfl rfl (fun _ _ => Iff.rfl)
        consistent.window (fun _ _ _ _ => ⟨rfl, rfl, rfl⟩) fun _ _ _ _ present => present }

/-- Clearing an entry; the frame is released with its last one. -/
theorem detach (consistent : Consistent ghost view) {slot : Slot}
    (held : slot ∈ ghost.holders frame) (unlisted : ¬ghost.Listed frame)
    (few : (ghost.holders frame).card < 2 ^ 16)
    (noTable : ∀ table, view.table table ≠ 0 → frameOf (view.table table) ≠ frame)
    (notResident : ∀ (env page : Nat), slot = .user env page → env ∈ ghost.active →
      ¬view.Resident env page) :
    Consistent (ghost.unmap frame slot) (view.detach frame slot) := by
  have managed := consistent.heldManaged frame ⟨slot, held⟩
  have unlinked := consistent.unlink held unlisted noTable notResident
  have positive : 0 < (ghost.holders frame).card := Finset.card_pos.mpr ⟨slot, held⟩
  have remaining : ((view.info frame).references + (2 ^ 16 - 1)) % 2 ^ 16 =
      (ghost.holders frame).card - 1 := by
    rw [consistent.counted frame managed unlisted]
    omega
  by_cases last : ghost.holders frame = {slot}
  · have unheld : (ghost.detach slot).holders frame = ∅ := by
      simp [Ghost.detach, last]
    have released := unlinked.release managed unlisted unheld
    have same : view.detach frame slot =
        ((view.setInfo frame { view.info frame with
          references := (ghost.holders frame).card - 1 }).setEntry slot 0).release
            frame := by
      have none : (ghost.holders frame).card - 1 = 0 := by simp [last]
      simp only [View.detach, View.decrement, View.addReferences, View.setInfo,
        Function.update_self, remaining, none, if_true]
      rfl
    rw [same, Ghost.unmap, if_pos last]
    exact released
  · have more : ¬(ghost.holders frame).card - 1 = 0 := by
      intro none
      have one : (ghost.holders frame).card = 1 := by omega
      rcases Finset.card_eq_one.mp one with ⟨only, single⟩
      rw [single, Finset.mem_singleton] at held
      exact last (held ▸ single)
    have same : view.detach frame slot =
        (view.setInfo frame { view.info frame with
          references := (ghost.holders frame).card - 1 }).setEntry slot 0 := by
      simp only [View.detach, View.decrement, View.addReferences, View.setInfo,
        Function.update_self, remaining, more, if_false]
    rw [same, Ghost.unmap, if_neg last]
    exact unlinked

end Consistent

end FosKernel
