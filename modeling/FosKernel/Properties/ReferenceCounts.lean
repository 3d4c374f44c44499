import FosKernel.Refinement.Boot
import FosKernel.Refinement.Mapping
import FosKernel.System
import Mathlib.Data.Set.Card

/-! # Exact reference counts

Runs of `allocate_frame`, `map_frame`, `unmap_frame`, `kmalloc` and `kfree` from boot on.
The entries that count are those of user pages, in any directory, and of kernel heap
pages. The permanent mapping of physical memory at `KERNEL_BASE` is not counted.
-/

namespace FosKernel.ReferenceCounts

/-- The entries of user pages and kernel heap pages that hold the address of a frame. -/
def entriesOf (state : State) (frame : Nat) : Set Slot :=
  { slot | state.slotEntry slot ≠ 0 ∧ frameOf (state.slotEntry slot) = frame }

def OnFreeList (state : State) (frame : Nat) : Prop :=
  OnList state.frameLinks state.freeFrameList frame

/-- Reference counts agree with the entries, and no frame on the free list has one. -/
structure Exact (booted state : State) : Prop where
  references : ∀ frame, OnFreeList booted frame →
    (entriesOf state frame).encard = (state.framesInfo frame).references
  idle : ∀ frame, OnFreeList state frame → entriesOf state frame = ∅

/-- The frames that come to the free list are those that lose their last entry. -/
def FreedWithLastEntry (booted before after : State) : Prop :=
  ∀ frame, OnFreeList booted frame →
    (¬OnFreeList before frame ∧ OnFreeList after frame ↔
      (entriesOf before frame).Nonempty ∧ entriesOf after frame = ∅)

/-- The kernel finds every page table of user pages through `kheap_virtual_address`. -/
def LookupSucceeds (state : State) : Prop :=
  ∀ directory address, address < userTop →
    hasPerm (directoryEntry state directory address) permPresent = true →
    ∃ pointer, tablePointer state directory address = .ok pointer ∧ pointer ≠ .null

inductive FrameCall
  | allocateFrame
  | mapFrame (directory : Directory) (frame address : Nat) (perm : Word)
  | unmapFrame (directory : Directory) (address : Nat)
  | kmalloc (size : Nat)
  | kfree (address : Nat)

/-- The frame that `allocate_frame` returns; the other calls return none. -/
def FrameCall.run : FrameCall → Kernel (Option Nat)
  | .allocateFrame => do return some (← FosKernel.allocateFrame)
  | .mapFrame directory frame address perm => do
      FosKernel.mapFrame directory frame address perm
      return none
  | .unmapFrame directory address => do
      FosKernel.unmapFrame directory address
      return none
  | .kmalloc size => do
      let _ ← FosKernel.kmalloc size
      return none
  | .kfree address => do
      FosKernel.kfree address
      return none

/-- A user page of any directory, or a page of the kernel heap. -/
def Covered (directory : Directory) (address : Nat) : Prop :=
  address < userTop ∨
    directory = .kernel ∧ kernelHeapStart ≤ address ∧ address < kernelHeapMax

/-- `map_frame` gets frames that `allocate_frame` returned and that were not given back
since, and no frame more than 65535 times. -/
def FrameCall.Admitted (state : State) (obtained : Nat → Prop) : FrameCall → Prop
  | .allocateFrame => True
  | .mapFrame directory frame address perm =>
      obtained frame ∧ (state.framesInfo frame).references < 65535 ∧ Low perm ∧
        Covered directory address
  | .unmapFrame directory address => Covered directory address
  | .kmalloc size => Request size
  | .kfree _ => True

/-- The states that these calls lead to, with the frames obtained from `allocate_frame`
that are not free again. -/
inductive Run (booted : State) : State → (Nat → Prop) → Prop
  | boot : Run booted booted fun _ => False
  | call {state final : State} {obtained : Nat → Prop} {call : FrameCall}
      {result : Option Nat} :
      Run booted state obtained → call.Admitted state obtained →
      call.run state = .ok (result, final) → LookupSucceeds final →
      Run booted final fun frame =>
        (obtained frame ∨ result = some frame) ∧ ¬OnFreeList final frame

/-! ## Memory without buffered pages -/

structure Settled (ghost : Ghost) (view : View) : Prop where
  consistent : Consistent ghost view
  counted : ghost.uncounted = ∅
  inactive : ghost.active = ∅
  unmodified : ghost.modified = []
  few : ∀ frame, (ghost.holders frame).card < 2 ^ 16
  blank : ∀ frame ∈ ghost.free, view.info frame = FrameInfo.zero
  noDisk : ∀ env index, view.table (.disk env index) = 0

section Settled

variable {ghost after : Ghost} {view final : View} {frame : Nat} {slot : Slot} {word : Word}

theorem Settled.listed (settled : Settled ghost view) :
    ghost.Listed frame ↔ frame ∈ ghost.free := by
  simp [Ghost.Listed, settled.unmodified]

theorem Settled.idle (settled : Settled ghost view) (listed : ghost.Listed frame) :
    ghost.holders frame = ∅ := by
  refine settled.consistent.idle frame listed ?_
  rw [settled.blank frame (settled.listed.mp listed)]

theorem Settled.mem_holders (settled : Settled ghost view) :
    slot ∈ ghost.holders frame ↔ view.entry slot ≠ 0 ∧ frameOf (view.entry slot) = frame := by
  rw [settled.consistent.mem_holders, settled.counted]
  simp

theorem Settled.unlisted (settled : Settled ghost view) (held : slot ∈ ghost.holders frame) :
    ¬ghost.Listed frame := by
  intro listed
  simp [settled.idle listed] at held

theorem Settled.present (settled : Settled ghost view) (mapped : view.entry slot ≠ 0) :
    hasPerm (view.entry slot) permPresent = true := by
  have held := settled.mem_holders.mpr ⟨mapped, rfl⟩
  exact settled.consistent.present _ (settled.unlisted held) slot held

theorem Settled.references (settled : Settled ghost view) (managed : frame ∈ ghost.managed) :
    (view.info frame).references = (ghost.holders frame).card := by
  by_cases listed : ghost.Listed frame
  · rw [settled.blank frame (settled.listed.mp listed), settled.idle listed]
    rfl
  · exact settled.consistent.counted frame managed listed

/-- What a call other than `allocate_frame` does. -/
structure Stage (ghost : Ghost) (view : View) (after : Ghost) (final : View) : Prop where
  settled : Settled after final
  managed : after.managed = ghost.managed
  back : GivesBack ghost view after final
  tables : ∀ table, final.table table ≠ 0 →
    view.table table = final.table table ∨ ghost.Listed (frameOf (final.table table))

theorem Stage.refl (settled : Settled ghost view) : Stage ghost view ghost view where
  settled := settled
  managed := rfl
  back := .refl
  tables _ _ := .inl rfl

/-- A frame without a table gets one more entry. -/
theorem Stage.attach (stage : Stage ghost view after final) {perm : Word}
    (managed : frame ∈ after.managed) (unlisted : ¬after.Listed frame)
    (noTable : ∀ table, final.table table ≠ 0 → frameOf (final.table table) ≠ frame)
    (empty : final.entry slot = 0) (low : Low perm)
    (few : (after.holders frame).card + 1 < 2 ^ 16) :
    Stage ghost view (after.attach frame slot)
      (final.attach frame slot (mapWord frame perm)) := by
  have settled := stage.settled
  have bound := settled.consistent.bounded frame managed
  have present := present_mapWord frame perm
  have consistent := settled.consistent.attach managed unlisted empty
    (ne_zero_of_present present) (frameOf_mapWord bound low) present few noTable
    (by simp [settled.inactive]) (by simp [settled.inactive])
  exact
    { settled :=
        { consistent := consistent
          counted := settled.counted
          inactive := settled.inactive
          unmodified := settled.unmodified
          few := by
            intro other
            by_cases same : other = frame
            · subst same
              rw [Ghost.attach_holders_self]
              exact Nat.lt_of_le_of_lt (Finset.card_insert_le _ _) few
            · rw [Ghost.attach_holders_of_ne same]
              exact settled.few other
          blank := by
            intro other member
            have different : other ≠ frame := by
              rintro rfl
              exact unlisted (.inl member)
            simpa [View.attach, View.setEntry, View.addReferences, View.setInfo, different]
              using settled.blank other member
          noDisk := settled.noDisk }
      managed := stage.managed
      back := stage.back.attach unlisted
      tables := stage.tables }

/-- An entry is cleared. -/
theorem Settled.unmap (settled : Settled ghost view) (held : slot ∈ ghost.holders frame)
    (noTable : ∀ table, view.table table ≠ 0 → frameOf (view.table table) ≠ frame) :
    Stage ghost view (ghost.unmap frame slot) (view.detach frame slot) := by
  have back := GivesBack.ofUnmap settled.consistent held (settled.unlisted held)
  exact
    { settled :=
        { consistent := settled.consistent.detach held (settled.unlisted held)
            (settled.few frame) noTable (by simp [settled.inactive])
          counted := settled.counted
          inactive := settled.inactive
          unmodified := settled.unmodified
          few := fun other =>
            Nat.lt_of_le_of_lt (Finset.card_le_card (Finset.erase_subset _ _))
              (settled.few other)
          blank := back.blank settled.blank
          noDisk := by
            rw [View.detach_table]
            exact settled.noDisk }
      managed := rfl
      back := back
      tables := by
        rw [View.detach_table]
        exact fun _ _ => .inl rfl }

theorem Settled.grow (settled : Settled ghost view) {pages : List Nat}
    (growth : HeapGrowth ghost view pages after final) : Stage ghost view after final := by
  have listed : ∀ frame, after.Listed frame → ghost.Listed frame := by
    rintro frame (inFree | inModified)
    · exact .inl (growth.subset frame inFree)
    · exact .inr (growth.modified ▸ inModified)
  have blank : (∀ frame ∈ ghost.free, view.info frame = FrameInfo.zero) →
      ∀ frame ∈ after.free, final.info frame = FrameInfo.zero := by
    intro cleared frame member
    rw [(growth.kept frame (.inr member)).1]
    exact cleared frame (growth.subset frame member)
  exact
    { settled :=
        { consistent := growth.consistent
          counted := growth.uncounted.trans settled.counted
          inactive := growth.active.trans settled.inactive
          unmodified := growth.modified.trans settled.unmodified
          few := by
            intro frame
            by_cases kept : frame ∉ ghost.free ∨ frame ∈ after.free
            · rw [(growth.kept frame kept).2]
              exact settled.few frame
            · push Not at kept
              rcases growth.taken frame kept.1 kept.2 with ⟨page, -, handed⟩
              rw [handed.held, Finset.card_singleton]
              decide
          blank := blank settled.blank
          noDisk := by
            rw [growth.table]
            exact settled.noDisk }
      managed := growth.managed
      back :=
        { freed := by
            intro frame unheld before
            by_cases kept : frame ∉ ghost.free ∨ frame ∈ after.free
            · rw [(growth.kept frame kept).2] at unheld
              have before : ghost.Listed frame := before.elim (absurd unheld) id
              rcases kept with notFree | inFree
              · exact absurd (settled.listed.mp before) notFree
              · exact .inl inFree
            · push Not at kept
              rcases growth.taken frame kept.1 kept.2 with ⟨page, -, handed⟩
              simp [handed.held] at unheld
          held := fun frame now => .inl (listed frame now)
          blank := blank }
      tables := by
        rw [growth.table]
        exact fun _ _ => .inl rfl }

theorem Settled.shrink (settled : Settled ghost view) {pages : List Nat}
    (shrink : HeapShrink ghost view pages after final) : Stage ghost view after final where
  settled :=
    { consistent := shrink.consistent
      counted := shrink.uncounted.trans settled.counted
      inactive := shrink.active.trans settled.inactive
      unmodified := shrink.modified.trans settled.unmodified
      few := fun frame =>
        Nat.lt_of_le_of_lt (Finset.card_le_card (shrink.subset frame)) (settled.few frame)
      blank := shrink.back.blank settled.blank
      noDisk := by
        rw [shrink.table]
        exact settled.noDisk }
  managed := shrink.managed
  back := shrink.back
  tables := by
    rw [shrink.table]
    exact fun _ _ => .inl rfl

theorem Settled.allocate (settled : Settled ghost view) (member : frame ∈ ghost.free) :
    Settled { ghost with free := ghost.free.erase frame } (view.allocate frame) where
  consistent := settled.consistent.allocate member (by rw [settled.blank frame member])
  counted := settled.counted
  inactive := settled.inactive
  unmodified := settled.unmodified
  few := settled.few
  blank := by
    intro other inFree
    rw [settled.consistent.lists.first.nodup.mem_erase_iff] at inFree
    simpa [View.allocate, View.clearInfo, View.withFree, inFree.1] using
      settled.blank other inFree.2
  noDisk := settled.noDisk

/-- A page gets a frame, whatever it had before. -/
theorem Settled.map (settled : Settled ghost view) {perm : Word}
    (mapping : PageMapping view slot frame (mapWord frame perm) final)
    (managed : frame ∈ ghost.managed) (unlisted : ¬ghost.Listed frame)
    (noTable : ∀ table, view.table table ≠ 0 → frameOf (view.table table) ≠ frame)
    (low : Low perm) (few : (view.info frame).references < 65535)
    (oldNoTable : view.entry slot ≠ 0 → frameOf (view.entry slot) ≠ frame →
      ∀ table, view.table table ≠ 0 →
        frameOf (view.table table) ≠ frameOf (view.entry slot)) :
    ∃ after, Stage ghost view after final := by
  rw [settled.references managed] at few
  cases mapping with
  | same => exact ⟨ghost, .refl settled⟩
  | new absent =>
      have empty : view.entry slot = 0 := by
        by_contra mapped
        rw [settled.present mapped] at absent
        contradiction
      exact ⟨_, (Stage.refl settled).attach managed unlisted noTable empty low (by omega)⟩
  | replaced present different =>
      have mapped := ne_zero_of_present present
      have held := settled.mem_holders.mpr ⟨mapped, rfl⟩
      have unmapped := settled.unmap held (oldNoTable mapped different)
      have notHeld : slot ∉ ghost.holders frame := fun member =>
        different (settled.mem_holders.mp member).2
      refine ⟨_, unmapped.attach managed ?_ ?_ (by simp [View.detach, View.setEntry]) low ?_⟩
      · simp only [Ghost.unmap]
        split
        · simpa [Ghost.Listed, Ghost.detach, Ne.symm different] using unlisted
        · exact unlisted
      · rw [View.detach_table]
        exact noTable
      · have same : (ghost.unmap (frameOf (view.entry slot)) slot).holders frame =
            ghost.holders frame := Finset.erase_eq_of_notMem notHeld
        rw [same]
        omega

/-- A user page never has the frame of a page table. -/
theorem Settled.user_noTable (settled : Settled ghost view) {owner : Directory} {page : Nat}
    (mapped : view.entry (.user owner page) ≠ 0) :
    ∀ table, view.table table ≠ 0 →
      frameOf (view.table table) ≠ frameOf (view.entry (.user owner page)) := by
  intro table nonzero equal
  rcases settled.consistent.tableHeld table nonzero with ⟨heapPage, held⟩
  have member := settled.mem_holders.mpr ⟨mapped, equal.symm⟩
  rw [held, Finset.mem_singleton] at member
  contradiction

end Settled

/-! ## Lookup keeps the pages of tables -/

section Lookup

variable {ghost : Ghost} {state final : State}

/-- A page table that is found has a heap page. -/
theorem LookupSucceeds.heapPage (lookup : LookupSucceeds state)
    (layout : HeapLayout state.view) {owner : Directory} {index : Nat}
    (user : index < pdx userTop)
    (present : hasPerm (state.pageDirectory owner index) permPresent = true) :
    ∃ page, state.view.entry (.heap page) ≠ 0 ∧
      frameOf (state.view.entry (.heap page)) = frameOf (state.pageDirectory owner index) := by
  have below : index * 1024 * 4096 < userTop := by
    simp only [pdx, ppn, userTop] at user ⊢
    omega
  have position : pdx (index * 1024 * 4096) = index := by
    simp only [pdx, ppn]
    omega
  rcases lookup owner (index * 1024 * 4096) below (by rwa [directoryEntry, position]) with
    ⟨pointer, located, nonnull⟩
  unfold tablePointer at located
  rw [if_neg (not_le.mpr below)] at located
  rcases Except.bind_ok.mp located with ⟨found, translated, ended⟩
  simp only [pure, Except.pure, Except.ok.injEq] at ended
  rcases kheapVirtualAddress_ok layout translated with zero | ⟨heap, -, mapped, refers⟩
  · rw [zero] at ended
    exact absurd ended.symm nonnull
  · have entry : state.view.entry (.heap (ppn found)) = state.bootTables (ppn found) :=
      heap.slotEntry
    rw [position] at refers
    exact ⟨ppn found, by rwa [entry], by rwa [entry]⟩

/-- A heap page that has lost its frame was not the page of a table, as long as all
tables are found afterwards. -/
theorem Settled.heap_noTable (settled : Settled ghost state.view)
    (lookup : LookupSucceeds final) (layout : HeapLayout final.view)
    (directory : final.pageDirectory = state.pageDirectory) {page : Nat}
    (mapped : state.view.entry (.heap page) ≠ 0)
    (gone : ∀ other, final.view.entry (.heap other) ≠ 0 →
      frameOf (final.view.entry (.heap other)) = frameOf (state.view.entry (.heap page)) →
      other ≠ page ∧ state.view.entry (.heap other) = final.view.entry (.heap other)) :
    ∀ table, state.view.table table ≠ 0 →
      frameOf (state.view.table table) ≠ frameOf (state.view.entry (.heap page)) := by
  intro table nonzero equal
  cases table with
  | disk env index => exact nonzero (settled.noDisk env index)
  | page owner index =>
      have user : index < pdx userTop := by
        by_contra outside
        simp [State.view, State.tableEntry, outside] at nonzero
      have present := settled.consistent.tablePresent _ nonzero
      rcases settled.consistent.tableHeld _ nonzero with ⟨heapPage, held⟩
      rw [tableEntry_page user] at present equal held
      rcases lookup.heapPage layout user (by rw [directory]; exact present) with
        ⟨other, otherMapped, refers⟩
      rw [directory, equal] at refers
      rcases gone other otherMapped refers with ⟨different, same⟩
      rw [← same] at otherMapped refers
      have ownHeld := settled.mem_holders.mpr ⟨mapped, rfl⟩
      have otherHeld := settled.mem_holders.mpr ⟨otherMapped, refers⟩
      rw [← equal, held, Finset.mem_singleton] at ownHeld otherHeld
      exact different (Slot.heap.inj (otherHeld.trans ownHeld.symm))

end Lookup

/-! ## The calls -/

section Calls

variable {ghost : Ghost} {state final : State} {obtained : Nat → Prop}
variable {directory : Directory} {frame address : Nat} {perm : Word}

/-- A frame that may be mapped. -/
structure Mappable (ghost : Ghost) (view : View) (frame : Nat) : Prop where
  managed : frame ∈ ghost.managed
  unlisted : ¬ghost.Listed frame
  noTable : ∀ table, view.table table ≠ 0 → frameOf (view.table table) ≠ frame

structure Sound (ghost : Ghost) (state : State) (obtained : Nat → Prop) : Prop where
  settled : Settled ghost state.view
  records : HeapRecords state
  mappable : ∀ frame, obtained frame → Mappable ghost state.view frame

theorem heapAddress_roundDown (lower : kernelHeapStart ≤ address)
    (upper : address < kernelHeapMax) : HeapAddress (roundDown address) := by
  simp only [kernelHeapStart, kernelHeapMax] at lower upper
  refine ⟨?_, ?_, ?_⟩ <;> simp only [kernelHeapStart, kernelHeapMax, roundDown] <;> omega

theorem Stage.ofNewTable {pointer : TablePointer} {after : Ghost}
    (settled : Settled ghost state.view)
    (new : NewTable ghost state directory address pointer after final) :
    Stage ghost state.view after final.view ∧
      ∀ frame, Mappable ghost state.view frame → Mappable after final.view frame ∧
        after.holders frame = ghost.holders frame := by
  rcases new.growth with ⟨tableFrame, page, between, growth, handed, same⟩
  have grown := settled.grow growth
  have bound := settled.consistent.bounded tableFrame
    (settled.consistent.listedManaged tableFrame (.inl handed.free))
  have tables : ∀ table, final.view.table table ≠ 0 →
      state.view.table table = final.view.table table ∨
        frameOf (final.view.table table) = tableFrame := by
    intro table nonzero
    by_cases own : table = .page directory (pdx address)
    · right
      rw [same, own]
      simp [View.setTable, frameOf_tableWord bound]
    · exact .inl (new.otherTables table own).symm
  refine ⟨?_, ?_⟩
  · exact
      { settled :=
          { consistent := new.background.evolves.consistent
            counted := grown.settled.counted
            inactive := grown.settled.inactive
            unmodified := grown.settled.unmodified
            few := grown.settled.few
            blank := by
              rw [same]
              exact grown.settled.blank
            noDisk := by
              rw [same]
              intro env index
              simpa [View.setTable] using grown.settled.noDisk env index }
        managed := grown.managed
        back := by
          rw [same]
          exact { grown.back with }
        tables := by
          intro table nonzero
          rcases tables table nonzero with kept | made
          · exact .inl kept
          · exact .inr (made ▸ .inl handed.free) }
  · intro frame mappable
    have notFree : frame ∉ ghost.free := fun member => mappable.unlisted (.inl member)
    refine ⟨⟨?_, ?_, ?_⟩, (growth.kept frame (.inl notFree)).2⟩
    · rw [grown.managed]
      exact mappable.managed
    · rintro (inFree | inModified)
      · exact notFree (growth.subset frame inFree)
      · exact mappable.unlisted (.inr (growth.modified ▸ inModified))
    · intro table nonzero equal
      rcases tables table nonzero with kept | made
      · rw [← kept] at nonzero equal
        exact mappable.noTable table nonzero equal
      · rw [made] at equal
        exact notFree (equal ▸ handed.free)

/-- `map_frame` on a user page, after a page table has been made if necessary. -/
theorem Settled.mapFrame_user (settled : Settled ghost state.view) (records : HeapRecords state)
    (mappable : Mappable ghost state.view frame) (user : address < userTop) (low : Low perm)
    (few : (state.framesInfo frame).references < 65535)
    (returned : mapFrame directory frame address perm state = .ok ((), final)) :
    ∃ after, Stage ghost state.view after final.view ∧ HeapRecords final := by
  rcases FosKernel.mapFrame_user settled.consistent user returned with
    ⟨present, mapping⟩ | ⟨zero, pointer, after, middle, new, rfl⟩
  · have pageMapping := mapping.pageMapping settled.consistent.toPlacement user present
    rcases settled.map pageMapping mappable.managed mappable.unlisted mappable.noTable low few
      (fun mapped _ => settled.user_noTable mapped) with ⟨after, stage⟩
    refine ⟨after, stage, ?_⟩
    cases mapping with
    | same => exact records
    | new => exact records
    | replaced =>
        refine records.congr ?_ ?_
        · rw [State.mapUser, State.unmapUser, State.decrement_eq]
          rfl
        · rw [State.mapUser, State.unmapUser, State.decrement_eq]
          rfl
  · rcases Stage.ofNewTable settled new with ⟨stage, kept⟩
    rcases kept frame mappable with ⟨mappableNow, holders⟩
    have empty : middle.view.entry (.user directory (ppn address)) = 0 := by
      rw [new.background.userEntry]
      exact entry_user_absent zero
    have count := settled.references mappable.managed
    refine ⟨after.attach frame (.user directory (ppn address)), ?_, new.records records⟩
    rw [State.view_mapUser stage.settled.consistent.toPlacement user new.present]
    refine stage.attach mappableNow.managed mappableNow.unlisted mappableNow.noTable empty low ?_
    rw [holders, ← count]
    change (state.framesInfo frame).references + 1 < 2 ^ 16
    omega

/-- `map_frame` on a page of the kernel heap. -/
theorem Settled.mapFrame_heap (settled : Settled ghost state.view) (records : HeapRecords state)
    (mappable : Mappable ghost state.view frame) (heap : HeapAddress address) (low : Low perm)
    (few : (state.framesInfo frame).references < 65535)
    (returned : mapFrame .kernel frame address perm state = .ok ((), final))
    (lookup : LookupSucceeds final) :
    ∃ after, Stage ghost state.view after final.view ∧ HeapRecords final := by
  rcases FosKernel.mapFrame_heap settled.consistent.toHeapLayout heap returned with
    ⟨mapping, only⟩
  have directory : final.pageDirectory = state.pageDirectory := by
    rcases only with ⟨_, _, _, _, rfl⟩
    rfl
  have bound := settled.consistent.bounded frame mappable.managed
  have oldNoTable : state.view.entry (.heap (ppn address)) ≠ 0 →
      frameOf (state.view.entry (.heap (ppn address))) ≠ frame →
      ∀ table, state.view.table table ≠ 0 →
        frameOf (state.view.table table) ≠
          frameOf (state.view.entry (.heap (ppn address))) := by
    intro mapped different
    refine settled.heap_noTable lookup (only.layout settled.consistent.toHeapLayout) directory
      mapped ?_
    intro other otherMapped refers
    have entries : final.view.entry (.heap (ppn address)) = mapWord frame perm ∧
        ∀ page, page ≠ ppn address →
          final.view.entry (.heap page) = state.view.entry (.heap page) := by
      generalize final.view = finalView at mapping
      cases mapping with
      | same present equal => exact absurd equal different
      | new absent =>
          rw [settled.present mapped] at absent
          contradiction
      | replaced present _ =>
          refine ⟨by simp [View.attach, View.setEntry], fun page outside => ?_⟩
          have slotNe : Slot.heap page ≠ .heap (ppn address) := fun equal =>
            outside (Slot.heap.inj equal)
          rw [View.attach_entry slotNe, View.detach_entry slotNe]
    by_cases own : other = ppn address
    · rw [own, entries.1, frameOf_mapWord bound low] at refers
      exact absurd refers.symm different
    · exact ⟨own, (entries.2 other own).symm⟩
  rcases settled.map mapping mappable.managed mappable.unlisted mappable.noTable low few
    oldNoTable with ⟨after, stage⟩
  refine ⟨after, stage, ?_⟩
  rcases only with ⟨_, _, _, _, rfl⟩
  exact records

theorem Settled.unmapFrame_user (settled : Settled ghost state.view)
    (records : HeapRecords state) (user : address < userTop)
    (returned : unmapFrame directory address state = .ok ((), final)) :
    ∃ after, Stage ghost state.view after final.view ∧ HeapRecords final := by
  rcases FosKernel.unmapFrame_user settled.consistent.toHeapLayout user returned with
    ⟨rfl, -⟩ | ⟨present, mapped, rfl⟩
  · exact ⟨ghost, .refl settled, records⟩
  · have held := settled.mem_holders.mpr ⟨mapped, rfl⟩
    refine ⟨ghost.unmap (frameOf (state.view.entry (.user directory (ppn address))))
      (.user directory (ppn address)), ?_, ?_⟩
    · rw [State.view_unmapUser settled.consistent.toPlacement user present]
      exact settled.unmap held (settled.user_noTable mapped)
    · refine records.congr ?_ ?_ <;>
        rw [State.unmapUser, State.decrement_eq] <;> rfl

theorem Settled.unmapFrame_heap (settled : Settled ghost state.view)
    (records : HeapRecords state) (heap : HeapAddress address)
    (returned : unmapFrame .kernel address state = .ok ((), final))
    (lookup : LookupSucceeds final) :
    ∃ after, Stage ghost state.view after final.view ∧ HeapRecords final := by
  rcases FosKernel.unmapFrame_heap settled.consistent.toHeapLayout heap returned with
    ⟨-, rfl⟩ | ⟨mapped, rfl⟩
  · exact ⟨ghost, .refl settled, records⟩
  · have page := heapAddress_page heap
    have view : (state.unmapHeap (frameOf (state.view.entry (.heap (ppn address))))
        address).view = state.view.detach (frameOf (state.view.entry (.heap (ppn address))))
          (.heap (ppn address)) := by
      rw [State.unmapHeap, State.view_setBootEntry page.1 page.2, State.view_decrement]
      rfl
    have only : MapOnly state
        (state.unmapHeap (frameOf (state.view.entry (.heap (ppn address)))) address) := by
      rw [State.unmapHeap, State.decrement_eq]
      exact ⟨_, _, _, _, rfl⟩
    have held := settled.mem_holders.mpr ⟨mapped, rfl⟩
    refine ⟨ghost.unmap (frameOf (state.view.entry (.heap (ppn address))))
      (.heap (ppn address)), ?_, ?_⟩
    · rw [view]
      refine settled.unmap held (settled.heap_noTable lookup
        (only.layout settled.consistent.toHeapLayout) ?_ mapped ?_)
      · rw [State.unmapHeap, State.decrement_eq]
        rfl
      · intro other otherMapped _
        have different : other ≠ ppn address := by
          rintro rfl
          rw [view] at otherMapped
          simp [View.detach, View.setEntry] at otherMapped
        refine ⟨different, ?_⟩
        rw [view, View.detach_entry fun equal => different (Slot.heap.inj equal)]
    · refine records.congr ?_ ?_ <;>
        rw [State.unmapHeap, State.decrement_eq] <;> rfl

theorem Settled.kmalloc (settled : Settled ghost state.view) (records : HeapRecords state)
    {size result : Nat} (request : Request size)
    (returned : kmalloc size state = .ok (result, final)) :
    ∃ after, Stage ghost state.view after final.view ∧ HeapRecords final := by
  rcases kmalloc_ok settled.consistent request returned with
    ⟨-, -, record, rfl⟩ | ⟨record, after, -, allocation⟩
  · refine ⟨ghost, .refl settled, ?_⟩
    intro index bound
    have older : index ≠ state.idx := Nat.ne_of_lt bound
    simpa [older] using records index bound
  · exact ⟨after, settled.grow allocation.growth, allocation.heapRecords records⟩

theorem Settled.kfree (settled : Settled ghost state.view) (records : HeapRecords state)
    (returned : kfree address state = .ok ((), final)) (lookup : LookupSucceeds final) :
    ∃ after, Stage ghost state.view after final.view ∧ HeapRecords final := by
  rcases kfree_ok records returned with ⟨-, rfl⟩ | ⟨record, -, heap, unmapped⟩
  · exact ⟨ghost, .refl settled, records⟩
  · have layout := settled.consistent.toHeapLayout
    rcases unmapHeapPages_entries layout heap unmapped with ⟨only, shrunk, cleared⟩
    have releasable : ∀ page ∈ pageRange address (record.last + 1),
        Releasable ghost state.view (ppn page) := by
      intro page member
      by_cases mapped : state.view.entry (.heap (ppn page)) = 0
      · exact .inl mapped
      · refine .inr ⟨by simp [settled.counted], settled.few _, ?_⟩
        refine settled.heap_noTable lookup (only.layout layout) ?_ mapped ?_
        · rcases only with ⟨_, _, _, _, rfl⟩
          rfl
        · intro other otherMapped _
          refine ⟨?_, ((shrunk other).resolve_right otherMapped).symm⟩
          rintro rfl
          exact otherMapped (cleared page member)
    rcases unmapHeapPages_ok settled.consistent heap releasable unmapped with
      ⟨after, shrink, -⟩
    refine ⟨after, settled.shrink shrink, ?_⟩
    rcases only with ⟨_, _, _, _, rfl⟩
    exact records

/-- The frames that come to the free list are those that lose their last entry. -/
def Releases (ghost after : Ghost) : Prop :=
  ∀ frame, ¬ghost.Listed frame ∧ after.Listed frame ↔
    ghost.holders frame ≠ ∅ ∧ after.holders frame = ∅

theorem Stage.releases {after : Ghost} (settled : Settled ghost state.view)
    (stage : Stage ghost state.view after final.view) : Releases ghost after := by
  intro frame
  constructor
  · rintro ⟨unlisted, listed⟩
    exact ⟨(stage.back.held frame listed).resolve_left unlisted, stage.settled.idle listed⟩
  · rintro ⟨held, unheld⟩
    refine ⟨fun listed => held (settled.idle listed), ?_⟩
    exact stage.back.freed frame unheld (.inl held)

theorem Settled.onFreeList (settled : Settled ghost state.view) :
    OnFreeList state frame ↔ ghost.Listed frame := by
  rw [settled.listed]
  exact onList_iff settled.consistent.lists.first

theorem Stage.sound {after : Ghost} {result : Option Nat} (sound : Sound ghost state obtained)
    (stage : Stage ghost state.view after final.view) (records : HeapRecords final)
    (nothing : result = none) :
    Sound after final fun frame =>
      (obtained frame ∨ result = some frame) ∧ ¬OnFreeList final frame where
  settled := stage.settled
  records := records
  mappable := by
    rintro frame ⟨had | new, unlisted⟩
    · have mappable := sound.mappable frame had
      refine ⟨stage.managed ▸ mappable.managed, ?_, ?_⟩
      · rwa [stage.settled.onFreeList] at unlisted
      · intro table nonzero equal
        rcases stage.tables table nonzero with kept | made
        · rw [← kept] at nonzero equal
          exact mappable.noTable table nonzero equal
        · exact mappable.unlisted (equal ▸ made)
    · simp [nothing] at new

/-- The effect of a call that returns no frame. -/
theorem Sound.stage {after : Ghost} {result : Option Nat} (sound : Sound ghost state obtained)
    (stage : Stage ghost state.view after final.view) (records : HeapRecords final)
    (nothing : result = none) :
    ∃ after, (Sound after final fun frame =>
      (obtained frame ∨ result = some frame) ∧ ¬OnFreeList final frame) ∧
      after.managed = ghost.managed ∧ Releases ghost after :=
  ⟨after, stage.sound sound records nothing, stage.managed, stage.releases sound.settled⟩

theorem Sound.allocateFrame (sound : Sound ghost state obtained)
    (returned : allocateFrame state = .ok (frame, final)) :
    ∃ after, (Sound after final fun other =>
      (obtained other ∨ some frame = some other) ∧ ¬OnFreeList final other) ∧
      after.managed = ghost.managed ∧ Releases ghost after := by
  rcases allocateFrame_consistent sound.settled.consistent returned with
    ⟨member, rfl, consistent, fresh⟩
  have settled : Settled { ghost with free := ghost.free.erase frame }
      (state.allocate frame).view := sound.settled.allocate member
  refine ⟨_, ⟨settled, sound.records, ?_⟩, rfl, ?_⟩
  · rintro other ⟨had | new, unlisted⟩
    · rw [settled.onFreeList] at unlisted
      have mappable := sound.mappable other had
      exact ⟨mappable.managed, unlisted, mappable.noTable⟩
    · cases new
      exact ⟨fresh.managed, fresh.unlisted, fun table nonzero =>
        consistent.table_frame_ne fresh.unheld nonzero⟩
  · intro other
    constructor
    · rintro ⟨unlisted, listed⟩
      exact absurd (listed.imp List.mem_of_mem_erase id) unlisted
    · rintro ⟨held, unheld⟩
      exact absurd unheld held

theorem Sound.call {call : FrameCall} {result : Option Nat}
    (sound : Sound ghost state obtained) (admitted : call.Admitted state obtained)
    (returned : call.run state = .ok (result, final)) (lookup : LookupSucceeds final) :
    ∃ after, (Sound after final fun frame =>
      (obtained frame ∨ result = some frame) ∧ ¬OnFreeList final frame) ∧
      after.managed = ghost.managed ∧ Releases ghost after := by
  have settled := sound.settled
  cases call with
  | allocateFrame =>
      rcases Kernel.bind_ok.mp returned with ⟨frame, middle, allocated, ended⟩
      rcases Kernel.pure_ok.mp ended with ⟨rfl, rfl⟩
      exact sound.allocateFrame allocated
  | mapFrame directory frame address perm =>
      rcases Kernel.bind_ok.mp returned with ⟨_, middle, mapped, ended⟩
      rcases Kernel.pure_ok.mp ended with ⟨rfl, rfl⟩
      rcases admitted with ⟨had, few, low, user | ⟨rfl, lower, upper⟩⟩
      · rcases settled.mapFrame_user sound.records (sound.mappable frame had) user low few
          mapped with ⟨after, stage, records⟩
        exact sound.stage stage records rfl
      · have heap := heapAddress_roundDown lower upper
        have kernel : checkIfKernelAddress address := by
          simp only [checkIfKernelAddress, userTop, kernelHeapStart] at lower ⊢
          omega
        rcases settled.mapFrame_heap sound.records (sound.mappable frame had) heap low few
          (mapFrame_roundDown heap settled.consistent.toHeapLayout kernel mapped) lookup with
          ⟨after, stage, records⟩
        exact sound.stage stage records rfl
  | unmapFrame directory address =>
      rcases Kernel.bind_ok.mp returned with ⟨_, middle, unmapped, ended⟩
      rcases Kernel.pure_ok.mp ended with ⟨rfl, rfl⟩
      rcases admitted with user | ⟨rfl, lower, upper⟩
      · rcases settled.unmapFrame_user sound.records user unmapped with
          ⟨after, stage, records⟩
        exact sound.stage stage records rfl
      · have heap := heapAddress_roundDown lower upper
        have kernel : checkIfKernelAddress address := by
          simp only [checkIfKernelAddress, userTop, kernelHeapStart] at lower ⊢
          omega
        rw [← unmapFrame_roundDown kernel] at unmapped
        rcases settled.unmapFrame_heap sound.records heap unmapped lookup with
          ⟨after, stage, records⟩
        exact sound.stage stage records rfl
  | kmalloc size =>
      rcases Kernel.bind_ok.mp returned with ⟨_, middle, allocated, ended⟩
      rcases Kernel.pure_ok.mp ended with ⟨rfl, rfl⟩
      rcases settled.kmalloc sound.records admitted allocated with ⟨after, stage, records⟩
      exact sound.stage stage records rfl
  | kfree address =>
      rcases Kernel.bind_ok.mp returned with ⟨_, middle, freed, ended⟩
      rcases Kernel.pure_ok.mp ended with ⟨rfl, rfl⟩
      rcases settled.kfree sound.records freed lookup with ⟨after, stage, records⟩
      exact sound.stage stage records rfl

end Calls

/-! ## All runs -/

section Runs

variable {layout : BootLayout} {contents : BootContents} {booted state final : State}
variable {obtained : Nat → Prop} {ghost after : Ghost}

theorem boot_settled (isBooted : Booted layout contents ghost booted) :
    Settled ghost booted.view := by
  have blank := isBooted.blank
  have consistent := isBooted.consistent
  have tables := isBooted.table
  rcases isBooted.empty with ⟨free, rfl⟩
  exact
    { consistent := consistent
      counted := rfl
      inactive := rfl
      unmodified := rfl
      few := by simp [BootLayout.ghost]
      blank := fun frame member => blank frame (consistent.listedManaged frame (.inl member))
      noDisk := fun env index => tables (.disk env index) }

theorem boot_records (isBooted : Booted layout contents ghost booted) : HeapRecords booted := by
  rcases isBooted.only with ⟨_, _, _, _, _, _, _, rfl⟩
  intro index bound
  exact absurd bound (Nat.not_lt_zero index)

theorem boot_sound
    (boots : initializePaging layout.kernelFrames (layout.beforePaging contents) =
      .ok ((), booted)) :
    ∃ ghost, Sound ghost booted (fun _ => False) ∧
      ∀ frame, OnFreeList booted frame → frame ∈ ghost.managed := by
  rcases initializePaging_ok boots with ⟨ghost, isBooted⟩
  have settled := boot_settled isBooted
  refine ⟨ghost, ⟨settled, boot_records isBooted, by simp⟩, ?_⟩
  intro frame listed
  exact settled.consistent.listedManaged frame (settled.onFreeList.mp listed)

theorem Run.sound
    (boots : initializePaging layout.kernelFrames (layout.beforePaging contents) =
      .ok ((), booted)) (run : Run booted state obtained) :
    ∃ ghost, Sound ghost state obtained ∧
      ∀ frame, OnFreeList booted frame → frame ∈ ghost.managed := by
  induction run with
  | boot => exact boot_sound boots
  | call _ admitted returned lookup induction =>
      rcases induction with ⟨ghost, sound, managed⟩
      rcases sound.call admitted returned lookup with ⟨after, soundAfter, same, -⟩
      exact ⟨after, soundAfter, same ▸ managed⟩

theorem Settled.entriesOf_eq (settled : Settled ghost state.view) (frame : Nat) :
    entriesOf state frame = ghost.holders frame := by
  ext slot
  rw [Finset.mem_coe, settled.mem_holders]
  rfl

theorem Sound.exact (sound : Sound ghost state obtained)
    (managed : ∀ frame, OnFreeList booted frame → frame ∈ ghost.managed) :
    Exact booted state where
  references := by
    intro frame wasFree
    rw [sound.settled.entriesOf_eq, Set.encard_coe_eq_coe_finsetCard]
    exact congrArg _ (sound.settled.references (managed frame wasFree)).symm
  idle := by
    intro frame listed
    rw [sound.settled.entriesOf_eq, sound.settled.idle (sound.settled.onFreeList.mp listed)]
    exact Finset.coe_empty

theorem Releases.freed (releases : Releases ghost after) (before : Settled ghost state.view)
    (later : Settled after final.view) : FreedWithLastEntry booted state final := by
  intro frame _
  rw [before.onFreeList, later.onFreeList, releases frame, before.entriesOf_eq,
    later.entriesOf_eq, Finset.coe_nonempty, Finset.coe_eq_empty,
    Finset.nonempty_iff_ne_empty]

/-- Reference counts are exact in every state of every run, and a call gives back the
frames whose last entry it removes. -/
theorem reference_counts_exact
    (boots : initializePaging layout.kernelFrames (layout.beforePaging contents) =
      .ok ((), booted)) :
    (∀ state obtained, Run booted state obtained → Exact booted state) ∧
      ∀ state obtained call result final, Run booted state obtained →
        FrameCall.Admitted state obtained call → call.run state = .ok (result, final) →
        LookupSucceeds final → FreedWithLastEntry booted state final := by
  constructor
  · intro state obtained run
    rcases run.sound boots with ⟨ghost, sound, managed⟩
    exact sound.exact managed
  · intro state obtained call result final run admitted returned lookup
    rcases run.sound boots with ⟨ghost, sound, -⟩
    rcases sound.call admitted returned lookup with ⟨after, soundAfter, -, releases⟩
    exact releases.freed sound.settled soundAfter.settled

end Runs

/-! ## A frame that is mapped and unmapped -/

theorem lookup_without_tables {state : State}
    (same : state.pageDirectory = sampleState.pageDirectory) : LookupSucceeds state := by
  intro directory address user present
  have zero : directoryEntry state directory address = 0 := by
    rw [directoryEntry, same]
    exact (beforePaging_directory directory (address_user user).2 :
      (sampleLayout.beforePaging sampleContents).pageDirectory directory (pdx address) = 0)
  rw [zero] at present
  contradiction

/-- The last frame of the sample machine, entered at the first heap page. -/
def sampleMapped : State :=
  ((sampleState.allocate 0xFFFF).addReferences 0xFFFF 1).setBootEntry 0xF6000
    (mapWord 0xFFFF permWriteable)

def sampleUnmapped : State := sampleMapped.unmapHeap 0xFFFF 0xF6000000

theorem sample_free {frame : Nat} (bound : frame < 0x10000)
    (managed : 3 ≤ frame ∧ frame < ioFrame ∨ 0x800 ≤ frame) : OnFreeList sampleState frame := by
  rcases initializePaging_ok sample_boots with ⟨ghost, booted⟩
  refine (onList_iff booted.consistent.lists.first).mpr (booted.allFree frame ?_)
  rcases booted.empty with ⟨free, rfl⟩
  exact Finset.mem_filter.mpr ⟨Finset.mem_range.mpr bound, managed⟩

theorem sample_obtained : ¬OnFreeList (sampleState.allocate 0xFFFF) 0xFFFF := by
  rcases boot_sound sample_boots with ⟨ghost, sound, -⟩
  have allocated : allocateFrame sampleState = .ok (0xFFFF, sampleState.allocate 0xFFFF) := rfl
  rcases allocateFrame_consistent sound.settled.consistent allocated with
    ⟨member, -, consistent, fresh⟩
  intro listed
  exact fresh.unlisted (.inl ((onList_iff consistent.lists.first).mp listed))

theorem sample_run : ∃ obtained, Run sampleState sampleMapped obtained := by
  have allocated : FrameCall.run .allocateFrame sampleState =
      .ok (some 0xFFFF, sampleState.allocate 0xFFFF) := rfl
  have mapped : FrameCall.run (.mapFrame .kernel 0xFFFF 0xF6000000 permWriteable)
      (sampleState.allocate 0xFFFF) = .ok (none, sampleMapped) := rfl
  have heap : Covered .kernel 0xF6000000 := .inr ⟨rfl, by decide, by decide⟩
  have admitsFirst : FrameCall.Admitted sampleState (fun _ => False) .allocateFrame := trivial
  have first := Run.call .boot admitsFirst allocated (lookup_without_tables rfl)
  have admitsMap : FrameCall.Admitted (sampleState.allocate 0xFFFF)
      (fun frame => (False ∨ some 0xFFFF = some frame) ∧
        ¬OnFreeList (sampleState.allocate 0xFFFF) frame)
      (.mapFrame .kernel 0xFFFF 0xF6000000 permWriteable) :=
    ⟨⟨.inr rfl, sample_obtained⟩, by decide, by decide, heap⟩
  exact ⟨_, .call first admitsMap mapped (lookup_without_tables rfl)⟩

theorem reference_counts_exact_one_frame :
    ∃ obtained, Run sampleState sampleMapped obtained ∧ Exact sampleState sampleMapped ∧
      (entriesOf sampleMapped 0xFFFF).encard = 1 ∧
      FrameCall.run (.unmapFrame .kernel 0xF6000000) sampleMapped =
        .ok (none, sampleUnmapped) ∧
      FreedWithLastEntry sampleState sampleMapped sampleUnmapped := by
  rcases sample_run with ⟨obtained, run⟩
  have counts := (reference_counts_exact sample_boots).1 _ _ run
  have unmapped : FrameCall.run (.unmapFrame .kernel 0xF6000000) sampleMapped =
      .ok (none, sampleUnmapped) := rfl
  refine ⟨obtained, run, counts, ?_, unmapped, ?_⟩
  · exact counts.references 0xFFFF (sample_free (by decide) (by decide))
  · have admits : FrameCall.Admitted sampleMapped obtained
        (.unmapFrame .kernel 0xF6000000) := .inr ⟨rfl, by decide, by decide⟩
    exact (reference_counts_exact sample_boots).2 _ _ _ _ _ run admits unmapped
      (lookup_without_tables rfl)

/-- A free frame below the end of the kernel, which boot maps at `KERNEL_BASE`. -/
theorem free_frame_mapped_at_kernel_base :
    ∃ state obtained frame page, Run sampleState state obtained ∧
      OnFreeList sampleState frame ∧ OnFreeList state frame ∧
      (state.framesInfo frame).references = 0 ∧
      state.bootTables page ≠ 0 ∧ frameOf (state.bootTables page) = frame := by
  have listed : OnFreeList sampleState 3 := sample_free (by decide) (by decide)
  exact ⟨sampleState, _, 3, ppn kernelBase + 3, .boot, listed, listed, rfl, by decide,
    by decide⟩

end FosKernel.ReferenceCounts
