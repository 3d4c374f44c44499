import FosKernel.Properties.NextFit
import Mathlib.Data.List.Pairwise

/-! # Histories of the kernel heap

Sequences of `kmalloc` and `kfree` with any sizes and addresses. The records in `kHeapArr`
are never given back: `IDX` counts the blocks ever returned, and an old record can name
pages of a block that was allocated later.
-/

namespace FosKernel.HeapHistory

open KernelHeap (Block Sound Valid Cleared FreeFrames boot_sound findHeapRecord_new
  findHeapRecord_congr heapPage_ne sample_cleared)
open NextFit (SearchEnds)

inductive Call
  | kmalloc (size : Nat)
  | kfree (address : Nat)
  deriving DecidableEq

/-- The states reached from boot by calls that `allowed` admits, with the live blocks and
the number of blocks ever returned by `kmalloc`. -/
inductive History (layout : BootLayout) (contents : BootContents)
    (allowed : State → List Block → Call → Prop) : State → List Block → Nat → Prop
  | boot {state} :
      initializePaging layout.kernelFrames (layout.beforePaging contents) = .ok ((), state) →
      History layout contents allowed state [] 0
  | kmalloc {state live blocks size address final} :
      History layout contents allowed state live blocks → size < 2 ^ 32 →
      allowed state live (.kmalloc size) → kmalloc size state = .ok (address, final) →
      History layout contents allowed final
        (if address = 0 then live else ⟨address, roundUp size⟩ :: live)
        (if address = 0 then blocks else blocks + 1)
  | kfree {state live blocks address final} :
      History layout contents allowed state live blocks → address < 2 ^ 32 →
      allowed state live (.kfree address) → kfree address state = .ok ((), final) →
      History layout contents allowed final
        (live.eraseP fun block => decide (block.first = address)) blocks

/-- A request that rounds to zero bytes is made only where the page at the next-fit
pointer is free. Otherwise `kmalloc` maps the range that happens to be in the record. -/
def Regular (state : State) (size : Nat) : Prop :=
  roundUp size = 0 → state.view.entry (.heap (ppn (visitedPage state.view 0))) = 0

section Steps

variable {layout : BootLayout} {contents : BootContents}
variable {allowed : State → List Block → Call → Prop}
variable {ghost : Ghost} {state final : State} {live : List Block} {blocks : Nat}
variable {size address : Nat}

/-- A size is a request, or it rounds to zero. -/
theorem request_or_zero (word : size < 2 ^ 32) : Request size ∨ roundUp size = 0 := by
  rcases Nat.eq_zero_or_pos size with rfl | positive
  · exact .inr (by decide)
  · by_cases bounded : size ≤ 0xFFFFF000
    · exact .inl ⟨positive, bounded⟩
    · exact .inr (roundUp_eq_zero (Nat.lt_of_not_le bounded) word)

/-- Every regular call keeps the invariant, and `IDX` moves with every block. -/
theorem Sound.regular (sound : Sound ghost state) (word : size < 2 ^ 32)
    (regular : Regular state size) (returned : kmalloc size state = .ok (address, final)) :
    ∃ after, Sound after final ∧
      final.idx = if address = 0 then state.idx else state.idx + 1 := by
  have moved : ∀ {request record after}, KernelAllocation ghost state request record after final →
      record.first ≠ 0 ∧ Sound after final ∧ final.idx = state.idx + 1 := by
    intro request record after allocation
    rcases allocation.scanned with ⟨start, scanned⟩
    exact ⟨NextFit.heapAddress_ne_zero scanned.first_heapAddress, sound.grow allocation,
      allocation.idx⟩
  rcases request_or_zero word with request | zero
  · rcases sound.kmalloc request returned with
      ⟨rfl, later, record, rfl⟩ | ⟨record, after, rfl, -, allocation⟩
    · exact ⟨ghost, later, rfl⟩
    · rcases moved allocation with ⟨nonzero, later, idx⟩
      exact ⟨after, later, by rw [if_neg nonzero, idx]⟩
  · rcases kmalloc_open_ok sound.supplied.consistent zero (regular zero) returned with
      ⟨rfl, record, rfl⟩ | ⟨pages, record, after, rfl, -, -, allocation⟩
    · exact ⟨ghost, sound.withHeapRecord record, rfl⟩
    · rcases moved allocation with ⟨nonzero, later, idx⟩
      exact ⟨after, later, by rw [if_neg nonzero, idx]⟩

theorem History.sound (history : History layout contents allowed state live blocks)
    (regular : ∀ state live size, allowed state live (.kmalloc size) → Regular state size) :
    ∃ ghost, Sound ghost state ∧ state.idx = blocks := by
  induction history with
  | boot returned =>
      rcases boot_sound returned with ⟨ghost, sound⟩
      rcases initializePaging_ok returned with ⟨_, booted⟩
      refine ⟨ghost, sound, ?_⟩
      rcases booted.only with ⟨_, _, _, _, _, _, _, rfl⟩
      rfl
  | kmalloc _ word admitted returned induction =>
      rcases induction with ⟨ghost, sound, idx⟩
      rcases Sound.regular sound word (regular _ _ _ admitted) returned with
        ⟨after, later, moved⟩
      refine ⟨after, later, ?_⟩
      rw [moved, idx]
  | kfree _ _ _ returned induction =>
      rcases induction with ⟨ghost, sound, idx⟩
      rcases sound.kfree returned with ⟨-, rfl⟩ | ⟨_, after, -, later, -, only⟩
      · exact ⟨ghost, sound, idx⟩
      · refine ⟨after, later, ?_⟩
        rcases only with ⟨_, _, _, _, rfl⟩
        exact idx

end Steps

/-! ## Termination of the search -/

/-- Calls under which the heap keeps its form. -/
def Regularly (state : State) (_ : List Block) : Call → Prop
  | .kmalloc size => Regular state size
  | .kfree _ => True

/-- The loop can notice that it is back at the pointer, or it meets a free run before:
the pages are taken as a cycle, in which the last one is followed by the first. -/
def Noticed (state : State) (size : Nat) : Prop :=
  state.startAdd ≠ kernelHeapMax ∨ roundUp size = 0 ∨
    ∃ start, FreeRun state.view start (roundUp size / 4096)

theorem searchEnds_iff {state : State} {size : Nat} (layout : HeapLayout state.view)
    (serviceable : Serviceable state) (word : size < 2 ^ 32) :
    SearchEnds state size ↔ Noticed state size := by
  have upper := layout.startUpper
  have same : state.view.startAdd = state.startAdd := rfl
  rcases request_or_zero word with request | zero
  · constructor
    · intro ends
      rcases ends.reason layout request with inside | ⟨start, -, free⟩
      · exact .inl (by omega)
      · exact .inr (.inr ⟨start, free⟩)
    · rintro (elsewhere | zero | ⟨start, free⟩)
      · exact NextFit.searchEnds_of_startAdd layout serviceable request (by omega)
      · have positive := request.roundUp.2.1
        simp [zero] at positive
      · rcases heapSearch_returns layout serviceable request
          (.inr ⟨start, free, Nat.lt_succ_self _⟩) (Nat.lt_succ_self _) with
          ⟨outcome, searched⟩
        exact ⟨_, outcome, searched⟩
  · refine ⟨fun _ => .inr (.inl zero), fun _ => ?_⟩
    rcases heapSearch_open_returns layout serviceable zero (le_refl (2 ^ 20)) with
      ⟨outcome, searched⟩
    exact ⟨_, outcome, searched⟩

/-- In every state of every history the search ends exactly when it is noticed. -/
theorem search_ends_iff_noticed {layout : BootLayout} {contents : BootContents}
    {state : State} {live : List Block} {blocks size : Nat}
    (history : History layout contents Regularly state live blocks) (word : size < 2 ^ 32) :
    SearchEnds state size ↔ Noticed state size := by
  rcases history.sound (fun _ _ _ regular => regular) with ⟨ghost, sound, -⟩
  exact searchEnds_iff sound.supplied.consistent.toHeapLayout sound.supplied.serviceable word

/-- One page of the empty heap is found. -/
theorem search_ends_one_page : SearchEnds sampleState 0x1000 :=
  (search_ends_iff_noticed (.boot sample_boots) (by decide)).mpr (.inl (by decide))

/-- The whole heap as one block leaves the pointer at `KERNEL_HEAP_MAX`. The search for
another page does not end. -/
theorem search_endless_in_full_heap :
    ∃ state live, History sampleLayout sampleContents Regularly state live 1 ∧
      state.startAdd = kernelHeapMax ∧ ¬SearchEnds state 0x1000 := by
  rcases sample_cleared with ⟨ghost, cleared, length⟩
  have request : Request 0x9FFF000 := ⟨by decide, by decide⟩
  rcases cleared.kmalloc request (show 0 < 2 ^ 20 by decide) (by decide)
    (by rw [length]; decide) with ⟨record, after, final, returned, first, last, allocation⟩
  replace first : record.first = kernelHeapStart := first
  replace last : record.last = 0xFFFFE000 := last
  have pointer : final.startAdd = kernelHeapMax := by
    rw [allocation.startAdd, last]
  have history : History sampleLayout sampleContents Regularly final
      (if record.first = 0 then [] else [⟨record.first, roundUp 0x9FFF000⟩])
      (if record.first = 0 then 0 else 0 + 1) :=
    .kmalloc (.boot sample_boots) (by decide) (fun zero => absurd zero (by decide)) returned
  rw [first, if_neg (by decide), if_neg (by decide)] at history
  have sound := cleared.sound.grow allocation
  have mapped : ∀ address, HeapAddress address → final.view.entry (.heap (ppn address)) ≠ 0 := by
    intro address heap
    have lower := heap.lower
    have upper := heap.upper
    have aligned := heap.aligned
    have member : address ∈ pageRange record.first (record.last + 1) := by
      rw [first, last, mem_pageRange]
      simp only [kernelHeapStart, kernelHeapMax] at *
      exact ⟨(address - 0xF6000000) / 4096, by omega, by omega⟩
    rcases allocation.growth.handedOut _ (List.mem_map_of_mem member) with ⟨frame, handed⟩
    rw [handed.entry]
    exact ne_zero_of_present (present_heapEntry frame)
  refine ⟨final, _, history, pointer, fun ends => ?_⟩
  rcases (searchEnds_iff sound.supplied.consistent.toHeapLayout sound.supplied.serviceable
    (by decide)).mp ends with elsewhere | zero | ⟨start, free⟩
  · exact elsewhere pointer
  · exact absurd zero (by decide)
  · exact mapped _ (visitedPage_heapAddress final.view start)
      (free start le_rfl (Nat.lt_add_of_pos_right (by decide)))

/-! ## Bounds of the records -/

/-- `kHeapArr[IDX]`, which the next call of `kmalloc` writes, is one of its `1024 * 1024`
records. -/
def InBounds (state : State) : Prop := state.idx < 2 ^ 20

/-- In every history the record at `IDX` exists exactly as long as fewer than `2 ^ 20`
blocks were returned, no matter how many were freed. -/
theorem in_bounds_iff_few_blocks {layout : BootLayout} {contents : BootContents}
    {state : State} {live : List Block} {blocks : Nat}
    (history : History layout contents Regularly state live blocks) :
    InBounds state ↔ blocks < 2 ^ 20 := by
  rcases history.sound (fun _ _ _ regular => regular) with ⟨ghost, -, idx⟩
  rw [InBounds, idx]

theorem in_bounds_at_boot : InBounds sampleState :=
  (in_bounds_iff_few_blocks (.boot sample_boots)).mpr (by decide)

/-- A block of an empty heap is allocated and freed. -/
theorem History.cycle {layout : BootLayout} {contents : BootContents}
    {allowed : State → List Block → Call → Prop} {ghost : Ghost} {state : State}
    {blocks offset size : Nat} (history : History layout contents allowed state [] blocks)
    (cleared : Cleared ghost state offset) (request : Request size)
    (records : state.idx < 2 ^ 20)
    (fits : offset % kernelHeapPages + roundUp size / 4096 ≤ kernelHeapPages)
    (enough : roundUp size / 4096 ≤ ghost.free.length)
    (allocated : allowed state [] (.kmalloc size))
    (freed : ∀ grown first, allowed grown [⟨first, roundUp size⟩] (.kfree first)) :
    ∃ record final last, History layout contents allowed final [] (blocks + 1) ∧
      Cleared last final (offset % kernelHeapPages + roundUp size / 4096) ∧
      final.idx = state.idx + 1 ∧ ghost.free.length ≤ last.free.length ∧
      record.first = kernelHeapStart + offset % kernelHeapPages * 4096 ∧
      record.last + 4096 = record.first + roundUp size ∧
      ∀ address, findHeapRecord final address =
        if record.first = address then some record else findHeapRecord state address := by
  rcases cleared.cycle request records fits enough with
    ⟨record, grown, final, last, returned, first, ends, unmapped, later, idx, more, found⟩
  have nonzero : record.first ≠ 0 := by
    rw [first]
    exact Nat.ne_of_gt (Nat.add_pos_left (by decide) _)
  have bound : record.first < 2 ^ 32 := by
    have := Nat.mod_lt offset (show 0 < kernelHeapPages by decide)
    simp only [kernelHeapStart, kernelHeapPages] at *
    omega
  have word : size < 2 ^ 32 := Nat.lt_of_le_of_lt request.bounded (by decide)
  have one : History layout contents allowed grown
      (if record.first = 0 then [] else [⟨record.first, roundUp size⟩])
      (if record.first = 0 then blocks else blocks + 1) :=
    .kmalloc history word allocated returned
  rw [if_neg nonzero, if_neg nonzero] at one
  have none := History.kfree one bound (freed grown record.first) unmapped
  rw [List.eraseP_cons_of_pos (by simp)] at none
  exact ⟨record, final, last, none, later, idx, more, first, ends, found⟩

/-- Allocating and freeing one page again and again. -/
theorem sample_cycles {count : Nat} (bound : count ≤ 2 ^ 20) :
    ∃ ghost state offset, History sampleLayout sampleContents Regularly state [] count ∧
      Cleared ghost state offset ∧ 1 ≤ ghost.free.length ∧ state.idx = count := by
  induction count with
  | zero =>
      rcases sample_cleared with ⟨ghost, cleared, length⟩
      exact ⟨ghost, sampleState, 0, .boot sample_boots, cleared, by omega, rfl⟩
  | succ count induction =>
      rcases induction (by omega) with ⟨ghost, state, offset, history, cleared, enough, idx⟩
      have request : Request 0x1000 := ⟨by decide, by decide⟩
      have fits : offset % kernelHeapPages + roundUp 0x1000 / 4096 ≤ kernelHeapPages :=
        Nat.mod_lt offset (by decide)
      rcases history.cycle cleared request (by omega) fits enough
        (fun zero => absurd zero (by decide)) (fun _ _ => trivial) with
        ⟨-, final, last, later, clearedLater, moved, more, -⟩
      exact ⟨last, final, _, later, clearedLater, enough.trans more, by omega⟩

/-- After `2 ^ 20` blocks, all of them freed, the next call writes behind the array. -/
theorem out_of_bounds_after_cycles :
    ∃ state, History sampleLayout sampleContents Regularly state [] (2 ^ 20) ∧
      ¬InBounds state ∧ kmalloc 0x1000 state = .error .outOfBounds := by
  rcases sample_cycles (le_refl (2 ^ 20)) with ⟨ghost, state, offset, history, -, -, idx⟩
  refine ⟨state, history, by simp [InBounds, idx], ?_⟩
  change (if 2 ^ 20 ≤ state.idx then _ else _ : Kernel Nat) state = _
  rw [idx, if_pos (le_refl (2 ^ 20))]
  rfl

/-! ## Release of blocks -/

/-- The pages of the block are unmapped, its frames are free, and nothing else is. -/
structure FreesBlock (state final : State) (block : Block) : Prop where
  only : MapOnly state final
  cleared : ∀ address ∈ block.pages, final.bootTables (ppn address) = 0
  others : ∀ page, page ∉ block.pages.map ppn → final.bootTables page = state.bootTables page
  frames : ∃ before after, FreeFrames state before ∧ FreeFrames final after ∧
    ∀ frame, frame ∈ after ↔ frame ∈ before ∨
      ∃ address ∈ block.pages, frameOf (state.bootTables (ppn address)) = frame

/-- `kfree` frees the live block that starts at the address and else changes nothing. -/
structure FreesExactly (state : State) (live : List Block) (address : Nat) (final : State) :
    Prop where
  returned : kfree address state = .ok ((), final)
  block : ∀ block ∈ live, block.first = address → FreesBlock state final block
  nothing : (∀ block ∈ live, block.first ≠ address) → final = state

/-- A live block starts at the address, or the last record with this start names only
unmapped pages. -/
def Clean (state : State) (live : List Block) (address : Nat) : Prop :=
  (∃ block ∈ live, block.first = address) ∨
    ∀ record, findHeapRecord state address = some record →
      ∀ page ∈ pageRange address (record.last + 1), state.bootTables (ppn page) = 0

/-- Requests whose search stays inside the heap, and clean releases. -/
def Cleanly (state : State) (live : List Block) : Call → Prop
  | .kmalloc size => Request size ∧ ¬WrapsAround state.view (roundUp size)
  | .kfree address => Clean state live address

section Release

variable {ghost : Ghost} {state final : State} {live : List Block} {block : Block}
variable {address : Nat}

/-- Only one live block starts at an address. -/
theorem eraseP_first (valid : Valid ghost state live) (member : block ∈ live) :
    (live.eraseP fun other => decide (other.first = block.first)) = live.erase block := by
  have unique : ∀ other ∈ live, decide (other.first = block.first) = (other == block) := by
    intro other otherMember
    by_cases same : other = block
    · simp [same]
    · have symmetric : Std.Symm Block.Disjoint := ⟨fun _ _ disjoint => disjoint.symm⟩
      have disjoint := valid.disjoint.forall otherMember member same
      have different : other.first ≠ block.first := by
        intro equal
        refine disjoint other.first (valid.placed other otherMember).first_mem ?_
        rw [equal]
        exact (valid.placed block member).first_mem
      simp [same, different]
  rw [List.erase_eq_eraseP']
  clear member valid
  induction live with
  | nil => rfl
  | cons head tail induction =>
      have first := unique head (by simp)
      rw [List.eraseP_cons, List.eraseP_cons, first,
        induction fun other member => unique other (by simp [member])]

/-- The frames that `kfree` of a live block gives back. -/
theorem Valid.freed_frames (valid : Valid ghost state live) (member : block ∈ live)
    {after : Ghost}
    (shrink : HeapShrink ghost state.view (block.pages.map ppn) after final.view) (frame : Nat) :
    frame ∈ after.free ↔ frame ∈ ghost.free ∨
      ∃ address ∈ block.pages, frameOf (state.bootTables (ppn address)) = frame := by
  have consistent := valid.sound.supplied.consistent
  have placed := valid.placed block member
  have unmodified : ∀ {ghost' : Ghost} {frame}, ghost'.Listed frame →
      frame ∉ ghost'.modified → frame ∈ ghost'.free := fun listed absent =>
    listed.resolve_right absent
  have entryOf : ∀ address ∈ block.pages,
      state.view.entry (.heap (ppn address)) = state.bootTables (ppn address) :=
    fun address inBlock => (placed.heapAddress inBlock).slotEntry
  constructor
  · intro inAfter
    by_cases own : ∃ page ∈ block.pages.map ppn, Slot.heap page ∈ ghost.holders frame
    · rcases own with ⟨page, inPages, held⟩
      rcases List.mem_map.mp inPages with ⟨address, inBlock, rfl⟩
      refine .inr ⟨address, inBlock, ?_⟩
      rw [← entryOf address inBlock]
      exact (consistent.mem_holders.mp held).2.2
    · push Not at own
      have listed := ((shrink.kept frame own).1).mp (.inl inAfter)
      refine .inl (unmodified listed fun inModified => ?_)
      rw [← shrink.modified] at inModified
      exact shrink.consistent.lists.apart frame inAfter inModified
  · rintro (inFree | ⟨address, inBlock, rfl⟩)
    · exact shrink.free_kept consistent inFree
    · have holders := valid.sound.holders (valid.mapped block member address inBlock)
      rw [← entryOf address inBlock]
      exact shrink.freed consistent (List.mem_map_of_mem inBlock) holders

/-- `kfree` of the start of a live block. -/
theorem Valid.kfree_block (valid : Valid ghost state live) (member : block ∈ live)
    (returned : kfree block.first state = .ok ((), final)) : FreesBlock state final block := by
  have layout := valid.sound.supplied.consistent.toHeapLayout
  rcases valid.recorded block member with ⟨record, found, ends⟩
  have placed := valid.placed block member
  rcases kfree_ok valid.sound.records returned with ⟨missing, -⟩ | ⟨same, foundSame, heap, unmapped⟩
  · rw [found] at missing
    contradiction
  rw [found, Option.some.injEq] at foundSame
  subst foundSame
  rw [← placed.pages_eq ends] at heap unmapped
  rcases unmapHeapPages_ok valid.sound.supplied.consistent heap
    (fun page _ => valid.sound.releasable (ppn page)) unmapped with ⟨after, shrink, only⟩
  refine ⟨only, ?_, ?_, ?_⟩
  · intro page inBlock
    rw [← (placed.heapAddress inBlock).slotEntry]
    exact shrink.cleared _ (List.mem_map_of_mem inBlock)
  · exact fun page outside => unmapHeapPages_others layout heap unmapped outside
  · exact ⟨ghost.free, after.free, valid.sound.supplied.consistent.lists.first,
      shrink.consistent.lists.first, Valid.freed_frames valid member shrink⟩

/-- A release changes nothing exactly when its pages are unmapped. -/
theorem Sound.kfree_unchanged_iff (sound : Sound ghost state)
    (returned : kfree address state = .ok ((), final)) :
    final = state ↔ ∀ record, findHeapRecord state address = some record →
      ∀ page ∈ pageRange address (record.last + 1), state.bootTables (ppn page) = 0 := by
  have layout := sound.supplied.consistent.toHeapLayout
  rcases kfree_ok sound.records returned with ⟨missing, rfl⟩ | ⟨record, found, heap, unmapped⟩
  · simp [missing]
  · constructor
    · rintro rfl other foundOther page inRange
      rw [found, Option.some.injEq] at foundOther
      subst foundOther
      rw [← (heap page inRange).slotEntry]
      exact (unmapHeapPages_entries layout heap unmapped).2.2 page inRange
    · intro free
      refine unmapHeapPages_free layout heap (fun page inRange => ?_) unmapped
      exact (heap page inRange).slotEntry.trans (free record found page inRange)

theorem Valid.freesExactly_iff (valid : Valid ghost state live) (address : Nat) :
    (∃ final, FreesExactly state live address final) ↔ Clean state live address := by
  constructor
  · rintro ⟨final, frees⟩
    by_cases started : ∃ block ∈ live, block.first = address
    · exact .inl started
    · push Not at started
      exact .inr ((Sound.kfree_unchanged_iff valid.sound frees.returned).mp
        (frees.nothing started))
  · intro clean
    rcases valid.sound.kfree_returns address with ⟨final, returned⟩
    refine ⟨final, returned, ?_, ?_⟩
    · rintro block member rfl
      exact Valid.kfree_block valid member returned
    · intro none
      refine (Sound.kfree_unchanged_iff valid.sound returned).mpr (clean.resolve_left ?_)
      rintro ⟨block, member, first⟩
      exact none block member first

theorem Valid.kfree_clean (valid : Valid ghost state live) (clean : Clean state live address)
    (returned : kfree address state = .ok ((), final)) :
    ∃ after, Valid after final (live.eraseP fun block => decide (block.first = address)) := by
  by_cases started : ∃ block ∈ live, block.first = address
  · rcases started with ⟨block, member, rfl⟩
    rw [eraseP_first valid member]
    exact valid.kfree member returned
  · have same : final = state :=
      (Sound.kfree_unchanged_iff valid.sound returned).mpr (clean.resolve_left started)
    push Not at started
    rw [same, List.eraseP_of_forall_not (by simpa using started)]
    exact ⟨ghost, valid⟩

end Release

theorem History.valid {layout : BootLayout} {contents : BootContents} {state : State}
    {live : List Block} {blocks : Nat}
    (history : History layout contents Cleanly state live blocks) :
    ∃ ghost, Valid ghost state live := by
  induction history with
  | boot returned =>
      rcases boot_sound returned with ⟨ghost, sound⟩
      exact ⟨ghost, sound, by simp, by simp, .nil, by simp⟩
  | kmalloc _ _ admitted returned induction =>
      rcases induction with ⟨ghost, valid⟩
      rcases valid.kmalloc admitted.1 admitted.2 returned with
        ⟨rfl, after, later⟩ | ⟨nonzero, -, after, later⟩
      · exact ⟨after, later⟩
      · exact ⟨after, by rwa [if_neg nonzero]⟩
  | kfree _ _ clean returned induction =>
      rcases induction with ⟨ghost, valid⟩
      exact Valid.kfree_clean valid clean returned

/-- In every state of every history of clean calls `kfree` frees exactly one live block or
nothing, exactly at the clean addresses. -/
theorem frees_exactly_iff_clean {layout : BootLayout} {contents : BootContents}
    {state : State} {live : List Block} {blocks : Nat}
    (history : History layout contents Cleanly state live blocks) (address : Nat) :
    (∃ final, FreesExactly state live address final) ↔ Clean state live address := by
  rcases history.valid with ⟨ghost, valid⟩
  exact Valid.freesExactly_iff valid address

theorem Cleared.cleanly {ghost : Ghost} {state : State} {offset size : Nat}
    (cleared : Cleared ghost state offset) (request : Request size)
    (fits : offset % kernelHeapPages + roundUp size / 4096 ≤ kernelHeapPages) :
    Cleanly state [] (.kmalloc size) :=
  ⟨request, cleared.staysInside fits⟩

theorem cleanly_live (state : State) (first size : Nat) :
    Cleanly state [⟨first, size⟩] (.kfree first) :=
  .inl ⟨⟨first, size⟩, by simp⟩

/-- One block of one page, which is freed. -/
theorem frees_exactly_one_page :
    ∃ state, History sampleLayout sampleContents Cleanly state [⟨kernelHeapStart, 0x1000⟩] 1 ∧
      ∃ final, FreesExactly state [⟨kernelHeapStart, 0x1000⟩] kernelHeapStart final := by
  rcases sample_cleared with ⟨ghost, cleared, length⟩
  have request : Request 0x1000 := ⟨by decide, by decide⟩
  rcases cleared.kmalloc request (show 0 < 2 ^ 20 by decide) (by decide)
    (by rw [length]; decide) with ⟨record, after, final, returned, first, -, -⟩
  replace first : record.first = kernelHeapStart := first
  have history : History sampleLayout sampleContents Cleanly final
      (if record.first = 0 then [] else [⟨record.first, roundUp 0x1000⟩])
      (if record.first = 0 then 0 else 0 + 1) :=
    .kmalloc (.boot sample_boots) (by decide) (Cleared.cleanly cleared request (by decide)) returned
  rw [first, if_neg (by decide), if_neg (by decide)] at history
  exact ⟨final, history, (frees_exactly_iff_clean history kernelHeapStart).mpr
    (cleanly_live final kernelHeapStart 0x1000)⟩

/-- A block of the second page is freed. Later a block of the first two pages is live, and
the old record still names the second one. -/
theorem stale_record_frees_live_page :
    ∃ state, History sampleLayout sampleContents Cleanly state [⟨kernelHeapStart, 0x2000⟩] 4 ∧
      ¬∃ final, FreesExactly state [⟨kernelHeapStart, 0x2000⟩] (kernelHeapStart + 0x1000)
        final := by
  rcases sample_cleared with ⟨ghost, cleared, length⟩
  have page : Request 0x1000 := ⟨by decide, by decide⟩
  have rest : Request 0x9FFD000 := ⟨by decide, by decide⟩
  have pair : Request 0x2000 := ⟨by decide, by decide⟩
  rcases History.cycle (.boot sample_boots) cleared page (show 0 < 2 ^ 20 by decide) (by decide)
    (by rw [length]; decide) (Cleared.cleanly cleared page (by decide))
    (fun grown first => cleanly_live grown first _) with
    ⟨-, one, ghostOne, historyOne, clearedOne, idxOne, moreOne, -⟩
  replace clearedOne : Cleared ghostOne one 1 := clearedOne
  replace idxOne : one.idx = 1 := idxOne
  rcases historyOne.cycle clearedOne page (by rw [idxOne]; decide) (by decide)
    (show 1 ≤ _ by omega) (Cleared.cleanly clearedOne page (by decide))
    (fun grown first => cleanly_live grown first _) with
    ⟨stale, two, ghostTwo, historyTwo, clearedTwo, idxTwo, moreTwo, staleFirst, staleEnds, foundTwo⟩
  replace clearedTwo : Cleared ghostTwo two 2 := clearedTwo
  replace staleFirst : stale.first = kernelHeapStart + 0x1000 := staleFirst
  replace staleEnds : stale.last + 4096 = stale.first + 0x1000 := staleEnds
  rcases historyTwo.cycle clearedTwo rest (by rw [idxTwo, idxOne]; decide) (by decide)
    (show 0x9FFD ≤ _ by omega) (Cleared.cleanly clearedTwo rest (by decide))
    (fun grown first => cleanly_live grown first _) with
    ⟨big, three, ghostThree, historyThree, clearedThree, idxThree, moreThree, bigFirst, -,
      foundThree⟩
  replace clearedThree : Cleared ghostThree three 0x9FFF := clearedThree
  replace bigFirst : big.first = kernelHeapStart + 0x2000 := bigFirst
  rcases clearedThree.kmalloc pair (by rw [idxThree, idxTwo, idxOne]; decide) (by decide)
    (show 2 ≤ _ by omega) with ⟨record, after, final, returned, first, last, allocation⟩
  replace first : record.first = kernelHeapStart := first
  replace last : record.last = kernelHeapStart + 0x1000 := last
  have history : History sampleLayout sampleContents Cleanly final
      (if record.first = 0 then [] else [⟨record.first, roundUp 0x2000⟩])
      (if record.first = 0 then 3 else 4) :=
    .kmalloc historyThree (by decide) (Cleared.cleanly clearedThree pair (by decide)) returned
  rw [first, if_neg (by decide), if_neg (by decide)] at history
  refine ⟨final, history, fun frees => ?_⟩
  rcases history.valid with ⟨_, valid⟩
  have found : findHeapRecord final (kernelHeapStart + 0x1000) = some stale := by
    rw [findHeapRecord_new allocation.idx allocation.records, first, if_neg (by decide),
      foundThree, bigFirst, if_neg (by decide), foundTwo, if_pos staleFirst]
  have inBlock : kernelHeapStart + 0x1000 ∈ Block.pages ⟨kernelHeapStart, 0x2000⟩ :=
    mem_pageRange.mpr ⟨1, rfl, by decide⟩
  rcases (Valid.freesExactly_iff valid _).mp frees with ⟨block, member, start⟩ | free
  · rw [List.mem_singleton.mp member] at start
    exact absurd start (by decide)
  · have mapped := valid.mapped _ (List.mem_singleton_self _) _ inBlock
    have placed := valid.placed _ (List.mem_singleton_self _)
    refine mapped ((placed.heapAddress inBlock).slotEntry.trans (free stale found _ ?_))
    exact mem_pageRange.mpr ⟨0, rfl, by omega⟩

end FosKernel.HeapHistory
