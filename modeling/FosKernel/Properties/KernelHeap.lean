import FosKernel.Refinement.HeapProgress

/-! # Blocks of the kernel heap

Runs of `kmalloc` and `kfree` from boot on. As long as no search goes past the end of
the heap, every block lies inside the heap, is fully mapped to frames of its own and is
disjoint from all other live blocks.
-/

namespace FosKernel.KernelHeap

structure Block where
  first : Nat
  size : Nat
  deriving DecidableEq

def Block.pages (block : Block) : List Nat :=
  pageRange block.first (block.first + block.size)

def Block.Disjoint (left right : Block) : Prop :=
  ∀ address ∈ left.pages, address ∉ right.pages

/-- The block lies inside the heap and each of its pages is mapped to a frame with one
reference. -/
structure Block.Mapped (state : State) (block : Block) : Prop where
  aligned : block.first % 4096 = 0
  lower : kernelHeapStart ≤ block.first
  upper : block.first + block.size ≤ kernelHeapMax
  mapped : ∀ address ∈ block.pages, ∃ frame,
    state.bootTables (ppn address) = constructEntry frame (permPresent ||| permWriteable) ∧
      frameOf (state.bootTables (ppn address)) = frame ∧
      (state.framesInfo frame).references = 1
  distinct : ∀ left ∈ block.pages, ∀ right ∈ block.pages,
    frameOf (state.bootTables (ppn left)) = frameOf (state.bootTables (ppn right)) →
      left = right

/-- The live blocks are mapped and pairwise disjoint. -/
structure LiveBlocks (state : State) (live : List Block) : Prop where
  mapped : ∀ block ∈ live, block.Mapped state
  disjoint : live.Pairwise Block.Disjoint

/-- The frames on `free_frame_list`. -/
def FreeFrames (state : State) (frames : List Nat) : Prop :=
  Represents state.frameLinks state.freeFrameList frames

/-- What a call of `kmalloc` that returns a block does to the heap. -/
structure NewBlock (before after : State) (block : Block) : Prop where
  mapped : block.Mapped after
  unmapped : ∀ address ∈ block.pages, before.bootTables (ppn address) = 0
  taken : ∃ framesBefore framesAfter, FreeFrames before framesBefore ∧
    FreeFrames after framesAfter ∧ ∀ address ∈ block.pages,
      frameOf (after.bootTables (ppn address)) ∈ framesBefore ∧
      frameOf (after.bootTables (ppn address)) ∉ framesAfter
  others : ∀ address, HeapAddress address → address ∉ block.pages →
    after.bootTables (ppn address) = before.bootTables (ppn address)

/-- The states reached from boot by calls of `kmalloc` that `allowed` admits and calls
of `kfree` on live blocks, with the live blocks. -/
inductive Run (layout : BootLayout) (contents : BootContents)
    (allowed : State → Nat → Prop) : State → List Block → Prop
  | boot {state} :
      initializePaging layout.kernelFrames (layout.beforePaging contents) = .ok ((), state) →
      Run layout contents allowed state []
  | kmalloc {state live size address final} :
      Run layout contents allowed state live → Request size → allowed state size →
      kmalloc size state = .ok (address, final) →
      Run layout contents allowed final
        (if address = 0 then live else ⟨address, roundUp size⟩ :: live)
  | kfree {state live block final} :
      Run layout contents allowed state live → block ∈ live →
      kfree block.first state = .ok ((), final) →
      Run layout contents allowed final (live.erase block)

/-! ## Invariant of all runs -/

/-- Every mapped heap page has a frame of its own. -/
structure Sound (ghost : Ghost) (state : State) : Prop where
  supplied : Supplied ghost state
  noTable : ∀ table, state.view.table table = 0
  counted : ghost.uncounted = ∅
  single : ∀ frame, (ghost.holders frame).card ≤ 1
  words : ∀ page, state.view.entry (.heap page) ≠ 0 →
    ∃ frame ∈ ghost.managed, state.view.entry (.heap page) = heapEntry frame
  records : ∀ index, index < state.idx →
    HeapAddress (state.kHeapArr index).first ∧ HeapAddress (state.kHeapArr index).last

section Steps

variable {layout : BootLayout} {contents : BootContents} {allowed : State → Nat → Prop}
variable {ghost : Ghost} {state final : State} {live : List Block} {address size : Nat}

theorem boot_sound
    (returned : initializePaging layout.kernelFrames (layout.beforePaging contents) =
      .ok ((), state)) : ∃ ghost, Sound ghost state := by
  rcases initializePaging_ok returned with ⟨ghost, booted⟩
  refine ⟨ghost, booted.supplied, booted.table, ?_, ?_, ?_, ?_⟩
  · rcases booted.empty with ⟨free, rfl⟩
    rfl
  · rcases booted.empty with ⟨free, rfl⟩
    simp [BootLayout.ghost]
  · intro page mapped
    exact absurd (booted.entry (.heap page)) mapped
  · rcases booted.only with ⟨_, _, _, _, _, _, _, rfl⟩
    intro index bound
    exact absurd bound (Nat.not_lt_zero index)

/-- The heap page is the only one that refers to its frame. -/
theorem Sound.holders (sound : Sound ghost state) {page : Nat}
    (mapped : state.view.entry (.heap page) ≠ 0) :
    ghost.holders (frameOf (state.view.entry (.heap page))) = {.heap page} := by
  have held : Slot.heap page ∈ ghost.holders (frameOf (state.view.entry (.heap page))) := by
    rw [sound.supplied.consistent.mem_holders, sound.counted]
    exact ⟨Finset.notMem_empty _, mapped, rfl⟩
  refine Finset.eq_singleton_iff_unique_mem.mpr ⟨held, fun other member => ?_⟩
  exact Finset.card_le_one.mp (sound.single _) other member _ held

theorem Sound.releasable (sound : Sound ghost state) (page : Nat) :
    Releasable ghost state.view page := by
  by_cases mapped : state.view.entry (.heap page) = 0
  · exact .inl mapped
  · refine .inr ⟨?_, ?_, fun table nonzero => absurd (sound.noTable table) nonzero⟩
    · rw [sound.counted]
      exact Finset.notMem_empty _
    · rw [sound.holders mapped, Finset.card_singleton]
      decide

theorem Sound.grow {record : KernelHeapRecord} {after : Ghost} (sound : Sound ghost state)
    (allocation : KernelAllocation ghost state size record after final) :
    Sound after final := by
  have growth := allocation.growth
  have supplied : Supplied after final := sound.supplied.grow growth
    allocation.only.pageDirectory (by rcases allocation.only with ⟨_, _, _, _, _, _, _, rfl⟩; rfl)
  refine ⟨supplied, ?_, growth.uncounted.trans sound.counted, ?_, ?_, ?_⟩
  · rw [growth.table]
    exact sound.noTable
  · intro frame
    by_cases taken : frame ∈ ghost.free ∧ frame ∉ after.free
    · rcases growth.taken frame taken.1 taken.2 with ⟨page, -, handed⟩
      rw [handed.held]
      simp
    · rw [(growth.kept frame (by tauto)).2]
      exact sound.single frame
  · intro page mapped
    by_cases inside : page ∈ (pageRange record.first (record.last + 1)).map ppn
    · rcases growth.handedOut page inside with ⟨frame, handed⟩
      refine ⟨frame, ?_, handed.entry⟩
      rw [growth.managed]
      exact sound.supplied.consistent.listedManaged frame (.inl handed.free)
    · have outside : ∀ other ∈ (pageRange record.first (record.last + 1)).map ppn,
          Slot.heap page ≠ .heap other := by
        rintro other member ⟨rfl⟩
        exact inside member
      rw [growth.entries _ outside] at mapped ⊢
      rw [growth.managed]
      exact sound.words page mapped
  · exact allocation.heapRecords sound.records

theorem Sound.withHeapRecord (sound : Sound ghost state) (record : KernelHeapRecord) :
    Sound ghost (state.withHeapRecord record) := by
  refine ⟨sound.supplied.congr rfl, sound.noTable, sound.counted, sound.single, sound.words, ?_⟩
  intro index bound
  have below : index < state.idx := bound
  simp only [State.withHeapRecord, Function.update_of_ne (Nat.ne_of_lt below)]
  exact sound.records index below

theorem Sound.kmalloc (sound : Sound ghost state) (request : Request size)
    (returned : kmalloc size state = .ok (address, final)) :
    (address = 0 ∧ Sound ghost final ∧ ∃ record, final =
        { state with kHeapArr := Function.update state.kHeapArr state.idx record }) ∨
      ∃ record after, address = record.first ∧ Sound after final ∧
        KernelAllocation ghost state size record after final := by
  rcases kmalloc_ok sound.supplied.consistent request returned with
    ⟨rfl, -, record, rfl⟩ | ⟨record, after, rfl, allocation⟩
  · exact .inl ⟨rfl, sound.withHeapRecord record, record, rfl⟩
  · exact .inr ⟨record, after, rfl, sound.grow allocation, allocation⟩

/-- `kfree` gives back the pages of the record it finds. -/
theorem Sound.kfree (sound : Sound ghost state)
    (returned : kfree address state = .ok ((), final)) :
    (findHeapRecord state address = none ∧ final = state) ∨
      ∃ record after, findHeapRecord state address = some record ∧ Sound after final ∧
        HeapShrink ghost state.view ((pageRange address (record.last + 1)).map ppn) after
          final.view ∧ MapOnly state final := by
  rcases kfree_ok sound.records returned with unknown | ⟨record, found, heapPages, unmapped⟩
  · exact .inl unknown
  · rcases unmapHeapPages_ok sound.supplied.consistent heapPages
      (fun page _ => sound.releasable (ppn page)) unmapped with ⟨after, shrink, only⟩
    refine .inr ⟨record, after, found, ?_, shrink, only⟩
    have supplied := sound.supplied.shrink shrink
      (by rcases only with ⟨_, _, _, _, rfl⟩; rfl) (by rcases only with ⟨_, _, _, _, rfl⟩; rfl)
    refine ⟨supplied, ?_, shrink.uncounted.trans sound.counted, ?_, ?_, ?_⟩
    · rw [shrink.table]
      exact sound.noTable
    · intro frame
      exact (Finset.card_le_card (shrink.subset frame)).trans (sound.single frame)
    · intro page mapped
      have outside : ∀ other ∈ (pageRange address (record.last + 1)).map ppn,
          Slot.heap page ≠ .heap other := by
        rintro other member ⟨rfl⟩
        exact mapped (shrink.cleared page member)
      rw [shrink.entries _ outside] at mapped ⊢
      rw [shrink.managed]
      exact sound.words page mapped
    · rcases only with ⟨_, _, _, _, rfl⟩
      exact sound.records

theorem Sound.kfree_returns (sound : Sound ghost state) (address : Nat) :
    ∃ final, FosKernel.kfree address state = .ok ((), final) := by
  cases found : findHeapRecord state address with
  | none =>
      refine ⟨state, Kernel.bind_get_ok.mpr ?_⟩
      rw [found]
      rfl
  | some record =>
      rcases findHeapRecord_some found with ⟨index, bound, located, rfl⟩
      have heap := sound.records index bound
      rw [located] at heap
      have upper : record.last + 1 ≤ kernelHeapMax := heap.2.upper
      have pages : ∀ page ∈ pageRange record.first (record.last + 1), HeapAddress page :=
        fun page member => pageRange_heapAddress heap.1.lower upper heap.1.aligned member
      rcases unmapHeapPages_returns sound.supplied pages
        fun page _ => sound.releasable (ppn page) with ⟨final, returned⟩
      refine ⟨final, Kernel.bind_get_ok.mpr ?_⟩
      rw [found]
      exact returned

theorem Run.sound (run : Run layout contents allowed state live) :
    ∃ ghost, Sound ghost state := by
  induction run with
  | boot returned => exact boot_sound returned
  | kmalloc _ request _ returned induction =>
      rcases induction with ⟨ghost, sound⟩
      rcases sound.kmalloc request returned with ⟨-, later, -⟩ | ⟨_, after, -, later, -⟩
      · exact ⟨ghost, later⟩
      · exact ⟨after, later⟩
  | kfree _ _ returned induction =>
      rcases induction with ⟨ghost, sound⟩
      rcases sound.kfree returned with ⟨-, rfl⟩ | ⟨_, after, -, later, -⟩
      · exact ⟨ghost, sound⟩
      · exact ⟨after, later⟩

end Steps

/-! ## Address translation -/

/-- Translation from heap pages to frames and back is a bijection on mapped pages. -/
structure Bijection (state : State) : Prop where
  mapped : ∀ address, HeapAddress address → state.bootTables (ppn address) ≠ 0 →
    ∃ frame, kheapPhysicalAddress state address = .ok frame ∧
      kheapVirtualAddress state frame = .ok address
  frames : ∀ frame, frame < state.numberOfFrames →
    (∀ address, HeapAddress address → state.bootTables (ppn address) ≠ 0 →
      frameOf (state.bootTables (ppn address)) ≠ frame) →
    kheapVirtualAddress state frame = .ok 0
  unmapped : ∀ address, HeapAddress address → state.bootTables (ppn address) = 0 →
    kheapPhysicalAddress state address = .ok 0

/-- The search for a frame ends at the next-fit pointer. -/
theorem Bijection.below_startAdd {state : State} {address : Nat}
    (bijection : Bijection state) (layout : HeapLayout state.view)
    (heap : HeapAddress address) (mapped : state.bootTables (ppn address) ≠ 0) :
    address < state.startAdd := by
  rcases bijection.mapped address heap mapped with ⟨frame, -, back⟩
  rcases kheapVirtualAddress_ok layout back with zero | ⟨-, below, -⟩
  · have lower := heap.lower
    simp only [zero, kernelHeapStart] at lower
    omega
  · exact below

theorem Sound.find_heapPage {ghost : Ghost} {state : State} {address : Nat}
    {addresses : List Nat} (sound : Sound ghost state)
    (heap : HeapAddress address) (mapped : state.view.entry (.heap (ppn address)) ≠ 0)
    (heapPages : ∀ other ∈ addresses, HeapAddress other) (member : address ∈ addresses) :
    (addresses.find? fun other => decide (entryFrame (state.view.entry (.heap (ppn other))) =
      some (frameOf (state.view.entry (.heap (ppn address)))))) = some address := by
  cases found : addresses.find? fun other =>
      decide (entryFrame (state.view.entry (.heap (ppn other))) =
        some (frameOf (state.view.entry (.heap (ppn address))))) with
  | none =>
      have missing := List.find?_eq_none.mp found address member
      rw [decide_eq_true_iff, entryFrame_eq_some] at missing
      exact absurd ⟨mapped, rfl⟩ missing
  | some other =>
      have matching := List.find?_some found
      rw [decide_eq_true_iff, entryFrame_eq_some] at matching
      have holders := sound.holders matching.1
      rw [matching.2, sound.holders mapped, Finset.singleton_inj, Slot.heap.injEq] at holders
      have otherAligned := (heapPages other (List.mem_of_find?_eq_some found)).aligned
      have aligned := heap.aligned
      have same : other = address := by
        simp only [ppn] at holders
        omega
      rw [same]

/-- In every reachable state translation is a bijection exactly when no page above the
next-fit pointer is mapped. -/
theorem bijection_iff_below_startAdd {layout : BootLayout} {contents : BootContents}
    {allowed : State → Nat → Prop} {state : State} {live : List Block}
    (run : Run layout contents allowed state live) :
    Bijection state ↔ ∀ address, HeapAddress address →
      state.bootTables (ppn address) ≠ 0 → address < state.startAdd := by
  rcases run.sound with ⟨ghost, sound⟩
  have heapLayout := sound.supplied.consistent.toHeapLayout
  have serviceable := sound.supplied.serviceable
  have entryOf : ∀ {address}, HeapAddress address →
      state.view.entry (.heap (ppn address)) = state.bootTables (ppn address) :=
    fun heap => heap.slotEntry
  constructor
  · exact fun bijection address heap mapped => bijection.below_startAdd heapLayout heap mapped
  · intro below
    refine ⟨?_, ?_, ?_⟩
    · intro address heap mapped
      have physical := kheapPhysicalAddress_returns heapLayout serviceable heap
      rw [← entryOf heap] at mapped
      have bound := serviceable.frames _ mapped
      refine ⟨_, physical, ?_⟩
      rw [kheapVirtualAddress_returns heapLayout serviceable bound]
      have inRange : address ∈ pageRange kernelHeapStart state.startAdd := by
        rw [mem_pageRange]
        have lower := heap.lower
        have aligned := heap.aligned
        refine ⟨(address - kernelHeapStart) / 4096, ?_, ?_⟩
        · simp only [kernelHeapStart] at *
          omega
        · exact below address heap (entryOf heap ▸ mapped)
      have heapPages : ∀ other ∈ pageRange kernelHeapStart state.startAdd,
          HeapAddress other := fun other member =>
        pageRange_heapAddress le_rfl heapLayout.startUpper (by decide) member
      rw [sound.find_heapPage heap mapped heapPages inRange]
      rfl
    · intro frame bound unused
      rw [kheapVirtualAddress_returns heapLayout serviceable bound]
      have none : ((pageRange kernelHeapStart state.startAdd).find? fun address =>
          decide (entryFrame (state.view.entry (.heap (ppn address))) = some frame)) = none := by
        rw [List.find?_eq_none]
        intro address member
        have heap := pageRange_heapAddress le_rfl heapLayout.startUpper (by decide) member
        rw [decide_eq_true_iff, entryFrame_eq_some, entryOf heap]
        rintro ⟨mapped, refers⟩
        exact unused address heap mapped refers
      rw [none]
      rfl
    · intro address heap unmapped
      rw [kheapPhysicalAddress_returns heapLayout serviceable heap, entryOf heap, unmapped]
      rfl

/-! ## Live blocks -/

structure Block.WellPlaced (block : Block) : Prop where
  aligned : block.first % 4096 = 0
  lower : kernelHeapStart ≤ block.first
  upper : block.first + block.size ≤ kernelHeapMax
  positive : 0 < block.size
  whole : block.size % 4096 = 0

/-- `kfree` finds the record of the block. -/
def Recorded (state : State) (block : Block) : Prop :=
  ∃ record, findHeapRecord state block.first = some record ∧
    record.last + 4096 = block.first + block.size

structure Valid (ghost : Ghost) (state : State) (live : List Block) : Prop where
  sound : Sound ghost state
  placed : ∀ block ∈ live, block.WellPlaced
  mapped : ∀ block ∈ live, ∀ address ∈ block.pages,
    state.view.entry (.heap (ppn address)) ≠ 0
  disjoint : live.Pairwise Block.Disjoint
  recorded : ∀ block ∈ live, Recorded state block

section Blocks

variable {ghost : Ghost} {state final : State} {live : List Block} {block : Block}

theorem Block.Disjoint.symm {left right : Block} (disjoint : left.Disjoint right) :
    right.Disjoint left := fun address inRight inLeft => disjoint address inLeft inRight

theorem Block.WellPlaced.pages_eq (placed : block.WellPlaced) {last : Nat}
    (ends : last + 4096 = block.first + block.size) :
    block.pages = pageRange block.first (last + 1) := by
  have whole := placed.whole
  have positive := placed.positive
  simp only [Block.pages, pageRange]
  congr 2
  omega

theorem Block.WellPlaced.heapAddress (placed : block.WellPlaced) {address : Nat}
    (member : address ∈ block.pages) : HeapAddress address :=
  pageRange_heapAddress placed.lower placed.upper placed.aligned member

theorem Block.WellPlaced.first_mem (placed : block.WellPlaced) :
    block.first ∈ block.pages := by
  have positive := placed.positive
  rw [Block.pages, mem_pageRange]
  exact ⟨0, by omega, by omega⟩

theorem Valid.blockMapped (valid : Valid ghost state live) (member : block ∈ live) :
    block.Mapped state := by
  have consistent := valid.sound.supplied.consistent
  have placed := valid.placed block member
  have entryOf : ∀ address ∈ block.pages,
      state.view.entry (.heap (ppn address)) = state.bootTables (ppn address) :=
    fun address inBlock => (placed.heapAddress inBlock).slotEntry
  refine ⟨placed.aligned, placed.lower, placed.upper, ?_, ?_⟩
  · intro address inBlock
    have mapped := valid.mapped block member address inBlock
    have holders := valid.sound.holders mapped
    rcases valid.sound.words (ppn address) mapped with ⟨frame, managed, word⟩
    have refers : frameOf (state.view.entry (.heap (ppn address))) = frame := by
      rw [word, frameOf_heapEntry (consistent.bounded frame managed)]
    rw [refers] at holders
    have unlisted : ¬ghost.Listed frame := by
      intro listed
      rcases (consistent.buffered frame listed (.heap (ppn address))
        (by simp [holders])).1 with ⟨_, _, equal⟩
      contradiction
    refine ⟨frame, ?_, ?_, ?_⟩
    · rw [← entryOf address inBlock, word]
      rfl
    · rw [← entryOf address inBlock, refers]
    · have counted := consistent.counted frame managed unlisted
      rwa [holders, Finset.card_singleton] at counted
  · intro left inLeft right inRight equal
    rw [← entryOf left inLeft, ← entryOf right inRight] at equal
    have leftHolders := valid.sound.holders (valid.mapped block member left inLeft)
    have rightHolders := valid.sound.holders (valid.mapped block member right inRight)
    rw [equal, rightHolders, Finset.singleton_inj, Slot.heap.injEq] at leftHolders
    have leftAligned := (placed.heapAddress inLeft).aligned
    have rightAligned := (placed.heapAddress inRight).aligned
    simp only [ppn] at leftHolders
    omega

theorem Valid.liveBlocks (valid : Valid ghost state live) : LiveBlocks state live :=
  ⟨fun _ member => valid.blockMapped member, valid.disjoint⟩

/-- The search of `kfree` sees the records below `IDX`. -/
theorem find_records_congr {left right : Nat → KernelHeapRecord} {address count : Nat}
    (same : ∀ index < count, left index = right index) :
    ((List.range count).reverse.find? fun index =>
        decide ((left index).first = address)).map left =
      ((List.range count).reverse.find? fun index =>
        decide ((right index).first = address)).map right := by
  induction count with
  | zero => rfl
  | succ count induction =>
      have last := same count (Nat.lt_succ_self count)
      have rest := induction fun index bound => same index (Nat.lt_succ_of_lt bound)
      rw [List.range_succ, List.reverse_append]
      simp only [List.reverse_cons, List.reverse_nil, List.nil_append, List.cons_append,
        List.find?_cons, last]
      by_cases found : (right count).first = address
      · simp [found, last]
      · simpa [found] using rest

theorem findHeapRecord_congr {address : Nat} (idx : final.idx = state.idx)
    (records : ∀ index < state.idx, final.kHeapArr index = state.kHeapArr index) :
    findHeapRecord final address = findHeapRecord state address := by
  rw [findHeapRecord, findHeapRecord, idx]
  exact find_records_congr records

/-- A new record is found first. -/
theorem findHeapRecord_new {address : Nat} {record : KernelHeapRecord}
    (idx : final.idx = state.idx + 1)
    (records : final.kHeapArr = Function.update state.kHeapArr state.idx record) :
    findHeapRecord final address =
      if record.first = address then some record else findHeapRecord state address := by
  have older : ∀ index < state.idx, final.kHeapArr index = state.kHeapArr index := by
    intro index bound
    rw [records, Function.update_of_ne (Nat.ne_of_lt bound)]
  have newest : final.kHeapArr state.idx = record := by
    rw [records, Function.update_self]
  rw [findHeapRecord, findHeapRecord, idx, List.range_succ, List.reverse_append,
    ← find_records_congr older]
  simp only [List.reverse_cons, List.reverse_nil, List.nil_append, List.cons_append,
    List.find?_cons, newest]
  by_cases found : record.first = address
  · simp [found, newest]
  · simp [found]

variable {size address : Nat}

/-- A request whose search stays inside the heap gets a block. -/
theorem allocation_block {record : KernelHeapRecord} {after : Ghost}
    (allocation : KernelAllocation ghost state size record after final)
    (request : Request size) (straight : ¬WrapsAround state.view (roundUp size)) :
    Block.WellPlaced ⟨record.first, roundUp size⟩ ∧
      Block.pages ⟨record.first, roundUp size⟩ = pageRange record.first (record.last + 1) ∧
      record.last + 4096 = record.first + roundUp size := by
  rcases allocation.scanned with ⟨start, scanned⟩
  rcases request.roundUp with ⟨whole, positive, -⟩
  have inside : ¬Crosses state.view (roundUp size / 4096) start := fun crosses =>
    straight ⟨start, scanned.run, crosses⟩
  rcases scanned.block positive inside with ⟨ends, upper⟩
  rw [← whole] at ends upper
  have heap := scanned.first_heapAddress
  have placed : Block.WellPlaced ⟨record.first, roundUp size⟩ :=
    ⟨heap.aligned, heap.lower, upper, by simp only; omega, by simp only; omega⟩
  exact ⟨placed, placed.pages_eq ends, ends⟩

theorem heapPage_ne {left : Nat} {pages : List Nat} (aligned : left % 4096 = 0)
    (pagesAligned : ∀ page ∈ pages, page % 4096 = 0) (outside : left ∉ pages) :
    ∀ page ∈ pages.map ppn, Slot.heap (ppn left) ≠ .heap page := by
  rintro page inPages ⟨rfl⟩
  rcases List.mem_map.mp inPages with ⟨other, inBlock, equal⟩
  have otherAligned := pagesAligned other inBlock
  have same : other = left := by
    simp only [ppn] at equal
    omega
  exact outside (same ▸ inBlock)

theorem allocation_newBlock {record : KernelHeapRecord} {after : Ghost}
    (valid : Valid ghost state live)
    (allocation : KernelAllocation ghost state size record after final)
    (placed : Block.WellPlaced ⟨record.first, roundUp size⟩)
    (pages : Block.pages ⟨record.first, roundUp size⟩ =
      pageRange record.first (record.last + 1))
    (mapped : Block.Mapped final ⟨record.first, roundUp size⟩) :
    NewBlock state final ⟨record.first, roundUp size⟩ := by
  have growth := allocation.growth
  rw [← pages] at growth
  refine ⟨mapped, ?_, ?_, ?_⟩
  · intro address inBlock
    rw [← (placed.heapAddress inBlock).slotEntry]
    exact growth.wasFree _ (List.mem_map_of_mem inBlock)
  · refine ⟨ghost.free, after.free, valid.sound.supplied.consistent.lists.first,
      growth.consistent.lists.first, fun address inBlock => ?_⟩
    rcases growth.handedOut _ (List.mem_map_of_mem inBlock) with ⟨frame, handed⟩
    have consistent := valid.sound.supplied.consistent
    have bound := consistent.bounded frame (consistent.listedManaged frame (.inl handed.free))
    have refers : frameOf (final.bootTables (ppn address)) = frame := by
      rw [← (placed.heapAddress inBlock).slotEntry]
      exact (congrArg frameOf handed.entry).trans (frameOf_heapEntry bound)
    rw [refers]
    exact ⟨handed.free, handed.taken⟩
  · intro address heap outside
    rw [← heap.slotEntry, ← heap.slotEntry]
    exact growth.entries _ (heapPage_ne heap.aligned
      (fun page inBlock => (placed.heapAddress inBlock).aligned) outside)

theorem Valid.kmalloc (valid : Valid ghost state live) (request : Request size)
    (straight : ¬WrapsAround state.view (roundUp size))
    (returned : kmalloc size state = .ok (address, final)) :
    (address = 0 ∧ ∃ after, Valid after final live) ∨
      address ≠ 0 ∧ NewBlock state final ⟨address, roundUp size⟩ ∧
        ∃ after, Valid after final (⟨address, roundUp size⟩ :: live) := by
  rcases valid.sound.kmalloc request returned with
    ⟨rfl, sound, record, rfl⟩ | ⟨record, after, rfl, sound, allocation⟩
  · refine .inl ⟨rfl, ghost, sound, valid.placed, valid.mapped, valid.disjoint, ?_⟩
    intro block member
    rcases valid.recorded block member with ⟨found, located, ends⟩
    refine ⟨found, ?_, ends⟩
    rw [← located]
    exact findHeapRecord_congr rfl fun index bound =>
      Function.update_of_ne (Nat.ne_of_lt bound) _ _
  · rcases allocation_block allocation request straight with ⟨placed, pages, ends⟩
    have growth := allocation.growth
    rw [← pages] at growth
    have lower := placed.lower
    have nonzero : record.first ≠ 0 := by
      simp only [kernelHeapStart] at lower
      omega
    have fresh : ∀ block ∈ live, Block.Disjoint ⟨record.first, roundUp size⟩ block := by
      intro block member address inNew inBlock
      exact valid.mapped block member address inBlock
        (growth.wasFree _ (List.mem_map_of_mem inNew))
    have later : Valid after final (⟨record.first, roundUp size⟩ :: live) := by
      refine ⟨sound, ?_, ?_, List.pairwise_cons.mpr ⟨fresh, valid.disjoint⟩, ?_⟩
      · intro block member
        rcases List.mem_cons.mp member with rfl | old
        · exact placed
        · exact valid.placed block old
      · intro block member address inBlock
        rcases List.mem_cons.mp member with rfl | old
        · rcases growth.handedOut _ (List.mem_map_of_mem inBlock) with ⟨frame, handed⟩
          rw [handed.entry]
          exact ne_zero_of_present (present_heapEntry frame)
        · have outside : address ∉ Block.pages ⟨record.first, roundUp size⟩ :=
            fun inNew => fresh block old address inNew inBlock
          rw [growth.entries _ (heapPage_ne ((valid.placed block old).heapAddress inBlock).aligned
            (fun page inNew => (placed.heapAddress inNew).aligned) outside)]
          exact valid.mapped block old address inBlock
      · intro block member
        rw [Recorded, findHeapRecord_new allocation.idx allocation.records]
        rcases List.mem_cons.mp member with rfl | old
        · exact ⟨record, if_pos rfl, ends⟩
        · have different : record.first ≠ block.first := by
            intro equal
            have inBlock := (valid.placed block old).first_mem
            rw [← equal] at inBlock
            exact fresh block old record.first placed.first_mem inBlock
          rw [if_neg different]
          exact valid.recorded block old
    exact .inr ⟨nonzero, allocation_newBlock valid allocation placed pages
      (later.blockMapped (by simp)), after, later⟩

theorem Valid.kfree (valid : Valid ghost state live) (member : block ∈ live)
    (returned : kfree block.first state = .ok ((), final)) :
    ∃ after, Valid after final (live.erase block) := by
  rcases valid.recorded block member with ⟨record, found, ends⟩
  have placed := valid.placed block member
  rcases valid.sound.kfree returned with
    ⟨missing, -⟩ | ⟨same, after, foundSame, sound, shrink, only⟩
  · rw [found] at missing
    contradiction
  · rw [found, Option.some.injEq] at foundSame
    subst foundSame
    rw [← placed.pages_eq ends] at shrink
    have apart : ∀ other ∈ live.erase block, block.Disjoint other := by
      have pairwise := ((List.perm_cons_erase member).pairwise_iff
        fun {left right} => Block.Disjoint.symm).mp valid.disjoint
      exact (List.pairwise_cons.mp pairwise).1
    refine ⟨after, sound, ?_, ?_, ?_, ?_⟩
    · exact fun other left => valid.placed other (List.mem_of_mem_erase left)
    · intro other left address inOther
      have outside : ∀ page ∈ block.pages.map ppn, Slot.heap (ppn address) ≠ .heap page := by
        rintro page inPages ⟨rfl⟩
        rcases List.mem_map.mp inPages with ⟨same, inBlock, equal⟩
        have otherPlaced := valid.placed other (List.mem_of_mem_erase left)
        have otherAligned := (otherPlaced.heapAddress inOther).aligned
        have aligned := (placed.heapAddress inBlock).aligned
        have sameAddress : same = address := by
          simp only [ppn] at equal
          omega
        exact apart other left address (sameAddress ▸ inBlock) inOther
      rw [shrink.entries _ outside]
      exact valid.mapped other (List.mem_of_mem_erase left) address inOther
    · exact valid.disjoint.sublist List.erase_sublist
    · intro other left
      rcases valid.recorded other (List.mem_of_mem_erase left) with
        ⟨otherRecord, otherFound, otherEnds⟩
      refine ⟨otherRecord, ?_, otherEnds⟩
      rcases only with ⟨_, _, _, _, rfl⟩
      exact otherFound

end Blocks

/-- The search for a block of this size stays inside the heap. -/
def StaysInside (state : State) (size : Nat) : Prop :=
  ¬WrapsAround state.view (roundUp size)

theorem Run.valid {layout : BootLayout} {contents : BootContents} {state : State}
    {live : List Block} (run : Run layout contents StaysInside state live) :
    ∃ ghost, Valid ghost state live := by
  induction run with
  | boot returned =>
      rcases boot_sound returned with ⟨ghost, sound⟩
      exact ⟨ghost, sound, by simp, by simp, .nil, by simp⟩
  | kmalloc _ request inside returned induction =>
      rcases induction with ⟨ghost, valid⟩
      rcases valid.kmalloc request inside returned with
        ⟨rfl, after, later⟩ | ⟨nonzero, -, after, later⟩
      · exact ⟨after, later⟩
      · exact ⟨after, by rwa [if_neg nonzero]⟩
  | kfree _ member returned induction =>
      rcases induction with ⟨ghost, valid⟩
      exact valid.kfree member returned

/-- In runs whose searches stay inside the heap all live blocks are mapped and disjoint,
and every call of `kmalloc` gives a new block. -/
theorem live_blocks_of_searches_inside {layout : BootLayout} {contents : BootContents}
    {state : State} {live : List Block} (run : Run layout contents StaysInside state live) :
    LiveBlocks state live ∧ ∀ size address final, Request size → StaysInside state size →
      kmalloc size state = .ok (address, final) → address ≠ 0 →
        NewBlock state final ⟨address, roundUp size⟩ ∧
          LiveBlocks final (⟨address, roundUp size⟩ :: live) := by
  rcases run.valid with ⟨ghost, valid⟩
  refine ⟨valid.liveBlocks, fun size address final request inside returned nonzero => ?_⟩
  rcases valid.kmalloc request inside returned with ⟨zero, -⟩ | ⟨-, new, after, later⟩
  · exact absurd zero nonzero
  · exact ⟨new, later.liveBlocks⟩

/-! ## A run past the end of the heap -/

/-- A heap without blocks, with the next-fit pointer at the page number `offset`. -/
structure Cleared (ghost : Ghost) (state : State) (offset : Nat) : Prop where
  sound : Sound ghost state
  free : ∀ page, state.view.entry (.heap page) = 0
  startAdd : state.startAdd = kernelHeapStart + offset * 4096
  strategy : state.kHeapPlacementStrategy = .nextFit

section Sample

variable {ghost : Ghost} {state : State} {offset size : Nat}

/-- The machine of the sample with any contents of memory and of the disk. -/
theorem boot_cleared (contents : BootContents) :
    ∃ ghost, Cleared ghost (sampleLayout.booted contents) 0 ∧ ghost.free.length = 63645 := by
  have boots := initializePaging_form sampleLayout contents (by decide)
  rcases initializePaging_ok boots with ⟨ghost, booted⟩
  rcases boot_sound boots with ⟨ghost, sound⟩
  exact ⟨ghost, ⟨sound, fun page => booted.entry (.heap page), rfl, rfl⟩,
    sound.supplied.consistent.lists.first.size.symm⟩

theorem sample_cleared :
    ∃ ghost, Cleared ghost sampleState 0 ∧ ghost.free.length = 63645 :=
  boot_cleared sampleContents

theorem scanOffset_eq (startAdd : state.startAdd = kernelHeapStart + offset * 4096) :
    scanOffset state.view = offset := by
  have same : state.view.startAdd = _ := startAdd
  simp only [scanOffset, same, Nat.add_sub_cancel_left,
    Nat.mul_div_left offset (by decide : 0 < 4096)]

theorem Cleared.kmalloc (cleared : Cleared ghost state offset) (request : Request size)
    (records : state.idx < 2 ^ 20) (fits : roundUp size / 4096 ≤ kernelHeapPages)
    (enough : roundUp size / 4096 ≤ ghost.free.length) :
    ∃ record after final, kmalloc size state = .ok (record.first, final) ∧
      record.first = kernelHeapStart + offset % kernelHeapPages * 4096 ∧
      record.last = kernelHeapStart +
        (offset + (roundUp size / 4096 - 1)) % kernelHeapPages * 4096 ∧
      KernelAllocation ghost state size record after final := by
  rcases kmalloc_fits cleared.sound.supplied request records cleared.strategy
    (fun count _ _ => cleared.free _) fits enough with
    ⟨record, after, final, returned, first, last, allocation⟩
  simp only [visitedPage, scanOffset_eq cleared.startAdd] at first last
  exact ⟨record, after, final, returned, first, last, allocation⟩

theorem Cleared.staysInside (cleared : Cleared ghost state offset)
    (fits : offset % kernelHeapPages + roundUp size / 4096 ≤ kernelHeapPages) :
    StaysInside state size := by
  rintro ⟨start, run, crosses⟩
  have atPointer : start = 0 := by
    by_contra later
    exact run.first 0 (by omega) fun count _ _ => cleared.free _
  rw [atPointer, Crosses, scanOffset_eq cleared.startAdd] at crosses
  exact absurd fits (Nat.not_le.mpr crosses)

/-- A block of one page. -/
theorem sample_one_block :
    ∃ state, Run sampleLayout sampleContents StaysInside state
        [⟨kernelHeapStart, roundUp 0x1000⟩] ∧
      state.startAdd = kernelHeapStart + 0x1000 ∧
      ∀ page, page ≠ ppn kernelHeapStart → state.view.entry (.heap page) = 0 := by
  rcases sample_cleared with ⟨ghost, cleared, length⟩
  have request : Request 0x1000 := ⟨by decide, by decide⟩
  rcases cleared.kmalloc request (show 0 < 2 ^ 20 by decide) (by decide)
    (by rw [length]; decide) with ⟨record, after, final, returned, first, last, allocation⟩
  replace first : record.first = kernelHeapStart := first
  replace last : record.last = kernelHeapStart := last
  have run : Run sampleLayout sampleContents StaysInside final
      (if record.first = 0 then [] else [⟨record.first, roundUp 0x1000⟩]) :=
    .kmalloc (.boot sample_boots) request (cleared.staysInside (by decide)) returned
  rw [first, if_neg (by decide)] at run
  have pages : (pageRange record.first (record.last + 1)).map ppn = [ppn kernelHeapStart] := by
    rw [first, last]
    rfl
  refine ⟨final, run, by rw [allocation.startAdd, last], fun page different => ?_⟩
  rw [allocation.growth.entries _ (by rw [pages]; simpa using different)]
  exact cleared.free page

theorem live_blocks_of_one_page :
    ∃ state, Run sampleLayout sampleContents StaysInside state
        [⟨kernelHeapStart, roundUp 0x1000⟩] ∧
      LiveBlocks state [⟨kernelHeapStart, roundUp 0x1000⟩] := by
  rcases sample_one_block with ⟨state, run, -⟩
  exact ⟨state, run, (live_blocks_of_searches_inside run).1⟩

theorem bijection_of_one_page :
    ∃ state, Run sampleLayout sampleContents StaysInside state
        [⟨kernelHeapStart, roundUp 0x1000⟩] ∧ Bijection state := by
  rcases sample_one_block with ⟨state, run, pointer, free⟩
  refine ⟨state, run, (bijection_iff_below_startAdd run).mpr fun address heap mapped => ?_⟩
  have first : ppn address = ppn kernelHeapStart := by
    by_contra other
    exact mapped ((heap.slotEntry).symm.trans (free _ other))
  rw [pointer]
  simp only [ppn, kernelHeapStart] at *
  omega

/-- The frames of a block that is allocated and freed are free again. -/
theorem free_recycled {record : KernelHeapRecord} {grown last : Ghost} {middle final : State}
    (sound : Sound ghost state)
    (allocation : KernelAllocation ghost state size record grown middle)
    (shrink : HeapShrink grown middle.view ((pageRange record.first (record.last + 1)).map ppn)
      last final.view) : ghost.free ⊆ last.free := by
  intro frame member
  have consistent := sound.supplied.consistent
  have growth := allocation.growth
  have idle := consistent.idle frame (.inl member) (sound.supplied.plain frame member)
  have listed : last.Listed frame := by
    by_cases still : frame ∈ grown.free
    · have unheld : grown.holders frame = ∅ := by
        rw [(growth.kept frame (.inr still)).2, idle]
      exact shrink.back.freed frame (Finset.subset_empty.mp (unheld ▸ shrink.subset frame))
        (.inr (.inl still))
    · rcases growth.taken frame member still with ⟨page, inPages, handed⟩
      have held := handed.held
      refine shrink.back.freed frame ?_ (.inl (by rw [held]; simp))
      refine Finset.eq_empty_of_forall_notMem fun slot inside => ?_
      have only := shrink.subset frame inside
      rw [held, Finset.mem_singleton] at only
      subst only
      exact (shrink.consistent.mem_holders.mp inside).2.1 (shrink.cleared page inPages)
  refine listed.resolve_right fun inModified => ?_
  rw [shrink.modified, growth.modified] at inModified
  exact consistent.lists.apart frame member inModified

/-- Allocating a block of an empty heap and freeing it moves the next-fit pointer behind
the block and leaves its record. -/
theorem Cleared.cycle (cleared : Cleared ghost state offset) (request : Request size)
    (records : state.idx < 2 ^ 20)
    (fits : offset % kernelHeapPages + roundUp size / 4096 ≤ kernelHeapPages)
    (enough : roundUp size / 4096 ≤ ghost.free.length) :
    ∃ record grown final last, FosKernel.kmalloc size state = .ok (record.first, grown) ∧
      record.first = kernelHeapStart + offset % kernelHeapPages * 4096 ∧
      record.last + 4096 = record.first + roundUp size ∧
      kfree record.first grown = .ok ((), final) ∧
      Cleared last final (offset % kernelHeapPages + roundUp size / 4096) ∧
      final.idx = state.idx + 1 ∧ ghost.free.length ≤ last.free.length ∧
      ∀ address, findHeapRecord final address =
        if record.first = address then some record else findHeapRecord state address := by
  rcases cleared.kmalloc request records (by omega) enough with
    ⟨record, after, grown, returned, first, last, allocation⟩
  have sound := cleared.sound.grow allocation
  have ends : record.last + 4096 = record.first + roundUp size := by
    have whole := request.roundUp
    simp only [kernelHeapPages] at *
    omega
  rcases sound.kfree_returns record.first with ⟨final, freed⟩
  have found : findHeapRecord grown record.first = some record := by
    rw [findHeapRecord_new allocation.idx allocation.records, if_pos rfl]
  rcases sound.kfree freed with ⟨missing, -⟩ | ⟨same, end_, foundSame, later, shrink, only⟩
  · exact absurd (found.symm.trans missing) (Option.some_ne_none record)
  rw [found, Option.some.injEq] at foundSame
  subst foundSame
  have growth := allocation.growth
  refine ⟨record, grown, final, end_, returned, first, ends, freed, ⟨later, ?_, ?_, ?_⟩, ?_, ?_, ?_⟩
  · intro page
    by_cases inside : page ∈ (pageRange record.first (record.last + 1)).map ppn
    · exact shrink.cleared page inside
    · have outside : ∀ other ∈ (pageRange record.first (record.last + 1)).map ppn,
          Slot.heap page ≠ .heap other := by
        rintro other member ⟨rfl⟩
        exact inside member
      rw [shrink.entries _ outside, growth.entries _ outside]
      exact cleared.free page
  · have pointer := allocation.startAdd
    have whole := request.roundUp.1
    rcases only with ⟨_, _, _, _, rfl⟩
    simp only [pointer]
    omega
  · have strategy := cleared.strategy
    rcases only with ⟨_, _, _, _, rfl⟩
    rcases allocation.only with ⟨_, _, _, _, _, _, _, rfl⟩
    exact strategy
  · have index := allocation.idx
    rcases only with ⟨_, _, _, _, rfl⟩
    exact index
  · exact (cleared.sound.supplied.consistent.lists.first.nodup.subperm
      (free_recycled cleared.sound allocation shrink)).length_le
  · intro address
    rw [← findHeapRecord_new allocation.idx allocation.records]
    rcases only with ⟨_, _, _, _, rfl⟩
    rfl

/-- Allocating all pages but the last one and freeing them moves the next-fit pointer to
the last page. -/
theorem sample_last_page :
    ∃ ghost state, Run sampleLayout sampleContents (fun _ _ => True) state [] ∧
      Cleared ghost state 0x9FFE ∧ state.idx = 1 ∧ 2 ≤ ghost.free.length := by
  rcases sample_cleared with ⟨ghost, cleared, length⟩
  have request : Request 0x9FFE000 := ⟨by decide, by decide⟩
  rcases cleared.cycle request (show 0 < 2 ^ 20 by decide) (by decide)
    (by rw [length]; decide) with
    ⟨record, grown, final, last, returned, first, -, freed, after, idx, more, -⟩
  have nonzero : record.first ≠ 0 := by
    rw [first]
    decide
  have run : Run sampleLayout sampleContents (fun _ _ => True) final [] := by
    have one : Run sampleLayout sampleContents (fun _ _ => True) grown
        (if record.first = 0 then [] else [⟨record.first, roundUp 0x9FFE000⟩]) :=
      .kmalloc (.boot sample_boots) request trivial returned
    rw [if_neg nonzero] at one
    have none := Run.kfree one (List.mem_singleton_self _) freed
    rwa [List.erase_cons_head] at none
  exact ⟨last, final, run, after, idx, by omega⟩

/-- A block of two pages at the last page of the heap ends beyond the heap. -/
theorem kmalloc_past_end :
    ∃ state final, Run sampleLayout sampleContents (fun _ _ => True) state [] ∧
      kmalloc 0x2000 state = .ok (0xFFFFE000, final) ∧
      ¬NewBlock state final ⟨0xFFFFE000, roundUp 0x2000⟩ := by
  rcases sample_last_page with ⟨ghost, state, run, cleared, index, enough⟩
  rcases cleared.kmalloc (show Request 0x2000 from ⟨by decide, by decide⟩)
    (by rw [index]; decide) (by decide) enough with ⟨record, after, final, returned, first, -⟩
  replace first : record.first = 0xFFFFE000 := first
  rw [first] at returned
  refine ⟨state, final, run, returned, fun new => ?_⟩
  have upper := new.mapped.upper
  exact absurd upper (by decide)

/-- After the pointer went round the heap, a page of the kernel heap above it is not
found. -/
theorem translation_after_wrap :
    ∃ state live, Run sampleLayout sampleContents (fun _ _ => True) state live ∧
      ¬Bijection state := by
  rcases sample_last_page with ⟨ghost, state, run, cleared, index, enough⟩
  have request : Request 0x1000 := ⟨by decide, by decide⟩
  rcases cleared.kmalloc request (by rw [index]; decide) (by decide)
    (show 1 ≤ _ by omega) with ⟨high, grown, middle, returned, first, last, allocation⟩
  replace first : high.first = 0xFFFFE000 := first
  replace last : high.last = 0xFFFFE000 := last
  have growth := allocation.growth
  have sound := cleared.sound.grow allocation
  have pages : (pageRange high.first (high.last + 1)).map ppn = [0xFFFFE] := by
    rw [first, last]
    rfl
  rw [pages] at growth
  have pointer : middle.startAdd = kernelHeapStart + 0x9FFF * 4096 := by
    rw [allocation.startAdd, last]
  have visits : visitedPage middle.view 0 = kernelHeapStart := by
    rw [visitedPage, scanOffset_eq pointer]
    rfl
  have room : FreeRun middle.view 0 (roundUp 0x1000 / 4096) := by
    intro count _ below
    have only : count = 0 := Nat.lt_one_iff.mp below
    rw [only, visits, growth.entries _ (by decide)]
    exact cleared.free _
  have strategy : middle.kHeapPlacementStrategy = .nextFit := by
    have before := cleared.strategy
    rcases allocation.only with ⟨_, _, _, _, _, _, _, rfl⟩
    exact before
  rcases kmalloc_fits sound.supplied request (by rw [allocation.idx, index]; decide) strategy
    room (by decide) (by have := growth.length; simp at this; show 1 ≤ _; omega) with
    ⟨low, after, final, again, lowFirst, lowLast, lower⟩
  replace lowFirst : low.first = kernelHeapStart := lowFirst.trans visits
  replace lowLast : low.last = kernelHeapStart := lowLast.trans visits
  refine ⟨final, _, .kmalloc (.kmalloc run request trivial returned) request trivial again, ?_⟩
  intro bijection
  have lowPages : (pageRange low.first (low.last + 1)).map ppn = [0xF6000] := by
    rw [lowFirst, lowLast]
    rfl
  have lowGrowth := lower.growth
  rw [lowPages] at lowGrowth
  have heap : HeapAddress 0xFFFFE000 := ⟨by decide, by decide, by decide⟩
  have mapped : final.bootTables (ppn 0xFFFFE000) ≠ 0 := by
    rw [← heap.slotEntry]
    rcases growth.handedOut 0xFFFFE (by simp) with ⟨frame, handed⟩
    change final.view.entry (.heap 0xFFFFE) ≠ 0
    rw [lowGrowth.entries _ (by decide), handed.entry]
    exact ne_zero_of_present (present_heapEntry frame)
  have below := bijection.below_startAdd lowGrowth.consistent.toHeapLayout heap mapped
  rw [lower.startAdd, lowLast] at below
  exact absurd below (by decide)

end Sample

end FosKernel.KernelHeap
