import FosKernel.Memory.Layout
import Mathlib.Data.List.Pairwise

/-! # The user heap

The allocator of `lib/uheap.c`. Only the first page of a block is marked in
`checkList`, so the search of `nextFitAlgo` must move from block to block. The
calls to the kernel are part of the result.
-/

namespace FosKernel.UserHeap

/-- `struct UserHeap`. -/
structure Record where
  first : Nat
  size : Nat
  deriving DecidableEq

/-- The global variables of `lib/uheap.c`. -/
structure Heap where
  startAdd : Nat
  checkList : Nat → Nat
  uHeapArr : Nat → Record

def initial : Heap where
  startAdd := userHeapStart
  checkList _ := 0
  uHeapArr _ := ⟨0, 0⟩

/-- The system calls of `malloc` and `free`. -/
inductive SystemCall
  | allocateMem (address size : Nat)
  | freeMem (address size : Nat)
  deriving DecidableEq

/-- `(address - USER_HEAP_START) / PAGE_SIZE`. -/
def pageIndex (address : Nat) : Nat :=
  (address + (2 ^ 32 - userHeapStart)) % 2 ^ 32 / 4096

/-- `(USER_HEAP_MAX - USER_HEAP_START) / PAGE_SIZE`. -/
abbrev heapPages : Nat := 0x20000

/-! ## Search -/

/-- The local variables of `nextFitAlgo`, with the global `startAdd` that the
loop assigns. `tmp` is not initialised in the source; it is zero here, an address
outside the heap, until it is assigned. -/
structure Search where
  newAdd : Nat
  newSize : Nat
  tmp : Nat
  flag : Bool
  found : Bool
  spacePages : Nat
  startAdd : Nat
  deriving DecidableEq

def Search.start (heap : Heap) : Search where
  newAdd := heap.startAdd
  newSize := 0
  tmp := 0
  flag := false
  found := false
  spacePages := heapPages
  startAdd := heap.startAdd

/-- The loop condition; `found` is set exactly at the `break` statements. -/
def Search.Running (search : Search) : Prop :=
  search.spacePages ≠ 0 ∧ search.found = false
  deriving Decidable

/-- The three-way branch at the head of the loop body. -/
def scanPage (heap : Heap) (size : Nat) (search : Search) : Search :=
  let entry := heap.checkList (pageIndex search.newAdd)
  if entry = 0 ∧ search.flag then
    { search with
      newSize := (search.newSize + 4096) % 2 ^ 32
      newAdd := (search.newAdd + 4096) % 2 ^ 32
      spacePages := (search.spacePages + (2 ^ 32 - 1)) % 2 ^ 32 }
  else if entry = 0 ∧ ¬search.flag then
    { search with
      flag := true
      tmp := search.newAdd
      newSize := (search.newSize + 4096) % 2 ^ 32
      newAdd := (search.newAdd + 4096) % 2 ^ 32
      spacePages := (search.spacePages + (2 ^ 32 - 1)) % 2 ^ 32 }
  else if size ≤ search.newSize then
    { search with startAdd := search.tmp, found := true }
  else
    { search with
      spacePages := (search.spacePages + (2 ^ 32 - entry)) % 2 ^ 32
      newAdd := (search.newAdd + entry * 4096) % 2 ^ 32
      flag := false
      newSize := 0 }

/-- One iteration of the loop. -/
def searchStep (heap : Heap) (size : Nat) (search : Search) : Search :=
  let search := scanPage heap size search
  if search.found then search
  else if size ≤ search.newSize then
    { search with startAdd := search.tmp, found := true }
  else if userHeapMax ≤ search.newAdd then
    { search with flag := false, newSize := 0, newAdd := userHeapStart }
  else search

/-- The loop, given up after `fuel` iterations. -/
def searchLoop (heap : Heap) (size : Nat) : Nat → Search → Option Search
  | 0, search => if search.Running then none else some search
  | fuel + 1, search =>
      if search.Running then searchLoop heap size fuel (searchStep heap size search)
      else some search

/-- The returned pointer (zero for `NULL`), the heap and the system calls. The
search loop has no bound in the source: `none` stands for a loop of more than
`2 ^ 32` iterations, and for a write outside the arrays. -/
def nextFitAlgo (heap : Heap) (size : Nat) :
    Option (Nat × Heap × List SystemCall) := do
  let search ← searchLoop heap size (2 ^ 32) (Search.start heap)
  if !search.found && search.newSize < size then
    return (0, { heap with startAdd := search.startAdd }, [])
  let start := if search.found then search.startAdd else search.tmp
  let index := pageIndex start
  let heap :=
    { startAdd := if userHeapMax ≤ (start + size) % 2 ^ 32 then userHeapStart else start
      checkList := Function.update heap.checkList index (size / 4096)
      uHeapArr := Function.update heap.uHeapArr index ⟨start, size⟩ }
  if heapPages ≤ index then none else return (start, heap, [.allocateMem start size])

/-- `nextFit` is the answer of `sys_isUHeapPlacementStrategyNEXTFIT`. -/
def malloc (nextFit : Bool) (heap : Heap) (size : Nat) :
    Option (Nat × Heap × List SystemCall) :=
  let size := roundUp size
  if nextFit then nextFitAlgo heap size
  else some (0, heap, [])

/-- The record that the loop of `free` finds. -/
@[irreducible]
def findRecord (heap : Heap) (address : Nat) : Option Nat :=
  (List.range heapPages).find? fun index => (heap.uHeapArr index).first = address

/-- The argument `size` is what the local variable of this name holds before the loop;
only a matching record sets it. `none` stands for a write outside `checkList`. -/
def free (size : Nat) (heap : Heap) (address : Nat) : Option (Heap × List SystemCall) :=
  match findRecord heap address with
  | none => some (heap, [.freeMem address size])
  | some index =>
      let x := pageIndex address
      let size := (heap.uHeapArr index).size
      let heap :=
        { heap with
          uHeapArr := Function.update heap.uHeapArr index ⟨0, 0⟩
          checkList := Function.update heap.checkList x 0 }
      if heapPages ≤ x then none else some (heap, [.freeMem address size])

/-! ## Heap invariant

The live blocks are a ghost list: the blocks returned by `malloc` and not yet
freed. -/

/-- The address lies in the block. -/
def Record.Contains (block : Record) (address : Nat) : Prop :=
  block.first ≤ address ∧ address < block.first + block.size

/-- The address lies in the block but not at its start. -/
def Record.Inside (block : Record) (address : Nat) : Prop :=
  block.first < address ∧ address < block.first + block.size

def Record.Disjoint (left right : Record) : Prop :=
  ∀ address, ¬(left.Contains address ∧ right.Contains address)

/-- A page-aligned, nonempty block of the user heap. -/
structure Record.WellPlaced (block : Record) : Prop where
  aligned : block.first % 4096 = 0
  pages : block.size % 4096 = 0
  positive : 0 < block.size
  lower : userHeapStart ≤ block.first
  upper : block.first + block.size ≤ userHeapMax

structure Heap.Valid (heap : Heap) (live : List Record) : Prop where
  placed : ∀ block ∈ live, block.WellPlaced
  disjoint : live.Pairwise Record.Disjoint
  marked : ∀ block ∈ live,
    heap.checkList (pageIndex block.first) = block.size / 4096 ∧
    heap.uHeapArr (pageIndex block.first) = block
  unmarked : ∀ index, (∀ block ∈ live, pageIndex block.first ≠ index) →
    heap.checkList index = 0 ∧ heap.uHeapArr index = ⟨0, 0⟩
  startAligned : heap.startAdd % 4096 = 0
  startLower : userHeapStart ≤ heap.startAdd
  startUpper : heap.startAdd < userHeapMax
  startOutside : ∀ block ∈ live, ¬block.Inside heap.startAdd

theorem initial_valid : initial.Valid [] where
  placed := by simp
  disjoint := List.Pairwise.nil
  marked := by simp
  unmarked := by simp [initial]
  startAligned := by decide
  startLower := by decide
  startUpper := by decide
  startOutside := by simp

theorem pageIndex_eq {address : Nat} (lower : userHeapStart ≤ address)
    (upper : address ≤ userHeapMax) :
    pageIndex address = (address - userHeapStart) / 4096 := by
  unfold pageIndex
  grind

theorem pageIndex_inj {left right : Nat}
    (leftLower : userHeapStart ≤ left) (leftUpper : left < userHeapMax)
    (leftAligned : left % 4096 = 0) (rightLower : userHeapStart ≤ right)
    (rightUpper : right < userHeapMax) (rightAligned : right % 4096 = 0)
    (equal : pageIndex left = pageIndex right) : left = right := by
  rw [pageIndex_eq leftLower leftUpper.le, pageIndex_eq rightLower rightUpper.le] at equal
  omega

namespace Record.WellPlaced

variable {block : Record}

theorem start_lt (placed : block.WellPlaced) : block.first < userHeapMax := by
  have := placed.positive
  have := placed.upper
  omega

theorem index_lt (placed : block.WellPlaced) : pageIndex block.first < heapPages := by
  rw [pageIndex_eq placed.lower placed.start_lt.le]
  have := placed.lower
  have := placed.start_lt
  grind

end Record.WellPlaced

namespace Heap.Valid

variable {heap : Heap} {live : List Record}

/-- Two live blocks that share an address are the same block. -/
theorem unique (valid : heap.Valid live) {left right : Record}
    (leftLive : left ∈ live) (rightLive : right ∈ live) (address : Nat)
    (inLeft : left.Contains address) (inRight : right.Contains address) :
    left = right := by
  by_contra different
  have symmetric : Std.Symm Record.Disjoint :=
    ⟨fun left right disjoint address both => disjoint address both.symm⟩
  exact valid.disjoint.forall leftLive rightLive different address ⟨inLeft, inRight⟩

/-- A nonzero mark is the page count of a live block that starts there. -/
theorem block_of_mark (valid : heap.Valid live) {address : Nat}
    (lower : userHeapStart ≤ address) (upper : address < userHeapMax)
    (aligned : address % 4096 = 0)
    (mark : heap.checkList (pageIndex address) ≠ 0) :
    ∃ block ∈ live, block.first = address ∧
      heap.checkList (pageIndex address) = block.size / 4096 := by
  by_contra none
  push Not at none
  have unmarked := valid.unmarked (pageIndex address) fun block member equal =>
    have placed := valid.placed block member
    have same := pageIndex_inj placed.lower placed.start_lt placed.aligned lower upper
      aligned equal
    none block member same (same ▸ (valid.marked block member).1)
  exact mark unmarked.1

/-- A page without a mark that no block reaches into is free. -/
theorem free_of_no_mark (valid : heap.Valid live) {address : Nat}
    (mark : heap.checkList (pageIndex address) = 0)
    (outside : ∀ block ∈ live, ¬block.Inside address) :
    ∀ block ∈ live, ¬block.Contains address := by
  intro block member contains
  have placed := valid.placed block member
  by_cases start : block.first = address
  · have marked := (valid.marked block member).1
    rw [start, mark] at marked
    have := placed.positive
    have := placed.pages
    omega
  · exact outside block member ⟨by have := contains.1; omega, contains.2⟩

end Heap.Valid

/-! ## Search invariant -/

/-- What every iteration of the search starts from. `newAdd` is a page that no
live block reaches into, `spacePages` is the distance from it up to the address
at which the search began, and the current run of pages is free. -/
structure Search.Sound (heap : Heap) (live : List Record) (size : Nat)
    (search : Search) : Prop where
  unfinished : search.found = false
  start : search.startAdd = heap.startAdd
  aligned : search.newAdd % 4096 = 0
  lower : userHeapStart ≤ search.newAdd
  upper : search.newAdd < userHeapMax
  outside : ∀ block ∈ live, ¬block.Inside search.newAdd
  distance :
    (heap.startAdd ≤ search.newAdd ∧
      search.spacePages * 4096 =
        (userHeapMax - search.newAdd) + (heap.startAdd - userHeapStart)) ∨
    (search.newAdd ≤ heap.startAdd ∧
      search.spacePages * 4096 = heap.startAdd - search.newAdd)
  short : search.newSize < size
  noRun : search.flag = false → search.newSize = 0
  run : search.flag = true →
    userHeapStart ≤ search.tmp ∧ search.tmp % 4096 = 0 ∧
    search.tmp + search.newSize = search.newAdd ∧
    ∀ address, search.tmp ≤ address → address < search.newAdd →
      ∀ block ∈ live, ¬block.Contains address

/-- A finished search: a free range of the requested size. -/
structure Search.Found (live : List Record) (size : Nat) (search : Search) :
    Prop where
  finished : search.found = true
  lower : userHeapStart ≤ search.startAdd
  aligned : search.startAdd % 4096 = 0
  upper : search.startAdd + size ≤ userHeapMax
  free : ∀ address, search.startAdd ≤ address → address < search.startAdd + size →
    ∀ block ∈ live, ¬block.Contains address

section Loop

variable {heap : Heap} {live : List Record} {size : Nat}

theorem Search.start_sound (valid : heap.Valid live) (positive : 0 < size) :
    (Search.start heap).Sound heap live size where
  unfinished := rfl
  start := rfl
  aligned := valid.startAligned
  lower := valid.startLower
  upper := valid.startUpper
  outside := valid.startOutside
  distance := by
    have := valid.startLower
    have := valid.startUpper
    left
    simp only [Search.start]
    grind
  short := positive
  noRun _ := rfl
  run := by simp [Search.start]

/-- The length of the current run, and the page at which it starts once the
current page is added to it. -/
def Search.runStart (search : Search) : Nat :=
  if search.flag then search.tmp else search.newAdd

namespace Search.Sound

variable {search : Search}

theorem space_le (sound : search.Sound heap live size) (valid : heap.Valid live) :
    search.spacePages ≤ heapPages := by
  have := sound.distance
  have := sound.lower
  have := sound.upper
  have := valid.startLower
  have := valid.startUpper
  grind

/-- The current page extends the free run. -/
theorem run_free (sound : search.Sound heap live size) (valid : heap.Valid live)
    (mark : heap.checkList (pageIndex search.newAdd) = 0) :
    userHeapStart ≤ search.runStart ∧ search.runStart % 4096 = 0 ∧
    search.runStart + search.newSize = search.newAdd ∧
    ∀ address, search.runStart ≤ address → address < search.newAdd + 4096 →
      ∀ block ∈ live, ¬block.Contains address := by
  have pageFree : ∀ address, search.newAdd ≤ address →
      address < search.newAdd + 4096 → ∀ block ∈ live, ¬block.Contains address := by
    intro address lower upper block member contains
    have placed := valid.placed block member
    have notStart := valid.free_of_no_mark mark sound.outside block member
    have := placed.aligned
    have := placed.pages
    have := sound.aligned
    unfold Record.Contains at contains notStart
    omega
  cases flag : search.flag with
  | false =>
      simp only [Search.runStart, flag, sound.noRun flag]
      exact ⟨sound.lower, sound.aligned, rfl, pageFree⟩
  | true =>
      rcases sound.run flag with ⟨lower, aligned, length, free⟩
      simp only [Search.runStart, flag, if_true]
      refine ⟨lower, aligned, length, ?_⟩
      intro address above below
      by_cases earlier : address < search.newAdd
      · exact free address above earlier
      · exact pageFree address (by omega) below

/-- The body of the loop on a page without a mark. -/
theorem scanPage_free (sound : search.Sound heap live size) (valid : heap.Valid live)
    (running : search.spacePages ≠ 0)
    (mark : heap.checkList (pageIndex search.newAdd) = 0) :
    scanPage heap size search =
      { search with
        flag := true
        tmp := search.runStart
        newSize := search.newSize + 4096
        newAdd := search.newAdd + 4096
        spacePages := search.spacePages - 1 } := by
  have upper := sound.upper
  have space := sound.space_le valid
  have length := (sound.run_free valid mark).2.2.1
  have sizeEqual : (search.newSize + 4096) % 2 ^ 32 = search.newSize + 4096 := by grind
  have addressEqual : (search.newAdd + 4096) % 2 ^ 32 = search.newAdd + 4096 := by grind
  have spaceEqual : (search.spacePages + (2 ^ 32 - 1)) % 2 ^ 32 =
      search.spacePages - 1 := by grind
  cases flag : search.flag <;>
    simp only [scanPage, Search.runStart, mark, flag, sizeEqual, addressEqual,
      spaceEqual, and_true, true_and, not_true, not_false_iff, if_true, if_false,
      Bool.false_eq_true]

/-- The body of the loop at the first page of a live block. The countdown does
not pass zero because the search did not begin inside the block. -/
theorem scanPage_block (sound : search.Sound heap live size) (valid : heap.Valid live)
    (running : search.spacePages ≠ 0)
    (mark : heap.checkList (pageIndex search.newAdd) ≠ 0) :
    ∃ block ∈ live, block.first = search.newAdd ∧
      block.size / 4096 ≤ search.spacePages ∧
      heap.checkList (pageIndex search.newAdd) = block.size / 4096 ∧
      scanPage heap size search =
        { search with
          flag := false
          newSize := 0
          newAdd := search.newAdd + block.size
          spacePages := search.spacePages - block.size / 4096 } := by
  rcases valid.block_of_mark sound.lower sound.upper sound.aligned mark with
    ⟨block, member, start, pages⟩
  have placed := valid.placed block member
  have short := sound.short
  have space := sound.space_le valid
  have fits : block.size / 4096 ≤ search.spacePages := by
    have notInside := valid.startOutside block member
    have := placed.upper
    have := placed.pages
    have := sound.distance
    have := valid.startLower
    unfold Record.Inside at notInside
    grind
  have addressEqual : (search.newAdd + block.size / 4096 * 4096) % 2 ^ 32 =
      search.newAdd + block.size := by
    have := placed.upper
    have := placed.pages
    grind
  have spaceEqual : (search.spacePages + (2 ^ 32 - block.size / 4096)) % 2 ^ 32 =
      search.spacePages - block.size / 4096 := by
    have := placed.positive
    have := placed.pages
    grind
  refine ⟨block, member, start, fits, pages, ?_⟩
  rw [pages] at mark
  simp only [scanPage, pages, mark, false_and, if_false, not_le.mpr short, addressEqual,
    spaceEqual]

/-- A page at which the loop goes on: reset at the end of the heap, kept below. -/
theorem next_sound (sound : search.Sound heap live size) (valid : heap.Valid live)
    {pages : Nat} (positive : 0 < pages) (fits : pages ≤ search.spacePages)
    {flag : Bool} {tmp newSize : Nat} (short : newSize < size)
    (within : search.newAdd + pages * 4096 ≤ userHeapMax)
    (crossing : search.newAdd < heap.startAdd →
      search.newAdd + pages * 4096 ≤ heap.startAdd)
    (outside : ∀ block ∈ live, ¬block.Inside (search.newAdd + pages * 4096))
    (noRun : flag = false → newSize = 0)
    (run : flag = true →
      userHeapStart ≤ tmp ∧ tmp % 4096 = 0 ∧
      tmp + newSize = search.newAdd + pages * 4096 ∧
      ∀ address, tmp ≤ address → address < search.newAdd + pages * 4096 →
        ∀ block ∈ live, ¬block.Contains address) :
    Search.Sound heap live size
      (if userHeapMax ≤ search.newAdd + pages * 4096 then
        { search with
          flag := false, newSize := 0, newAdd := userHeapStart, tmp
          spacePages := search.spacePages - pages }
      else
        { search with
          flag, newSize, tmp
          newAdd := search.newAdd + pages * 4096
          spacePages := search.spacePages - pages }) := by
  have aligned := sound.aligned
  have lower := sound.lower
  have upper := sound.upper
  have startLower := valid.startLower
  have startUpper := valid.startUpper
  have distance := sound.distance
  split
  · next atEnd =>
    exact
      { unfinished := sound.unfinished
        start := sound.start
        aligned := (by decide : userHeapStart % 4096 = 0)
        lower := le_refl _
        upper := (by decide : userHeapStart < userHeapMax)
        outside := by
          intro block member inside
          have := (valid.placed block member).lower
          have := inside.1
          simp only at this
          omega
        distance := by
          right
          grind
        short := by
          simp only
          omega
        noRun := fun _ => rfl
        run := by simp }
  · next below =>
    exact
      { unfinished := sound.unfinished
        start := sound.start
        aligned := by
          simp only
          omega
        lower := by
          simp only
          omega
        upper := by
          simp only
          omega
        outside := outside
        distance := by
          simp only
          grind
        short := short
        noRun := noRun
        run := run }

/-- One iteration on a page without a mark. -/
theorem searchStep_free (sound : search.Sound heap live size) (valid : heap.Valid live)
    (running : search.spacePages ≠ 0)
    (mark : heap.checkList (pageIndex search.newAdd) = 0) :
    searchStep heap size search =
      if size ≤ search.newSize + 4096 then
        { search with
          flag := true, newSize := search.newSize + 4096, tmp := search.runStart
          newAdd := search.newAdd + 4096, spacePages := search.spacePages - 1
          startAdd := search.runStart, found := true }
      else if userHeapMax ≤ search.newAdd + 1 * 4096 then
        { search with
          flag := false, newSize := 0, newAdd := userHeapStart, tmp := search.runStart
          spacePages := search.spacePages - 1 }
      else
        { search with
          flag := true, newSize := search.newSize + 4096, tmp := search.runStart
          newAdd := search.newAdd + 1 * 4096, spacePages := search.spacePages - 1 } := by
  simp only [searchStep, sound.scanPage_free valid running mark, sound.unfinished,
    Bool.false_eq_true, if_false, one_mul]

/-- One iteration at the first page of a live block. -/
theorem searchStep_block (sound : search.Sound heap live size) (valid : heap.Valid live)
    (running : search.spacePages ≠ 0)
    (mark : heap.checkList (pageIndex search.newAdd) ≠ 0) :
    ∃ block ∈ live, block.first = search.newAdd ∧ block.size / 4096 ≤ search.spacePages ∧
      searchStep heap size search =
        if userHeapMax ≤ search.newAdd + block.size / 4096 * 4096 then
          { search with
            flag := false, newSize := 0, newAdd := userHeapStart, tmp := search.tmp
            spacePages := search.spacePages - block.size / 4096 }
        else
          { search with
            flag := false, newSize := 0, tmp := search.tmp
            newAdd := search.newAdd + block.size / 4096 * 4096
            spacePages := search.spacePages - block.size / 4096 } := by
  rcases sound.scanPage_block valid running mark with ⟨block, member, start, fits, -, scanned⟩
  refine ⟨block, member, start, fits, ?_⟩
  have pages : block.size / 4096 * 4096 = block.size := by
    have := (valid.placed block member).pages
    omega
  have notEnough : ¬size ≤ 0 := by
    have := sound.short
    omega
  simp only [searchStep, scanned, sound.unfinished, notEnough, Bool.false_eq_true, if_false,
    pages]

/-- One iteration ends the search or gets closer to the end of the countdown. -/
theorem searchStep_cases (sound : search.Sound heap live size) (valid : heap.Valid live)
    (running : search.spacePages ≠ 0) (sizeAligned : size % 4096 = 0) :
    (searchStep heap size search).Found live size ∨
      (searchStep heap size search).Sound heap live size ∧
        (searchStep heap size search).spacePages < search.spacePages := by
  have aligned := sound.aligned
  have upper := sound.upper
  have short := sound.short
  by_cases mark : heap.checkList (pageIndex search.newAdd) = 0
  · rw [sound.searchStep_free valid running mark]
    rcases sound.run_free valid mark with ⟨runLower, runAligned, runLength, runFree⟩
    by_cases enough : size ≤ search.newSize + 4096
    · left
      rw [if_pos enough]
      exact
        { finished := rfl
          lower := runLower
          aligned := runAligned
          upper := by
            simp only
            grind
          free := by
            intro address above below
            exact runFree address above (by simp only at below; omega) }
    · right
      rw [if_neg enough]
      refine ⟨sound.next_sound valid one_pos (by omega) (by omega) (by grind) ?_ ?_
        (by simp) ?_, ?_⟩
      · have := valid.startAligned
        omega
      · intro block member inside
        refine runFree (search.newAdd + 4095) (by omega) (by omega) block member ?_
        unfold Record.Inside at inside
        unfold Record.Contains
        omega
      · intro _
        refine ⟨runLower, runAligned, by omega, ?_⟩
        simpa using runFree
      · split <;> simp only <;> omega
  · right
    rcases sound.searchStep_block valid running mark with ⟨block, member, start, fits, result⟩
    have placed := valid.placed block member
    have pages : block.size / 4096 * 4096 = block.size := by
      have := placed.pages
      omega
    have positive := placed.positive
    rw [result]
    refine ⟨sound.next_sound valid (by omega) fits (by omega) ?_ ?_ ?_ (by simp)
      (by simp), ?_⟩
    · have := placed.upper
      omega
    · have notInside := valid.startOutside block member
      unfold Record.Inside at notInside
      omega
    · intro other otherMember inside
      have same : other = block := by
        refine valid.unique otherMember member (search.newAdd + block.size - 1) ?_ ?_
        · unfold Record.Inside at inside
          unfold Record.Contains
          omega
        · unfold Record.Contains
          omega
      unfold Record.Inside at inside
      rw [same] at inside
      omega
    · split <;> simp only <;> omega

end Search.Sound

/-- The loop ends within one iteration for each page of the heap: every iteration finds a
place or shortens the countdown. -/
theorem searchLoop_rule {invariant found : Search → Prop}
    (unfinished : ∀ search, invariant search → search.found = false)
    (step : ∀ search, invariant search → search.spacePages ≠ 0 →
      (searchStep heap size search).found = true ∧ found (searchStep heap size search) ∨
        invariant (searchStep heap size search) ∧
          (searchStep heap size search).spacePages < search.spacePages)
    {search : Search} (start : invariant search) {fuel : Nat}
    (enough : search.spacePages ≤ fuel) :
    ∃ final, searchLoop heap size fuel search = some final ∧
      (final.found = true ∧ found final ∨ invariant final ∧ final.spacePages = 0) := by
  induction fuel generalizing search with
  | zero =>
      have ended : search.spacePages = 0 := by omega
      refine ⟨search, ?_, .inr ⟨start, ended⟩⟩
      simp [searchLoop, Search.Running, ended]
  | succ fuel induction =>
      by_cases ended : search.spacePages = 0
      · refine ⟨search, ?_, .inr ⟨start, ended⟩⟩
        simp [searchLoop, Search.Running, ended]
      · have running : search.Running := ⟨ended, unfinished search start⟩
        simp only [searchLoop, running, if_true]
        rcases step search start ended with ⟨finished, result⟩ | ⟨next, less⟩
        · refine ⟨searchStep heap size search, ?_, .inl ⟨finished, result⟩⟩
          cases fuel <;> simp [searchLoop, Search.Running, finished]
        · exact induction next (by omega)

theorem searchLoop_ends (valid : heap.Valid live) (sizeAligned : size % 4096 = 0)
    {search : Search} (sound : search.Sound heap live size) {fuel : Nat}
    (enough : search.spacePages ≤ fuel) :
    ∃ final, searchLoop heap size fuel search = some final ∧
      (final.Found live size ∨
        final.Sound heap live size ∧ final.spacePages = 0) := by
  have step : ∀ search : Search, search.Sound heap live size → search.spacePages ≠ 0 →
      (searchStep heap size search).found = true ∧
        (searchStep heap size search).Found live size ∨
      (searchStep heap size search).Sound heap live size ∧
        (searchStep heap size search).spacePages < search.spacePages := by
    intro search sound running
    rcases sound.searchStep_cases valid running sizeAligned with found | next
    · exact .inl ⟨found.finished, found⟩
    · exact .inr next
  rcases searchLoop_rule (fun _ sound => sound.unfinished) step sound enough with
    ⟨final, ended, ⟨-, found⟩ | unfound⟩
  · exact ⟨final, ended, .inl found⟩
  · exact ⟨final, ended, .inr unfound⟩

/-- The countdown never passes zero: in every iteration that meets a block, the
block is no longer than the pages left. -/
theorem searchStep_iterate_sound (valid : heap.Valid live) (positive : 0 < size)
    (sizeAligned : size % 4096 = 0) (count : Nat)
    (running : ∀ earlier ≤ count,
      ((searchStep heap size)^[earlier] (Search.start heap)).Running) :
    ((searchStep heap size)^[count] (Search.start heap)).Sound heap live size := by
  induction count with
  | zero => exact Search.start_sound valid positive
  | succ count induction =>
      have previous := induction fun earlier below => running earlier (by omega)
      have now := running count (by omega)
      have next := running (count + 1) le_rfl
      rw [Function.iterate_succ_apply'] at next ⊢
      rcases previous.searchStep_cases valid now.1 sizeAligned with found | ⟨sound, -⟩
      · have := next.2
        rw [found.finished] at this
        contradiction
      · exact sound

end Loop

/-! ## Allocation and release -/

section Operations

variable {heap : Heap} {live : List Record}

/-- Marking a free range makes it a live block. -/
theorem Heap.Valid.insert (valid : heap.Valid live) {block : Record}
    (placed : block.WellPlaced) (disjoint : ∀ other ∈ live, block.Disjoint other)
    {startAdd : Nat}
    (start : startAdd = block.first ∨ startAdd = userHeapStart) :
    Heap.Valid
      { startAdd
        checkList := Function.update heap.checkList (pageIndex block.first)
          (block.size / 4096)
        uHeapArr := Function.update heap.uHeapArr (pageIndex block.first) block }
      (block :: live) where
  placed := by
    simpa using ⟨placed, valid.placed⟩
  disjoint := List.pairwise_cons.mpr ⟨disjoint, valid.disjoint⟩
  marked := by
    intro other member
    rcases List.mem_cons.mp member with rfl | member
    · simp
    · have otherPlaced := valid.placed other member
      have apart : pageIndex other.first ≠ pageIndex block.first := by
        intro equal
        have same := pageIndex_inj otherPlaced.lower otherPlaced.start_lt
          otherPlaced.aligned placed.lower placed.start_lt placed.aligned equal
        have := placed.positive
        have := otherPlaced.positive
        refine disjoint other member block.first ⟨?_, ?_⟩ <;>
          unfold Record.Contains <;> omega
      simpa [apart] using valid.marked other member
  unmarked := by
    intro index none
    have apart : index ≠ pageIndex block.first := fun equal =>
      none block (by simp) equal.symm
    simpa [apart] using valid.unmarked index fun other member =>
      none other (by simp [member])
  startAligned := by
    rcases start with rfl | rfl
    · exact placed.aligned
    · exact (by decide : userHeapStart % 4096 = 0)
  startLower := by
    rcases start with rfl | rfl
    · exact placed.lower
    · exact le_refl _
  startUpper := by
    rcases start with rfl | rfl
    · exact placed.start_lt
    · exact (by decide : userHeapStart < userHeapMax)
  startOutside := by
    intro other member inside
    have otherPlaced : other.WellPlaced := by
      rcases List.mem_cons.mp member with rfl | member
      · exact placed
      · exact valid.placed other member
    simp only [Record.Inside] at inside
    rcases start with rfl | rfl
    · rcases List.mem_cons.mp member with rfl | member
      · omega
      · have := placed.positive
        refine disjoint other member block.first ⟨?_, ?_⟩ <;>
          unfold Record.Contains <;> omega
    · have := otherPlaced.lower
      omega

/-- Clearing the mark of a live block removes it. -/
theorem Heap.Valid.erase (valid : heap.Valid live) {block : Record}
    (member : block ∈ live) :
    Heap.Valid
      { heap with
        checkList := Function.update heap.checkList (pageIndex block.first) 0
        uHeapArr := Function.update heap.uHeapArr (pageIndex block.first) ⟨0, 0⟩ }
      (live.erase block) where
  placed other left := valid.placed other (List.mem_of_mem_erase left)
  disjoint := valid.disjoint.sublist List.erase_sublist
  marked := by
    intro other left
    have otherMember := List.mem_of_mem_erase left
    have apart : pageIndex other.first ≠ pageIndex block.first := by
      intro equal
      have placed := valid.placed block member
      have otherPlaced := valid.placed other otherMember
      have sameStart := pageIndex_inj otherPlaced.lower otherPlaced.start_lt
        otherPlaced.aligned placed.lower placed.start_lt placed.aligned equal
      have positive := placed.positive
      have otherPositive := otherPlaced.positive
      have same : other = block := by
        refine valid.unique otherMember member block.first ?_ ?_ <;>
          unfold Record.Contains <;> omega
      have once : live.Nodup := by
        refine valid.disjoint.imp_of_mem ?_
        intro first second firstMember _ disjoint equal
        subst equal
        have := (valid.placed first firstMember).positive
        refine disjoint first.first ⟨?_, ?_⟩ <;> unfold Record.Contains <;> omega
      exact (once.mem_erase_iff.mp left).1 same
    simpa [apart] using valid.marked other otherMember
  unmarked := by
    intro index none
    by_cases own : index = pageIndex block.first
    · simp [own]
    · simpa [own] using valid.unmarked index fun other otherMember equal => by
        by_cases same : other = block
        · exact own (by rw [← equal, same])
        · exact none other ((List.mem_erase_of_ne same).mpr otherMember) equal
  startAligned := valid.startAligned
  startLower := valid.startLower
  startUpper := valid.startUpper
  startOutside other left := valid.startOutside other (List.mem_of_mem_erase left)

/-- The global variables after a block was placed. -/
def Heap.place (heap : Heap) (start size : Nat) : Heap where
  startAdd := if userHeapMax ≤ (start + size) % 2 ^ 32 then userHeapStart else start
  checkList := Function.update heap.checkList (pageIndex start) (size / 4096)
  uHeapArr := Function.update heap.uHeapArr (pageIndex start) ⟨start, size⟩

theorem nextFitAlgo_found {size : Nat} {final : Search}
    (ended : searchLoop heap size (2 ^ 32) (Search.start heap) = some final)
    (found : final.found = true) (bound : pageIndex final.startAdd < heapPages) :
    nextFitAlgo heap size = some (final.startAdd, heap.place final.startAdd size,
      [.allocateMem final.startAdd size]) := by
  rw [nextFitAlgo, ended]
  simp only [Option.bind_eq_bind, Option.bind_some, found, Bool.not_true, Bool.false_and,
    Bool.false_eq_true, if_false, if_true, if_neg (Nat.not_le.mpr bound)]
  rfl

theorem nextFitAlgo_null {size : Nat} {final : Search}
    (ended : searchLoop heap size (2 ^ 32) (Search.start heap) = some final)
    (sound : final.Sound heap live size) : nextFitAlgo heap size = some (0, heap, []) := by
  rw [nextFitAlgo, ended]
  simp [sound.unfinished, sound.short, sound.start]

/-- `nextFitAlgo` returns `NULL` and changes nothing, or returns a new block. -/
theorem nextFitAlgo_valid (valid : heap.Valid live) {size : Nat} (positive : 0 < size)
    (sizeAligned : size % 4096 = 0) :
    nextFitAlgo heap size = some (0, heap, []) ∨
      ∃ pointer after, nextFitAlgo heap size =
          some (pointer, after, [.allocateMem pointer size]) ∧
        pointer ≠ 0 ∧ after.Valid (⟨pointer, size⟩ :: live) := by
  have sound := Search.start_sound valid positive
  rcases searchLoop_ends valid sizeAligned sound
      (by decide : heapPages ≤ 2 ^ 32) with
    ⟨final, ended, found | ⟨unfound, -⟩⟩
  · right
    have placed : Record.WellPlaced ⟨final.startAdd, size⟩ :=
      { aligned := found.aligned
        pages := sizeAligned
        positive := positive
        lower := found.lower
        upper := found.upper }
    have disjoint : ∀ other ∈ live, Record.Disjoint ⟨final.startAdd, size⟩ other := by
      intro other member address both
      exact found.free address both.1.1 both.1.2 other member both.2
    have next : (if userHeapMax ≤ (final.startAdd + size) % 2 ^ 32 then userHeapStart
        else final.startAdd) = final.startAdd ∨
        (if userHeapMax ≤ (final.startAdd + size) % 2 ^ 32 then userHeapStart
        else final.startAdd) = userHeapStart := (ite_eq_or_eq _ _ _).symm
    refine ⟨final.startAdd, _, nextFitAlgo_found ended found.finished placed.index_lt, ?_,
      valid.insert placed disjoint next⟩
    have := found.lower
    grind
  · exact .inl (nextFitAlgo_null ended unfound)

theorem roundUp_eq {size : Nat} (upper : size ≤ 0xFFFFF000) :
    roundUp size = (size + 4095) / 4096 * 4096 := by
  unfold roundUp roundDown
  omega

theorem malloc_valid (valid : heap.Valid live) {size : Nat} (positive : 0 < size)
    (upper : size ≤ 0xFFFFF000) :
    malloc true heap size = some (0, heap, []) ∨
      ∃ pointer after, malloc true heap size =
          some (pointer, after, [.allocateMem pointer (roundUp size)]) ∧
        pointer ≠ 0 ∧ after.Valid (⟨pointer, roundUp size⟩ :: live) := by
  have rounded := roundUp_eq upper
  exact nextFitAlgo_valid valid (by omega) (by omega)

/-- `free` of a live block finds its record. -/
theorem free_valid (valid : heap.Valid live) {block : Record} (member : block ∈ live)
    (uninitialised : Nat) :
    ∃ after, free uninitialised heap block.first =
        some (after, [.freeMem block.first block.size]) ∧
      after.startAdd = heap.startAdd ∧ after.Valid (live.erase block) := by
  have placed := valid.placed block member
  have recorded := (valid.marked block member).2
  have bound := placed.index_lt
  -- No other record holds the address: unused records hold zero.
  have only : ∀ index, (heap.uHeapArr index).first = block.first →
      index = pageIndex block.first := by
    intro index equal
    by_contra different
    by_cases used : ∃ other ∈ live, pageIndex other.first = index
    · rcases used with ⟨other, otherMember, rfl⟩
      rw [(valid.marked other otherMember).2] at equal
      exact different (congrArg pageIndex equal)
    · push Not at used
      rw [(valid.unmarked index used).2] at equal
      have := placed.lower
      grind
  have located : findRecord heap block.first = some (pageIndex block.first) := by
    unfold findRecord
    cases found : (List.range heapPages).find? (fun index =>
        decide ((heap.uHeapArr index).first = block.first)) with
    | none =>
        have := List.find?_eq_none.mp found (pageIndex block.first)
          (List.mem_range.mpr bound)
        simp [recorded] at this
    | some index =>
        have matching := List.find?_some found
        rw [only index (by simpa using matching)]
  refine ⟨_, ?_, ?_, valid.erase member⟩
  · rw [free, located]
    simp [recorded, Nat.not_le.mpr bound]
  · rfl

end Operations

/-! ## Runs -/

/-- The states reached by calls of `malloc` under the next-fit strategy and calls
of `free` on live blocks, with the live blocks. -/
inductive Run : Heap → List Record → Prop
  | start : Run initial []
  | malloc {heap live size pointer after calls} :
      Run heap live → 0 < size → size ≤ 0xFFFFF000 →
      malloc true heap size = some (pointer, after, calls) →
      Run after (if pointer = 0 then live else ⟨pointer, roundUp size⟩ :: live)
  | free {heap live block uninitialised after calls} :
      Run heap live → block ∈ live →
      free uninitialised heap block.first = some (after, calls) →
      Run after (live.erase block)

theorem Run.valid {heap : Heap} {live : List Record} (run : Run heap live) :
    heap.Valid live := by
  induction run with
  | start => exact initial_valid
  | @malloc heap live size pointer after calls _ positive upper result induction =>
      rcases malloc_valid induction positive upper with
        null | ⟨_, _, allocated, nonzero, valid⟩
      · rw [null] at result
        cases result
        simpa using induction
      · rw [allocated] at result
        cases result
        simpa [nonzero] using valid
  | @free heap live block uninitialised after calls _ member result induction =>
      rcases free_valid induction member uninitialised with ⟨_, released, -, valid⟩
      rw [released] at result
      cases result
      exact valid

/-- In every state of every run the heap is valid, `malloc` and `free` return, and
no iteration of the search counts `spacePages` below zero. -/
theorem run_valid_and_returns {heap : Heap} {live : List Record}
    (run : Run heap live) :
    heap.Valid live ∧
    (∀ size, 0 < size → size ≤ 0xFFFFF000 →
      (∃ result, malloc true heap size = some result) ∧
      ∀ count, (∀ earlier ≤ count, ((searchStep heap (roundUp size))^[earlier]
          (Search.start heap)).Running) →
        heap.checkList (pageIndex ((searchStep heap (roundUp size))^[count]
            (Search.start heap)).newAdd) ≤
          ((searchStep heap (roundUp size))^[count] (Search.start heap)).spacePages) ∧
    (∀ block ∈ live, ∀ uninitialised, ∃ after, free uninitialised heap block.first =
      some (after, [.freeMem block.first block.size])) := by
  have valid := run.valid
  refine ⟨valid, ?_, ?_⟩
  · intro size positive upper
    have rounded := roundUp_eq upper
    have roundedPositive : 0 < roundUp size := by omega
    have roundedAligned : roundUp size % 4096 = 0 := by omega
    constructor
    · rcases malloc_valid valid positive upper with null | ⟨_, _, allocated, -⟩
      · exact ⟨_, null⟩
      · exact ⟨_, allocated⟩
    · intro count running
      have sound := searchStep_iterate_sound valid roundedPositive roundedAligned count
        running
      by_cases mark : heap.checkList (pageIndex ((searchStep heap (roundUp size))^[count]
          (Search.start heap)).newAdd) = 0
      · omega
      · rcases sound.scanPage_block valid (running count le_rfl).1 mark with
          ⟨block, -, -, fits, pages, -⟩
        exact pages.trans_le fits
  · intro block member uninitialised
    rcases free_valid valid member uninitialised with ⟨after, released, -⟩
    exact ⟨after, released⟩

/-- The first page of the heap, after one `malloc` of a page. -/
theorem run_valid_and_returns_one_page :
    ∃ heap, Run heap [⟨userHeapStart, 4096⟩] ∧ heap.Valid [⟨userHeapStart, 4096⟩] := by
  have searched : searchLoop initial 4096 (2 ^ 32) (Search.start initial) =
      some ⟨userHeapStart + 4096, 4096, userHeapStart, true, true, heapPages - 1,
        userHeapStart⟩ := rfl
  have allocated : malloc true initial 4096 = some (userHeapStart,
      initial.place userHeapStart 4096, [.allocateMem userHeapStart 4096]) :=
    nextFitAlgo_found searched rfl (by decide)
  have run := Run.malloc Run.start (by decide : 0 < 4096) (by decide) allocated
  exact ⟨_, run, (run_valid_and_returns run).1⟩

end FosKernel.UserHeap
