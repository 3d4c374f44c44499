import FosKernel.Properties.HeapHistory
import FosKernel.Properties.UserNextFit

/-! # Requests larger than the heap

`ROUNDUP` works modulo `2 ^ 32`, so that sizes above `0xFFFFF000` become requests for zero
bytes, and the kernel's search takes the heap for a cycle when the next-fit pointer is at
its end.
-/

namespace FosKernel.OversizedRequests

open KernelHeap (Block Sound sample_cleared)
open HeapHistory (History Regular request_or_zero)

/-- `kmalloc` returns a null pointer and changes only the unused record at `IDX`. -/
def Refused (state : State) (size : Nat) : Prop :=
  ∃ record, kmalloc size state = .ok (0, state.withHeapRecord record)

/-- There is a record to write, the pointer is not at the end of the heap, and a request
that rounds to zero meets an empty heap. -/
structure Refusable (state : State) (size : Nat) : Prop where
  records : state.idx < 2 ^ 20
  pointer : state.startAdd ≠ kernelHeapMax
  empty : 0xFFFFF000 < size → ∀ address, HeapAddress address → state.bootTables (ppn address) = 0

/-- Histories in which every request that is larger than the heap can be refused. -/
def Admissible (state : State) (_ : List Block) : HeapHistory.Call → Prop
  | .kmalloc size => Regular state size ∧
      (kernelHeapMax - kernelHeapStart < size → Refusable state size)
  | .kfree _ => True

section Kernel

variable {ghost : Ghost} {state : State} {size : Nat}

theorem kmalloc_other_strategy (records : state.idx < 2 ^ 20)
    (other : state.kHeapPlacementStrategy ≠ .nextFit) : Refused state size := by
  refine ⟨requestRecord state size, Kernel.bind_get_ok.mpr ?_⟩
  rw [if_neg (Nat.not_le.mpr records)]
  refine Kernel.bind_ok.mpr ⟨(), _, Kernel.modify_ok.mpr rfl, ?_⟩
  rw [if_neg other]
  rfl

theorem Sound.refused (sound : Sound ghost state) (refusable : Refusable state size)
    (large : kernelHeapMax - kernelHeapStart < size) (word : size < 2 ^ 32) :
    Refused state size := by
  have supplied := sound.supplied
  have layout := supplied.consistent.toHeapLayout
  by_cases strategy : state.kHeapPlacementStrategy = .nextFit
  · have inside : state.view.startAdd < kernelHeapMax :=
      Nat.lt_of_le_of_ne layout.startUpper refusable.pointer
    rcases request_or_zero word with request | zero
    · rcases NextFit.searchEnds_of_startAdd layout supplied.serviceable request inside
        |>.returns layout supplied.serviceable request with ⟨outcome, searched⟩
      cases outcome with
      | null record => exact ⟨record, kmalloc_null refusable.records strategy searched⟩
      | found record =>
          rcases heapSearch_ok layout request searched with ⟨start, scanned⟩
          have round := scanned.run.round inside
          have whole := UserHeap.roundUp_eq request.bounded
          simp only [kernelHeapMax, kernelHeapStart, kernelHeapPages] at *
          omega
    · rcases heapSearch_open_returns layout supplied.serviceable zero
        (show 2 ^ 20 ≤ heapScanFuel by decide) with ⟨outcome, searched⟩
      cases outcome with
      | null record => exact ⟨record, kmalloc_null refusable.records strategy searched⟩
      | found record =>
          have oversized : 0xFFFFF000 < size := by
            by_contra bounded
            have request : Request size := ⟨by omega, by omega⟩
            have positive := request.roundUp.2.1
            simp [zero] at positive
          have free : ∀ count,
              state.view.entry (.heap (ppn (visitedPage state.view count))) = 0 := by
            intro count
            have heap := visitedPage_heapAddress state.view count
            exact heap.slotEntry.trans (refusable.empty oversized _ heap)
          rcases heapSearch_open layout zero searched with ⟨used, -⟩ | ⟨-, atEnd | ⟨count, used⟩⟩
          · exact absurd (free 0) used
          · exact absurd atEnd refusable.pointer
          · exact absurd (free count) used
  · exact kmalloc_other_strategy refusable.records strategy

end Kernel

/-! ## The user heap -/

section User

open UserHeap

variable {heap : Heap} {live : List Record} {size : Nat}

theorem malloc_large (valid : heap.Valid live) (large : userHeapMax - userHeapStart < size)
    (upper : size ≤ 0xFFFFF000) : malloc true heap size = some (0, heap, []) := by
  have positive : 0 < size := Nat.lt_of_le_of_lt (Nat.zero_le _) large
  rcases malloc_cases valid positive upper with ⟨null, -⟩ | ⟨pointer, after, -, -, first, -⟩
  · exact null
  · have rangeLower := first.range.lower
    have rangeUpper := first.range.upper
    have rounded := roundUp_eq upper
    simp only [userHeapMax, userHeapStart] at *
    omega

theorem searchLoop_found {search : Search} {fuel : Nat} (running : search.Running)
    (found : (searchStep heap size search).found = true) (enough : 0 < fuel) :
    searchLoop heap size fuel search = some (searchStep heap size search) := by
  have stopped : ¬(searchStep heap size search).Running := fun running =>
    absurd running.2 (by simp [found])
  cases fuel with
  | zero => contradiction
  | succ fuel =>
      rw [searchLoop, if_pos running]
      cases fuel <;> rw [searchLoop, if_neg stopped]

/-- A search for zero bytes ends at the first page. It takes a free page, and at a block
the pointer `tmp` that was never assigned. -/
theorem searchStep_zero (heap : Heap) :
    (searchStep heap 0 (Search.start heap)).found = true ∧
      (searchStep heap 0 (Search.start heap)).startAdd =
        if heap.checkList (pageIndex heap.startAdd) = 0 then heap.startAdd else 0 := by
  by_cases mark : heap.checkList (pageIndex heap.startAdd) = 0 <;>
    simp [searchStep, scanPage, Search.start, mark]

theorem nextFitAlgo_outside {final : Search}
    (ended : searchLoop heap size (2 ^ 32) (Search.start heap) = some final)
    (found : final.found = true) (outside : heapPages ≤ pageIndex final.startAdd) :
    UserHeap.nextFitAlgo heap size = none := by
  rw [UserHeap.nextFitAlgo, ended]
  simp only [Option.bind_eq_bind, Option.bind_some, found, Bool.not_true, Bool.false_and,
    Bool.false_eq_true, if_false, if_true, if_pos outside]

theorem malloc_zero (valid : heap.Valid live) (zero : roundUp size = 0) :
    malloc true heap size ≠ some (0, heap, []) := by
  have running : (Search.start heap).Running := ⟨by simp [Search.start], rfl⟩
  rcases searchStep_zero heap with ⟨found, place⟩
  have ended := searchLoop_found running found (show 0 < 2 ^ 32 by decide)
  have lower := valid.startLower
  have upper := valid.startUpper
  rw [malloc, zero]
  by_cases mark : heap.checkList (pageIndex heap.startAdd) = 0
  · rw [if_pos mark] at place
    have bound : pageIndex heap.startAdd < heapPages := by
      rw [pageIndex_eq lower upper.le]
      grind
    have result := nextFitAlgo_found ended found (by rwa [place])
    rw [if_pos rfl, result, place]
    intro same
    simp only [Option.some.injEq, Prod.mk.injEq] at same
    rw [same.1] at lower
    exact absurd lower (by decide)
  · rw [if_neg mark] at place
    have outside : heapPages ≤ pageIndex 0 := by decide
    have result := nextFitAlgo_outside ended found (by rwa [place])
    rw [if_pos rfl, result]
    exact (Option.some_ne_none _).symm

end User

/-! ## Both heaps -/

/-- In the kernel's histories of refusable requests every request that is larger than the
heap is refused where `Refusable` holds. The user heap refuses such a request exactly when
its size does not round to zero. -/
theorem oversized_refused_when {layout : BootLayout} {contents : BootContents} {state : State}
    {blocks : List Block} {number : Nat}
    (history : History layout contents Admissible state blocks number) {heap : UserHeap.Heap}
    {live : List UserHeap.Record} (run : UserHeap.Run heap live) {size : Nat}
    (word : size < 2 ^ 32) :
    (kernelHeapMax - kernelHeapStart < size → Refusable state size → Refused state size) ∧
      (userHeapMax - userHeapStart < size →
        (UserHeap.malloc true heap size = some (0, heap, []) ↔ size ≤ 0xFFFFF000)) := by
  constructor
  · intro large refusable
    rcases history.sound (fun _ _ _ admitted => admitted.1) with ⟨ghost, sound, -⟩
    exact Sound.refused sound refusable large word
  · intro large
    constructor
    · intro refused
      by_contra beyond
      exact malloc_zero run.valid (roundUp_eq_zero (Nat.lt_of_not_le beyond) word) refused
    · exact malloc_large run.valid large

theorem oversized_refused_at_start :
    Refused sampleState 0x30000000 ∧
      UserHeap.malloc true UserHeap.initial 0x30000000 = some (0, UserHeap.initial, []) := by
  have history : History sampleLayout sampleContents Admissible sampleState [] 0 :=
    .boot sample_boots
  have refused := oversized_refused_when history .start (show 0x30000000 < 2 ^ 32 by decide)
  exact ⟨refused.1 (by decide) ⟨by decide, by decide, fun large => absurd large (by decide)⟩,
    (refused.2 (by decide)).mpr (by decide)⟩

/-- One page of the kernel heap is in use. A request for `0xFFFFFFFF` bytes takes all other
pages; in the user heap it returns the first page. -/
theorem oversized_accepted :
    (∃ state live, History sampleLayout sampleContents Admissible state live 1 ∧
      (∃ result final, kmalloc 0xFFFFFFFF state = .ok (result, final) ∧ result ≠ 0) ∧
      ¬Refused state 0xFFFFFFFF) ∧
    UserHeap.malloc true UserHeap.initial 0xFFFFFFFF =
      some (userHeapStart, UserHeap.initial.place userHeapStart 0,
        [.allocateMem userHeapStart 0]) := by
  constructor
  · rcases sample_cleared with ⟨ghost, cleared, length⟩
    have request : Request 0x1000 := ⟨by decide, by decide⟩
    rcases cleared.kmalloc request (show 0 < 2 ^ 20 by decide) (by decide)
      (by rw [length]; decide) with ⟨record, after, final, returned, first, last, allocation⟩
    replace first : record.first = kernelHeapStart := first
    replace last : record.last = kernelHeapStart := last
    have history : History sampleLayout sampleContents Admissible final
        (if record.first = 0 then [] else [⟨record.first, roundUp 0x1000⟩])
        (if record.first = 0 then 0 else 0 + 1) :=
      .kmalloc (.boot sample_boots) (by decide)
        ⟨fun zero => absurd zero (by decide), fun large => absurd large (by decide)⟩ returned
    rw [first, if_neg (by decide), if_neg (by decide)] at history
    have growth := allocation.growth
    have pages : (pageRange record.first (record.last + 1)).map ppn = [ppn kernelHeapStart] := by
      rw [first, last]
      rfl
    rw [pages] at growth
    have supplied := (cleared.sound.grow allocation).supplied
    have layout := supplied.consistent.toHeapLayout
    have pointer : final.startAdd = kernelHeapStart + 1 * 4096 := by
      rw [allocation.startAdd, last]
    have offset := KernelHeap.scanOffset_eq pointer
    have strategy : final.kHeapPlacementStrategy = .nextFit := by
      have before := cleared.strategy
      rcases allocation.only with ⟨_, _, _, _, _, _, _, rfl⟩
      exact before
    have atPointer : final.view.entry (.heap (ppn (visitedPage final.view 0))) = 0 := by
      rw [visitedPage, offset, growth.entries _ (by decide)]
      exact cleared.free _
    have atStart : final.view.entry (.heap (ppn (visitedPage final.view 0x9FFE))) ≠ 0 := by
      rcases growth.handedOut (ppn kernelHeapStart) (by simp) with ⟨frame, handed⟩
      rw [visitedPage, offset]
      exact handed.entry ▸ ne_zero_of_present (present_heapEntry frame)
    rcases heapSearch_open_returns layout supplied.serviceable
      (show roundUp 0xFFFFFFFF = 0 by decide) (show 2 ^ 20 ≤ heapScanFuel by decide) with
      ⟨outcome, searched⟩
    cases outcome with
    | null nothing =>
        have free := (heapSearch_open layout (by decide) searched).2
        exact absurd (free.everywhere le_rfl _) atStart
    | found large =>
        rcases heapSearch_open layout (by decide) searched with
          ⟨used, -⟩ | ⟨⟨count, positive, within, scanned⟩, -⟩
        · exact absurd atPointer used
        · have enough : count ≤ after.free.length := by
            have taken := growth.length
            simp only [List.length_singleton, kernelHeapPages] at taken within
            omega
          rcases scanned.returns supplied (by rw [allocation.idx]; decide) strategy searched
            positive (by simp only [kernelHeapPages] at within; omega) enough with
            ⟨last, accepted⟩
          have nonzero := NextFit.heapAddress_ne_zero scanned.first_heapAddress
          refine ⟨final, _, history, ⟨large.first, last, accepted, nonzero⟩, ?_⟩
          rintro ⟨unused, refused⟩
          rw [accepted, Except.ok.injEq, Prod.mk.injEq] at refused
          exact nonzero refused.1
  · have searched : UserHeap.searchLoop UserHeap.initial 0 (2 ^ 32)
        (UserHeap.Search.start UserHeap.initial) =
        some ⟨0x80001000, 0x1000, 0x80000000, true, true, 0x1FFFF, 0x80000000⟩ := rfl
    exact UserHeap.nextFitAlgo_found searched rfl (by decide)

end FosKernel.OversizedRequests
