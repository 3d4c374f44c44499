import FosKernel.Refinement.EmptyRequest
import FosKernel.Properties.KernelHeap

/-! # Completeness of the next-fit search of the kernel heap

The scan sees the heap as a cycle: it counts free pages on from the last page of the heap
to the first, and a hole around the next-fit pointer is seen in two halves. It gives the
first run of the heap exactly when neither matters.
-/

namespace FosKernel.NextFit

open KernelHeap (Cleared sample_cleared sample_last_page)

/-- The search of `kmalloc` ends. -/
def SearchEnds (state : State) (size : Nat) : Prop :=
  ∃ fuel outcome, heapSearch state size fuel = .ok outcome

/-- `pages` consecutive unmapped pages of the heap. -/
structure HeapRun (state : State) (pages first : Nat) : Prop where
  aligned : first % 4096 = 0
  lower : kernelHeapStart ≤ first
  upper : first + pages * 4096 ≤ kernelHeapMax
  unmapped : ∀ index < pages, state.bootTables (ppn (first + index * 4096)) = 0

/-- The pages from `startAdd` on to `first`, in cyclic order. -/
def distance (state : State) (first : Nat) : Nat :=
  ((first - kernelHeapStart) / 4096 + kernelHeapPages -
    (state.startAdd - kernelHeapStart) / 4096) % kernelHeapPages

/-- `kmalloc` returns, with the first run in cyclic order or with a null pointer and
nothing changed but the record at `IDX`. -/
structure Complete (state : State) (size result : Nat) (final : State) : Prop where
  returned : kmalloc size state = .ok (result, final)
  null : result = 0 ↔ ¬∃ first, HeapRun state (roundUp size / 4096) first
  unchanged : result = 0 → ∃ record, final = state.withHeapRecord record
  first : result ≠ 0 → HeapRun state (roundUp size / 4096) result ∧
    ∀ other, HeapRun state (roundUp size / 4096) other →
      distance state result ≤ distance state other

/-- The next-fit pointer lies inside the run. -/
def Straddles (state : State) (pages first : Nat) : Prop :=
  first < state.startAdd ∧ state.startAdd < first + pages * 4096

/-- There is a record and there are frames for the block, the first run that the scan
meets does not go past the end of the heap, and not all runs are around the pointer. -/
structure Findable (state : State) (size : Nat) : Prop where
  records : state.idx < 2 ^ 20
  inside : ¬WrapsAround state.view (roundUp size)
  apart : (∃ first, HeapRun state (roundUp size / 4096) first) →
    ∃ first, HeapRun state (roundUp size / 4096) first ∧
      ¬Straddles state (roundUp size / 4096) first
  frames : (∃ first, HeapRun state (roundUp size / 4096) first) →
    roundUp size / 4096 ≤ state.freeFrameList.size

/-! ## Runs of the heap and runs of the scan -/

theorem heapAddress_ne_zero {address : Nat} (heap : HeapAddress address) : address ≠ 0 := by
  rintro rfl
  exact absurd heap.lower (by decide)

section Coordinates

variable {state : State} {pages first start : Nat}

theorem HeapRun.visitedPage (run : HeapRun state pages first) (layout : HeapLayout state.view)
    {index : Nat} (bound : index < pages) :
    visitedPage state.view (distance state first + index) = first + index * 4096 := by
  have aligned := run.aligned
  have lower := run.lower
  have upper := run.upper
  have startLower := layout.startLower
  have startUpper := layout.startUpper
  have same : state.view.startAdd = state.startAdd := rfl
  simp only [FosKernel.visitedPage, scanOffset, distance, same, kernelHeapStart, kernelHeapMax,
    kernelHeapPages] at *
  omega

theorem HeapRun.freeRun (run : HeapRun state pages first) (layout : HeapLayout state.view) :
    FreeRun state.view (distance state first) pages := by
  intro count lower upper
  rcases Nat.exists_eq_add_of_le lower with ⟨index, rfl⟩
  have bound : index < pages := by omega
  have heap := visitedPage_heapAddress state.view (distance state first + index)
  rw [run.visitedPage layout bound] at heap ⊢
  exact heap.slotEntry.trans (run.unmapped index bound)

/-- A run that the pointer does not divide is met within one round. -/
theorem HeapRun.round (run : HeapRun state pages first) (layout : HeapLayout state.view)
    (inside : state.startAdd < kernelHeapMax) (apart : ¬Straddles state pages first) :
    distance state first + pages ≤ kernelHeapPages := by
  have aligned := run.aligned
  have lower := run.lower
  have upper := run.upper
  have startLower := layout.startLower
  have startAligned := layout.startAligned
  have same : state.view.startAdd = state.startAdd := rfl
  simp only [Straddles, distance, same, kernelHeapStart, kernelHeapMax, kernelHeapPages] at *
  omega

theorem freeRun_mod {view : View} (free : FreeRun view start pages) :
    FreeRun view (start % kernelHeapPages) pages := by
  intro count lower upper
  have same : visitedPage view count =
      visitedPage view (start + (count - start % kernelHeapPages)) := by
    simp only [visitedPage, kernelHeapPages] at *
    omega
  rw [same]
  exact free _ (by omega) (by omega)

theorem FirstRun.start_lt {view : View} (run : FirstRun view pages start) :
    start < kernelHeapPages := by
  by_contra beyond
  have bound : start % kernelHeapPages < kernelHeapPages := Nat.mod_lt _ (by decide)
  exact run.first _ (by omega) (freeRun_mod run.free)

section Scanned

variable {record : KernelHeapRecord}

theorem scanned_distance (scanned : HeapScanned state.view pages start record)
    (layout : HeapLayout state.view) : distance state record.first = start := by
  have first := scanned.first
  have bound := FirstRun.start_lt scanned.run
  have startLower := layout.startLower
  have startUpper := layout.startUpper
  have same : state.view.startAdd = state.startAdd := rfl
  simp only [visitedPage, scanOffset, distance, same, kernelHeapStart, kernelHeapMax,
    kernelHeapPages] at *
  omega

/-- A run of the scan that does not cross the end of the heap is a run of the heap. -/
theorem scanned_heapRun (scanned : HeapScanned state.view pages start record)
    (positive : 0 < pages) (inside : ¬Crosses state.view pages start) :
    HeapRun state pages record.first where
  aligned := scanned.first_heapAddress.aligned
  lower := scanned.first_heapAddress.lower
  upper := (scanned.block positive inside).2
  unmapped := by
    intro index bound
    have member : record.first + index * 4096 ∈ pageRange record.first (record.last + 1) := by
      have ends := (scanned.block positive inside).1
      exact mem_pageRange.mpr ⟨index, rfl, by omega⟩
    have free := scanned.free positive member
    exact free.1.slotEntry.symm.trans free.2

/-- The pointer does not divide what the scan finds. -/
theorem scanned_apart (scanned : HeapScanned state.view pages start record)
    (layout : HeapLayout state.view) (positive : 0 < pages)
    (inside : ¬Crosses state.view pages start) : ¬Straddles state pages record.first := by
  rintro ⟨before, behind⟩
  have ends := scanned.block positive inside
  have below : state.view.startAdd < kernelHeapMax := behind.trans_le ends.2
  have round := scanned.run.round below
  have heap := scanned.first_heapAddress
  have lower := heap.lower
  have aligned := heap.aligned
  have startLower := layout.startLower
  have startAligned := layout.startAligned
  have located := scanned_distance scanned layout
  have same : state.view.startAdd = state.startAdd := rfl
  simp only [distance, same, kernelHeapStart, kernelHeapMax, kernelHeapPages] at *
  omega

end Scanned

end Coordinates

/-! ## Termination -/

section Ends

variable {state : State} {size : Nat}

/-- Where the search for a request ends, one round or a free run is the reason. -/
theorem SearchEnds.reason (ends : SearchEnds state size) (layout : HeapLayout state.view)
    (request : Request size) :
    state.view.startAdd < kernelHeapMax ∨
      ∃ start, start < kernelHeapPages ∧ FreeRun state.view start (roundUp size / 4096) := by
  rcases ends with ⟨fuel, outcome, searched⟩
  have sound := heapSearch_ok layout request searched
  cases outcome with
  | null record => exact .inl sound.1
  | found record =>
      rcases sound with ⟨start, scanned⟩
      exact .inr ⟨start, FirstRun.start_lt scanned.run, scanned.run.free⟩

/-- The bound on the iterations of `kmalloc` does not matter. -/
theorem SearchEnds.returns (ends : SearchEnds state size) (layout : HeapLayout state.view)
    (serviceable : Serviceable state) (request : Request size) :
    ∃ outcome, heapSearch state size heapScanFuel = .ok outcome := by
  have fits := request.roundUp.2.2
  have short : kernelHeapPages + roundUp size / 4096 + 1 < heapScanFuel := by
    simp only [kernelHeapPages, heapScanFuel]
    omega
  refine heapSearch_returns layout serviceable request ?_ short
  rcases ends.reason layout request with inside | ⟨start, bound, free⟩
  · exact .inl ⟨inside, by omega⟩
  · exact .inr ⟨start, free, by omega⟩

end Ends

/-! ## Completeness -/

section Completeness

variable {ghost : Ghost} {state final : State} {size result : Nat}

/-- `kmalloc` returns what its search has found. -/
theorem kmalloc_found (consistent : Consistent ghost state.view) (request : Request size)
    (strategy : state.kHeapPlacementStrategy = .nextFit) {record : KernelHeapRecord}
    (searched : heapSearch state size heapScanFuel = .ok (.found record))
    (returned : kmalloc size state = .ok (result, final)) :
    result = record.first ∧ ∃ after, KernelAllocation ghost state size record after final := by
  rcases heapSearch_ok consistent.toHeapLayout request searched with ⟨start, scanned⟩
  rcases kmalloc_cases returned with
    ⟨other, -⟩ | ⟨nothing, same, -⟩ | ⟨found, mapped, same, looped, rfl, rfl⟩
  · exact absurd strategy other
  · rw [searched] at same
    simp at same
  · rw [searched, Except.ok.injEq, HeapScanResult.found.injEq] at same
    subst same
    rcases scanned.allocation consistent request.roundUp.2.1 looped with
      ⟨written, after, allocation⟩
    rw [written]
    exact ⟨rfl, after, allocation⟩

theorem kmalloc_in_bounds (returned : kmalloc size state = .ok (result, final)) :
    state.idx < 2 ^ 20 := by
  by_contra beyond
  replace returned := Kernel.bind_get_ok.mp returned
  rw [if_pos (Nat.le_of_not_lt beyond)] at returned
  rcases Kernel.bind_ok.mp returned with ⟨_, _, thrown, -⟩
  exact Kernel.throw_ok.mp thrown

theorem FirstRun.unique {view : View} {pages left right : Nat}
    (leftFirst : FirstRun view pages left) (rightFirst : FirstRun view pages right) :
    left = right := by
  rcases Nat.lt_trichotomy left right with before | equal | behind
  · exact absurd leftFirst.free (rightFirst.first left before)
  · exact equal
  · exact absurd rightFirst.free (leftFirst.first right behind)

theorem crosses_end {view : View} {pages start : Nat} {record : KernelHeapRecord}
    (scanned : HeapScanned view pages start record) (crosses : Crosses view pages start) :
    kernelHeapMax < record.first + pages * 4096 := by
  have first := scanned.first
  simp only [Crosses, visitedPage, kernelHeapStart, kernelHeapMax, kernelHeapPages] at *
  omega

theorem block_length {view : View} {pages start : Nat} {record : KernelHeapRecord}
    (scanned : HeapScanned view pages start record) (positive : 0 < pages)
    (inside : ¬Crosses view pages start) :
    (pageRange record.first (record.last + 1)).length = pages := by
  have ends := (scanned.block positive inside).1
  have aligned := scanned.first_heapAddress.aligned
  simp only [pageRange, List.length_map, List.length_range]
  omega

theorem Complete.findable (complete : Complete state size result final)
    (supplied : Supplied ghost state) (strategy : state.kHeapPlacementStrategy = .nextFit)
    (request : Request size) (ends : SearchEnds state size) : Findable state size := by
  have layout := supplied.consistent.toHeapLayout
  have positive := request.roundUp.2.1
  have records := kmalloc_in_bounds complete.returned
  rcases ends.returns layout supplied.serviceable request with ⟨outcome, searched⟩
  cases outcome with
  | null record =>
      have sound := heapSearch_ok layout request searched
      have returned := complete.returned
      rw [kmalloc_null records strategy searched, Except.ok.injEq, Prod.mk.injEq] at returned
      have noRun := complete.null.mp returned.1.symm
      refine ⟨records, ?_, fun run => absurd run noRun, fun run => absurd run noRun⟩
      rintro ⟨start, run, -⟩
      exact sound.2 start (run.round sound.1) run.free
  | found record =>
      rcases heapSearch_ok layout request searched with ⟨start, scanned⟩
      rcases kmalloc_found supplied.consistent request strategy searched complete.returned with
        ⟨rfl, after, allocation⟩
      have run := (complete.first (heapAddress_ne_zero scanned.first_heapAddress)).1
      have inside : ¬Crosses state.view (roundUp size / 4096) start := fun crosses =>
        absurd run.upper (Nat.not_le.mpr (crosses_end scanned crosses))
      refine ⟨records, ?_, fun _ => ?_, fun _ => ?_⟩
      · rintro ⟨other, first, crosses⟩
        rw [FirstRun.unique first scanned.run] at crosses
        exact inside crosses
      · exact ⟨record.first, run, scanned_apart scanned layout positive inside⟩
      · have listed : state.freeFrameList.size = ghost.free.length :=
          supplied.consistent.lists.first.size
        have taken := allocation.growth.length
        rw [List.length_map, block_length scanned positive inside] at taken
        omega

theorem Findable.complete (findable : Findable state size)
    (supplied : Supplied ghost state) (strategy : state.kHeapPlacementStrategy = .nextFit)
    (request : Request size) (ends : SearchEnds state size) :
    ∃ result final, Complete state size result final := by
  have layout := supplied.consistent.toHeapLayout
  rcases request.roundUp with ⟨-, positive, fits⟩
  rcases ends.returns layout supplied.serviceable request with ⟨outcome, searched⟩
  cases outcome with
  | null record =>
      have sound := heapSearch_ok layout request searched
      have noRun : ¬∃ first, HeapRun state (roundUp size / 4096) first := by
        intro some
        rcases findable.apart some with ⟨first, run, apart⟩
        exact sound.2 _ (run.round layout sound.1 apart) (run.freeRun layout)
      exact ⟨0, _, kmalloc_null findable.records strategy searched, by simp [noRun],
        fun _ => ⟨record, rfl⟩, by simp⟩
  | found record =>
      rcases heapSearch_ok layout request searched with ⟨start, scanned⟩
      have inside : ¬Crosses state.view (roundUp size / 4096) start := fun crosses =>
        findable.inside ⟨start, scanned.run, crosses⟩
      have run := scanned_heapRun scanned positive inside
      have listed : state.freeFrameList.size = ghost.free.length :=
        supplied.consistent.lists.first.size
      rcases scanned.returns supplied findable.records strategy searched positive fits
        (listed ▸ findable.frames ⟨_, run⟩) with ⟨final, returned⟩
      have nonzero := heapAddress_ne_zero scanned.first_heapAddress
      refine ⟨record.first, final, returned, ?_, fun zero => absurd zero nonzero, fun _ => ?_⟩
      · exact ⟨fun zero => absurd zero nonzero, fun none => absurd ⟨_, run⟩ none⟩
      · refine ⟨run, fun other otherRun => ?_⟩
        rw [scanned_distance scanned layout]
        by_contra earlier
        exact scanned.run.first _ (by omega) (otherRun.freeRun layout)

/-- In every state with consistent tables and frame lists a search that ends is complete
exactly under the condition `Findable`. -/
theorem kmalloc_complete_iff (supplied : Supplied ghost state)
    (strategy : state.kHeapPlacementStrategy = .nextFit) (request : Request size)
    (ends : SearchEnds state size) :
    (∃ result final, Complete state size result final) ↔ Findable state size :=
  ⟨fun ⟨_, _, complete⟩ => complete.findable supplied strategy request ends,
    fun findable => findable.complete supplied strategy request ends⟩

end Completeness

/-! ## Samples -/

theorem searchEnds_of_startAdd {state : State} {size : Nat} (layout : HeapLayout state.view)
    (serviceable : Serviceable state) (request : Request size)
    (inside : state.startAdd < kernelHeapMax) : SearchEnds state size := by
  rcases heapSearch_returns layout serviceable request
    (.inl ⟨inside, Nat.lt_succ_self kernelHeapPages⟩) (Nat.lt_succ_self _) with
    ⟨outcome, searched⟩
  exact ⟨_, outcome, searched⟩

/-- One page of the empty heap. -/
theorem kmalloc_complete_one_page :
    ∃ final, Complete sampleState 0x1000 kernelHeapStart final := by
  rcases sample_cleared with ⟨ghost, cleared, length⟩
  have supplied := cleared.sound.supplied
  have layout := supplied.consistent.toHeapLayout
  have request : Request 0x1000 := ⟨by decide, by decide⟩
  have ends := searchEnds_of_startAdd layout supplied.serviceable request
    (show kernelHeapStart < kernelHeapMax by decide)
  have listed : sampleState.freeFrameList.size = 63645 :=
    supplied.consistent.lists.first.size.trans length
  have findable : Findable sampleState 0x1000 := by
    refine ⟨by decide, cleared.staysInside (by decide), ?_, ?_⟩
    · rintro ⟨first, run⟩
      refine ⟨first, run, fun straddles => ?_⟩
      exact absurd straddles.1 (Nat.not_lt.mpr run.lower)
    · intro _
      rw [listed]
      decide
  rcases (kmalloc_complete_iff supplied cleared.strategy request ends).mpr findable with
    ⟨result, final, complete⟩
  rcases cleared.kmalloc request (show 0 < 2 ^ 20 by decide) (by decide)
    (by rw [length]; decide) with ⟨record, after, other, returned, first, -⟩
  have same := complete.returned.symm.trans returned
  rw [Except.ok.injEq, Prod.mk.injEq] at same
  have place : result = kernelHeapStart := same.1.trans first
  exact ⟨final, place ▸ complete⟩

/-- With the pointer at the last page of an empty heap, a block of two pages is found
across the end of the heap. -/
theorem kmalloc_incomplete_past_end :
    ∃ ghost state, Supplied ghost state ∧ state.kHeapPlacementStrategy = .nextFit ∧
      SearchEnds state 0x2000 ∧ ¬∃ result final, Complete state 0x2000 result final := by
  rcases sample_last_page with ⟨ghost, state, -, cleared, index, enough⟩
  have supplied := cleared.sound.supplied
  have request : Request 0x2000 := ⟨by decide, by decide⟩
  have inside : state.startAdd < kernelHeapMax := by
    rw [cleared.startAdd]
    decide
  refine ⟨ghost, state, supplied, cleared.strategy, searchEnds_of_startAdd
    supplied.consistent.toHeapLayout supplied.serviceable request inside, ?_⟩
  rintro ⟨result, final, complete⟩
  rcases cleared.kmalloc request (by rw [index]; decide) (by decide) enough with
    ⟨record, after, other, returned, first, -⟩
  have same := complete.returned.symm.trans returned
  rw [Except.ok.injEq, Prod.mk.injEq] at same
  have place : result = 0xFFFFE000 := same.1.trans first
  have run := (complete.first (by rw [place]; decide)).1
  rw [place] at run
  exact absurd run.upper (by decide)

end FosKernel.NextFit
