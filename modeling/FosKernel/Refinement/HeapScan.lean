import FosKernel.Refinement.Frames

/-! # The next-fit search of the kernel heap

What the search loop of `nextFitAlgo` finds. The scan visits the heap pages in cyclic
order from the next-fit pointer on and stops at the first run of free pages that is
long enough. A run is carried along from the end of the heap to its start; a run found
across that point is no block, and `WrapsAround` says when this happens.
-/

namespace FosKernel

/-- `(KERNEL_HEAP_MAX - KERNEL_HEAP_START) / PAGE_SIZE`. -/
abbrev kernelHeapPages : Nat := 0x9FFF

/-- The place of the next-fit pointer in the heap. -/
def scanOffset (view : View) : Nat := (view.startAdd - kernelHeapStart) / 4096

/-- The heap page that iteration `count` of the scan visits. -/
def visitedPage (view : View) (count : Nat) : Nat :=
  kernelHeapStart + (scanOffset view + count) % kernelHeapPages * 4096

/-- The `length` pages visited from iteration `start` on are free. -/
def FreeRun (view : View) (start length : Nat) : Prop :=
  ∀ count, start ≤ count → count < start + length →
    view.entry (.heap (ppn (visitedPage view count))) = 0

/-- The first free run of `pages` pages begins at iteration `start`. When the pointer
is inside the heap the scan ends after one round. -/
structure FirstRun (view : View) (pages start : Nat) : Prop where
  free : FreeRun view start pages
  first : ∀ earlier, earlier < start → ¬FreeRun view earlier pages
  round : view.startAdd < kernelHeapMax → start + pages ≤ kernelHeapPages

/-- The run goes past the end of the heap. -/
def Crosses (view : View) (pages start : Nat) : Prop :=
  kernelHeapPages < (scanOffset view + start) % kernelHeapPages + pages

/-- The first run that the scan meets goes past the end of the heap. -/
def WrapsAround (view : View) (size : Nat) : Prop :=
  ∃ start, FirstRun view (size / 4096) start ∧ Crosses view (size / 4096) start

theorem visitedPage_heapAddress (view : View) (count : Nat) :
    HeapAddress (visitedPage view count) := by
  unfold visitedPage
  exact ⟨by grind, by grind, by grind⟩

/-! ## Invariant of the scan -/

namespace HeapScan

/-- The page that the iteration looks at. -/
def page (scan : HeapScan) : Nat :=
  if scan.i = kernelHeapMax then kernelHeapStart else scan.i

/-- The scan is at iteration `count`. The pointer has been visited once, unless it is
the end of the heap. -/
structure At (view : View) (count : Nat) (scan : HeapScan) : Prop where
  position : scan.page = visitedPage view count
  visits : scan.y = if view.startAdd = kernelHeapMax ∨ count = 0 then 0 else 1
  round : view.startAdd < kernelHeapMax → count ≤ kernelHeapPages

/-- The variables of the loop at iteration `count`, with a run of `run` free pages
just before it. -/
structure Sound (view : View) (pages count run : Nat) (scan : HeapScan) : Prop
    extends At view count scan where
  requested : scan.record.size = pages * 4096
  length : scan.x = run * 4096
  short : run < pages
  within : run ≤ count
  free : FreeRun view (count - run) run
  maximal : run < count →
    view.entry (.heap (ppn (visitedPage view (count - run - 1)))) ≠ 0
  first : 0 < run → scan.record.first = visitedPage view (count - run)
  last : 0 < run → scan.record.last = visitedPage view (count - 1)
  none : ∀ start, start + pages ≤ count → ¬FreeRun view start pages

end HeapScan

/-- What a successful scan leaves in the record. -/
structure HeapScanned (view : View) (pages start : Nat) (record : KernelHeapRecord) :
    Prop where
  run : FirstRun view pages start
  first : record.first = visitedPage view start
  last : record.last = visitedPage view (start + pages - 1)

theorem FreeRun.extend {view : View} {start length : Nat} (free : FreeRun view start length)
    (page : view.entry (.heap (ppn (visitedPage view (start + length)))) = 0) :
    FreeRun view start (length + 1) := by
  intro count lower upper
  by_cases before : count < start + length
  · exact free count lower before
  · have same : count = start + length := by omega
    rw [same]
    exact page

section Scan

variable {view : View} {pages count run : Nat} {scan : HeapScan}

theorem heapScan_at (layout : HeapLayout view) (record : KernelHeapRecord) :
    HeapScan.At view 0 ⟨view.startAdd, 0, 0, record⟩ where
  position := by
    have lower := layout.startLower
    have upper := layout.startUpper
    have aligned := layout.startAligned
    simp only [HeapScan.page, visitedPage, scanOffset, kernelHeapStart, kernelHeapMax,
      kernelHeapPages] at *
    split <;> omega
  visits := by simp
  round := by simp

theorem heapScan_start (layout : HeapLayout view) {record : KernelHeapRecord}
    (positive : 0 < pages) (size : record.size = pages * 4096) :
    HeapScan.Sound view pages 0 0 ⟨view.startAdd, 0, 0, record⟩ where
  toAt := heapScan_at layout record
  requested := size
  length := by simp
  short := positive
  within := le_rfl
  free := by
    intro index lower upper
    omega
  maximal := by simp
  first := by simp
  last := by simp
  none := by
    intro start bound
    omega

theorem page_of_visitedPage {next : HeapScan} (i : next.i = visitedPage view count + 4096) :
    next.page = visitedPage view (count + 1) := by
  simp only [HeapScan.page, visitedPage, kernelHeapStart, kernelHeapMax,
    kernelHeapPages] at *
  rw [ite_eq_iff]
  omega

/-- The pointer is met again exactly after a whole round. -/
theorem visitedPage_eq_startAdd (layout : HeapLayout view) (inside : count ≤ kernelHeapPages) :
    visitedPage view count = view.startAdd ↔
      view.startAdd < kernelHeapMax ∧ (count = 0 ∨ count = kernelHeapPages) := by
  have lower := layout.startLower
  have upper := layout.startUpper
  have aligned := layout.startAligned
  simp only [visitedPage, scanOffset, kernelHeapStart, kernelHeapMax,
    kernelHeapPages] at *
  omega

/-- A page in use ends the run. -/
theorem HeapScan.Sound.stop (sound : scan.Sound view pages count run) {next : HeapScan}
    (used : view.entry (.heap (ppn (visitedPage view count))) ≠ 0)
    (i : next.i = visitedPage view count + 4096) (record : next.record = scan.record)
    (x : next.x = 0) (y : next.y = if view.startAdd = kernelHeapMax then 0 else 1)
    (round : view.startAdd < kernelHeapMax → count < kernelHeapPages) :
    next.Sound view pages (count + 1) 0 where
  position := page_of_visitedPage i
  requested := by rw [record, sound.requested]
  length := by simpa using x
  short := Nat.lt_of_le_of_lt (Nat.zero_le run) sound.short
  within := Nat.zero_le _
  free := by
    intro index lower upper
    omega
  maximal := by simpa using used
  first := by simp
  last := by simp
  none := by
    intro start bound free
    by_cases before : start + pages ≤ count
    · exact sound.none start before free
    · have short := sound.short
      exact used (free count (by omega) (by omega))
  visits := by simpa using y
  round := fun inside => round inside

/-- A free page makes the run longer. -/
theorem HeapScan.Sound.extend (sound : scan.Sound view pages count run) {next : HeapScan}
    (free : view.entry (.heap (ppn (visitedPage view count))) = 0)
    (short : run + 1 < pages)
    (i : next.i = visitedPage view count + 4096) (size : next.record.size = scan.record.size)
    (first : next.record.first = visitedPage view (count - run))
    (last : next.record.last = visitedPage view count)
    (x : next.x = (run + 1) * 4096) (y : next.y = if view.startAdd = kernelHeapMax then 0 else 1)
    (round : view.startAdd < kernelHeapMax → count < kernelHeapPages) :
    next.Sound view pages (count + 1) (run + 1) where
  position := page_of_visitedPage i
  requested := by rw [size, sound.requested]
  length := x
  short := short
  within := Nat.succ_le_succ sound.within
  free := by
    have within := sound.within
    have longer := sound.free.extend (by rwa [Nat.sub_add_cancel within])
    rwa [Nat.add_sub_add_right]
  maximal := by
    intro more
    rw [Nat.add_sub_add_right]
    exact sound.maximal (Nat.lt_of_succ_lt_succ more)
  first := by
    intro _
    rw [Nat.add_sub_add_right, first]
  last := by
    intro _
    rw [last, Nat.add_sub_cancel]
  none := by
    intro start bound runFree
    by_cases before : start + pages ≤ count
    · exact sound.none start before runFree
    · have within := sound.within
      exact sound.maximal (by omega) (runFree _ (by omega) (by omega))
  visits := by simpa using y
  round := fun inside => round inside

/-- The run has the requested length. -/
theorem HeapScan.Sound.found (sound : scan.Sound view pages count run)
    {record : KernelHeapRecord}
    (free : view.entry (.heap (ppn (visitedPage view count))) = 0)
    (long : run + 1 = pages)
    (first : record.first = visitedPage view (count - run))
    (last : record.last = visitedPage view count)
    (round : view.startAdd < kernelHeapMax → count < kernelHeapPages) :
    HeapScanned view pages (count - run) record where
  run :=
    { free := by
        have within := sound.within
        have longer := sound.free.extend (by rwa [Nat.sub_add_cancel within])
        rwa [long] at longer
      first := by
        intro earlier before runFree
        exact sound.none earlier (by omega) runFree
      round := by
        intro inside
        have := round inside
        have := sound.within
        omega }
  first := first
  last := by
    have within := sound.within
    rw [last, show count - run + pages - 1 = count by omega]

end Scan

/-! ## The loop -/

section Loop

variable {state : State} {pages count run : Nat} {scan : HeapScan}

/-- What the search may end with. -/
def HeapScanResult.Sound (view : View) (pages : Nat) : HeapScanResult → Prop
  | .null _ => view.startAdd < kernelHeapMax ∧
      ∀ start, start + pages ≤ kernelHeapPages → ¬FreeRun view start pages
  | .found record => ∃ start, HeapScanned view pages start record

/-- The visits to the next-fit pointer that the iteration has counted. -/
theorem HeapScan.At.visited (located : scan.At state.view count)
    (layout : HeapLayout state.view) {y : Nat}
    (counted : y = if scan.page = state.startAdd then scan.y + 1 else scan.y) :
    (y = 2 ∧ count = kernelHeapPages ∧ state.view.startAdd < kernelHeapMax) ∨
      (y = if state.view.startAdd = kernelHeapMax then 0 else 1) ∧
        (state.view.startAdd < kernelHeapMax → count < kernelHeapPages) := by
  have visits := located.visits
  rw [located.position] at counted
  have upper := layout.startUpper
  by_cases inside : state.view.startAdd < kernelHeapMax
  · have round := located.round inside
    have met := visitedPage_eq_startAdd layout round
    have different : state.view.startAdd ≠ kernelHeapMax := by omega
    have same : state.startAdd = state.view.startAdd := rfl
    rw [same] at counted
    simp only [different, false_or, if_false] at visits ⊢
    by_cases zero : count = 0
    · right
      simp_all
    · by_cases whole : count = kernelHeapPages
      · left
        simp_all
      · right
        have elsewhere : visitedPage state.view count ≠ state.view.startAdd := by
          rw [Ne, met]
          tauto
        simp only [elsewhere, zero, if_false] at counted visits
        exact ⟨counted.trans visits, fun _ => by omega⟩
  · have same : state.view.startAdd = kernelHeapMax := by omega
    have elsewhere : visitedPage state.view count ≠ state.startAdd := by
      have heap := (visitedPage_heapAddress state.view count).upper
      rw [show state.startAdd = state.view.startAdd from rfl, same]
      omega
    right
    simp only [same, true_or, if_true, elsewhere, if_false] at counted visits ⊢
    exact ⟨counted.trans visits, fun below => absurd below (lt_irrefl _)⟩

theorem heapScanStep_ok (layout : HeapLayout state.view)
    (sound : scan.Sound state.view pages count run) (fits : pages < 2 ^ 20)
    {outcome : HeapScanResult ⊕ HeapScan}
    (returned : heapScanStep state scan = .ok outcome) :
    (∃ result, outcome = .inl result ∧ result.Sound state.view pages) ∨
      ∃ next newRun, outcome = .inr next ∧ next.Sound state.view pages (count + 1) newRun := by
  simp only [heapScanStep] at returned
  rw [show (if scan.i = kernelHeapMax then kernelHeapStart else scan.i) = scan.page from rfl]
    at returned
  generalize counted : (if scan.page = state.startAdd then scan.y + 1 else scan.y) = y
    at returned
  rcases sound.toAt.visited layout counted.symm with
    ⟨second, whole, inside⟩ | ⟨visits, round⟩
  · have unfinished : scan.x ≠ scan.record.size := by
      rw [sound.length, sound.requested]
      have := sound.short
      omega
    rw [if_pos ⟨second, unfinished⟩] at returned
    simp only [pure, Except.pure, Except.ok.injEq] at returned
    refine .inl ⟨_, returned.symm, inside, fun start bound => sound.none start ?_⟩
    rwa [whole]
  · have goesOn : ¬(y = 2 ∧ scan.x ≠ scan.record.size) := by
      rintro ⟨two, -⟩
      rw [two] at visits
      split at visits <;> simp at visits
    rw [if_neg goesOn] at returned
    rcases Except.bind_ok.mp returned with ⟨⟨info, pointer⟩, looked, ended⟩
    have heap := visitedPage_heapAddress state.view count
    rw [sound.position] at looked ended
    have read := getFrameInfo_heap layout heap looked
    have length := sound.length
    have short := sound.short
    by_cases free : info = none
    · have unmapped := entryFrame_eq_none.mp (read.symm.trans free)
      have longer : (scan.x + 4096) % 2 ^ 32 = (run + 1) * 4096 := by omega
      have firstPage : (if scan.x = 0 then visitedPage state.view count
          else scan.record.first) = visitedPage state.view (count - run) := by
        split
        · rw [show run = 0 by omega, Nat.sub_zero]
        · exact sound.first (by omega)
      simp only [free, if_true, longer, sound.requested, firstPage] at ended
      split at ended
      · next done =>
        simp only [pure, Except.pure, Except.ok.injEq] at ended
        refine .inl ⟨_, ended.symm, count - run, ?_⟩
        exact sound.found unmapped (by omega) rfl rfl round
      · next more =>
        simp only [pure, Except.pure, Except.ok.injEq] at ended
        refine .inr ⟨_, run + 1, ended.symm, ?_⟩
        exact sound.extend unmapped (by omega) rfl sound.requested.symm rfl rfl rfl visits round
    · have used : state.view.entry (.heap (ppn (visitedPage state.view count))) ≠ 0 :=
        fun zero => free (read.trans (entryFrame_eq_none.mpr zero))
      have more : ¬(0 : Nat) = pages * 4096 := by omega
      simp only [free, if_false, sound.requested, more, pure, Except.pure,
        Except.ok.injEq] at ended
      refine .inr ⟨_, 0, ended.symm, ?_⟩
      exact sound.stop used rfl rfl rfl visits round

theorem heapScanLoop_ok (layout : HeapLayout state.view) (fits : pages < 2 ^ 20)
    {fuel : Nat} {result : HeapScanResult}
    (sound : scan.Sound state.view pages count run)
    (returned : heapScanLoop state fuel scan = .ok result) :
    result.Sound state.view pages := by
  induction fuel generalizing scan count run with
  | zero => simp [heapScanLoop] at returned
  | succ fuel induction =>
      rcases Except.bind_ok.mp returned with ⟨outcome, stepped, ended⟩
      rcases heapScanStep_ok layout sound fits stepped with
        ⟨found, rfl, holds⟩ | ⟨next, newRun, rfl, nextSound⟩
      · simp only [pure, Except.pure, Except.ok.injEq] at ended
        exact ended ▸ holds
      · exact induction nextSound ended

end Loop

/-! ## What was found -/

namespace HeapScanned

variable {view : View} {pages start : Nat} {record : KernelHeapRecord}

theorem first_heapAddress (scanned : HeapScanned view pages start record) :
    HeapAddress record.first :=
  scanned.first ▸ visitedPage_heapAddress view start

theorem last_heapAddress (scanned : HeapScanned view pages start record) :
    HeapAddress record.last :=
  scanned.last ▸ visitedPage_heapAddress view (start + pages - 1)

/-- The pages from the first to the last one belong to the run. -/
theorem free (scanned : HeapScanned view pages start record) (positive : 0 < pages)
    {address : Nat} (member : address ∈ pageRange record.first (record.last + 1)) :
    HeapAddress address ∧ view.entry (.heap (ppn address)) = 0 := by
  have upper := scanned.last_heapAddress.upper
  have heap := pageRange_heapAddress scanned.first_heapAddress.lower (by omega)
    scanned.first_heapAddress.aligned member
  rcases mem_pageRange.mp member with ⟨index, rfl, bound⟩
  refine ⟨heap, ?_⟩
  have first := scanned.first
  have last := scanned.last
  have located : record.first + index * 4096 = visitedPage view (start + index) ∧
      index < pages := by
    have below := heap.upper
    simp only [visitedPage, kernelHeapStart, kernelHeapMax, kernelHeapPages] at *
    omega
  rw [located.1]
  exact scanned.run.free (start + index) (by omega) (by omega)

theorem length_le (scanned : HeapScanned view pages start record) (positive : 0 < pages) :
    (pageRange record.first (record.last + 1)).length ≤ pages := by
  have first := scanned.first
  have last := scanned.last
  simp only [pageRange, List.length_map, List.length_range]
  simp only [visitedPage, kernelHeapStart, kernelHeapPages] at *
  omega

/-- A run inside the heap is a block. -/
theorem block (scanned : HeapScanned view pages start record) (positive : 0 < pages)
    (inside : ¬Crosses view pages start) :
    record.last + 4096 = record.first + pages * 4096 ∧
      record.first + pages * 4096 ≤ kernelHeapMax := by
  have first := scanned.first
  have last := scanned.last
  simp only [Crosses, visitedPage, kernelHeapStart, kernelHeapMax, kernelHeapPages] at *
  omega

end HeapScanned

end FosKernel
