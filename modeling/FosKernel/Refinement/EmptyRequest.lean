import FosKernel.Refinement.HeapProgress

/-! # Requests that round to zero

A size above `0xFFFFF000` is rounded up to zero. The search for zero bytes stops at the
first page in use, with the free pages before it. When the page at the next-fit pointer
is itself in use, nothing has been written yet and the old record at `IDX` is taken.
-/

namespace FosKernel

/-- The sizes that `ROUNDUP` takes to zero. -/
theorem roundUp_eq_zero {size : Nat} (large : 0xFFFFF000 < size) (word : size < 2 ^ 32) :
    roundUp size = 0 := by
  simp only [roundUp, roundDown]
  omega

/-- The variables of a search for zero bytes: all pages so far were free. -/
structure HeapScan.Open (view : View) (old : KernelHeapRecord) (count : Nat)
    (scan : HeapScan) : Prop extends scan.At view count where
  requested : scan.record.size = 0
  length : scan.x = count * 4096
  short : count < 2 ^ 20
  free : FreeRun view 0 count
  untouched : count = 0 → scan.record = old
  first : 0 < count → scan.record.first = visitedPage view 0
  last : 0 < count → scan.record.last = visitedPage view (count - 1)

/-- What the search for zero bytes ends with: nothing in an empty heap, the old record
at a page in use, or the free pages from the pointer on. -/
def HeapScanResult.Open (view : View) (old : KernelHeapRecord) : HeapScanResult → Prop
  | .null _ => view.startAdd < kernelHeapMax ∧ FreeRun view 0 kernelHeapPages
  | .found record =>
      view.entry (.heap (ppn (visitedPage view 0))) ≠ 0 ∧ record = old ∨
        (∃ pages, 0 < pages ∧ pages ≤ kernelHeapPages ∧ HeapScanned view pages 0 record) ∧
          (view.startAdd = kernelHeapMax ∨
            ∃ count, view.entry (.heap (ppn (visitedPage view count))) ≠ 0)

section Scan

variable {state : State} {old record : KernelHeapRecord} {count : Nat} {scan : HeapScan}

theorem openScan_start (layout : HeapLayout state.view) (size : old.size = 0) :
    HeapScan.Open state.view old 0 ⟨state.view.startAdd, 0, 0, old⟩ where
  toAt := heapScan_at layout old
  requested := size
  length := by simp
  short := by decide
  free := by
    intro index lower upper
    omega
  untouched := fun _ => rfl
  first := by simp
  last := by simp

/-- Every heap page is visited within one round. -/
theorem FreeRun.everywhere {view : View} {length : Nat} (free : FreeRun view 0 length)
    (round : kernelHeapPages ≤ length) (count : Nat) :
    view.entry (.heap (ppn (visitedPage view count))) = 0 := by
  have same : visitedPage view count = visitedPage view (count % kernelHeapPages) := by
    simp only [visitedPage, kernelHeapPages]
    omega
  rw [same]
  have bound : count % kernelHeapPages < kernelHeapPages := Nat.mod_lt _ (by decide)
  exact free _ (Nat.zero_le _) (by omega)

/-- The pages from the pointer on, as far as the search has come. -/
theorem HeapScan.Open.scanned (sound : scan.Open state.view old count) (some : 0 < count)
    (within : count ≤ kernelHeapPages) : HeapScanned state.view count 0 scan.record where
  run :=
    { free := sound.free
      first := fun earlier before => absurd before (Nat.not_lt_zero earlier)
      round := fun _ => by omega }
  first := sound.first some
  last := by rw [sound.last some, Nat.zero_add]

/-- After `2 ^ 20` free pages the counter is back at zero. -/
theorem HeapScanned.ofRounds {view : View} (free : FreeRun view 0 (2 ^ 20))
    (first : record.first = visitedPage view 0)
    (last : record.last = visitedPage view (2 ^ 20 - 1)) :
    HeapScanned view 24601 0 record where
  run :=
    { free := fun count _ _ => free count (Nat.zero_le _) (by omega)
      first := fun earlier before => absurd before (Nat.not_lt_zero earlier)
      round := fun _ => by decide }
  first := first
  last := by
    rw [last]
    simp only [visitedPage, kernelHeapPages]
    omega

theorem openScanStep_ok (layout : HeapLayout state.view)
    (sound : scan.Open state.view old count) {outcome : HeapScanResult ⊕ HeapScan}
    (returned : heapScanStep state scan = .ok outcome) :
    (∃ result, outcome = .inl result ∧ result.Open state.view old) ∨
      ∃ next, outcome = .inr next ∧ next.Open state.view old (count + 1) := by
  simp only [heapScanStep] at returned
  rw [show (if scan.i = kernelHeapMax then kernelHeapStart else scan.i) = scan.page from rfl]
    at returned
  generalize counted : (if scan.page = state.startAdd then scan.y + 1 else scan.y) = y
    at returned
  have length := sound.length
  have short := sound.short
  rcases sound.toAt.visited layout counted.symm with
    ⟨second, whole, inside⟩ | ⟨visits, round⟩
  · have unfinished : scan.x ≠ scan.record.size := by
      rw [length, sound.requested, whole]
      decide
    rw [if_pos ⟨second, unfinished⟩] at returned
    simp only [pure, Except.pure, Except.ok.injEq] at returned
    exact .inl ⟨_, returned.symm, inside, whole ▸ sound.free⟩
  · have goesOn : ¬(y = 2 ∧ scan.x ≠ scan.record.size) := by
      rintro ⟨two, -⟩
      rw [two] at visits
      split at visits <;> simp at visits
    rw [if_neg goesOn] at returned
    rcases Except.bind_ok.mp returned with ⟨⟨info, pointer⟩, looked, ended⟩
    have heap := visitedPage_heapAddress state.view count
    rw [sound.position] at looked ended
    have read := getFrameInfo_heap layout heap looked
    by_cases free : info = none
    · have unmapped := entryFrame_eq_none.mp (read.symm.trans free)
      have longer : FreeRun state.view 0 (count + 1) :=
        sound.free.extend (by rwa [Nat.zero_add])
      have firstPage : (if scan.x = 0 then visitedPage state.view count
          else scan.record.first) = visitedPage state.view 0 := by
        split
        · rw [show count = 0 by omega]
        · exact sound.first (by omega)
      simp only [free, if_true, sound.requested, firstPage] at ended
      by_cases wrapped : count + 1 = 2 ^ 20
      · have zero : (scan.x + 4096) % 2 ^ 32 = 0 := by omega
        simp only [zero, if_true, pure, Except.pure, Except.ok.injEq] at ended
        have atEnd : count = 2 ^ 20 - 1 := by omega
        have upper := layout.startUpper
        refine .inl ⟨_, ended.symm, .inr ⟨⟨24601, by decide, by decide, ?_⟩, .inl ?_⟩⟩
        · exact .ofRounds (wrapped ▸ longer) rfl (by rw [atEnd])
        · by_contra elsewhere
          have early := round (by omega)
          simp only [kernelHeapPages] at early
          omega
      · have sum : (scan.x + 4096) % 2 ^ 32 = (count + 1) * 4096 := by omega
        have more : ¬(count + 1) * 4096 = 0 := by omega
        simp only [sum, more, if_false, pure, Except.pure, Except.ok.injEq] at ended
        refine .inr ⟨_, ended.symm, ?_⟩
        exact
          { position := page_of_visitedPage rfl
            visits := by simpa using visits
            round := fun inside => round inside
            requested := rfl
            length := rfl
            short := by omega
            free := longer
            untouched := by simp
            first := fun _ => rfl
            last := fun _ => by simp }
    · have used : state.view.entry (.heap (ppn (visitedPage state.view count))) ≠ 0 :=
        fun zero => free (read.trans (entryFrame_eq_none.mpr zero))
      simp only [free, if_false, sound.requested, if_true, pure, Except.pure,
        Except.ok.injEq] at ended
      refine .inl ⟨_, ended.symm, ?_⟩
      by_cases first : count = 0
      · exact .inl ⟨first ▸ used, sound.untouched first⟩
      · have within : count ≤ kernelHeapPages := by
          by_contra beyond
          exact used (sound.free.everywhere (by omega) count)
        exact .inr ⟨⟨count, by omega, within, sound.scanned (by omega) within⟩,
          .inr ⟨count, used⟩⟩

theorem openScanLoop_ok (layout : HeapLayout state.view) {fuel : Nat}
    {result : HeapScanResult} (sound : scan.Open state.view old count)
    (returned : heapScanLoop state fuel scan = .ok result) : result.Open state.view old := by
  induction fuel generalizing scan count with
  | zero => simp [heapScanLoop] at returned
  | succ fuel induction =>
      rcases Except.bind_ok.mp returned with ⟨outcome, stepped, ended⟩
      rcases openScanStep_ok layout sound stepped with
        ⟨found, rfl, holds⟩ | ⟨next, rfl, nextSound⟩
      · simp only [pure, Except.pure, Except.ok.injEq] at ended
        exact ended ▸ holds
      · exact induction nextSound ended

/-- The search for zero bytes always ends: the counter cannot pass `2 ^ 20` pages. -/
theorem openScanLoop_returns (layout : HeapLayout state.view) (serviceable : Serviceable state)
    {fuel : Nat} (sound : scan.Open state.view old count) (enough : 2 ^ 20 ≤ count + fuel) :
    ∃ result, heapScanLoop state fuel scan = .ok result := by
  induction fuel generalizing scan count with
  | zero =>
      have := sound.short
      omega
  | succ fuel induction =>
      rcases heapScanStep_returns layout serviceable sound.position with ⟨outcome, stepped⟩
      rcases openScanStep_ok layout sound stepped with
        ⟨result, rfl, -⟩ | ⟨next, rfl, nextSound⟩
      · exact ⟨result, by simp [heapScanLoop, stepped, bind, Except.bind, pure, Except.pure]⟩
      · rcases induction nextSound (by omega) with ⟨result, ended⟩
        exact ⟨result, by simp [heapScanLoop, stepped, bind, Except.bind, ended]⟩

end Scan

/-! ## The search and the call -/

section Calls

variable {ghost : Ghost} {state final : State} {size : Nat}

theorem heapSearch_open (layout : HeapLayout state.view) {fuel : Nat}
    (zero : roundUp size = 0) {outcome : HeapScanResult}
    (searched : heapSearch state size fuel = .ok outcome) :
    outcome.Open state.view (requestRecord state size) := by
  have layoutThere : HeapLayout (state.withHeapRecord (requestRecord state size)).view := layout
  have requested : (requestRecord state size).size = 0 := zero
  exact openScanLoop_ok layoutThere (openScan_start layoutThere requested) searched

theorem heapSearch_open_returns (layout : HeapLayout state.view)
    (serviceable : Serviceable state) (zero : roundUp size = 0) {fuel : Nat}
    (enough : 2 ^ 20 ≤ fuel) : ∃ outcome, heapSearch state size fuel = .ok outcome := by
  have layoutThere : HeapLayout (state.withHeapRecord (requestRecord state size)).view := layout
  have serviceableThere : Serviceable (state.withHeapRecord (requestRecord state size)) :=
    ⟨serviceable.tables, serviceable.frames⟩
  have requested : (requestRecord state size).size = 0 := zero
  exact openScanLoop_returns layoutThere serviceableThere (openScan_start layoutThere requested)
    (by omega)

theorem roundUp_pages {pages : Nat} (within : pages ≤ kernelHeapPages) :
    roundUp (pages * 4096) / 4096 = pages := by
  simp only [roundUp, roundDown, kernelHeapPages] at *
  omega

/-- A request for zero bytes at a free page takes the free pages from there on. -/
theorem kmalloc_open_ok (consistent : Consistent ghost state.view) {result : Nat}
    (zero : roundUp size = 0)
    (free : state.view.entry (.heap (ppn (visitedPage state.view 0))) = 0)
    (returned : kmalloc size state = .ok (result, final)) :
    (result = 0 ∧ ∃ record, final = state.withHeapRecord record) ∨
      ∃ pages record after, result = record.first ∧ 0 < pages ∧ pages ≤ kernelHeapPages ∧
        KernelAllocation ghost state (pages * 4096) record after final := by
  have layout := consistent.toHeapLayout
  rcases kmalloc_cases returned with
    ⟨other, rfl, rfl⟩ | ⟨record, searched, rfl, rfl⟩ |
      ⟨record, mapped, searched, looped, rfl, rfl⟩
  · exact .inl ⟨rfl, _, rfl⟩
  · exact .inl ⟨rfl, record, rfl⟩
  · rcases heapSearch_open layout zero searched with
      ⟨used, -⟩ | ⟨⟨pages, positive, within, scanned⟩, -⟩
    · exact absurd free used
    · rw [← roundUp_pages within] at scanned positive
      rcases scanned.allocation consistent positive looped with ⟨written, after, allocation⟩
      rw [roundUp_pages within] at positive
      rw [written]
      exact .inr ⟨pages, record, after, rfl, positive, within, allocation⟩

end Calls

end FosKernel
