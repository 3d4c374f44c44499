import FosKernel.UserHeap

/-! # Completeness of the next-fit search of the user heap

The counter of free pages is set back at the end of the heap and the search ends where it
began, so that a hole with the next-fit pointer inside is seen in two halves.
-/

namespace FosKernel.UserHeap

/-- Consecutive pages of the heap outside all live blocks. -/
structure FreeRange (live : List Record) (size first : Nat) : Prop where
  aligned : first % 4096 = 0
  lower : userHeapStart ≤ first
  upper : first + size ≤ userHeapMax
  free : ∀ address, first ≤ address → address < first + size →
    ∀ block ∈ live, ¬block.Contains address

/-- The bytes from `startAdd` on to `first`, in cyclic order. -/
def cyclicDistance (heap : Heap) (first : Nat) : Nat :=
  if heap.startAdd ≤ first then first - heap.startAdd
  else first + (userHeapMax - userHeapStart) - heap.startAdd

/-- The first free range in cyclic order. -/
structure FirstRange (heap : Heap) (live : List Record) (size first : Nat) : Prop where
  range : FreeRange live size first
  first : ∀ other, FreeRange live size other → cyclicDistance heap first ≤ cyclicDistance heap other

/-- `malloc` returns, with the first free range or with a null pointer and nothing
changed. -/
structure Complete (heap : Heap) (live : List Record) (size pointer : Nat) (after : Heap)
    (calls : List SystemCall) : Prop where
  returned : malloc true heap size = some (pointer, after, calls)
  null : pointer = 0 ↔ ¬∃ first, FreeRange live (roundUp size) first
  unchanged : pointer = 0 → after = heap
  first : pointer ≠ 0 → FirstRange heap live (roundUp size) pointer

/-- The next-fit pointer lies inside the range. -/
def Straddles (heap : Heap) (size first : Nat) : Prop :=
  first < heap.startAdd ∧ heap.startAdd < first + size

/-! ## Search -/

/-- Where the free ranges may still be: none of those that the pointer does not divide
starts before the current run. -/
structure Search.Ahead (heap : Heap) (live : List Record) (size : Nat) (search : Search) :
    Prop extends search.Sound heap live size where
  within : search.spacePages * 4096 + search.newSize ≤ userHeapMax - userHeapStart
  ahead : ∀ first, FreeRange live size first → ¬Straddles heap size first →
    userHeapMax - userHeapStart ≤ cyclicDistance heap first + search.spacePages * 4096 + search.newSize

section Loop

variable {heap : Heap} {live : List Record} {size : Nat} {search : Search}

theorem Search.start_ahead (valid : heap.Valid live) (positive : 0 < size) :
    (Search.start heap).Ahead heap live size where
  toSound := Search.start_sound valid positive
  within := (by decide : heapPages * 4096 + 0 ≤ userHeapMax - userHeapStart)
  ahead := by
    intro first _ _
    simp only [Search.start]
    grind

namespace Search.Ahead

/-- The address at which the current run starts. -/
theorem runStart_lower (ahead : search.Ahead heap live size) :
    userHeapStart + search.newSize ≤ search.newAdd := by
  cases flag : search.flag with
  | false =>
      rw [ahead.noRun flag]
      exact ahead.lower
  | true =>
      rcases ahead.run flag with ⟨lower, -, length, -⟩
      omega

/-- A range that is not behind the current run does not fit before the end of the heap. -/
theorem wrap (ahead : search.Ahead heap live size) (valid : heap.Valid live)
    (short : ¬size ≤ search.newSize + 4096)
    (atEnd : userHeapMax ≤ search.newAdd + 4096) {first : Nat}
    (range : FreeRange live size first) (apart : ¬Straddles heap size first) :
    userHeapMax - userHeapStart ≤ cyclicDistance heap first + (search.spacePages - 1) * 4096 := by
  have before := ahead.ahead first range apart
  have place := ahead.distance
  have aligned := ahead.aligned
  have upper := ahead.upper
  have startAligned := valid.startAligned
  have startLower := valid.startLower
  have startUpper := valid.startUpper
  have rangeUpper := range.upper
  have rangeLower := range.lower
  unfold cyclicDistance at before ⊢
  simp only [userHeapStart, userHeapMax] at *
  split at before <;> split <;> omega

/-- A range that is not behind the current run does not fit before a block. -/
theorem pass (ahead : search.Ahead heap live size) (valid : heap.Valid live)
    {block : Record} (member : block ∈ live)
    (start : block.first = search.newAdd) (fits : block.size / 4096 ≤ search.spacePages)
    {first : Nat} (range : FreeRange live size first) (apart : ¬Straddles heap size first) :
    userHeapMax - userHeapStart ≤
      cyclicDistance heap first + (search.spacePages - block.size / 4096) * 4096 := by
  have placed := valid.placed block member
  have apartFromBlock : first + size ≤ search.newAdd ∨
      search.newAdd + block.size ≤ first := by
    by_contra overlap
    rw [not_or] at overlap
    have positive := placed.positive
    have short := ahead.short
    refine range.free (max first search.newAdd) (le_max_left _ _) (by omega) block member ?_
    unfold Record.Contains
    omega
  have before := ahead.ahead first range apart
  have runLower := ahead.runStart_lower
  have place := ahead.distance
  have short := ahead.short
  have upper := placed.upper
  have pages := placed.pages
  have startLower := valid.startLower
  have startUpper := valid.startUpper
  have rangeUpper := range.upper
  have rangeLower := range.lower
  unfold cyclicDistance at before ⊢
  simp only [userHeapStart, userHeapMax] at *
  split at before <;> split <;> omega

/-- What is found is the first free range. -/
theorem firstRange (ahead : search.Ahead heap live size) (valid : heap.Valid live)
    (running : search.spacePages ≠ 0) (sizeAligned : size % 4096 = 0)
    (mark : heap.checkList (pageIndex search.newAdd) = 0)
    (enough : size ≤ search.newSize + 4096) :
    FirstRange heap live size search.runStart ∧ ¬Straddles heap size search.runStart := by
  rcases ahead.run_free valid mark with ⟨runLower, runAligned, runLength, runFree⟩
  have short := ahead.short
  have aligned := ahead.aligned
  have upper := ahead.upper
  have exact : search.newSize + 4096 = size := by omega
  have place := ahead.distance
  have within := ahead.within
  have startAligned := valid.startAligned
  have startLower := valid.startLower
  have startUpper := valid.startUpper
  have range : FreeRange live size search.runStart :=
    { aligned := runAligned
      lower := runLower
      upper := by
        simp only [userHeapMax] at *
        omega
      free := fun address above below => runFree address above (by omega) }
  have located : cyclicDistance heap search.runStart + search.spacePages * 4096 + search.newSize =
      userHeapMax - userHeapStart := by
    unfold cyclicDistance
    simp only [userHeapStart, userHeapMax] at *
    split <;> omega
  refine ⟨⟨range, fun other otherRange => ?_⟩, ?_⟩
  · by_cases apart : Straddles heap size other
    · have otherLower := otherRange.lower
      have otherDistance : cyclicDistance heap other =
          other + (userHeapMax - userHeapStart) - heap.startAdd :=
        if_neg (Nat.not_le.mpr apart.1)
      have behind := apart.2
      rw [otherDistance]
      simp only [userHeapStart, userHeapMax] at *
      omega
    · have later := ahead.ahead other otherRange apart
      omega
  · rintro ⟨before, behind⟩
    simp only [userHeapStart, userHeapMax] at *
    omega

theorem searchStep_cases (ahead : search.Ahead heap live size) (valid : heap.Valid live)
    (running : search.spacePages ≠ 0) (sizeAligned : size % 4096 = 0) :
    (searchStep heap size search).found = true ∧
        FirstRange heap live size (searchStep heap size search).startAdd ∧
          ¬Straddles heap size (searchStep heap size search).startAdd ∨
      (searchStep heap size search).Ahead heap live size ∧
        (searchStep heap size search).spacePages < search.spacePages := by
  have within := ahead.within
  rcases ahead.toSound.searchStep_cases valid running sizeAligned with found | ⟨next, less⟩
  · left
    refine ⟨found.finished, ?_⟩
    by_cases mark : heap.checkList (pageIndex search.newAdd) = 0
    · have finished := found.finished
      rw [ahead.searchStep_free valid running mark] at finished ⊢
      by_cases enough : size ≤ search.newSize + 4096
      · rw [if_pos enough]
        exact ahead.firstRange valid running sizeAligned mark enough
      · have unfinished := ahead.unfinished
        rw [if_neg enough] at finished
        split at finished <;> simp [unfinished] at finished
    · rcases ahead.searchStep_block valid running mark with ⟨block, member, start, fits, result⟩
      have unfinished := ahead.unfinished
      have finished := found.finished
      rw [result] at finished
      split at finished <;> simp [unfinished] at finished
  · refine .inr ⟨?_, less⟩
    clear less
    by_cases mark : heap.checkList (pageIndex search.newAdd) = 0
    · have result := ahead.searchStep_free valid running mark
      by_cases enough : size ≤ search.newSize + 4096
      · have unfinished := next.unfinished
        rw [result, if_pos enough] at unfinished
        exact absurd unfinished (by simp)
      rw [if_neg enough] at result
      by_cases atEnd : userHeapMax ≤ search.newAdd + 1 * 4096
      · rw [if_pos atEnd] at result
        rw [result] at next ⊢
        refine ⟨next, ?_, fun first range apart => ?_⟩
        · simp only
          grind
        · exact ahead.wrap valid enough atEnd range apart
      · rw [if_neg atEnd] at result
        rw [result] at next ⊢
        refine ⟨next, ?_, fun first range apart => ?_⟩
        · simp only
          grind
        · have before := ahead.ahead first range apart
          simp only
          grind
    · rcases ahead.searchStep_block valid running mark with ⟨block, member, start, fits, result⟩
      by_cases atEnd : userHeapMax ≤ search.newAdd + block.size / 4096 * 4096
      · rw [if_pos atEnd] at result
        rw [result] at next ⊢
        refine ⟨next, ?_, fun first range apart => ?_⟩
        · simp only
          grind
        · exact ahead.pass valid member start fits range apart
      · rw [if_neg atEnd] at result
        rw [result] at next ⊢
        refine ⟨next, ?_, fun first range apart => ?_⟩
        · simp only
          grind
        · exact ahead.pass valid member start fits range apart

/-- At the end of the search no range is left but those around the pointer. -/
theorem none_apart (ahead : search.Ahead heap live size) (valid : heap.Valid live)
    (ended : search.spacePages = 0) {first : Nat} (range : FreeRange live size first) :
    Straddles heap size first := by
  by_contra apart
  have before := ahead.ahead first range apart
  have runLower := ahead.runStart_lower
  have place := ahead.distance
  have upper := ahead.upper
  have short := ahead.short
  have startLower := valid.startLower
  have rangeUpper := range.upper
  have rangeLower := range.lower
  unfold Straddles at apart
  unfold cyclicDistance at before
  simp only [userHeapStart, userHeapMax] at *
  split at before <;> omega

end Search.Ahead

/-- The search finds the first free range, unless the pointer divides all of them. -/
theorem searchLoop_complete (valid : heap.Valid live) (positive : 0 < size)
    (sizeAligned : size % 4096 = 0) :
    ∃ final, searchLoop heap size (2 ^ 32) (Search.start heap) = some final ∧
      (final.found = true ∧ FirstRange heap live size final.startAdd ∧
          ¬Straddles heap size final.startAdd ∨
        final.Sound heap live size ∧ ∀ first, FreeRange live size first →
          Straddles heap size first) := by
  let found : Search → Prop := fun search =>
    FirstRange heap live size search.startAdd ∧ ¬Straddles heap size search.startAdd
  have step : ∀ search : Search, search.Ahead heap live size → search.spacePages ≠ 0 →
      (searchStep heap size search).found = true ∧ found (searchStep heap size search) ∨
        (searchStep heap size search).Ahead heap live size ∧
          (searchStep heap size search).spacePages < search.spacePages :=
    fun _ ahead running => ahead.searchStep_cases valid running sizeAligned
  rcases searchLoop_rule (fun _ ahead => ahead.unfinished) step
    (Search.start_ahead valid positive) (by decide : heapPages ≤ 2 ^ 32) with
    ⟨final, ended, found | ⟨ahead, searched⟩⟩
  · exact ⟨final, ended, .inl found⟩
  · exact ⟨final, ended, .inr ⟨ahead.toSound, fun first range =>
      ahead.none_apart valid searched range⟩⟩


end Loop

/-! ## Completeness -/

section Completeness

variable {heap : Heap} {live : List Record} {size : Nat}

/-- What `malloc` returns, by the end of its search. -/
theorem malloc_cases (valid : heap.Valid live) (positive : 0 < size) (upper : size ≤ 0xFFFFF000) :
    (malloc true heap size = some (0, heap, []) ∧
      ∀ first, FreeRange live (roundUp size) first → Straddles heap (roundUp size) first) ∨
      ∃ pointer after, malloc true heap size =
          some (pointer, after, [.allocateMem pointer (roundUp size)]) ∧ pointer ≠ 0 ∧
        FirstRange heap live (roundUp size) pointer ∧
          ¬Straddles heap (roundUp size) pointer := by
  have rounded := roundUp_eq upper
  have roundedPositive : 0 < roundUp size := by omega
  have roundedAligned : roundUp size % 4096 = 0 := by omega
  rcases searchLoop_complete valid roundedPositive roundedAligned with
    ⟨final, ended, ⟨found, first, apart⟩ | ⟨sound, straddles⟩⟩
  · have range := first.range
    have placed : Record.WellPlaced ⟨final.startAdd, roundUp size⟩ :=
      ⟨range.aligned, roundedAligned, roundedPositive, range.lower, range.upper⟩
    refine .inr ⟨final.startAdd, _, nextFitAlgo_found ended found placed.index_lt, ?_, first, apart⟩
    have := range.lower
    grind
  · exact .inl ⟨nextFitAlgo_null ended sound, straddles⟩

theorem complete_iff (valid : heap.Valid live) (positive : 0 < size) (upper : size ≤ 0xFFFFF000) :
    (∃ pointer after calls, Complete heap live size pointer after calls) ↔
      ((∃ first, FreeRange live (roundUp size) first) →
        ∃ first, FreeRange live (roundUp size) first ∧ ¬Straddles heap (roundUp size) first) := by
  rcases malloc_cases valid positive upper with
    ⟨null, straddles⟩ | ⟨pointer, after, allocated, nonzero, first, apart⟩
  · have same : ∀ {pointer after calls}, Complete heap live size pointer after calls →
        pointer = 0 := by
      intro pointer after calls complete
      have returned := null.symm.trans complete.returned
      simp only [Option.some.injEq, Prod.mk.injEq] at returned
      exact returned.1.symm
    constructor
    · rintro ⟨pointer, after, calls, complete⟩ some
      exact absurd some (complete.null.mp (same complete))
    · intro divided
      have none : ¬∃ first, FreeRange live (roundUp size) first := by
        intro some
        rcases divided some with ⟨first, range, apart⟩
        exact apart (straddles first range)
      exact ⟨0, heap, [], null, by simp [none], fun _ => rfl, by simp⟩
  · refine ⟨fun _ _ => ⟨pointer, first.range, apart⟩, fun _ => ?_⟩
    refine ⟨pointer, after, _, allocated, ?_, fun zero => absurd zero nonzero, fun _ => first⟩
    exact ⟨fun zero => absurd zero nonzero, fun none => absurd ⟨pointer, first.range⟩ none⟩

/-- In every state of every run `malloc` is complete exactly when the pointer does not
divide all free ranges that are long enough. -/
theorem malloc_complete_iff (run : Run heap live) (positive : 0 < size)
    (upper : size ≤ 0xFFFFF000) :
    (∃ pointer after calls, Complete heap live size pointer after calls) ↔
      ((∃ first, FreeRange live (roundUp size) first) →
        ∃ first, FreeRange live (roundUp size) first ∧ ¬Straddles heap (roundUp size) first) :=
  complete_iff run.valid positive upper

end Completeness

theorem malloc_complete_one_page :
    ∃ pointer after calls, Complete initial [] 4096 pointer after calls := by
  refine (malloc_complete_iff Run.start (by decide) (by decide)).mpr fun ⟨first, range⟩ => ?_
  refine ⟨first, range, fun straddles => ?_⟩
  exact absurd straddles.1 (Nat.not_lt.mpr range.lower)

/-- The heap after two blocks of one page, with the pointer at the second one. -/
theorem sample_two_blocks : ∃ heap, Run heap [⟨0x80001000, 0x1000⟩, ⟨0x80000000, 0x1000⟩] ∧
    heap.startAdd = 0x80001000 := by
  have first : malloc true initial 0x1000 = some (0x80000000,
      initial.place 0x80000000 0x1000, [.allocateMem 0x80000000 0x1000]) :=
    nextFitAlgo_found (rfl : searchLoop initial 0x1000 (2 ^ 32) (Search.start initial) =
      some ⟨0x80001000, 0x1000, 0x80000000, true, true, 0x1FFFF, 0x80000000⟩) rfl (by decide)
  have second : malloc true (initial.place 0x80000000 0x1000) 0x1000 = some (0x80001000,
      (initial.place 0x80000000 0x1000).place 0x80001000 0x1000,
      [.allocateMem 0x80001000 0x1000]) :=
    nextFitAlgo_found (rfl : searchLoop (initial.place 0x80000000 0x1000) 0x1000 (2 ^ 32)
      (Search.start (initial.place 0x80000000 0x1000)) =
      some ⟨0x80002000, 0x1000, 0x80001000, true, true, 0x1FFFE, 0x80001000⟩) rfl (by decide)
  have one := Run.malloc Run.start (by decide : 0 < 0x1000) (by decide) first
  have two := Run.malloc one (by decide : 0 < 0x1000) (by decide) second
  exact ⟨_, two, rfl⟩

/-- Two pages are freed, with the pointer at the second one. The whole heap is free and a
block of its size is not found. -/
theorem malloc_incomplete_around_pointer :
    ∃ heap, Run heap [] ∧
      ¬∃ pointer after calls, Complete heap [] 0x20000000 pointer after calls := by
  rcases sample_two_blocks with ⟨heap, run, pointer⟩
  rcases free_valid run.valid (List.mem_cons_self) 0 with ⟨one, released, startOne, -⟩
  have runOne := Run.free run List.mem_cons_self released
  rw [List.erase_cons_head] at runOne
  rcases free_valid runOne.valid (List.mem_singleton_self _) 0 with
    ⟨two, releasedTwo, startTwo, -⟩
  have runTwo := Run.free runOne (List.mem_singleton_self _) releasedTwo
  rw [List.erase_cons_head] at runTwo
  refine ⟨two, runTwo, fun complete => ?_⟩
  have start : two.startAdd = 0x80001000 := startTwo.trans (startOne.trans pointer)
  have whole : FreeRange [] (roundUp 0x20000000) userHeapStart :=
    ⟨by decide, by decide, by decide, by simp⟩
  rcases (complete_iff runTwo.valid (by decide) (by decide)).mp complete ⟨_, whole⟩ with
    ⟨first, range, apart⟩
  have lower := range.lower
  have upper := range.upper
  have size : roundUp 0x20000000 = 0x20000000 := rfl
  refine apart ⟨?_, ?_⟩
  · rw [start]
    grind
  · rw [start]
    grind

/-! ## Release of other pointers -/

/-- `free` stays within its arrays, changes nothing and asks for no page to be freed. The
argument `size` is what the local variable holds before the loop. -/
def Ignored (size : Nat) (heap : Heap) (address : Nat) : Prop :=
  ∃ calls, free size heap address = some (heap, calls) ∧
    ∀ first length, .freeMem first length ∈ calls → length = 0

section Release

variable {heap : Heap} {live : List Record} {size address : Nat}

theorem findRecord_none : findRecord heap address = none ↔
    ∀ index < heapPages, (heap.uHeapArr index).first ≠ address := by
  unfold findRecord
  simp only [List.find?_eq_none, List.mem_range, decide_eq_true_eq]

theorem findRecord_some {index : Nat} (found : findRecord heap address = some index) :
    (heap.uHeapArr index).first = address := by
  unfold findRecord at found
  simpa using List.find?_some found

/-- A pointer is ignored exactly when no record has it and the local variable is zero. -/
theorem ignored_iff_unrecorded :
    Ignored size heap address ↔ findRecord heap address = none ∧ size = 0 := by
  cases found : findRecord heap address with
  | none =>
      have result : free size heap address = some (heap, [.freeMem address size]) := by
        rw [free, found]
      constructor
      · rintro ⟨calls, returned, idle⟩
        rw [result, Option.some.injEq, Prod.mk.injEq] at returned
        exact ⟨rfl, idle address size (by simp [← returned.2])⟩
      · rintro ⟨-, rfl⟩
        exact ⟨_, result, by simp⟩
  | some index =>
      refine ⟨?_, by simp⟩
      rintro ⟨calls, returned, -⟩
      have recorded := findRecord_some found
      rw [free, found] at returned
      by_cases outside : heapPages ≤ pageIndex address
      · simp only [if_pos outside] at returned
        exact absurd returned (by simp)
      · simp only [if_neg outside, Option.some.injEq, Prod.mk.injEq] at returned
        have cleared : heap.uHeapArr index = ⟨0, 0⟩ := by
          have same := congrFun (congrArg Heap.uHeapArr returned.1) index
          simpa using same.symm
        rw [cleared] at recorded
        subst recorded
        exact absurd (by decide) outside

/-- In every state of every run a pointer that is no live block is ignored exactly when
the uninitialised variable happens to be zero and the pointer is not null, unless every
page starts a live block. -/
theorem free_ignores_iff (run : Run heap live)
    (unknown : ∀ block ∈ live, block.first ≠ address) :
    Ignored size heap address ↔ size = 0 ∧ (address = 0 →
      ∀ index < heapPages, ∃ block ∈ live, pageIndex block.first = index) := by
  have valid := run.valid
  have unrecorded : findRecord heap address = none ↔ (address = 0 →
      ∀ index < heapPages, ∃ block ∈ live, pageIndex block.first = index) := by
    rw [findRecord_none]
    constructor
    · rintro absent rfl index bound
      by_contra unused
      push Not at unused
      exact absent index bound (by rw [(valid.unmarked index unused).2])
    · intro full index bound recorded
      by_cases used : ∃ block ∈ live, pageIndex block.first = index
      · rcases used with ⟨block, member, rfl⟩
        rw [(valid.marked block member).2] at recorded
        exact unknown block member recorded
      · have unused := used
        push Not at unused
        rw [(valid.unmarked index unused).2] at recorded
        exact used (full recorded.symm index bound)
  rw [ignored_iff_unrecorded, unrecorded, and_comm]

end Release

theorem free_ignores_zero_size : Ignored 0 initial 0x80001000 :=
  (free_ignores_iff Run.start (by simp)).mpr ⟨rfl, by decide⟩

/-- The null pointer writes outside `checkList`, and a pointer that was never allocated
lets the kernel free as many bytes as the uninitialised variable says. -/
theorem free_of_other_pointers :
    (∀ size, free size initial 0 = none) ∧
      free 0x1000 initial 0x80001000 = some (initial, [.freeMem 0x80001000 0x1000]) ∧
      ¬Ignored 0x1000 initial 0x80001000 := by
  have none : findRecord initial 0x80001000 = none :=
    findRecord_none.mpr fun index _ => by simp [initial]
  refine ⟨fun size => ?_, ?_, ?_⟩
  · cases found : findRecord initial 0 with
    | none => exact absurd rfl (findRecord_none.mp found 0 (by decide))
    | some index =>
        rw [free, found]
        exact if_pos (by decide)
  · rw [free, none]
  · rw [ignored_iff_unrecorded]
    simp

end FosKernel.UserHeap
